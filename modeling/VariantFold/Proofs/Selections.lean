/-
Which entry a selection takes.

The key of an entry and the second argument of a comparison list alternatives in the same way, with bars
between them.  A word is one of the alternatives exactly if it has no bar and is found between two bars in
the list, once a bar is put at either end (`isSetMatch_iff`).  A selection looks for the words that mean
the same as the text of the value (`Branch.aliases`), so it is described by the test that a comparison
makes: the first entry with one of these words among its alternatives, or else the last with the word for
the default (`Branch.choose_eq_find`).  Where an alternative is in the list plays no part.

Selections and comparisons agree on strings that are no word for on or off.  On other values they differ: a
selection goes by the text of a value, and only a string passes a comparison.
-/
import VariantFold.Proofs.Queries
import VariantFold.Proofs.ReadBack
import VariantFold.Step.IsSet

namespace VariantFold

/-! ### Alternatives between bars -/

namespace Text

variable {sep : Char} {cs s : List Char}

lemma not_mem_of_mem_pieces (h : s ∈ pieces sep cs) : sep ∉ s := by
  induction cs generalizing s with
  | nil =>
    rw [pieces, List.mem_singleton] at h
    simp [h]
  | cons c cs ih =>
    rw [pieces] at h
    split at h
    · rcases List.mem_cons.1 h with rfl | h
      · simp
      · exact ih h
    · rename_i hc
      rcases hpieces : pieces sep cs with _ | ⟨first, others⟩
      · exact absurd hpieces (pieces_ne_nil sep cs)
      · rw [hpieces] at h ih
        rcases List.mem_cons.1 h with rfl | h
        · exact mt List.mem_cons.1 (not_or.2 ⟨Ne.symm hc, ih List.mem_cons_self⟩)
        · exact ih (List.mem_cons_of_mem _ h)

/-- A text with a separator at either end is its pieces, each with a separator in front, and the last
separator. -/
lemma flatMap_pieces (sep : Char) (cs : List Char) :
    (pieces sep cs).flatMap (sep :: ·) ++ [sep] = sep :: (cs ++ [sep]) := by
  induction cs with
  | nil => rfl
  | cons c cs ih =>
    rw [pieces]
    split
    · rename_i hc
      rw [List.flatMap_cons, List.append_assoc, ih, hc]
      rfl
    · rcases hpieces : pieces sep cs with _ | ⟨first, others⟩
      · exact absurd hpieces (pieces_ne_nil sep cs)
      · rw [hpieces] at ih
        simpa using ih

/-- A piece is what has no separator in it and is found between two separators. -/
lemma mem_pieces_iff : s ∈ pieces sep cs ↔
    sep ∉ s ∧ sep :: (s ++ [sep]) <:+: sep :: (cs ++ [sep]) := by
  constructor
  · intro h
    refine ⟨not_mem_of_mem_pieces h, ?_⟩
    obtain ⟨before, after, hsplit⟩ := List.append_of_mem h
    -- what follows the piece starts with a separator, be it the last one
    obtain ⟨rest, hrest⟩ : ∃ rest, after.flatMap (sep :: ·) ++ [sep] = sep :: rest := by
      cases after with
      | nil => exact ⟨[], rfl⟩
      | cons next after => exact ⟨next ++ (after.flatMap (sep :: ·) ++ [sep]), by simp⟩
    refine ⟨before.flatMap (sep :: ·), rest, ?_⟩
    rw [← flatMap_pieces sep cs, hsplit, List.flatMap_append, List.flatMap_cons, List.append_assoc,
      List.append_assoc, List.append_assoc, hrest]
    simp
  · rintro ⟨hs, u, v, huv⟩
    have hcut : pieces sep u ++ s :: pieces sep v = [] :: (pieces sep cs ++ [[]]) := by
      calc pieces sep u ++ s :: pieces sep v
          = pieces sep (u ++ sep :: (s ++ sep :: v)) := by
            rw [pieces_append, pieces_append, pieces_of_not_mem hs]
            rfl
        _ = pieces sep ([] ++ sep :: (cs ++ sep :: [])) := congrArg _ (by simpa using huv)
        _ = [] :: (pieces sep cs ++ [[]]) := by
            rw [pieces_append, pieces_append]
            rfl
    -- the pieces before and after it are at least one each: it is neither the first nor the last
    rcases hu : pieces sep u with _ | ⟨first, before⟩
    · exact absurd hu (pieces_ne_nil sep u)
    obtain ⟨after, last, hv⟩ :=
      (List.eq_nil_or_concat' (pieces sep v)).resolve_left (pieces_ne_nil sep v)
    rw [hu, hv] at hcut
    have hinner : before ++ s :: after ++ [last] = pieces sep cs ++ [[]] := by
      rw [List.append_assoc]
      exact (List.cons.inj hcut).2
    rw [← List.append_inj_left' hinner rfl]
    simp

end Text

/-- Only a string passes a comparison. -/
lemma isSetMatch_of_str?_eq_none {v : Scalar} (hv : v.str? = none) (keys : String) :
    isSetMatch keys v = false := by
  rw [isSetMatch, hv]

/-- The test that a comparison makes: the value has no bar and is found between two bars. -/
lemma isSetMatch_iff (keys s : String) : isSetMatch keys (.string s) = true ↔
    '|' ∉ s.toList ∧ ("|" ++ s ++ "|").toList <:+: ("|" ++ keys ++ "|").toList := by
  have hmem : s ∈ Text.fields '|' keys ↔ s.toList ∈ Text.pieces '|' keys.toList := by
    rw [Text.fields, List.mem_map]
    constructor
    · rintro ⟨cs, hcs, rfl⟩
      rwa [String.toList_ofList]
    · intro h
      exact ⟨_, h, String.ofList_toList⟩
  have hbars : ∀ s : String, ("|" ++ s ++ "|").toList = '|' :: (s.toList ++ ['|']) := by simp
  rw [isSetMatch_eq_decide, decide_eq_true_iff, hmem, Text.mem_pieces_iff, hbars, hbars]

lemma isSetMatch_perm {keys keys' : String}
    (h : (Text.fields '|' keys).Perm (Text.fields '|' keys')) (configured : Scalar) :
    isSetMatch keys configured = isSetMatch keys' configured := by
  rw [isSetMatch, isSetMatch]
  split
  · exact decide_eq_decide.2 h.mem_iff
  · rfl

/-! ### Selections -/

namespace Branch

/-- The words that mean the same as a word. -/
def aliases (word : String) : List String :=
  if word ∈ onWords then onWords else if word ∈ offWords then offWords else [word]

lemma aliases_of_not_mem {word : String} (hon : word ∉ onWords) (hoff : word ∉ offWords) :
    aliases word = [word] := by
  rw [aliases, if_neg hon, if_neg hoff]

lemma fits_iff (key word : String) : fits key word = true ↔ key ∈ aliases word := by
  have hapart : word ∈ onWords → word ∉ offWords := by
    simp only [onWords, offWords, List.mem_cons, List.not_mem_nil, or_false]
    rintro (rfl | rfl) <;> decide
  simp only [fits, Bool.or_eq_true, Bool.and_eq_true, decide_eq_true_iff, aliases]
  by_cases hon : word ∈ onWords
  · simp only [hon, hapart hon, if_true, and_true, and_false, or_false]
    exact or_iff_right_of_imp fun heq => heq ▸ hon
  · by_cases hoff : word ∈ offWords
    · simp only [hon, hoff, if_false, if_true, and_true, and_false, or_false]
      exact or_iff_right_of_imp fun heq => heq ▸ hoff
    · simp [hon, hoff]

/-- An entry is taken for a word if one of the words that mean the same is an alternative. -/
lemma any_fits (b : Branch) (word : String) : (b.alternatives.any fun key => fits key word) =
    (aliases word).any fun a => isSetMatch b.keys (.string a) := by
  rw [Bool.eq_iff_iff, List.any_eq_true, List.any_eq_true]
  simp only [fits_iff, isSetMatch_eq_decide, decide_eq_true_iff]
  exact exists_congr fun a => and_comm

/-- The entry for a value, by the test that a comparison makes. -/
lemma choose_eq_find (branches : List Branch) (v : Scalar) : choose branches v =
    ((branches.find? fun b => (aliases v.text).any fun a => isSetMatch b.keys (.string a)).or
      (branches.reverse.find? fun b => isSetMatch b.keys (.string defaultKey))).map value := by
  rw [choose, chooseText_eq, Option.or_none]
  simp only [any_fits]
  rfl

/-- Where an alternative is among the others plays no part. -/
lemma choose_congr {branches branches' : List Branch}
    (h : List.Forall₂ (fun b b' : Branch =>
      b.value = b'.value ∧ b.alternatives.Perm b'.alternatives) branches branches') (v : Scalar) :
    choose branches v = choose branches' v := by
  have hchoose : ∀ fallback, chooseText v.text fallback branches =
      chooseText v.text fallback branches' := by
    induction h with
    | nil => exact fun _ => rfl
    | @cons b b' rest rest' hb _ ih =>
      intro fallback
      have hfits : (b.alternatives.any fun key => fits key v.text) =
          b'.alternatives.any fun key => fits key v.text := by
        rw [any_fits, any_fits]
        simp only [isSetMatch_perm hb.2]
      rw [chooseText, chooseText, scan_eq, scan_eq, hfits, hb.1]
      simp only [hb.2.mem_iff, ih]
  exact hchoose none

/-- A choice between an entry and the default looks for the text of the value among the alternatives of the
entry. -/
lemma choose_or_default {v : Scalar} (hon : v.text ∉ onWords) (hoff : v.text ∉ offWords)
    (keys : String) (yes no : NodeId) : choose [⟨keys, yes⟩, ⟨defaultKey, no⟩] v =
      some (if v.text ∈ Text.fields '|' keys then yes else no) := by
  have hdefault : defaultKey ∈ Text.fields '|' defaultKey := by decide
  rw [choose_eq_find, aliases_of_not_mem hon hoff]
  simp only [List.any_cons, List.any_nil, Bool.or_false, isSetMatch_eq_decide]
  by_cases hkeys : v.text ∈ Text.fields '|' keys
  · simp [hkeys]
  · by_cases hother : v.text ∈ Text.fields '|' defaultKey
    · simp [hkeys, hother]
    · simp [hkeys, hother, hdefault]

end Branch

/-- How a selection chooses, and how comparisons and selections are related.  The entry for a value is the
first that has one of the words for it among its alternatives, or else the last that has the word for the
default, where to be among the alternatives is to have no bar and to be found between two bars.  So for a
string that is no word for on or off, a choice between an entry and the default is made as a comparison is;
a value that is no string passes no comparison, and the choice is made by its text.  Words for on are not told
apart, nor words for off, truth values included; and the order of the alternatives plays no part. -/
theorem selection_by_alternatives :
    (∀ (branches : List Branch) (v : Scalar), Branch.choose branches v =
      ((branches.find? fun b => (Branch.aliases v.text).any fun a => isSetMatch b.keys (.string a)).or
        (branches.reverse.find? fun b =>
          isSetMatch b.keys (.string Branch.defaultKey))).map Branch.value) ∧
    (∀ keys s : String, isSetMatch keys (.string s) = true ↔
      '|' ∉ s.toList ∧ ("|" ++ s ++ "|").toList <:+: ("|" ++ keys ++ "|").toList) ∧
    (∀ (s keys : String) (yes no : NodeId), s ∉ Branch.onWords → s ∉ Branch.offWords →
      Branch.choose [⟨keys, yes⟩, ⟨Branch.defaultKey, no⟩] (.string s) =
        some (if isSetMatch keys (.string s) then yes else no)) ∧
    (∀ (v : Scalar) (keys : String), v.str? = none → isSetMatch keys v = false ∧
      ∀ yes no : NodeId, v.text ∉ Branch.onWords → v.text ∉ Branch.offWords →
        Branch.choose [⟨keys, yes⟩, ⟨Branch.defaultKey, no⟩] v =
          some (if v.text ∈ Text.fields '|' keys then yes else no)) ∧
    (∀ branches : List Branch,
      Branch.choose branches (.bool true) = Branch.choose branches (.string "true") ∧
      Branch.choose branches (.bool true) = Branch.choose branches (.string "on") ∧
      Branch.choose branches (.bool false) = Branch.choose branches (.string "false") ∧
      Branch.choose branches (.bool false) = Branch.choose branches (.string "off")) ∧
    (∀ (branches branches' : List Branch) (v : Scalar),
      List.Forall₂ (fun b b' : Branch =>
        b.value = b'.value ∧ b.alternatives.Perm b'.alternatives) branches branches' →
      Branch.choose branches v = Branch.choose branches' v) ∧
    ∀ (keys keys' : String) (v : Scalar), (Text.fields '|' keys).Perm (Text.fields '|' keys') →
      isSetMatch keys v = isSetMatch keys' v := by
  refine ⟨Branch.choose_eq_find, isSetMatch_iff, ?_, ?_, ?_, ?_, ?_⟩
  · intro s keys yes no hon hoff
    simp only [isSetMatch_eq_decide, decide_eq_true_iff]
    exact Branch.choose_or_default (v := .string s) hon hoff keys yes no
  · intro v keys hv
    refine ⟨isSetMatch_of_str?_eq_none hv keys, ?_⟩
    intro yes no hon hoff
    exact Branch.choose_or_default hon hoff keys yes no
  · intro branches
    have htext : ∀ v v' : Scalar, Branch.aliases v.text = Branch.aliases v'.text →
        Branch.choose branches v = Branch.choose branches v' := by
      intro v v' heq
      rw [Branch.choose_eq_find, Branch.choose_eq_find, heq]
    exact ⟨htext _ _ rfl, htext _ _ (by decide), htext _ _ rfl, htext _ _ (by decide)⟩
  · intro branches branches' v h
    exact Branch.choose_congr h v
  · intro keys keys' v h
    exact isSetMatch_perm h v

/-- A list of alternatives with an empty one, in two orders, and a value that is no string. -/
theorem selection_by_alternatives_emptyAlternative :
    "mid" ∉ Branch.onWords ∧ "mid" ∉ Branch.offWords ∧
    Branch.choose [⟨"a||mid", 1⟩, ⟨Branch.defaultKey, 2⟩] (.string "mid") = some 1 ∧
    Scalar.null.str? = none ∧ isSetMatch "a||null" .null = false ∧
    Branch.choose [⟨"a||null", 1⟩, ⟨Branch.defaultKey, 2⟩] .null = some 1 ∧
    (Text.fields '|' "a||mid").Perm (Text.fields '|' "|mid|a") ∧
    Branch.choose [⟨"a||mid", 1⟩] (.string "") = Branch.choose [⟨"|mid|a", 1⟩] (.string "") ∧
    isSetMatch "a||mid" (.string "") = isSetMatch "|mid|a" (.string "") := by
  obtain ⟨-, -, hagree, hother, -, horder, horder'⟩ := selection_by_alternatives
  have hperm : (Text.fields '|' "a||mid").Perm (Text.fields '|' "|mid|a") := by decide
  obtain ⟨hnull, hchoose⟩ := hother .null "a||null" rfl
  refine ⟨by decide, by decide, ?_, rfl, hnull, ?_, hperm, ?_, horder' _ _ _ hperm⟩
  · rw [hagree "mid" "a||mid" 1 2 (by decide) (by decide)]
    decide
  · rw [hchoose 1 2 (by decide) (by decide)]
    decide
  · exact horder _ _ _ (List.Forall₂.cons ⟨rfl, hperm⟩ List.Forall₂.nil)

/-- A number is chosen by its text, which is no word for on or off, and does not pass the comparison with the
same alternatives. -/
theorem selection_apart_from_comparison :
    (Scalar.int 1).text ∉ Branch.onWords ∧ (Scalar.int 1).text ∉ Branch.offWords ∧
    Branch.choose [⟨"1", 1⟩, ⟨Branch.defaultKey, 2⟩] (.int 1) = some 1 ∧
    isSetMatch "1" (.int 1) = false := by
  decide

end VariantFold
