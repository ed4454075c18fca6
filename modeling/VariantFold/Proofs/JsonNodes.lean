/-
Nodes that are written and read back.

Between the text of a node and the node stand its tokens.  In any style that adds nothing but blanks, a
node is written as a text that spells its tokens (`Snapshot.spells_write`), and from its tokens the node
is read back, whatever follows (`Snapshot.IsExact.readsBack`).  Floating point numbers are left out.
-/
import VariantFold.Proofs.JsonTokens
import VariantFold.Proofs.KeyMaps
import VariantFold.Tree.Json

namespace VariantFold

open Json

namespace Json

variable {style : Style} {cs : List Char} {ts : List Token}

/-! ### Styles -/

/-- A style that adds nothing but blanks. -/
structure Style.IsBlank (style : Style) : Prop where
  line : ∀ level, ∀ c ∈ style.line level, isSpace c = true
  gap : ∀ c ∈ style.gap, isSpace c = true

lemma Style.isBlank_compact : Style.compact.IsBlank := ⟨by simp [compact], by simp [compact]⟩

lemma Style.isBlank_pretty : Style.pretty.IsBlank := by
  refine ⟨fun level c hc => ?_, fun c hc => ?_⟩
  · rcases List.mem_cons.1 hc with rfl | hc
    · rfl
    · rw [List.eq_of_mem_replicate hc]
      rfl
  · rw [List.mem_singleton.1 hc]
    rfl

/-- A blank ends a number. -/
lemma endsNumber_blanks {blanks : List Char} (hblanks : ∀ c ∈ blanks, isSpace c = true)
    (hcs : EndsNumber cs) : EndsNumber (blanks ++ cs) := by
  rcases blanks with _ | ⟨b, blanks⟩
  · exact hcs
  · intro c hc
    obtain rfl : b = c := Option.some_injective _ hc
    have hb := hblanks b List.mem_cons_self
    simp only [isSpace, Bool.or_eq_true, decide_eq_true_eq] at hb
    rcases hb with ((rfl | rfl) | rfl) | rfl <;> decide

lemma endsNumber_comma : EndsNumber (',' :: cs) := by
  intro c hc
  obtain rfl : ',' = c := Option.some_injective _ hc
  decide

lemma endsNumber_closeBrace : EndsNumber ('\x7d' :: cs) := by
  intro c hc
  obtain rfl : '\x7d' = c := Option.some_injective _ hc
  decide

/-! ### Objects of scalars -/

/-- The items of a list or the members of an object, with commas between. -/
def separated : List (List Token) → List Token
  | [] => []
  | first :: others => first ++ others.flatMap (Token.comma :: ·)

/-- The tokens of a member of an object of scalars. -/
def memberTokens (e : String × Scalar) : List Token :=
  [.string (some e.1), .colon, scalarToken e.2]

/-- The tokens of an object of scalars. -/
def mapTokens (entries : List (String × Scalar)) : List Token :=
  .openBrace :: (separated (entries.map memberTokens) ++ [.closeBrace])

/-- A key in front of a value. -/
lemma Spells.field (hstyle : style.IsBlank) (h : Spells cs ts) (key : String) :
    Spells (memberText style key cs) (.string (some key) :: .colon :: ts) :=
  (h.blanks hstyle.gap).colon.string key

lemma memberText_append (style : Style) (key : String) (value cs : List Char) :
    memberText style key value ++ cs = memberText style key (value ++ cs) := by
  simp [memberText]

lemma Spells.member (hstyle : style.IsBlank) (level : Nat) (h : Spells cs ts) (hcs : EndsNumber cs)
    {e : String × Scalar} (he : e.2.isExact = true) :
    Spells (style.line level ++ memberText style e.1 (scalarText e.2) ++ cs)
      (memberTokens e ++ ts) := by
  rw [List.append_assoc, memberText_append]
  exact ((h.scalar he hcs).field hstyle e.1).blanks (hstyle.line level)

/-- The members of an object, of which there is at least one. -/
lemma Spells.members (hstyle : style.IsBlank) (level : Nat) (h : Spells cs ts) (hcs : EndsNumber cs)
    (e : String × Scalar) (es : List (String × Scalar))
    (hes : ∀ e' ∈ e :: es, e'.2.isExact = true) :
    Spells (membersText style level (e :: es) ++ cs)
      (separated ((e :: es).map memberTokens) ++ ts) := by
  induction es generalizing e with
  | nil =>
    obtain ⟨key, value⟩ := e
    have hone := h.member hstyle level hcs (hes _ List.mem_cons_self)
    simpa [membersText, separated] using hone
  | cons e' es ih =>
    obtain ⟨key, value⟩ := e
    have hrest := ih e' fun e'' he'' => hes e'' (List.mem_cons_of_mem _ he'')
    have hone := hrest.comma.member hstyle level endsNumber_comma (hes _ List.mem_cons_self)
    simpa [membersText, separated] using hone

/-- An object with at least one member. -/
lemma Spells.object (hstyle : style.IsBlank) (level : Nat) (h : Spells cs ts) {entries : KeyMap Scalar}
    (hne : entries.entries ≠ []) (hes : ∀ e ∈ entries.entries, e.2.isExact = true) :
    Spells (objectText style level entries ++ cs) (mapTokens entries.entries ++ ts) := by
  obtain ⟨e, es, heq⟩ := List.exists_cons_of_ne_nil hne
  have hclose := h.closeBrace.blanks (hstyle.line level)
  have hends : EndsNumber (style.line level ++ '\x7d' :: cs) :=
    endsNumber_blanks (hstyle.line level) endsNumber_closeBrace
  have hmembers := (hclose.members hstyle (level + 1) hends e es (heq ▸ hes)).openBrace
  rw [objectText, mapTokens, heq]
  simpa using hmembers

/-- The members that follow the first are read up to the closing brace. -/
lemma readMembers_tokens (limit : Option Nat) {es : List (String × Scalar)}
    (hes : ∀ e ∈ es, e.2.isExact = true) (acc : KeyMap Scalar) (ts : List Token) :
    readMembers limit false acc ((es.map memberTokens).flatMap (Token.comma :: ·) ++
      .closeBrace :: ts) = .ok (acc.insertAll es, ts) := by
  induction es generalizing acc with
  | nil =>
    rw [List.map_nil, List.flatMap_nil, List.nil_append, readMembers]
    rfl
  | cons e es ih =>
    have hvalue := readScalar_scalarToken (hes e List.mem_cons_self) limit
    change readMembers limit false acc (.comma :: .string (some e.1) :: .colon :: scalarToken e.2 ::
      ((es.map memberTokens).flatMap (Token.comma :: ·) ++ .closeBrace :: ts)) = _
    rw [readMembers, hvalue]
    exact ih (fun e' he' => hes e' (List.mem_cons_of_mem e he')) (acc.insert e.1 e.2)

/-- All members are read up to the closing brace. -/
lemma readMembers_separated (limit : Option Nat) {es : List (String × Scalar)}
    (hes : ∀ e ∈ es, e.2.isExact = true) (ts : List Token) :
    readMembers limit true KeyMap.empty (separated (es.map memberTokens) ++ .closeBrace :: ts) =
      .ok (KeyMap.ofList es, ts) := by
  rcases es with _ | ⟨e, es⟩
  · rw [List.map_nil, separated, List.nil_append, readMembers]
    rfl
  · have hvalue := readScalar_scalarToken (hes e List.mem_cons_self) limit
    change readMembers limit true KeyMap.empty (.string (some e.1) :: .colon :: scalarToken e.2 ::
      ((es.map memberTokens).flatMap (Token.comma :: ·) ++ .closeBrace :: ts)) = _
    rw [readMembers, hvalue]
    exact readMembers_tokens limit (fun e' he' => hes e' (List.mem_cons_of_mem e he')) _ ts

/-- An object of scalars is read back from its tokens. -/
lemma readMap_tokens (limit : Option Nat) {m : KeyMap Scalar}
    (hm : ∀ e ∈ m.entries, e.2.isExact = true) (ts : List Token) :
    readMap limit (mapTokens m.entries ++ ts) = .ok (m, ts) := by
  rw [mapTokens, List.cons_append, List.append_assoc, List.singleton_append, readMap,
    readMembers_separated limit hm, KeyMap.ofList_entries]

end Json

/-! ### Nodes -/

namespace Snapshot

/-- The tokens of a node, given those of its children. -/
def nodeTokens (kind : Kind) (attributes : Attributes) (items : List (List Token)) : List Token :=
  .openBrace :: .string (some "type") :: .colon :: .string (some kind.name) ::
    ((if attributes.isEmpty then []
      else .comma :: .string (some "attributes") :: .colon :: mapTokens attributes.entries) ++
      ((if items.isEmpty then []
        else .comma :: .string (some "children") :: .colon :: .openBracket ::
          (separated items ++ [.closeBracket])) ++ [.closeBrace]))

mutual

/-- The tokens of a node. -/
def tokens : Snapshot → List Token
  | node kind attributes children => nodeTokens kind attributes (tokensEach children)

/-- The tokens of each of some nodes. -/
def tokensEach : List Snapshot → List (List Token)
  | [] => []
  | s :: rest => tokens s :: tokensEach rest

end

lemma tokensEach_eq (ss : List Snapshot) : tokensEach ss = ss.map tokens := by
  induction ss with
  | nil => rw [tokensEach, List.map_nil]
  | cons s ss ih => rw [tokensEach, ih, List.map_cons]

lemma tokens_node (kind : Kind) (attributes : Attributes) (children : List Snapshot) :
    (node kind attributes children).tokens =
      nodeTokens kind attributes (children.map tokens) := by
  rw [tokens, tokensEach_eq]

/-- No attribute of a node or of what is below it is a floating point number. -/
inductive IsExact : Snapshot → Prop
  | node {kind : Kind} {attributes : Attributes} {children : List Snapshot}
      (hattributes : ∀ e ∈ attributes.entries, e.2.isExact = true)
      (hchildren : ∀ s ∈ children, IsExact s) : IsExact (node kind attributes children)

variable {style : Style}

/-- Nodes that spell their tokens, in a list. -/
lemma spells_writeItems (hstyle : style.IsBlank) (level : Nat) (s : Snapshot) (ss : List Snapshot)
    (hs : ∀ s' ∈ s :: ss, ∀ after ts, Spells after ts →
      Spells (s'.write style level after) (s'.tokens ++ ts))
    {after : List Char} {ts : List Token} (h : Spells after ts) :
    Spells (writeItems style level (s :: ss) after)
      (separated ((s :: ss).map tokens) ++ ts) := by
  induction ss generalizing s with
  | nil =>
    rw [writeItems, if_pos List.isEmpty_nil]
    simpa [separated] using (hs s List.mem_cons_self _ _ h).blanks (hstyle.line level)
  | cons s' ss ih =>
    have hrest := ih s' fun s'' hs'' => hs s'' (List.mem_cons_of_mem s hs'')
    rw [writeItems, if_neg (by simp)]
    have hall := (hs s List.mem_cons_self _ _ hrest.comma).blanks (hstyle.line level)
    simpa [separated] using hall

/-- What follows the attributes of a node. -/
lemma spells_children (hstyle : style.IsBlank) (level : Nat) (ss : List Snapshot)
    (hs : ∀ s ∈ ss, ∀ level after ts, Spells after ts →
      Spells (s.write style level after) (s.tokens ++ ts))
    {after : List Char} {ts : List Token} (h : Spells after ts) :
    Spells (if ss.isEmpty then style.line level ++ '\x7d' :: after
        else ',' :: (style.line (level + 1) ++ memberText style "children"
          ('[' :: writeItems style (level + 2) ss
            (style.line (level + 1) ++ ']' :: (style.line level ++ '\x7d' :: after)))))
      ((if (ss.map tokens).isEmpty then []
        else .comma :: .string (some "children") :: .colon :: .openBracket ::
          (separated (ss.map tokens) ++ [.closeBracket])) ++ .closeBrace :: ts) := by
  have hclose := h.closeBrace.blanks (hstyle.line level)
  rcases ss with _ | ⟨s, ss⟩
  · simpa using hclose
  · have hitems := spells_writeItems hstyle (level + 2) s ss
      (fun s' hs' after ts => hs s' hs' (level + 2) after ts)
      (hclose.closeBracket.blanks (hstyle.line (level + 1)))
    have hfield := ((hitems.openBracket.field hstyle "children").blanks (hstyle.line (level + 1))).comma
    simpa using hfield

/-- What follows the type of a node. -/
lemma spells_attributes (hstyle : style.IsBlank) (level : Nat) {attributes : Attributes}
    (hattributes : ∀ e ∈ attributes.entries, e.2.isExact = true) {cs : List Char} {ts : List Token}
    (h : Spells cs ts) :
    Spells ((if attributes.isEmpty then [] else ',' :: (style.line level ++
        memberText style "attributes" (objectText style level attributes))) ++ cs)
      ((if attributes.isEmpty then [] else .comma :: .string (some "attributes") :: .colon ::
        mapTokens attributes.entries) ++ ts) := by
  split
  · exact h
  · rename_i hne
    have hobject := h.object hstyle level (by simpa [KeyMap.isEmpty] using hne) hattributes
    have hfield := ((hobject.field hstyle "attributes").blanks (hstyle.line level)).comma
    simpa [memberText_append] using hfield

/-- A node is written as a text that spells its tokens. -/
lemma spells_write (hstyle : style.IsBlank) {s : Snapshot} (hs : s.IsExact) (level : Nat)
    {after : List Char} {ts : List Token} (h : Spells after ts) :
    Spells (s.write style level after) (s.tokens ++ ts) := by
  induction hs generalizing level after ts with
  | @node kind attributes children hattributes hchildren ih =>
    -- from the last field to the first, as each is put in front of what follows
    have hrest := spells_children hstyle level children (fun s hs level after ts => ih s hs level) h
    have hattr := spells_attributes hstyle (level + 1) hattributes hrest
    have htype := (hattr.string kind.name).field hstyle "type"
    rw [write, tokens_node, nodeTokens]
    simpa [memberText_append] using (htype.blanks (hstyle.line (level + 1))).openBrace

/-! ### Reading -/

section Reading

variable {kind : Kind} {attributes : Option Attributes} {children : List Snapshot} {n : Nat}

lemma readFields_type (n : Nat) (kind : Kind) (ts : List Token) :
    readFields (n + 1) true {} (.string (some "type") :: .colon :: .string (some kind.name) :: ts) =
      readFields n false { kind := some kind } ts := by
  have hkind : readKind (.string (some kind.name) :: ts) = .ok (kind, ts) := by
    rw [readKind, Kind.ofName?_name]
  rw [readFields]
  · simp [readKey, readColon, hkind, bind, Except.bind]
  · simp

lemma readFields_attributes (n : Nat) (kind : Kind) {m : Attributes}
    (hm : ∀ e ∈ m.entries, e.2.isExact = true) (ts : List Token) :
    readFields (n + 1) false { kind := some kind } (.comma :: .string (some "attributes") :: .colon ::
      (mapTokens m.entries ++ ts)) =
      readFields n false { kind := some kind, attributes := some m } ts := by
  rw [readFields]
  · simp [readKey, readColon, readMap_tokens none hm, bind, Except.bind]
  · simp

lemma readFields_children {ts us : List Token}
    (h : readChildren n us = .ok (children, ts)) :
    readFields (n + 1) false { kind := some kind, attributes := attributes }
      (.comma :: .string (some "children") :: .colon :: us) =
      readFields n false
        { kind := some kind, attributes := attributes, children := some children } ts := by
  rw [readFields]
  · simp [readKey, readColon, h, bind, Except.bind]
  · simp

lemma readFields_close (n : Nat) (isFirst : Bool) (fields : Fields) (ts : List Token) :
    readFields (n + 1) isFirst fields (.closeBrace :: ts) = fields.close.map (·, ts) := by
  rw [readFields]

/-- The node is read back from its tokens if there is a step for each of them. -/
def ReadsBack (s : Snapshot) : Prop :=
  ∀ n ts, s.tokens.length ≤ n → read n (s.tokens ++ ts) = .ok (s, ts)

lemma readRest_tokens {ss : List Snapshot} (hs : ∀ s ∈ ss, s.ReadsBack)
    (hn : ((ss.map tokens).flatMap (Token.comma :: ·)).length < n) (ts : List Token) :
    readRest n ((ss.map tokens).flatMap (Token.comma :: ·) ++ .closeBracket :: ts) = .ok (ss, ts) := by
  induction ss generalizing n with
  | nil =>
    obtain ⟨n, rfl⟩ := Nat.exists_eq_succ_of_ne_zero (Nat.ne_zero_of_lt hn)
    rw [List.map_nil, List.flatMap_nil, List.nil_append, readRest]
  | cons s ss ih =>
    obtain ⟨n, rfl⟩ := Nat.exists_eq_succ_of_ne_zero (Nat.ne_zero_of_lt hn)
    rw [List.map_cons, List.flatMap_cons, List.cons_append, List.length_cons,
      List.length_append] at hn
    have hfirst := hs s List.mem_cons_self n
      ((ss.map tokens).flatMap (Token.comma :: ·) ++ .closeBracket :: ts) (by omega)
    have hrest := ih (fun s' hs' => hs s' (List.mem_cons_of_mem s hs')) (n := n) (by omega)
    rw [List.map_cons, List.flatMap_cons, List.cons_append, List.cons_append, List.append_assoc,
      readRest, hfirst]
    simp only [bind, Except.bind, hrest]
    rfl

lemma tokens_eq_cons (s : Snapshot) : ∃ ts, s.tokens = .openBrace :: ts := by
  obtain ⟨kind, attributes, children⟩ := s
  exact ⟨_, by rw [tokens_node, nodeTokens]⟩

lemma readChildren_tokens {s : Snapshot} {ss : List Snapshot} (hs : ∀ s' ∈ s :: ss, s'.ReadsBack)
    (hn : (separated ((s :: ss).map tokens)).length + 1 < n) (ts : List Token) :
    readChildren n (.openBracket :: (separated ((s :: ss).map tokens) ++ .closeBracket :: ts)) =
      .ok (s :: ss, ts) := by
  obtain ⟨n, rfl⟩ := Nat.exists_eq_succ_of_ne_zero (Nat.ne_zero_of_lt hn)
  rw [List.map_cons, separated, List.length_append] at hn
  have hfirst := hs s List.mem_cons_self n
    ((ss.map tokens).flatMap (Token.comma :: ·) ++ .closeBracket :: ts) (by omega)
  have hrest := readRest_tokens (fun s' hs' => hs s' (List.mem_cons_of_mem s hs')) (n := n) (by omega) ts
  rw [List.map_cons, separated, List.append_assoc, readChildren]
  · rw [hfirst]
    simp only [bind, Except.bind, hrest]
    rfl
  · obtain ⟨us, hus⟩ := tokens_eq_cons s
    rw [hus]
    simp

/-- The last fields of a node. -/
lemma readFields_rest (hs : ∀ s ∈ children, s.ReadsBack) {us : List Token}
    (hus : us = if (children.map tokens).isEmpty then []
      else .comma :: .string (some "children") :: .colon :: .openBracket ::
        (separated (children.map tokens) ++ [.closeBracket]))
    (hn : us.length < n) (ts : List Token) :
    readFields n false { kind := some kind, attributes := attributes } (us ++ .closeBrace :: ts) =
      .ok (node kind (attributes.getD KeyMap.empty) children, ts) := by
  obtain ⟨n, rfl⟩ := Nat.exists_eq_succ_of_ne_zero (Nat.ne_zero_of_lt hn)
  rcases children with _ | ⟨s, ss⟩
  · obtain rfl : us = [] := by simpa using hus
    exact readFields_close n false _ ts
  · rw [if_neg (by simp)] at hus
    subst hus
    simp only [List.length_cons, List.length_append, List.length_nil] at hn
    obtain ⟨n, rfl⟩ : ∃ m, n = m + 1 := ⟨n - 1, by omega⟩
    have hchildren := readChildren_tokens hs (n := n + 1) (by omega) (.closeBrace :: ts)
    simp only [List.cons_append, List.append_assoc, List.nil_append]
    rw [readFields_children hchildren]
    exact readFields_close n false _ ts

/-- A node is read back from its tokens. -/
lemma IsExact.readsBack {s : Snapshot} (hs : s.IsExact) : s.ReadsBack := by
  induction hs with
  | @node kind attributes children hattributes hchildren ih =>
    intro n ts hn
    rw [tokens_node, nodeTokens] at hn ⊢
    generalize hus : (if (children.map tokens).isEmpty then [] else _) = us at hn ⊢
    simp only [List.length_cons, List.length_append, List.length_nil] at hn
    -- one step for the brace, one for the type, and one for the attributes if there are any
    obtain ⟨n, rfl⟩ : ∃ m, n = m + 3 := ⟨n - 3, by omega⟩
    simp only [List.cons_append, List.append_assoc, List.nil_append]
    rw [read, readFields_type]
    by_cases hempty : attributes.isEmpty = true
    · have hnil : attributes = KeyMap.empty := KeyMap.ext (List.isEmpty_iff.1 hempty)
      rw [if_pos hempty] at hn ⊢
      rw [List.nil_append, readFields_rest ih hus.symm (by omega), hnil]
      rfl
    · rw [if_neg hempty] at hn ⊢
      simp only [List.length_cons, List.cons_append] at hn ⊢
      rw [readFields_attributes n kind hattributes, readFields_rest ih hus.symm (by omega)]
      rfl

end Reading

/-! ### Whole texts -/

/-- Written text is read back. -/
theorem ofJson_toJson {s : Snapshot} (hs : s.IsExact) (hstyle : style.IsBlank) :
    ofJson (s.toJson style) = .ok s := by
  have hspells : Spells (s.toJson style).toList s.tokens := by
    have h := spells_write hstyle hs 0 spells_nil
    rwa [List.append_nil, ← String.toList_ofList (l := s.write style 0 [])] at h
  have hread := hs.readsBack (2 * s.tokens.length + 2) [] (by omega)
  rw [List.append_nil] at hread
  rw [ofJson, hspells.tokens_eq, hread]
  rfl

end Snapshot

end VariantFold
