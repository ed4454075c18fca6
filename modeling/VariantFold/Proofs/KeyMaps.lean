/-
Maps by the values that they give.

A map is determined by what it gives for each name (`KeyMap.ext_get?`).  When entries are inserted one after
the other, the last of those with a name gives its value (`KeyMap.get?_insertAll`), so that entries of which no
two have one name may be inserted in any order.
-/
import Mathlib.Data.List.Induction
import Mathlib.Data.List.Nodup
import VariantFold.KeyMap

namespace VariantFold

variable {α : Type} {key : String} {value : α}

/-! ### Entries -/

/-- The value of the last entry with a name. -/
def lastValue? (key : String) (entries : List (String × α)) : Option α :=
  (entries.reverse.find? fun e => e.1 = key).map Prod.snd

lemma lastValue?_append (entries entries' : List (String × α)) :
    lastValue? key (entries ++ entries') = (lastValue? key entries').or (lastValue? key entries) := by
  rw [lastValue?, List.reverse_append, List.find?_append, Option.map_or]
  rfl

lemma lastValue?_concat (entries : List (String × α)) (e : String × α) :
    lastValue? key (entries ++ [e]) = if e.1 = key then some e.2 else lastValue? key entries := by
  rw [lastValue?_append]
  by_cases h : e.1 = key
  · rw [if_pos h]
    simp [lastValue?, h]
  · rw [if_neg h]
    simp [lastValue?, h]

lemma lastValue?_eq_none_iff {entries : List (String × α)} :
    lastValue? key entries = none ↔ ∀ e ∈ entries, e.1 ≠ key := by
  rw [lastValue?, Option.map_eq_none_iff, List.find?_eq_none]
  simp only [List.mem_reverse, decide_eq_true_eq, ne_eq]

/-- If no name stands twice, an entry is found from either end. -/
lemma map_find?_eq_some_iff {entries : List (String × α)} (hnodup : (entries.map Prod.fst).Nodup) :
    (entries.find? fun e => e.1 = key).map Prod.snd = some value ↔ (key, value) ∈ entries := by
  constructor
  · intro h
    obtain ⟨e, he, rfl⟩ := Option.map_eq_some_iff.1 h
    have hname : e.1 = key := by simpa using List.find?_some he
    rw [← hname]
    exact List.mem_of_find?_eq_some he
  · intro hmem
    have hsome : (entries.find? fun e => e.1 = key).isSome = true :=
      List.find?_isSome.2 ⟨(key, value), hmem, by simp⟩
    obtain ⟨e, he⟩ := Option.isSome_iff_exists.1 hsome
    have hname : e.1 = key := by simpa using List.find?_some he
    have heq : e = (key, value) := List.inj_on_of_nodup_map hnodup (List.mem_of_find?_eq_some he) hmem hname
    rw [he, heq]
    rfl

lemma lastValue?_eq_some_iff {entries : List (String × α)} (hnodup : (entries.map Prod.fst).Nodup) :
    lastValue? key entries = some value ↔ (key, value) ∈ entries := by
  rw [lastValue?, map_find?_eq_some_iff, List.mem_reverse]
  rwa [List.map_reverse, List.nodup_reverse]

/-- No entry after the last one has its name. -/
lemma lastValue?_eq_some_iff_append {entries : List (String × α)} :
    lastValue? key entries = some value ↔
      ∃ before after, entries = before ++ (key, value) :: after ∧ ∀ e ∈ after, e.1 ≠ key := by
  constructor
  · intro h
    obtain ⟨e, he, rfl⟩ := Option.map_eq_some_iff.1 h
    obtain ⟨hname, after, before, heq, hafter⟩ := List.find?_eq_some_iff_append.1 he
    obtain rfl : e.1 = key := by simpa using hname
    refine ⟨before.reverse, after.reverse, ?_, fun e he => ?_⟩
    · rw [← List.reverse_reverse entries, heq]
      simp
    · simpa using hafter e (List.mem_reverse.1 he)
  · rintro ⟨before, after, rfl, hafter⟩
    rw [← List.singleton_append, ← List.append_assoc, lastValue?_append, lastValue?_eq_none_iff.2 hafter,
      lastValue?_concat, if_pos rfl, Option.none_or]

lemma findEntry_eq (entries : List (String × α)) :
    findEntry key entries = (entries.find? fun e => e.1 = key).map Prod.snd := by
  induction entries with
  | nil => rfl
  | cons e entries ih =>
    obtain ⟨k, v⟩ := e
    by_cases h : k = key
    · simp [findEntry, h]
    · simp [findEntry, h, ih]

/-! ### Maps -/

namespace KeyMap

lemma nodup_names (m : KeyMap α) : (m.entries.map Prod.fst).Nodup := by
  refine List.Pairwise.map Prod.fst (fun a b hlt => ?_) m.sorted
  exact String.ne_of_lt hlt

lemma get?_eq_some_iff (m : KeyMap α) : m.get? key = some value ↔ (key, value) ∈ m.entries := by
  rw [get?, findEntry_eq, map_find?_eq_some_iff m.nodup_names]

/-- Maps that give the same for each name are equal. -/
lemma ext_get? {m n : KeyMap α} (h : ∀ key, m.get? key = n.get? key) : m = n := by
  have hmem : ∀ e, e ∈ m.entries ↔ e ∈ n.entries := by
    rintro ⟨key, value⟩
    rw [← m.get?_eq_some_iff, ← n.get?_eq_some_iff, h]
  have hperm : m.entries.Perm n.entries :=
    (List.perm_ext_iff_of_nodup m.nodup_names.of_map n.nodup_names.of_map).2 hmem
  -- there is only one order for the entries
  refine KeyMap.ext (hperm.eq_of_pairwise (fun a b _ _ hab hba => ?_) m.sorted n.sorted)
  exact absurd hba (String.lt_asymm hab)

/-- Of the entries with one name, the last to be inserted stays. -/
lemma get?_insertAll (m : KeyMap α) (entries : List (String × α)) :
    (m.insertAll entries).get? key = (lastValue? key entries).or (m.get? key) := by
  induction entries using List.reverseRecOn with
  | nil => rfl
  | append_singleton entries e ih =>
    have hlast : m.insertAll (entries ++ [e]) = (m.insertAll entries).insert e.1 e.2 := by
      rw [insertAll, List.foldl_append]
      rfl
    rw [hlast, get?_insert, lastValue?_concat, ih]
    split_ifs <;> rfl

/-- The entries of a map, in any order, give what the map gives. -/
lemma lastValue?_of_perm (m : KeyMap α) {entries : List (String × α)} (h : entries.Perm m.entries) :
    lastValue? key entries = m.get? key := by
  have hnodup : (entries.map Prod.fst).Nodup := (h.map Prod.fst).nodup_iff.2 m.nodup_names
  refine Option.ext fun value => ?_
  rw [lastValue?_eq_some_iff hnodup, h.mem_iff, m.get?_eq_some_iff]

/-- The entries of a map make the map again. -/
lemma ofList_entries (m : KeyMap α) : ofList m.entries = m := by
  refine ext_get? fun key => ?_
  rw [ofList, get?_insertAll, m.lastValue?_of_perm (List.Perm.refl _), get?_empty, Option.or_none]

end KeyMap

lemma SortedEntries.findEntry_eq_some_iff {entries : List (String × α)} (h : SortedEntries entries) :
    findEntry key entries = some value ↔ (key, value) ∈ entries :=
  KeyMap.get?_eq_some_iff ⟨entries, h⟩

end VariantFold
