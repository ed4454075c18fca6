/-
Finite maps from names to values.

A `KeyMap` lists its entries in increasing order of their names, each name once.  The order of names
is the order of their code points, which is also the byte order of their encodings.  Two maps with the
same entries are therefore equal, and every listing of a map is sorted.
-/

namespace VariantFold

variable {α : Type}

/-- The value listed under `key`. -/
def findEntry (key : String) : List (String × α) → Option α
  | [] => none
  | (k, v) :: rest => if k = key then some v else findEntry key rest

/-- Puts an entry into a list in increasing order of names, over any entry of the same name. -/
def insertEntry (key : String) (value : α) : List (String × α) → List (String × α)
  | [] => [(key, value)]
  | (k, v) :: rest =>
    if key < k then (key, value) :: (k, v) :: rest
    else if k = key then (key, value) :: rest
    else (k, v) :: insertEntry key value rest

/-- Entries stand in increasing order of their names, each name once. -/
def SortedEntries (entries : List (String × α)) : Prop :=
  entries.Pairwise fun a b => a.1 < b.1

theorem mem_insertEntry {key : String} {value : α} {e : String × α} {l : List (String × α)}
    (h : e ∈ insertEntry key value l) : e = (key, value) ∨ e ∈ l := by
  induction l with
  | nil => simpa [insertEntry] using h
  | cons hd tl ih =>
    obtain ⟨k, v⟩ := hd
    rw [insertEntry] at h
    split at h
    · simpa using h
    · split at h
      · rcases List.mem_cons.1 h with rfl | h
        · exact Or.inl rfl
        · exact Or.inr (List.mem_cons_of_mem _ h)
      · rcases List.mem_cons.1 h with rfl | h
        · exact Or.inr List.mem_cons_self
        · exact (ih h).imp_right (List.mem_cons_of_mem _)

theorem SortedEntries.insertEntry (key : String) (value : α) {l : List (String × α)}
    (h : SortedEntries l) : SortedEntries (insertEntry key value l) := by
  induction l with
  | nil => simp [VariantFold.insertEntry, SortedEntries]
  | cons hd tl ih =>
    obtain ⟨k, v⟩ := hd
    have htl : SortedEntries tl := (List.pairwise_cons.1 h).2
    have hhd := (List.pairwise_cons.1 h).1
    rw [VariantFold.insertEntry]
    split
    · rename_i hlt
      refine List.pairwise_cons.2 ⟨fun e he => ?_, h⟩
      rcases List.mem_cons.1 he with rfl | he
      · exact hlt
      · exact String.lt_trans hlt (hhd e he)
    · split
      · rename_i heq
        subst heq
        exact List.pairwise_cons.2 ⟨hhd, htl⟩
      · rename_i hge hne
        have hlt : k < key := by
          refine Decidable.byContradiction fun hn => hne ?_
          exact String.le_antisymm (String.not_lt.1 hge) (String.not_lt.1 hn)
        refine List.pairwise_cons.2 ⟨fun e he => ?_, ih htl⟩
        rcases mem_insertEntry he with rfl | he
        · exact hlt
        · exact hhd e he

theorem findEntry_insertEntry (key k : String) (value : α) (l : List (String × α)) :
    findEntry k (insertEntry key value l) = if key = k then some value else findEntry k l := by
  induction l with
  | nil => simp [insertEntry, findEntry]
  | cons hd tl ih =>
    obtain ⟨k', v⟩ := hd
    rw [insertEntry]
    split
    · by_cases h : key = k <;> simp [findEntry, h]
    · split
      · rename_i heq
        subst heq
        by_cases h : k' = k <;> simp [findEntry, h]
      · rename_i hne
        by_cases h : k' = k
        · subst h
          simp [findEntry, Ne.symm hne]
        · simp [findEntry, h, ih]

/-- A finite map from names to values, listed in increasing order of names. -/
structure KeyMap (α : Type) where
  /-- The entries, in increasing order of their names. -/
  entries : List (String × α)
  /-- No name is out of order or listed twice. -/
  sorted : SortedEntries entries

namespace KeyMap

/-- The map without entries. -/
def empty : KeyMap α := ⟨[], List.Pairwise.nil⟩

instance : Inhabited (KeyMap α) := ⟨empty⟩

/-- The value of a name. -/
def get? (m : KeyMap α) (key : String) : Option α := findEntry key m.entries

/-- Gives a name a value, in place of any earlier one. -/
def insert (m : KeyMap α) (key : String) (value : α) : KeyMap α :=
  ⟨insertEntry key value m.entries, m.sorted.insertEntry key value⟩

/-- Takes a name out of the map. -/
def erase (m : KeyMap α) (key : String) : KeyMap α :=
  ⟨m.entries.filter fun e => e.1 ≠ key, m.sorted.filter _⟩

/-- The number of names. -/
def size (m : KeyMap α) : Nat := m.entries.length

/-- Whether the map has no entry. -/
def isEmpty (m : KeyMap α) : Bool := m.entries.isEmpty

/-- Inserts entries one after the other: of two with one name, the later stays. -/
def insertAll (m : KeyMap α) (entries : List (String × α)) : KeyMap α :=
  entries.foldl (fun m e => m.insert e.1 e.2) m

/-- The map of a list of entries: of two with one name, the later stays. -/
def ofList (entries : List (String × α)) : KeyMap α := empty.insertAll entries

@[ext] theorem ext {m n : KeyMap α} (h : m.entries = n.entries) : m = n := by
  obtain ⟨_, _⟩ := m
  obtain ⟨_, _⟩ := n
  simp_all

@[simp] theorem get?_empty (key : String) : (empty : KeyMap α).get? key = none := rfl

theorem get?_insert (m : KeyMap α) (key k : String) (value : α) :
    (m.insert key value).get? k = if key = k then some value else m.get? k :=
  findEntry_insertEntry key k value m.entries

@[simp] theorem get?_insert_self (m : KeyMap α) (key : String) (value : α) :
    (m.insert key value).get? key = some value := by
  simp [get?_insert]

end KeyMap

end VariantFold
