/-
An append-only store.

Items are named by the order of their arrival: the first is item 0.  An item can be changed but never
removed, so a name stays valid for the life of the store.
-/

namespace VariantFold

/-- Items named by the order of their arrival. -/
structure Store (α : Type) where
  /-- The items, the item `i` at index `i`. -/
  items : Array α
  deriving DecidableEq, Repr

namespace Store

variable {α : Type}

/-- The name of an item. -/
abbrev Id := Nat

/-- Names are words of 32 bits: of a larger number the low bits count. -/
def idOfNat (n : Nat) : Id := n % UInt32.size

/-- The store without items. -/
def empty : Store α := ⟨#[]⟩

instance : Inhabited (Store α) := ⟨empty⟩

/-- The number of items. -/
def size (s : Store α) : Nat := s.items.size

/-- Whether there is no item. -/
def isEmpty (s : Store α) : Bool := s.size = 0

/-- Adds an item and gives its name. -/
def alloc (s : Store α) (item : α) : Id × Store α := (s.size, ⟨s.items.push item⟩)

/-- The item of a name. -/
def get? (s : Store α) (id : Id) : Option α := s.items[id]?

/-- Changes the item of a name; a name without an item changes nothing. -/
def modify (s : Store α) (id : Id) (f : α → α) : Store α := ⟨s.items.modify id f⟩

/-- The items with their names, in order of arrival. -/
def toList (s : Store α) : List (Id × α) := s.items.toList.zipIdx.map fun e => (e.2, e.1)

/-- The complaint about a name without an item. -/
def outOfRange (s : Store α) (id : Id) : String :=
  s!"index out of bounds: the len is {s.size} but the index is {id}"

/-- The item of a name, or the complaint that there is none. -/
def get (s : Store α) (id : Id) : Except String α :=
  match s.get? id with
  | some item => .ok item
  | none => .error (s.outOfRange id)

/-- Overwrites the item of a name, or complains that there is none. -/
def set (s : Store α) (id : Id) (item : α) : Except String (Store α) :=
  if id < s.size then .ok (s.modify id fun _ => item) else .error (s.outOfRange id)

@[simp] theorem size_alloc (s : Store α) (item : α) : (s.alloc item).2.size = s.size + 1 := by
  simp [alloc, size]

@[simp] theorem size_modify (s : Store α) (id : Id) (f : α → α) : (s.modify id f).size = s.size := by
  simp [modify, size]

theorem get?_alloc (s : Store α) (item : α) (id : Id) :
    (s.alloc item).2.get? id = if id = s.size then some item else s.get? id := by
  by_cases h : id = s.items.size <;> simp [alloc, get?, size, Array.getElem?_push, h]

theorem get?_modify (s : Store α) (id i : Id) (f : α → α) :
    (s.modify id f).get? i = if id = i then (s.get? i).map f else s.get? i := by
  simp [modify, get?, Array.getElem?_modify]

end Store

end VariantFold
