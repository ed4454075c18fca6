/-
Cutting text at a separator.
-/

namespace VariantFold.Text

/-- Cuts a list at every occurrence of a separator; the pieces between, before and after may be
empty, and there is always at least one. -/
def pieces (sep : Char) : List Char → List (List Char)
  | [] => [[]]
  | c :: rest =>
    if c = sep then [] :: pieces sep rest
    else match pieces sep rest with
      | [] => [[c]]
      | first :: others => (c :: first) :: others

/-- The fields of a text that a separator divides. -/
def fields (sep : Char) (s : String) : List String :=
  (pieces sep s.toList).map String.ofList

/-- The text before and after the first occurrence of a separator. -/
def cutFirst (sep : Char) (s : String) : Option (String × String) :=
  let cs := s.toList
  if sep ∈ cs then
    some (String.ofList (cs.takeWhile (· ≠ sep)), String.ofList ((cs.dropWhile (· ≠ sep)).drop 1))
  else none

theorem pieces_ne_nil (sep : Char) (cs : List Char) : pieces sep cs ≠ [] := by
  cases cs with
  | nil => simp [pieces]
  | cons c rest =>
    rw [pieces]
    split
    · simp
    · split <;> simp

end VariantFold.Text
