/-
Path names, and a directory of text files.

Files are found by path names as usual: parts divided by slashes, where `.` stays and `..` goes up.  The
directory stands in others, up to the one that a slash at the front starts from.  What else is in those
is not known.
-/
import VariantFold.KeyMap
import VariantFold.Text.Fields

namespace VariantFold

/-! ### Parts of path names -/

namespace Path

/-- The last part of a path.  Slashes and dots at the end do not count; a path that ends by going up has
none. -/
def fileName? (path : String) : Option String :=
  match ((Text.fields '/' path).filter fun part => part ≠ "" && part ≠ ".").getLast? with
  | some ".." => none
  | last => last

/-- Cuts a file name before its last dot; a dot at the front does not count. -/
def cutExtension (name : String) : String × Option String :=
  let back := name.toList.reverse
  let extension := (back.takeWhile (· ≠ '.')).reverse
  match back.dropWhile (· ≠ '.') with
  | _ :: c :: stem => (String.ofList (c :: stem).reverse, some (String.ofList extension))
  | _ => (name, none)

/-- The name of a file without its extension. -/
def stem? (path : String) : Option String := (fileName? path).map fun name => (cutExtension name).1

/-- The extension of a file: what follows the last dot of its name. -/
def extension? (path : String) : Option String := fileName? path >>= fun name => (cutExtension name).2

end Path

/-! ### Files -/

/-- A directory with all files below it, by the paths that lead to them. -/
structure Directory where
  /-- The texts of the files.  A path has no empty parts, and no parts that stay or go up. -/
  files : KeyMap String := KeyMap.empty

/-- Why a file cannot be read or written. -/
inductive FileError where
  /-- There is nothing under the name. -/
  | missing
  /-- A directory is wanted where a file is. -/
  | notDirectory
  /-- A file is wanted where a directory is. -/
  | isDirectory
  /-- A name is longer than names can be. -/
  | nameTooLong
  /-- A name holds a character that no name can hold. -/
  | badName
  /-- Something else is in the way. -/
  | other (text : String)
  deriving DecidableEq, Repr

/-- What is said about a file that cannot be read or written. -/
def FileError.message : FileError → String
  | missing => "No such file or directory (os error 2)"
  | notDirectory => "Not a directory (os error 20)"
  | isDirectory => "Is a directory (os error 21)"
  | nameTooLong => "File name too long (os error 36)"
  | badName => "file name contained an unexpected NUL byte"
  | other text => text

namespace Directory

/-- The name of a file by its parts. -/
def pathText (parts : List String) : String := "/".intercalate parts

/-- Where a path name leads. -/
inductive Place where
  /-- To a name below the directory, or to the directory itself. -/
  | inside (parts : List String)
  /-- To a directory around it. -/
  | around
  /-- To a name in a directory around it. -/
  | beyond
  deriving DecidableEq, Repr

/-- Whether parts lead to a directory: they are none, or some file is below them. -/
def isDirectory (d : Directory) (parts : List String) : Bool :=
  parts.isEmpty || d.files.entries.any fun (name, _) => (pathText parts ++ "/").isPrefixOf name

/-- The most bytes that a part of a path name has. -/
def partLimit : Nat := 255

/-- The most bytes that a path name has. -/
def pathLimit : Nat := 4095

/-- What is wrong with going on from a place, if it is no directory. -/
def blocked? (d : Directory) : Place → Option FileError
  | .around => none
  | .beyond => some .missing
  | .inside parts =>
    if d.isDirectory parts then none
    else if (d.files.get? (pathText parts)).isSome then some .notDirectory
    else some .missing

/-- The place that a part of a path name leads to from a directory. -/
def Place.enter (place : Place) (part : String) : Place :=
  if part = "" ∨ part = "." then place
  else match place with
    | .inside parts =>
      if part = ".." then if parts = [] then .around else .inside parts.dropLast
      else .inside (parts ++ [part])
    | .around => if part = ".." then .around else .beyond
    | .beyond => .beyond

/-- Follows the parts of a path name. -/
def follow (d : Directory) : Place → List String → Except FileError Place
  | place, [] => .ok place
  | place, part :: rest =>
    match d.blocked? place with
    | some e => .error e
    | none =>
      if partLimit < part.utf8ByteSize then .error .nameTooLong
      else d.follow (place.enter part) rest

/-- Where the parts of a path name are followed from. -/
def startPlace (path : String) : Place := if path.startsWith "/" then .around else .inside []

/-- What is wrong with a path name, whatever there is under it. -/
def badPath? (path : String) : Option FileError :=
  if path.contains (Char.ofNat 0) then some .badName
  else if pathLimit < path.utf8ByteSize then some .nameTooLong
  else if path = "" then some .missing
  else none

/-- Where a path name leads. -/
def locate (d : Directory) (path : String) : Except FileError Place :=
  match badPath? path with
  | some e => .error e
  | none => d.follow (startPlace path) (Text.fields '/' path)

/-- The file that is always empty. -/
def nullFile : String := "/dev/null"

/-- The text of a file. -/
def read (d : Directory) (path : String) : Except FileError String := do
  if path = nullFile then return ""
  match ← d.locate path with
  | .around => .error .isDirectory
  | .beyond => .error .missing
  | .inside parts =>
    match d.files.get? (pathText parts) with
    | some text => return text
    | none => if d.isDirectory parts then .error .isDirectory else .error .missing

/-- The parts before the last one of a path name, which slashes follow. -/
def upperParts (path : String) : List String :=
  let bare := (path.toList.reverse.dropWhile (· = '/')).reverse
  (Text.fields '/' (String.ofList bare)).dropLast

/-- What is wrong with writing to a path name that ends in a slash: it speaks of a directory, if the way
there is free.  Its last part is not looked at. -/
def slashError (d : Directory) (path : String) : FileError :=
  match d.follow (startPlace path) (upperParts path) with
  | .error e => e
  | .ok place => (d.blocked? place).getD .isDirectory

/-- Gives a file a text; the file may be new, its directory may not. -/
def write (d : Directory) (path text : String) : Except FileError Directory := do
  if path = nullFile then return d
  if let some e := badPath? path then throw e
  if path.endsWith "/" then throw (d.slashError path)
  match ← d.locate path with
  | .around => .error .isDirectory
  | .beyond => return d
  | .inside parts =>
    if d.isDirectory parts then .error .isDirectory
    else return ⟨d.files.insert (pathText parts) text⟩

/-- The files of a directory that are new, or differ from those of an older one. -/
def changes (d older : Directory) : List (String × String) :=
  d.files.entries.filter fun (name, text) => older.files.get? name ≠ some text

/-- A directory with the given files. -/
def ofList (files : List (String × String)) : Directory :=
  let tidy (name : String) : String :=
    pathText ((Text.fields '/' name).filter fun part => part ≠ "" && part ≠ ".")
  ⟨KeyMap.ofList (files.map fun (name, text) => (tidy name, text))⟩

end Directory

end VariantFold
