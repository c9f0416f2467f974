import AvroTypings.Path

/-!
# File trees

A directory with everything below it, as a value. Files hold bytes, and directories hold named
entries in the order in which they are enumerated. Places in a tree are given by the names on the
way to them from its root, outermost first. Names are texts: a tree has no names whose bytes are not
UTF-8, and what the program makes of such names is left open.

No run takes anything out of a tree or lists all of it. `FileTree.erase`, `FileTree.clear` and
`FileTree.listing` only serve to set up the trees that runs are tested on, and to compare what the
runs leave behind.

## Main definitions

* `FileTree`: files and directories.
* `IoError`: why an operation on a tree fails, with the wording.
* `FileTree.get?`: what stands at a place.
* `FileTree.update`: changing what stands at a place.
* `FileTree.listing`: every place below the root.
-/

namespace AvroTypings

/-- A file or a directory. -/
inductive FileTree where
  | file (contents : ByteArray)
  | directory (entries : List (String × FileTree))

instance : Inhabited FileTree := ⟨.directory []⟩

/-- Why an operation on files fails. -/
inductive IoError where
  | notFound
  | notADirectory
  | isADirectory
  | alreadyExists
  /-- A name, or a whole path, is longer than any can be. -/
  | nameTooLong
  /-- A path holds the null character. -/
  | nullInPath
  /-- The current directory cannot be taken away by that name. -/
  | invalidArgument
  | notEmpty
  | notText
  | other (text : String)
  deriving DecidableEq

namespace IoError

/-- The wording of a failure. -/
def message : IoError → String
  | notFound => "No such file or directory (os error 2)"
  | alreadyExists => "File exists (os error 17)"
  | notADirectory => "Not a directory (os error 20)"
  | isADirectory => "Is a directory (os error 21)"
  | invalidArgument => "Invalid argument (os error 22)"
  | nameTooLong => "File name too long (os error 36)"
  | notEmpty => "Directory not empty (os error 39)"
  | nullInPath => "file name contained an unexpected NUL byte"
  | notText => "stream did not contain valid UTF-8"
  | other text => text

end IoError

namespace FileTree

/-- Whether a tree is a directory. -/
def isDirectory : FileTree → Bool
  | directory _ => true
  | file _ => false

/-- What stands at a place. -/
def get? : FileTree → List String → Option FileTree
  | t, [] => some t
  | file _, _ :: _ => none
  | directory entries, name :: place => (entries.lookup name).bind fun t => t.get? place

/-- Sets an entry: what had that name is replaced, and a new name goes to the end. -/
def setEntry (name : String) (t : FileTree) : List (String × FileTree) → List (String × FileTree)
  | [] => [(name, t)]
  | (other, old) :: entries =>
    if other = name then (other, t) :: entries else (other, old) :: setEntry name t entries

/-- Changes the entry with the given name. -/
def modifyEntry (name : String) (f : FileTree → FileTree) :
    List (String × FileTree) → List (String × FileTree)
  | [] => []
  | (other, old) :: entries =>
    if other = name then (other, f old) :: entries else (other, old) :: modifyEntry name f entries

/-- Changes what stands at a place. -/
def update (root : FileTree) (place : List String) (f : FileTree → FileTree) : FileTree :=
  match place, root with
  | [], t => f t
  | name :: place, directory entries =>
    directory (modifyEntry name (fun t => t.update place f) entries)
  | _ :: _, file contents => file contents

/-- Puts an entry into the directory at a place. -/
def put (root : FileTree) (place : List String) (name : String) (t : FileTree) : FileTree :=
  root.update place fun parent =>
    match parent with
    | directory entries => directory (setEntry name t entries)
    | file contents => file contents

/-- Takes an entry out of the directory at a place, with everything below it. -/
def erase (root : FileTree) (place : List String) (name : String) : FileTree :=
  root.update place fun parent =>
    match parent with
    | directory entries => directory (entries.filter fun entry => entry.1 ≠ name)
    | file contents => file contents

/-- Takes everything out of the directory at a place. -/
def clear (root : FileTree) (place : List String) : FileTree :=
  root.update place fun found =>
    match found with
    | directory _ => directory []
    | file contents => file contents

mutual

/-- What a tree consists of: each place with the contents of a file, or with none for a
directory. -/
def placesBelow (place : List String) : FileTree → List (List String × Option ByteArray)
  | file contents => [(place, some contents)]
  | directory entries => (place, none) :: entriesBelow place entries

/-- What the entries of the directory at a place consist of. -/
def entriesBelow (place : List String) :
    List (String × FileTree) → List (List String × Option ByteArray)
  | [] => []
  | (name, t) :: entries => placesBelow (place ++ [name]) t ++ entriesBelow place entries

end

/-- Every place below the root, with the contents of a file, or with none for a directory. -/
def listing (t : FileTree) : List (List String × Option ByteArray) := (placesBelow [] t).drop 1

end FileTree

end AvroTypings
