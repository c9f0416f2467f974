import AvroTypings.FileTree.Basic

/-!
# Walking through a file tree

A tree is walked segment by segment from a place in it, and each step starts from a directory; so a
walk through a file fails differently from a walk through nothing, and `a/../b` needs `a`. A step
up from the root stays there. No entry can have a name beyond the length limit, and a step to such
a name fails in a way of its own.

A walk may start in a directory that was taken away in the meantime. Such a directory is empty, one
can still step out of it, and nothing can be made in it.

## Main definitions

* `FileTree.step`, `FileTree.walk`: the places that one segment and several segments lead to.
* `FileTree.makeDirectory`, `FileTree.makeDirectories`: making a directory, and making it with the
  missing ones among those it lies in.
-/

namespace AvroTypings.FileTree

/-- The greatest number of bytes in a name. -/
def nameLimit : Nat := 255

/-- Whether no entry can have that name. -/
def exceedsLimit (name : String) : Bool := nameLimit < name.utf8ByteSize

/-- One step from a place. -/
def step (root : FileTree) (place : List String) (segment : String) :
    Except IoError (List String) :=
  match root.get? place with
  | some (.directory entries) =>
    if segment = "." then .ok place
    else if segment = ".." then .ok place.dropLast
    else if exceedsLimit segment then .error .nameTooLong
    else if (entries.lookup segment).isSome then .ok (place ++ [segment])
    else .error .notFound
  | some (.file _) => .error .notADirectory
  | none =>
    if segment = "." then .ok place
    else if segment = ".." then .ok place.dropLast
    else .error .notFound

/-- The place that segments lead to from another. -/
def walk (root : FileTree) (place : List String) : List String → Except IoError (List String)
  | [] => .ok place
  | segment :: segments =>
    match root.step place segment with
    | .ok next => root.walk next segments
    | .error e => .error e

/-- What stands at a place that a walk has reached. A directory that was taken away is empty. -/
def reached (root : FileTree) (place : List String) : FileTree :=
  (root.get? place).getD (.directory [])

/-- The place of the directory that all but the last of some segments lead to, and its entries
unless it was taken away. -/
def parentOf (root : FileTree) (origin segments : List String) :
    Except IoError (List String × Option (List (String × FileTree))) :=
  match root.walk origin segments.dropLast with
  | .error e => .error e
  | .ok place =>
    match root.get? place with
    | some (.directory entries) => .ok (place, some entries)
    | some (.file _) => .error .notADirectory
    | none => .ok (place, none)

/-- Makes a directory inside an existing one. -/
def makeDirectory (root : FileTree) (origin segments : List String) : Except IoError FileTree :=
  match segments.getLast? with
  | none => .error .alreadyExists
  | some name =>
    match root.parentOf origin segments with
    | .error e => .error e
    | .ok (place, found) =>
      if name = "." || name = ".." then .error .alreadyExists
      else
        match found with
        | none => .error .notFound
        | some entries =>
          if exceedsLimit name then .error .nameTooLong
          else if (entries.lookup name).isSome then .error .alreadyExists
          else .ok (root.put place name (.directory []))

/-- Whether segments lead to a directory. -/
def leadsToDirectory (root : FileTree) (origin segments : List String) : Bool :=
  match root.walk origin segments with
  | .ok place => (root.reached place).isDirectory
  | .error _ => false

/-- Makes a directory, unless it is there already. -/
def ensureDirectory (root : FileTree) (origin segments : List String) :
    Except IoError FileTree :=
  match root.makeDirectory origin segments with
  | .ok made => .ok made
  | .error e => if root.leadsToDirectory origin segments then .ok root else .error e

/-- Makes the first of some directories, each of which lies in the next, and before it those that
are missing. Also gives the tree as it is afterwards, since a failure leaves the directories made
until then. -/
def makeDirectories (root : FileTree) (origin : List String) :
    List (List String) → Except IoError Unit × FileTree
  | [] => (.ok (), root)
  | segments :: outer =>
    match root.ensureDirectory origin segments with
    | .ok made => (.ok (), made)
    | .error .notFound =>
      match root.makeDirectories origin outer with
      | (.error e, made) => (.error e, made)
      | (.ok (), around) =>
        match around.ensureDirectory origin segments with
        | .ok made => (.ok (), made)
        | .error e => (.error e, around)
    | .error e => (.error e, root)

end AvroTypings.FileTree
