import AvroTypings.FileTree.Walk

/-!
# Disks

A disk is a file tree with a current directory: relative paths start there, and absolute paths at
the root. The current directory stays current even when it is taken away. This file reads and
writes along paths.

A run reads and writes but takes nothing away. `Disk.remove` only serves to set up the disks that
runs are tested on.

## Main definitions

* `Disk`: a file tree and the place of the current directory.
* `Path.fault?`: why a path leads nowhere on any disk.
* `Disk.locate`, `Disk.find`: the place that a path leads to, and what stands there.
* `Disk.readText`, `Disk.entries`: the text of a file and the entries of a directory.
* `Disk.writeFile`: writing a file whose directory exists.
* `Disk.makeDirectories`: making a directory with all the directories it lies in.
* `Disk.store`: writing a file and making the directories it lies in.
* `Disk.remove`: taking a file or directory away.
-/

namespace AvroTypings

/-- A file tree and the place of the current directory in it. -/
structure Disk where
  root : FileTree
  current : List String

/-- The greatest number of bytes in a path. -/
def Path.lengthLimit : Nat := 4095

/-- Why a path leads nowhere, whatever the disk holds. -/
def Path.fault? (p : Path) : Option IoError :=
  if p.text.toList.contains '\x00' then some .nullInPath
  else if p.text.isEmpty then some .notFound
  else if Path.lengthLimit < p.text.utf8ByteSize then some .nameTooLong
  else none

namespace Disk

/-- What stands in the current directory. -/
def here (d : Disk) : FileTree := d.root.reached d.current

/-- The place that a path starts from. -/
def origin (d : Disk) (path : Path) : List String := if path.isAbsolute then [] else d.current

/-- The place that a path leads to. A path that ends in a slash does not lead to a file. -/
def locate (d : Disk) (path : Path) : Except IoError (List String) :=
  match path.fault? with
  | some e => .error e
  | none =>
    match d.root.walk (d.origin path) path.segments with
    | .error e => .error e
    | .ok place =>
      match d.root.reached place with
      | .file _ => if path.endsInSlash then .error .notADirectory else .ok place
      | .directory _ => .ok place

/-- What a path leads to. -/
def find (d : Disk) (path : Path) : Except IoError FileTree :=
  match d.locate path with
  | .error e => .error e
  | .ok place => .ok (d.root.reached place)

/-! ### Reading -/

/-- The text of bytes. -/
def decodeText (contents : ByteArray) : Except IoError String :=
  match String.fromUTF8? contents with
  | some text => .ok text
  | none => .error .notText

/-- The text of the file that a path leads to. -/
def readText (d : Disk) (path : Path) : Except IoError String :=
  match d.find path with
  | .ok (.file contents) => decodeText contents
  | .ok (.directory _) => .error .isADirectory
  | .error e => .error e

/-- The entries of the directory that a path leads to. -/
def entries (d : Disk) (path : Path) : Except IoError (List (String × FileTree)) :=
  match d.find path with
  | .ok (.directory entries) => .ok entries
  | .ok (.file _) => .error .notADirectory
  | .error e => .error e

/-! ### Writing -/

/-- Writes a file into an existing directory. What only a directory can be, by its path or because
it already is one, cannot be written. -/
def writeFile (d : Disk) (path : Path) (contents : ByteArray) : Except IoError Disk :=
  match path.fault?, path.segments.getLast? with
  | some e, _ => .error e
  | none, none => .error .isADirectory
  | none, some name =>
    match d.root.parentOf (d.origin path) path.segments with
    | .error e => .error e
    | .ok (place, found) =>
      if name = "." || name = ".." || path.endsInSlash then .error .isADirectory
      else
        match found with
        | none => .error .notFound
        | some entries =>
          if FileTree.exceedsLimit name then .error .nameTooLong
          else
            match entries.lookup name with
            | some (.directory _) => .error .isADirectory
            | _ => .ok { d with root := d.root.put place name (.file contents) }

/-- Makes a directory, and first the missing ones among those it lies in. There is nothing to make
for the empty path. Also gives the disk as it is afterwards. -/
def makeDirectories (d : Disk) (path : Path) : Except IoError Unit × Disk :=
  if path.text.isEmpty then (.ok (), d)
  else
    match path.fault? with
    | some e => (.error e, d)
    | none =>
      let made := d.root.makeDirectories (d.origin path) path.chain
      (made.1, { d with root := made.2 })

/-- Writes a file, and first makes the directories it lies in. -/
def store (d : Disk) (path : Path) (contents : ByteArray) : Except IoError Unit × Disk :=
  match d.makeDirectories path.parent with
  | (.error e, made) => (.error e, made)
  | (.ok (), made) =>
    match made.writeFile path contents with
    | .ok written => (.ok (), written)
    | .error e => (.error e, made)

/-- Takes away what a path leads to. A directory is emptied first, and then the path is followed
once more: if the way is gone by then, nothing is left to do, and a directory that the path only
calls "here" or "above" stays. -/
def remove (d : Disk) (path : Path) : Except IoError Unit × Disk :=
  match d.locate path with
  | .error e => (.error e, d)
  | .ok place =>
    let emptied : Disk := { d with root := d.root.clear place }
    match emptied.root.parentOf (d.origin path) path.segments with
    | .error .notFound => (.ok (), emptied)
    | .error e => (.error e, emptied)
    | .ok (around, _) =>
      match path.segments.getLast? with
      | none | some "." => (.error .invalidArgument, emptied)
      | some ".." => (.error .notEmpty, emptied)
      | some name => (.ok (), { emptied with root := emptied.root.erase around name })

end Disk

end AvroTypings
