/-!
# Paths

A path is a text that is shown as it was given. It is split at slashes into segments, and its
components are the segments that matter for naming: a `.` only counts at the start of a relative
path. Paths whose bytes are not UTF-8 are no texts, and lie outside of the program.

## Main definitions

* `Path.segments`, `Path.components`: the pieces of a path.
* `Path.join`: a path inside a directory.
* `Path.parent`, `Path.chain`: the directory that a path lies in, and all of them.
* `Path.fileName`, `Path.extension`: the name at the end of a path and what follows its last dot.
-/

namespace AvroTypings

/-- A path, as it was given. -/
structure Path where
  text : String
  deriving DecidableEq, Inhabited

namespace Path

/-- Whether a path starts at the root. -/
def isAbsolute (p : Path) : Bool := p.text.toList.head? == some '/'

/-- Whether a path ends in a slash, and so can only lead to a directory. -/
def endsInSlash (p : Path) : Bool := p.text.toList.getLast? == some '/'

/-- The pieces between slashes, without the empty ones. -/
def segments (p : Path) : List String :=
  ((p.text.toList.splitOn '/').filter fun piece => !piece.isEmpty).map String.ofList

/-- The segments without those that only say "here". A relative path may start with one. -/
def components (p : Path) : List String :=
  match p.segments with
  | [] => []
  | first :: others =>
    let others := others.filter (· ≠ ".")
    if first = "." && p.isAbsolute then others else first :: others

/-- The path that leads to `p` inside the directory `base`. -/
def join (base p : Path) : Path :=
  if p.isAbsolute || base.text.isEmpty then p
  else if base.endsInSlash then ⟨base.text ++ p.text⟩
  else ⟨base.text ++ "/" ++ p.text⟩

/-- The name at the end of a path, if the path ends in one. -/
def fileName (p : Path) : Option String :=
  p.components.getLast?.filter fun name => name ≠ "." && name ≠ ".."

/-- Takes from the end of a path, given backwards, what names nothing: slashes, and segments that
only say "here". -/
def trimBack : List Char → List Char
  | '/' :: letters => trimBack letters
  | '.' :: '/' :: letters => trimBack letters
  | letters => letters

/-- The path without its last component. Nothing is left of a single name, and the root stays
where it is. -/
def parent (p : Path) : Path :=
  let back := trimBack ((trimBack p.text.toList.reverse).dropWhile (· ≠ '/'))
  if back.isEmpty && p.isAbsolute then ⟨"/"⟩ else ⟨String.ofList back.reverse⟩

/-- The segments of a path, and after them the components of each directory that it lies in, from
the innermost to the outermost. -/
def chain (p : Path) : List (List String) :=
  p.segments
    :: ((List.range p.components.length).reverse.map p.components.take).filter (· ≠ [])

/-- What follows the last dot of a file name. A dot at the very start of the name does not count. -/
def extensionOf (name : String) : Option String :=
  let letters := name.toList
  let tail := (letters.reverse.takeWhile (· ≠ '.')).reverse
  if tail.length + 1 < letters.length then some (String.ofList tail) else none

/-- What follows the last dot of the file name of a path. -/
def extension (p : Path) : Option String := p.fileName.bind extensionOf

end Path

end AvroTypings
