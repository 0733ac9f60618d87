import PriceTime.AppendLog
import PriceTime.Path

/-!
# File trees

Directories and files by their places: the names on the way from the top. A path is walked from the
top or from the working directory, one segment after the other, through directories that exist. Two
dots lead to the directory above; above the top there is only the top itself. The last segment of
the path of a file is its name.

* `FileTree.file?_write`: what was written to a path is what the path leads to.
-/

namespace PriceTime

/-- The names on the way from the top. -/
abbrev Place := List String

/-- Some directories, with some files in them. -/
structure FileTree where
  directories : List Place
  /-- The directory where relative paths start. -/
  working : Place
  files : List (Place × File) := []

namespace FileTree

/-- The longest name of a file, in bytes. -/
def maxName : Nat := 255

/-- The longest path that can be opened, in bytes. -/
def maxPath : Nat := 4095

/-- Whether a file can have a name. -/
def isName (name : String) : Bool :=
  !Path.staysHere name && name != ".." && name.utf8ByteSize ≤ maxName &&
    !name.toList.contains '\x00'

/-- Go from one directory to the next. -/
def step? (t : FileTree) (here : Place) (segment : String) : Option Place :=
  if Path.staysHere segment then some here
  else if segment = ".." then some here.dropLast
  else if here ++ [segment] ∈ t.directories then some (here ++ [segment])
  else none

/-- Where the walk along a path starts. -/
def origin (t : FileTree) (path : Path) : Place :=
  if path.isAbsolute then [] else t.working

/-- The place of the file that a path leads to, whether the file exists or not. -/
def place? (t : FileTree) (path : Path) : Option Place := do
  let name ← path.segments.getLast?
  let directory ← path.segments.dropLast.foldlM t.step? (t.origin path)
  if isName name ∧ path.text.utf8ByteSize ≤ maxPath ∧ directory ++ [name] ∉ t.directories then
    return directory ++ [name]
  else none

/-- The file that a path leads to. -/
def file? (t : FileTree) (path : Path) : Option File :=
  (t.place? path).bind fun place => t.files.lookup place

/-- Read the file that a path leads to. -/
def read (t : FileTree) (path : Path) : Except Failure ByteArray :=
  match t.file? path with
  | some file => .ok file.content
  | none => .error .noSuchFile

/-- Put a file in the place that a path leads to. -/
def write (t : FileTree) (path : Path) (file : File) : Except Failure FileTree :=
  match t.place? path with
  | some place =>
    .ok { t with files := (place, file) :: t.files.filter fun entry => entry.1 != place }
  | none => .error .noSuchFile

theorem place?_files (t : FileTree) (files : List (Place × File)) (path : Path) :
    { t with files }.place? path = t.place? path := rfl

theorem file?_write {t u : FileTree} {path : Path} {file : File}
    (h : t.write path file = .ok u) : u.file? path = some file := by
  unfold write at h
  split at h
  · rename_i place hplace
    cases h
    simp [file?, place?_files, hplace]
  · cases h

end FileTree

end PriceTime
