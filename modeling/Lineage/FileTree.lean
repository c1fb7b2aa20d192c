import Lineage.OrderedMap
import Lineage.Text.CharClass

/-!
# File trees

Files and directories below a top directory, and the paths that lead to them. A path is walked
from the top directory on, name by name; a name that is empty or `.` stays where it is, and `..`
goes up. The errors are the causes for which a path leads nowhere or a file cannot be put there.

* `node?_put`, `node?_erase`: what an operation does to all locations.
-/

namespace Lineage

/-- Why a path cannot be used. -/
inductive FileError where
  | notFound
  | busy
  | notADirectory
  | isADirectory
  | nameTooLong
  /-- A cause that does not lie in the file tree, such as a full disk, with its text. -/
  | other (text : String)
deriving DecidableEq, Repr

/-- The text of an error, with its number. -/
def FileError.message : FileError → String
  | notFound => "No such file or directory (os error 2)"
  | busy => "Device or resource busy (os error 16)"
  | notADirectory => "Not a directory (os error 20)"
  | isADirectory => "Is a directory (os error 21)"
  | nameTooLong => "File name too long (os error 36)"
  | other text => text

/-- What stands at a place in a file tree. -/
inductive FileNode where
  | file (content : ByteArray)
  | directory

/-- A place in a file tree: the names from the top directory on. -/
abbrev Location := List Text

/-- Files and directories by location. The top directory is always there and not listed. -/
structure FileTree where
  nodes : OrderedMap Location FileNode := ∅

namespace FileTree

instance : EmptyCollection FileTree := ⟨{}⟩

instance : Inhabited FileTree := ⟨∅⟩

/-- The number of bytes in UTF-8. -/
def byteSize (s : Text) : Nat := (String.ofList s).utf8ByteSize

/-- The greatest number of bytes in a name. -/
def nameLimit : Nat := 255

/-- The greatest number of bytes in a path. -/
def pathLimit : Nat := 4095

/-- What stands at a location. -/
def node? (t : FileTree) (l : Location) : Option FileNode :=
  if l = [] then some .directory else t.nodes.get? l

def isDirectory (t : FileTree) (l : Location) : Bool :=
  match t.node? l with
  | some .directory => true
  | _ => false

def put (t : FileTree) (l : Location) (n : FileNode) : FileTree := { nodes := t.nodes.insert l n }

def erase (t : FileTree) (l : Location) : FileTree := { nodes := t.nodes.erase l }

theorem node?_put (t : FileTree) {l : Location} (hl : l ≠ []) (n : FileNode) (k : Location) :
    (t.put l n).node? k = if k = l then some n else t.node? k := by
  unfold node?
  by_cases hk : k = []
  · subst hk
    simp [Ne.symm hl]
  · rw [if_neg hk, if_neg hk]
    exact OrderedMap.get?_insert t.nodes l k n

theorem node?_erase (t : FileTree) {l : Location} (hl : l ≠ []) (k : Location) :
    (t.erase l).node? k = if k = l then none else t.node? k := by
  unfold node?
  by_cases hk : k = []
  · subst hk
    simp [Ne.symm hl]
  · rw [if_neg hk, if_neg hk]
    exact OrderedMap.get?_erase t.nodes l k

/-! ## Paths -/

/-- The directory at a location. -/
def directory (t : FileTree) (l : Location) : Except FileError Location :=
  match t.node? l with
  | some .directory => .ok l
  | some (.file _) => .error .notADirectory
  | none => .error .notFound

/-- The location of a name in a directory, whether or not anything stands there. -/
def child (t : FileTree) (l : Location) (name : Text) : Except FileError Location := do
  let l ← t.directory l
  if nameLimit < byteSize name then .error .nameTooLong else .ok (l ++ [name])

/-- Whether a name stays where it is. -/
def isIdle (name : Text) : Bool := name = [] || name = ['.']

/-- Goes one name further. -/
def step (t : FileTree) (l : Location) (name : Text) : Except FileError Location := do
  let l ← t.directory l
  if isIdle name then .ok l
  else if name = ['.', '.'] then .ok l.dropLast
  else do
    let l ← t.child l name
    if (t.node? l).isSome then .ok l else .error .notFound

/-- Goes from the top directory along names. -/
def walk (t : FileTree) (names : List Text) : Except FileError Location :=
  names.foldlM t.step []

/-- The location of what a path leads to. -/
def resolve (t : FileTree) (path : Text) : Except FileError Location :=
  if path = [] then .error .notFound
  else if pathLimit < byteSize path then .error .nameTooLong
  else t.walk (path.splitOn '/')

/-- The names without the idle ones at the end. -/
def trimmed (names : List Text) : List Text := (names.reverse.dropWhile isIdle).reverse

/-- The names that lead to the directory that a path puts its last name in. Idle names at the end
of either do not count, while those inside stay. -/
def parentNames (path : Text) : List Text := trimmed (trimmed (path.splitOn '/')).dropLast

/-- The path of the directory that a path puts its last name in. -/
def parentPath (path : Text) : Text :=
  match parentNames path with
  | [] => if path.head? = some '/' ∧ trimmed (path.splitOn '/') ≠ [] then ['/'] else ['.']
  | names => ['/'].intercalate names

/-- The directory that a path puts its last name in, if a temporary file can be made there, whose
full path has so many bytes more than that of the directory. Without any other name it is the top
directory. -/
def parentDirectory (t : FileTree) (path : Text) (extra : Nat) : Except FileError Location :=
  let names := parentNames path
  if pathLimit < byteSize (['/'].intercalate names) + extra then .error .nameTooLong
  else t.walk names >>= t.directory

/-- The location at which a path lets a file be put. The last name must be a proper one without a
slash after it, in a directory, and not the name of a directory. -/
def target (t : FileTree) (path : Text) : Except FileError Location :=
  if path = [] then .error .notFound
  else if pathLimit < byteSize path then .error .nameTooLong
  else
    match (path.splitOn '/').reverse.dropWhile (· = []) with
    | [] => .error .busy
    | name :: names => do
      let l ← t.walk names.reverse >>= t.directory
      if name = ['.'] ∨ name = ['.', '.'] then .error .busy
      else do
        let l ← t.child l name
        if path.getLast? = some '/' then .error .notADirectory
        else if t.isDirectory l then .error .isADirectory
        else .ok l

/-! ## Files -/

/-- The content of the file that a path leads to. -/
def content (t : FileTree) (path : Text) : Except FileError ByteArray := do
  let l ← t.resolve path
  match t.node? l with
  | some (.file content) => .ok content
  | some .directory => .error .isADirectory
  | none => .error .notFound

/-- Moves what stands at a location to the place that a path gives, over the file that may be
there. -/
def move (t : FileTree) (source : Location) (path : Text) : Except FileError FileTree := do
  let l ← t.target path
  match t.node? source with
  | some n => .ok ((t.erase source).put l n)
  | none => .error .notFound

/-- A name that is neither in the tree nor in the path, since it is longer than all names of both
together. -/
def freshName (t : FileTree) (path : Text) : Text :=
  '.' :: List.replicate (t.nodes.keys.flatten.flatten.length + path.length) '~'

end FileTree

end Lineage
