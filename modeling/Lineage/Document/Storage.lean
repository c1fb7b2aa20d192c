import Lineage.Document.Reading
import Lineage.Document.Writing
import Lineage.FileTree

/-!
# Documents in files

A document is loaded from a file in UTF-8. It is saved by writing a temporary file beside the
target and moving it over the target, so that a save that fails leaves the old files as they were. A
save that fails in moving returns the temporary file with its error, and the file is deleted when
that is given up.
-/

namespace Lineage

/-- Why a document cannot be loaded or saved. -/
inductive StorageError where
  /-- A file cannot be read, or a temporary file cannot be made. -/
  | io (path : Text) (cause : FileError)
  /-- A file is not in UTF-8. -/
  | notUtf8 (path : Text)
  /-- The temporary file cannot be moved to the target. -/
  | persist (path : Text) (cause : FileError)
deriving DecidableEq, Repr

namespace StorageError

/-- The text of an error. -/
def message : StorageError → String
  | io path cause => "I/O error on " ++ String.ofList path ++ ": " ++ cause.message
  | notUtf8 path => "File is not valid UTF-8: " ++ String.ofList path
  | persist path cause =>
    "Failed to persist " ++ String.ofList path ++ ": failed to persist temporary file: " ++
      cause.message

/-- Whether the cause is a file that is not there. -/
def isNotFound : StorageError → Bool
  | io _ .notFound => true
  | _ => false

end StorageError

namespace Document

/-- The bytes of a text in UTF-8. -/
def encodeUtf8 (s : Text) : ByteArray := (String.ofList s).toUTF8

/-- The text of bytes in UTF-8. -/
def decodeUtf8? (bytes : ByteArray) : Option Text := (String.fromUTF8? bytes).map String.toList

/-! ## Loading -/

/-- The text of the file that a path leads to. -/
def loadText (t : FileTree) (path : Text) : Except StorageError Text :=
  match t.content path with
  | .ok bytes =>
    match decodeUtf8? bytes with
    | some text => .ok text
    | none => .error (.notUtf8 path)
  | .error cause => .error (.io path cause)

/-- Loads a document. -/
def load (t : FileTree) (path : Text) : Except StorageError Document :=
  (loadText t path).map parse

/-- Loads a document, or takes the empty one if there is no file. -/
def loadOrEmpty (t : FileTree) (path : Text) : Except StorageError Document :=
  match load t path with
  | .ok d => .ok d
  | .error e => if e.isNotFound then .ok ∅ else .error e

/-- What is reported when a document is loaded. -/
def loadLog (t : FileTree) (path : Text) : List Event :=
  match loadText t path with
  | .ok text => .fileLoaded path (FileTree.byteSize text) :: parseLog text
  | .error _ => []

/-- What is reported when a document is loaded that may not be there. -/
def loadOrEmptyLog (t : FileTree) (path : Text) : List Event :=
  match loadText t path with
  | .ok _ => loadLog t path
  | .error e => if e.isNotFound then [.fileMissing path] else []

/-! ## Saving -/

/-- What a save depends on besides the file tree: the name that its temporary file gets, and whether
a step fails that the file tree would allow. -/
structure Circumstances where
  temporaryName : Text
  /-- The bytes that the full path of the temporary file has beyond those of its directory: the path
  of the top directory before it, the file's own name after it, and a slash for each. -/
  temporarySize : Nat := 27
  creating : Except FileError Unit := .ok ()
  writing : Except FileError Unit := .ok ()
  moving : Except FileError Unit := .ok ()

/-- The place of a temporary file beside the target of a path. -/
def temporary (t : FileTree) (path : Text) (c : Circumstances) : Except FileError Location := do
  let directory ← t.parentDirectory path c.temporarySize
  c.creating
  return directory ++ [c.temporaryName]

/-- What a save comes to: the file tree when it returns, its result, and the temporary file that the
result holds. -/
structure SaveOutcome where
  files : FileTree
  result : Except StorageError Unit
  held : Option Location := none

/-- The file tree once the result is given up. A temporary file that it holds is deleted then. -/
def SaveOutcome.released (o : SaveOutcome) : FileTree :=
  match o.held with
  | some l => o.files.erase l
  | none => o.files

/-- Saves a document under given circumstances. -/
def saveUnder (c : Circumstances) (d : Document) (t : FileTree) (path : Text)
    (options : WriteOptions) : SaveOutcome :=
  match temporary t path c with
  | .error cause => { files := t, result := .error (.io (FileTree.parentPath path) cause) }
  | .ok place =>
    match c.writing with
    | .error cause =>
      -- The file was made and may hold a part of the text. It is deleted before the save returns.
      { files := (t.put place (.file .empty)).erase place
        result := .error (.io (FileTree.parentPath path ++ '/' :: c.temporaryName) cause) }
    | .ok () =>
      let staged := t.put place (.file (encodeUtf8 (d.toText options)))
      match c.moving >>= fun () => staged.move place path with
      -- The error keeps the temporary file.
      | .error cause =>
        { files := staged, result := .error (.persist path cause), held := some place }
      | .ok saved => { files := saved, result := .ok () }

/-- Saves a document. The file tree that is left is given also where saving fails. -/
def save (d : Document) (t : FileTree) (path : Text) (options : WriteOptions) :
    FileTree × Except StorageError Unit :=
  let o := saveUnder { temporaryName := t.freshName path } d t path options
  (o.released, o.result)

/-- What is reported when a document is saved. -/
def saveLog (d : Document) (t : FileTree) (path : Text) (options : WriteOptions) : List Event :=
  d.writeLog options.inheritance ++
    match (d.save t path options).2 with
    | .ok () => [.fileSaved path (FileTree.byteSize (d.toText options))]
    | .error _ => []

end Document

end Lineage
