import SwitchCover.Text.Lines
import SwitchCover.Text.Range

namespace SwitchCover

structure FileId where
  index : Nat
deriving DecidableEq

structure SourceText where
  path : String
  text : String
deriving DecidableEq

structure Span where
  file : FileId
  range : TextRange
deriving DecidableEq

/-- All source texts, numbered in the order in which they were added. -/
structure FileStore where
  files : List SourceText
deriving DecidableEq

inductive FileError where
  | missing
  | line (e : Text.LineError)
deriving DecidableEq

namespace SourceText

def chars (f : SourceText) : List Char :=
  f.text.toList

def lineIndex (f : SourceText) (offset : Nat) : Nat :=
  Text.lineIndex f.chars offset

/-- One-based line and column for one-line reports. -/
def lineCol (f : SourceText) (offset : Nat) : Nat × Nat :=
  Text.lineCol f.chars offset

def lineRange (f : SourceText) (line : Nat) : Except FileError TextRange :=
  match Text.lineRange f.chars line with
  | .ok (start, stop) => .ok ⟨start, stop⟩
  | .error e => .error (.line e)

/-- One-based line and column for rendered snippets. -/
def location (f : SourceText) (offset : Nat) : Except FileError (Nat × Nat) :=
  match Text.location f.chars offset with
  | .ok p => .ok p
  | .error e => .error (.line e)

end SourceText

namespace FileError

def message : FileError → String
  | .missing => "file missing"
  | .line (.tooLarge given max) => s!"invalid line {given}, maximum line is {max}"

end FileError

namespace FileStore

def empty : FileStore :=
  ⟨[]⟩

def size (store : FileStore) : Nat :=
  store.files.length

def isEmpty (store : FileStore) : Bool :=
  store.files.isEmpty

def add (store : FileStore) (file : SourceText) : FileId × FileStore :=
  (⟨store.files.length⟩, ⟨store.files ++ [file]⟩)

def get? (store : FileStore) (id : FileId) : Option SourceText :=
  store.files[id.index]?

def get (store : FileStore) (id : FileId) : Except FileError SourceText :=
  match store.get? id with
  | some file => .ok file
  | none => .error .missing

def toList (store : FileStore) : List (FileId × SourceText) :=
  store.files.zipIdx.map fun (file, i) => (⟨i⟩, file)

def lineIndex (store : FileStore) (id : FileId) (offset : Nat) : Except FileError Nat := do
  return (← store.get id).lineIndex offset

def lineRange (store : FileStore) (id : FileId) (line : Nat) : Except FileError TextRange := do
  (← store.get id).lineRange line

def location (store : FileStore) (id : FileId) (offset : Nat) : Except FileError (Nat × Nat) := do
  (← store.get id).location offset

end FileStore

end SwitchCover
