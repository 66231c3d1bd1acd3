import SwitchCover.Build.Declare
import SwitchCover.Text.Token

namespace SwitchCover

namespace OpenFile

def chars (f : OpenFile) (store : FileStore) : List Char :=
  match store.get? f.file with
  | some source => source.chars
  | none => []

def locate? (f : OpenFile) (store : FileStore) (needle : String) : Option TextRange :=
  (Text.findToken (f.chars store) f.cursor needle.toList).map fun start =>
    ⟨start, start + Text.byteLength needle.toList⟩

/-- The package imported under a name; the first import of the name counts. -/
def resolveImport (f : OpenFile) (name : String) : Option PackagePath :=
  (f.imports.find? fun i => i.name = name).map Import.path

end OpenFile

structure FileState where
  program : Program
  file : OpenFile

abbrev FileM := EStateM StepError FileState

namespace FileM

def liftDecl {α : Type} (x : DeclM α) : FileM α := fun s =>
  match x s.program with
  | .ok a p => .ok a { s with program := p }
  | .error e p => .error e { s with program := p }

/-- Finds the next token and moves the cursor behind it. -/
def locate (needle : String) : FileM TextRange := do
  let s ← get
  match s.file.locate? s.program.files needle with
  | some range =>
    set { s with file := { s.file with cursor := range.stop } }
    return range
  | none => throw (.build (.notInSource needle s.file.cursor))

def importAs (name : String) (path : PackagePath) : FileM Unit := do
  liftDecl (.addImport (← get).file.package path)
  modify fun s => { s with file := { s.file with imports := s.file.imports ++ [⟨name, path⟩] } }

def importPackage (path : PackagePath) : FileM Unit := do
  let package ← liftDecl (.requirePackage path)
  importAs package.name path

def locateFunc (name : String) : FileM TextRange := do
  let _ ← locate "func"
  locate name

end FileM

end SwitchCover
