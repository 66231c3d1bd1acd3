import SwitchCover.Diagnostic.Snippet
import SwitchCover.Trace

namespace SwitchCover

/-- Diagnostics ordered by file, position and code. -/
structure Report where
  diagnostics : List Diagnostic
deriving DecidableEq

namespace Report

def empty : Report :=
  ⟨[]⟩

/-- Orders diagnostics by their keys; those of equal key keep their order. -/
def ofList (ds : List Diagnostic) : Report :=
  ⟨ds.mergeSort fun a b => Diagnostic.keyLE a.key b.key⟩

def append (r s : Report) : Report :=
  ofList (r.diagnostics ++ s.diagnostics)

def size (r : Report) : Nat :=
  r.diagnostics.length

def position? (store : FileStore) (span : Span) : Option String :=
  (store.get? span.file).map fun file =>
    let (line, column) := file.lineCol span.range.start
    file.path ++ ":" ++ toString line ++ ":" ++ toString column

def lintLine (store : FileStore) (d : Diagnostic) : String :=
  let text := d.message ++ " (" ++ d.code.text ++ ")"
  match d.primarySpan.bind (position? store) with
  | some position => position ++ ": " ++ text
  | none => text

def lintLines (r : Report) (store : FileStore) : List String :=
  r.diagnostics.map (lintLine store)

/-- A rendered diagnostic; one that cannot be rendered leaves an event and no text. -/
def renderOne (store : FileStore) (d : Diagnostic) : Traced String :=
  match Snippet.render store d with
  | .ok text => pure text
  | .error reason => do
    Traced.emit (.renderFailed reason)
    return ""

def render (r : Report) (store : FileStore) : Traced String :=
  String.join <$> Traced.mapList (renderOne store) r.diagnostics

end Report

end SwitchCover
