import SwitchCover.Diagnostic.Basic
import SwitchCover.Text.Width

namespace SwitchCover

/-- A character of a source line: its first byte in the line, its size and its columns. -/
structure Cell where
  char : Char
  offset : Nat
  size : Nat
  width : Nat

namespace Snippet

def tabWidth : Nat :=
  4

def cells (offset column : Nat) : List Char → List Cell
  | [] => []
  | c :: cs =>
    let width := if c = '\t' then tabWidth - column % tabWidth else Text.charWidth c
    ⟨c, offset, c.utf8Size, width⟩ :: cells (offset + c.utf8Size) (column + width) cs

def repeated (c : Char) (n : Nat) : String :=
  String.ofList (List.replicate n c)

def isTrailing (c : Char) : Bool :=
  c == '\n' || c == '\r' || c.toNat == 0

def trimEnd (cs : List Char) : List Char :=
  (cs.reverse.dropWhile isTrailing).reverse

def sourceText (line : List Cell) : String :=
  String.join (line.map fun cell =>
    if cell.char = '\t' then repeated ' ' cell.width else String.singleton cell.char)

def mark : LabelStyle → Char
  | .primary => '^'
  | .secondary => '-'

/-- What stands under a cell, for a label on the bytes of a range. -/
def cellMarks (style : LabelStyle) (range : TextRange) (cell : Cell) : String :=
  if max range.start cell.offset < min range.stop (cell.offset + cell.size) then
    repeated (mark style) cell.width
  else if cell.offset < range.stop then repeated ' ' cell.width
  else ""

/-- Marks under a source line. One column after its end can be marked as well. -/
def marks (style : LabelStyle) (range : TextRange) (line : List Char) : String :=
  let end_ : Cell := ⟨' ', Text.byteLength line, 1, 1⟩
  String.join ((cells 0 0 line ++ [end_]).map (cellMarks style range))

/-- What is shown of a label: the place of its start, the source line and the bytes to mark in
it, at least one. -/
structure Excerpt where
  path : String
  line : Nat
  column : Nat
  source : List Char
  style : LabelStyle
  range : TextRange
  message : String

def excerpt (store : FileStore) (label : Label) : Except FileError Excerpt := do
  let file ← store.get label.span.file
  let start := label.span.range.start
  let lineRange ← file.lineRange (file.lineIndex start)
  let (line, column) ← file.location start
  let source := (Text.slice? file.chars lineRange.start lineRange.stop).getD []
  let first := start - lineRange.start
  let last := max (label.span.range.stop - lineRange.start) (first + 1)
  return ⟨file.path, line, column, trimEnd source, label.style, ⟨first, last⟩, label.message⟩

def excerpts (store : FileStore) : List Label → Except FileError (List Excerpt)
  | [] => return []
  | l :: ls => do
    let x ← excerpt store l
    let xs ← excerpts store ls
    return x :: xs

def Excerpt.lines (gutter : Nat) (x : Excerpt) : List String :=
  let blank := repeated ' ' gutter
  let number := toString x.line
  let message := if x.message = "" then "" else " " ++ x.message
  [blank ++ " ┌─ " ++ x.path ++ ":" ++ number ++ ":" ++ toString x.column,
    blank ++ " │",
    repeated ' ' (gutter - number.length) ++ number ++ " │ " ++ sourceText (cells 0 0 x.source),
    blank ++ " │ " ++ marks x.style x.range x.source ++ message]

def noteLines (gutter : Nat) (note : String) : List String :=
  match Text.splitLines note with
  | [] => []
  | first :: rest =>
    let blank := repeated ' ' gutter
    (blank ++ " = " ++ first) :: rest.map fun line => blank ++ "   " ++ line

/-- A diagnostic as text, with an empty line at its end. It fails if a label names a file that
the store does not have. -/
def render (store : FileStore) (d : Diagnostic) : Except FileError String := do
  let xs ← excerpts store d.labels
  let gutter := (xs.map fun x => (toString x.line).length).foldl max 0
  let head := d.severity.name ++ "[" ++ d.code.text ++ "]: " ++ d.message
  let border := if xs.isEmpty || d.notes.isEmpty then [] else [repeated ' ' gutter ++ " │"]
  let lines := head :: xs.flatMap (Excerpt.lines gutter) ++ border
    ++ d.notes.flatMap (noteLines gutter) ++ [""]
  return String.join (lines.map (· ++ "\n"))

end Snippet

end SwitchCover
