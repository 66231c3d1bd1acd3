import SwitchCover.Text.Bytes

namespace SwitchCover.Text

def startsAfter (offset : Nat) : List Char → List Nat
  | [] => []
  | c :: cs =>
    let next := offset + c.utf8Size
    if c = '\n' then next :: startsAfter next cs else startsAfter next cs

/-- Offsets at which lines start, in ascending order. -/
def lineStarts (cs : List Char) : List Nat :=
  0 :: startsAfter 0 cs

/-- Zero-based line that holds a byte offset; offsets beyond the end are on the last line. -/
def lineIndex (cs : List Char) (offset : Nat) : Nat :=
  ((lineStarts cs).takeWhile (· ≤ offset)).length - 1

inductive LineError where
  | tooLarge (given max : Nat)
deriving DecidableEq

def lineStart (cs : List Char) (i : Nat) : Except LineError Nat :=
  let starts := lineStarts cs
  match starts[i]? with
  | some start => .ok start
  | none =>
    if i = starts.length then .ok (byteLength cs) else .error (.tooLarge i (starts.length - 1))

def lineRange (cs : List Char) (i : Nat) : Except LineError (Nat × Nat) := do
  let start ← lineStart cs i
  let stop ← lineStart cs (i + 1)
  return (start, stop)

/-- One-based line and column of an offset, which is first clamped to the end of the text. The
column counts characters; inside a character it is 1. -/
def lineCol (cs : List Char) (offset : Nat) : Nat × Nat :=
  let offset := min offset (byteLength cs)
  let line := lineIndex cs offset
  let start := (lineStarts cs).getD line 0
  let column := match slice? cs start offset with
    | some before => before.length
    | none => 0
  (line + 1, column + 1)

/-- One-based line and column of an offset, which is first clamped to the end of its line. The
column is the position of the character that holds the offset. -/
def location (cs : List Char) (offset : Nat) : Except LineError (Nat × Nat) := do
  let line := lineIndex cs offset
  let (start, stop) ← lineRange cs line
  let stop := min offset (min stop (byteLength cs))
  let column := match splitAt? start cs with
    | some (_, rest) => charsWithin (stop - start) rest
    | none => 0
  return (line + 1, column + 1)

def dropReturn : List Char → List Char
  | '\r' :: cs => cs
  | cs => cs

def splitLinesAfter (acc : List Char) : List Char → List (List Char)
  | [] => if acc = [] then [] else [acc.reverse]
  | '\n' :: cs => (dropReturn acc).reverse :: splitLinesAfter [] cs
  | c :: cs => splitLinesAfter (c :: acc) cs

/-- Lines of a text without their ends, which are line feeds with or without a carriage return. A
text that ends with a line end has no empty line after it. -/
def splitLines (text : String) : List String :=
  (splitLinesAfter [] text.toList).map String.ofList

end SwitchCover.Text
