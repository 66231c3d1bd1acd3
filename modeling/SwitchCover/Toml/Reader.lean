namespace SwitchCover.Toml

/-- A reader consumes characters from the front or fails. -/
abbrev Reader := StateT (List Char) Option

namespace Reader

def peek : Reader (Option Char) := do
  return (← get).head?

def char (p : Char → Bool) : Reader Char := do
  match ← get with
  | c :: cs =>
    if p c then
      set cs
      return c
    else failure
  | [] => failure

def exactly (c : Char) : Reader Unit := do
  let _ ← char (· == c)

def literal : List Char → Reader Unit
  | [] => return ()
  | c :: cs => do
    exactly c
    literal cs

def run (p : Char → Bool) : Reader (List Char) := do
  let cs ← get
  set (cs.dropWhile p)
  return cs.takeWhile p

def count (p : Char → Bool) : Nat → Reader (List Char)
  | 0 => return []
  | n + 1 => do
    let c ← char p
    let cs ← count p n
    return c :: cs

def maybe {α : Type} (p : Reader α) : Reader (Option α) :=
  some <$> p <|> return none

def manyWithin {α : Type} (p : Reader α) : Nat → Reader (List α)
  | 0 => return []
  | n + 1 => do
    match ← maybe p with
    | some a => do
      let rest ← manyWithin p n
      return a :: rest
    | none => return []

/-- Results of a reader up to its first failure. A reader that consumes something succeeds at
most as often as there are characters left. -/
def many {α : Type} (p : Reader α) : Reader (List α) := do
  manyWithin p (← get).length

def eof : Reader Unit := do
  match ← get with
  | [] => return ()
  | _ :: _ => failure

end Reader

open Reader

def isBlank (c : Char) : Bool :=
  c == ' ' || c == '\t'

/-- Characters that need no escape anywhere: the tab, printable ASCII and all beyond ASCII. -/
def isPlain (c : Char) : Bool :=
  c == '\t' || (0x20 ≤ c.toNat && c.toNat ≠ 0x7f)

def blanks : Reader Unit := do
  let _ ← run isBlank

def newline : Reader Unit :=
  exactly '\n' <|> literal ['\r', '\n']

def comment : Reader Unit := do
  exactly '#'
  let _ ← run isPlain

def lineEnd : Reader Unit :=
  newline <|> eof

def lineRest : Reader Unit := do
  blanks
  let _ ← maybe comment
  lineEnd

def gap : Reader Unit := do
  blanks
  let _ ← many do
    let _ ← maybe comment
    newline
    blanks

end SwitchCover.Toml
