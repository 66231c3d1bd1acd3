import SwitchCover.Toml.Text
import SwitchCover.Toml.Value

namespace SwitchCover.Toml

open Reader

/-- Digits with single underscores between them, which are left out of the result. -/
def digits (p : Char → Bool) : Reader (List Char) := do
  let c ← char p
  let cs ← many (char p <|> (do exactly '_'; char p))
  if (← peek) = some '_' then failure else return c :: cs

def sign : Reader (Option Char) :=
  maybe (char fun c => c == '+' || c == '-')

def decimalDigits : Reader (List Char) := do
  match ← digits Char.isDigit with
  | '0' :: _ :: _ => failure
  | cs => return cs

def inRange (n : Int) : Bool :=
  -Int.pow 2 63 ≤ n && n < Int.pow 2 63

def radixInteger (mark : Char) (base : Nat) (p : Char → Bool) : Reader Int := do
  literal ['0', mark]
  return positional base (← digits p)

def integer : Reader Int := do
  let n ← radixInteger 'x' 16 isHexDigit
    <|> radixInteger 'o' 8 (fun c => '0' ≤ c && c ≤ '7')
    <|> radixInteger 'b' 2 (fun c => c == '0' || c == '1')
    <|> (do
      let s ← sign
      let n := positional 10 (← decimalDigits)
      return if s = some '-' then -(n : Int) else n)
  if inRange n then return n else failure

/-- A number with a fraction or an exponent: its digits without the point, and the power of ten
by which they are scaled. -/
structure Scaled where
  negative : Bool
  digits : Nat
  exponent : Int

/-- Whether the number is so large that it has no finite double-precision value nearby: at least
halfway from the largest finite value to the next power of two. -/
def Scaled.isHuge (x : Scaled) : Bool :=
  let magnitude : Int := (Nat.toDigits 10 x.digits).length + x.exponent
  if x.digits = 0 ∨ magnitude < 309 then false
  else if 309 < magnitude then true
  else
    let bound := Nat.pow 2 1024 - Nat.pow 2 970
    if 0 ≤ x.exponent then decide (bound ≤ x.digits * Nat.pow 10 x.exponent.toNat)
    else decide (bound * Nat.pow 10 (-x.exponent).toNat ≤ x.digits)

def exponentPart : Reader Int := do
  let _ ← char fun c => c == 'e' || c == 'E'
  let s ← sign
  let n := positional 10 (← digits Char.isDigit)
  return if s = some '-' then -(n : Int) else n

def fractionPart : Reader (List Char) := do
  exactly '.'
  digits Char.isDigit

/-- A number with a fraction, an exponent or both. One that rounds to positive infinity is
refused. -/
def finiteFloat : Reader Unit := do
  let s ← sign
  let whole ← decimalDigits
  let x : Scaled ← (do
      let fraction ← fractionPart
      let e ← maybe exponentPart
      return ⟨s = some '-', positional 10 (whole ++ fraction), e.getD 0 - fraction.length⟩)
    <|> (do
      let e ← exponentPart
      return ⟨s = some '-', positional 10 whole, e⟩)
  if x.isHuge ∧ ¬x.negative then failure

def specialFloat : Reader Unit := do
  let _ ← sign
  literal ['i', 'n', 'f'] <|> literal ['n', 'a', 'n']

def number (p : Reader Unit) : Reader String := do
  let before ← get
  p
  let after ← get
  return String.ofList (before.take (before.length - after.length))

def twoDigits (lo hi : Nat) : Reader Nat := do
  let n := positional 10 (← count Char.isDigit 2)
  if lo ≤ n ∧ n ≤ hi then return n else failure

def isLeapYear (year : Nat) : Bool :=
  year % 4 == 0 && (year % 100 != 0 || year % 400 == 0)

def daysInMonth (year month : Nat) : Nat :=
  if month = 2 then if isLeapYear year then 29 else 28
  else if month = 4 ∨ month = 6 ∨ month = 9 ∨ month = 11 then 30
  else 31

def date : Reader Unit := do
  let year := positional 10 (← count Char.isDigit 4)
  exactly '-'
  let month ← twoDigits 1 12
  exactly '-'
  let _ ← twoDigits 1 (daysInMonth year month)

def time : Reader Unit := do
  let _ ← twoDigits 0 23
  exactly ':'
  let _ ← twoDigits 0 59
  exactly ':'
  let _ ← twoDigits 0 60
  let _ ← maybe (do
    exactly '.'
    let _ ← char Char.isDigit
    run Char.isDigit)

def offset : Reader Unit := do
  match ← char fun c => c == 'Z' || c == 'z' || c == '+' || c == '-' with
  | '+' | '-' =>
    let _ ← twoDigits 0 23
    exactly ':'
    let _ ← twoDigits 0 59
  | _ => return ()

/-- A date, a time, or both with an optional offset. -/
def dateTime : Reader Unit :=
  (do
    date
    let _ ← maybe (do
      let _ ← char fun c => c == 'T' || c == 't' || c == ' '
      time
      maybe offset))
    <|> time

def numeric : Reader Value :=
  Value.dateTime <$> number dateTime
    <|> Value.float <$> number (finiteFloat <|> specialFloat)
    <|> Value.integer <$> integer

end SwitchCover.Toml
