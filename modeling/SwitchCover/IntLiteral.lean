namespace SwitchCover

inductive Radix where
  | hexadecimal
  | decimal
  | octal
  | binary
deriving DecidableEq

namespace Radix

def base : Radix → Nat
  | hexadecimal => 16
  | decimal => 10
  | octal => 8
  | binary => 2

end Radix

structure IntLiteral where
  radix : Radix
  digits : List Char
deriving DecidableEq

namespace IntLiteral

def isDigitOrSeparator (c : Char) : Bool :=
  c.isDigit || c == '_'

/-- Recognises the radix. A text of at least two characters that starts with `0` and has only
digits and separators is octal, with the `0` as its mark. -/
def ofChars : List Char → IntLiteral
  | '0' :: 'x' :: cs => ⟨.hexadecimal, cs⟩
  | '0' :: 'X' :: cs => ⟨.hexadecimal, cs⟩
  | '0' :: 'o' :: cs => ⟨.octal, cs⟩
  | '0' :: 'O' :: cs => ⟨.octal, cs⟩
  | '0' :: 'b' :: cs => ⟨.binary, cs⟩
  | '0' :: 'B' :: cs => ⟨.binary, cs⟩
  | '0' :: c :: cs =>
    if (c :: cs).all isDigitOrSeparator then ⟨.octal, c :: cs⟩ else ⟨.decimal, '0' :: c :: cs⟩
  | cs => ⟨.decimal, cs⟩

/-- The literal of a text. A literal is not empty and has no minus sign of its own. -/
def ofText? (text : String) : Option IntLiteral :=
  match text.toList with
  | [] => none
  | c :: cs => if c = '-' then none else some (ofChars (c :: cs))

def digitValue? (c : Char) : Option Nat :=
  if c.isDigit then some (c.toNat - 48)
  else if c.isLower then some (c.toNat - 87)
  else if c.isUpper then some (c.toNat - 55)
  else none

/-- Positional value of digits that follow the value `acc`, if each is below the base. -/
def digitsValue? (base acc : Nat) : List Char → Option Nat
  | [] => some acc
  | c :: cs =>
    match digitValue? c with
    | some d => if d < base then digitsValue? base (acc * base + d) cs else none
    | none => none

def magnitude? (base : Nat) : List Char → Option Nat
  | [] => none
  | c :: cs => digitsValue? base 0 (c :: cs)

def signedValue? (base : Nat) : List Char → Option Int
  | '+' :: cs => (magnitude? base cs).map fun n => n
  | '-' :: cs => (magnitude? base cs).map fun n => -n
  | cs => (magnitude? base cs).map fun n => n

/-- Value of the literal with its separators removed; none if a digit is malformed. -/
def value? (lit : IntLiteral) : Option Int :=
  signedValue? lit.radix.base (lit.digits.filter (· ≠ '_'))

end IntLiteral

end SwitchCover
