import SwitchCover.Text.Alphanumeric
import SwitchCover.Text.Bytes

namespace SwitchCover.Text

def isIdentChar (c : Char) : Bool :=
  isAlphanumeric c || c == '_'

def backtick : Char :=
  '\x60'

def isQuote (c : Char) : Bool :=
  c == '\x22' || c == '\x27' || c == backtick

/-- Whether a line comment starts within the characters, where `quote` is the delimiter of the
literal that is open before them. A backslash escapes the next character, except in a literal
between backticks. -/
def startsComment : Option Char → List Char → Bool
  | _, [] => false
  | none, c :: cs =>
    if isQuote c then startsComment (some c) cs
    else (c == '/' && cs.head? == some '/') || startsComment none cs
  | some q, c :: cs =>
    if q ≠ backtick ∧ c = '\\' then
      match cs with
      | [] => false
      | _ :: cs => startsComment (some q) cs
    else startsComment (if c = q then none else some q) cs

/-- Whether the end of a text, given from its last character to its first, is in a line
comment. -/
def endsInComment (before : List Char) : Bool :=
  startsComment none (before.takeWhile (· ≠ '\n')).reverse

def inLineComment (cs : List Char) (offset : Nat) : Bool :=
  match splitAt? offset cs with
  | some (before, _) => endsInComment before.reverse
  | none => false

def headIsIdent (cs : List Char) : Bool :=
  cs.head?.any isIdentChar

/-- Whether an occurrence of `needle` between `before`, given backwards, and `after` is a token of
its own. -/
def standsAlone (needle before after : List Char) : Bool :=
  !(headIsIdent needle && headIsIdent before) &&
    !(headIsIdent needle.reverse && headIsIdent after) && !endsInComment before

/-- Tries the occurrences of `needle` from left to right, where `skip` characters still belong to
a rejected occurrence and `before` is the text passed so far, backwards. The answer is the text
before the first accepted one, backwards. -/
def searchFrom (needle before : List Char) : Nat → List Char → Option (List Char)
  | 0, [] => if needle = [] ∧ standsAlone needle before [] then some before else none
  | _ + 1, [] => none
  | skip + 1, c :: cs => searchFrom needle (c :: before) skip cs
  | 0, c :: cs =>
    if needle.isPrefixOf (c :: cs) then
      if standsAlone needle before ((c :: cs).drop needle.length) then some before
      else searchFrom needle (c :: before) (needle.length - 1) cs
    else searchFrom needle (c :: before) 0 cs

/-- Offset of the first token `needle` at or after the offset `start`. -/
def findToken (cs : List Char) (start : Nat) (needle : List Char) : Option Nat :=
  match splitAt? start cs with
  | some (before, rest) => (searchFrom needle before.reverse 0 rest).map byteLength
  | none => none

end SwitchCover.Text
