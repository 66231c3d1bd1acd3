import SwitchCover.Toml.Reader

namespace SwitchCover.Toml

open Reader

def doubleQuote : Char :=
  '\x22'

def apostrophe : Char :=
  '\x27'

def isHexDigit (c : Char) : Bool :=
  c.isDigit || ('a' ≤ c && c ≤ 'f') || ('A' ≤ c && c ≤ 'F')

def hexValue (c : Char) : Nat :=
  if c.isDigit then c.toNat - 48 else if c.isLower then c.toNat - 87 else c.toNat - 55

def positional (base : Nat) (cs : List Char) : Nat :=
  cs.foldl (fun n c => n * base + hexValue c) 0

def scalar (digits : Nat) : Reader Char := do
  let n := positional 16 (← count isHexDigit digits)
  if n < 0xd800 ∨ (0xdfff < n ∧ n < 0x110000) then return Char.ofNat n else failure

def escaped : Reader Char := do
  match ← char fun _ => true with
  | 'b' => return '\x08'
  | 't' => return '\t'
  | 'n' => return '\n'
  | 'f' => return '\x0c'
  | 'r' => return '\r'
  | '\\' => return '\\'
  | 'u' => scalar 4
  | 'U' => scalar 8
  | c => if c = doubleQuote then return c else failure

def basicChar : Reader Char :=
  char (fun c => isPlain c && c != doubleQuote && c != '\\') <|> (do exactly '\\'; escaped)

def basicString : Reader String := do
  exactly doubleQuote
  let cs ← many basicChar
  exactly doubleQuote
  return String.ofList cs

def literalString : Reader String := do
  exactly apostrophe
  let cs ← run fun c => isPlain c && c != apostrophe
  exactly apostrophe
  return String.ofList cs

def lineContinuation : Reader Unit := do
  exactly '\\'
  blanks
  newline
  let _ ← many (newline <|> (do let _ ← char isBlank))

/-- One or two quotes inside a string between triple quotes: not followed by another quote. -/
def innerQuotes (quote : Char) : Reader (List Char) := do
  let qs ← run (· == quote)
  if 1 ≤ qs.length ∧ qs.length ≤ 2 ∧ (← peek).isSome then return qs else failure

/-- The closing triple quotes, with one or two quotes before them that belong to the text. -/
def closingQuotes (quote : Char) : Reader (List Char) := do
  let qs ← run (· == quote)
  if 3 ≤ qs.length ∧ qs.length ≤ 5 then return qs.drop 3 else failure

def multilineBasicPart : Reader (List Char) :=
  (do return [← char fun c => isPlain c && c != doubleQuote && c != '\\'])
    <|> (do lineContinuation; return [])
    <|> (do exactly '\\'; return [← escaped])
    <|> (do newline; return ['\n'])
    <|> innerQuotes doubleQuote

def multilineLiteralPart : Reader (List Char) :=
  (do return [← char fun c => isPlain c && c != apostrophe])
    <|> (do newline; return ['\n'])
    <|> innerQuotes apostrophe

/-- A string between triple quotes. A line end right after the opening quotes is no part of it. -/
def multiline (quote : Char) (part : Reader (List Char)) : Reader String := do
  literal [quote, quote, quote]
  let _ ← maybe newline
  let parts ← many part
  let last ← closingQuotes quote
  return String.ofList (parts.flatten ++ last)

def string : Reader String :=
  multiline doubleQuote multilineBasicPart <|> multiline apostrophe multilineLiteralPart
    <|> singleLine
where
  /-- A text that opens with three quotes is never a string on one line. -/
  singleLine : Reader String := do
    match ← get with
    | a :: b :: c :: _ =>
      if a = b ∧ b = c then failure else basicString <|> literalString
    | _ => basicString <|> literalString

def isBareKeyChar (c : Char) : Bool :=
  c.isAlphanum || c == '_' || c == '-'

def simpleKey : Reader String :=
  (do
    let c ← char isBareKeyChar
    let cs ← run isBareKeyChar
    return String.ofList (c :: cs))
    <|> basicString <|> literalString

def maxKeyLength : Nat :=
  79

/-- A dotted key: the parts before the last dot and the last part. -/
def key : Reader (List String × String) := do
  let first ← part
  let rest ← many (do exactly '.'; part)
  let parts := first :: rest
  if parts.length ≤ maxKeyLength then
    return (parts.dropLast, parts.getLast?.getD first)
  else failure
where
  part : Reader String := do
    blanks
    let k ← simpleKey
    blanks
    return k

end SwitchCover.Toml
