import SwitchCover.Toml.Reserved

namespace SwitchCover.Toml

open Reader

def boolean : Reader Bool :=
  (do literal ['t', 'r', 'u', 'e']; return true)
    <|> (do literal ['f', 'a', 'l', 's', 'e']; return false)

def scalarValue : Reader Value :=
  Value.string <$> string <|> Value.boolean <$> boolean <|> numeric

def array (value : Reader Value) : Reader (List Value) := do
  exactly '['
  let items ← (do
      let first ← item
      let rest ← many (do exactly ','; item)
      let _ ← maybe (exactly ',')
      return first :: rest)
    <|> return []
  gap
  exactly ']'
  return items
where
  item : Reader Value := do
    gap
    let v ← value
    gap
    return v

def keyValue (value : Reader Value) : Reader ((List String × String) × Value) := do
  let k ← key
  exactly '='
  blanks
  let v ← value
  return (k, v)

/-- Entries under dotted keys from left to right, which must not clash. -/
def collect (es : Entries) : List ((List String × String) × Value) → Option Entries
  | [] => some es
  | ((path, k), v) :: rest =>
    match es.addDotted path k v with
    | some es => collect es rest
    | none => none

def inlineTable (value : Reader Value) : Reader Entries := do
  exactly '\x7b'
  let pairs ← (do
      let first ← item
      let rest ← many (do exactly ','; item)
      return first :: rest)
    <|> return []
  blanks
  exactly '\x7d'
  match collect [] pairs with
  | some es => return es
  | none => failure
where
  item : Reader ((List String × String) × Value) := do
    let pair ← keyValue value
    blanks
    return pair

/-- A value in which arrays and tables are nested at most `depth` times. -/
def value : Nat → Reader Value
  | 0 => scalarValue
  | depth + 1 =>
    scalarValue <|> Value.array <$> array (value depth)
      <|> Value.inline <$> inlineTable (value depth)

def maxDepth : Nat :=
  79

inductive Line where
  | blank
  | keyValue (path : List String) (key : String) (value : Value)
  | table (path : List String) (key : String)
  | element (path : List String) (key : String)

def header : Reader Line := do
  exactly '['
  match ← maybe (exactly '[') with
  | some _ =>
    let (path, k) ← key
    literal [']', ']']
    lineRest
    return .element path k
  | none =>
    let (path, k) ← key
    exactly ']'
    lineRest
    return .table path k

def line : Reader Line := do
  blanks
  match ← peek with
  | some '#' =>
    comment
    lineEnd
    return .blank
  | some '[' => header
  | some '\n' | some '\r' =>
    newline
    return .blank
  | some _ =>
    let ((path, k), v) ← keyValue (value maxDepth)
    lineRest
    return .keyValue path k v
  | none => failure

def lines : Reader (List Line) := do
  let ls ← many line
  blanks
  eof
  return ls

/-- Adds the lines to a table, where `header` is the path of the table that is open. -/
def assemble (root : Entries) (header : List String) : List Line → Option Entries
  | [] => some root
  | .blank :: rest => assemble root header rest
  | .keyValue path k v :: rest =>
    match root.updateAt (·.addDotted path k v) header with
    | some root => assemble root header rest
    | none => none
  | .table path k :: rest =>
    match root.updateAt (·.openTable k) path with
    | some root => assemble root (path ++ [k]) rest
    | none => none
  | .element path k :: rest =>
    match root.updateAt (·.openElement k) path with
    | some root => assemble root (path ++ [k]) rest
    | none => none

def stripMark : List Char → List Char
  | c :: cs => if c.toNat = 0xfeff then cs else c :: cs
  | [] => []

/-- Reads a document; none if it is malformed. The document is a table unless it stands for a
date-time. -/
def parse? (text : String) : Option Value :=
  match StateT.run lines (stripMark text.toList) with
  | some (ls, _) =>
    match assemble [] [] ls with
    | some root => (Value.table .header root).resolve?
    | none => none
  | none => none

end SwitchCover.Toml
