namespace SwitchCover.Toml

/-- How a table came to be, which decides what may still be added to it. -/
inductive Origin where
  | header
  | implicit
  | dotted
deriving DecidableEq

inductive Value where
  | string (s : String)
  | integer (n : Int)
  | float (text : String)
  | boolean (b : Bool)
  | dateTime (text : String)
  | array (items : List Value)
  | inline (entries : List (String × Value))
  | table (origin : Origin) (entries : List (String × Value))
  /-- Tables opened one after the other by headers in double brackets. -/
  | tables (items : List (List (String × Value)))

abbrev Entries := List (String × Value)

namespace Value

def kind : Value → String
  | string _ => "string"
  | integer _ => "integer"
  | float _ => "float"
  | boolean _ => "boolean"
  | dateTime _ => "datetime"
  | array _ => "array"
  | inline _ => "table"
  | table _ _ => "table"
  | tables _ => "array"

def asString : Value → Option String
  | string s => some s
  | _ => none

def asTable : Value → Option Entries
  | inline entries => some entries
  | table _ entries => some entries
  | _ => none

def get? (v : Value) (key : String) : Option Value :=
  match v.asTable with
  | some entries => entries.lookup key
  | none => none

end Value

namespace Entries

def get? (es : Entries) (key : String) : Option Value :=
  es.lookup key

def erase (es : Entries) (key : String) : Entries :=
  es.filter fun e => e.1 ≠ key

def set (es : Entries) (key : String) (v : Value) : Entries :=
  es.map fun e => if e.1 = key then (key, v) else e

def add? (es : Entries) (key : String) (v : Value) : Option Entries :=
  match es.get? key with
  | none => some (es ++ [(key, v)])
  | some _ => none

def sorted (es : Entries) : Entries :=
  es.mergeSort fun a b => a.1 ≤ b.1

/-- Adds a value under a dotted key. The tables on the way are made as needed; one that was opened
by a header cannot be entered, and the last one must have been made by dotted keys. -/
def addDotted : List String → String → Value → Entries → Option Entries
  | [], key, v, es => es.add? key v
  | part :: path, key, v, es =>
    match es.get? part with
    | none => (addDotted path key v []).map fun t => es ++ [(part, .table .dotted t)]
    | some (.table origin t) =>
      if origin = .header ∨ path = [] ∧ origin ≠ .dotted then none
      else (addDotted path key v t).map fun t => es.set part (.table origin t)
    | some (.tables ts) =>
      match ts.getLast? with
      | some t =>
        if path = [] then none
        else (addDotted path key v t).map fun t => es.set part (.tables (ts.dropLast ++ [t]))
      | none => none
    | some _ => none

/-- Changes the table at a path of headers. The tables on the way are made as needed; an array of
tables stands for its last table. -/
def updateAt (f : Entries → Option Entries) : List String → Entries → Option Entries
  | [], es => f es
  | part :: path, es =>
    match es.get? part with
    | none => (updateAt f path []).map fun t => es ++ [(part, .table .implicit t)]
    | some (.table origin t) => (updateAt f path t).map fun t => es.set part (.table origin t)
    | some (.tables ts) =>
      match ts.getLast? with
      | some t => (updateAt f path t).map fun t => es.set part (.tables (ts.dropLast ++ [t]))
      | none => none
    | some _ => none

/-- Opens the table of a header, which must be new or have been made on the way to another. In
both cases it becomes the last entry. -/
def openTable (key : String) (es : Entries) : Option Entries :=
  match es.get? key with
  | none => some (es ++ [(key, .table .header [])])
  | some (.table .implicit t) => some (es.erase key ++ [(key, .table .header t)])
  | some _ => none

def openElement (key : String) (es : Entries) : Option Entries :=
  match es.get? key with
  | none => some (es ++ [(key, .tables [[]])])
  | some (.tables ts) => some (es.set key (.tables (ts ++ [[]])))
  | some _ => none

end Entries

end SwitchCover.Toml
