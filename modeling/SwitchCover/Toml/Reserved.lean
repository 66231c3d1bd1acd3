import SwitchCover.Toml.Number

namespace SwitchCover.Toml

open Reader

def dateTimeKey : String :=
  "$__toml_private_datetime"

def isDateTime (text : String) : Bool :=
  (StateT.run (do dateTime; eof) text.toList).isSome

/-- The value of the reserved key. A table that starts with the key stands for the date-time whose
text is the value, and its other entries have no meaning. -/
def Entries.reserved? : Entries → Option Value
  | (key, v) :: _ => if key = dateTimeKey then some v else none
  | [] => none

namespace Value

def toDateTime? : Value → Option Value
  | string text => if isDateTime text then some (dateTime text) else none
  | _ => none

mutual

/-- Replaces every table inside a value that stands for a date-time; none if one of them holds no
date-time. -/
def resolve? : Value → Option Value
  | array items => (resolveItems? items).map array
  | inline entries =>
    match Entries.reserved? entries with
    | some v => v.toDateTime?
    | none => (resolveEntries? entries).map inline
  | table origin entries =>
    match Entries.reserved? entries with
    | some v => v.toDateTime?
    | none => (resolveEntries? entries).map (table origin)
  | tables items => (resolveTables? items).map array
  | v => some v

def resolveItems? : List Value → Option (List Value)
  | [] => some []
  | v :: vs => do
    let v ← resolve? v
    let vs ← resolveItems? vs
    return v :: vs

def resolveEntries? : Entries → Option Entries
  | [] => some []
  | (key, v) :: es => do
    let v ← resolve? v
    let es ← resolveEntries? es
    return (key, v) :: es

def resolveTables? : List Entries → Option (List Value)
  | [] => some []
  | t :: ts => do
    -- A table of the array may stand for a date-time, so all of them become plain items.
    let v ← match Entries.reserved? t with
      | some v => v.toDateTime?
      | none => (resolveEntries? t).map (table .header)
    let vs ← resolveTables? ts
    return v :: vs

end

end Value

end SwitchCover.Toml
