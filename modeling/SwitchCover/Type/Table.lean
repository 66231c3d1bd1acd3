import SwitchCover.Type.Prim
import SwitchCover.Package.Path

namespace SwitchCover

structure TyId where
  index : Nat
deriving DecidableEq

inductive TyData where
  | prim (p : PrimType)
  | named (t : NamedType)
  | pointer (elem : TyId)
  | slice (elem : TyId)
  | interface
  | signature (params results : List TyId)
  | invalid
deriving DecidableEq

namespace TyData

def components : TyData → List TyId
  | pointer elem => [elem]
  | slice elem => [elem]
  | signature params results => params ++ results
  | _ => []

def render (text : TyId → String) : TyData → String
  | prim p => p.name
  | named t => t.name
  | pointer elem => "*" ++ text elem
  | slice elem => "[]" ++ text elem
  | interface => "interface\x7b\x7d"
  | signature params results =>
    let head := "func(" ++ ", ".intercalate (params.map text) ++ ")"
    match results with
    | [] => head
    | [result] => head ++ " " ++ text result
    | results => head ++ " (" ++ ", ".intercalate (results.map text) ++ ")"
  | invalid => "invalid type"

end TyData

/-- All types that occur in a program. -/
structure TypeTable where
  types : List TyData
deriving DecidableEq

namespace TypeTable

def empty : TypeTable :=
  ⟨[]⟩

def size (table : TypeTable) : Nat :=
  table.types.length

def isEmpty (table : TypeTable) : Bool :=
  table.types.isEmpty

def data? (table : TypeTable) (ty : TyId) : Option TyData :=
  table.types[ty.index]?

/-- The id of the data, which is added at the end if it is new. -/
def intern (table : TypeTable) (data : TyData) : TyId × TypeTable :=
  match table.types.idxOf? data with
  | some i => (⟨i⟩, table)
  | none => (⟨table.types.length⟩, ⟨table.types ++ [data]⟩)

def asNamed (table : TypeTable) (ty : TyId) : Option NamedType :=
  match table.data? ty with
  | some (.named t) => some t
  | _ => none

def asPrim (table : TypeTable) (ty : TyId) : Option PrimType :=
  match table.data? ty with
  | some (.prim p) => some p
  | _ => none

def results (table : TypeTable) (ty : TyId) : Option (List TyId) :=
  match table.data? ty with
  | some (.signature _ results) => some results
  | _ => none

def displayWithin (table : TypeTable) : Nat → TyId → String
  | 0, _ => ""
  | n + 1, ty =>
    match table.data? ty with
    | some data => data.render (table.displayWithin n)
    | none => ""

/-- Text of a type. Its components stand before it in the table, so they are nested at most as
often as there are types before it. -/
def display (table : TypeTable) (ty : TyId) : String :=
  table.displayWithin (ty.index + 1) ty

def texts (table : TypeTable) : List String :=
  (List.range table.size).map fun i => table.display ⟨i⟩

end TypeTable

end SwitchCover
