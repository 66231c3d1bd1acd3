import SwitchCover.Build.Error
import SwitchCover.Type.Table

namespace SwitchCover

inductive TypeRef where
  | prim (p : PrimType)
  | interface
  | invalid
  | named (t : NamedType)
  | pointer (elem : TypeRef)
  | slice (elem : TypeRef)
  | signature (params results : List TypeRef)
  | slot (n : Nat)
  | unknown
deriving Inhabited

namespace TypeRef

def ofName (name : String) : TypeRef :=
  match PrimType.ofName? name, UntypedKind.ofName? name, name with
  | some p, _, _ => .prim p
  | none, some kind, _ => .prim (.untyped kind)
  | none, none, "interface" => .interface
  | none, none, "invalid" => .invalid
  | none, none, _ => .unknown

def internData (data : TyData) : EStateM StepError TypeTable TyId := do
  let (ty, table) := (← get).intern data
  set table
  return ty

mutual

/-- Adds the referenced type to the table, its components first and from left to right. What was
added before a bad component stays. -/
def intern (slots : List TyId) : TypeRef → EStateM StepError TypeTable TyId
  | prim p => internData (.prim p)
  | interface => internData .interface
  | invalid => internData .invalid
  | named t => internData (.named t)
  | pointer elem => do internData (.pointer (← intern slots elem))
  | slice elem => do internData (.slice (← intern slots elem))
  | signature params results => do
    let params ← internAll slots params
    let results ← internAll slots results
    internData (.signature params results)
  | slot n =>
    match slots[n]? with
    | some ty => return ty
    | none => throw .unknownHandle
  | unknown => throw .unknownType

def internAll (slots : List TyId) : List TypeRef → EStateM StepError TypeTable (List TyId)
  | [] => return []
  | r :: rs => do
    let ty ← intern slots r
    let tys ← internAll slots rs
    return ty :: tys

end

end TypeRef

end SwitchCover
