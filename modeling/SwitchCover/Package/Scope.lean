import SwitchCover.ConstValue
import SwitchCover.OrderedMap
import SwitchCover.Type.Table

namespace SwitchCover

/-- Declaration of a type name. A defined type denotes itself, an alias its target. -/
structure TypeDecl where
  ty : TyId
  underlying : TyId
  isAlias : Bool
deriving DecidableEq

structure ConstDecl where
  ty : TyId
  value : Option ConstValue
deriving DecidableEq

inductive ScopeItem where
  | type (decl : TypeDecl)
  | const (decl : ConstDecl)
  | var (ty : TyId)
  | func (ty : TyId)
deriving DecidableEq

structure Scope where
  items : OrderedMap String ScopeItem

namespace Scope

def empty : Scope :=
  ⟨∅⟩

def lookup (s : Scope) (name : String) : Option ScopeItem :=
  s.items.get? name

/-- Declares a name at the end of the scope. A name that is taken cannot be declared again. -/
def declare? (s : Scope) (name : String) (item : ScopeItem) : Option Scope :=
  if h : name ∈ s.items.keys then none else some ⟨s.items.append name item h⟩

def constEntry? : (String × ScopeItem) × Nat → Option (Nat × String × ConstDecl)
  | ((name, .const decl), i) => some (i, name, decl)
  | _ => none

/-- Constants with their positions among all declarations. -/
def consts (s : Scope) : List (Nat × String × ConstDecl) :=
  s.items.entries.zipIdx.filterMap constEntry?

def typeDecl? (s : Scope) (name : String) : Option TypeDecl :=
  match s.lookup name with
  | some (.type decl) => some decl
  | _ => none

def size (s : Scope) : Nat :=
  s.items.size

end Scope

end SwitchCover
