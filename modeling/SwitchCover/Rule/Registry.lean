import SwitchCover.Config
import SwitchCover.Program
import SwitchCover.Trace

namespace SwitchCover

structure EnumConstant where
  name : String
  index : Nat
  value : Option ConstValue
deriving DecidableEq

/-- Enum-like types with their constants in declaration order. A named type is enum-like if its
package declares it as a type of its own over an accepted integer kind, with at least one constant
of exactly that type. -/
structure Registry where
  enums : OrderedMap NamedType (List EnumConstant)

namespace IntegerKinds

def accepts : IntegerKinds → PrimType → Bool
  | int, p => p = .int .int
  | signed, p => p.isSigned
  | any, p => p.isInteger && !p.isUntyped

end IntegerKinds

namespace Package

/-- Groups a constant with the others of its type, if the type belongs to the package. -/
def addCandidate (table : TypeTable) (pkg : Package)
    (m : OrderedMap NamedType (List EnumConstant)) :
    Nat × String × ConstDecl → OrderedMap NamedType (List EnumConstant)
  | (index, name, decl) =>
    match table.asNamed decl.ty with
    | some t =>
      if t.package = pkg.path then
        m.insert t ((m.get? t).getD [] ++ [⟨name, index, decl.value⟩])
      else m
    | none => m

def candidates (table : TypeTable) (pkg : Package) : OrderedMap NamedType (List EnumConstant) :=
  pkg.scope.consts.foldl (addCandidate table pkg) ∅

/-- Whether a package declares a type of its own over an accepted integer kind. -/
def declaresEnum (table : TypeTable) (kinds : IntegerKinds) (pkg : Package) (t : NamedType) :
    Bool :=
  match pkg.scope.typeDecl? t.name with
  | some decl =>
    !decl.isAlias && table.asNamed decl.ty == some t &&
      (table.asPrim decl.underlying).any kinds.accepts
  | none => false

end Package

namespace Registry

def empty : Registry :=
  ⟨∅⟩

def constantsOf (r : Registry) (t : NamedType) : Option (List EnumConstant) :=
  r.enums.get? t

def size (r : Registry) : Nat :=
  r.enums.size

def addType (table : TypeTable) (kinds : IntegerKinds) (pkg : Package) (r : Registry) :
    NamedType × List EnumConstant → Traced Registry
  | (t, constants) =>
    if pkg.declaresEnum table kinds t then pure ⟨r.enums.insert t constants⟩
    else do
      Traced.emit (.notEnumLike t)
      return r

def addPackage (program : Program) (kinds : IntegerKinds) (r : Registry) (path : PackagePath) :
    Traced Registry :=
  match program.package? path with
  | some pkg =>
    Traced.foldl (addType program.types kinds pkg) r (pkg.candidates program.types).entries
  | none => do
    Traced.emit (.packageNotLoaded path)
    return r

def build (program : Program) (closure : Closure) (kinds : IntegerKinds) : Traced Registry := do
  let r ← Traced.foldl (addPackage program kinds) empty closure.paths
  Traced.emit (.registryBuilt closure.size r.size)
  return r

def inTypeOrder (r : Registry) (table : TypeTable) : List (NamedType × List EnumConstant) :=
  table.types.filterMap fun
    | .named t => (r.constantsOf t).map fun constants => (t, constants)
    | _ => none

end Registry

end SwitchCover
