import SwitchCover.Package.Path
import SwitchCover.Source
import SwitchCover.Syntax.Basic
import SwitchCover.Text.Quoted
import SwitchCover.Type.Table

namespace SwitchCover

/-- What happened, with the things it happened to. -/
inductive Event where
  | unresolvedIdent (name : String)
  | unresolvedMember (package : PackagePath) (member : String)
  | switchWithoutTag
  | tagWithoutType (tag : ExprId)
  | tagNotNamed (ty : TyId)
  | tagNotEnum (t : NamedType)
  | defaultClause (t : NamedType)
  | duplicateLabel (name : String)
  | unknownLabel (name : String) (t : NamedType)
  | unmatchedValue (value : ConstValue) (t : NamedType)
  | foreignLabel (member : String) (qualifier : Option PackagePath) (owner : PackagePath)
  | opaqueLabel (label : ExprId)
  | valuelessLabel (label : ExprId) (t : NamedType)
  | packageNotLoaded (path : PackagePath)
  | notEnumLike (t : NamedType)
  | registryBuilt (packages enums : Nat)
  | buildingRegistry (package : PackagePath) (packages : Nat)
  | invalidConfig (diagnostics : String)
  | unknownFile (file : FileId)
  | unknownPackage (package : PackagePath)
  | checkedProgram (packages diagnostics : Nat)
  | renderFailed (reason : FileError)

namespace Event

inductive Level where
  | trace | debug | info | warn | error

def Level.name : Level → String
  | trace => "TRACE"
  | debug => "DEBUG"
  | info => "INFO"
  | warn => "WARN"
  | error => "ERROR"

def level : Event → Level
  | unresolvedIdent _ | unresolvedMember _ _ => .debug
  | switchWithoutTag | tagWithoutType _ | tagNotNamed _ | tagNotEnum _ | defaultClause _ => .trace
  | duplicateLabel _ | unknownLabel _ _ | unmatchedValue _ _ | foreignLabel _ _ _
  | opaqueLabel _ | valuelessLabel _ _ => .debug
  | packageNotLoaded _ | notEnumLike _ => .trace
  | registryBuilt _ _ | buildingRegistry _ _ => .debug
  | invalidConfig _ | unknownFile _ | unknownPackage _ => .warn
  | checkedProgram _ _ => .info
  | renderFailed _ => .error

def message : Event → String
  | unresolvedIdent _ => "unresolved identifier"
  | unresolvedMember _ _ => "unresolved package member"
  | switchWithoutTag => "switch without discriminant"
  | tagWithoutType _ => "discriminant has no type information"
  | tagNotNamed _ => "discriminant is not a named type"
  | tagNotEnum _ => "discriminant type is not enum-like"
  | defaultClause _ => "default clause covers every constant"
  | duplicateLabel _ => "duplicate case label"
  | unknownLabel _ _ => "case label is not a constant of the enum"
  | unmatchedValue _ _ => "case value matches no constant"
  | foreignLabel _ _ _ => "qualified label does not reference the package of the enum"
  | opaqueLabel _ => "case label is neither an identifier nor a selector"
  | valuelessLabel _ _ => "case label has no constant value of the enum type"
  | packageNotLoaded _ => "package of the closure is not loaded"
  | notEnumLike _ => "type has constants but is not enum-like"
  | registryBuilt _ _ => "built enum registry"
  | buildingRegistry _ _ => "building enum registry"
  | invalidConfig diagnostics => "invalid entries in the lint configuration:\n" ++ diagnostics
  | unknownFile _ => "file is not part of the program"
  | unknownPackage _ => "package is not part of the program"
  | checkedProgram _ _ => "checked program"
  | renderFailed _ => "failed to render diagnostic"

def exprText (e : ExprId) : String :=
  s!"ExprId({e.index})"

def fileText (f : FileId) : String :=
  s!"FileId({f.index})"

def qualifierText : Option PackagePath → String
  | none => "None"
  | some p => "Some(PackagePath(" ++ Text.quote p.text ++ "))"

def fields (types : TypeTable) : Event → List (String × String)
  | unresolvedIdent name => [("name", name)]
  | unresolvedMember package member => [("package", package.text), ("member", member)]
  | switchWithoutTag => []
  | tagWithoutType tag => [("expr", exprText tag)]
  | tagNotNamed ty => [("ty", types.display ty)]
  | tagNotEnum t => [("ty", t.qualified)]
  | defaultClause t => [("ty", t.name)]
  | duplicateLabel name => [("name", name)]
  | unknownLabel name t => [("name", name), ("ty", t.name)]
  | unmatchedValue value t => [("value", value.display), ("ty", t.name)]
  | foreignLabel member qualifier owner =>
    [("member", member), ("qualifier", qualifierText qualifier), ("owner", owner.text)]
  | opaqueLabel label => [("label", exprText label)]
  | valuelessLabel label t => [("label", exprText label), ("ty", t.name)]
  | packageNotLoaded path => [("path", path.text)]
  | notEnumLike t => [("ty", t.qualified)]
  | registryBuilt packages enums => [("packages", toString packages), ("enums", toString enums)]
  | buildingRegistry package packages =>
    [("package", package.text), ("packages", toString packages)]
  | invalidConfig _ => []
  | unknownFile file => [("file", fileText file)]
  | unknownPackage package => [("package", package.text)]
  | checkedProgram packages diagnostics =>
    [("packages", toString packages), ("diagnostics", toString diagnostics)]
  | renderFailed reason => [("err", reason.message)]

def line (types : TypeTable) (e : Event) : String :=
  String.join ((e.level.name ++ " " ++ e.message) ::
    (e.fields types).map fun (k, v) => " " ++ k ++ "=" ++ v)

end Event

/-- A value with the events recorded on the way to it, oldest first. -/
@[ext] structure Traced (α : Type u) where
  value : α
  events : List Event

namespace Traced

instance : Monad Traced where
  pure a := ⟨a, []⟩
  bind x f :=
    let y := f x.value
    ⟨y.value, x.events ++ y.events⟩

def emit (e : Event) : Traced Unit :=
  ⟨(), [e]⟩

def foldl {σ : Type u} {α : Type v} (step : σ → α → Traced σ) : σ → List α → Traced σ
  | s, [] => pure s
  | s, a :: as => step s a >>= fun s => foldl step s as

def mapList {α : Type v} {β : Type u} (f : α → Traced β) : List α → Traced (List β)
  | [] => pure []
  | a :: as => f a >>= fun b => mapList f as >>= fun bs => pure (b :: bs)

variable {α β : Type u}

@[simp] theorem value_pure (a : α) : (pure a : Traced α).value = a := rfl

@[simp] theorem value_bind (x : Traced α) (f : α → Traced β) :
    (x >>= f).value = (f x.value).value := rfl

@[simp] theorem value_map (f : α → β) (x : Traced α) : (f <$> x).value = f x.value := rfl

@[simp] theorem value_emit (e : Event) : (emit e).value = () := rfl

@[simp] theorem value_foldl {γ : Type v} (step : α → γ → Traced α) (s : α) (xs : List γ) :
    (foldl step s xs).value = xs.foldl (fun s x => (step s x).value) s := by
  induction xs generalizing s with
  | nil => rfl
  | cons x xs ih => exact ih _

@[simp] theorem value_mapList {γ : Type v} (f : γ → Traced α) (xs : List γ) :
    (mapList f xs).value = xs.map fun x => (f x).value := by
  induction xs with
  | nil => rfl
  | cons x xs ih => simp [mapList, ih]

@[simp] theorem events_pure (a : α) : (pure a : Traced α).events = [] := rfl

@[simp] theorem events_bind (x : Traced α) (f : α → Traced β) :
    (x >>= f).events = x.events ++ (f x.value).events := rfl

@[simp] theorem events_mapList {γ : Type v} (f : γ → Traced α) (xs : List γ) :
    (mapList f xs).events = xs.flatMap fun x => (f x).events := by
  induction xs with
  | nil => rfl
  | cons x xs ih => simp [mapList, ih]

end Traced

end SwitchCover
