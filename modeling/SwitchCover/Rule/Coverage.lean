import SwitchCover.Rule.Registry

namespace SwitchCover

inductive CaseLabel where
  | name (n : String)
  | value (v : ConstValue)
  | nothing
deriving DecidableEq

/-- For each constant whether some label covers it, in declaration order. -/
structure Coverage where
  found : OrderedMap String Bool

namespace Coverage

def isFound (c : Coverage) (name : String) : Option Bool :=
  c.found.get? name

def missing (c : Coverage) : List String :=
  c.found.entries.filterMap fun (name, found) => if found then none else some name

def initial (constants : List EnumConstant) : Coverage :=
  ⟨.ofList (constants.map fun c => (c.name, false))⟩

def isComplete (c : Coverage) : Bool :=
  c.found.values.all id

def cover (c : Coverage) (name : String) : Coverage :=
  ⟨c.found.modify name fun _ => true⟩

def evaluateLabel (settings : Settings) (table : TypeTable) (b : Body) (t : NamedType)
    (label : ExprId) : Traced CaseLabel :=
  if settings.conversionLabels = .ignore then do
    Traced.emit (.opaqueLabel label)
    return .nothing
  else
    match b.typing? label with
    | some ⟨ty, some v⟩ =>
      if table.asNamed ty = some t then pure (.value v) else valueless
    | _ => valueless
where
  valueless : Traced CaseLabel := do
    Traced.emit (.valuelessLabel label t)
    return .nothing

/-- Meaning of a label behind its parentheses. -/
def resolveLabel (settings : Settings) (table : TypeTable) (b : Body) (t : NamedType)
    (label : ExprId) : Traced CaseLabel :=
  let label := b.unparen label
  match b.expr? label with
  | some (.ident name) => pure (.name name)
  | some (.selector base member) =>
    if settings.qualifiedLabels = .loose ∨ b.packageRef? base = some t.package then
      pure (.name member)
    else do
      Traced.emit (.foreignLabel member (b.packageRef? base) t.package)
      return .nothing
  | _ => evaluateLabel settings table b t label

/-- Marks what a label refers to. A value covers every constant that has it. -/
def mark (t : NamedType) (constants : List EnumConstant) (c : Coverage) :
    CaseLabel → Traced Coverage
  | .name n =>
    match c.isFound n with
    | some true => do
      Traced.emit (.duplicateLabel n)
      return c
    | some false => pure (c.cover n)
    | none => do
      Traced.emit (.unknownLabel n t)
      return c
  | .value v =>
    match constants.filter fun k => k.value = some v with
    | [] => do
      Traced.emit (.unmatchedValue v t)
      return c
    | ks => pure (ks.foldl (fun c k => c.cover k.name) c)
  | .nothing => pure c

/-- Checks a switch on an enum type. The answer is none if a default clause or the labels cover
every constant. -/
def check (settings : Settings) (table : TypeTable) (b : Body) (s : Switch) (t : NamedType)
    (constants : List EnumConstant) : Traced (Option Coverage) :=
  if s.hasDefault then do
    Traced.emit (.defaultClause t)
    return none
  else do
    let c ← Traced.foldl (fun c label => do
      mark t constants c (← resolveLabel settings table b t label)) (initial constants) s.labels
    return if c.isComplete then none else some c

end Coverage

end SwitchCover
