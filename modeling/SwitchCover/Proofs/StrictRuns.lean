import SwitchCover.Proofs.Preorder
import SwitchCover.Proofs.Strict
import SwitchCover.Proofs.WholeRuns

namespace SwitchCover

namespace Strict

def asNamed (table : TypeTable) (ty : TyId) : Option (Option NamedType) := do
  match ← table.data? ty with
  | .named t => return some t
  | _ => return none

def asPrim (table : TypeTable) (ty : TyId) : Option (Option PrimType) := do
  match ← table.data? ty with
  | .prim p => return some p
  | _ => return none

def evaluateLabel (settings : Settings) (table : TypeTable) (b : Body) (t : NamedType)
    (label : ExprId) : Option CaseLabel :=
  if settings.conversionLabels = .ignore then some .nothing
  else
    match b.typing? label with
    | some ⟨ty, some v⟩ => do
      return if (← asNamed table ty) = some t then .value v else .nothing
    | _ => some .nothing

def resolveLabel (settings : Settings) (table : TypeTable) (b : Body) (fuel : Nat)
    (t : NamedType) (label : ExprId) : Option CaseLabel := do
  let label ← unparen b fuel label
  match ← b.expr? label with
  | .ident name => return .name name
  | .selector base member =>
    if settings.qualifiedLabels = .loose ∨ b.packageRef? base = some t.package then
      return .name member
    else
      return .nothing
  | _ => evaluateLabel settings table b t label

def check (settings : Settings) (table : TypeTable) (b : Body) (fuel : Nat) (s : Switch)
    (t : NamedType) (constants : List EnumConstant) : Option (Option Coverage) :=
  if s.hasDefault then some none
  else do
    let c ← s.labels.foldlM (fun c label => do
      return (Coverage.mark t constants c (← resolveLabel settings table b fuel t label)).value)
      (Coverage.initial constants)
    return if c.isComplete then none else some c

/-- A type without a name is shown in an event, so its text is needed. -/
def resolveNamed (b : Body) (table : TypeTable) (fuel : Nat) (e : ExprId) :
    Option (Option NamedType) :=
  match b.type? e with
  | none => some none
  | some ty => do
    match ← asNamed table ty with
    | some t => return some t
    | none =>
      let _ ← display table fuel ty
      return none

def checkSwitch (program : Program) (registry : Registry) (settings : Settings) (fuel : Nat)
    (file : FileId) (b : Body) (id : StmtId) (s : Switch) : Option (Option UncoveredSwitch) :=
  match s.tag with
  | none => some none
  | some tag => do
    match ← resolveNamed b program.types fuel tag with
    | none => return none
    | some t =>
      match registry.constantsOf t with
      | none => return none
      | some constants =>
        match ← check settings program.types b fuel s t constants with
        | none => return none
        | some c =>
          return UncoveredSwitch.ofMissing settings.severity ⟨file, b.stmtRange id⟩ t c.missing

def checkFunc (program : Program) (registry : Registry) (settings : Settings) (fuel : Nat)
    (file : FileId) (f : Func) : Option (List UncoveredSwitch) := do
  let switches := (← nodes f.body fuel).filterMap Node.switch?
  let found ← switches.mapM fun (id, s) =>
    checkSwitch program registry settings fuel file f.body id s
  return found.filterMap id

def checkFile (program : Program) (registry : Registry) (settings : Settings) (fuel : Nat)
    (f : CheckedFile) : Option (List UncoveredSwitch) := do
  let found ← f.funcs.mapM (checkFunc program registry settings fuel f.file)
  return found.flatten

def candidates (table : TypeTable) (pkg : Package) :
    Option (OrderedMap NamedType (List EnumConstant)) :=
  pkg.scope.consts.foldlM (fun m (index, name, decl) => do
    match ← asNamed table decl.ty with
    | some t =>
      if t.package = pkg.path then
        return m.insert t ((m.get? t).getD [] ++ [⟨name, index, decl.value⟩])
      else
        return m
    | none => return m) ∅

def declaresEnum (table : TypeTable) (kinds : IntegerKinds) (pkg : Package) (t : NamedType) :
    Option Bool :=
  match pkg.scope.typeDecl? t.name with
  | none => some false
  | some decl =>
    if decl.isAlias then some false
    else do
      if (← asNamed table decl.ty) = some t then
        return (← asPrim table decl.underlying).any kinds.accepts
      else
        return false

def addPackage (program : Program) (kinds : IntegerKinds) (r : Registry) (path : PackagePath) :
    Option Registry :=
  match program.package? path with
  | none => some r
  | some pkg => do
    (← candidates program.types pkg).entries.foldlM (fun r (t, constants) => do
      if ← declaresEnum program.types kinds pkg t then
        return ⟨r.enums.insert t constants⟩
      else
        return r) r

def registryFor (s : Session) (fuel : Nat) (path : PackagePath) : Option (Registry × Session) := do
  let closure ← closure s.program.graph fuel path
  match s.registries.get? closure with
  | some r => return (r, s)
  | none =>
    let kinds := s.config.settings.integerKinds
    let r ← closure.paths.foldlM (addPackage s.program kinds) .empty
    return (r, { s with registries := s.registries.insert closure r })

def checkFiles (s : Session) (fuel : Nat) (registry : Registry) (files : List CheckedFile) :
    Option Report := do
  let found ← files.mapM (checkFile s.program registry s.config.settings fuel)
  return .ofList (found.flatten.map UncoveredSwitch.toDiagnostic)

def runPackage (s : Session) (fuel : Nat) (path : PackagePath) : Option (Report × Session) :=
  match s.program.package? path with
  | none => some (.empty, s)
  | some _ => do
    let (registry, s) ← registryFor s fuel path
    return (← checkFiles s fuel registry (s.program.filesOf path), s)

def runAll (s : Session) (fuel : Nat) : Option (Report × Session) :=
  s.program.packages.keys.foldlM (fun (report, s) path => do
    let (more, s) ← runPackage s fuel path
    return (Report.append report more, s)) (.empty, s)

variable {table : TypeTable} {b : Body}

theorem asNamed_eq (h : table.Has ty) : asNamed table ty = some (table.asNamed ty) := by
  obtain ⟨data, hd⟩ := TypeTable.data?_of_has h
  simp only [asNamed, TypeTable.asNamed, hd, Option.bind_eq_bind, Option.bind_some]
  cases data <;> rfl

theorem asPrim_eq (h : table.Has ty) : asPrim table ty = some (table.asPrim ty) := by
  obtain ⟨data, hd⟩ := TypeTable.data?_of_has h
  simp only [asPrim, TypeTable.asPrim, hd, Option.bind_eq_bind, Option.bind_some]
  cases data <;> rfl

theorem evaluateLabel_eq (h : b.Typed table) (settings : Settings) (t : NamedType)
    (label : ExprId) : evaluateLabel settings table b t label =
      some (Coverage.evaluateLabel settings table b t label).value := by
  rw [evaluateLabel, Coverage.evaluateLabel]
  split
  · rfl
  · cases hty : b.typing? label with
    | none => rfl
    | some typing =>
      obtain ⟨ty, v⟩ := typing
      cases v with
      | none => rfl
      | some v =>
        simp only [asNamed_eq (h label _ hty), Option.bind_eq_bind, Option.bind_some]
        split <;> rfl

theorem resolveLabel_eq (h : b.Valid table) (hl : b.Has (.expr label)) (hf : b.maxDepth < fuel)
    (settings : Settings) (t : NamedType) : resolveLabel settings table b fuel t label =
      some (Coverage.resolveLabel settings table b t label).value := by
  obtain ⟨x, hx⟩ := Body.expr?_of_has (h.ordered.has_unparen hl)
  simp only [resolveLabel, Coverage.resolveLabel, unparen_eq h.ordered hl hf, hx,
    Option.bind_eq_bind, Option.bind_some]
  cases x with
  | ident name => rfl
  | selector base member =>
    dsimp only
    split <;> rfl
  | _ => exact evaluateLabel_eq h.typed settings t (b.unparen label)

theorem check_eq (h : b.Valid table) (hl : ∀ label ∈ s.labels, b.Has (.expr label))
    (hf : b.maxDepth < fuel) (settings : Settings) (t : NamedType)
    (constants : List EnumConstant) : check settings table b fuel s t constants =
      some (Coverage.check settings table b s t constants).value := by
  rw [check, Coverage.check]
  split
  · rfl
  · have hstep : ∀ c, ∀ label ∈ s.labels, (do
        return (Coverage.mark t constants c (← resolveLabel settings table b fuel t label)).value :
          Option Coverage) = some (Coverage.mark t constants c
            (Coverage.resolveLabel settings table b t label).value).value := by
      intro c label hm
      rw [resolveLabel_eq h (hl label hm) hf]
      rfl
    rw [foldlM_eq_some hstep]
    simp only [Traced.value_bind, Traced.value_foldl]
    rfl

theorem resolveNamed_eq (ht : table.Valid) (h : b.Valid table) (hf : table.size ≤ fuel)
    (e : ExprId) : resolveNamed b table fuel e = some (b.resolveNamed table e).value := by
  rw [resolveNamed, Body.resolveNamed]
  cases hty : b.type? e with
  | none => rfl
  | some ty =>
    have hty := h.type? hty
    have hd := display_eq ht hty (Nat.lt_of_lt_of_le hty hf) (Nat.lt_succ_self _)
    simp only [asNamed_eq hty, hd, Option.bind_eq_bind, Option.bind_some]
    cases table.asNamed ty <;> rfl

theorem checkSwitch_eq {p : Program} (ht : p.types.Valid) (h : b.Valid p.types)
    (hl : ∀ label ∈ s.labels, b.Has (.expr label)) (hf : b.maxDepth < fuel)
    (hf' : p.types.size ≤ fuel) (r : Registry) (settings : Settings) (file : FileId) (id : StmtId) :
    checkSwitch p r settings fuel file b id s =
      some (Rule.checkSwitch p r settings file b id s).value := by
  rw [checkSwitch, Rule.checkSwitch]
  cases s.tag with
  | none => rfl
  | some tag =>
    simp only [resolveNamed_eq ht h hf', Option.bind_eq_bind, Option.bind_some, Traced.value_bind]
    cases (b.resolveNamed p.types tag).value with
    | none => rfl
    | some t =>
      dsimp only
      cases r.constantsOf t with
      | none => rfl
      | some constants =>
        simp only [check_eq h hl hf, Option.bind_some, Traced.value_bind]
        cases (Coverage.check settings p.types b s t constants).value <;> rfl

theorem has_of_mem_labels {id : StmtId} (h : b.Valid table) (hs : (id, s) ∈ b.switches)
    (hl : label ∈ s.labels) : b.Has (.expr label) := by
  obtain ⟨stamp, hstamp⟩ := h.ordered
  have hid := (h.ordered.acyclic.mem_switches.1 hs).2
  obtain ⟨c, hc, hl⟩ := List.mem_flatMap.1 hl
  apply (hstamp.mention (.stmt id) (.expr label) ?_).1
  simp only [Body.mentions, hid, Stmt.mentions]
  apply List.mem_append_right
  exact List.mem_flatMap.2 ⟨c, hc, List.mem_append_left _ (List.mem_map_of_mem hl)⟩

theorem checkFunc_eq {p : Program} {f : Func} (ht : p.types.Valid) (h : f.body.Valid p.types)
    (hf : f.body.maxDepth < fuel) (hf' : p.types.size ≤ fuel) (r : Registry) (settings : Settings)
    (file : FileId) : checkFunc p r settings fuel file f =
      some (Rule.checkFunc p r settings file f).value := by
  have hs : (f.body.nodes.filterMap Node.switch?).mapM (fun (id, s) =>
        checkSwitch p r settings fuel file f.body id s) =
      some (f.body.switches.map fun (id, s) =>
        (Rule.checkSwitch p r settings file f.body id s).value) := by
    apply mapM_eq_some
    rintro ⟨id, s⟩ hm
    exact checkSwitch_eq ht h (fun label => has_of_mem_labels h hm) hf hf' r settings file id
  rw [checkFunc, nodes_eq h.ordered h.rooted (Nat.le_of_lt hf)]
  simp only [Option.bind_eq_bind, Option.bind_some, hs, Rule.checkFunc, Traced.value_bind,
    Traced.value_mapList]
  rfl

theorem checkFile_eq {p : Program} {f : CheckedFile} (ht : p.types.Valid)
    (h : ∀ g ∈ f.funcs, g.body.Valid p.types) (hf : ∀ g ∈ f.funcs, g.body.maxDepth < fuel)
    (hf' : p.types.size ≤ fuel) (r : Registry) (settings : Settings) :
    checkFile p r settings fuel f = some (Rule.checkFile p r settings f).value := by
  have hs := mapM_eq_some fun g hg => checkFunc_eq ht (h g hg) (hf g hg) hf' r settings f.file
  simp only [checkFile, hs, Rule.checkFile, Traced.value_bind, Traced.value_mapList]
  rfl

theorem candidates_eq {pkg : Package} (h : pkg.Valid path table loaded) :
    candidates table pkg = some (pkg.candidates table) := by
  refine foldlM_eq_some (g := Package.addCandidate table pkg) ?_ ∅
  rintro m ⟨index, name, decl⟩ hm
  have hty := (h.scope name _ (Scope.lookup_of_mem_consts hm)).has decl.ty List.mem_cons_self
  simp only [asNamed_eq hty, Option.bind_eq_bind, Option.bind_some, Package.addCandidate]
  cases table.asNamed decl.ty with
  | none => rfl
  | some t =>
    dsimp only
    split <;> rfl

theorem declaresEnum_eq {pkg : Package} (h : pkg.Valid path table loaded) (kinds : IntegerKinds)
    (t : NamedType) : declaresEnum table kinds pkg t = some (pkg.declaresEnum table kinds t) := by
  rw [declaresEnum, Package.declaresEnum]
  cases hd : pkg.scope.typeDecl? t.name with
  | none => rfl
  | some decl =>
    have hi : pkg.scope.lookup t.name = some (.type decl) := by
      rw [Scope.typeDecl?] at hd
      split at hd
      next hi => exact Option.some.inj hd ▸ hi
      next => cases hd
    have hty := (h.scope t.name _ hi).has
    simp only [ScopeItem.types, List.forall_mem_cons] at hty
    simp only [asNamed_eq hty.1, asPrim_eq hty.2.1, Option.bind_eq_bind, Option.bind_some]
    cases decl.isAlias <;> by_cases ht : table.asNamed decl.ty = some t <;> simp [ht]

theorem addPackage_eq {p : Program} (h : p.Valid) (kinds : IntegerKinds) (r : Registry)
    (path : PackagePath) :
    addPackage p kinds r path = some (Registry.addPackage p kinds r path).value := by
  rw [addPackage, Registry.addPackage]
  cases hpkg : p.package? path with
  | none => rfl
  | some pkg =>
    have hv := h.packages path pkg hpkg
    simp only [candidates_eq hv, Option.bind_eq_bind, Option.bind_some, Traced.value_foldl]
    apply foldlM_eq_some
    rintro r ⟨t, constants⟩ -
    rw [declaresEnum_eq hv, Registry.addType]
    simp only [Option.bind_some]
    split <;> rfl

theorem registryFor_eq {s : Session} (h : s.program.Valid) (path : PackagePath)
    (hf : s.program.graph.importCount + 1 < fuel) :
    registryFor s fuel path = some (s.registryFor path).value := by
  have hb : ∀ d : Closure, d.paths.foldlM (addPackage s.program
      s.config.settings.integerKinds) .empty =
        some (Registry.build s.program d s.config.settings.integerKinds).value := by
    intro d
    rw [foldlM_eq_some fun r path _ => addPackage_eq h _ r path]
    simp only [Registry.build, Traced.value_bind, Traced.value_foldl]
    rfl
  simp only [registryFor, Session.registryFor, Program.closure, closure_eq _ path hf, hb,
    Option.bind_eq_bind, Option.bind_some]
  cases s.registries.get? (s.program.graph.closure path) <;> rfl

structure Suffices (p : Program) (fuel : Nat) : Prop where
  bodies : ∀ f ∈ p.checkedFiles.values, ∀ g ∈ f.funcs, g.body.maxDepth < fuel
  types : p.types.size ≤ fuel
  imports : p.graph.importCount + 1 < fuel

theorem checkFiles_eq {s : Session} (h : s.program.Valid) (hf : Suffices s.program fuel)
    (path : PackagePath) (r : Registry) : checkFiles s fuel r (s.program.filesOf path) =
      some (s.check r (s.program.filesOf path)).value := by
  have hc := mapM_eq_some (l := s.program.filesOf path) fun f hm => by
    have hm := List.mem_of_mem_filter hm
    exact checkFile_eq h.types (h.files _ f (h.checkedFile?_of_mem hm)).bodies
      (hf.bodies f hm) hf.types r s.config.settings
  simp only [checkFiles, hc, Session.check, Traced.value_bind, Rule.runPasses_singleton,
    Option.bind_eq_bind, Option.bind_some, ← List.flatMap_def, List.map_flatMap]
  rfl

theorem runPackage_eq {s : Session} (h : p.Valid) (hs : s.Keeps p c paths) (hf : Suffices p fuel)
    (path : PackagePath) : runPackage s fuel path = some (s.runPackage path).value := by
  rw [runPackage, Session.runPackage, hs.program]
  cases p.package? path with
  | none => rfl
  | some pkg =>
    have hk := (hs.registryFor path).2
    have hr := registryFor_eq (hs.program ▸ h) path (hs.program ▸ hf.imports)
    have hc := checkFiles_eq (hk.program ▸ h) (hk.program ▸ hf) path (s.registryFor path).value.1
    simp only [hr, Option.bind_eq_bind, Option.bind_some, Traced.value_bind, hc]
    rfl

theorem runAll_eq {s : Session} (h : p.Valid) (hs : s.Keeps p c paths) (hf : Suffices p fuel) :
    runAll s fuel = some s.runAll.value := by
  simp only [runAll, Session.runAll, Traced.value_bind, Traced.value_foldl]
  refine foldlM_eq_some_of_inv (I := fun t => ∃ paths, t.2.Keeps p c paths) ⟨paths, hs⟩ ?_
  rintro ⟨report, s⟩ ⟨paths, hs⟩ path -
  refine ⟨?_, _, (hs.runPackage path).2⟩
  rw [runPackage_eq h hs hf]
  rfl

end Strict

end SwitchCover
