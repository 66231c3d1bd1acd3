import SwitchCover.Proofs.Findings
import SwitchCover.Proofs.Frames

namespace SwitchCover

def Command.AddsTo (w : Workspace) (c : Command) (q : PackagePath) : Prop :=
  c.target? w = some q ∧
    ((∃ name, w.program.lookup q name = none ∧ (w.after c).program.lookup q name ≠ none) ∨
      ∃ r, ¬w.program.Imports q r ∧ (w.after c).program.Imports q r)

/-- No command of a script adds to one of the packages. -/
def Workspace.Spares (w : Workspace) (paths : List PackagePath) : List Command → Prop
  | [] => True
  | c :: cs => (∀ q ∈ paths, ¬c.AddsTo w q) ∧ (w.after c).Spares paths cs

/-- A scope that grows without a new name stays as it is. -/
theorem Package.Grows.scope_eq {a b : Package} (h : a.Grows b)
    (hl : ∀ name, a.scope.lookup name = none → b.scope.lookup name = none) : b.scope = a.scope := by
  obtain ⟨more, hm⟩ := h.scope
  cases more with
  | nil =>
    rw [List.append_nil] at hm
    exact congrArg Scope.mk (OrderedMap.eq_of_entries hm.symm)
  | cons e more =>
    obtain ⟨name, item⟩ := e
    have hmem : (name, item) ∈ b.scope.items.entries := by
      rw [← hm]
      exact List.mem_append_right _ List.mem_cons_self
    have hnew : name ∉ a.scope.items.keys := by
      intro hk
      have hn := b.scope.items.nodup
      rw [← hm, List.map_append, List.nodup_append] at hn
      exact hn.2.2 name hk name List.mem_cons_self rfl
    have hb := hl name (OrderedMap.get?_eq_none_iff.2 hnew)
    rw [Scope.lookup, OrderedMap.get?_eq_some_iff.2 hmem] at hb
    cases hb

namespace Workspace

open Program (AgreesAt)

theorem after_agrees_of_not_addsTo {w : Workspace} (h : w.Valid) (hq : ¬c.AddsTo w q) :
    AgreesAt q w.program (w.after c).program := by
  -- A command aimed at the package only appends to it, so nothing new means no change at all.
  by_cases ht : c.target? w = some q
  · intro a ha
    obtain ⟨b, hb, hg⟩ := (after_steps h c).program.packages q a ha
    have hadds := fun hor => hq ⟨ht, hor⟩
    refine ⟨b, hb, hg.scope_eq ?_, fun r => ⟨?_, fun hr => hg.imports.subset hr⟩⟩
    · intro name hn
      by_contra hs
      apply hadds
      refine .inl ⟨name, ?_, ?_⟩
      · simpa only [Program.lookup, ha, Option.bind_some] using hn
      · simpa only [Program.lookup, hb, Option.bind_some] using hs
    · intro hr
      by_contra hn
      apply hadds
      refine .inr ⟨r, ?_, b, hb, hr⟩
      rintro ⟨a', ha', hr'⟩
      rw [ha] at ha'
      cases ha'
      exact hn hr'
  · exact after_agrees h ht

theorem spares_of_target? {w : Workspace}
    (h : ∀ c ∈ cs, ∀ v, ∀ q ∈ paths, c.target? v ≠ some q) : w.Spares paths cs := by
  induction cs generalizing w with
  | nil => trivial
  | cons c cs ih =>
    refine ⟨fun q hq ha => h c List.mem_cons_self w q hq ha.1, ih ?_⟩
    exact fun d hd => h d (List.mem_cons_of_mem _ hd)

theorem run_agrees {w : Workspace} (h : w.Valid) (hs : w.Spares paths cs) (hq : q ∈ paths) :
    AgreesAt q w.program (w.run cs).program := by
  induction cs generalizing w with
  | nil => exact .refl q _
  | cons c cs ih =>
    have ha := after_agrees_of_not_addsTo h (hs.1 q hq)
    exact ha.trans (ih (after_steps h c).valid hs.2)

end Workspace

namespace Coverage

/-- Types added later do not change what a label refers to. -/
theorem resolveLabel_extends {b : Body} (hb : b.Valid table) (he : table.Extends table')
    (settings : Settings) (t : NamedType) (label : ExprId) :
    resolveLabel settings table' b t label = resolveLabel settings table b t label := by
  have hv (e : ExprId) :
      evaluateLabel settings table' b t e = evaluateLabel settings table b t e := by
    simp only [evaluateLabel]
    split
    · rfl
    · split
      next ty v hty => rw [he.asNamed (hb.typed e _ hty)]
      next => rfl
  simp only [resolveLabel, hv]

theorem missingOf_extends {b : Body} (hb : b.Valid table) (he : table.Extends table')
    (settings : Settings) (s : Switch) (t : NamedType) (constants : List EnumConstant) :
    missingOf settings table' b s t constants = missingOf settings table b s t constants := by
  simp only [missingOf, check, resolveLabel_extends hb he]

end Coverage

namespace Program

variable {p q : Program}

theorem Valid.enum?_eq (h : p.Valid) (he : p.types.Extends q.types)
    (ht : t.package ∈ p.packages.keys) (ha : AgreesAt t.package p q) (kinds : IntegerKinds) :
    q.enum? kinds t = p.enum? kinds t := by
  obtain ⟨a, hp⟩ := OrderedMap.exists_get?_of_mem_keys ht
  obtain ⟨b, hq, hs, _⟩ := ha a hp
  have hv := (h.packages _ a hp).scope
  have hconsts : b.scope.constsOf q.types t = a.scope.constsOf p.types t := by
    rw [hs]
    apply List.filterMap_congr
    rintro ⟨i, name, decl⟩ hc
    have hty := (hv _ _ (Scope.lookup_of_mem_consts hc)).has decl.ty List.mem_cons_self
    simp only [Scope.memberOf?, he.asNamed hty]
  have hdecl : b.declaresEnum q.types kinds t = a.declaresEnum p.types kinds t := by
    simp only [Package.declaresEnum, hs]
    cases hd : a.scope.typeDecl? t.name with
    | none => rfl
    | some decl =>
      have hi := (hv _ _ (Scope.lookup_of_typeDecl? hd)).has
      have hty := hi decl.ty List.mem_cons_self
      have hu := hi decl.underlying (List.mem_cons_of_mem _ List.mem_cons_self)
      simp only [he.asNamed hty, he.asPrim hu]
  have hp : p.package? t.package = some a := hp
  simp only [enum?, hp, hq, Option.bind_some, hdecl, hconsts]

theorem Valid.mem_keys_of_dependsOn (h : p.Valid) (hl : a ∈ p.packages.keys)
    (hd : p.DependsOn a b) : b ∈ p.packages.keys := by
  induction hd with
  | refl => exact hl
  | tail _ hi _ =>
    obtain ⟨pkg, hp, hr⟩ := hi
    exact (h.packages _ pkg hp).imports hr

theorem AgreesAt.imports_iff (ha : AgreesAt a p q) (hl : a ∈ p.packages.keys) :
    p.Imports a r ↔ q.Imports a r := by
  obtain ⟨pkg, hp⟩ := OrderedMap.exists_get?_of_mem_keys hl
  obtain ⟨pkg', hq, _, hi⟩ := ha pkg hp
  have hp : p.package? a = some pkg := hp
  simp [Imports, hp, hq, hi]

variable {f : CheckedFile}

theorem Valid.closure_eq (h : p.Valid) (h' : q.Valid) (hl : f.package ∈ p.packages.keys)
    (ha : ∀ r ∈ (p.closure f.package).paths, AgreesAt r p q) :
    q.closure f.package = p.closure f.package := by
  apply Eq.symm
  apply ImportGraph.closure_eq_of_imports
  intro a hr b
  have hmem : a ∈ (p.closure f.package).paths := ImportGraph.mem_closure.2 hr
  have hload := h.mem_keys_of_dependsOn hl (h.mem_closure.1 hmem)
  rw [h.imports_iff, h'.imports_iff]
  exact (ha a hmem).imports_iff hload

theorem Valid.constantsOf_eq (h : p.Valid) (h' : q.Valid) (he : p.types.Extends q.types)
    (hl : f.package ∈ p.packages.keys)
    (ha : ∀ r ∈ (p.closure f.package).paths, AgreesAt r p q) (settings : Settings) (t : NamedType) :
    (q.registry settings f.package).constantsOf t =
      (p.registry settings f.package).constantsOf t := by
  rw [registry, registry, Registry.constantsOf_build h'.pathsAgree,
    Registry.constantsOf_build h.pathsAgree, h.closure_eq h' hl ha]
  split
  next hm =>
    have hload := h.mem_keys_of_dependsOn hl (h.mem_closure.1 hm)
    exact h.enum?_eq he hload (ha _ hm) _
  next => rfl

theorem Valid.diagnostics_eq (h : p.Valid) (h' : q.Valid) (he : p.types.Extends q.types)
    {id : FileId} (hf : f.Valid id p) (ha : ∀ r ∈ (p.closure f.package).paths, AgreesAt r p q)
    (settings : Settings) : q.diagnostics settings f = p.diagnostics settings f := by
  -- Both programs hold the same bodies; only the lookups in types and registry could differ.
  rw [diagnostics, diagnostics, Rule.checkFile_value, Rule.checkFile_value]
  congr 1
  apply List.flatMap_congr
  intro g hg
  have hb := hf.bodies g hg
  congr 1
  funext ⟨id, s⟩
  simp only [Rule.checkSwitch_value, h.constantsOf_eq h' he hf.loaded ha,
    Coverage.missingOf_extends hb he]
  congr 1
  funext tag
  cases hty : g.body.type? tag with
  | none => rfl
  | some ty => simp only [Option.bind_some, he.asNamed (hb.type? hty)]

end Program

namespace Session

/-- Further commands leave the report on a finished file as it is, unless they declare a name in,
or add an import to, a package of the closure that the file's package had. -/
theorem runFile_isolated (cs more : List Command) (c : Config) (rs rs' : List Request)
    (id : FileId) (path : PackagePath)
    (hf : ((Workspace.empty.run cs).program.checkedFile? id).map CheckedFile.package = some path)
    (hs : (Workspace.empty.run cs).Spares
      ((Workspace.empty.run cs).program.closure path).paths more) :
    (((start ((Workspace.empty.run cs).run more).program c).value.run rs').runFile id).value.1 =
      (((start (Workspace.empty.run cs).program c).value.run rs).runFile id).value.1 := by
  obtain ⟨f, hfile, rfl⟩ := Option.map_eq_some_iff.1 hf
  have hw := Workspace.run_valid cs
  have hm := Workspace.run_steps hw more
  have hvalid := hw.program.files id f hfile
  have hd := hw.program.diagnostics_eq hm.valid.program hm.program.types hvalid
    (fun r hr => Workspace.run_agrees hw hs hr) c.settings
  rw [(((keeps_start _ c).run rs').runFile id).1, (((keeps_start _ c).run rs).runFile id).1,
    Program.fileReport_eq _ c.settings (hm.program.checked id f hfile),
    Program.fileReport_eq _ c.settings hfile, hd]

/-- A file with a switch that names one of two colors. -/
def colorScript : List Command :=
  [.decl (.package ⟨"color"⟩ "color"), .decl (.defineType (.prim (.int .int)) ⟨"color"⟩ "Color"),
    .decl (.declareIota (.slot 0) ⟨"color"⟩ ["Red", "Green"]),
    .decl (.openFile ⟨"color"⟩ "color.go" "func f(c Color) \x7b switch c \x7b case Red: \x7d \x7d"),
    .file (.openFunc "f"), .func (.param "c" 0), .func (.keyword "switch"), .func (.ident "c"),
    .func (.keyword "case"), .func (.ident "Red"), .func (.caseClause [1] []),
    .func (.switch 0 none (some 0) [0]), .func (.finish [0]), .file .finish]

/-- A second package, with a type of the same name and a constant of the first package's type. -/
def paintScript : List Command :=
  [.decl (.package ⟨"paint"⟩ "paint"), .decl (.addImport ⟨"paint"⟩ ⟨"color"⟩),
    .decl (.defineType (.prim (.int .int)) ⟨"paint"⟩ "Color"),
    .decl (.declareConst (.slot 0) none ⟨"paint"⟩ "Blue"),
    .decl (.openFile ⟨"paint"⟩ "paint.go" ""), .file .finish]

theorem runFile_isolated_color :
    let w := Workspace.empty.run colorScript
    (w.program.checkedFile? ⟨0⟩).map CheckedFile.package = some ⟨"color"⟩ ∧
      w.Spares (w.program.closure ⟨"color"⟩).paths paintScript ∧
      (((start (w.run paintScript).program {}).value.run [.all]).runFile ⟨0⟩).value.1 =
        (((start w.program {}).value.run []).runFile ⟨0⟩).value.1 ∧
      (((start w.program {}).value.run []).runFile ⟨0⟩).value.1.size = 1 := by
  have hf : ((Workspace.empty.run colorScript).program.checkedFile? ⟨0⟩).map CheckedFile.package =
      some ⟨"color"⟩ := by decide +kernel
  have hc : ((Workspace.empty.run colorScript).program.closure ⟨"color"⟩).paths = [⟨"color"⟩] := by
    decide +kernel
  have hs : (Workspace.empty.run colorScript).Spares
      ((Workspace.empty.run colorScript).program.closure ⟨"color"⟩).paths paintScript := by
    rw [hc]
    apply Workspace.spares_of_target?
    simp [paintScript, Command.target?]
  have he := runFile_isolated colorScript paintScript {} [] [.all] ⟨0⟩ ⟨"color"⟩ hf hs
  exact ⟨hf, hs, he, by decide +kernel⟩

end Session

end SwitchCover
