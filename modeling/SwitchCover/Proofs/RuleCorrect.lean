import SwitchCover.Proofs.Findings
import SwitchCover.Proofs.Preorder
import SwitchCover.Proofs.ScriptSteps

namespace SwitchCover

namespace Scope

theorem map_filterMap_sublist {f : α → Option β} {g : α → γ} {h : β → γ}
    (hf : ∀ a b, f a = some b → h b = g a) (as : List α) :
    ((as.filterMap f).map h).Sublist (as.map g) := by
  induction as with
  | nil => exact List.Sublist.slnil
  | cons a as ih =>
    cases hfa : f a with
    | none =>
      rw [List.filterMap_cons_none hfa]
      exact ih.cons _
    | some b =>
      rw [List.filterMap_cons_some hfa, List.map_cons, List.map_cons, hf a b hfa]
      exact ih.cons_cons _

theorem nodup_constsOf (s : Scope) (table : TypeTable) (t : NamedType) :
    ((s.constsOf table t).map EnumConstant.name).Nodup := by
  have hc : (s.consts.map fun c => c.2.1).Sublist
      (s.items.entries.zipIdx.map fun e => e.1.1) := by
    apply map_filterMap_sublist
    rintro ⟨⟨name, item⟩, i⟩ c hc
    cases item <;> cases hc
    rfl
  have hk : ((s.constsOf table t).map EnumConstant.name).Sublist (s.consts.map fun c => c.2.1) := by
    apply map_filterMap_sublist
    rintro ⟨i, name, decl⟩ k hk
    simp only [memberOf?] at hk
    split at hk
    · cases hk
      rfl
    · cases hk
  have hz : (s.items.entries.zipIdx.map fun e => e.1.1) = s.items.keys := by
    have he := congrArg (List.map Prod.fst) (List.zipIdx_map_fst 0 s.items.entries)
    rwa [List.map_map] at he
  exact ((hk.trans hc).trans (hz ▸ List.Sublist.refl _)).nodup s.items.nodup

end Scope

namespace Program

/-- A type of its own over an accepted kind of integers. -/
structure DeclaresEnum (p : Program) (kinds : IntegerKinds) (t : NamedType) (pkg : Package)
    (decl : TypeDecl) (prim : PrimType) : Prop where
  package : p.package? t.package = some pkg
  declared : pkg.scope.lookup t.name = some (.type decl)
  own : decl.isAlias = false
  underlying : p.types.asPrim decl.underlying = some prim
  accepted : kinds.accepts prim = true

theorem enum?_eq_some {p : Program} :
    p.enum? kinds t = some ks ↔
      ks ≠ [] ∧ ∃ pkg decl prim, p.DeclaresEnum kinds t pkg decl prim ∧
        p.types.asNamed decl.ty = some t ∧ ks = pkg.scope.constsOf p.types t := by
  constructor
  · intro he
    obtain ⟨pkg, hp, he⟩ := Option.bind_eq_some_iff.1 he
    split at he
    next hc =>
      cases he
      refine ⟨hc.2, pkg, ?_⟩
      have hd := hc.1
      rw [Package.declaresEnum] at hd
      split at hd
      next decl hdecl =>
        simp only [Bool.and_eq_true, Bool.not_eq_true', beq_iff_eq, Option.any_eq_true] at hd
        obtain ⟨⟨ha, ht⟩, prim, hprim, hk⟩ := hd
        exact ⟨decl, prim, ⟨hp, Scope.lookup_of_typeDecl? hdecl, ha, hprim, hk⟩, ht, rfl⟩
      next => cases hd
    next => cases he
  · rintro ⟨hne, pkg, decl, prim, hd, ht, rfl⟩
    have hdecl : pkg.scope.typeDecl? t.name = some decl := by
      rw [Scope.typeDecl?, hd.declared]
    have hdeclares : pkg.declaresEnum p.types kinds t = true := by
      simp [Package.declaresEnum, hdecl, hd.own, ht, hd.underlying, hd.accepted]
    rw [enum?, hd.package, Option.bind_some, if_pos ⟨hdeclares, hne⟩]

theorem Valid.enum?_eq_some {p : Program} (h : p.Valid) :
    p.enum? kinds t = some ks ↔
      ks ≠ [] ∧ ∃ pkg decl prim, p.DeclaresEnum kinds t pkg decl prim ∧
        ks = pkg.scope.constsOf p.types t := by
  rw [Program.enum?_eq_some]
  constructor
  · rintro ⟨hne, pkg, decl, prim, hd, _, hks⟩
    exact ⟨hne, pkg, decl, prim, hd, hks⟩
  · rintro ⟨hne, pkg, decl, prim, hd, hks⟩
    have ht := ((h.packages _ pkg hd.package).scope _ _ hd.declared).denotes decl rfl hd.own
    exact ⟨hne, pkg, decl, prim, hd, ht, hks⟩

end Program

open Classical in
/-- Names of the constants, in their order, that no label of a switch covers. -/
noncomputable def Switch.uncovered (s : Switch) (settings : Settings) (table : TypeTable) (b : Body)
    (t : NamedType) (constants : List EnumConstant) : List String :=
  (constants.filter fun k => ∀ label ∈ s.labels, ¬Covers settings table b t label k).map
    EnumConstant.name

/-- The finding that is due on a file for a switch: the switch is reached in a function of the
file, it has no default clause, its tag has an enum-like type of a package that the file's package
depends on, and some constants of the type are not covered. -/
inductive Due (p : Program) (settings : Settings) (f : CheckedFile) : UncoveredSwitch → Prop where
  | switch {id : StmtId} (hg : g ∈ f.funcs) (hr : g.body.Reaches (.stmt id))
    (hs : g.body.stmt? id = some (.switch s)) (htag : s.tag = some tag)
    (hty : g.body.type? tag = some ty) (ht : p.types.asNamed ty = some t)
    (hi : p.DependsOn f.package t.package)
    (hd : p.DeclaresEnum settings.integerKinds t pkg decl prim)
    (hc : ∀ c ∈ s.clauses, c.labels ≠ none) (ho : ks.Pairwise (·.index < ·.index))
    (hk : ∀ k, k ∈ ks ↔ pkg.scope.DeclaresConst p.types t k)
    (hm : missing = s.uncovered settings p.types g.body t ks) (hne : missing ≠ []) :
    Due p settings f ⟨⟨f.file, g.body.stmtRange id⟩, t, missing, settings.severity⟩

theorem Switch.hasDefault_eq_false {s : Switch} :
    s.hasDefault = false ↔ ∀ c ∈ s.clauses, c.labels ≠ none := by
  simp [hasDefault, Clause.isDefault]

theorem Coverage.missingOf_eq {b : Body} (hb : b.Ordered) (settings : Settings) (table : TypeTable)
    (s : Switch) (t : NamedType) (hn : (constants.map EnumConstant.name).Nodup) :
    missingOf settings table b s t constants =
      if s.hasDefault then [] else s.uncovered settings table b t constants := by
  rw [missingOf, check_missing settings table b s t hn]
  split
  · rfl
  · rw [Switch.uncovered]
    congr 1
    apply List.filter_congr
    intro k hk
    have hm : k.name ∈ marked settings table b s t constants ↔
        ∃ label ∈ s.labels, Covers settings table b t label k := mem_marked hb hn hk
    rw [decide_eq_decide, hm]
    simp

namespace Program

theorem Valid.mem_checkFile_iff {p : Program} (h : p.Valid) {id : FileId}
    (hf : p.checkedFile? id = some f) :
    u ∈ (Rule.checkFile p (p.registry settings f.package) settings f).value ↔
      Due p settings f u := by
  have hfile := h.files id f hf
  have hr (t : NamedType) : (p.registry settings f.package).constantsOf t =
      if t.package ∈ (p.closure f.package).paths then p.enum? settings.integerKinds t else none :=
    Registry.constantsOf_build h.pathsAgree _ _ _
  rw [Rule.mem_checkFile]
  constructor
  · rintro ⟨g, hg, id, s, hs, hu⟩
    have hb := hfile.bodies g hg
    obtain ⟨hreach, hstmt⟩ := hb.ordered.acyclic.mem_switches.1 hs
    obtain ⟨tag, htag, ty, hty, t, ht, constants, hcon, hne, rfl⟩ := Rule.checkSwitch_eq_some.1 hu
    rw [hr] at hcon
    split at hcon
    next hi =>
      obtain ⟨_, pkg, decl, prim, hd, rfl⟩ := h.enum?_eq_some.1 hcon
      have hm := Coverage.missingOf_eq hb.ordered settings p.types s t
        (pkg.scope.nodup_constsOf p.types t)
      rw [hm] at hne ⊢
      cases hdef : s.hasDefault with
      | true => simp [hdef] at hne
      | false =>
        simp only [hdef, Bool.false_eq_true, if_false] at hne ⊢
        obtain ⟨ho, hk⟩ := Scope.eq_constsOf_iff.1 rfl
        exact .switch hg hreach hstmt htag hty ht (h.mem_closure.1 hi) hd
          (Switch.hasDefault_eq_false.1 hdef) ho hk rfl hne
    next => cases hcon
  · intro hdue
    cases hdue with
    | @switch g s tag ty t pkg decl prim ks missing id hg hreach hstmt htag hty ht hi hd hc ho hk hm
      hne =>
      obtain rfl := Scope.eq_constsOf_iff.2 ⟨ho, hk⟩
      have hb := hfile.bodies g hg
      refine ⟨g, hg, id, s, hb.ordered.acyclic.mem_switches.2 ⟨hreach, hstmt⟩, ?_⟩
      have hmissing := Coverage.missingOf_eq hb.ordered settings p.types s t
        (pkg.scope.nodup_constsOf p.types t)
      rw [Switch.hasDefault_eq_false.2 hc, if_neg Bool.false_ne_true, ← hm] at hmissing
      have hcon : pkg.scope.constsOf p.types t ≠ [] := by
        intro he
        rw [he] at hm
        exact hne hm
      apply Rule.checkSwitch_eq_some.2
      refine ⟨tag, htag, ty, hty, t, ht, pkg.scope.constsOf p.types t, ?_, ?_, ?_⟩
      · rw [hr, if_pos (h.mem_closure.2 hi)]
        exact h.enum?_eq_some.2 ⟨hcon, pkg, decl, prim, hd, rfl⟩
      · rw [hmissing]
        exact hne
      · rw [hmissing]

end Program

/-- A diagnostic carries a finding: its severity, its place, and a message with the name of the type
in its first line and the missing constants, in their order, in the lines below it. -/
structure UncoveredSwitch.CarriedBy (u : UncoveredSwitch) (d : Diagnostic) : Prop where
  severity : d.severity = u.severity
  primarySpan : d.primarySpan = some u.span
  message : d.message = "\n".intercalate
    (("uncovered cases for " ++ u.enum.name ++ " enum switch") :: u.missing.map ("\t- " ++ ·))

theorem intercalate_cons_map (first indent : String) (names : List String) :
    "\n".intercalate (first :: names.map (indent ++ ·)) =
      first ++ String.join (names.map fun name => "\n" ++ indent ++ name) := by
  induction names generalizing first with
  | nil => simp
  | cons name names ih =>
    rw [List.map_cons, String.intercalate_cons_cons, ih]
    simp [String.append_assoc]

theorem UncoveredSwitch.carriedBy_toDiagnostic (u : UncoveredSwitch) :
    u.CarriedBy u.toDiagnostic :=
  ⟨rfl, rfl, (intercalate_cons_map _ "\t- " u.missing).symm⟩

namespace Session

/-- Soundness and completeness of the rule on every constructed program, in any session. -/
theorem mem_runFile_iff (cs : List Command) (c : Config) (rs : List Request) (id : FileId)
    (d : Diagnostic) :
    let p := (Workspace.empty.run cs).program
    d ∈ (((start p c).value.run rs).runFile id).value.1.diagnostics ↔
      ∃ f, p.checkedFile? id = some f ∧
        ∃ u, Due p c.settings f u ∧ d = u.toDiagnostic ∧ u.CarriedBy d := by
  intro p
  have hv : p.Valid := (Workspace.run_valid cs).program
  rw [(((keeps_start p c).run rs).runFile id).1]
  cases hf : p.checkedFile? id with
  | none => simp [Program.fileReport, hf, Report.empty]
  | some f =>
    rw [p.fileReport_eq c.settings hf]
    simp only [Report.ofList, List.mem_mergeSort, Program.diagnostics, List.mem_map,
      hv.mem_checkFile_iff hf]
    constructor
    · rintro ⟨u, hu, rfl⟩
      exact ⟨f, rfl, u, hu, rfl, u.carriedBy_toDiagnostic⟩
    · rintro ⟨_, ⟨⟩, u, hu, rfl, -⟩
      exact ⟨u, hu, rfl⟩

end Session

end SwitchCover
