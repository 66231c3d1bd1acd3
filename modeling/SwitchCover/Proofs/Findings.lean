import SwitchCover.Proofs.Coverage
import SwitchCover.Proofs.SessionCache

namespace SwitchCover

namespace Coverage

/-- The constants that a check finds missing; none if it accepts the switch. -/
def missingOf (settings : Settings) (table : TypeTable) (b : Body) (s : Switch) (t : NamedType)
    (constants : List EnumConstant) : List String :=
  ((check settings table b s t constants).value.map missing).getD []

end Coverage

namespace Rule

/-- The steps of a check, of which any may end it without a finding. -/
theorem checkSwitch_value (p : Program) (r : Registry) (settings : Settings) (file : FileId)
    (b : Body) (id : StmtId) (s : Switch) :
    (checkSwitch p r settings file b id s).value =
      s.tag.bind fun tag => (b.type? tag).bind fun ty => (p.types.asNamed ty).bind fun t =>
        (r.constantsOf t).bind fun constants =>
          UncoveredSwitch.ofMissing settings.severity ⟨file, b.stmtRange id⟩ t
            (Coverage.missingOf settings p.types b s t constants) := by
  rw [checkSwitch]
  cases s.tag with
  | none => rfl
  | some tag =>
    simp only [Traced.value_bind, Body.resolveNamed, Option.bind_some]
    cases b.type? tag with
    | none => rfl
    | some ty =>
      simp only [Option.bind_some]
      cases p.types.asNamed ty with
      | none => rfl
      | some t =>
        simp only [Option.bind_some, Traced.value_pure]
        cases r.constantsOf t with
        | none => rfl
        | some constants =>
          simp only [Option.bind_some, Traced.value_bind, Coverage.missingOf]
          cases (Coverage.check settings p.types b s t constants).value with
          | none => rfl
          | some c => rfl

theorem ofMissing_eq_some : UncoveredSwitch.ofMissing severity span t missing = some u ↔
    missing ≠ [] ∧ u = ⟨span, t, missing, severity⟩ := by
  rw [UncoveredSwitch.ofMissing]
  cases missing with
  | nil => simp
  | cons name names => simp [eq_comm]

theorem checkSwitch_eq_some {p : Program} {b : Body} {id : StmtId} {s : Switch} :
    (checkSwitch p r settings file b id s).value = some u ↔
      ∃ tag, s.tag = some tag ∧ ∃ ty, b.type? tag = some ty ∧ ∃ t, p.types.asNamed ty = some t ∧
        ∃ constants, r.constantsOf t = some constants ∧
          Coverage.missingOf settings p.types b s t constants ≠ [] ∧
          u = ⟨⟨file, b.stmtRange id⟩, t, Coverage.missingOf settings p.types b s t constants,
            settings.severity⟩ := by
  simp only [checkSwitch_value, Option.bind_eq_some_iff, ofMissing_eq_some]

theorem checkFile_value (p : Program) (r : Registry) (settings : Settings) (f : CheckedFile) :
    (checkFile p r settings f).value =
      f.funcs.flatMap fun g => g.body.switches.filterMap fun (id, s) =>
        (checkSwitch p r settings f.file g.body id s).value := by
  simp only [checkFile, checkFunc, Traced.value_bind, Traced.value_pure, Traced.value_mapList,
    List.flatMap_def, List.filterMap_map]
  rfl

theorem mem_checkFile {p : Program} {f : CheckedFile} :
    u ∈ (checkFile p r settings f).value ↔
      ∃ g ∈ f.funcs, ∃ id s, (id, s) ∈ g.body.switches ∧
        (checkSwitch p r settings f.file g.body id s).value = some u := by
  simp only [checkFile_value, List.mem_flatMap, List.mem_filterMap, Prod.exists]

theorem runPasses_singleton (pass : Pass) (files : List CheckedFile) :
    (runPasses [pass] files).value = files.flatMap fun f => (pass f).value := by
  simp only [runPasses, Traced.value_bind, Traced.value_pure, Traced.value_mapList,
    List.map_cons, List.map_nil]
  induction files with
  | nil => rfl
  | cons f files ih => simp [ih]

end Rule

namespace Program

def diagnostics (p : Program) (settings : Settings) (f : CheckedFile) : List Diagnostic :=
  (Rule.checkFile p (p.registry settings f.package) settings f).value.map
    UncoveredSwitch.toDiagnostic

theorem report_eq (p : Program) (settings : Settings) (path : PackagePath) (fs : List CheckedFile)
    (hf : ∀ f ∈ fs, f.package = path) :
    p.report settings path fs = .ofList (fs.flatMap (p.diagnostics settings)) := by
  have hd : ∀ f ∈ fs, p.diagnostics settings f =
      (Rule.pass p (p.registry settings path) settings f).value := by
    intro f hmem
    rw [← hf f hmem]
    rfl
  rw [report, Rule.runPasses_singleton, List.flatMap_congr hd]

theorem fileReport_eq (p : Program) (settings : Settings) {id : FileId}
    (hf : p.checkedFile? id = some f) :
    p.fileReport settings id = .ofList (p.diagnostics settings f) := by
  have hr := p.report_eq settings f.package [f] (by simp)
  simpa only [fileReport, hf, List.flatMap_cons, List.flatMap_nil, List.append_nil] using hr

/-- Every diagnostic on a file points into that file. -/
theorem key_of_mem_diagnostics {p : Program} (h : d ∈ p.diagnostics settings f) :
    ∃ rest, d.key = 1 :: f.file.index :: rest := by
  obtain ⟨u, hu, rfl⟩ := List.mem_map.1 h
  obtain ⟨g, _, id, s, _, hu⟩ := Rule.mem_checkFile.1 hu
  obtain ⟨_, _, _, _, _, _, _, _, _, rfl⟩ := Rule.checkSwitch_eq_some.1 hu
  exact ⟨_, rfl⟩

end Program

end SwitchCover
