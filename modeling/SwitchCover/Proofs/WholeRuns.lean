import SwitchCover.Proofs.Findings
import SwitchCover.Proofs.ReportOrder
import SwitchCover.Proofs.ScriptSteps

namespace SwitchCover

namespace Program

open Report (Ascending withKey)

variable {p : Program} {settings : Settings} {fs gs : List CheckedFile}

theorem ascending_flatMap (h : fs.Pairwise fun f g => f.file.index < g.file.index) :
    Ascending (fs.flatMap fun f => (Report.ofList (p.diagnostics settings f)).diagnostics) := by
  apply List.pairwise_flatMap.2
  refine ⟨fun f _ => Report.ascending_ofList _, h.imp ?_⟩
  intro f g hlt d hd e he
  obtain ⟨k, hd⟩ := key_of_mem_diagnostics (Report.mem_ofList.1 hd)
  obtain ⟨l, he⟩ := key_of_mem_diagnostics (Report.mem_ofList.1 he)
  simp [hd, he, Diagnostic.keyLE, hlt]

theorem withKey_flatMap_eq_nil (h : ∀ f ∈ fs, ∀ rest, k ≠ 1 :: f.file.index :: rest) :
    withKey k (fs.flatMap (p.diagnostics settings)) = [] := by
  apply List.eq_nil_iff_forall_not_mem.2
  intro d hd
  obtain ⟨hmem, hk⟩ := Report.mem_withKey.1 hd
  obtain ⟨f, hf, hmem⟩ := List.mem_flatMap.1 hmem
  obtain ⟨rest, he⟩ := key_of_mem_diagnostics hmem
  exact h f hf rest (hk.symm.trans he)

/-- The diagnostics under a key all come from the file that the key names. -/
theorem withKey_flatMap (hn : (fs.map CheckedFile.file).Nodup) (hf : f ∈ fs)
    (hk : k = 1 :: f.file.index :: rest) :
    withKey k (fs.flatMap (p.diagnostics settings)) = withKey k (p.diagnostics settings f) := by
  obtain ⟨as, bs, rfl⟩ := List.append_of_mem hf
  rw [List.map_append, List.map_cons, List.nodup_append] at hn
  have hnil (ls : List CheckedFile) (hl : ∀ g ∈ ls, g.file ≠ f.file) :
      withKey k (ls.flatMap (p.diagnostics settings)) = [] := by
    apply withKey_flatMap_eq_nil
    intro g hg rest' he
    rw [hk] at he
    have hi : f.file.index = g.file.index := (List.cons.inj (List.cons.inj he).2).1
    exact hl g hg (congrArg FileId.mk hi.symm)
  have ha := hnil as fun g hg he =>
    hn.2.2 _ (List.mem_map_of_mem hg) _ List.mem_cons_self he
  have hb := hnil bs fun g hg he =>
    (List.nodup_cons.1 hn.2.1).1 (he ▸ List.mem_map_of_mem hg)
  simp only [withKey, List.flatMap_append, List.flatMap_cons, List.filter_append] at ha hb ⊢
  rw [ha, hb, List.append_nil, List.nil_append]

/-- A report does not depend on the order in which its files are visited. -/
theorem ofList_flatMap_congr (hfs : (fs.map CheckedFile.file).Nodup)
    (hgs : (gs.map CheckedFile.file).Nodup) (hm : ∀ f, f ∈ fs ↔ f ∈ gs) :
    Report.ofList (fs.flatMap (p.diagnostics settings)) =
      Report.ofList (gs.flatMap (p.diagnostics settings)) := by
  apply Report.ofList_congr
  intro k
  -- At most one file contributes under a key, wherever it stands.
  by_cases hk : ∃ f ∈ fs, ∃ rest, k = 1 :: f.file.index :: rest
  · obtain ⟨f, hf, rest, hk⟩ := hk
    rw [withKey_flatMap hfs hf hk, withKey_flatMap hgs ((hm f).1 hf) hk]
  · have hno : ∀ f ∈ fs, ∀ rest, k ≠ 1 :: f.file.index :: rest :=
      fun f hf rest he => hk ⟨f, hf, rest, he⟩
    rw [withKey_flatMap_eq_nil hno, withKey_flatMap_eq_nil fun f hf => hno f ((hm f).2 hf)]

theorem diagnostics_ofList_flatMap (h : fs.Pairwise fun f g => f.file.index < g.file.index) :
    (Report.ofList (fs.flatMap (p.diagnostics settings))).diagnostics =
      fs.flatMap fun f => (Report.ofList (p.diagnostics settings f)).diagnostics := by
  apply Report.diagnostics_ofList (ascending_flatMap h)
  intro k
  simp only [withKey, List.filter_flatMap]
  apply List.flatMap_congr
  intro f _
  exact (Report.withKey_ofList k _).symm

theorem Valid.map_file (h : p.Valid) :
    p.checkedFiles.values.map CheckedFile.file = p.checkedFiles.keys := by
  rw [OrderedMap.values, OrderedMap.keys, List.map_map]
  apply List.map_congr_left
  rintro ⟨id, f⟩ he
  exact (h.files id f (OrderedMap.get?_eq_some_iff.2 he)).file

theorem Valid.nodup_files (h : p.Valid) :
    (p.checkedFiles.values.map CheckedFile.file).Nodup := by
  rw [h.map_file]
  exact p.checkedFiles.nodup

theorem Valid.checkedFile?_of_mem (h : p.Valid) (hf : f ∈ p.checkedFiles.values) :
    p.checkedFile? f.file = some f := by
  obtain ⟨⟨id, _⟩, he, rfl⟩ := List.mem_map.1 hf
  have hg := OrderedMap.get?_eq_some_iff.2 he
  rw [(h.files id _ hg).file]
  exact hg

theorem Valid.values_pairwise (h : p.Valid) :
    p.checkedFiles.values.Pairwise fun f g => f.file.index < g.file.index := by
  have ho := h.order
  rwa [← h.map_file, List.pairwise_map] at ho

theorem Valid.filesOf_pairwise (h : p.Valid) (path : PackagePath) :
    (p.filesOf path).Pairwise fun f g => f.file.index < g.file.index :=
  h.values_pairwise.filter _

theorem Valid.packageReport_eq (h : p.Valid) (settings : Settings) (path : PackagePath) :
    p.packageReport settings path =
      .ofList ((p.filesOf path).flatMap (p.diagnostics settings)) := by
  have hpath : ∀ f ∈ p.filesOf path, f.package = path := by
    intro f hf
    exact of_decide_eq_true (List.mem_filter.1 hf).2
  rw [packageReport]
  cases hp : p.package? path with
  | some pkg => exact p.report_eq settings path _ hpath
  | none =>
    rw [h.filesOf_eq_nil (OrderedMap.get?_eq_none_iff.1 hp), List.flatMap_nil, Report.ofList_nil]

/-- The files of the packages, package by package, are all the files. -/
theorem Valid.mem_flatMap_filesOf (h : p.Valid) :
    f ∈ p.packages.keys.flatMap p.filesOf ↔ f ∈ p.checkedFiles.values := by
  simp only [List.mem_flatMap, filesOf, List.mem_filter, decide_eq_true_eq]
  constructor
  · rintro ⟨path, _, hf, _⟩
    exact hf
  · intro hf
    exact ⟨f.package, (h.files _ f (h.checkedFile?_of_mem hf)).loaded, hf, rfl⟩

theorem Valid.nodup_flatMap_filesOf (h : p.Valid) :
    ((p.packages.keys.flatMap p.filesOf).map CheckedFile.file).Nodup := by
  apply List.Nodup.map_on
  · intro f hf g hg he
    exact List.inj_on_of_nodup_map h.nodup_files (h.mem_flatMap_filesOf.1 hf)
      (h.mem_flatMap_filesOf.1 hg) he
  · refine List.nodup_flatMap.2 ⟨fun path _ => (List.Nodup.of_map _ h.nodup_files).filter _, ?_⟩
    refine List.Pairwise.imp ?_ p.packages.nodup
    intro q r hqr f hq hr
    have hq : f.package = q := of_decide_eq_true (List.mem_filter.1 hq).2
    have hr : f.package = r := of_decide_eq_true (List.mem_filter.1 hr).2
    exact hqr (hq.symm.trans hr)

theorem Valid.fullReport_eq (h : p.Valid) (settings : Settings) :
    p.fullReport settings = .ofList (p.checkedFiles.values.flatMap (p.diagnostics settings)) := by
  simp only [fullReport, h.packageReport_eq, ← Report.ofList_nil, Report.foldl_append_ofList,
    List.nil_append]
  rw [← List.flatMap_assoc]
  exact ofList_flatMap_congr h.nodup_flatMap_filesOf h.nodup_files fun _ => h.mem_flatMap_filesOf

theorem Valid.fileReport_file (h : p.Valid) (settings : Settings) (hf : f ∈ p.checkedFiles.values) :
    p.fileReport settings f.file = .ofList (p.diagnostics settings f) :=
  p.fileReport_eq settings (h.checkedFile?_of_mem hf)

theorem Valid.diagnostics_fullReport (h : p.Valid) (settings : Settings) :
    (p.fullReport settings).diagnostics =
      p.checkedFiles.keys.flatMap fun id => (p.fileReport settings id).diagnostics := by
  rw [h.fullReport_eq, diagnostics_ofList_flatMap h.values_pairwise, ← h.map_file, List.flatMap_map]
  apply List.flatMap_congr
  intro f hf
  rw [h.fileReport_file settings hf]

theorem Valid.diagnostics_packageReport (h : p.Valid) (settings : Settings) (path : PackagePath) :
    (p.packageReport settings path).diagnostics =
      (p.checkedFiles.keys.filter fun id =>
        (p.checkedFile? id).map CheckedFile.package = some path).flatMap
          fun id => (p.fileReport settings id).diagnostics := by
  have hk : (p.checkedFiles.keys.filter fun id =>
      (p.checkedFile? id).map CheckedFile.package = some path) =
        (p.filesOf path).map CheckedFile.file := by
    rw [← h.map_file, List.filter_map, filesOf]
    congr 1
    apply List.filter_congr
    intro f hf
    simp [h.checkedFile?_of_mem hf]
  have hp := h.filesOf_pairwise path
  rw [hk, h.packageReport_eq, diagnostics_ofList_flatMap hp, List.flatMap_map]
  apply List.flatMap_congr
  intro f hf
  rw [h.fileReport_file settings (List.mem_filter.1 hf).1]

end Program

namespace Session

/-- Runs over all files and over the files of a package, in any session on a constructed program.
The files are those that the script finished. -/
theorem runs_concatenate (cs : List Command) (c : Config) (rs : List Request) :
    let p := (Workspace.empty.run cs).program
    let s := (start p c).value.run rs
    let files := Workspace.empty.closed cs
    let onFile := fun id => (s.runFile id).value.1.diagnostics
    files.Pairwise (·.index < ·.index) ∧
    s.runAll.value.1.diagnostics = files.flatMap onFile ∧
    (∀ path, (s.runPackage path).value.1.diagnostics =
      (files.filter fun id => (p.checkedFile? id).map CheckedFile.package = some path).flatMap
        onFile) ∧
    ∀ id, id ∉ files → onFile id = [] := by
  intro p s files onFile
  have hw := Workspace.run_steps Workspace.valid_empty cs
  have hv : p.Valid := hw.valid.program
  have hk : files = p.checkedFiles.keys := hw.keys.symm
  have hs := (keeps_start p c).run rs
  have hfile : onFile = fun id => (p.fileReport c.settings id).diagnostics :=
    funext fun id => congrArg Report.diagnostics (hs.runFile id).1
  rw [hfile, hk]
  refine ⟨hv.order, ?_, ?_, ?_⟩
  · rw [hs.runAll.1]
    exact hv.diagnostics_fullReport c.settings
  · intro path
    rw [(hs.runPackage path).1]
    exact hv.diagnostics_packageReport c.settings path
  · intro id hid
    have hn : p.checkedFile? id = none := OrderedMap.get?_eq_none_iff.2 hid
    simp only [Program.fileReport, hn]
    rfl

end Session

end SwitchCover
