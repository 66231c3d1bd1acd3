import Mathlib.Data.Finset.Card
import SwitchCover.Session

namespace SwitchCover

namespace Program

def registry (p : Program) (settings : Settings) (path : PackagePath) : Registry :=
  (Registry.build p (p.closure path) settings.integerKinds).value

def report (p : Program) (settings : Settings) (path : PackagePath) (files : List CheckedFile) :
    Report :=
  .ofList (Rule.runPasses [Rule.pass p (p.registry settings path) settings] files).value

def fileReport (p : Program) (settings : Settings) (id : FileId) : Report :=
  match p.checkedFile? id with
  | none => .empty
  | some f => p.report settings f.package [f]

def packageReport (p : Program) (settings : Settings) (path : PackagePath) : Report :=
  match p.package? path with
  | none => .empty
  | some _ => p.report settings path (p.filesOf path)

def fullReport (p : Program) (settings : Settings) : Report :=
  p.packages.keys.foldl (fun r path => r.append (p.packageReport settings path)) .empty

end Program

namespace Session

inductive Request where
  | registry (path : PackagePath)
  | file (id : FileId)
  | package (path : PackagePath)
  | all

/-- Packages whose registry a call asks for. Unknown files and packages ask for none. -/
def Request.packages (p : Program) : Request → List PackagePath
  | registry path => [path]
  | file id => ((p.checkedFile? id).map CheckedFile.package).toList
  | package path => if path ∈ p.packages.keys then [path] else []
  | all => p.packages.keys

def after (s : Session) : Request → Session
  | .registry path => (s.registryFor path).value.2
  | .file id => (s.runFile id).value.2
  | .package path => (s.runPackage path).value.2
  | .all => s.runAll.value.2

def run (s : Session) (rs : List Request) : Session :=
  rs.foldl after s

/-- A session on `p` that was asked for the registries of `paths`. Every registry it keeps is the
one of its closure. -/
structure Keeps (p : Program) (c : Config) (paths : List PackagePath) (s : Session) : Prop where
  program : s.program = p
  config : s.config = c
  built : ∀ d r, s.registries.get? d = some r →
    r = (Registry.build p d c.settings.integerKinds).value
  keys : ∀ d, d ∈ s.registries.keys ↔ d ∈ paths.map p.closure

theorem keeps_start (p : Program) (c : Config) : (start p c).value.Keeps p c [] := by
  have hs : (start p c).value = ⟨p, c, ∅⟩ := by
    simp only [start]
    split
    · rfl
    · rfl
  rw [hs]
  exact ⟨rfl, rfl, fun d r h => (by cases h), fun d => .rfl⟩

theorem Keeps.registryFor {s : Session} (h : s.Keeps p c paths) (path : PackagePath) :
    (s.registryFor path).value.1 = p.registry c.settings path ∧
      (s.registryFor path).value.2.Keeps p c (paths ++ [path]) := by
  have hmem (d : Closure) : d ∈ (paths ++ [path]).map p.closure ↔
      d ∈ s.registries.keys ∨ d = p.closure path := by
    rw [List.map_append, List.mem_append, h.keys, List.map_singleton, List.mem_singleton]
  simp only [Session.registryFor, h.program, h.config]
  -- A registry that is found was built for an equal closure, maybe of another package.
  split
  next r hr =>
    refine ⟨h.built _ r hr, h.program, h.config, h.built, ?_⟩
    intro d
    rw [hmem]
    refine ⟨.inl, ?_⟩
    rintro (hc | rfl)
    · exact hc
    · exact OrderedMap.mem_keys_of_get? hr
  next hr =>
    refine ⟨rfl, rfl, rfl, ?_, ?_⟩
    · intro d r hc
      simp only [Traced.value_bind, Traced.value_pure, OrderedMap.get?_insert] at hc
      split at hc
      next he =>
        cases hc
        rw [he]
      next => exact h.built d r hc
    · intro d
      simp only [Traced.value_bind, Traced.value_pure, hmem, OrderedMap.keys_insert,
        if_neg (OrderedMap.get?_eq_none_iff.1 hr), List.mem_append, List.mem_singleton]

theorem Keeps.check {s : Session} (h : s.Keeps p c paths) (path : PackagePath)
    (files : List CheckedFile) :
    (s.check (p.registry c.settings path) files).value =
      p.report c.settings path files := by
  simp only [Session.check, h.program, h.config]
  rfl

theorem Keeps.runFile {s : Session} (h : s.Keeps p c paths) (id : FileId) :
    (s.runFile id).value.1 = p.fileReport c.settings id ∧
      (s.runFile id).value.2.Keeps p c (paths ++ (Request.file id).packages p) := by
  simp only [Session.runFile, Program.fileReport, Request.packages, h.program]
  cases p.checkedFile? id with
  | none =>
    refine ⟨rfl, ?_⟩
    simpa using h
  | some file =>
    obtain ⟨hr, hk⟩ := h.registryFor file.package
    simp only [Traced.value_bind, Traced.value_pure, hr]
    exact ⟨hk.check file.package [file], hk⟩

theorem Keeps.runPackage {s : Session} (h : s.Keeps p c paths) (path : PackagePath) :
    (s.runPackage path).value.1 = p.packageReport c.settings path ∧
      (s.runPackage path).value.2.Keeps p c (paths ++ (Request.package path).packages p) := by
  simp only [Session.runPackage, Program.packageReport, Request.packages, h.program]
  cases hp : p.package? path with
  | none =>
    refine ⟨rfl, ?_⟩
    simpa [OrderedMap.get?_eq_none_iff.1 hp] using h
  | some pkg =>
    obtain ⟨hr, hk⟩ := h.registryFor path
    simp only [Traced.value_bind, Traced.value_pure, hr, hk.program,
      if_pos (OrderedMap.mem_keys_of_get? hp)]
    exact ⟨hk.check path (p.filesOf path), hk⟩

/-- Joining the reports on packages. The registries asked for are those of the loaded packages. -/
theorem Keeps.foldl_runPackage {s : Session} (h : s.Keeps p c paths) (r : Report)
    (more : List PackagePath) (hm : more ⊆ p.packages.keys) :
    let t := more.foldl (fun (t : Report × Session) path =>
      (t.1.append (t.2.runPackage path).value.1, (t.2.runPackage path).value.2)) (r, s)
    t.1 = more.foldl (fun r path => r.append (p.packageReport c.settings path)) r ∧
      t.2.Keeps p c (paths ++ more) := by
  induction more generalizing r s paths with
  | nil =>
    refine ⟨rfl, ?_⟩
    simpa using h
  | cons path more ih =>
    obtain ⟨hpath, hm⟩ := List.cons_subset.1 hm
    obtain ⟨hr, hk⟩ := h.runPackage path
    simp only [Request.packages, if_pos hpath] at hk
    have hi := ih hk (r.append (p.packageReport c.settings path)) hm
    simpa only [List.foldl_cons, hr, List.append_assoc, List.singleton_append] using hi

theorem Keeps.runAll {s : Session} (h : s.Keeps p c paths) :
    s.runAll.value.1 = p.fullReport c.settings ∧
      s.runAll.value.2.Keeps p c (paths ++ Request.all.packages p) := by
  have hf := h.foldl_runPackage .empty p.packages.keys (List.Subset.refl _)
  simp only [Session.runAll, Traced.value_bind, Traced.value_pure, Traced.value_foldl, h.program]
  exact hf

theorem Keeps.after {s : Session} (h : s.Keeps p c paths) (r : Request) :
    (s.after r).Keeps p c (paths ++ r.packages p) := by
  cases r with
  | registry path => exact (h.registryFor path).2
  | file id => exact (h.runFile id).2
  | package path => exact (h.runPackage path).2
  | all => exact h.runAll.2

theorem Keeps.run {s : Session} (h : s.Keeps p c paths) (rs : List Request) :
    (s.run rs).Keeps p c (paths ++ rs.flatMap (Request.packages p)) := by
  induction rs generalizing s paths with
  | nil =>
    rw [List.flatMap_nil, List.append_nil]
    exact h
  | cons r rs ih =>
    rw [List.flatMap_cons, ← List.append_assoc]
    exact ih (h.after r)

theorem Keeps.cachedRegistries {s : Session} (h : s.Keeps p c paths) :
    s.cachedRegistries = (paths.map p.closure).toFinset.card := by
  have hk : (paths.map p.closure).toFinset = s.registries.keys.toFinset := by
    ext d
    rw [List.mem_toFinset, List.mem_toFinset, h.keys]
  have hn : s.registries.keys.Nodup := s.registries.nodup
  rw [hk, List.toFinset_card_of_nodup hn, OrderedMap.keys, List.length_map]
  rfl

/-- After any calls, every call answers as on a new session and as many registries are kept as
there are different closures among those asked for. -/
theorem calls_independent (p : Program) (c : Config) (rs : List Request) :
    let fresh := (start p c).value
    let s := fresh.run rs
    (∀ path, (s.registryFor path).value.1 =
      (Registry.build p (p.closure path) c.settings.integerKinds).value) ∧
    (∀ id, (s.runFile id).value.1 = (fresh.runFile id).value.1) ∧
    (∀ path, (s.runPackage path).value.1 = (fresh.runPackage path).value.1) ∧
    s.runAll.value.1 = fresh.runAll.value.1 ∧
    s.cachedRegistries = ((rs.flatMap (Request.packages p)).map p.closure).toFinset.card := by
  intro fresh s
  have hf := keeps_start p c
  have hs := hf.run rs
  refine ⟨fun path => (hs.registryFor path).1, ?_, ?_, ?_, hs.cachedRegistries⟩
  · exact fun id => (hs.runFile id).1.trans (hf.runFile id).1.symm
  · exact fun path => (hs.runPackage path).1.trans (hf.runPackage path).1.symm
  · exact hs.runAll.1.trans hf.runAll.1.symm

end Session

end SwitchCover
