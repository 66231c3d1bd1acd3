import SwitchCover.Build.Declare
import SwitchCover.Proofs.BodyGrowth
import SwitchCover.Proofs.Closure
import SwitchCover.Proofs.Registry

namespace SwitchCover

namespace ScopeItem

def types : ScopeItem → List TyId
  | type decl => [decl.ty, decl.underlying]
  | const decl => [decl.ty]
  | var ty => [ty]
  | func ty => [ty]

/-- A declaration under the name of `t` refers to known types. If it declares a type of its own,
that type is `t`. -/
structure Valid (table : TypeTable) (t : NamedType) (item : ScopeItem) : Prop where
  has : ∀ ty ∈ item.types, table.Has ty
  denotes : ∀ decl, item = .type decl → decl.isAlias = false → table.asNamed decl.ty = some t

theorem Valid.mono {s u : TypeTable} (h : Valid s t item) (he : s.Extends u) : Valid u t item where
  has := fun ty hty => (h.has ty hty).mono he
  denotes := by
    intro decl hd ha
    subst hd
    rw [he.asNamed (h.has decl.ty List.mem_cons_self)]
    exact h.denotes decl rfl ha

end ScopeItem

structure Package.Valid (pkg : Package) (path : PackagePath) (table : TypeTable)
    (loaded : List PackagePath) : Prop where
  stored : pkg.path = path
  scope : ∀ name item, pkg.scope.lookup name = some item → item.Valid table ⟨path, name⟩
  imports : pkg.imports ⊆ loaded
  nodup : pkg.imports.Nodup

theorem Package.Valid.mono {pkg : Package} (h : pkg.Valid p s loaded) (he : s.Extends t)
    (hl : loaded ⊆ loaded') : pkg.Valid p t loaded' where
  stored := h.stored
  scope := fun name item hi => (h.scope name item hi).mono he
  imports := List.Subset.trans h.imports hl
  nodup := h.nodup

/-- Declarations and imports are only ever added at the end. -/
structure Package.Grows (pkg pkg' : Package) : Prop where
  scope : pkg.scope.items.entries <+: pkg'.scope.items.entries
  imports : pkg.imports <+: pkg'.imports

theorem Package.Grows.refl (pkg : Package) : pkg.Grows pkg :=
  ⟨List.prefix_refl _, List.prefix_refl _⟩

theorem Package.Grows.trans {a b c : Package} (h : a.Grows b) (h' : b.Grows c) : a.Grows c :=
  ⟨h.scope.trans h'.scope, h.imports.trans h'.imports⟩

def Program.Imports (p : Program) (q r : PackagePath) : Prop :=
  ∃ pkg, p.package? q = some pkg ∧ r ∈ pkg.imports

/-- An open file has a number above all finished files. -/
structure OpenFile.Valid (f : OpenFile) (p : Program) : Prop where
  stored : f.file.index < p.files.size
  newest : ∀ id ∈ p.checkedFiles.keys, id.index < f.file.index
  loaded : f.package ∈ p.packages.keys
  imports : ∀ i ∈ f.imports, p.Imports f.package i.path
  bodies : ∀ g ∈ f.funcs, g.body.Valid p.types

structure CheckedFile.Valid (f : CheckedFile) (id : FileId) (p : Program) : Prop where
  file : f.file = id
  stored : id.index < p.files.size
  loaded : f.package ∈ p.packages.keys
  imports : ∀ i ∈ f.imports, p.Imports f.package i.path
  bodies : ∀ g ∈ f.funcs, g.body.Valid p.types

namespace Program

structure Valid (p : Program) : Prop where
  types : p.types.Valid
  packages : ∀ path pkg, p.package? path = some pkg → pkg.Valid path p.types p.packages.keys
  graph : ∀ path, p.graph.targets.get? path = (p.package? path).map Package.imports
  nodes : p.graph.nodes = p.packages.keys
  files : ∀ id f, p.checkedFile? id = some f → f.Valid id p
  order : p.checkedFiles.keys.Pairwise (·.index < ·.index)
  listed : ∀ path pkg, p.package? path = some pkg →
    pkg.files = (p.filesOf path).map CheckedFile.file

def KeepsPackages (p q : Program) : Prop :=
  ∀ path pkg, p.package? path = some pkg → ∃ pkg', q.package? path = some pkg' ∧ pkg.Grows pkg'

theorem KeepsPackages.refl (p : Program) : p.KeepsPackages p :=
  fun _ pkg hp => ⟨pkg, hp, .refl pkg⟩

theorem KeepsPackages.trans {p q r : Program} (h : p.KeepsPackages q) (h' : q.KeepsPackages r) :
    p.KeepsPackages r := by
  intro path a ha
  obtain ⟨b, hb, hab⟩ := h path a ha
  obtain ⟨c, hc, hbc⟩ := h' path b hb
  exact ⟨c, hc, hab.trans hbc⟩

theorem KeepsPackages.imports {p q : Program} (h : p.KeepsPackages q) (hi : p.Imports a b) :
    q.Imports a b := by
  obtain ⟨pkg, hp, hb⟩ := hi
  obtain ⟨pkg', hq, hg⟩ := h a pkg hp
  exact ⟨pkg', hq, hg.imports.subset hb⟩

theorem KeepsPackages.keys {p q : Program} (h : p.KeepsPackages q) :
    p.packages.keys ⊆ q.packages.keys := by
  intro path hp
  obtain ⟨pkg, hp⟩ := OrderedMap.exists_get?_of_mem_keys hp
  obtain ⟨pkg', hq, _⟩ := h path pkg hp
  exact OrderedMap.mem_keys_of_get? hq

/-- What every step keeps that finishes no file. -/
structure Grows (p q : Program) : Prop where
  types : p.types.Extends q.types
  files : p.files.size ≤ q.files.size
  packages : p.KeepsPackages q
  checked : q.checkedFiles = p.checkedFiles

theorem Grows.refl (p : Program) : p.Grows p :=
  ⟨.refl _, Nat.le_refl _, .refl p, rfl⟩

theorem Grows.trans {p q r : Program} (h : p.Grows q) (h' : q.Grows r) : p.Grows r where
  types := h.types.trans h'.types
  files := Nat.le_trans h.files h'.files
  packages := h.packages.trans h'.packages
  checked := h'.checked.trans h.checked

/-- What every step keeps. -/
structure Extends (p q : Program) : Prop where
  types : p.types.Extends q.types
  packages : p.KeepsPackages q
  checked : ∀ id f, p.checkedFile? id = some f → q.checkedFile? id = some f

theorem Extends.refl (p : Program) : p.Extends p :=
  ⟨.refl _, .refl p, fun _ _ hf => hf⟩

theorem Extends.trans {p q r : Program} (h : p.Extends q) (h' : q.Extends r) : p.Extends r where
  types := h.types.trans h'.types
  packages := h.packages.trans h'.packages
  checked := fun id f hf => h'.checked id f (h.checked id f hf)

theorem Grows.extends {p q : Program} (h : p.Grows q) : p.Extends q where
  types := h.types
  packages := h.packages
  checked := by
    intro id f hf
    rw [checkedFile?, h.checked]
    exact hf

end Program

theorem CheckedFile.Valid.mono {f : CheckedFile} {id : FileId} (h : f.Valid id p) (hg : p.Grows q) :
    f.Valid id q where
  file := h.file
  stored := Nat.lt_of_lt_of_le h.stored hg.files
  loaded := hg.packages.keys h.loaded
  imports := fun i hi => hg.packages.imports (h.imports i hi)
  bodies := fun g hgf => (h.bodies g hgf).mono hg.types

theorem OpenFile.Valid.mono {f : OpenFile} (h : f.Valid p) (hg : p.Grows q) : f.Valid q where
  stored := Nat.lt_of_lt_of_le h.stored hg.files
  newest := hg.checked ▸ h.newest
  loaded := hg.packages.keys h.loaded
  imports := fun i hi => hg.packages.imports (h.imports i hi)
  bodies := fun g hgf => (h.bodies g hgf).mono hg.types

namespace Program

theorem valid_empty : empty.Valid where
  types := fun ty data h => by cases h
  packages := fun path pkg h => by cases h
  graph := fun path => rfl
  nodes := rfl
  files := fun id f h => by cases h
  order := .nil
  listed := fun path pkg h => by cases h

/-- A grown program is valid if its own types, packages and imports are. -/
theorem Valid.of_grows {p q : Program} (h : p.Valid) (hg : p.Grows q) (ht : q.types.Valid)
    (hp : ∀ path pkg, q.package? path = some pkg → pkg.Valid path q.types q.packages.keys)
    (hi : ∀ path, q.graph.targets.get? path = (q.package? path).map Package.imports)
    (hn : q.graph.nodes = q.packages.keys)
    (hl : ∀ path pkg, q.package? path = some pkg →
      pkg.files = (p.filesOf path).map CheckedFile.file) :
    q.Valid where
  types := ht
  packages := hp
  graph := hi
  nodes := hn
  files := by
    intro id f hf
    rw [checkedFile?, hg.checked] at hf
    exact (h.files id f hf).mono hg
  order := hg.checked ▸ h.order
  listed := by
    intro path pkg hp
    rw [filesOf, hg.checked]
    exact hl path pkg hp

theorem Valid.setTypes {p : Program} (h : p.Valid) (he : p.types.Extends table)
    (ht : table.Valid) :
    { p with types := table }.Valid ∧ p.Grows { p with types := table } := by
  have hg : p.Grows { p with types := table } := ⟨he, Nat.le_refl _, .refl p, rfl⟩
  refine ⟨h.of_grows hg ht ?_ h.graph h.nodes h.listed, hg⟩
  exact fun path pkg hp => (h.packages path pkg hp).mono he (List.Subset.refl _)

theorem Valid.setFiles {p : Program} (h : p.Valid) (hs : p.files.size ≤ FileStore.size store) :
    { p with files := store }.Valid ∧ p.Grows { p with files := store } := by
  have hg : p.Grows { p with files := store } := ⟨.refl _, hs, .refl p, rfl⟩
  exact ⟨h.of_grows hg h.types h.packages h.graph h.nodes h.listed, hg⟩

theorem Valid.filesOf_eq_nil {p : Program} (h : p.Valid) (hn : path ∉ p.packages.keys) :
    p.filesOf path = [] := by
  apply List.eq_nil_iff_forall_not_mem.2
  intro f hf
  obtain ⟨hmem, hp⟩ := List.mem_filter.1 hf
  obtain ⟨⟨id, _⟩, he, rfl⟩ := List.mem_map.1 hmem
  have hl := (h.files id _ (OrderedMap.get?_eq_some_iff.2 he)).loaded
  rw [of_decide_eq_true hp] at hl
  exact hn hl

theorem Valid.addPackage {p : Program} (h : p.Valid) (name : String)
    (hn : path ∉ p.packages.keys) :
    let q := { p with
      graph := p.graph.addPackage path
      packages := p.packages.append path ⟨path, name, [], .empty, []⟩ hn }
    q.Valid ∧ p.Grows q := by
  intro q
  have hq (r : PackagePath) : q.package? r =
      if r = path then some ⟨path, name, [], .empty, []⟩ else p.package? r :=
    OrderedMap.get?_append _ _ _ _ hn
  have hk : p.KeepsPackages q := by
    intro r pkg hr
    have hne : r ≠ path := by
      rintro rfl
      exact hn (OrderedMap.mem_keys_of_get? hr)
    exact ⟨pkg, by rw [hq, if_neg hne, hr], .refl pkg⟩
  have hg : p.Grows q := ⟨.refl _, Nat.le_refl _, hk, rfl⟩
  have hnode : path ∉ p.graph.targets.keys := by
    have hk : p.graph.targets.keys = p.packages.keys := h.nodes
    rwa [hk]
  refine ⟨h.of_grows hg h.types ?_ ?_ ?_ ?_, hg⟩
  · intro r pkg hr
    rw [hq] at hr
    split at hr
    next he =>
      cases hr
      exact ⟨he.symm, fun _ _ hi => (by cases hi), List.nil_subset _, .nil⟩
    next => exact (h.packages r pkg hr).mono (.refl _) hk.keys
  · intro r
    have hr : q.graph.targets.get? r = if r = path then some [] else p.graph.targets.get? r := by
      simp only [q, ImportGraph.addPackage, dif_neg hnode, OrderedMap.get?_append]
    rw [hr, hq, h.graph]
    split
    · rfl
    · rfl
  · have hk : (p.graph.targets.append path [] hnode).keys = p.graph.targets.keys ++ [path] := by
      simp [OrderedMap.keys, OrderedMap.append]
    have hk' : q.packages.keys = p.packages.keys ++ [path] := by
      simp [q, OrderedMap.keys, OrderedMap.append]
    simp only [q, ImportGraph.nodes, ImportGraph.addPackage, dif_neg hnode, hk]
    rw [hk']
    exact congrArg (· ++ [path]) h.nodes
  · intro r pkg hr
    rw [hq] at hr
    split at hr
    next he =>
      cases hr
      rw [he, h.filesOf_eq_nil hn]
      rfl
    next => exact h.listed r pkg hr

theorem keepsPackages_modify {p q : Program} (hq : q.packages = p.packages.modify path f)
    (hf : ∀ pkg, p.package? path = some pkg → pkg.Grows (f pkg)) : p.KeepsPackages q := by
  intro r pkg hr
  rw [package?, hq, OrderedMap.get?_modify]
  split
  next he =>
    subst he
    exact ⟨f pkg, congrArg (Option.map f) hr, hf pkg hr⟩
  next => exact ⟨pkg, hr, .refl pkg⟩

theorem Valid.packages_modify {p : Program} (h : p.Valid)
    (hf : ∀ pkg, p.package? path = some pkg → (f pkg).Valid path p.types p.packages.keys)
    (hr : (p.packages.modify path f).get? r = some pkg) :
    pkg.Valid r p.types (p.packages.modify path f).keys := by
  rw [OrderedMap.keys_modify]
  rcases OrderedMap.get?_modify_eq_some hr with ⟨rfl, old, ho, rfl⟩ | ⟨_, ho⟩
  · exact hf old ho
  · exact h.packages r pkg ho

theorem Valid.graph_modify {p : Program} (h : p.Valid)
    (hi : ∀ pkg, (f pkg).imports = Package.imports pkg) (path r : PackagePath) :
    p.graph.targets.get? r = ((p.packages.modify path f).get? r).map Package.imports := by
  rw [OrderedMap.get?_modify, h.graph, package?]
  split
  · simp [Option.map_map, Function.comp_def, hi]
  · rfl

theorem Valid.modifyPackage {p : Program} (h : p.Valid) (path : PackagePath)
    (hi : ∀ pkg, (f pkg).imports = Package.imports pkg)
    (hl : ∀ pkg, (f pkg).files = Package.files pkg)
    (hs : ∀ pkg, p.package? path = some pkg → pkg.Grows (f pkg))
    (hf : ∀ pkg, p.package? path = some pkg → (f pkg).Valid path p.types p.packages.keys) :
    let q := { p with packages := p.packages.modify path f }
    q.Valid ∧ p.Grows q := by
  intro q
  have hg : p.Grows q := ⟨.refl _, Nat.le_refl _, keepsPackages_modify rfl hs, rfl⟩
  refine ⟨h.of_grows hg h.types ?_ (h.graph_modify hi path) ?_ ?_, hg⟩
  · exact fun r pkg hr => h.packages_modify hf hr
  · rw [OrderedMap.keys_modify]
    exact h.nodes
  · intro r pkg hr
    rcases OrderedMap.get?_modify_eq_some hr with ⟨rfl, old, ho, rfl⟩ | ⟨_, ho⟩
    · rw [hl]
      exact h.listed r old ho
    · exact h.listed r pkg ho

end Program

/-- Recording an import that is known already changes nothing. -/
theorem Package.Valid.addImport {pkg : Package} (h : pkg.Valid p table loaded)
    (hto : imported ∈ loaded) :
    Package.Valid { pkg with
      imports := if imported ∈ pkg.imports then pkg.imports else pkg.imports ++ [imported] }
      p table loaded := by
  by_cases hi : imported ∈ pkg.imports
  · simp only [if_pos hi]
    exact h
  · simp only [if_neg hi]
    refine ⟨h.stored, h.scope, ?_, ?_⟩
    · intro r hr
      rcases List.mem_append.1 hr with hr | hr
      · exact h.imports hr
      · exact List.mem_singleton.1 hr ▸ hto
    · exact List.nodup_append'.2 ⟨h.nodup, List.nodup_singleton _, by simpa using hi⟩

namespace Program

theorem Valid.addImport {p : Program} (h : p.Valid) (hfrom : importer ∈ p.packages.keys)
    (hto : imported ∈ p.packages.keys) :
    let q := { p with
      packages := p.packages.modify importer fun pkg => { pkg with
        imports := if imported ∈ pkg.imports then pkg.imports else pkg.imports ++ [imported] }
      graph := p.graph.addImport importer imported }
    q.Valid ∧ p.Grows q := by
  intro q
  have hs (pkg : Package) : pkg.Grows { pkg with
      imports := if imported ∈ pkg.imports then pkg.imports else pkg.imports ++ [imported] } := by
    refine ⟨List.prefix_refl _, ?_⟩
    dsimp only
    split
    · exact List.prefix_refl _
    · exact List.prefix_append _ _
  have hg : p.Grows q :=
    ⟨.refl _, Nat.le_refl _, keepsPackages_modify rfl fun pkg _ => hs pkg, rfl⟩
  have hgraph : q.graph.targets = p.graph.targets.modify importer
      fun ps => if imported ∈ ps then ps else ps ++ [imported] := by
    have hk : p.graph.targets.keys = p.packages.keys := h.nodes
    have hnode {r} (hr : r ∈ p.packages.keys) : r ∈ p.graph.targets.keys := hk ▸ hr
    simp only [q, ImportGraph.addImport, ImportGraph.addPackage, dif_pos (hnode hfrom),
      dif_pos (hnode hto)]
  refine ⟨h.of_grows hg h.types ?_ ?_ ?_ ?_, hg⟩
  · intro r pkg hr
    exact h.packages_modify (fun old ho => (h.packages _ old ho).addImport hto) hr
  · intro r
    rw [hgraph, OrderedMap.get?_modify, h.graph, package?, package?, OrderedMap.get?_modify]
    split
    · simp [Option.map_map, Function.comp_def]
    · rfl
  · rw [ImportGraph.nodes, hgraph, OrderedMap.keys_modify, OrderedMap.keys_modify]
    exact h.nodes
  · intro r pkg hr
    rcases OrderedMap.get?_modify_eq_some hr with ⟨rfl, old, ho, rfl⟩ | ⟨_, ho⟩
    · exact h.listed r old ho
    · exact h.listed r pkg ho

theorem imports_addImport {p : Program} (h : importer ∈ p.packages.keys)
    (imported : PackagePath) (graph : ImportGraph) :
    Imports { p with
      packages := p.packages.modify importer fun pkg => { pkg with
        imports := if imported ∈ pkg.imports then pkg.imports else pkg.imports ++ [imported] }
      graph } importer imported := by
  obtain ⟨pkg, hp⟩ := OrderedMap.exists_get?_of_mem_keys h
  refine ⟨_, by rw [package?, OrderedMap.get?_modify, if_pos rfl, hp, Option.map_some], ?_⟩
  by_cases hi : imported ∈ pkg.imports <;> simp [hi]

theorem filesOf_closeFile {p : Program} {c : CheckedFile} (hnew : c.file ∉ p.checkedFiles.keys)
    (path : PackagePath) :
    ((p.checkedFiles.insert c.file c).values.filter fun f => f.package = path) =
      p.filesOf path ++ if c.package = path then [c] else [] := by
  rw [OrderedMap.insert, dif_neg hnew, filesOf]
  simp only [OrderedMap.values, OrderedMap.append, List.map_append, List.filter_append,
    List.map_cons, List.map_nil]
  by_cases hc : c.package = path <;> simp [hc]

theorem Valid.closeFile {p : Program} (h : p.Valid) {f : OpenFile} (hf : f.Valid p) :
    let q := { p with
      packages := p.packages.modify f.package fun pkg => { pkg with files := pkg.files ++ [f.file] }
      checkedFiles := p.checkedFiles.insert f.file ⟨f.file, f.package, f.imports, f.funcs⟩ }
    q.Valid ∧ p.Extends q ∧ q.checkedFiles.keys = p.checkedFiles.keys ++ [f.file] := by
  intro q
  have hkeep : p.KeepsPackages q :=
    keepsPackages_modify (f := fun pkg => { pkg with files := pkg.files ++ [f.file] }) rfl
      fun pkg _ => ⟨List.prefix_refl _, List.prefix_refl _⟩
  have hnew : f.file ∉ p.checkedFiles.keys := fun hm => Nat.lt_irrefl _ (hf.newest _ hm)
  have hk : q.checkedFiles.keys = p.checkedFiles.keys ++ [f.file] := by
    rw [OrderedMap.keys_insert, if_neg hnew]
  have hget (id : FileId) : q.checkedFile? id =
      if id = f.file then some ⟨f.file, f.package, f.imports, f.funcs⟩ else p.checkedFile? id :=
    OrderedMap.get?_insert ..
  have hvalid : q.Valid := by
    refine ⟨h.types, ?_, ?_, ?_, ?_, ?_, ?_⟩
    · intro r pkg hr
      refine h.packages_modify ?_ hr
      intro old ho
      have hv := h.packages _ old ho
      exact ⟨hv.stored, hv.scope, hv.imports, hv.nodup⟩
    · intro r
      apply h.graph_modify
      exact fun _ => rfl
    · rw [OrderedMap.keys_modify]
      exact h.nodes
    · intro id c hc
      rw [hget] at hc
      split at hc
      next he =>
        cases hc
        exact ⟨he.symm, he ▸ hf.stored, hkeep.keys hf.loaded,
          fun i hi => hkeep.imports (hf.imports i hi), hf.bodies⟩
      next =>
        have hc := h.files id c hc
        exact ⟨hc.file, hc.stored, hkeep.keys hc.loaded,
          fun i hi => hkeep.imports (hc.imports i hi), hc.bodies⟩
    · rw [hk, List.pairwise_append]
      refine ⟨h.order, List.pairwise_singleton _ _, ?_⟩
      intro a ha b hb
      rw [List.mem_singleton.1 hb]
      exact hf.newest a ha
    · intro r pkg hr
      have hfiles := filesOf_closeFile (c := ⟨f.file, f.package, f.imports, f.funcs⟩) hnew r
      rw [filesOf, hfiles, List.map_append]
      rcases OrderedMap.get?_modify_eq_some hr with ⟨rfl, old, ho, rfl⟩ | ⟨hne, ho⟩
      · rw [if_pos rfl, ← h.listed _ old ho]
        rfl
      · rw [if_neg (Ne.symm hne), ← h.listed r pkg ho]
        simp
  refine ⟨hvalid, ⟨.refl _, hkeep, ?_⟩, hk⟩
  intro id c hc
  have hne : id ≠ f.file := by
    rintro rfl
    exact hnew (OrderedMap.mem_keys_of_get? hc)
  rw [hget, if_neg hne, hc]

def DependsOn (p : Program) : PackagePath → PackagePath → Prop :=
  Relation.ReflTransGen p.Imports

theorem Valid.imports_iff {p : Program} (h : p.Valid) : p.graph.Imports q r ↔ p.Imports q r := by
  rw [ImportGraph.Imports, ImportGraph.targetsOf, h.graph, Imports]
  cases p.package? q with
  | none => simp
  | some pkg => simp

theorem Valid.mem_closure {p : Program} (h : p.Valid) :
    r ∈ (p.closure q).paths ↔ p.DependsOn q r := by
  have hi : p.graph.Imports = p.Imports := by
    funext a b
    exact propext h.imports_iff
  rw [closure, ImportGraph.mem_closure, ImportGraph.Reaches, DependsOn, hi]

theorem Valid.pathsAgree {p : Program} (h : p.Valid) : p.PathsAgree :=
  fun path pkg hp => (h.packages path pkg hp).stored

end Program

end SwitchCover
