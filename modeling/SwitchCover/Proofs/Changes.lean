import SwitchCover.Proofs.ProgramValid

namespace SwitchCover

def TypeTable.Leads (s t : TypeTable) : Prop :=
  t.Valid ∧ s.Extends t

instance : IsTrans TypeTable TypeTable.Leads where
  trans _ _ _ h h' := ⟨h'.1, h.2.trans h'.2⟩

theorem TypeTable.Valid.leads {table : TypeTable} (h : table.Valid) : table.Leads table :=
  ⟨h, .refl table⟩

namespace Scope

theorem lookup_of_typeDecl? {s : Scope} (h : s.typeDecl? name = some decl) :
    s.lookup name = some (.type decl) := by
  simp only [typeDecl?] at h
  split at h
  next hl => rw [hl, Option.some.inj h]
  next => cases h

theorem entries_of_declare? {s : Scope} (h : s.declare? name item = some s') :
    name ∉ s.items.keys ∧ s'.items.entries = s.items.entries ++ [(name, item)] := by
  rw [declare?] at h
  split at h
  next => cases h
  next hn =>
    cases h
    exact ⟨hn, rfl⟩

theorem lookup_of_declare? {s : Scope} (h : s.declare? name item = some s') (n : String) :
    s'.lookup n = if n = name then some item else s.lookup n := by
  rw [declare?] at h
  split at h
  next => cases h
  next hn =>
    cases h
    exact OrderedMap.get?_append s.items n name item hn

end Scope

namespace Program

variable {p q : Program}

/-- A later state of a program under construction. -/
def Leads (p q : Program) : Prop :=
  q.Valid ∧ p.Grows q

theorem Valid.leads (h : p.Valid) : p.Leads p :=
  ⟨h, .refl p⟩

theorem Leads.trans (h : p.Leads q) (h' : q.Leads r) : p.Leads r :=
  ⟨h'.1, h.2.trans h'.2⟩

def setScope (p : Program) (path : PackagePath) (scope : Scope) : Program :=
  { p with packages := p.packages.modify path fun pkg => { pkg with scope } }

theorem package?_setScope (hp : p.package? path = some pkg) (scope : Scope) :
    (p.setScope path scope).package? path = some { pkg with scope } := by
  rw [package?, setScope, OrderedMap.get?_modify, if_pos rfl]
  exact congrArg (Option.map _) hp

theorem package?_setScope_of_ne {other : PackagePath} (hn : other ≠ path) (p : Program)
    (scope : Scope) : (p.setScope path scope).package? other = p.package? other := by
  rw [package?, setScope, OrderedMap.get?_modify, if_neg hn]
  rfl

theorem Valid.setScope (h : p.Valid) (hp : p.package? path = some pkg)
    (hs : pkg.scope.declare? name item = some scope) (hi : item.Valid p.types ⟨path, name⟩) :
    p.Leads (p.setScope path scope) := by
  refine h.modifyPackage path (fun _ => rfl) (fun _ => rfl) ?_ ?_
  · intro pkg' hp'
    cases hp.symm.trans hp'
    refine ⟨?_, List.prefix_refl _⟩
    rw [(Scope.entries_of_declare? hs).2]
    exact List.prefix_append _ _
  · intro pkg' hp'
    cases hp.symm.trans hp'
    have hv := h.packages path pkg hp
    refine ⟨hv.stored, ?_, hv.imports, hv.nodup⟩
    intro n item' hl
    rw [Scope.lookup_of_declare? hs] at hl
    split at hl
    next he =>
      cases hl
      exact he ▸ hi
    next => exact hv.scope n item' hl

end Program

/-- What construction changes in a program. -/
inductive Change where
  | package (path : PackagePath) (name : String)
  | link (importer imported : PackagePath)
  | types
  | declare (path : PackagePath) (name : String) (item : ScopeItem)
  | text
  | finish (f : OpenFile)

/-- A change of a program, with the conditions under which construction makes it. -/
inductive Program.Changes (p : Program) : Change → Program → Prop where
  | package (name : String) (hn : path ∉ p.packages.keys) :
    Changes p (.package path name) { p with
      graph := p.graph.addPackage path
      packages := p.packages.append path ⟨path, name, [], .empty, []⟩ hn }
  | link (hfrom : importer ∈ p.packages.keys) (hto : imported ∈ p.packages.keys) :
    Changes p (.link importer imported) { p with
      packages := p.packages.modify importer fun pkg => { pkg with
        imports := if imported ∈ pkg.imports then pkg.imports else pkg.imports ++ [imported] }
      graph := p.graph.addImport importer imported }
  | types (ht : p.types.Leads table) : Changes p .types { p with types := table }
  | declare (hp : p.package? path = some pkg) (hs : pkg.scope.declare? name item = some scope)
    (hi : item.Valid p.types ⟨path, name⟩) :
    Changes p (.declare path name item) (p.setScope path scope)
  | text (source : SourceText) : Changes p .text { p with files := (p.files.add source).2 }
  | finish (hf : f.Valid p) :
    Changes p (.finish f) { p with
      packages := p.packages.modify f.package fun pkg => { pkg with files := pkg.files ++ [f.file] }
      checkedFiles := p.checkedFiles.insert f.file ⟨f.file, f.package, f.imports, f.funcs⟩ }

namespace Program

variable {p q : Program}

theorem size_add (store : FileStore) (source : SourceText) :
    (store.add source).2.size = store.size + 1 := by
  simp only [FileStore.add, FileStore.size, List.length_append, List.length_singleton]

theorem Changes.leads (hc : p.Changes c q) (h : p.Valid) (hf : ∀ f, c ≠ .finish f) :
    p.Leads q := by
  cases hc with
  | package name hn => exact h.addPackage name hn
  | link hfrom hto => exact h.addImport hfrom hto
  | types ht => exact h.setTypes ht.2 ht.1
  | declare hp hs hi => exact h.setScope hp hs hi
  | text source =>
    apply h.setFiles
    rw [size_add]
    exact Nat.le_succ _
  | finish => exact absurd rfl (hf _)

theorem Changes.extends (hc : p.Changes c q) (h : p.Valid) : q.Valid ∧ p.Extends q := by
  by_cases hf : ∃ f, c = .finish f
  · obtain ⟨f, rfl⟩ := hf
    cases hc with
    | finish hf =>
      obtain ⟨hv, he, -⟩ := h.closeFile hf
      exact ⟨hv, he⟩
  · obtain ⟨hv, hg⟩ := hc.leads h fun f he => hf ⟨f, he⟩
    exact ⟨hv, hg.extends⟩

theorem Changes.imports (hc : p.Changes (.link importer imported) q) :
    q.Imports importer imported := by
  cases hc with
  | link hfrom hto => exact imports_addImport hfrom _ _

theorem Changes.types_refl (h : p.Valid) : p.Changes .types p :=
  .types h.types.leads

theorem Changes.types_valid (hc : p.Changes .types q) (h : p.Valid) : q.Valid :=
  (hc.leads h fun f hf => by cases hf).1

theorem Changes.types_extends (hc : p.Changes .types q) : p.types.Extends q.types := by
  cases hc with
  | types ht => exact ht.2

theorem Changes.types_trans (hc : p.Changes .types q) (hc' : q.Changes .types r) :
    p.Changes .types r := by
  cases hc with
  | types ht =>
    cases hc' with
    | types ht' => exact .types (trans_of TypeTable.Leads ht ht')

def Becomes (K : Change → Prop) (p q : Program) : Prop :=
  Relation.ReflTransGen (fun p q => ∃ c, K c ∧ p.Changes c q) p q

theorem Changes.becomes (hc : p.Changes c q) (hK : K c) : p.Becomes K q :=
  .single ⟨c, hK, hc⟩

variable {K : Change → Prop}

theorem Becomes.refl (p : Program) : p.Becomes K p :=
  Relation.ReflTransGen.refl

theorem Becomes.trans (h : p.Becomes K q) (h' : q.Becomes K r) : p.Becomes K r :=
  Relation.ReflTransGen.trans h h'

/-- A relation holds along changes if it holds for each of them. -/
theorem Becomes.rel {R : Program → Program → Prop} (h : p.Becomes K q) (hr : ∀ p, R p p)
    (ht : ∀ p q r, R p q → R q r → R p r) (hc : ∀ c p q, K c → p.Changes c q → R p q) :
    R p q := by
  induction h with
  | refl => exact hr p
  | tail _ hs ih =>
    obtain ⟨c, hK, hs⟩ := hs
    exact ht _ _ _ ih (hc c _ _ hK hs)

theorem Becomes.mono (h : p.Becomes K q) (hK : ∀ c, K c → K' c) : p.Becomes K' q :=
  h.rel .refl (fun _ _ _ => .trans) fun c _ _ hc hs => hs.becomes (hK c hc)

theorem Becomes.extends (h : p.Becomes K q) (hp : p.Valid) : q.Valid ∧ p.Extends q := by
  apply h.rel (R := fun p q => p.Valid → q.Valid ∧ p.Extends q)
  · exact fun p hp => ⟨hp, .refl p⟩
  · intro p q r h h' hp
    obtain ⟨hq, he⟩ := h hp
    obtain ⟨hr, he'⟩ := h' hq
    exact ⟨hr, he.trans he'⟩
  · exact fun c p q _ hc hp => hc.extends hp
  · exact hp

theorem Becomes.leads (h : p.Becomes K q) (hp : p.Valid) (hf : ∀ f, ¬K (.finish f)) :
    p.Leads q := by
  apply h.rel (R := fun p q => p.Valid → p.Leads q)
  · exact fun p hp => hp.leads
  · exact fun p q r h h' hp => (h hp).trans (h' (h hp).1)
  · intro c p q hK hc hp
    apply hc.leads hp
    rintro f rfl
    exact hf f hK
  · exact hp

end Program

end SwitchCover
