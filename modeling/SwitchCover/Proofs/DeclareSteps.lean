import SwitchCover.Proofs.Changes
import SwitchCover.Proofs.Outcomes

namespace SwitchCover

/-- The name at a position of a list is declared already or stands earlier in the list. -/
def Taken (declared names : List String) (k : Nat) : Prop :=
  ∃ name, names[k]? = some name ∧ (name ∈ declared ∨ name ∈ names.take k)

theorem taken_cons_zero : Taken declared (name :: names) 0 ↔ name ∈ declared := by
  simp [Taken]

theorem taken_cons_succ :
    Taken declared (name :: names) (k + 1) ↔ Taken (declared ++ [name]) names k := by
  simp [Taken, or_assoc]

namespace Program

variable {p : Program}

/-- How many names of a list can be declared in a package: those before the first one that is
taken, and none in an unknown package. -/
def StopsAt (p : Program) (path : PackagePath) (names : List String) (k : Nat) : Prop :=
  match p.package? path with
  | none => k = 0
  | some pkg =>
    Taken pkg.scope.items.keys names k ∧ ∀ j < k, ¬ Taken pkg.scope.items.keys names j

/-- The second program has at the end of a package constants of one type, with consecutive values
from `first` on, and is otherwise the first one. -/
def AddsConsts (p q : Program) (path : PackagePath) (ty : TyId) (first : Nat)
    (names : List String) : Prop :=
  ∃ scope : Scope, q = p.setScope path scope ∧ ∀ pkg, p.package? path = some pkg →
    scope.items.entries = pkg.scope.items.entries ++
      (names.zipIdx first).map fun x => (x.1, .const ⟨ty, some (.int x.2)⟩)

theorem setScope_setScope (p : Program) (path : PackagePath) (s t : Scope) :
    (p.setScope path s).setScope path t = p.setScope path t := by
  simp only [setScope, OrderedMap.modify_modify]
  rfl

theorem setScope_eq_self (h : ∀ pkg, p.package? path = some pkg → pkg.scope = scope) :
    p.setScope path scope = p := by
  rw [setScope, OrderedMap.modify_eq_self]
  intro pkg hp
  rw [← h pkg hp]

theorem addsConsts_nil (p : Program) (path : PackagePath) (ty : TyId) (first : Nat) :
    p.AddsConsts p path ty first [] := by
  cases hp : p.package? path with
  | none =>
    refine ⟨.empty, (setScope_eq_self ?_).symm, ?_⟩ <;> intro pkg h <;> cases hp.symm.trans h
  | some pkg =>
    refine ⟨pkg.scope, (setScope_eq_self ?_).symm, ?_⟩ <;> intro pkg' h <;> cases hp.symm.trans h
    · rfl
    · exact (List.append_nil _).symm

theorem AddsConsts.cons {first : Nat} (hp : p.package? path = some pkg)
    (hs : pkg.scope.declare? name (.const ⟨ty, some (.int first)⟩) = some scope)
    (h : (p.setScope path scope).AddsConsts q path ty (first + 1) names) :
    p.AddsConsts q path ty first (name :: names) := by
  obtain ⟨scope', rfl, he⟩ := h
  refine ⟨scope', setScope_setScope p path scope scope', ?_⟩
  intro pkg' hp'
  cases hp.symm.trans hp'
  rw [he _ (package?_setScope hp scope), (Scope.entries_of_declare? hs).2, List.append_assoc]
  rfl

theorem StopsAt.cons (hp : p.package? path = some pkg)
    (hs : pkg.scope.declare? name item = some scope)
    (h : (p.setScope path scope).StopsAt path names k) :
    p.StopsAt path (name :: names) (k + 1) := by
  obtain ⟨hn, he⟩ := Scope.entries_of_declare? hs
  have hk : scope.items.keys = pkg.scope.items.keys ++ [name] := by
    simp only [OrderedMap.keys, he, List.map_append, List.map_cons, List.map_nil]
  simp only [StopsAt, package?_setScope hp, hk] at h
  simp only [StopsAt, hp]
  refine ⟨taken_cons_succ.2 h.1, ?_⟩
  intro j hj ht
  cases j with
  | zero => exact hn (taken_cons_zero.1 ht)
  | succ j => exact h.2 j (Nat.lt_of_succ_lt_succ hj) (taken_cons_succ.1 ht)

/-- The type behind a type of a table, as the program declares it now. -/
def behind (p : Program) (types : TypeTable) (ty : TyId) : TyId :=
  match (types.asNamed ty).bind p.typeDecl? with
  | some decl => decl.underlying
  | none => ty

theorem Valid.has_behind (h : p.Valid) (ht : p.types.Has ty) :
    p.types.Has (p.behind p.types ty) := by
  rw [behind]
  split
  next decl hd =>
    obtain ⟨t, _, hd⟩ := Option.bind_eq_some_iff.1 hd
    obtain ⟨pkg, hp, hd⟩ := Option.bind_eq_some_iff.1 hd
    have hl := Scope.lookup_of_typeDecl? hd
    exact ((h.packages _ pkg hp).scope _ _ hl).has _ (List.mem_cons_of_mem _ List.mem_cons_self)
  next => exact ht

end Program

def Change.Declares (path : PackagePath) (name : String) (I : ScopeItem → Prop) (c : Change) :
    Prop :=
  c = .types ∨ ∃ item, I item ∧ c = .declare path name item

namespace DeclM

variable {p : Program}

theorem requirePackage_eq (p : Program) (path : PackagePath) :
    requirePackage path p = match p.package? path with
      | some pkg => .ok pkg p
      | none => .error (.build (.unknownPackage path)) p := by
  change (match p.package? path with
    | some pkg => pure pkg
    | none => fail (.unknownPackage path) : DeclM Package) p = _
  cases p.package? path <;> rfl

theorem requirePackage_bind {k : Package → DeclM α}
    (hk : ∀ pkg, p.package? path = some pkg → Outcome p (k pkg) Q E) (hE : ∀ e, E e p) :
    Outcome p (requirePackage path >>= k) Q E := by
  simp only [Outcome, bind, EStateM.bind, requirePackage_eq]
  cases hp : p.package? path with
  | none => exact hE _
  | some pkg => exact hk pkg hp

theorem addPackage_outcome (p : Program) (path : PackagePath) (name : String) :
    Outcome p (addPackage path name) (fun _ q => p.Changes (.package path name) q)
      fun _ q => q = p := by
  apply Outcome.get
  split
  next => rfl
  next hn => exact .package name hn

theorem addImport_outcome (p : Program) (importer imported : PackagePath) :
    Outcome p (addImport importer imported) (fun _ q => p.Changes (.link importer imported) q)
      fun _ q => q = p := by
  apply requirePackage_bind
  · intro _ hto
    apply requirePackage_bind
    · intro _ hfrom
      exact .link (OrderedMap.mem_keys_of_get? hfrom) (OrderedMap.mem_keys_of_get? hto)
    · exact fun _ => rfl
  · exact fun _ => rfl

theorem declare_eq (path : PackagePath) (name : String) (item : ScopeItem) (p : Program) :
    declare path name item p = match p.package? path with
      | none => .error (.build (.unknownPackage path)) p
      | some pkg =>
        match pkg.scope.declare? name item with
        | none => .error (.build (.duplicateDeclaration path name)) p
        | some scope => .ok () (p.setScope path scope) := by
  cases hp : p.package? path with
  | none => simp only [declare, bind, EStateM.bind, requirePackage_eq, hp]
  | some pkg =>
    simp only [declare, bind, EStateM.bind, requirePackage_eq, hp]
    cases pkg.scope.declare? name item <;> rfl

/-- A declaration fails only if no name of a list that starts with it can be declared. -/
theorem declare_outcome (hi : item.Valid p.types ⟨path, name⟩) :
    Outcome p (declare path name item)
      (fun _ q => ∃ pkg scope, p.package? path = some pkg ∧
        pkg.scope.declare? name item = some scope ∧ q = p.setScope path scope ∧
        p.Changes (.declare path name item) q)
      fun _ q => q = p ∧ ∀ names, p.StopsAt path (name :: names) 0 := by
  cases hp : p.package? path with
  | none => simp only [Outcome, declare_eq, hp, Program.StopsAt, implies_true, and_self]
  | some pkg =>
    cases hs : pkg.scope.declare? name item with
    | none =>
      simp only [Outcome, declare_eq, hp, hs, Program.StopsAt, true_and]
      intro names
      refine ⟨taken_cons_zero.2 ?_, fun j hj => absurd hj (Nat.not_lt_zero j)⟩
      by_contra hn
      rw [Scope.declare?, dif_neg hn] at hs
      cases hs
    | some scope =>
      simp only [Outcome, declare_eq, hp, hs]
      exact ⟨pkg, scope, rfl, hs, rfl, .declare hp hs hi⟩

theorem declare_return_outcome (h : p.Valid) (hi : item.Valid p.types ⟨path, name⟩)
    (ht : p.types.Has ty) (hI : I item) :
    Outcome p (do declare path name item; return ty)
      (fun t q => q.types.Has t ∧ p.Becomes (Change.Declares path name I) q)
      fun _ q => p.Changes .types q := by
  apply (declare_outcome hi).bind
  · rintro _ q _ ⟨_, _, -, -, -, hc⟩
    have hq := hc.leads h fun f hf => by cases hf
    exact ⟨ht.mono hq.2.types, hc.becomes (.inr ⟨item, hI, rfl⟩)⟩
  · rintro e _ ⟨rfl, -⟩
    exact .types_refl h

/-- A type that is added to the table before a declaration that fails stays in it. -/
theorem intern_declare_outcome {item : TyId → ScopeItem} (h : p.Valid)
    (hd : ∀ c ∈ TyData.components data, p.types.Has c)
    (hi : ∀ table ty, p.types.Leads table → table.data? ty = some data →
      (item ty).Valid table ⟨path, name⟩)
    (hI : ∀ ty, I (item ty)) :
    Outcome p (do let ty ← intern data; declare path name (item ty); return ty)
      (fun t q => q.types.Has t ∧ p.Becomes (Change.Declares path name I) q)
      fun _ q => p.Changes .types q := by
  have ht : p.types.Leads (p.types.intern data).2 :=
    ⟨h.types.intern hd, p.types.intern_extends data⟩
  have hc : p.Changes .types { p with types := (p.types.intern data).2 } := .types ht
  have hq := hc.types_valid h
  have hdata := p.types.data?_intern data
  apply (declare_return_outcome hq (hi _ _ ht hdata) (TypeTable.has_of_data? hdata) (hI _)).mono
  · exact fun t q hb => ⟨hb.1, (hc.becomes (.inl rfl)).trans hb.2⟩
  · exact fun _ q hb => hc.types_trans hb

theorem underlying_eq (p : Program) (ty : TyId) :
    underlying ty p = .ok (p.behind p.types ty) p := by
  change (match (p.types.asNamed ty).bind p.typeDecl? with
    | some decl => pure decl.underlying
    | none => pure ty : DeclM TyId) p = _
  rw [Program.behind]
  cases (p.types.asNamed ty).bind p.typeDecl? <;> rfl

theorem underlying_bind {k : TyId → DeclM α} (hk : Outcome p (k (p.behind p.types ty)) Q E) :
    Outcome p (underlying ty >>= k) Q E := by
  simpa only [Outcome, bind, EStateM.bind, underlying_eq] using hk

def IsTypeOver (u : TyId) (item : ScopeItem) : Prop :=
  ∃ decl, item = .type decl ∧ decl.underlying = u

theorem defineType_outcome (h : p.Valid) (ht : p.types.Has ty) (path : PackagePath)
    (name : String) :
    Outcome p (defineType ty path name) (fun t q => q.types.Has t ∧
        p.Becomes (Change.Declares path name (IsTypeOver (p.behind p.types ty))) q)
      fun _ q => p.Changes .types q := by
  apply underlying_bind
  apply intern_declare_outcome h
  · exact fun c hc => by cases hc
  · intro table t hl hd
    constructor
    · intro v hv
      simp only [ScopeItem.types, List.mem_cons, List.not_mem_nil, or_false] at hv
      rcases hv with rfl | rfl
      · exact TypeTable.has_of_data? hd
      · exact (h.has_behind ht).mono hl.2
    · intro decl he _
      cases he
      simp only [TypeTable.asNamed, hd]
  · exact fun t => ⟨_, rfl, rfl⟩

theorem aliasType_outcome (h : p.Valid) (ht : p.types.Has ty) (path : PackagePath)
    (name : String) :
    Outcome p (aliasType ty path name) (fun t q => q.types.Has t ∧
        p.Becomes (Change.Declares path name (IsTypeOver (p.behind p.types ty))) q)
      fun _ q => p.Changes .types q := by
  apply underlying_bind
  refine declare_return_outcome h ?_ ht ⟨_, rfl, rfl⟩
  constructor
  · intro v hv
    simp only [ScopeItem.types, List.mem_cons, List.not_mem_nil, or_false] at hv
    rcases hv with rfl | rfl
    · exact ht
    · exact h.has_behind ht
  · intro decl he ha
    cases he
    cases ha

theorem valid_of_has (hi : ∀ decl, item ≠ ScopeItem.type decl)
    (ht : ∀ ty ∈ item.types, table.Has ty) :
    item.Valid table t :=
  ⟨ht, fun decl he => absurd he (hi decl)⟩

theorem valid_const (ht : table.Has ty) (value : Option ConstValue) (t : NamedType) :
    (ScopeItem.const ⟨ty, value⟩).Valid table t :=
  valid_of_has (by simp) (by simpa [ScopeItem.types] using ht)

theorem valid_var (ht : table.Has ty) (t : NamedType) : (ScopeItem.var ty).Valid table t :=
  valid_of_has (by simp) (by simpa [ScopeItem.types] using ht)

theorem declareFunc_outcome (h : p.Valid) (hp : ∀ ty ∈ params, p.types.Has ty)
    (hr : ∀ ty ∈ results, p.types.Has ty) (path : PackagePath) (name : String) :
    Outcome p (declareFunc params results path name) (fun t q => q.types.Has t ∧
        p.Becomes (Change.Declares path name fun item => ∃ ty, item = .func ty) q)
      fun _ q => p.Changes .types q := by
  apply intern_declare_outcome h
  · intro c hc
    rcases List.mem_append.1 hc with hc | hc
    · exact hp c hc
    · exact hr c hc
  · intro table t _ hd
    exact valid_of_has (by simp) (by simpa [ScopeItem.types] using TypeTable.has_of_data? hd)
  · exact fun ty => ⟨ty, rfl⟩

/-- Constants are declared one by one; a name that cannot be declared leaves those before it. -/
theorem declareIota_outcome (h : p.Valid) (ht : p.types.Has ty) (path : PackagePath) (first : Nat)
    (names : List String) (K : Change → Prop)
    (hK : ∀ name ∈ names, ∀ decl, K (.declare path name (.const decl))) :
    Outcome p (declareIota ty path first names) (fun _ q => p.Becomes K q) fun _ q =>
      p.Becomes K q ∧
        ∃ k, p.StopsAt path names k ∧ p.AddsConsts q path ty first (names.take k) := by
  induction names generalizing p first with
  | nil => exact .refl p
  | cons name names ih =>
    apply (declare_outcome (valid_const ht (some (.int first)) ⟨path, name⟩)).bind
    · rintro _ q _ ⟨pkg, scope, hp, hs, rfl, hc⟩
      have hq := hc.leads h fun f hf => by cases hf
      have hb := hc.becomes (hK name List.mem_cons_self _)
      apply (ih hq.1 (ht.mono hq.2.types) (first + 1) fun n hn => hK n (.tail _ hn)).mono
      · exact fun _ r hr => hb.trans hr
      · rintro e r ⟨hr, k, hk, ha⟩
        exact ⟨hb.trans hr, k + 1, hk.cons hp hs, ha.cons hp hs⟩
    · rintro e _ ⟨rfl, hs⟩
      exact ⟨.refl _, 0, hs names, Program.addsConsts_nil _ path ty first⟩

theorem openFile_outcome (p : Program) (package : PackagePath) (path text : String) :
    Outcome p (openFile package path text)
      (fun f q => package ∈ p.packages.keys ∧
        q = { p with files := (p.files.add ⟨path, text⟩).2 } ∧
        f = ⟨(p.files.add ⟨path, text⟩).1, package, [], [], 0⟩)
      fun _ q => q = p := by
  apply requirePackage_bind
  · exact fun pkg hp => ⟨OrderedMap.mem_keys_of_get? hp, rfl, rfl⟩
  · exact fun _ => rfl

end DeclM

end SwitchCover
