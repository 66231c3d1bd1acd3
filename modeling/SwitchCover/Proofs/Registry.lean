import Mathlib.Data.List.Sort
import SwitchCover.Rule.Registry

namespace SwitchCover

namespace Scope

def memberOf? (table : TypeTable) (t : NamedType) :
    Nat × String × ConstDecl → Option EnumConstant
  | (index, name, decl) =>
    if table.asNamed decl.ty = some t then some ⟨name, index, decl.value⟩ else none

def constsOf (s : Scope) (table : TypeTable) (t : NamedType) : List EnumConstant :=
  s.consts.filterMap (memberOf? table t)

/-- The scope declares a constant of exactly the given type, with the name and the value and at
the position that are stated. -/
def DeclaresConst (s : Scope) (table : TypeTable) (t : NamedType) (k : EnumConstant) : Prop :=
  ∃ ty, s.items.entries[k.index]? = some (k.name, .const ⟨ty, k.value⟩) ∧
    table.asNamed ty = some t

theorem mem_consts {s : Scope} :
    (i, name, decl) ∈ s.consts ↔ s.items.entries[i]? = some (name, .const decl) := by
  rw [consts, List.mem_filterMap]
  constructor
  · rintro ⟨⟨⟨n, item⟩, j⟩, he, hc⟩
    cases item <;> cases hc
    exact List.mem_zipIdx_iff_getElem?.1 he
  · intro h
    exact ⟨((name, .const decl), i), List.mem_zipIdx_iff_getElem?.2 h, rfl⟩

theorem memberOf?_eq_some {c : Nat × String × ConstDecl} : memberOf? table t c = some k ↔
    ∃ ty, c = (k.index, k.name, ⟨ty, k.value⟩) ∧ table.asNamed ty = some t := by
  obtain ⟨index, name, ty, value⟩ := c
  rw [memberOf?]
  split
  next ht =>
    constructor
    · intro h
      cases h
      exact ⟨ty, rfl, ht⟩
    · rintro ⟨_, he, _⟩
      cases he
      rfl
  next ht =>
    constructor
    · intro h
      cases h
    · rintro ⟨_, he, ht'⟩
      cases he
      exact absurd ht' ht

theorem mem_constsOf {s : Scope} : k ∈ s.constsOf table t ↔ s.DeclaresConst table t k := by
  simp only [constsOf, List.mem_filterMap, memberOf?_eq_some, DeclaresConst, ← mem_consts]
  constructor
  · rintro ⟨_, hc, ty, rfl, ht⟩
    exact ⟨ty, hc, ht⟩
  · rintro ⟨ty, hc, ht⟩
    exact ⟨_, hc, ty, rfl, ht⟩

theorem pairwise_constsOf (s : Scope) (table : TypeTable) (t : NamedType) :
    (s.constsOf table t).Pairwise (·.index < ·.index) := by
  have hz : s.items.entries.zipIdx.Pairwise (·.2 < ·.2) := by
    rw [← List.pairwise_map (f := Prod.snd), List.zipIdx_map_snd]
    exact List.pairwise_lt_range'
  have hc : s.consts.Pairwise (·.1 < ·.1) := by
    apply List.Pairwise.filterMap _ _ hz
    rintro ⟨⟨_, item⟩, i⟩ ⟨⟨_, item'⟩, j⟩ hij c hc c' hc'
    cases item <;> cases hc
    cases item' <;> cases hc'
    exact hij
  apply List.Pairwise.filterMap _ _ hc
  intro c c' hlt k hk k' hk'
  obtain ⟨_, rfl, _⟩ := memberOf?_eq_some.1 hk
  obtain ⟨_, rfl, _⟩ := memberOf?_eq_some.1 hk'
  exact hlt

/-- Declaration order and members determine the list of constants. -/
theorem eq_constsOf_iff {s : Scope} : ks = s.constsOf table t ↔
    ks.Pairwise (·.index < ·.index) ∧ ∀ k, k ∈ ks ↔ s.DeclaresConst table t k := by
  constructor
  · rintro rfl
    exact ⟨s.pairwise_constsOf table t, fun _ => mem_constsOf⟩
  · rintro ⟨hp, hm⟩
    have : Std.Asymm (fun a b : EnumConstant => a.index < b.index) := ⟨fun _ _ => Nat.lt_asymm⟩
    apply List.Pairwise.eq_of_mem_iff hp (s.pairwise_constsOf table t)
    exact fun k => (hm k).trans mem_constsOf.symm

theorem lookup_of_mem_consts {s : Scope} (h : (i, name, decl) ∈ s.consts) :
    s.lookup name = some (.const decl) := by
  exact OrderedMap.get?_eq_some_iff.2 (List.mem_of_getElem? (mem_consts.1 h))

end Scope

namespace Program

/-- Constants of a type as its own package declares them, if the type is enum-like. -/
def enum? (p : Program) (kinds : IntegerKinds) (t : NamedType) : Option (List EnumConstant) :=
  (p.package? t.package).bind fun pkg =>
    if pkg.declaresEnum p.types kinds t ∧ pkg.scope.constsOf p.types t ≠ [] then
      some (pkg.scope.constsOf p.types t)
    else none

end Program

def Program.PathsAgree (p : Program) : Prop :=
  ∀ path pkg, p.package? path = some pkg → pkg.path = path

namespace Package

def nonempty? (ks : List EnumConstant) : Option (List EnumConstant) :=
  if ks = [] then none else some ks

theorem get?_addCandidate (table : TypeTable) (pkg : Package) (ht : t.package = pkg.path)
    (m : OrderedMap NamedType (List EnumConstant)) (hm : m.get? t = nonempty? ks)
    (c : Nat × String × ConstDecl) :
    (addCandidate table pkg m c).get? t = nonempty? (ks ++ (Scope.memberOf? table t c).toList) := by
  obtain ⟨index, name, decl⟩ := c
  simp only [addCandidate, Scope.memberOf?]
  have hd : (m.get? t).getD [] = ks := by
    rw [hm, nonempty?]
    split
    next h => exact h.symm
    next => rfl
  cases hn : table.asNamed decl.ty with
  | none => simpa using hm
  | some u =>
    by_cases hu : u = t
    · subst hu
      simp [ht, OrderedMap.get?_insert, hd, nonempty?]
    · have hne : t ≠ u := fun h => hu h.symm
      by_cases hp : u.package = pkg.path
      · simpa [hp, OrderedMap.get?_insert, hu, hne] using hm
      · simpa [hp, hu] using hm

theorem get?_addCandidate_foreign (table : TypeTable) (pkg : Package) (ht : t.package ≠ pkg.path)
    (m : OrderedMap NamedType (List EnumConstant)) (c : Nat × String × ConstDecl) :
    (addCandidate table pkg m c).get? t = m.get? t := by
  obtain ⟨index, name, decl⟩ := c
  simp only [addCandidate]
  cases table.asNamed decl.ty with
  | none => rfl
  | some u =>
    by_cases hp : u.package = pkg.path
    · have hne : t ≠ u := by
        rintro rfl
        exact ht hp
      simp [hp, OrderedMap.get?_insert, hne]
    · simp [hp]

/-- The groups of a package hold the constants of its own types and nothing else. -/
theorem get?_candidates (table : TypeTable) (pkg : Package) (t : NamedType) :
    (pkg.candidates table).get? t =
      if t.package = pkg.path then nonempty? (pkg.scope.constsOf table t) else none := by
  rw [candidates, Scope.constsOf]
  by_cases ht : t.package = pkg.path
  · rw [if_pos ht]
    suffices h : ∀ (cs : List (Nat × String × ConstDecl)) (m : OrderedMap NamedType _) ks,
        m.get? t = nonempty? ks → (cs.foldl (addCandidate table pkg) m).get? t =
          nonempty? (ks ++ cs.filterMap (Scope.memberOf? table t)) from h _ ∅ [] rfl
    intro cs
    induction cs with
    | nil =>
      intro m ks hm
      simpa using hm
    | cons c cs ih =>
      intro m ks hm
      rw [List.foldl_cons, ih _ _ (get?_addCandidate table pkg ht m hm c), List.filterMap_cons]
      cases Scope.memberOf? table t c <;> simp
  · rw [if_neg ht]
    suffices h : ∀ (cs : List (Nat × String × ConstDecl)) (m : OrderedMap NamedType _),
        (cs.foldl (addCandidate table pkg) m).get? t = m.get? t from h _ ∅
    intro cs
    induction cs with
    | nil => intro m; rfl
    | cons c cs ih =>
      intro m
      rw [List.foldl_cons, ih, get?_addCandidate_foreign table pkg ht]

end Package

namespace Registry

theorem constantsOf_addTypes (table : TypeTable) (kinds : IntegerKinds) (pkg : Package)
    (es : List (NamedType × List EnumConstant)) (hn : (es.map Prod.fst).Nodup) (r : Registry)
    (t : NamedType) :
    (es.foldl (fun r e => (addType table kinds pkg r e).value) r).constantsOf t =
      if pkg.declaresEnum table kinds t then (OrderedMap.find t es).or (r.constantsOf t)
      else r.constantsOf t := by
  induction es generalizing r with
  | nil => simp [OrderedMap.find]
  | cons e es ih =>
    obtain ⟨u, ks⟩ := e
    obtain ⟨hu, hn⟩ := List.nodup_cons.1 hn
    rw [List.foldl_cons, ih hn]
    simp only [OrderedMap.find, addType]
    by_cases htu : t = u
    · subst htu
      have hf : OrderedMap.find t es = none := OrderedMap.find_eq_none_iff.2 hu
      by_cases hd : pkg.declaresEnum table kinds t
      · simp [hd, hf, constantsOf, OrderedMap.get?_insert]
      · simp [hd]
    · by_cases hd : pkg.declaresEnum table kinds u
      · simp [hd, htu, constantsOf, OrderedMap.get?_insert]
      · simp [hd, htu]

theorem constantsOf_addPackage {program : Program} (hp : program.PathsAgree) (kinds : IntegerKinds)
    (r : Registry) (path : PackagePath) (t : NamedType) :
    (addPackage program kinds r path).value.constantsOf t =
      if t.package = path then (program.enum? kinds t).or (r.constantsOf t)
      else r.constantsOf t := by
  rw [addPackage]
  cases hpkg : program.package? path with
  | none =>
    by_cases ht : t.package = path
    · simp [ht, Program.enum?, hpkg]
    · simp [ht]
  | some pkg =>
    have hpath := hp path pkg hpkg
    simp only [Traced.value_foldl]
    rw [constantsOf_addTypes _ _ _ _ (pkg.candidates program.types).nodup]
    change (if _ then ((pkg.candidates program.types).get? t).or _ else _) = _
    rw [Package.get?_candidates, hpath]
    by_cases ht : t.package = path
    · simp only [ht, if_true, Program.enum?, hpkg, Option.bind_some, Package.nonempty?]
      by_cases hd : pkg.declaresEnum program.types kinds t <;>
        by_cases hc : pkg.scope.constsOf program.types t = [] <;> simp [hd, hc]
    · simp [ht]

/-- The one-pass registry answers every type as a scan of the type's own package does. -/
theorem constantsOf_build {program : Program} (hp : program.PathsAgree) (closure : Closure)
    (kinds : IntegerKinds) (t : NamedType) :
    (build program closure kinds).value.constantsOf t =
      if t.package ∈ closure.paths then program.enum? kinds t else none := by
  suffices h : ∀ (paths : List PackagePath) (r : Registry),
      (paths.foldl (fun r path => (addPackage program kinds r path).value) r).constantsOf t =
        if t.package ∈ paths then (program.enum? kinds t).or (r.constantsOf t)
        else r.constantsOf t by
    simpa [build, empty, constantsOf] using h closure.paths empty
  intro paths
  induction paths with
  | nil => intro r; simp
  | cons path paths ih =>
    intro r
    rw [List.foldl_cons, ih, constantsOf_addPackage hp]
    by_cases ht : t.package = path
    · cases program.enum? kinds t <;> simp [ht]
    · simp [ht]

end Registry

end SwitchCover
