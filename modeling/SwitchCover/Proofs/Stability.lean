import SwitchCover.Proofs.ScriptSteps

namespace SwitchCover

namespace ScopeItem

def typeDecl? : ScopeItem → Option TypeDecl
  | type decl => some decl
  | _ => none

end ScopeItem

theorem Scope.typeDecl?_eq (s : Scope) (name : String) :
    s.typeDecl? name = (s.lookup name).bind ScopeItem.typeDecl? := by
  rw [typeDecl?]
  cases s.lookup name with
  | none => rfl
  | some item => cases item <;> rfl

namespace Program

variable {p q : Program}

/-- The second program declares the same type names and still has the texts of the first. -/
structure Retains (p q : Program) : Prop where
  typeDecls : ∀ t, q.typeDecl? t = p.typeDecl? t
  texts : p.files.files <+: q.files.files

theorem Retains.refl (p : Program) : p.Retains p :=
  ⟨fun _ => rfl, List.prefix_refl _⟩

instance : IsTrans Program Retains where
  trans _ _ _ h h' :=
    ⟨fun t => (h'.typeDecls t).trans (h.typeDecls t), h.texts.trans h'.texts⟩

theorem typeDecl?_setScope (hp : p.package? path = some pkg)
    (hs : pkg.scope.declare? name item = some scope) (t : NamedType) :
    (p.setScope path scope).typeDecl? t =
      if t = ⟨path, name⟩ then item.typeDecl? else p.typeDecl? t := by
  obtain ⟨q, n⟩ := t
  by_cases hq : q = path
  · subst hq
    simp only [typeDecl?, package?_setScope hp, hp, Option.bind_some, Scope.typeDecl?_eq,
      Scope.lookup_of_declare? hs, NamedType.mk.injEq, true_and]
    by_cases hn : n = name
    · simp only [if_pos hn, Option.bind_some]
    · simp only [if_neg hn]
  · rw [if_neg (fun he => hq (NamedType.mk.inj he).1)]
    simp only [typeDecl?, package?, setScope, OrderedMap.get?_modify, if_neg hq]

theorem typeDecl?_eq_none (hp : p.package? path = some pkg)
    (hs : pkg.scope.declare? name item = some scope) : p.typeDecl? ⟨path, name⟩ = none := by
  have hn := (Scope.entries_of_declare? hs).1
  have hl : pkg.scope.lookup name = none := OrderedMap.get?_eq_none_iff.2 hn
  simp only [typeDecl?, hp, Option.bind_some, Scope.typeDecl?_eq, hl, Option.bind_none]

/-- The second program is the first with one more type name, whose underlying type is `u`. -/
structure Declares (p q : Program) (t : NamedType) (u : TyId) : Prop where
  fresh : p.typeDecl? t = none
  decl : ∃ decl, decl.underlying = u ∧
    ∀ s, q.typeDecl? s = if s = t then some decl else p.typeDecl? s
  texts : p.files.files <+: q.files.files

theorem Retains.declares (h : p.Retains q) (hd : q.Declares r t u) : p.Declares r t u := by
  obtain ⟨decl, hu, hall⟩ := hd.decl
  refine ⟨(h.typeDecls t).symm.trans hd.fresh, ⟨decl, hu, ?_⟩, h.texts.trans hd.texts⟩
  intro s
  rw [hall, h.typeDecls]

theorem Declares.retains (h : p.Declares q t u) (hr : q.Retains r) : p.Declares r t u := by
  obtain ⟨decl, hu, hall⟩ := h.decl
  exact ⟨h.fresh, ⟨decl, hu, fun s => (hr.typeDecls s).trans (hall s)⟩, h.texts.trans hr.texts⟩

theorem typeDecl?_modify (path : PackagePath) {f : Package → Package}
    (hf : ∀ pkg, (f pkg).scope = Package.scope pkg) (t : NamedType) :
    ((p.packages.modify path f).get? t.package).bind (fun pkg => pkg.scope.typeDecl? t.name) =
      p.typeDecl? t := by
  simp only [typeDecl?, package?, OrderedMap.get?_modify]
  split
  next => cases p.packages.get? t.package with
    | none => rfl
    | some pkg => simp only [Option.map_some, Option.bind_some, hf]
  next => rfl

theorem Changes.retains (hc : p.Changes c q)
    (ht : ∀ path name decl, c ≠ .declare path name (.type decl)) : p.Retains q := by
  cases hc with
  | package name hn =>
    refine ⟨?_, List.prefix_refl _⟩
    intro t
    simp only [typeDecl?, package?, OrderedMap.get?_append]
    split
    next he =>
      -- The new package declares nothing, and before it there was none under its path.
      rw [he, OrderedMap.get?_eq_none_iff.2 hn]
      rfl
    next => rfl
  | link hfrom hto =>
    refine ⟨fun t => typeDecl?_modify _ ?_ t, List.prefix_refl _⟩
    exact fun _ => rfl
  | types _ => exact ⟨fun _ => rfl, List.prefix_refl _⟩
  | @declare path pkg name item scope hp hs hi =>
    refine ⟨?_, List.prefix_refl _⟩
    intro t
    rw [typeDecl?_setScope hp hs]
    split
    next he =>
      rw [he, typeDecl?_eq_none hp hs]
      cases item with
      | type decl => exact absurd rfl (ht path name decl)
      | _ => rfl
    next => rfl
  | text source => exact ⟨fun _ => rfl, List.prefix_append _ _⟩
  | finish hf =>
    refine ⟨fun t => typeDecl?_modify _ ?_ t, List.prefix_refl _⟩
    exact fun _ => rfl

theorem Changes.declares (hc : p.Changes (.declare path name (.type decl)) q) :
    p.Declares q ⟨path, name⟩ decl.underlying := by
  cases hc with
  | declare hp hs hi =>
    exact ⟨typeDecl?_eq_none hp hs, ⟨decl, rfl, typeDecl?_setScope hp hs⟩, List.prefix_refl _⟩

/-- A type name can be declared once along a list of changes. -/
theorem Becomes.retains_or_declares (h : p.Becomes K q)
    (hK : ∀ c, K c → (∀ path name decl, c ≠ .declare path name (.type decl)) ∨
      ∃ decl, c = .declare t.package t.name (.type decl) ∧ decl.underlying = u) :
    p.Retains q ∨ p.Declares q t u := by
  induction h with
  | refl => exact .inl (.refl p)
  | tail _ hs ih =>
    obtain ⟨c, hc, hs⟩ := hs
    rcases hK c hc with hn | ⟨decl, rfl, rfl⟩
    · have hr := hs.retains hn
      exact ih.imp (fun h => trans_of Retains h hr) fun h => h.retains hr
    · have hd := hs.declares
      rcases ih with h | h
      · exact .inr (h.declares hd)
      · obtain ⟨d, -, hall⟩ := h.decl
        have hf := hd.fresh
        rw [hall, if_pos rfl] at hf
        cases hf

end Program

/-- The command declares the type name `t` through a referenced type, as a type of its own or as a
second name. -/
inductive Command.Names (ref : TypeRef) (t : NamedType) : Command → Prop where
  | define : Names ref t (.decl (.defineType ref t.package t.name))
  | rename : Names ref t (.decl (.aliasType ref t.package t.name))

theorem Command.Names.unique (h : Names ref t c) (h' : Names ref' t' c) : ref = ref' ∧ t = t' := by
  obtain ⟨package, name⟩ := t
  obtain ⟨package', name'⟩ := t'
  cases h <;> cases h' <;> exact ⟨rfl, rfl⟩

/-- Only a command that names a type may declare one, and through its reference. -/
theorem Command.May.names (h : May w r c (.declare path name (.type d))) :
    ∃ ref ty, Names ref ⟨path, name⟩ c ∧ ScriptM.internRef ref w = .ok ty { w with program := r } ∧
      d.underlying = w.program.behind r.types ty := by
  cases h with
  | defineType hr hu => exact ⟨_, _, .define, hr, hu⟩
  | aliasType hr hu => exact ⟨_, _, .rename, hr, hu⟩

theorem Command.May.same_type (h : May w r c (.declare path name (.type d)))
    (h' : May w r c (.declare path' name' (.type d'))) :
    path' = path ∧ name' = name ∧ d'.underlying = d.underlying := by
  obtain ⟨ref, ty, hn, hr, hu⟩ := h.names
  obtain ⟨ref', ty', hn', hr', hu'⟩ := h'.names
  obtain ⟨rfl, ht⟩ := hn.unique hn'
  cases ht
  cases hr.symm.trans hr'
  exact ⟨rfl, rfl, hu'.trans hu.symm⟩

namespace Workspace

/-- What a command records that declares `t` through `ty`: the type that stood behind `ty` before
the command. -/
structure Records (w v : Workspace) (t : NamedType) (ty : TyId) : Prop where
  has : v.program.types.Has ty
  program : w.program.Declares v.program t (w.program.behind v.program.types ty)

theorem Does.records {w v : Workspace} (hd : w.Does c e v) (h : w.Valid) :
    w.program.Retains v.program ∨ ∃ ref t ty u,
      c.Names ref t ∧ ScriptM.internRef ref w = .ok ty u ∧ w.Records v t ty := by
  obtain ⟨r, ht, hb⟩ := hd.changes h
  have hw : w.program.Retains r := ht.retains fun _ _ _ hc => by cases hc
  by_cases hn : ∃ path name decl, c.May w r (.declare path name (.type decl))
  · obtain ⟨path, name, decl, hm⟩ := hn
    obtain ⟨ref, ty, hn, hr, hu⟩ := hm.names
    have hv := ht.types_valid h.program
    have hty : r.types.Has ty := ScriptM.has_of_internRef h hr
    have hx := (hb.extends hv).2.types
    have hK (change : Change) (hm' : c.May w r change) :
        (∀ path name decl, change ≠ .declare path name (.type decl)) ∨
          ∃ d, change = .declare path name (.type d) ∧ d.underlying = decl.underlying := by
      by_cases hc : ∃ path name d, change = .declare path name (.type d)
      · obtain ⟨path', name', d, rfl⟩ := hc
        obtain ⟨rfl, rfl, hd⟩ := hm.same_type hm'
        exact .inr ⟨d, rfl, hd⟩
      · exact .inl fun path name d he => hc ⟨path, name, d, he⟩
    refine (hb.retains_or_declares (t := ⟨path, name⟩) hK).imp (trans_of Program.Retains hw) ?_
    intro hdecl
    refine ⟨ref, _, ty, _, hn, hr, hty.mono hx, ?_⟩
    -- The table may have grown since, on which the type behind `ty` does not depend.
    have hbehind : w.program.behind v.program.types ty = w.program.behind r.types ty := by
      simp only [Program.behind, hx.asNamed hty]
    rw [hbehind, ← hu]
    exact hw.declares hdecl
  · refine .inl (trans_of Program.Retains hw (hb.rel .refl (fun _ _ _ => trans_of _) ?_))
    intro change _ _ hm hc
    exact hc.retains fun path name decl he => hn ⟨path, name, decl, he ▸ hm⟩

variable {w : Workspace}

def type? (w : Workspace) (ref : TypeRef) : Option TyId :=
  match ScriptM.internRef ref w with
  | .ok ty _ => some ty
  | .error _ _ => none

structure Declares (w : Workspace) (c : Command) (t : NamedType) (ty : TyId) : Prop where
  names : ∃ ref, c.Names ref t ∧ w.type? ref = some ty
  fresh : w.program.typeDecl? t = none
  declared : ((w.after c).program.typeDecl? t).isSome

theorem after_records (h : w.Valid) (c : Command) :
    w.program.Retains (w.after c).program ∨
      ∃ t ty, w.Declares c t ty ∧ w.Records (w.after c) t ty := by
  refine ((after_does h c).records h).imp_right ?_
  rintro ⟨ref, t, ty, u, hn, hr, hv⟩
  obtain ⟨decl, -, hd⟩ := hv.program.decl
  refine ⟨t, ty, ⟨⟨ref, hn, ?_⟩, hv.program.fresh, ?_⟩, hv⟩
  · rw [type?, hr]
  · rw [hd, if_pos rfl]
    rfl

theorem after_texts (h : w.Valid) (c : Command) :
    w.program.files.files <+: (w.after c).program.files.files := by
  rcases after_records h c with hr | ⟨t, ty, -, hr⟩
  · exact hr.texts
  · exact hr.program.texts

theorem Declares.records (h : w.Valid) (hd : w.Declares c t ty) :
    w.Records (w.after c) t ty := by
  rcases after_records h c with hr | ⟨t', ty', hd', hr⟩
  · have hs := hd.declared
    rw [hr.typeDecls, hd.fresh] at hs
    cases hs
  · obtain ⟨ref, hn, hi⟩ := hd.names
    obtain ⟨ref', hn', hi'⟩ := hd'.names
    obtain ⟨rfl, rfl⟩ := hn.unique hn'
    cases hi.symm.trans hi'
    exact hr

end Workspace

end SwitchCover
