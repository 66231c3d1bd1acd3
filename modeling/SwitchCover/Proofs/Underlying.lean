import Mathlib.Data.List.Induction
import SwitchCover.Proofs.Stability

namespace SwitchCover.Workspace

def DeclaredThrough (cs before : List Command) (t : NamedType) (ty : TyId) : Prop :=
  ∃ c, before ++ [c] <+: cs ∧ (empty.run before).Declares c t ty

def DefinedBy (cs : List Command) (t u : NamedType) : Prop :=
  ∃ before ty, DeclaredThrough cs before t ty ∧ (empty.run cs).program.types.asNamed ty = some u

/-- The script declares `t` through a chain of named types that ends in a primitive type, each
declared before the name that is declared through it. -/
inductive DownTo (prim : PrimType) : List Command → NamedType → Prop where
  | base (h : DeclaredThrough cs before t ty)
    (hp : (empty.run cs).program.types.asPrim ty = some prim) : DownTo prim cs t
  | link (h : DeclaredThrough cs before t ty)
    (hu : (empty.run cs).program.types.asNamed ty = some u) (hd : DownTo prim before u) :
    DownTo prim cs t

/-- The type at the end of the chain of names that starts with `t`. A name is followed only if it
was declared before the one that is declared through it. -/
inductive Resolves : List Command → NamedType → TyId → Prop where
  | stop (h : DeclaredThrough cs before t ty)
    (hn : ∀ u, (empty.run cs).program.types.asNamed ty = some u →
      (empty.run before).program.typeDecl? u = none) : Resolves cs t ty
  | follow (h : DeclaredThrough cs before t ty)
    (hu : (empty.run cs).program.types.asNamed ty = some u) (hr : Resolves before u v) :
    Resolves cs t v

variable {cs ds before : List Command} {t u : NamedType} {ty : TyId}

theorem run_split (h : ds <+: cs) : ∃ more, empty.run cs = (empty.run ds).run more := by
  obtain ⟨more, rfl⟩ := h
  exact ⟨more, List.foldl_append⟩

theorem types_extends (h : ds <+: cs) :
    (empty.run ds).program.types.Extends (empty.run cs).program.types := by
  obtain ⟨more, hr⟩ := run_split h
  rw [hr]
  exact (run_steps (run_valid ds) more).program.types

theorem asNamed_mono (h : ds <+: cs)
    (hn : (empty.run ds).program.types.asNamed ty = some u) :
    (empty.run cs).program.types.asNamed ty = some u := by
  rw [(types_extends h).asNamed]
  · exact hn
  · simp only [TypeTable.asNamed] at hn
    split at hn
    next hd => exact TypeTable.has_of_data? hd
    next => cases hn

theorem typeDecl?_mono (h : ds <+: cs) (hd : (empty.run ds).program.typeDecl? t = some decl) :
    (empty.run cs).program.typeDecl? t = some decl := by
  induction cs using List.reverseRecOn with
  | nil =>
    rw [List.prefix_nil.1 h] at hd
    exact hd
  | append_singleton cs c ih =>
    rcases List.prefix_concat_iff.1 h with rfl | h
    · exact hd
    · rw [run_concat]
      rcases after_records (run_valid cs) c with hr | ⟨s, ty, -, hr⟩
      · rw [hr.typeDecls, ih h]
      · obtain ⟨_, -, hall⟩ := hr.program.decl
        rw [hall, if_neg, ih h]
        rintro rfl
        cases (ih h).symm.trans hr.program.fresh

theorem DeclaredThrough.mono (h : DeclaredThrough ds before t ty) (hp : ds <+: cs) :
    DeclaredThrough cs before t ty := by
  obtain ⟨c, hc, hd⟩ := h
  exact ⟨c, hc.trans hp, hd⟩

theorem DeclaredThrough.earlier (h : DeclaredThrough cs before t ty) : before <+: cs := by
  obtain ⟨c, hc, -⟩ := h
  exact (List.prefix_append _ _).trans hc

/-- What the declaration of `t` records, in the words of any later program. -/
theorem DeclaredThrough.recorded (h : DeclaredThrough cs before t ty) :
    (empty.run cs).program.types.Has ty ∧
      ∃ decl, (empty.run cs).program.typeDecl? t = some decl ∧ decl.underlying =
        (empty.run before).program.behind (empty.run cs).program.types ty := by
  obtain ⟨c, hc, hd⟩ := h
  have hr := hd.records (run_valid before)
  rw [← run_concat] at hr
  obtain ⟨decl, hu, hall⟩ := hr.program.decl
  refine ⟨hr.has.mono (types_extends hc), decl, typeDecl?_mono hc ?_, ?_⟩
  · rw [hall, if_pos rfl]
  · rw [hu, Program.behind, Program.behind, (types_extends hc).asNamed hr.has]

theorem Resolves.has (h : Resolves cs t ty) : (empty.run cs).program.types.Has ty := by
  induction h with
  | stop h _ => exact h.recorded.1
  | follow h _ _ ih => exact ih.mono (types_extends h.earlier)

theorem Resolves.mono (h : Resolves ds t ty) (hp : ds <+: cs) : Resolves cs t ty := by
  cases h with
  | stop h hn =>
    refine .stop (h.mono hp) ?_
    intro u hu
    rw [(types_extends hp).asNamed h.recorded.1] at hu
    exact hn u hu
  | follow h hu hr => exact .follow (h.mono hp) (asNamed_mono hp hu) hr

/-- The underlying type of a declared name is the end of its chain. -/
theorem resolves_iff (cs : List Command) (t : NamedType) (ty : TyId) :
    Resolves cs t ty ↔
      ∃ decl, (empty.run cs).program.typeDecl? t = some decl ∧ decl.underlying = ty := by
  constructor
  · intro h
    induction h with
    | stop h hn =>
      obtain ⟨-, decl, hd, hu⟩ := h.recorded
      refine ⟨decl, hd, ?_⟩
      rw [hu, Program.behind, Option.bind_eq_none_iff.2 hn]
    | follow h hn hr ih =>
      obtain ⟨decl', hd', rfl⟩ := ih
      obtain ⟨-, decl, hd, hu⟩ := h.recorded
      refine ⟨decl, hd, ?_⟩
      rw [hu, Program.behind, hn, Option.bind_some, hd']
  · intro h
    -- The chain was found when the name was declared, so the induction is on the commands.
    induction cs using List.reverseRecOn generalizing t ty with
    | nil =>
      obtain ⟨_, h, -⟩ := h
      cases h
    | append_singleton cs c ih =>
      obtain ⟨decl, hd, rfl⟩ := h
      have hp : cs <+: cs ++ [c] := List.prefix_append _ _
      have hold (hd : (empty.run cs).program.typeDecl? t = some decl) :
          Resolves (cs ++ [c]) t decl.underlying := (ih t _ ⟨decl, hd, rfl⟩).mono hp
      rcases after_records (run_valid cs) c with hr | ⟨s, ty, hs, hr⟩
      · rw [run_concat, hr.typeDecls] at hd
        exact hold hd
      · obtain ⟨decl', hu, hall⟩ := hr.program.decl
        have hd' := hd
        rw [run_concat, hall] at hd'
        split at hd'
        next he =>
          cases hd'
          subst he
          have hthrough : DeclaredThrough (cs ++ [c]) cs t ty := ⟨c, List.prefix_refl _, hs⟩
          rw [hu, Program.behind, ← run_concat]
          split
          next decl' hb =>
            obtain ⟨n, hn, hn'⟩ := Option.bind_eq_some_iff.1 hb
            exact .follow hthrough hn (ih n _ ⟨decl', hn', rfl⟩)
          next hb =>
            exact .stop hthrough (Option.bind_eq_none_iff.1 hb)
        next => exact hold hd'

theorem DefinedBy.mono (h : DefinedBy ds t u) (hp : ds <+: cs) : DefinedBy cs t u := by
  obtain ⟨before, ty, ht, hn⟩ := h
  exact ⟨before, ty, ht.mono hp, asNamed_mono hp hn⟩

/-- A chain that ends in a named type ends there because that type was declared too late. -/
theorem Resolves.late (h : Resolves cs t ty)
    (hn : (empty.run cs).program.types.asNamed ty = some u) :
    ∃ s before, Relation.ReflTransGen (DefinedBy cs) t s ∧ DeclaredThrough cs before s ty ∧
      (empty.run before).program.typeDecl? u = none := by
  induction h with
  | stop h hstop => exact ⟨_, _, .refl, h, hstop u hn⟩
  | follow h hu hr ih =>
    have hp := h.earlier
    rw [(types_extends hp).asNamed hr.has] at hn
    obtain ⟨s, before, hs, hlast, hnone⟩ := ih hn
    have hs := Relation.ReflTransGen.mono (fun _ _ hd => DefinedBy.mono hd hp) _ _ hs
    exact ⟨s, before, .head ⟨_, _, h, hu⟩ hs, hlast.mono hp, hnone⟩

theorem DownTo.resolves {prim : PrimType} (h : DownTo prim cs t) :
    ∃ ty, Resolves cs t ty ∧ (empty.run cs).program.types.asPrim ty = some prim := by
  induction h with
  | base h hp =>
    refine ⟨_, .stop h ?_, hp⟩
    intro u hu
    simp only [TypeTable.asNamed] at hu
    split at hu
    next hd =>
      simp only [TypeTable.asPrim, hd] at hp
      cases hp
    next => cases hu
  | link h hu hd ih =>
    obtain ⟨ty, hr, hty⟩ := ih
    refine ⟨ty, .follow h hu hr, ?_⟩
    rw [(types_extends h.earlier).asPrim hr.has, hty]

/-- The type recorded behind a type name. If it is a named type, then a name on the way to it was
declared before that type was; so a name that is declared through a chain down to a primitive type,
each link before the next, has that primitive type behind it. -/
theorem underlying_resolved (cs : List Command) (t : NamedType) :
    (∀ decl u, (empty.run cs).program.typeDecl? t = some decl →
      (empty.run cs).program.types.asNamed decl.underlying = some u →
      ∃ s before ty, Relation.ReflTransGen (DefinedBy cs) t s ∧ DeclaredThrough cs before s ty ∧
        (empty.run cs).program.types.asNamed ty = some u ∧
        (empty.run before).program.typeDecl? u = none) ∧
    ∀ prim, DownTo prim cs t → ∃ decl, (empty.run cs).program.typeDecl? t = some decl ∧
      (empty.run cs).program.types.asPrim decl.underlying = some prim := by
  constructor
  · intro decl u hd hu
    obtain ⟨s, before, hs, hlast, hnone⟩ := ((resolves_iff cs t _).2 ⟨decl, hd, rfl⟩).late hu
    exact ⟨s, before, _, hs, hlast, hu, hnone⟩
  · intro prim h
    obtain ⟨ty, hr, hp⟩ := h.resolves
    obtain ⟨decl, hd, rfl⟩ := (resolves_iff cs t ty).1 hr
    exact ⟨decl, hd, hp⟩

theorem underlying_resolved_alias :
    let cs : List Command := [.decl (.package ⟨"p"⟩ "p"),
      .decl (.defineType (.prim (.int .int8)) ⟨"p"⟩ "Base"),
      .decl (.aliasType (.named ⟨⟨"p"⟩, "Base"⟩) ⟨"p"⟩ "Alias"),
      .decl (.defineType (.named ⟨⟨"p"⟩, "Alias"⟩) ⟨"p"⟩ "Derived")]
    DownTo (.int .int8) cs ⟨⟨"p"⟩, "Derived"⟩ ∧
      ∃ decl, (empty.run cs).program.typeDecl? ⟨⟨"p"⟩, "Derived"⟩ = some decl ∧
        (empty.run cs).program.types.asPrim decl.underlying = some (.int .int8) := by
  intro cs
  let int8 : TypeRef := .prim (.int .int8)
  let base : NamedType := ⟨⟨"p"⟩, "Base"⟩
  let other : NamedType := ⟨⟨"p"⟩, "Alias"⟩
  have hbase : DeclaredThrough (cs.take 2) (cs.take 1) base ⟨0⟩ :=
    ⟨_, List.prefix_refl _, ⟨int8, .define, by decide +kernel⟩, by decide +kernel,
      by decide +kernel⟩
  have hother : DeclaredThrough (cs.take 3) (cs.take 2) other ⟨1⟩ :=
    ⟨_, List.prefix_refl _, ⟨.named base, .rename, by decide +kernel⟩, by decide +kernel,
      by decide +kernel⟩
  have hderived : DeclaredThrough cs (cs.take 3) ⟨⟨"p"⟩, "Derived"⟩ ⟨2⟩ :=
    ⟨_, List.prefix_refl _, ⟨.named other, .define, by decide +kernel⟩, by decide +kernel,
      by decide +kernel⟩
  have h : DownTo (.int .int8) cs ⟨⟨"p"⟩, "Derived"⟩ :=
    .link (u := other) hderived (by decide +kernel)
      (.link (u := base) hother (by decide +kernel) (.base hbase (by decide +kernel)))
  exact ⟨h, (underlying_resolved cs ⟨⟨"p"⟩, "Derived"⟩).2 (.int .int8) h⟩

/-- A name that is declared through a type whose own declaration comes later keeps that type behind
it. -/
theorem underlying_declared_late :
    ¬ ∀ cs t decl u, (empty.run cs).program.typeDecl? t = some decl →
      (empty.run cs).program.types.asNamed decl.underlying = some u →
      (empty.run cs).program.typeDecl? u = none := by
  intro h
  let cs : List Command := [.decl (.package ⟨"p"⟩ "p"),
    .decl (.defineType (.named ⟨⟨"p"⟩, "Base"⟩) ⟨"p"⟩ "Kind"),
    .decl (.defineType (.prim (.int .int)) ⟨"p"⟩ "Base")]
  have hn := h cs ⟨⟨"p"⟩, "Kind"⟩ ⟨⟨1⟩, ⟨0⟩, false⟩ ⟨⟨"p"⟩, "Base"⟩ (by decide +kernel)
    (by decide +kernel)
  have hs : (empty.run cs).program.typeDecl? ⟨⟨"p"⟩, "Base"⟩ = some ⟨⟨0⟩, ⟨2⟩, false⟩ := by
    decide +kernel
  cases hn.symm.trans hs

end SwitchCover.Workspace
