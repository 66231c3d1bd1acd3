import Mathlib.Data.List.Nodup
import Mathlib.Data.List.Perm.Subperm
import SwitchCover.Proofs.Traversal
import SwitchCover.Rule.Coverage

namespace SwitchCover

namespace Body

/-- Taking a number of parentheses away from one expression leaves another, which has none. -/
inductive Strips (b : Body) : Nat → ExprId → ExprId → Prop where
  | bare (h : ∀ inner, b.expr? e ≠ some (.paren inner)) : b.Strips 0 e e
  | paren (h : b.expr? d = some (.paren c)) (hs : b.Strips n c e) : b.Strips (n + 1) d e

theorem Strips.unique {b : Body} (h : b.Strips n d e) (h' : b.Strips n' d e') :
    n = n' ∧ e = e' := by
  induction h generalizing n' with
  | bare hb =>
    cases h' with
    | bare => exact ⟨rfl, rfl⟩
    | paren hp => exact absurd hp (hb _)
  | paren hp _ ih =>
    cases h' with
    | bare hb => exact absurd hp (hb _)
    | paren hp' hs =>
      rw [hp] at hp'
      cases hp'
      obtain ⟨hn, he⟩ := ih hs
      exact ⟨congrArg Nat.succ hn, he⟩

theorem Strips.chain {b : Body} (h : b.Strips n d e) : ∃ ds : List ExprId, ds.Nodup ∧
    ds.length = n ∧ ∀ c ∈ ds, b.Has (.expr c) ∧ ∃ k ≤ n, b.Strips k c e := by
  induction h with
  | bare => exact ⟨[], .nil, rfl, by simp⟩
  | @paren d inner n e hp hs ih =>
    obtain ⟨ds, hnd, hlen, hds⟩ := ih
    -- An expression has one distance from the end of its chain, and that of `d` is the longest.
    have hd : d ∉ ds := by
      intro hd
      obtain ⟨_, k, hk, hsk⟩ := hds d hd
      have := (hsk.unique (.paren hp hs)).1
      omega
    refine ⟨d :: ds, List.nodup_cons.2 ⟨hd, hnd⟩, by rw [List.length_cons, hlen], ?_⟩
    intro c hc
    rcases List.mem_cons.1 hc with rfl | hc
    · exact ⟨has_of_expr? hp, _, Nat.le_refl _, .paren hp hs⟩
    · obtain ⟨hb, k, hk, hsk⟩ := hds c hc
      exact ⟨hb, k, by omega, hsk⟩

theorem Strips.length_le {b : Body} (h : b.Strips n d e) : n ≤ b.exprs.length := by
  obtain ⟨ds, hnd, rfl, hds⟩ := h.chain
  have hinj : Function.Injective ExprId.index := by
    rintro ⟨_⟩ ⟨_⟩ rfl
    rfl
  have hsub : ds.map ExprId.index ⊆ List.range b.exprs.length := by
    intro i hi
    obtain ⟨c, hc, rfl⟩ := List.mem_map.1 hi
    exact List.mem_range.2 (hds c hc).1
  have hle := (List.subperm_of_subset (List.Nodup.map hinj hnd) hsub).length_le
  simpa using hle

theorem Strips.unparenWithin {b : Body} (h : b.Strips n d e) (hn : n ≤ fuel) :
    b.unparenWithin fuel d = e := by
  induction h generalizing fuel with
  | @bare e hb =>
    cases fuel with
    | zero => rfl
    | succ fuel =>
      rw [Body.unparenWithin]
      split
      next inner hp => exact absurd hp (hb inner)
      next => rfl
  | paren hp _ ih =>
    cases fuel with
    | zero => omega
    | succ fuel =>
      rw [Body.unparenWithin, hp]
      exact ih (by omega)

theorem Strips.unparen {b : Body} (h : b.Strips n d e) : b.unparen d = e :=
  h.unparenWithin h.length_le

theorem Ordered.strips {b : Body} (h : b.Ordered) (d : ExprId) : ∃ n e, b.Strips n d e := by
  obtain ⟨stamp, h⟩ := h
  induction hs : stamp (.expr d) using Nat.strongRecOn generalizing d with
  | _ k ih =>
    subst hs
    by_cases hp : ∃ inner, b.expr? d = some (.paren inner)
    · obtain ⟨inner, hp⟩ := hp
      have hm : NodeId.expr inner ∈ b.mentions (.expr d) := by
        simp only [mentions, hp, Expr.mentions, List.mem_singleton]
      have hlt := (h.mention _ _ hm).2
      simp only [NodeId.weight] at hlt
      obtain ⟨n, e, hs⟩ := ih _ (by omega) inner rfl
      exact ⟨n + 1, e, .paren hp hs⟩
    · exact ⟨0, d, .bare fun inner hi => hp ⟨inner, hi⟩⟩

end Body

/-- A label covers a constant of an enum type. -/
inductive Covers (settings : Settings) (table : TypeTable) (b : Body) (t : NamedType)
    (label : ExprId) (k : EnumConstant) : Prop where
  | ident (hs : b.Strips n label e) (he : b.expr? e = some (.ident k.name))
  | selector (hs : b.Strips n label e) (he : b.expr? e = some (.selector base k.name))
    (hq : settings.qualifiedLabels = .strict → b.packageRef? base = some t.package)
  /-- Any other expression of the enum type covers the constants that have its value. -/
  | value (hs : b.Strips n label e) (hi : ∀ name, b.expr? e ≠ some (.ident name))
    (hm : ∀ base member, b.expr? e ≠ some (.selector base member))
    (hc : settings.conversionLabels = .evaluate) (he : b.typing? e = some ⟨ty, some v⟩)
    (ht : table.asNamed ty = some t) (hv : k.value = some v)

namespace CaseLabel

def names (constants : List EnumConstant) : CaseLabel → List String
  | name n => [n]
  | value v => (constants.filter fun k => k.value = some v).map EnumConstant.name
  | nothing => []

end CaseLabel

namespace Coverage

theorem mark_name (t : NamedType) (constants : List EnumConstant) (c : Coverage) (n : String) :
    (mark t constants c (.name n)).value = c.cover n := by
  have hc (h : ∀ v, c.found.get? n = some v → true = v) : c = c.cover n :=
    congrArg Coverage.mk (OrderedMap.modify_eq_self h).symm
  simp only [mark, isFound]
  split
  next h =>
    apply hc
    intro v hv
    rw [h] at hv
    cases hv
    rfl
  next => rfl
  next h =>
    apply hc
    intro v hv
    rw [h] at hv
    cases hv

theorem mark_value (t : NamedType) (constants : List EnumConstant) (c : Coverage) (l : CaseLabel) :
    (mark t constants c l).value = (l.names constants).foldl cover c := by
  cases l with
  | name n => exact mark_name t constants c n
  | value v =>
    simp only [mark, CaseLabel.names, List.foldl_map]
    split
    next h => rw [h]; rfl
    next => rfl
  | nothing => rfl

/-- The record lists the constants in order, each with the answer of a test on its name. -/
def Tracks (c : Coverage) (constants : List EnumConstant) (p : String → Bool) : Prop :=
  c.found.entries = constants.map fun k => (k.name, p k.name)

theorem Tracks.cover {c : Coverage} (h : c.Tracks constants p) (name : String) :
    (c.cover name).Tracks constants fun n => p n || decide (n = name) := by
  simp only [Tracks, Coverage.cover, OrderedMap.modify] at h ⊢
  rw [h, List.map_map]
  apply List.map_congr_left
  intro k _
  by_cases hk : k.name = name <;> simp [hk]

theorem Tracks.coverAll {c : Coverage} (h : c.Tracks constants p) (names : List String) :
    (names.foldl Coverage.cover c).Tracks constants fun n => p n || decide (n ∈ names) := by
  induction names generalizing c p with
  | nil => simpa using h
  | cons name names ih =>
    have h' := ih (h.cover name)
    simpa [Bool.or_assoc] using h'

theorem entries_foldl_insert (m : OrderedMap String Bool) (names : List String)
    (hn : (m.keys ++ names).Nodup) :
    ((names.map fun n => (n, false)).foldl (fun m e => m.insert e.1 e.2) m).entries =
      m.entries ++ names.map fun n => (n, false) := by
  induction names generalizing m with
  | nil => simp
  | cons name names ih =>
    have hm : name ∉ m.keys := by
      intro h
      exact (List.nodup_append.1 hn).2.2 name h name List.mem_cons_self rfl
    have hk : (m.insert name false).keys ++ names = m.keys ++ name :: names := by
      rw [OrderedMap.keys_insert, if_neg hm, List.append_assoc]
      rfl
    rw [List.map_cons, List.foldl_cons, ih _ (hk ▸ hn), OrderedMap.insert, dif_neg hm]
    simp [OrderedMap.append]

theorem tracks_initial (hn : (constants.map EnumConstant.name).Nodup) :
    (initial constants).Tracks constants fun _ => false := by
  have h := entries_foldl_insert .empty (constants.map EnumConstant.name) hn
  rw [List.map_map] at h
  exact h

theorem Tracks.missing {c : Coverage} (h : c.Tracks constants p) :
    c.missing = (constants.filter fun k => !p k.name).map EnumConstant.name := by
  rw [Coverage.missing, h, List.filterMap_map]
  clear h
  induction constants with
  | nil => rfl
  | cons k ks ih => cases hk : p k.name <;> simpa [hk] using ih

theorem Tracks.isComplete {c : Coverage} (h : c.Tracks constants p) :
    c.isComplete = constants.all fun k => p k.name := by
  rw [Coverage.isComplete, OrderedMap.values, h, List.map_map, List.all_map]
  rfl

def marked (settings : Settings) (table : TypeTable) (b : Body) (s : Switch) (t : NamedType)
    (constants : List EnumConstant) : List String :=
  s.labels.flatMap fun label => (resolveLabel settings table b t label).value.names constants

theorem foldl_mark (settings : Settings) (table : TypeTable) (b : Body) (t : NamedType)
    (constants : List EnumConstant) (labels : List ExprId) (c : Coverage) :
    labels.foldl (fun c label =>
        (mark t constants c (resolveLabel settings table b t label).value).value) c =
      (labels.flatMap fun label =>
        (resolveLabel settings table b t label).value.names constants).foldl cover c := by
  induction labels generalizing c with
  | nil => rfl
  | cons label labels ih =>
    rw [List.foldl_cons, ih, mark_value, List.flatMap_cons, List.foldl_append]

theorem check_value (settings : Settings) (table : TypeTable) (b : Body) (s : Switch)
    (t : NamedType) (constants : List EnumConstant) (hd : ¬s.hasDefault) :
    (check settings table b s t constants).value =
      let c := (marked settings table b s t constants).foldl cover (initial constants)
      if c.isComplete then none else some c := by
  rw [check, if_neg hd]
  simp only [Traced.value_bind, Traced.value_foldl, Traced.value_pure, foldl_mark]
  rfl

theorem check_missing (settings : Settings) (table : TypeTable) (b : Body) (s : Switch)
    (t : NamedType) (hn : (constants.map EnumConstant.name).Nodup) :
    ((check settings table b s t constants).value.map missing).getD [] =
      if s.hasDefault then []
      else (constants.filter fun k => k.name ∉ marked settings table b s t constants).map
        EnumConstant.name := by
  by_cases hd : s.hasDefault
  · simp [check, hd]
  · have ht := (tracks_initial hn).coverAll (marked settings table b s t constants)
    simp only [Bool.false_or] at ht
    have hm := ht.missing
    simp only [check_value settings table b s t constants hd, hd, ht.isComplete]
    split
    next hc => simpa using hc
    next => simpa using hm

theorem mem_names_value (hn : (constants.map EnumConstant.name).Nodup) (hk : k ∈ constants) :
    k.name ∈ CaseLabel.names constants (.value v) ↔ k.value = some v := by
  simp only [CaseLabel.names, List.mem_map, List.mem_filter, decide_eq_true_eq]
  constructor
  · rintro ⟨k', ⟨hk', hv⟩, he⟩
    rw [← List.inj_on_of_nodup_map hn hk' hk he]
    exact hv
  · intro hv
    exact ⟨k, ⟨hk, hv⟩, rfl⟩

theorem mem_names_evaluateLabel (hn : (constants.map EnumConstant.name).Nodup)
    (hk : k ∈ constants) :
    k.name ∈ (evaluateLabel settings table b t e).value.names constants ↔
      settings.conversionLabels = .evaluate ∧
        ∃ ty v, b.typing? e = some ⟨ty, some v⟩ ∧ table.asNamed ty = some t ∧ k.value = some v := by
  rw [evaluateLabel]
  split
  next hc => simp [hc, CaseLabel.names]
  next hc =>
    have hc : settings.conversionLabels = .evaluate := by
      cases h : settings.conversionLabels with
      | ignore => exact absurd h hc
      | evaluate => rfl
    split
    next ty v he =>
      by_cases ht : table.asNamed ty = some t
      · simp [he, hc, ht, mem_names_value hn hk]
      · simp [he, ht, evaluateLabel.valueless, CaseLabel.names]
    next he =>
      simp only [evaluateLabel.valueless, Traced.value_bind, Traced.value_pure, CaseLabel.names,
        List.not_mem_nil, false_iff]
      rintro ⟨_, ty, v, he', _⟩
      exact he ty v he'

/-- A label covers a constant if and only if its meaning names the constant. -/
theorem covers_iff {b : Body} (hs : b.Strips n label e)
    (hn : (constants.map EnumConstant.name).Nodup) (hk : k ∈ constants) :
    Covers settings table b t label k ↔
      k.name ∈ (resolveLabel settings table b t label).value.names constants := by
  have hu {m d} (hd : b.Strips m label d) : d = e := (hd.unique hs).2
  simp only [resolveLabel, hs.unparen]
  split
  next name he =>
    simp only [Traced.value_pure, CaseLabel.names, List.mem_singleton]
    constructor
    · intro h
      cases h with
      | ident hd hd' =>
        rw [hu hd, he] at hd'
        cases hd'
        rfl
      | selector hd hd' =>
        rw [hu hd, he] at hd'
        cases hd'
      | value hd hi => exact absurd (hu hd ▸ he) (hi name)
    · rintro rfl
      exact .ident hs he
  next base member he =>
    have hq : (settings.qualifiedLabels = .loose ∨ b.packageRef? base = some t.package) ↔
        (settings.qualifiedLabels = .strict → b.packageRef? base = some t.package) := by
      cases settings.qualifiedLabels <;> simp
    have hsel : Covers settings table b t label k ↔ k.name = member ∧
        (settings.qualifiedLabels = .strict → b.packageRef? base = some t.package) := by
      constructor
      · intro h
        cases h with
        | ident hd hd' =>
          rw [hu hd, he] at hd'
          cases hd'
        | selector hd hd' hq =>
          rw [hu hd, he] at hd'
          cases hd'
          exact ⟨rfl, hq⟩
        | value hd _ hm => exact absurd (hu hd ▸ he) (hm base member)
      · rintro ⟨rfl, hq⟩
        exact .selector hs he hq
    rw [hsel, ← hq]
    split
    next h => simp [h, CaseLabel.names]
    next h => simp [h, CaseLabel.names]
  next hi hm =>
    rw [mem_names_evaluateLabel hn hk]
    constructor
    · intro h
      cases h with
      | ident hd hd' => exact absurd (hu hd ▸ hd') (hi _)
      | selector hd hd' => exact absurd (hu hd ▸ hd') (hm _ _)
      | value hd _ _ hc he ht hv => exact ⟨hc, _, _, hu hd ▸ he, ht, hv⟩
    · rintro ⟨hc, ty, v, he, ht, hv⟩
      exact .value hs hi hm hc he ht hv

theorem mem_marked_of_strips {b : Body} (hs : ∀ label ∈ s.labels, ∃ n e, b.Strips n label e)
    (hn : (constants.map EnumConstant.name).Nodup) (hk : k ∈ constants) :
    k.name ∈ marked settings table b s t constants ↔
      ∃ label ∈ s.labels, Covers settings table b t label k := by
  rw [marked, List.mem_flatMap]
  apply exists_congr
  intro label
  apply and_congr_right
  intro hl
  obtain ⟨n, e, hs⟩ := hs label hl
  rw [covers_iff hs hn hk]

theorem mem_marked {b : Body} (hb : b.Ordered) (hn : (constants.map EnumConstant.name).Nodup)
    (hk : k ∈ constants) :
    k.name ∈ marked settings table b s t constants ↔
      ∃ label ∈ s.labels, Covers settings table b t label k :=
  mem_marked_of_strips (fun label _ => hb.strips label) hn hk

end Coverage

end SwitchCover
