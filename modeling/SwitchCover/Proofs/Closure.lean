import Mathlib.Data.List.Sort
import Mathlib.Data.String.Basic
import Mathlib.Logic.Relation
import SwitchCover.Package.ImportGraph

namespace SwitchCover

namespace Sorted

variable {α : Type u} [DecidableEq α] [LT α] [DecidableLT α] [IsStrictTotalOrder α (· < ·)]

theorem pairwise_insert {as : List α} (h : as.Pairwise (· < ·)) (a : α) :
    (insert a as).Pairwise (· < ·) := by
  induction as with
  | nil => simp [insert]
  | cons b bs ih =>
    obtain ⟨hb, hbs⟩ := List.pairwise_cons.1 h
    by_cases hab : a = b
    · simpa only [insert, hab, if_true] using h
    · by_cases hlt : a < b
      · simp only [insert, hab, hlt, if_false, if_true]
        refine List.pairwise_cons.2 ⟨?_, h⟩
        intro c hc
        rcases List.mem_cons.1 hc with rfl | hc
        · exact hlt
        · exact trans_of (· < ·) hlt (hb c hc)
      · simp only [insert, hab, hlt, if_false]
        refine List.pairwise_cons.2 ⟨?_, ih hbs⟩
        intro c hc
        rcases mem_insert.1 hc with rfl | hc
        · rcases trichotomous_of (· < ·) c b with h' | h' | h'
          · exact absurd h' hlt
          · exact absurd h' hab
          · exact h'
        · exact hb c hc

theorem pairwise_ofList (as : List α) : (ofList as).Pairwise (· < ·) := by
  induction as with
  | nil => exact .nil
  | cons a as ih => exact pairwise_insert ih a

theorem ofList_congr {as bs : List α} (h : ∀ a, a ∈ as ↔ a ∈ bs) : ofList as = ofList bs := by
  apply List.Pairwise.eq_of_mem_iff (pairwise_ofList as) (pairwise_ofList bs)
  intro a
  rw [mem_ofList, mem_ofList, h]

end Sorted

instance : IsStrictTotalOrder PackagePath (· < ·) where
  trichotomous p q hpq hqp := by
    have h : p.text = q.text := le_antisymm (not_lt.1 hqp) (not_lt.1 hpq)
    cases p
    cases q
    exact congrArg PackagePath.mk h
  irrefl p := lt_irrefl p.text
  trans _ _ _ hpq hqr := lt_trans (α := String) hpq hqr

namespace ImportGraph

def Imports (g : ImportGraph) (p q : PackagePath) : Prop :=
  q ∈ g.targetsOf p

/-- One package reaches another through any number of imports. -/
def Reaches (g : ImportGraph) : PackagePath → PackagePath → Prop :=
  Relation.ReflTransGen g.Imports

theorem reaches_of_mem_walk {g : ImportGraph} {stack seen : List PackagePath}
    (hstack : ∀ q ∈ stack, g.Reaches p q) (hseen : ∀ q ∈ seen, g.Reaches p q)
    (h : q ∈ g.walk n stack seen) : g.Reaches p q := by
  fun_induction walk g n stack seen with
  | case1 => exact hseen q h
  | case2 => exact hseen q h
  | case3 n r stack seen _ ih =>
    exact ih (fun q hq => hstack q (List.mem_cons_of_mem r hq)) hseen h
  | case4 n r stack seen _ seen' ih =>
    have hr : g.Reaches p r := hstack r List.mem_cons_self
    apply ih
    · intro q hq
      rcases List.mem_append.1 hq with hq | hq
      · exact hr.tail (List.mem_filter.1 hq).1
      · exact hstack q (List.mem_cons_of_mem r hq)
    · intro q hq
      rcases List.mem_append.1 hq with hq | hq
      · exact hseen q hq
      · rw [List.mem_singleton.1 hq]
        exact hr
    · exact h

theorem seen_subset_walk (g : ImportGraph) (n : Nat) (stack seen : List PackagePath) :
    seen ⊆ g.walk n stack seen := by
  induction n generalizing stack seen with
  | zero => exact List.Subset.refl seen
  | succ n ih =>
    cases stack with
    | nil => exact List.Subset.refl seen
    | cons p stack =>
      rw [walk]
      split
      next => exact ih stack seen
      next => exact List.Subset.trans (List.subset_append_left seen [p]) (ih _ _)

/-- Steps that are still to come: one for each package on the stack, and one for each import of a
package that was not seen. -/
def pending (g : ImportGraph) (stack seen : List PackagePath) : Nat :=
  stack.length + ((g.nodes.filter (· ∉ seen)).flatMap g.targetsOf).length

theorem pending_pop_lt (g : ImportGraph) (p : PackagePath) (stack seen : List PackagePath) :
    g.pending stack seen < g.pending (p :: stack) seen := by
  simp only [pending, List.length_cons]
  omega

theorem length_unseen_snoc_le (g : ImportGraph) (ps : List PackagePath) {seen : List PackagePath}
    (hp : p ∉ seen) :
    ((ps.filter (· ∉ seen ++ [p])).flatMap g.targetsOf).length +
        (if p ∈ ps then (g.targetsOf p).length else 0) ≤
      ((ps.filter (· ∉ seen)).flatMap g.targetsOf).length := by
  induction ps with
  | nil => simp
  | cons q ps ih =>
    simp only [List.filter_cons, List.mem_append, List.mem_cons] at ih ⊢
    grind

theorem pending_visit_lt (g : ImportGraph) (stack : List PackagePath) {seen : List PackagePath}
    (hp : p ∉ seen) :
    g.pending ((g.targetsOf p).filter (· ∉ seen ++ [p]) ++ stack) (seen ++ [p]) <
      g.pending (p :: stack) seen := by
  -- A package seen for the first time takes its imports off the account and onto the stack.
  have hsum := length_unseen_snoc_le g g.nodes hp
  have hpush : ((g.targetsOf p).filter (· ∉ seen ++ [p])).length ≤
      if p ∈ g.nodes then (g.targetsOf p).length else 0 := by
    split
    next => exact List.length_filter_le _ _
    next hn => simp [targetsOf, OrderedMap.get?_eq_none_iff.2 hn]
  simp only [pending, List.length_append, List.length_cons]
  omega

/-- Every import of a package seen leads to a package seen or on the stack. -/
def Followed (g : ImportGraph) (stack seen : List PackagePath) : Prop :=
  ∀ p ∈ seen, ∀ q, g.Imports p q → q ∈ seen ∨ q ∈ stack

theorem Followed.pop {g : ImportGraph} {stack seen : List PackagePath}
    (h : g.Followed (p :: stack) seen) (hp : p ∈ seen) : g.Followed stack seen := by
  intro r hr q hrq
  rcases h r hr q hrq with hq | hq
  · exact .inl hq
  · rcases List.mem_cons.1 hq with rfl | hq
    · exact .inl hp
    · exact .inr hq

theorem Followed.visit {g : ImportGraph} {stack seen : List PackagePath}
    (h : g.Followed (p :: stack) seen) :
    g.Followed ((g.targetsOf p).filter (· ∉ seen ++ [p]) ++ stack) (seen ++ [p]) := by
  intro r hr q hrq
  by_cases hq : q ∈ seen ++ [p]
  · exact .inl hq
  · refine .inr (List.mem_append.2 ?_)
    rcases List.mem_append.1 hr with hr | hr
    · rcases h r hr q hrq with hs | hs
      · exact absurd (List.mem_append_left _ hs) hq
      · rcases List.mem_cons.1 hs with rfl | hs
        · exact absurd (List.mem_append_right _ List.mem_cons_self) hq
        · exact .inr hs
    · rw [List.mem_singleton.1 hr] at hrq
      exact .inl (List.mem_filter.2 ⟨hrq, by simpa using hq⟩)

/-- A walk that is long enough empties its stack, so it ends in a set closed under imports. -/
theorem walk_closed {g : ImportGraph} {stack seen : List PackagePath}
    (h : g.Followed stack seen) (hn : g.pending stack seen ≤ n) :
    g.Followed [] (g.walk n stack seen) ∧ stack ⊆ g.walk n stack seen := by
  fun_induction walk g n stack seen with
  | case1 stack seen =>
    have hs : stack = [] := List.length_eq_zero_iff.1 (by simp only [pending] at hn; omega)
    exact ⟨hs ▸ h, hs ▸ List.nil_subset _⟩
  | case2 => exact ⟨h, List.nil_subset _⟩
  | case3 n p stack seen hp ih =>
    have hlt := g.pending_pop_lt p stack seen
    obtain ⟨hf, hs⟩ := ih (h.pop hp) (Nat.le_of_lt_succ (hlt.trans_le hn))
    exact ⟨hf, List.cons_subset.2 ⟨seen_subset_walk g n stack seen hp, hs⟩⟩
  | case4 n p stack seen hp seen' ih =>
    have hlt := g.pending_visit_lt stack hp
    obtain ⟨hf, hs⟩ := ih h.visit (Nat.le_of_lt_succ (hlt.trans_le hn))
    refine ⟨hf, List.cons_subset.2 ⟨?_, List.Subset.trans (List.subset_append_right _ _) hs⟩⟩
    exact seen_subset_walk g n _ _ (List.mem_append_right _ List.mem_cons_self)

theorem pending_start (g : ImportGraph) (p : PackagePath) :
    g.pending [p] [] = g.importCount + 1 := by
  simp [pending, importCount, Nat.add_comm]

theorem mem_walk {g : ImportGraph} :
    q ∈ g.walk (g.importCount + 1) [p] [] ↔ g.Reaches p q := by
  have hstart : g.Followed [p] [] := by simp [Followed]
  obtain ⟨hclosed, hp⟩ := walk_closed hstart (g.pending_start p).le
  constructor
  · intro h
    apply reaches_of_mem_walk _ _ h
    · intro q hq
      rw [List.mem_singleton.1 hq]
      exact .refl
    · simp
  · intro h
    induction h with
    | refl => exact hp List.mem_cons_self
    | tail _ hrq ih => exact (hclosed _ ih _ hrq).resolve_right List.not_mem_nil

theorem mem_closure {g : ImportGraph} : q ∈ (g.closure p).paths ↔ g.Reaches p q :=
  Sorted.mem_ofList.trans mem_walk

theorem closure_congr {g h : ImportGraph} (hr : ∀ q, g.Reaches p q ↔ h.Reaches p q) :
    g.closure p = h.closure p := by
  apply congrArg Closure.mk
  apply Sorted.ofList_congr
  intro q
  rw [mem_walk, mem_walk, hr]

/-- Imports of packages that a package does not reach do not matter to its closure. -/
theorem closure_eq_of_imports {g h : ImportGraph}
    (hr : ∀ q, g.Reaches p q → ∀ r, g.Imports q r ↔ h.Imports q r) :
    g.closure p = h.closure p := by
  apply closure_congr
  intro q
  constructor
  · intro hq
    induction hq with
    | refl => exact .refl
    | tail hq hqr ih => exact ih.tail ((hr _ hq _).1 hqr)
  · intro hq
    induction hq with
    | refl => exact .refl
    | tail hq hqr ih => exact ih.tail ((hr _ ih _).2 hqr)

end ImportGraph

end SwitchCover
