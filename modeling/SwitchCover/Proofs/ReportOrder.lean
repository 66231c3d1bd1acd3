import Mathlib.Data.List.Sort
import SwitchCover.Diagnostic.Report

namespace SwitchCover

namespace Diagnostic

@[simp] theorem keyLE_refl (k : List Nat) : keyLE k k = true := by
  induction k with
  | nil => rfl
  | cons n ns ih => simp [keyLE, ih]

theorem keyLE_trans {k l m : List Nat} (h : keyLE k l = true) (h' : keyLE l m = true) :
    keyLE k m = true := by
  induction k generalizing l m with
  | nil => rfl
  | cons a as ih =>
    match l, m with
    | [], _ => cases h
    | _ :: _, [] => cases h'
    | b :: bs, c :: cs =>
      simp only [keyLE, Bool.or_eq_true, Bool.and_eq_true, decide_eq_true_eq] at h h' ⊢
      rcases h with h | ⟨rfl, h⟩
      · rcases h' with h' | ⟨rfl, h'⟩
        · exact .inl (Nat.lt_trans h h')
        · exact .inl h
      · rcases h' with h' | ⟨rfl, h'⟩
        · exact .inl h'
        · exact .inr ⟨rfl, ih h h'⟩

theorem keyLE_total (k l : List Nat) : (keyLE k l || keyLE l k) = true := by
  rw [Bool.or_eq_true]
  induction k generalizing l with
  | nil => exact .inl rfl
  | cons a as ih =>
    cases l with
    | nil => exact .inr rfl
    | cons b bs =>
      simp only [keyLE, Bool.or_eq_true, Bool.and_eq_true, decide_eq_true_eq]
      rcases Nat.lt_trichotomy a b with h | rfl | h
      · exact .inl (.inl h)
      · rcases ih bs with h | h
        · exact .inl (.inr ⟨rfl, h⟩)
        · exact .inr (.inr ⟨rfl, h⟩)
      · exact .inr (.inl h)

theorem keyLE_antisymm {k l : List Nat} (h : keyLE k l = true) (h' : keyLE l k = true) : k = l := by
  induction k generalizing l with
  | nil =>
    cases l with
    | nil => rfl
    | cons b bs => cases h'
  | cons a as ih =>
    cases l with
    | nil => cases h
    | cons b bs =>
      simp only [keyLE, Bool.or_eq_true, Bool.and_eq_true, decide_eq_true_eq] at h h'
      have hab : a = b := by omega
      subst hab
      rw [ih (h.resolve_left (Nat.lt_irrefl a)).2 (h'.resolve_left (Nat.lt_irrefl a)).2]

end Diagnostic

namespace Report

open Diagnostic (keyLE keyLE_refl keyLE_trans keyLE_total keyLE_antisymm)

theorem ofList_nil : ofList [] = empty := by
  rw [ofList, List.mergeSort_nil]
  rfl

theorem mem_ofList : d ∈ (ofList ds).diagnostics ↔ d ∈ ds :=
  List.mem_mergeSort

def Ascending (ds : List Diagnostic) : Prop :=
  ds.Pairwise fun a b => keyLE a.key b.key = true

def withKey (k : List Nat) (ds : List Diagnostic) : List Diagnostic :=
  ds.filter fun d => d.key = k

theorem ascending_ofList (ds : List Diagnostic) : Ascending (ofList ds).diagnostics := by
  apply List.pairwise_mergeSort
  · exact fun a b c => keyLE_trans
  · exact fun a b => keyLE_total a.key b.key

theorem withKey_ofList (k : List Nat) (ds : List Diagnostic) :
    withKey k (ofList ds).diagnostics = withKey k ds := by
  -- The diagnostics with one key are sorted, so they stay a sublist; none is added.
  have hp : Ascending (withKey k ds) := by
    apply List.pairwise_of_forall_mem_list
    intro a ha b hb
    have ha : a.key = k := of_decide_eq_true (List.mem_filter.1 ha).2
    have hb : b.key = k := of_decide_eq_true (List.mem_filter.1 hb).2
    rw [ha, hb, keyLE_refl]
  have hs : (withKey k ds).Sublist (ofList ds).diagnostics := by
    apply List.sublist_mergeSort _ _ hp List.filter_sublist
    · exact fun a b c => keyLE_trans
    · exact fun a b => keyLE_total a.key b.key
  have hf : (withKey k (withKey k ds)).Sublist (withKey k (ofList ds).diagnostics) := hs.filter _
  have hi : withKey k (withKey k ds) = withKey k ds := by simp [withKey]
  have hl : (withKey k (ofList ds).diagnostics).length = (withKey k ds).length :=
    ((List.mergeSort_perm ds _).filter _).length_eq
  rw [hi] at hf
  exact (hf.eq_of_length hl.symm).symm

theorem mem_withKey : d ∈ withKey k ds ↔ d ∈ ds ∧ d.key = k := by
  simp [withKey]

theorem withKey_cons (k : List Nat) (d : Diagnostic) (ds : List Diagnostic) :
    withKey k (d :: ds) = if d.key = k then d :: withKey k ds else withKey k ds := by
  by_cases h : d.key = k <;> simp [withKey, h]

theorem keyLE_of_mem (h : Ascending (d :: ds)) (he : e ∈ d :: ds) : keyLE d.key e.key = true := by
  rcases List.mem_cons.1 he with rfl | he
  · exact keyLE_refl _
  · exact (List.pairwise_cons.1 h).1 e he

theorem mem_iff_of_withKey (h : ∀ k, withKey k ds = withKey k es) : d ∈ ds ↔ d ∈ es := by
  have hk := congrArg (d ∈ ·) (h d.key)
  simpa only [mem_withKey, and_true, eq_iff_iff] using hk

theorem eq_of_withKey (hd : Ascending ds) (he : Ascending es)
    (h : ∀ k, withKey k ds = withKey k es) : ds = es := by
  induction ds generalizing es with
  | nil =>
    cases es with
    | nil => rfl
    | cons e es => exact absurd ((mem_iff_of_withKey h).2 List.mem_cons_self) List.not_mem_nil
  | cons d ds ih =>
    cases es with
    | nil => exact absurd ((mem_iff_of_withKey h).1 List.mem_cons_self) List.not_mem_nil
    | cons e es =>
      have hk : d.key = e.key :=
        keyLE_antisymm (keyLE_of_mem hd ((mem_iff_of_withKey h).2 List.mem_cons_self))
          (keyLE_of_mem he ((mem_iff_of_withKey h).1 List.mem_cons_self))
      have hhead := h e.key
      rw [withKey_cons, withKey_cons, if_pos hk, if_pos rfl] at hhead
      obtain ⟨rfl, htail⟩ := List.cons.inj hhead
      have hrest (k : List Nat) : withKey k ds = withKey k es := by
        by_cases hdk : d.key = k
        · rw [← hdk]
          exact htail
        · have hk := h k
          rwa [withKey_cons, withKey_cons, if_neg hdk, if_neg hdk] at hk
      rw [ih hd.of_cons he.of_cons hrest]

/-- The only ascending list with the same diagnostics under each key. -/
theorem diagnostics_ofList (he : Ascending es) (h : ∀ k, withKey k ds = withKey k es) :
    (ofList ds).diagnostics = es :=
  eq_of_withKey (ascending_ofList ds) he fun k => (withKey_ofList k ds).trans (h k)

theorem ofList_congr (h : ∀ k, withKey k ds = withKey k es) : ofList ds = ofList es :=
  congrArg Report.mk (diagnostics_ofList (ascending_ofList es) fun k =>
    (h k).trans (withKey_ofList k es).symm)

theorem append_ofList (ds es : List Diagnostic) :
    (ofList ds).append (ofList es) = ofList (ds ++ es) := by
  apply ofList_congr
  intro k
  have hd := withKey_ofList k ds
  have he := withKey_ofList k es
  simp only [withKey, List.filter_append] at hd he ⊢
  rw [hd, he]

/-- Joining reports one after the other sorts all their diagnostics together. -/
theorem foldl_append_ofList (f : α → List Diagnostic) (xs : List α) (ds : List Diagnostic) :
    xs.foldl (fun r x => r.append (ofList (f x))) (ofList ds) = ofList (ds ++ xs.flatMap f) := by
  induction xs generalizing ds with
  | nil => simp
  | cons x xs ih => rw [List.foldl_cons, append_ofList, ih, List.flatMap_cons, List.append_assoc]

end Report

end SwitchCover
