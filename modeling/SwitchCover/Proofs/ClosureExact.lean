import Mathlib.Tactic.SplitIfs
import SwitchCover.Proofs.Strict

namespace SwitchCover

namespace Text

theorem ofNat_cons_lt_iff {m n : Nat} {xs ys : List UInt8} (hm : m < 256) (hn : n < 256) :
    UInt8.ofNat m :: xs < UInt8.ofNat n :: ys ↔ m < n ∨ m = n ∧ xs < ys := by
  simp only [List.cons_lt_cons_iff, UInt8.lt_iff_toNat_lt, ← UInt8.toNat_inj,
    UInt8.toNat_ofNat', Nat.mod_eq_of_lt hm, Nat.mod_eq_of_lt hn]

/-- The bytes of two characters differ before either ends, and in the order of the characters. -/
theorem utf8EncodeChar_append_lt {c d : Char} (h : c < d) (xs ys : List UInt8) :
    String.utf8EncodeChar c ++ xs < String.utf8EncodeChar d ++ ys := by
  have hlt : c.val.toNat < d.val.toNat := h
  have hd : d.val.toNat < 0x110000 := by
    have hv := d.valid
    simp only [UInt32.isValidChar, Nat.isValidChar] at hv
    omega
  -- Each byte but the first holds six bits, so the bytes are digits to the base 64.
  have h64 (n : Nat) : n / 4096 = n / 64 / 64 ∧ n / 262144 = n / 64 / 64 / 64 := by omega
  simp only [String.utf8EncodeChar, h64]
  split_ifs <;>
    simp (disch := omega) only [List.cons_append, List.nil_append, ofNat_cons_lt_iff] <;> omega

theorem flatMap_utf8EncodeChar_lt {cs ds : List Char} (h : cs < ds) :
    cs.flatMap String.utf8EncodeChar < ds.flatMap String.utf8EncodeChar := by
  induction h with
  | @nil d ds =>
    rw [List.flatMap_cons, List.flatMap_nil]
    obtain ⟨x, xs, hx⟩ := List.exists_cons_of_ne_nil (String.utf8EncodeChar_ne_nil (c := d))
    rw [hx]
    exact List.nil_lt_cons x _
  | rel h =>
    rw [List.flatMap_cons, List.flatMap_cons]
    exact utf8EncodeChar_append_lt h _ _
  | cons _ ih =>
    rw [List.flatMap_cons, List.flatMap_cons]
    exact List.append_left_lt ih

theorem toUTF8_lt {s t : String} (h : s < t) : s.toUTF8.data.toList < t.toUTF8.data.toList := by
  have hb (s : String) : s.toUTF8.data.toList = s.toList.flatMap String.utf8EncodeChar := by
    conv_lhs => rw [← String.ofList_toList (s := s)]
    rw [String.toUTF8_eq_toByteArray, String.toByteArray_ofList, List.utf8Encode,
      List.toList_data_toByteArray]
  rw [hb, hb]
  exact flatMap_utf8EncodeChar_lt (String.lt_iff_toList_lt.1 h)

end Text

namespace PackagePath

def bytes (p : PackagePath) : List UInt8 :=
  p.text.toUTF8.data.toList

theorem bytes_lt {p q : PackagePath} (h : p < q) : p.bytes < q.bytes :=
  Text.toUTF8_lt h

end PackagePath

namespace Sorted

variable {α : Type u} [DecidableEq α] [LT α] [DecidableLT α] [IsStrictTotalOrder α (· < ·)]

omit [DecidableEq α] [DecidableLT α] in
/-- An element divides a sorted list into what is below it and what is above it. -/
theorem halves_of_pairwise {b : α} {as upper : List α} (h : as.Pairwise (· < ·))
    (hd : as.drop k = b :: upper) : (as.take k).Pairwise (· < ·) ∧ upper.Pairwise (· < ·) ∧
      (∀ a ∈ as, a < b → a ∈ as.take k) ∧ ∀ a ∈ as, b < a → a ∈ upper := by
  have hs : as = as.take k ++ b :: upper := by rw [← hd, List.take_append_drop]
  obtain ⟨hl, hu, hlu⟩ := List.pairwise_append.1 (hs ▸ h)
  obtain ⟨hb, hu⟩ := List.pairwise_cons.1 hu
  refine ⟨hl, hu, fun a ha hab => ?_, fun a ha hba => ?_⟩
  · rw [hs, List.mem_append, List.mem_cons] at ha
    rcases ha with ha | rfl | ha
    · exact ha
    · exact absurd hab (irrefl a)
    · exact absurd hab (asymm (hb a ha))
  · rw [hs, List.mem_append, List.mem_cons] at ha
    rcases ha with ha | rfl | ha
    · exact absurd hba (asymm (hlu a ha b List.mem_cons_self))
    · exact absurd hba (irrefl a)
    · exact ha

theorem contains_iff_mem {a : α} {as : List α} (h : as.Pairwise (· < ·)) :
    contains a as = true ↔ a ∈ as := by
  fun_induction contains a as with
  | case1 as hd =>
    have hlen := List.drop_eq_nil_iff.1 hd
    have hnil : as = [] := List.length_eq_zero_iff.1 (by omega)
    simp [hnil]
  | case2 as upper hd =>
    have hmem : a ∈ as := List.mem_of_mem_drop (hd ▸ List.mem_cons_self)
    simp [hmem]
  | case3 as b upper hd _ hlt ih =>
    obtain ⟨hl, _, hlow, _⟩ := halves_of_pairwise h hd
    rw [ih hl]
    exact ⟨List.mem_of_mem_take, fun ha => hlow a ha hlt⟩
  | case4 as b upper hd hne hlt ih =>
    obtain ⟨_, hu, _, hup⟩ := halves_of_pairwise h hd
    have hgt : b < a := (trichotomous_of (· < ·) a b).resolve_left hlt |>.resolve_left hne
    rw [ih hu]
    refine ⟨fun ha => List.mem_of_mem_drop (hd ▸ List.mem_cons_of_mem b ha), fun ha => hup a ha hgt⟩

end Sorted

namespace ImportGraph

inductive Call where
  | addPackage (p : PackagePath)
  | addImport (importer imported : PackagePath)
deriving DecidableEq

def after (g : ImportGraph) : Call → ImportGraph
  | .addPackage p => g.addPackage p
  | .addImport p q => g.addImport p q

def run (g : ImportGraph) (cs : List Call) : ImportGraph :=
  cs.foldl after g

theorem targetsOf_addPackage (g : ImportGraph) (r p : PackagePath) :
    (g.addPackage r).targetsOf p = g.targetsOf p := by
  rw [addPackage]
  split
  · rfl
  next hr =>
    rw [targetsOf, OrderedMap.get?_append]
    by_cases hp : p = r
    · subst hp
      have hn : g.targets.get? p = none := OrderedMap.get?_eq_none_iff.2 hr
      rw [if_pos rfl, targetsOf, hn]
      rfl
    · rw [if_neg hp]
      rfl

theorem mem_nodes_addPackage (g : ImportGraph) (r : PackagePath) :
    r ∈ (g.addPackage r).nodes ∧ ∀ p ∈ g.nodes, p ∈ (g.addPackage r).nodes := by
  rw [addPackage]
  split
  next hr => exact ⟨hr, fun _ hp => hp⟩
  next hr =>
    have hk : (g.targets.append r [] hr).keys = g.targets.keys ++ [r] := List.map_append
    rw [nodes, hk]
    exact ⟨List.mem_append_right _ List.mem_cons_self, fun _ => List.mem_append_left _⟩

theorem imports_addImport {g : ImportGraph} :
    (g.addImport a b).Imports p q ↔ g.Imports p q ∨ p = a ∧ q = b := by
  have hg : ((g.addPackage a).addPackage b).targetsOf p = g.targetsOf p := by
    rw [targetsOf_addPackage, targetsOf_addPackage]
  rw [Imports, Imports, ← hg, addImport, targetsOf, OrderedMap.get?_modify]
  by_cases hp : p = a
  · subst hp
    have hn : p ∈ ((g.addPackage p).addPackage b).nodes :=
      (mem_nodes_addPackage _ b).2 p (mem_nodes_addPackage g p).1
    obtain ⟨ps, hps⟩ := OrderedMap.exists_get?_of_mem_keys hn
    rw [if_pos rfl, targetsOf, hps]
    by_cases hb : b ∈ ps
    · simp only [Option.map_some, hb, if_true, Option.getD_some, true_and]
      exact ⟨.inl, fun h => h.elim id fun h => h ▸ hb⟩
    · simp [hb]
  · rw [if_neg hp]
    simp [hp, targetsOf]

theorem imports_after {g : ImportGraph} :
    (g.after c).Imports p q ↔ g.Imports p q ∨ c = .addImport p q := by
  cases c with
  | addPackage r => simp [after, Imports, targetsOf_addPackage]
  | addImport a b =>
    rw [after, imports_addImport, Call.addImport.injEq, eq_comm, eq_comm (a := q)]

theorem imports_run {g : ImportGraph} :
    (g.run cs).Imports p q ↔ g.Imports p q ∨ .addImport p q ∈ cs := by
  induction cs generalizing g with
  | nil => simp [run]
  | cons c cs ih =>
    rw [run, List.foldl_cons, ← run, ih, imports_after, List.mem_cons, or_assoc, eq_comm]

theorem imports_run_empty : (empty.run cs).Imports p q ↔ .addImport p q ∈ cs := by
  have hn : ¬empty.Imports p q := List.not_mem_nil
  rw [imports_run, or_iff_right hn]

theorem reaches_run_empty : (empty.run cs).Reaches p q ↔
    Relation.ReflTransGen (fun a b => Call.addImport a b ∈ cs) p q := by
  have hi : (empty.run cs).Imports = fun a b => Call.addImport a b ∈ cs := by
    funext a b
    exact propext imports_run_empty
  rw [Reaches, hi]

theorem mem_imports {g : ImportGraph} : q ∈ g.imports p ↔ g.Imports p q :=
  Sorted.mem_ofList

/-- After any calls, and for any package, the search ends and finds what the package reaches
through the imports of the calls. Closure and imports ascend in the order of the bytes, bisection
decides membership, and calls with the same imports give the same answers. -/
theorem closure_of_calls (cs : List Call) (p : PackagePath) :
    let g := empty.run cs
    let Reached := Relation.ReflTransGen (fun a b => Call.addImport a b ∈ cs) p
    (∃ bound, ∀ fuel ≥ bound, Strict.closure g fuel p = some (g.closure p)) ∧
    (g.closure p).paths.Pairwise (·.bytes < ·.bytes) ∧
    (∀ q, q ∈ (g.closure p).paths ↔ Reached q) ∧
    (∀ q, (g.closure p).contains q = true ↔ Reached q) ∧
    (g.imports p).Pairwise (·.bytes < ·.bytes) ∧
    (∀ q, q ∈ g.imports p ↔ .addImport p q ∈ cs) ∧
    ∀ cs', (∀ a b, Call.addImport a b ∈ cs ↔ .addImport a b ∈ cs') →
      (empty.run cs').closure p = g.closure p ∧ (empty.run cs').imports p = g.imports p := by
  intro g Reached
  have hclosure : (g.closure p).paths.Pairwise (· < ·) := Sorted.pairwise_ofList _
  have himports : (g.imports p).Pairwise (· < ·) := Sorted.pairwise_ofList _
  have hmem (q : PackagePath) : q ∈ (g.closure p).paths ↔ Reached q :=
    mem_closure.trans reaches_run_empty
  refine ⟨⟨g.importCount + 2, fun fuel hf => Strict.closure_eq g p hf⟩,
    hclosure.imp PackagePath.bytes_lt, hmem, fun q => ?_, himports.imp PackagePath.bytes_lt,
    fun q => mem_imports.trans imports_run_empty, fun cs' hcs => ?_⟩
  · exact (Sorted.contains_iff_mem hclosure).trans (hmem q)
  · have hi (a b : PackagePath) : (empty.run cs').Imports a b ↔ g.Imports a b := by
      rw [imports_run_empty, imports_run_empty, hcs]
    refine ⟨closure_eq_of_imports fun a _ b => hi a b, ?_⟩
    apply Sorted.ofList_congr
    exact fun q => hi p q

/-- Imports in a circle, one of a package by itself and a package without imports. -/
def circle : List Call :=
  [.addImport ⟨"app"⟩ ⟨"color"⟩, .addImport ⟨"color"⟩ ⟨"base"⟩, .addImport ⟨"base"⟩ ⟨"app"⟩,
    .addImport ⟨"color"⟩ ⟨"color"⟩, .addPackage ⟨"other"⟩]

/-- The same imports in another order, one of them twice. -/
def circleAgain : List Call :=
  [.addImport ⟨"color"⟩ ⟨"color"⟩, .addImport ⟨"base"⟩ ⟨"app"⟩, .addImport ⟨"app"⟩ ⟨"color"⟩,
    .addPackage ⟨"other"⟩, .addImport ⟨"color"⟩ ⟨"base"⟩, .addImport ⟨"app"⟩ ⟨"color"⟩]

theorem closure_of_calls_circle :
    (∀ a b, Call.addImport a b ∈ circle ↔ .addImport a b ∈ circleAgain) ∧
    (empty.run circleAgain).closure ⟨"color"⟩ = (empty.run circle).closure ⟨"color"⟩ ∧
    ((empty.run circle).closure ⟨"color"⟩).paths = [⟨"app"⟩, ⟨"base"⟩, ⟨"color"⟩] ∧
    (empty.run circleAgain).imports ⟨"color"⟩ = [⟨"base"⟩, ⟨"color"⟩] := by
  have hcs : ∀ a b, Call.addImport a b ∈ circle ↔ .addImport a b ∈ circleAgain := by
    intro a b
    simp only [circle, circleAgain, List.mem_cons, List.not_mem_nil, reduceCtorEq]
    tauto
  obtain ⟨_, _, _, _, _, _, hsame⟩ := closure_of_calls circle ⟨"color"⟩
  obtain ⟨hc, hi⟩ := hsame circleAgain hcs
  exact ⟨hcs, hc, by decide +kernel, hi.trans (by decide +kernel)⟩

end ImportGraph

end SwitchCover
