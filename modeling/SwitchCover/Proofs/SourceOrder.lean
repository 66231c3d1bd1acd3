import Mathlib.Data.List.Flatten
import Mathlib.Data.List.Pairwise
import SwitchCover.Proofs.Policies
import SwitchCover.Proofs.SafeRuns

namespace SwitchCover

theorem flatMap_range_getElem? (f : α → List β) (l : List α) :
    (List.range l.length).flatMap (fun i => (l[i]?.map f).getD []) = l.flatMap f := by
  induction l with
  | nil => rfl
  | cons a l ih =>
    rw [List.length_cons, List.range_succ_eq_map, List.flatMap_cons, List.flatMap_map]
    exact congrArg (f a ++ ·) ih

theorem sublist_flatMap_of_mem {f : α → List β} {l : List α} (ha : a ∈ l) :
    (f a).Sublist (l.flatMap f) := by
  rw [List.flatMap_def]
  exact List.sublist_flatten_of_mem (List.mem_map_of_mem ha)

theorem pair_sublist_flatMap {f : α → List β} {l : List α} :
    [x, y].Sublist (l.flatMap f) ↔ (∃ a ∈ l, [x, y].Sublist (f a)) ∨
      ∃ a a', [a, a'].Sublist l ∧ x ∈ f a ∧ y ∈ f a' := by
  constructor
  · intro h
    induction l with
    | nil => cases h
    | cons a l ih =>
      obtain ⟨l₁, l₂, he, h₁, h₂⟩ := List.sublist_append_iff.1 h
      rcases l₁ with _ | ⟨_, _ | ⟨_, _ | _⟩⟩ <;> cases he
      · rcases ih h₂ with ⟨c, hc, h⟩ | ⟨c, c', h, hx, hy⟩
        · exact .inl ⟨c, List.mem_cons_of_mem a hc, h⟩
        · exact .inr ⟨c, c', h.cons a, hx, hy⟩
      · obtain ⟨c, hc, hy⟩ := List.mem_flatMap.1 (List.singleton_sublist.1 h₂)
        have hac : [a, c].Sublist (a :: l) := (List.singleton_sublist.2 hc).cons_cons a
        exact .inr ⟨a, c, hac, List.singleton_sublist.1 h₁, hy⟩
      · exact .inl ⟨a, List.mem_cons_self, h₁⟩
  · rintro (⟨a, ha, h⟩ | ⟨a, a', h, hx, hy⟩)
    · exact h.trans (sublist_flatMap_of_mem ha)
    · have hxy : [x, y].Sublist ([a, a'].flatMap f) := by
        simpa using (List.singleton_sublist.2 hx).append (List.singleton_sublist.2 hy)
      exact hxy.trans (h.flatMap f)

namespace Body

/-- A node has at most one place: in one field of one node, or among the top-level statements. -/
structure SingleUse (b : Body) : Prop where
  root : (b.root.map NodeId.stmt).Nodup
  fields (n : NodeId) : (b.parts n).Nodup
  parent (n n' m : NodeId) : b.Part n m → b.Part n' m → n = n'
  top (n : NodeId) (s : StmtId) : s ∈ b.root → ¬b.Part n (.stmt s)

def allNodes (b : Body) : List NodeId :=
  (List.range b.stmts.length).map (fun i => .stmt ⟨i⟩) ++
    (List.range b.exprs.length).map (fun i => .expr ⟨i⟩)

theorem mem_allNodes {b : Body} (h : b.Has n) : n ∈ b.allNodes := by
  cases n with
  | stmt s => exact List.mem_append_left _ (List.mem_map.2 ⟨s.index, List.mem_range.2 h, rfl⟩)
  | expr e => exact List.mem_append_right _ (List.mem_map.2 ⟨e.index, List.mem_range.2 h, rfl⟩)

theorem nodeIds_eq (b : Body) :
    b.nodeIds = b.allNodes.flatMap b.mentions ++ b.root.map .stmt := by
  have hstmt (i : Nat) : b.mentions (.stmt ⟨i⟩) =
      (b.stmts[i]?.map fun node => node.stmt.mentions).getD [] := by
    simp only [mentions, stmt?, stmtNode?]
    cases b.stmts[i]? <;> rfl
  have hexpr (i : Nat) : b.mentions (.expr ⟨i⟩) =
      (b.exprs[i]?.map fun node => node.expr.mentions).getD [] := by
    simp only [mentions, expr?, exprNode?]
    cases b.exprs[i]? <;> rfl
  simp only [allNodes, List.flatMap_append, List.flatMap_map, hstmt, hexpr]
  rw [flatMap_range_getElem?, flatMap_range_getElem?]
  rfl

theorem singleUse_of_nodup {b : Body} (h : b.nodeIds.Nodup) : b.SingleUse := by
  rw [nodeIds_eq] at h
  obtain ⟨hnodes, hroot, htop⟩ := List.nodup_append.1 h
  obtain ⟨hfields, hdisjoint⟩ := List.nodup_flatMap.1 hnodes
  have hmem {n m : NodeId} (hm : b.Part n m) : n ∈ b.allNodes ∧ m ∈ b.mentions n := by
    have hm := b.parts_subset_mentions n hm
    exact ⟨mem_allNodes (has_of_mem_mentions hm), hm⟩
  constructor
  case root => exact hroot
  case fields =>
    intro n
    by_cases hn : b.parts n = []
    · exact hn ▸ List.nodup_nil
    · obtain ⟨m, hm⟩ := List.exists_mem_of_ne_nil _ hn
      exact (hfields n (hmem hm).1).sublist (b.parts_sublist_mentions n)
  case parent =>
    intro n n' m hm hm'
    by_contra hne
    have : Std.Symm (Function.onFun List.Disjoint b.mentions) := ⟨fun _ _ hd => hd.symm⟩
    exact hdisjoint.forall (hmem hm).1 (hmem hm').1 hne (hmem hm).2 (hmem hm').2
  case top =>
    intro n s hs hm
    have hin := List.mem_flatMap.2 ⟨n, hmem hm⟩
    exact htop _ hin _ (List.mem_map_of_mem hs) rfl

/-- The fields of a node, or the top-level statements. -/
inductive Siblings (b : Body) : List NodeId → Prop where
  | top : b.Siblings (b.root.map .stmt)
  | fields (n : NodeId) : b.Siblings (b.parts n)

section

variable {b : Body} {ms : List NodeId}

theorem SingleUse.nodup (h : b.SingleUse) (hms : b.Siblings ms) : ms.Nodup := by
  cases hms with
  | top => exact h.root
  | fields n => exact h.fields n

theorem SingleUse.eq_of_above (h : b.SingleUse) (ha : b.Acyclic) (hms : b.Siblings ms)
    (hm : m ∈ ms) (hm' : m' ∈ ms) (hab : b.Above m m') : m = m' := by
  rcases Relation.ReflTransGen.cases_tail hab with he | ⟨n, hn, hp⟩
  · exact he.symm
  cases hms with
  | top =>
    obtain ⟨s, hs, rfl⟩ := List.mem_map.1 hm'
    exact absurd hp (h.top n s hs)
  | fields a =>
    obtain rfl := h.parent _ _ _ hp hm'
    exact absurd (.head' hm hn) (ha n)

theorem SingleUse.above_total (h : b.SingleUse) (hx : b.Above m x) (hx' : b.Above m' x) :
    b.Above m m' ∨ b.Above m' m := by
  have hu : Relator.RightUnique (Function.swap b.Part) :=
    fun x n n' hn hn' => h.parent n n' x hn hn'
  have ht := Relation.ReflTransGen.total_of_right_unique hu (Relation.reflTransGen_swap.2 hx)
    (Relation.reflTransGen_swap.2 hx')
  exact (ht.imp Relation.reflTransGen_swap.1 Relation.reflTransGen_swap.1).symm

/-- Subtrees of siblings are disjoint. -/
theorem SingleUse.sibling_eq (h : b.SingleUse) (ha : b.Acyclic) (hms : b.Siblings ms)
    (hm : m ∈ ms) (hm' : m' ∈ ms) (hx : b.Above m x) (hx' : b.Above m' x) : m = m' := by
  rcases h.above_total hx hx' with hab | hab
  · exact h.eq_of_above ha hms hm hm' hab
  · exact (h.eq_of_above ha hms hm' hm hab).symm

theorem SingleUse.nodup_flatMap (h : b.SingleUse) (ha : b.Acyclic) (hms : b.Siblings ms)
    (hk : ∀ m ∈ ms, (b.preorderWithin k m).Nodup) :
    (ms.flatMap (b.preorderWithin k)).Nodup := by
  apply List.nodup_flatMap.2 ⟨hk, ?_⟩
  apply List.Pairwise.imp_of_mem _ (h.nodup hms)
  intro m m' hm hm' hne x hx hx'
  exact hne (h.sibling_eq ha hms hm hm' (above_of_mem_preorderWithin hx)
    (above_of_mem_preorderWithin hx'))

theorem SingleUse.nodup_preorderWithin (h : b.SingleUse) (ha : b.Acyclic) (k : Nat) (n : NodeId) :
    (b.preorderWithin k n).Nodup := by
  induction k generalizing n with
  | zero => exact List.nodup_nil
  | succ k ih =>
    apply List.nodup_cons.2 ⟨?_, h.nodup_flatMap ha (.fields n) fun m _ => ih m⟩
    intro hn
    obtain ⟨m, hm, hn⟩ := List.mem_flatMap.1 hn
    exact ha n (.head' hm (above_of_mem_preorderWithin hn))

theorem SingleUse.nodup_preorder (h : b.SingleUse) (ha : b.Acyclic) : b.preorder.Nodup :=
  h.nodup_flatMap ha .top fun m _ => h.nodup_preorderWithin ha _ m

theorem SingleUse.reaches_above (h : b.SingleUse) (hx : b.Reaches x) (ha : b.Above n x) :
    b.Reaches n := by
  obtain ⟨s, hs, hsx⟩ := reaches_iff.1 hx
  rcases h.above_total ha hsx with hns | hsn
  · rcases Relation.ReflTransGen.cases_tail hns with he | ⟨p, _, hp⟩
    · exact he ▸ .root hs
    · exact absurd hp (h.top p s hs)
  · exact reaches_iff.2 ⟨s, hs, hsn⟩

def Forks (b : Body) (ms : List NodeId) (x y : NodeId) : Prop :=
  ∃ m m', [m, m'].Sublist ms ∧ b.Above m x ∧ b.Above m' y

/-- Source order. A node precedes those below it. Otherwise the order of two nodes is that of the
fields in which they stand at the node closest to them that is above both, or that of the
top-level statements if no node is above both. -/
inductive Precedes (b : Body) (x y : NodeId) : Prop where
  | encloses (h : Relation.TransGen b.Part x y)
  | fields (h : b.Forks (b.parts n) x y) (closest : ∀ c, b.Above c x → b.Above c y → b.Above c n)
  | top (h : b.Forks (b.root.map .stmt) x y) (apart : ∀ c, b.Above c x → ¬b.Above c y)

/-- A node above both stands above the node of which the entries are fields. -/
theorem Forks.above_parent (hf : b.Forks ms x y) (h : b.SingleUse) (ha : b.Acyclic)
    (hms : b.Siblings ms) (hx : b.Above c x) (hy : b.Above c y) :
    ∃ m ∈ ms, ∃ p, b.Above c p ∧ b.Part p m := by
  obtain ⟨m, m', hmm, hmx, hmy⟩ := hf
  have hne : m ≠ m' := by
    have hnd := (h.nodup hms).sublist hmm
    simpa using hnd
  have hmem : m ∈ ms := hmm.subset (by simp)
  have hmem' : m' ∈ ms := hmm.subset (by simp)
  -- If the first entry were above `c`, it would also be above `y`, which is below the second.
  have hnot : ¬b.Above m c := fun hmc => hne (h.sibling_eq ha hms hmem hmem' (hmc.trans hy) hmy)
  have hcm : b.Above c m := (h.above_total hx hmx).resolve_right hnot
  rcases Relation.ReflTransGen.cases_tail hcm with he | ⟨p, hp, hpm⟩
  · exact absurd (he ▸ .refl) hnot
  · exact ⟨m, hmem, p, hp, hpm⟩

/-- Where two nodes stand in different fields is the closest node above both. -/
theorem Forks.precedes (hf : b.Forks ms x y) (h : b.SingleUse) (ha : b.Acyclic)
    (hms : b.Siblings ms) : b.Precedes x y := by
  cases hms with
  | top =>
    apply Precedes.top hf
    intro c hx hy
    obtain ⟨m, hm, p, _, hp⟩ := hf.above_parent h ha .top hx hy
    obtain ⟨s, hs, rfl⟩ := List.mem_map.1 hm
    exact h.top p s hs hp
  | fields n =>
    apply Precedes.fields hf
    intro c hx hy
    obtain ⟨m, hm, p, hc, hp⟩ := hf.above_parent h ha (.fields n) hx hy
    exact h.parent _ _ _ hp hm ▸ hc

theorem precedes_of_sublist_preorderWithin (h : b.SingleUse) (ha : b.Acyclic)
    (hxy : [x, y].Sublist (b.preorderWithin k n)) : b.Precedes x y := by
  induction k generalizing n with
  | zero => cases hxy
  | succ k ih =>
    rw [preorderWithin, List.sublist_cons_iff] at hxy
    -- Either both nodes are below the fields of `n`, or the first one is `n` itself.
    rcases hxy with hxy | ⟨ys, hys, hy⟩
    · rcases pair_sublist_flatMap.1 hxy with ⟨m, _, hxy⟩ | ⟨m, m', hmm, hx, hy⟩
      · exact ih hxy
      · have hf : b.Forks (b.parts n) x y :=
          ⟨m, m', hmm, above_of_mem_preorderWithin hx, above_of_mem_preorderWithin hy⟩
        exact hf.precedes h ha (.fields n)
    · cases hys
      obtain ⟨m, hm, hy⟩ := List.mem_flatMap.1 (List.singleton_sublist.1 hy)
      exact .encloses (.head' hm (above_of_mem_preorderWithin hy))

theorem precedes_of_sublist_preorder (h : b.SingleUse) (ha : b.Acyclic)
    (hxy : [x, y].Sublist b.preorder) : b.Precedes x y := by
  rcases pair_sublist_flatMap.1 hxy with ⟨m, _, hxy⟩ | ⟨m, m', hmm, hx, hy⟩
  · exact precedes_of_sublist_preorderWithin h ha hxy
  · have hf : b.Forks (b.root.map .stmt) x y :=
      ⟨m, m', hmm, above_of_mem_preorderWithin hx, above_of_mem_preorderWithin hy⟩
    exact hf.precedes h ha .top

/-- The preorder of a body goes through that of every node that is reached. -/
theorem Acyclic.preorderWithin_sublist (h : b.Acyclic) (hn : b.Reaches n) :
    ∃ k, b.room n < k ∧ (b.preorderWithin k n).Sublist b.preorder := by
  induction hn with
  | root hs =>
    exact ⟨_, Nat.lt_succ_of_le (b.room_le_maxDepth _),
      sublist_flatMap_of_mem (List.mem_map_of_mem hs)⟩
  | part _ hm ih =>
    obtain ⟨k, hk, hsub⟩ := ih
    have hlt := h.room_lt hm
    obtain ⟨k, rfl⟩ : ∃ j, k = j + 1 := ⟨k - 1, by omega⟩
    exact ⟨k, by omega, ((sublist_flatMap_of_mem hm).cons _).trans hsub⟩

theorem Forks.sublist (hf : b.Forks ms x y) (ha : b.Acyclic) (hk : ∀ m ∈ ms, b.room m < k) :
    [x, y].Sublist (ms.flatMap (b.preorderWithin k)) := by
  obtain ⟨m, m', hmm, hx, hy⟩ := hf
  have hm : m ∈ ms := hmm.subset (by simp)
  have hm' : m' ∈ ms := hmm.subset (by simp)
  exact pair_sublist_flatMap.2 (.inr ⟨m, m', hmm, (ha.mem_preorderWithin (hk m hm)).2 hx,
    (ha.mem_preorderWithin (hk m' hm')).2 hy⟩)

theorem Precedes.sublist (hp : b.Precedes x y) (h : b.SingleUse) (ha : b.Acyclic)
    (hx : b.Reaches x) : [x, y].Sublist b.preorder := by
  cases hp with
  | encloses hxy =>
    obtain ⟨k, hk, hsub⟩ := ha.preorderWithin_sublist hx
    obtain ⟨m, hm, hy⟩ := Relation.TransGen.head'_iff.1 hxy
    have hlt := ha.room_lt hm
    obtain ⟨k, rfl⟩ : ∃ j, k = j + 1 := ⟨k - 1, by omega⟩
    apply List.Sublist.trans _ hsub
    apply List.Sublist.cons_cons
    have hmem := (ha.mem_preorderWithin (by omega : b.room m < k)).2 hy
    exact List.singleton_sublist.2 (List.mem_flatMap.2 ⟨m, hm, hmem⟩)
  | @fields n hf =>
    have hn : b.Reaches n := by
      obtain ⟨m, m', hmm, hmx, _⟩ := hf
      exact h.reaches_above hx (.head (hmm.subset (by simp)) hmx)
    obtain ⟨k, hk, hsub⟩ := ha.preorderWithin_sublist hn
    obtain ⟨k, rfl⟩ : ∃ j, k = j + 1 := ⟨k - 1, by omega⟩
    apply List.Sublist.trans _ hsub
    apply List.Sublist.cons
    apply hf.sublist ha
    intro m hm
    have hlt := ha.room_lt hm
    omega
  | top hf => exact hf.sublist ha fun m _ => Nat.lt_succ_of_le (b.room_le_maxDepth m)

theorem SingleUse.sublist_preorder_iff (h : b.SingleUse) (ha : b.Acyclic) (hx : b.Reaches x) :
    [x, y].Sublist b.preorder ↔ b.Precedes x y :=
  ⟨precedes_of_sublist_preorder h ha, fun hp => hp.sublist h ha hx⟩

theorem Acyclic.switches_sublist (ha : b.Acyclic) :
    ((b.switches.map Prod.fst).map NodeId.stmt).Sublist b.preorder := by
  have hs := Scope.map_filterMap_sublist (f := b.switchAt?) (g := id) (h := .stmt ∘ Prod.fst)
    (fun n x hx => (switchAt?_eq_some.1 hx).1.symm) b.preorder
  rwa [← ha.switches_eq, List.map_id, ← List.map_map] at hs

theorem SingleUse.nodup_switches (h : b.SingleUse) (ha : b.Acyclic) :
    (b.switches.map Prod.fst).Nodup :=
  List.Nodup.of_map _ ((h.nodup_preorder ha).sublist ha.switches_sublist)

theorem SingleUse.sublist_switches_iff (h : b.SingleUse) (ha : b.Acyclic) {id id' : StmtId}
    (hs : (id, s) ∈ b.switches) (hs' : (id', s') ∈ b.switches) :
    [id, id'].Sublist (b.switches.map Prod.fst) ↔ b.Precedes (.stmt id) (.stmt id') := by
  obtain ⟨hr, hid⟩ := ha.mem_switches.1 hs
  obtain ⟨_, hid'⟩ := ha.mem_switches.1 hs'
  rw [← h.sublist_preorder_iff ha hr]
  constructor
  · exact fun hsub => (hsub.map NodeId.stmt).trans ha.switches_sublist
  · intro hsub
    have hf := (hsub.filterMap b.switchAt?).map Prod.fst
    rw [← ha.switches_eq] at hf
    simpa [switchAt?_eq_some.2 ⟨rfl, hid⟩, switchAt?_eq_some.2 ⟨rfl, hid'⟩] using hf

end

end Body

theorem CheckedFile.mem_switches {f : CheckedFile} :
    (b, x) ∈ f.switches ↔ ∃ g ∈ f.funcs, g.body = b ∧ x ∈ b.switches := by
  simp only [switches, List.mem_flatMap, List.mem_map, Prod.mk.injEq]
  constructor
  · rintro ⟨g, hg, _, hx, rfl, rfl⟩
    exact ⟨g, hg, rfl, hx⟩
  · rintro ⟨g, hg, rfl, hx⟩
    exact ⟨g, hg, x, hx, rfl, rfl⟩

namespace Rule

theorem checkFile_switches (p : Program) (r : Registry) (settings : Settings) (f : CheckedFile) :
    checkFile p r settings f = do
      let found ← Traced.mapList
        (fun (b, id, s) => checkSwitch p r settings f.file b id s) f.switches
      return found.filterMap id := by
  apply Traced.ext
  · rw [checkFile_value]
    simp [CheckedFile.switches, List.map_flatMap, List.filterMap_flatMap, List.filterMap_map,
      Function.comp_def]
  · simp [checkFile, checkFunc, CheckedFile.switches, List.flatMap_map, List.flatMap_assoc]

/-- The switches that the rule checks in a file without cycles are those below the top-level
statements of its functions. Where a body refers to every node at most once, they are checked once
each and in source order. -/
theorem checkFile_in_source_order (f : CheckedFile) (hf : ∀ g ∈ f.funcs, g.body.Acyclic) :
    (∀ p r settings, checkFile p r settings f = do
      let found ← Traced.mapList
        (fun (b, id, s) => checkSwitch p r settings f.file b id s) f.switches
      return found.filterMap id) ∧
    (∀ b id s, (b, id, s) ∈ f.switches ↔
      ∃ g ∈ f.funcs, g.body = b ∧ b.Reaches (.stmt id) ∧ b.stmt? id = some (.switch s)) ∧
    ∀ g ∈ f.funcs, g.body.nodeIds.Nodup →
      (∀ id s, (id, s) ∈ g.body.switches → (g.body.switches.map Prod.fst).count id = 1) ∧
      ∀ id s id' s', (id, s) ∈ g.body.switches → (id', s') ∈ g.body.switches →
        ([id, id'].Sublist (g.body.switches.map Prod.fst) ↔
          g.body.Precedes (.stmt id) (.stmt id')) := by
  refine ⟨fun p r settings => checkFile_switches p r settings f, fun b id s => ?_, ?_⟩
  · rw [CheckedFile.mem_switches]
    apply exists_congr
    intro g
    apply and_congr_right
    intro hg
    apply and_congr_right
    rintro rfl
    exact (hf g hg).mem_switches
  · intro g hg hn
    have h := Body.singleUse_of_nodup hn
    constructor
    · intro id s hs
      exact List.count_eq_one_of_mem (h.nodup_switches (hf g hg)) (List.mem_map_of_mem hs)
    · intro id s id' s' hs hs'
      exact h.sublist_switches_iff (hf g hg) hs hs'

/-- A switch with another one in a clause, and a third one in a function that is returned. -/
def nestedScript : List Command :=
  [.decl (.package ⟨"color"⟩ "color"), .decl (.defineType (.prim (.int .int)) ⟨"color"⟩ "Color"),
    .decl (.declareConst (.slot 0) none ⟨"color"⟩ "Red"),
    .decl (.openFile ⟨"color"⟩ "color.go" ("func f(c Color) \x7b switch c \x7b case Red: " ++
      "switch c \x7b \x7d \x7d return func() \x7b switch c \x7b \x7d \x7d \x7d")),
    .file (.openFunc "f"), .func (.param "c" 0), .func (.keyword "switch"), .func (.ident "c"),
    .func (.ident "Red"), .func (.keyword "switch"), .func (.ident "c"),
    .func (.switch 1 none (some 2) []), .func (.caseClause [1] [0]),
    .func (.switch 0 none (some 0) [0]), .func (.keyword "return"), .func (.keyword "func"),
    .func (.keyword "switch"), .func (.ident "c"), .func (.switch 4 none (some 3) []),
    .func (.funcLit 3 [2]), .func (.ret 2 [4]), .func (.finish [1, 3]), .file .finish]

theorem checkFile_in_source_order_nested :
    ∃ f, (Workspace.empty.run nestedScript).program.checkedFile? ⟨0⟩ = some f ∧
      (∀ g ∈ f.funcs, g.body.Acyclic) ∧ (∀ g ∈ f.funcs, g.body.nodeIds.Nodup) ∧
      f.switches.map (fun x => x.2.1) = [⟨1⟩, ⟨0⟩, ⟨2⟩] ∧
      ∀ g ∈ f.funcs, g.body.Precedes (.stmt ⟨1⟩) (.stmt ⟨0⟩) ∧
        g.body.Precedes (.stmt ⟨0⟩) (.stmt ⟨2⟩) := by
  obtain ⟨f, hf⟩ : ∃ f, (Workspace.empty.run nestedScript).program.checkedFile? ⟨0⟩ = some f :=
    Option.isSome_iff_exists.1 (by decide +kernel)
  have hacyclic : ∀ g ∈ f.funcs, g.body.Acyclic := by
    intro g hg
    have hv := (Workspace.run_valid nestedScript).program.files ⟨0⟩ f hf
    exact (hv.bodies g hg).ordered.acyclic
  have hshape : ∀ f ∈ (Workspace.empty.run nestedScript).program.checkedFile? ⟨0⟩,
      (∀ g ∈ f.funcs, g.body.nodeIds.Nodup) ∧
      f.switches.map (fun x => x.2.1) = [⟨1⟩, ⟨0⟩, ⟨2⟩] ∧
      ∀ g ∈ f.funcs, g.body.switches.map Prod.fst = [⟨1⟩, ⟨0⟩, ⟨2⟩] := by decide +kernel
  obtain ⟨hnodup, hfile, hids⟩ := hshape f hf
  refine ⟨f, hf, hacyclic, hnodup, hfile, fun g hg => ?_⟩
  have hmem : ∀ id ∈ ([⟨1⟩, ⟨0⟩, ⟨2⟩] : List StmtId), ∃ s, (id, s) ∈ g.body.switches := by
    intro id hid
    obtain ⟨⟨_, s⟩, hs, rfl⟩ := List.mem_map.1 (hids g hg ▸ hid)
    exact ⟨s, hs⟩
  obtain ⟨s₁, h₁⟩ := hmem ⟨1⟩ (by simp)
  obtain ⟨s₀, h₀⟩ := hmem ⟨0⟩ (by simp)
  obtain ⟨s₂, h₂⟩ := hmem ⟨2⟩ (by simp)
  obtain ⟨_, _, h⟩ := checkFile_in_source_order f hacyclic
  have horder := (h g hg (hnodup g hg)).2
  rw [hids g hg] at horder
  exact ⟨(horder _ _ _ _ h₁ h₀).1 (by decide), (horder _ _ _ _ h₀ h₂).1 (by decide)⟩

end Rule

end SwitchCover
