import Mathlib.Data.Finset.Card
import Mathlib.Logic.Relation
import SwitchCover.Proofs.Traversal

namespace SwitchCover

namespace Body

/-- One node stands directly above another. -/
def Part (b : Body) (n m : NodeId) : Prop :=
  m ∈ b.parts n

def Above (b : Body) : NodeId → NodeId → Prop :=
  Relation.ReflTransGen b.Part

def Acyclic (b : Body) : Prop :=
  ∀ n, ¬Relation.TransGen b.Part n n

theorem reaches_iff {b : Body} : b.Reaches n ↔ ∃ s ∈ b.root, b.Above (.stmt s) n := by
  constructor
  · intro h
    induction h with
    | root hs => exact ⟨_, hs, .refl⟩
    | part _ hm ih =>
      obtain ⟨s, hs, ha⟩ := ih
      exact ⟨s, hs, ha.tail hm⟩
  · rintro ⟨s, hs, ha⟩
    induction ha with
    | refl => exact .root hs
    | tail _ hm ih => exact ih.part hm

theorem Stamped.lt_of_transGen {b : Body} (h : b.Stamped stamp)
    (hp : Relation.TransGen b.Part n m) : stamp m < stamp n := by
  have hpart {n m} (hm : b.Part n m) : stamp m < stamp n := by
    have hlt := (h.mention n m (b.parts_subset_mentions n hm)).2
    cases n <;> simp only [NodeId.weight] at hlt <;> omega
  induction hp with
  | single hm => exact hpart hm
  | tail _ hm ih => exact Nat.lt_trans (hpart hm) ih

theorem Ordered.acyclic {b : Body} (h : b.Ordered) : b.Acyclic := by
  obtain ⟨stamp, h⟩ := h
  exact fun n hn => Nat.lt_irrefl _ (h.lt_of_transGen hn)

open Classical in
noncomputable def positions (b : Body) (n : NodeId) (kind : Nat → NodeId) (count : Nat) :
    Finset Nat :=
  {i ∈ Finset.range count | b.Above n (kind i)}

theorem mem_positions {b : Body} {kind : Nat → NodeId} :
    i ∈ b.positions n kind count ↔ i < count ∧ b.Above n (kind i) := by
  classical
  exact Finset.mem_filter.trans (and_congr_left fun _ => Finset.mem_range)

theorem card_positions_le (b : Body) (n : NodeId) (kind : Nat → NodeId) (count : Nat) :
    (b.positions n kind count).card ≤ count := by
  classical
  exact (Finset.card_filter_le _ _).trans_eq (Finset.card_range count)

/-- Levels that are enough for a traversal of a node: what the nodes that it is above take
together. -/
noncomputable def room (b : Body) (n : NodeId) : Nat :=
  3 * (b.positions n (fun i => .stmt ⟨i⟩) b.stmts.length).card +
    (b.positions n (fun i => .expr ⟨i⟩) b.exprs.length).card

theorem room_le_maxDepth (b : Body) (n : NodeId) : b.room n ≤ b.maxDepth := by
  have hs := b.card_positions_le n (fun i => .stmt ⟨i⟩) b.stmts.length
  have he := b.card_positions_le n (fun i => .expr ⟨i⟩) b.exprs.length
  rw [room, maxDepth]
  omega

theorem weight_le_room {b : Body} (h : b.Has n) : n.weight ≤ b.room n := by
  have hpos (kind : Nat → NodeId) {i count : Nat} (hi : i < count) (hk : kind i = n) :
      0 < (b.positions n kind count).card :=
    Finset.card_pos.2 ⟨i, mem_positions.2 ⟨hi, hk ▸ .refl⟩⟩
  cases n with
  | stmt id =>
    have hs := hpos (fun i => .stmt ⟨i⟩) h rfl
    simp only [room, NodeId.weight]
    omega
  | expr id =>
    have he := hpos (fun i => .expr ⟨i⟩) h rfl
    simp only [room, NodeId.weight]
    omega

theorem Acyclic.room_part {b : Body} (h : b.Acyclic) (hm : b.Part n m) :
    b.room m + n.weight ≤ b.room n := by
  have hsub (kind : Nat → NodeId) (count : Nat) :
      b.positions m kind count ⊆ b.positions n kind count := by
    intro i hi
    obtain ⟨hi, ha⟩ := mem_positions.1 hi
    exact mem_positions.2 ⟨hi, .head hm ha⟩
  -- A node is above itself, while no part of it is above it.
  have hss (kind : Nat → NodeId) {i count : Nat} (hi : i < count) (hk : kind i = n) :
      b.positions m kind count ⊂ b.positions n kind count := by
    refine ⟨hsub kind count, fun hle => ?_⟩
    have hmem := hle (mem_positions.2 ⟨hi, hk ▸ .refl⟩)
    exact h n (.head' hm (hk ▸ (mem_positions.1 hmem).2))
  have hn := has_of_mem_mentions (b.parts_subset_mentions n hm)
  cases n with
  | stmt id =>
    have hs := Finset.card_lt_card (hss (fun i => .stmt ⟨i⟩) hn rfl)
    have he := Finset.card_le_card (hsub (fun i => .expr ⟨i⟩) b.exprs.length)
    simp only [room, NodeId.weight]
    omega
  | expr id =>
    have hs := Finset.card_le_card (hsub (fun i => .stmt ⟨i⟩) b.stmts.length)
    have he := Finset.card_lt_card (hss (fun i => .expr ⟨i⟩) hn rfl)
    simp only [room, NodeId.weight]
    omega

theorem Acyclic.room_lt {b : Body} (h : b.Acyclic) (hm : b.Part n m) : b.room m < b.room n := by
  have hle := h.room_part hm
  cases n <;> simp only [NodeId.weight] at hle <;> omega

/-- A node before the nodes below it, down to `fuel` levels, and what is below one field before
what is below the next. -/
def preorderWithin (b : Body) : Nat → NodeId → List NodeId
  | 0, _ => []
  | fuel + 1, n => n :: (b.parts n).flatMap (b.preorderWithin fuel)

def preorder (b : Body) : List NodeId :=
  (b.root.map .stmt).flatMap (b.preorderWithin (b.maxDepth + 1))

theorem above_of_mem_preorderWithin {b : Body} (h : m ∈ b.preorderWithin k n) : b.Above n m := by
  induction k generalizing n with
  | zero => simp [preorderWithin] at h
  | succ k ih =>
    rcases List.mem_cons.1 h with rfl | h
    · exact .refl
    · obtain ⟨c, hc, h⟩ := List.mem_flatMap.1 h
      exact .head hc (ih h)

theorem Acyclic.mem_preorderWithin {b : Body} (h : b.Acyclic) (hk : b.room n < k) :
    m ∈ b.preorderWithin k n ↔ b.Above n m := by
  refine ⟨above_of_mem_preorderWithin, fun ha => ?_⟩
  induction k generalizing n with
  | zero => omega
  | succ k ih =>
    rcases ha.cases_head with rfl | ⟨c, hc, ha⟩
    · exact List.mem_cons_self
    · have hlt := h.room_lt hc
      exact List.mem_cons_of_mem _ (List.mem_flatMap.2 ⟨c, hc, ih (by omega) ha⟩)

theorem Acyclic.mem_preorder {b : Body} (h : b.Acyclic) : n ∈ b.preorder ↔ b.Reaches n := by
  simp only [preorder, List.flatMap_map, List.mem_flatMap, reaches_iff,
    h.mem_preorderWithin (Nat.lt_succ_of_le (b.room_le_maxDepth _))]

def switchAt? (b : Body) : NodeId → Option (StmtId × Switch)
  | .stmt id => match b.stmt? id with
    | some (.switch s) => some (id, s)
    | _ => none
  | .expr _ => none

theorem switchAt?_eq_some {b : Body} {id : StmtId} :
    b.switchAt? n = some (id, s) ↔ n = .stmt id ∧ b.stmt? id = some (.switch s) := by
  cases n with
  | stmt id' =>
    simp only [switchAt?]
    split
    next s' hs => grind
    next hs => grind
  | expr e => simp [switchAt?]

end Body

namespace Node

def switchesWithin (b : Body) (fuel depth : Nat) (n : Node) : List (StmtId × Switch) :=
  ((walkWithin b fuel depth n).map Prod.snd).filterMap switch?

theorem switchesWithin_succ (b : Body) (fuel d : Nat) (n : Node) :
    switchesWithin b (fuel + 1) d n =
      n.switch?.toList ++ (n.children b).flatMap (switchesWithin b fuel (d + 1)) := by
  simp only [switchesWithin, walkWithin, List.map_cons, List.map_flatMap, List.filterMap_cons,
    List.filterMap_flatMap]
  cases n.switch? <;> rfl

theorem switchesWithin_leaf {b : Body} {n : Node} (hc : n.children b = []) (hs : n.switch? = none)
    (fuel d : Nat) : switchesWithin b fuel d n = [] := by
  cases fuel with
  | zero => rfl
  | succ fuel => simp [switchesWithin_succ, hc, hs]

theorem children_switch (b : Body) (id : StmtId) (s : Switch) :
    (switch id s).children b =
      (s.init.toList.map NodeId.stmt ++ s.tag.toList.map NodeId.expr).map NodeId.toNode ++
        s.clauses.map clause := by
  simp [children, NodeId.toNode, Function.comp_def]

end Node

namespace Body

open Node

/-- Every traversal of a node with room enough meets the same switches. -/
def Meets (b : Body) (n : NodeId) (found : List (StmtId × Switch)) : Prop :=
  ∀ fuel d, b.room n ≤ fuel → switchesWithin b fuel d n.toNode = found

variable {b : Body} {below : NodeId → List (StmtId × Switch)}

theorem flatMap_of_meets {ms : List NodeId} (h : ∀ m ∈ ms, b.Meets m (below m))
    (hf : ∀ m ∈ ms, b.room m ≤ fuel) (d : Nat) :
    (ms.map NodeId.toNode).flatMap (switchesWithin b fuel d) = ms.flatMap below := by
  rw [List.flatMap_map]
  exact List.flatMap_congr fun m hm => h m hm fuel d (hf m hm)

theorem clause_of_meets {c : Clause} (h : ∀ m ∈ c.mentions, b.Meets m (below m))
    (hf : ∀ m ∈ c.mentions, b.room m ≤ fuel) (d : Nat) :
    switchesWithin b (fuel + 1) d (.clause c) = c.mentions.flatMap below := by
  rw [switchesWithin_succ, children_clause, flatMap_of_meets h hf]
  rfl

theorem switch_of_meets {s : Switch} (h : ∀ m ∈ (Stmt.switch s).parts, b.Meets m (below m))
    (hf : ∀ m ∈ (Stmt.switch s).parts, b.room m ≤ fuel) (id : StmtId) (d : Nat) :
    switchesWithin b (fuel + 2) d (.switch id s) =
      (id, s) :: (Stmt.switch s).parts.flatMap below := by
  have hp : (Stmt.switch s).parts = s.init.toList.map .stmt ++ s.tag.toList.map .expr ++
    s.clauses.flatMap Clause.mentions := rfl
  rw [hp] at h hf ⊢
  rw [List.forall_mem_append] at h hf
  -- The clauses take a level of their own, so the parts of the switch are met at two levels.
  rw [switchesWithin_succ, children_switch, List.flatMap_append, List.flatMap_append,
    flatMap_of_meets h.1 fun m hm => Nat.le_succ_of_le (hf.1 m hm), List.flatMap_map,
    List.flatMap_assoc]
  have hc : ∀ c ∈ s.clauses, switchesWithin b (fuel + 1) (d + 1) (.clause c) =
      c.mentions.flatMap below := by
    intro c hc
    apply clause_of_meets
    · exact fun m hm => h.2 m (List.mem_flatMap.2 ⟨c, hc, hm⟩)
    · exact fun m hm => hf.2 m (List.mem_flatMap.2 ⟨c, hc, hm⟩)
  rw [List.flatMap_congr hc]
  rfl

theorem stmt_of_meets {id : StmtId} {s : Stmt} (hs : b.stmt? id = some s)
    (h : ∀ m ∈ s.parts, b.Meets m (below m)) (hf : ∀ m ∈ s.parts, b.room m ≤ fuel) (d : Nat) :
    switchesWithin b (fuel + 3) d (.stmt id) =
      (b.switchAt? (.stmt id)).toList ++ s.parts.flatMap below := by
  have hf' (k : Nat) (m : NodeId) (hm : m ∈ s.parts) : b.room m ≤ fuel + k :=
    Nat.le_add_right_of_le (hf m hm)
  have hc : Node.children b (.stmt id) = s.children id := by simp only [children, hs]
  rw [switchesWithin_succ, hc, switchAt?, hs]
  cases s with
  | switch s =>
    rw [Stmt.children, List.flatMap_singleton, switch_of_meets h hf]
    rfl
  | typeSwitch s =>
    rw [Stmt.children, List.flatMap_singleton, switchesWithin_succ, children_typeSwitch,
      flatMap_of_meets h (hf' 1)]
    rfl
  | _ =>
    rw [Stmt.children_eq id (by simp) (by simp), flatMap_of_meets h (hf' 2)]
    rfl

theorem expr_of_meets {id : ExprId} {e : Expr} (he : b.expr? id = some e)
    (h : ∀ m ∈ e.mentions, b.Meets m (below m)) (hf : ∀ m ∈ e.mentions, b.room m ≤ fuel)
    (d : Nat) : switchesWithin b (fuel + 1) d (.expr id) = e.mentions.flatMap below := by
  have hc : Node.children b (.expr id) = e.mentions.map NodeId.toNode := by
    simp only [children, he, Expr.children_eq]
  rw [switchesWithin_succ, hc, flatMap_of_meets h hf]
  rfl

/-- A traversal of a node meets the switch that the node is, and then those of its parts. -/
theorem Acyclic.meets_of_parts (h : b.Acyclic) (hm : ∀ m ∈ b.parts n, b.Meets m (below m)) :
    b.Meets n ((b.switchAt? n).toList ++ (b.parts n).flatMap below) := by
  intro fuel d hf
  have hroom (m : NodeId) (hm : m ∈ b.parts n) : b.room m + n.weight ≤ b.room n := h.room_part hm
  cases n with
  | stmt id =>
    cases hs : b.stmt? id with
    | none =>
      have hc : Node.children b (.stmt id) = [] := by simp only [children, hs]
      simp only [parts, switchAt?, hs]
      exact switchesWithin_leaf hc rfl fuel d
    | some s =>
      have hw : 3 ≤ b.room (.stmt id) := weight_le_room (has_of_stmt? hs)
      have hp : b.parts (.stmt id) = s.parts := by simp only [parts, hs]
      rw [hp] at hm hroom ⊢
      obtain ⟨k, rfl⟩ : ∃ k, fuel = k + 3 := ⟨fuel - 3, by omega⟩
      apply stmt_of_meets hs hm
      intro m hmem
      have hle : b.room m + 3 ≤ b.room (.stmt id) := hroom m hmem
      omega
  | expr id =>
    cases he : b.expr? id with
    | none =>
      have hc : Node.children b (.expr id) = [] := by simp only [children, he]
      simp only [parts, mentions, switchAt?, he]
      exact switchesWithin_leaf hc rfl fuel d
    | some e =>
      have hw : 1 ≤ b.room (.expr id) := weight_le_room (has_of_expr? he)
      have hp : b.parts (.expr id) = e.mentions := by simp only [parts, mentions, he]
      rw [hp] at hm hroom ⊢
      obtain ⟨k, rfl⟩ : ∃ k, fuel = k + 1 := ⟨fuel - 1, by omega⟩
      apply expr_of_meets he hm
      intro m hmem
      have hle : b.room m + 1 ≤ b.room (.expr id) := hroom m hmem
      omega

theorem Acyclic.meets_preorderWithin (h : b.Acyclic) (hk : b.room n < k) :
    b.Meets n ((b.preorderWithin k n).filterMap b.switchAt?) := by
  induction k generalizing n with
  | zero => omega
  | succ k ih =>
    have hparts : ∀ m ∈ b.parts n, b.Meets m ((b.preorderWithin k m).filterMap b.switchAt?) :=
      fun m hm => ih (Nat.lt_of_lt_of_le (h.room_lt hm) (Nat.le_of_lt_succ hk))
    have hm := h.meets_of_parts hparts
    rw [preorderWithin, List.filterMap_cons, List.filterMap_flatMap]
    cases hs : b.switchAt? n <;> rw [hs] at hm <;> exact hm

/-- A traversal meets the switches of a body in preorder. -/
theorem Acyclic.switches_eq (h : b.Acyclic) :
    b.switches = b.preorder.filterMap b.switchAt? := by
  rw [switches, nodes, walk, preorder, List.map_flatMap, List.filterMap_flatMap,
    List.filterMap_flatMap, List.flatMap_map]
  apply List.flatMap_congr
  intro s _
  exact h.meets_preorderWithin (Nat.lt_succ_of_le (b.room_le_maxDepth _)) _ _
    (b.room_le_maxDepth (.stmt s))

theorem Acyclic.mem_switches (h : b.Acyclic) {id : StmtId} :
    (id, s) ∈ b.switches ↔ b.Reaches (.stmt id) ∧ b.stmt? id = some (.switch s) := by
  simp only [h.switches_eq, List.mem_filterMap, switchAt?_eq_some, h.mem_preorder]
  constructor
  · rintro ⟨n, hn, rfl, hs⟩
    exact ⟨hn, hs⟩
  · rintro ⟨hn, hs⟩
    exact ⟨_, hn, rfl, hs⟩

end Body

end SwitchCover
