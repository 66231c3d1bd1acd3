import SwitchCover.Proofs.Coverage
import SwitchCover.Proofs.ProgramValid

namespace SwitchCover

namespace Strict

theorem mapM_eq_some {l : List α} {f : α → Option β} {g : α → β}
    (h : ∀ a ∈ l, f a = some (g a)) : l.mapM f = some (l.map g) := by
  induction l with
  | nil => rfl
  | cons a l ih =>
    rw [List.mapM_cons, h a List.mem_cons_self, ih fun b hb => h b (List.mem_cons_of_mem a hb)]
    rfl

/-- A loop whose steps succeed and keep an invariant. -/
theorem foldlM_eq_some_of_inv {l : List α} {f : σ → α → Option σ} {g : σ → α → σ} {I : σ → Prop}
    (hs : I s) (h : ∀ s, I s → ∀ a ∈ l, f s a = some (g s a) ∧ I (g s a)) :
    l.foldlM f s = some (l.foldl g s) := by
  induction l generalizing s with
  | nil => rfl
  | cons a l ih =>
    obtain ⟨ha, hi⟩ := h s hs a List.mem_cons_self
    rw [List.foldlM_cons, ha]
    exact ih hi fun t ht b hb => h t ht b (List.mem_cons_of_mem a hb)

theorem foldlM_eq_some {l : List α} {f : σ → α → Option σ} {g : σ → α → σ}
    (h : ∀ s, ∀ a ∈ l, f s a = some (g s a)) (s : σ) : l.foldlM f s = some (l.foldl g s) :=
  foldlM_eq_some_of_inv (I := fun _ => True) trivial fun s _ a ha => ⟨h s a ha, trivial⟩

def unparen (b : Body) : Nat → ExprId → Option ExprId
  | 0, _ => none
  | fuel + 1, e => do
    match ← b.expr? e with
    | .paren inner => unparen b fuel inner
    | _ => return e

def children (b : Body) : Node → Option (List Node)
  | .stmt id => (b.stmt? id).map (Stmt.children id)
  | .expr id => (b.expr? id).map Expr.children
  | n => some (n.children b)

def walk (b : Body) : Nat → Node → Option (List Node)
  | 0, _ => none
  | fuel + 1, n => do
    let below ← (← children b n).mapM (walk b fuel)
    return n :: below.flatten

def nodes (b : Body) (fuel : Nat) : Option (List Node) := do
  let found ← b.root.mapM fun s => walk b fuel (.stmt s)
  return found.flatten

def display (table : TypeTable) : Nat → TyId → Option String
  | 0, _ => none
  | fuel + 1, ty => do
    match ← table.data? ty with
    | .pointer elem => return "*" ++ (← display table fuel elem)
    | .slice elem => return "[]" ++ (← display table fuel elem)
    | .signature params results =>
      let params ← params.mapM (display table fuel)
      let results ← results.mapM (display table fuel)
      let head := "func(" ++ ", ".intercalate params ++ ")"
      match results with
      | [] => return head
      | [result] => return head ++ " " ++ result
      | results => return head ++ " (" ++ ", ".intercalate results ++ ")"
    | data => return data.render fun _ => ""

def reach (g : ImportGraph) : Nat → List PackagePath → List PackagePath → Option (List PackagePath)
  | 0, _, _ => none
  | _ + 1, [], seen => some seen
  | fuel + 1, p :: stack, seen =>
    if p ∈ seen then
      reach g fuel stack seen
    else
      let seen := seen ++ [p]
      reach g fuel ((g.targetsOf p).filter (· ∉ seen) ++ stack) seen

def closure (g : ImportGraph) (fuel : Nat) (p : PackagePath) : Option Closure := do
  return .ofList (← reach g fuel [p] [])

end Strict

theorem TypeTable.data?_of_has {table : TypeTable} (h : table.Has ty) :
    ∃ data, table.data? ty = some data :=
  ⟨_, List.getElem?_eq_getElem h⟩

theorem Body.Ordered.has_paren {b : Body} (h : b.Ordered) (hp : b.expr? d = some (.paren c)) :
    b.Has (.expr c) := by
  obtain ⟨stamp, h⟩ := h
  apply (h.mention (.expr d) (.expr c) ?_).1
  simp only [Body.mentions, hp, Expr.mentions, List.mem_singleton]

theorem Body.Strips.has {b : Body} (hs : b.Strips n d e) (h : b.Ordered) (hd : b.Has (.expr d)) :
    b.Has (.expr e) := by
  induction hs with
  | bare => exact hd
  | paren hp _ ih => exact ih (h.has_paren hp)

theorem Body.Ordered.has_unparen {b : Body} (h : b.Ordered) (hd : b.Has (.expr d)) :
    b.Has (.expr (b.unparen d)) := by
  obtain ⟨n, e, hs⟩ := h.strips d
  rw [hs.unparen]
  exact hs.has h hd

namespace Strict

theorem unparen_of_strips {b : Body} (h : b.Ordered) (hd : b.Has (.expr d)) (hs : b.Strips n d e)
    (hf : n < fuel) : unparen b fuel d = some e := by
  induction hs generalizing fuel with
  | @bare e hb =>
    obtain ⟨k, rfl⟩ := Nat.exists_eq_add_one_of_ne_zero (Nat.ne_zero_of_lt hf)
    obtain ⟨x, hx⟩ := Body.expr?_of_has hd
    rw [unparen, hx]
    cases x with
    | paren inner => exact absurd hx (hb inner)
    | _ => rfl
  | paren hp _ ih =>
    obtain ⟨k, rfl⟩ := Nat.exists_eq_add_one_of_ne_zero (Nat.ne_zero_of_lt hf)
    rw [unparen, hp]
    exact ih (h.has_paren hp) (Nat.lt_of_succ_lt_succ hf)

theorem unparen_eq {b : Body} (h : b.Ordered) (hd : b.Has (.expr d)) (hf : b.maxDepth < fuel) :
    unparen b fuel d = some (b.unparen d) := by
  obtain ⟨n, e, hs⟩ := h.strips d
  have hn : n ≤ b.maxDepth := Nat.le_trans hs.length_le (Nat.le_add_left _ _)
  rw [hs.unparen, unparen_of_strips h hd hs (Nat.lt_of_le_of_lt hn hf)]

end Strict

namespace Node

/-- A node that is traversed within `k` levels and refers only to nodes of the body. -/
def Fits (b : Body) (stamp : NodeId → Nat) (k : Nat) : Node → Prop
  | stmt s => b.Has (.stmt s) ∧ stamp (.stmt s) ≤ k
  | switch _ s => 2 ≤ k ∧ ∀ m ∈ (Stmt.switch s).parts, b.Has m ∧ stamp m + 2 ≤ k
  | typeSwitch _ s => 2 ≤ k ∧ ∀ m ∈ (Stmt.typeSwitch s).parts, b.Has m ∧ stamp m + 2 ≤ k
  | clause c => 1 ≤ k ∧ ∀ m ∈ c.mentions, b.Has m ∧ stamp m + 1 ≤ k
  | expr e => b.Has (.expr e) ∧ stamp (.expr e) ≤ k

theorem fits_toNode {n : NodeId} : Fits b stamp k n.toNode ↔ b.Has n ∧ stamp n ≤ k := by
  cases n <;> rfl

theorem Fits.stmt_children {b : Body} {id : StmtId} (h : b.Stamped stamp) (hs : b.stmt? id = some s)
    (hk : stamp (.stmt id) ≤ k) (hm : m ∈ s.children id) : Fits b stamp (k - 1) m := by
  have hw : 3 ≤ stamp (.stmt id) := h.weight_le _ (Body.has_of_stmt? hs)
  have hp : ∀ n ∈ s.parts, b.Has n ∧ stamp n + 3 ≤ stamp (.stmt id) := by
    intro n hn
    apply h.mention (.stmt id) n
    simpa only [Body.mentions, hs] using s.parts_subset_mentions hn
  cases s with
  | switch s =>
    rw [List.mem_singleton.1 hm]
    refine ⟨by omega, fun n hn => ⟨(hp n hn).1, ?_⟩⟩
    have := (hp n hn).2
    omega
  | typeSwitch s =>
    rw [List.mem_singleton.1 hm]
    refine ⟨by omega, fun n hn => ⟨(hp n hn).1, ?_⟩⟩
    have := (hp n hn).2
    omega
  | _ =>
    rw [Stmt.children_eq id (by simp) (by simp)] at hm
    obtain ⟨n, hn, rfl⟩ := List.mem_map.1 hm
    have := (hp n hn).2
    exact fits_toNode.2 ⟨(hp n hn).1, by omega⟩

theorem Fits.children {b : Body} (h : b.Stamped stamp) (hn : Fits b stamp k n) :
    0 < k ∧ Strict.children b n = some (n.children b) ∧
      ∀ m ∈ n.children b, Fits b stamp (k - 1) m := by
  cases n with
  | stmt id =>
    obtain ⟨hb, hk⟩ := hn
    obtain ⟨s, hs⟩ := Body.stmt?_of_has hb
    have hw : 3 ≤ stamp (.stmt id) := h.weight_le _ hb
    simp only [Strict.children, Node.children, hs, Option.map_some, true_and]
    exact ⟨by omega, fun m hm => Fits.stmt_children h hs hk hm⟩
  | switch id s =>
    obtain ⟨hk, hp⟩ := hn
    refine ⟨by omega, rfl, ?_⟩
    intro m hm
    simp only [Stmt.parts, Stmt.mentions, List.mem_append, List.mem_flatMap] at hp
    simp only [Node.children, List.mem_append, List.mem_map] at hm
    rcases hm with (⟨t, ht, rfl⟩ | ⟨e, he, rfl⟩) | ⟨c, hc, rfl⟩
    · obtain ⟨hb, hlt⟩ := hp _ (.inl (.inl (List.mem_map_of_mem ht)))
      exact ⟨hb, by omega⟩
    · obtain ⟨hb, hlt⟩ := hp _ (.inl (.inr (List.mem_map_of_mem he)))
      exact ⟨hb, by omega⟩
    · refine ⟨by omega, fun n hn => ?_⟩
      obtain ⟨hb, hlt⟩ := hp n (.inr ⟨c, hc, hn⟩)
      exact ⟨hb, by omega⟩
  | typeSwitch id s =>
    obtain ⟨hk, hp⟩ := hn
    refine ⟨by omega, rfl, ?_⟩
    intro m hm
    rw [children_typeSwitch] at hm
    obtain ⟨n, hn, rfl⟩ := List.mem_map.1 hm
    obtain ⟨hb, hlt⟩ := hp n hn
    exact fits_toNode.2 ⟨hb, by omega⟩
  | clause c =>
    obtain ⟨hk, hp⟩ := hn
    refine ⟨by omega, rfl, ?_⟩
    intro m hm
    rw [children_clause] at hm
    obtain ⟨n, hn, rfl⟩ := List.mem_map.1 hm
    obtain ⟨hb, hlt⟩ := hp n hn
    exact fits_toNode.2 ⟨hb, by omega⟩
  | expr id =>
    obtain ⟨hb, hk⟩ := hn
    obtain ⟨e, he⟩ := Body.expr?_of_has hb
    have hw : 1 ≤ stamp (.expr id) := h.weight_le _ hb
    simp only [Strict.children, Node.children, he, Option.map_some, true_and]
    refine ⟨by omega, ?_⟩
    intro m hm
    rw [Expr.children_eq] at hm
    obtain ⟨n, hn, rfl⟩ := List.mem_map.1 hm
    obtain ⟨hb, hlt⟩ := h.mention (.expr id) n (by simpa only [Body.mentions, he] using hn)
    simp only [NodeId.weight] at hlt
    exact fits_toNode.2 ⟨hb, by omega⟩

end Node

namespace Strict

theorem walk_eq {b : Body} (h : b.Stamped stamp) (hn : Node.Fits b stamp k n) (hk : k ≤ fuel)
    (hk' : k ≤ fuel') (d : Nat) :
    walk b fuel n = some ((Node.walkWithin b fuel' d n).map Prod.snd) := by
  induction k generalizing n fuel fuel' d with
  | zero => exact absurd (hn.children h).1 (Nat.lt_irrefl 0)
  | succ k ih =>
    obtain ⟨_, hc, hm⟩ := hn.children h
    obtain ⟨fuel, rfl⟩ : ∃ j, fuel = j + 1 := ⟨fuel - 1, by omega⟩
    obtain ⟨fuel', rfl⟩ : ∃ j, fuel' = j + 1 := ⟨fuel' - 1, by omega⟩
    have hbelow := mapM_eq_some fun m hmem =>
      ih (hm m hmem) (Nat.le_of_succ_le_succ hk) (Nat.le_of_succ_le_succ hk') (d + 1)
    simp only [walk, hc, Option.bind_eq_bind, Option.bind_some, hbelow, Node.walkWithin,
      List.map_cons, List.map_flatMap, pure]
    rfl

theorem nodes_eq {b : Body} (h : b.Ordered) (hr : b.Rooted) (hf : b.maxDepth ≤ fuel) :
    nodes b fuel = some b.nodes := by
  obtain ⟨stamp, h⟩ := h
  have hw := mapM_eq_some (l := b.root) fun s hs =>
    walk_eq h (Node.fits_toNode.2 ⟨hr s hs, Nat.le_refl _⟩)
      (Nat.le_trans (h.le_maxDepth _ (hr s hs)) hf) (h.le_maxDepth _ (hr s hs)) 0
  simp only [NodeId.toNode] at hw
  simp only [nodes, hw, Body.nodes, Body.walk, List.map_flatMap, Option.bind_eq_bind,
    Option.bind_some, pure]
  rfl

theorem display_eq {table : TypeTable} (h : table.Valid) (ht : table.Has ty)
    (hf : ty.index < fuel) (hf' : ty.index < fuel') :
    display table fuel ty = some (table.displayWithin fuel' ty) := by
  induction fuel generalizing ty fuel' with
  | zero => exact absurd hf (Nat.not_lt_zero _)
  | succ fuel ih =>
    obtain ⟨fuel', rfl⟩ : ∃ j, fuel' = j + 1 := ⟨fuel' - 1, by omega⟩
    obtain ⟨data, hd⟩ := TypeTable.data?_of_has ht
    have hc : ∀ c ∈ data.components,
        display table fuel c = some (table.displayWithin fuel' c) := by
      intro c hc
      have hlt := h ty data hd c hc
      exact ih (Nat.lt_trans hlt ht) (by omega) (by omega)
    simp only [display, TypeTable.displayWithin, hd, Option.bind_eq_bind, Option.bind_some]
    cases data with
    | pointer elem =>
      simp only [hc elem List.mem_cons_self, Option.bind_some, TyData.render, pure]
    | slice elem =>
      simp only [hc elem List.mem_cons_self, Option.bind_some, TyData.render, pure]
    | signature params results =>
      have hp := mapM_eq_some fun c hm => hc c (List.mem_append_left results hm)
      have hr := mapM_eq_some fun c hm => hc c (List.mem_append_right params hm)
      simp only [hp, hr, Option.bind_some, TyData.render]
      match results with
      | [] => rfl
      | [result] => rfl
      | result :: result' :: more => rfl
    | _ => rfl

theorem reach_eq {g : ImportGraph} {stack seen : List PackagePath}
    (hn : g.pending stack seen ≤ n) (hfuel : g.pending stack seen < fuel) :
    reach g fuel stack seen = some (g.walk n stack seen) := by
  induction fuel generalizing n stack seen with
  | zero => exact absurd hfuel (Nat.not_lt_zero _)
  | succ fuel ih =>
    cases stack with
    | nil => cases n <;> rfl
    | cons p stack =>
      have hpos : 0 < g.pending (p :: stack) seen :=
        Nat.lt_of_le_of_lt (Nat.zero_le _) (g.pending_pop_lt p stack seen)
      obtain ⟨n, rfl⟩ : ∃ j, n = j + 1 := ⟨n - 1, by omega⟩
      rw [reach, ImportGraph.walk]
      by_cases hp : p ∈ seen
      · have hlt := g.pending_pop_lt p stack seen
        rw [if_pos hp, if_pos hp]
        exact ih (by omega) (by omega)
      · have hlt := g.pending_visit_lt stack hp
        rw [if_neg hp, if_neg hp]
        exact ih (by omega) (by omega)

theorem closure_eq (g : ImportGraph) (p : PackagePath) (hf : g.importCount + 1 < fuel) :
    closure g fuel p = some (g.closure p) := by
  have hp := g.pending_start p
  rw [closure, reach_eq hp.le (hp ▸ hf)]
  rfl

end Strict

end SwitchCover
