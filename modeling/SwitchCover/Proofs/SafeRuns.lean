import SwitchCover.Proofs.CreationOrder
import SwitchCover.Proofs.StrictRuns

namespace SwitchCover

namespace Body

def nodeIds (b : Body) : List NodeId :=
  b.stmts.flatMap (fun node => node.stmt.mentions) ++
    b.exprs.flatMap (fun node => node.expr.mentions) ++ b.root.map .stmt

def tyIds (b : Body) : List TyId :=
  b.exprs.filterMap fun node => node.typing.map Typing.ty

theorem Valid.has_of_mem_nodeIds {b : Body} (h : b.Valid table) (hn : n ∈ b.nodeIds) :
    b.Has n := by
  obtain ⟨stamp, hs⟩ := h.ordered
  simp only [nodeIds, List.mem_append, List.mem_flatMap, List.mem_map] at hn
  rcases hn with (⟨node, hm, hn⟩ | ⟨node, hm, hn⟩) | ⟨s, hm, rfl⟩
  · obtain ⟨i, hi⟩ := List.mem_iff_getElem?.1 hm
    have hstmt : b.stmt? ⟨i⟩ = some node.stmt := congrArg (Option.map StmtNode.stmt) hi
    exact (hs.mention (.stmt ⟨i⟩) n (by rwa [mentions, hstmt])).1
  · obtain ⟨i, hi⟩ := List.mem_iff_getElem?.1 hm
    have hexpr : b.expr? ⟨i⟩ = some node.expr := congrArg (Option.map ExprNode.expr) hi
    exact (hs.mention (.expr ⟨i⟩) n (by rwa [mentions, hexpr])).1
  · exact h.rooted s hm

theorem Valid.has_of_mem_tyIds {b : Body} (h : b.Valid table) (ht : ty ∈ b.tyIds) :
    table.Has ty := by
  obtain ⟨node, hm, ht⟩ := List.mem_filterMap.1 ht
  obtain ⟨t, hty, rfl⟩ := Option.map_eq_some_iff.1 ht
  obtain ⟨i, hi⟩ := List.mem_iff_getElem?.1 hm
  have ht : b.typing? ⟨i⟩ = some t := by
    rw [typing?, exprNode?, hi]
    exact hty
  exact h.typed ⟨i⟩ t ht

end Body

namespace Level

variable {level : Level}

def locals : Level → List TyId
  | func _ g _ => g.locals.values
  | _ => []

theorem Valid.finished (h : level.Valid p) (hg : g ∈ level.funcs) : g.body.Valid p.types := by
  cases level with
  | program => cases hg
  | file f => exact h.bodies g hg
  | func f g' hs => exact h.1.bodies g hg

theorem Valid.openBody (h : level.Valid p) (hb : level.body? = some b) : b.Valid p.types := by
  cases level with
  | func f g hs =>
    cases hb
    exact h.2.1.body
  | _ => cases hb

theorem Valid.locals (h : level.Valid p) (ht : ty ∈ level.locals) : p.types.Has ty := by
  cases level with
  | func f g hs =>
    obtain ⟨⟨name, _⟩, he, rfl⟩ := List.mem_map.1 ht
    exact h.2.1.locals name _ (OrderedMap.get?_eq_some_iff.2 he)
  | _ => cases ht

end Level

namespace Workspace

/-- Types that occur in signatures and other types, in scopes, in bodies, in the open function and
among the types of the script. -/
def tyIds (w : Workspace) : List TyId :=
  w.program.types.types.flatMap TyData.components ++
    w.program.packages.values.flatMap (fun pkg => pkg.scope.items.values.flatMap ScopeItem.types) ++
    w.bodies.flatMap Body.tyIds ++ w.level.locals ++ w.slots

variable {w : Workspace}

theorem Valid.body (h : w.Valid) (hb : b ∈ w.bodies) : b.Valid w.program.types := by
  rcases List.mem_append.1 hb with hb | hb
  · rcases mem_finished.1 hb with ⟨f, hf, g, hg, rfl⟩ | ⟨g, hg, rfl⟩
    · exact (h.program.files _ f (h.program.checkedFile?_of_mem hf)).bodies g hg
    · exact h.level.finished hg
  · exact h.level.openBody (Option.mem_toList.1 hb)

theorem Valid.has_of_mem_tyIds (h : w.Valid) (ht : ty ∈ w.tyIds) : w.program.types.Has ty := by
  simp only [tyIds, List.mem_append, List.mem_flatMap] at ht
  rcases ht with (((⟨data, hm, ht⟩ | ⟨pkg, hm, item, hi, ht⟩) | ⟨b, hb, ht⟩) | ht) | ht
  · obtain ⟨i, hi⟩ := List.mem_iff_getElem?.1 hm
    have hlt := h.program.types ⟨i⟩ data hi ty ht
    exact Nat.lt_trans hlt (TypeTable.has_of_data? hi)
  · obtain ⟨⟨path, _⟩, hp, rfl⟩ := List.mem_map.1 hm
    obtain ⟨⟨name, _⟩, hn, rfl⟩ := List.mem_map.1 hi
    have hv := h.program.packages path _ (OrderedMap.get?_eq_some_iff.2 hp)
    exact (hv.scope name _ (OrderedMap.get?_eq_some_iff.2 hn)).has ty ht
  · exact (h.body hb).has_of_mem_tyIds ht
  · exact h.level.locals ht
  · exact h.slots ty ht

/-- Fuel for every traversal and every run on the program. -/
def fuel (w : Workspace) : Nat :=
  3 * (w.bodies.flatMap Body.stmts).length + (w.bodies.flatMap Body.exprs).length +
    w.program.types.size + w.program.graph.importCount + 2

theorem maxDepth_lt_fuel (hb : b ∈ w.bodies) : b.maxDepth < w.fuel := by
  have hs : b.stmts.length ≤ (w.bodies.flatMap Body.stmts).length :=
    (List.sublist_flatten_of_mem (List.mem_map_of_mem hb)).length_le
  have he : b.exprs.length ≤ (w.bodies.flatMap Body.exprs).length :=
    (List.sublist_flatten_of_mem (List.mem_map_of_mem hb)).length_le
  rw [fuel, Body.maxDepth]
  omega

theorem suffices_fuel (hf : w.fuel ≤ n) : Strict.Suffices w.program n where
  bodies := by
    intro f hm g hg
    have hb : g.body ∈ w.bodies :=
      List.mem_append_left _ (mem_finished.2 (.inl ⟨f, hm, g, hg, rfl⟩))
    exact Nat.lt_of_lt_of_le (maxDepth_lt_fuel hb) hf
  types := by
    rw [fuel] at hf
    omega
  imports := by
    rw [fuel] at hf
    omega

/-- After any script, every node of a body refers only to nodes that earlier commands made, every
id that is stored is in range, and with enough fuel strict evaluation finds the results of
stripping, traversing, showing types, checking files and whole runs. -/
theorem run_safe (cs : List Command) :
    let w := empty.run cs
    (∀ b ∈ w.bodies, ∃ cs' b₀ log root,
      cs' <+: cs ∧ Created cs' b₀ log ∧ b = { b₀ with root } ∧ Body.empty.Makes log b) ∧
    (∀ b ∈ w.bodies, ∀ n ∈ b.nodeIds, b.Has n) ∧
    (∀ ty ∈ w.tyIds, w.program.types.Has ty) ∧
    ∃ bound, ∀ fuel ≥ bound,
      (∀ b ∈ w.bodies, ∀ e, b.Has (.expr e) → Strict.unparen b fuel e = some (b.unparen e)) ∧
      (∀ b ∈ w.bodies, Strict.nodes b fuel = some b.nodes) ∧
      (∀ ty, w.program.types.Has ty →
        Strict.display w.program.types fuel ty = some (w.program.types.display ty)) ∧
      (∀ f ∈ w.program.checkedFiles.values, ∀ r settings,
        Strict.checkFile w.program r settings fuel f =
          some (Rule.checkFile w.program r settings f).value) ∧
      ∀ (c : Config) (rs : List Session.Request),
        let s := (Session.start w.program c).value.run rs
        Strict.runAll s fuel = some s.runAll.value := by
  intro w
  have h : w.Valid := run_valid cs
  refine ⟨fun b => created_of_mem_bodies, fun b hb n => (h.body hb).has_of_mem_nodeIds,
    fun ty => h.has_of_mem_tyIds, w.fuel, fun fuel hf => ?_⟩
  have hs := suffices_fuel hf
  have hdepth : ∀ b ∈ w.bodies, b.maxDepth < fuel :=
    fun b hb => Nat.lt_of_lt_of_le (maxDepth_lt_fuel hb) hf
  refine ⟨?_, ?_, ?_, ?_, ?_⟩
  · exact fun b hb e he => Strict.unparen_eq (h.body hb).ordered he (hdepth b hb)
  · intro b hb
    exact Strict.nodes_eq (h.body hb).ordered (h.body hb).rooted (Nat.le_of_lt (hdepth b hb))
  · intro ty hty
    exact Strict.display_eq h.program.types hty (Nat.lt_of_lt_of_le hty hs.types)
      (Nat.lt_succ_self _)
  · intro f hm r settings
    have hv := h.program.files _ f (h.program.checkedFile?_of_mem hm)
    exact Strict.checkFile_eq h.program.types hv.bodies (hs.bodies f hm) hs.types r settings
  · intro c rs
    exact Strict.runAll_eq h.program ((Session.keeps_start w.program c).run rs) hs

end Workspace

end SwitchCover
