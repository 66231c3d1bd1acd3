import SwitchCover.Proofs.Folding
import SwitchCover.Proofs.Histories
import SwitchCover.Proofs.SafeRuns

namespace SwitchCover

namespace Body

variable {b b' : Body} {m m' : ExprId → Meaning}

/-- Two bodies agree on what the folding of other expressions takes from an expression. -/
def SameFacts (b b' : Body) (d : ExprId) : Prop :=
  b'.value? d = b.value? d ∧ b'.isTypeExpr d = b.isTypeExpr d

theorem newIsType_congr (h : ∀ d, .expr d ∈ expr.mentions → b.SameFacts b' d) (μ : Meaning) :
    b'.newIsType μ expr = b.newIsType μ expr := by
  cases expr with
  | paren inner => exact (h inner List.mem_cons_self).2
  | _ => rfl

theorem newValue_congr (hb : b.MarksTyped) (hb' : b'.MarksTyped)
    (h : ∀ d, .expr d ∈ expr.mentions → b.SameFacts b' d) (μ : Meaning) :
    b'.newValue μ expr = b.newValue μ expr := by
  cases expr with
  | paren inner => exact (h inner List.mem_cons_self).1
  | unary op d => simp only [newValue, (h d List.mem_cons_self).1]
  | binary l op r =>
    have hl := (h l List.mem_cons_self).1
    have hr := (h r (List.mem_cons_of_mem _ List.mem_cons_self)).1
    simp only [newValue, hl, hr]
  | call callee args =>
    cases args with
    | nil => rfl
    | cons arg rest =>
      cases rest with
      | nil =>
        have hc := (h callee List.mem_cons_self).2
        have ha := (h arg (List.mem_cons_of_mem _ List.mem_cons_self)).1
        rw [hb.newValue_call, hb'.newValue_call, hc, ha]
      | cons => rfl
  | _ => rfl

theorem exprNode?_addExpr_of_has (h : b.Has (.expr d)) (node : ExprNode) :
    (b.addExpr node).exprNode? d = b.exprNode? d := by
  rw [exprNode?_addExpr, if_neg]
  rintro rfl
  exact Nat.lt_irrefl _ h

theorem exprNode?_addExpr_new (b : Body) (node : ExprNode) :
    (b.addExpr node).exprNode? ⟨b.exprs.length⟩ = some node := by
  rw [exprNode?_addExpr, if_pos rfl]

theorem has_addExpr (b : Body) (node : ExprNode) :
    (b.addExpr node).Has (.expr e) ↔ b.Has (.expr e) ∨ e = ⟨b.exprs.length⟩ := by
  obtain ⟨i⟩ := e
  simp only [Has, addExpr, List.length_append, List.length_singleton, ExprId.mk.injEq]
  omega

theorem expr?_addExpr_of_has (h : b.Has (.expr e)) (node : ExprNode) :
    (b.addExpr node).expr? e = b.expr? e := by
  rw [expr?, exprNode?_addExpr_of_has h, expr?]

theorem expr?_addExpr_cases (hx : (b.addExpr node).expr? e = some expr) :
    (e = ⟨b.exprs.length⟩ ∧ expr = node.expr) ∨
      e ≠ ⟨b.exprs.length⟩ ∧ b.Has (.expr e) ∧ b.expr? e = some expr := by
  rcases (has_addExpr b node).1 (has_of_expr? hx) with he | rfl
  · rw [expr?_addExpr_of_has he] at hx
    refine .inr ⟨?_, he, hx⟩
    rintro rfl
    exact Nat.lt_irrefl _ he
  · rw [expr?, exprNode?_addExpr_new] at hx
    exact .inl ⟨rfl, (Option.some.inj hx).symm⟩

theorem Descends.has_old (hb : (b.addExpr node).Descends)
    (hx : (b.addExpr node).expr? e = some expr) (hd : .expr d ∈ expr.mentions) :
    b.Has (.expr d) := by
  have hlt := hb e expr d hx hd
  have he : e.index < (b.exprs ++ [node]).length := has_of_expr? hx
  rw [List.length_append, List.length_singleton] at he
  exact Nat.lt_of_lt_of_le hlt (Nat.le_of_lt_succ he)

theorem sameFacts_addExpr (h : b.Has (.expr d)) (node : ExprNode) :
    b.SameFacts (b.addExpr node) d := by
  simp only [SameFacts, value?, typing?, isTypeExpr, exprNode?_addExpr_of_has h, and_self]

theorem Explained.marksTyped_addExpr (h : b.Explained m) (hn : node.Agrees b μ) :
    (b.addExpr node).MarksTyped := by
  intro e he
  by_cases hnew : e = ⟨b.exprs.length⟩
  · subst hnew
    simp only [isTypeExpr, typing?, exprNode?_addExpr_new, Option.any_some, Option.bind_some]
      at he ⊢
    rcases hn.typed he with ht | ⟨inner, hp, hi⟩
    · exact ht
    · -- The type of the inner expression was copied, and a type is never without one.
      have hm : b.isTypeExpr inner := by rw [← he, hn.isType, hp, newIsType]
      have hs := h.typed inner hm
      rw [hi] at hs
      cases hs
  · simp only [isTypeExpr, typing?, exprNode?_addExpr, if_neg hnew] at he ⊢
    exact h.typed e he

theorem Explained.addExpr (h : b.Explained m) (hn : node.Agrees b μ)
    (hb : (b.addExpr node).Descends) :
    (b.addExpr node).Explained (Function.update m ⟨b.exprs.length⟩ μ) := by
  have hmarks := h.marksTyped_addExpr hn
  have hsame {e : ExprId} {expr : Expr} (hx : (b.addExpr node).expr? e = some expr) (d : ExprId)
      (hd : .expr d ∈ expr.mentions) : b.SameFacts (b.addExpr node) d :=
    sameFacts_addExpr (hb.has_old hx hd) node
  refine ⟨?_, ?_, ?_, hmarks⟩
  · intro e expr hx
    rw [newValue_congr h.typed hmarks (hsame hx)]
    rcases expr?_addExpr_cases hx with ⟨rfl, rfl⟩ | ⟨hne, he, hx⟩
    · rw [Function.update_self, ← hn.value, value?, typing?, exprNode?_addExpr_new]
      rfl
    · rw [Function.update_of_ne hne, (sameFacts_addExpr he node).1, h.value e expr hx]
  · intro e expr hx
    rw [newIsType_congr (hsame hx)]
    rcases expr?_addExpr_cases hx with ⟨rfl, rfl⟩ | ⟨hne, he, hx⟩
    · rw [Function.update_self, ← hn.isType, isTypeExpr, exprNode?_addExpr_new]
      rfl
    · rw [Function.update_of_ne hne, (sameFacts_addExpr he node).2, h.isType e expr hx]
  · intro e expr hx
    rcases expr?_addExpr_cases hx with ⟨rfl, rfl⟩ | ⟨hne, he, hx⟩
    · rw [Function.update_self, ← hn.package, packageRef?, exprNode?_addExpr_new]
      rfl
    · rw [Function.update_of_ne hne, packageRef?, exprNode?_addExpr_of_has he]
      exact h.package e expr hx

theorem expr?_setTyping (b : Body) (e d : ExprId) (t : Typing) :
    (b.setTyping e t).expr? d = b.expr? d := by
  simp only [expr?, setTyping, exprNode?_modifyExpr]
  split
  next h =>
    subst h
    cases b.exprNode? d <;> rfl
  next => rfl

theorem isTypeExpr_setTyping (b : Body) (e d : ExprId) (t : Typing) :
    (b.setTyping e t).isTypeExpr d = b.isTypeExpr d := by
  simp only [isTypeExpr, setTyping, exprNode?_modifyExpr]
  split
  · cases b.exprNode? d <;> rfl
  · rfl

theorem packageRef?_setTyping (b : Body) (e d : ExprId) (t : Typing) :
    (b.setTyping e t).packageRef? d = b.packageRef? d := by
  simp only [packageRef?, setTyping, exprNode?_modifyExpr]
  split
  · cases b.exprNode? d <;> rfl
  · rfl

theorem typing?_setTyping (h : b.Has (.expr e)) (t : Typing) (d : ExprId) :
    (b.setTyping e t).typing? d = if d = e then some t else b.typing? d := by
  obtain ⟨node, hn⟩ : ∃ node, b.exprNode? e = some node := ⟨_, List.getElem?_eq_getElem h⟩
  simp only [typing?, setTyping, exprNode?_modifyExpr]
  split
  next hd =>
    rw [hd, hn]
    rfl
  next => rfl

/-- A local variable gets a type. It has no value, before and after. -/
theorem Explained.setTyping (h : b.Explained m) (hx : b.expr? e = some (.ident name))
    (hm : m e = .other) (ty : TyId) : (b.setTyping e ⟨ty, none⟩).Explained m := by
  have hhas : b.Has (.expr e) := has_of_expr? hx
  have hnone : b.value? e = none := by
    rw [h.value e _ hx, hm]
    rfl
  have hmarks : (b.setTyping e ⟨ty, none⟩).MarksTyped := by
    intro d hd
    rw [isTypeExpr_setTyping] at hd
    rw [typing?_setTyping hhas]
    split
    · rfl
    · exact h.typed d hd
  have hsame (d : ExprId) : b.SameFacts (b.setTyping e ⟨ty, none⟩) d := by
    refine ⟨?_, isTypeExpr_setTyping b e d _⟩
    rw [value?, typing?_setTyping hhas]
    split
    next hd => rw [hd, hnone, Option.bind_some]
    next => rfl
  refine ⟨?_, ?_, ?_, hmarks⟩
  · intro d expr hd
    rw [expr?_setTyping] at hd
    rw [newValue_congr h.typed hmarks fun d _ => hsame d, (hsame d).1, h.value d expr hd]
  · intro d expr hd
    rw [expr?_setTyping] at hd
    rw [newIsType_congr fun d _ => hsame d, (hsame d).2, h.isType d expr hd]
  · intro d expr hd
    rw [expr?_setTyping] at hd
    rw [packageRef?_setTyping, h.package d expr hd]

theorem Explained.of_exprs (h : b.Explained m) (hb : b'.exprs = b.exprs) : b'.Explained m := by
  obtain ⟨exprs, stmts, root⟩ := b
  obtain ⟨exprs', stmts', root'⟩ := b'
  cases hb
  exact ⟨h.value, h.isType, h.package, h.typed⟩

theorem explained_empty (m : ExprId → Meaning) : empty.Explained m where
  value := fun e expr hx => by cases hx
  isType := fun e expr hx => by cases hx
  package := fun e expr hx => by cases hx
  typed := fun e he => by cases he

theorem Descends.of_addExpr (h : (b.addExpr node).Descends) : b.Descends := by
  intro e expr d hx hd
  refine h e expr d ?_ hd
  rw [expr?_addExpr_of_has (has_of_expr? hx), hx]

end Body

def Inputs.leaf (I : Inputs) (m : ExprId → Meaning) : Expr → Meaning
  | .ident name => I.names name
  | .selector base name => I.member (m base).package? name
  | _ => .other

theorem Inputs.leaf_congr (I : Inputs) (h : ∀ d, .expr d ∈ expr.mentions → m' d = m d) :
    I.leaf m' expr = I.leaf m expr := by
  cases expr with
  | selector base member => rw [leaf, leaf, h base List.mem_cons_self]
  | _ => rfl

theorem Inputs.meaning_eq_leaf (I : Inputs) (h : b.Explained m)
    (hd : ∀ d, .expr d ∈ expr.mentions → b.Has (.expr d)) : I.meaning b expr = I.leaf m expr := by
  cases expr with
  | selector base member =>
    obtain ⟨expr, hx⟩ := Body.expr?_of_has (hd base List.mem_cons_self)
    rw [meaning, leaf, h.package base expr hx]
  | _ => rfl

/-- The meanings `m` extend `m₀` to the expressions of `b` that are not in `b₀`. -/
structure Inputs.Extends (I : Inputs) (b₀ b : Body) (m₀ m : ExprId → Meaning) : Prop where
  old : ∀ e, b₀.Has (.expr e) → m e = m₀ e
  new : ∀ e expr, ¬b₀.Has (.expr e) → b.expr? e = some expr → m e = I.leaf m expr

theorem Inputs.Extends.addExpr {I : Inputs} (h : I.Extends b₀ b m₀ m) (hx : b.Explained m)
    (hb : (b.addExpr node).Descends) (hhas : ∀ e, b₀.Has (.expr e) → b.Has (.expr e)) :
    I.Extends b₀ (b.addExpr node) m₀
      (Function.update m ⟨b.exprs.length⟩ (I.meaning b node.expr)) := by
  have hold {e : ExprId} (he : b.Has (.expr e)) :
      Function.update m ⟨b.exprs.length⟩ (I.meaning b node.expr) e = m e := by
    apply Function.update_of_ne
    rintro rfl
    exact Nat.lt_irrefl _ he
  constructor
  · intro e he
    rw [hold (hhas e he), h.old e he]
  · intro e expr hnew he
    rw [I.leaf_congr fun d hd => hold (hb.has_old he hd)]
    rcases Body.expr?_addExpr_cases he with ⟨rfl, rfl⟩ | ⟨_, he', hx'⟩
    · rw [Function.update_self]
      exact I.meaning_eq_leaf hx fun d hd => hb.has_old he hd
    · rw [hold he', h.new e expr hnew hx']

namespace Run

variable {I : Inputs} {s t : FuncState}

theorem expr?_eq (h : Run I s found t) (he : s.func.body.Has (.expr e)) :
    t.func.body.expr? e = s.func.body.expr? e := by
  induction h with
  | start => rfl
  | token _ _ ih => exact ih
  | quiet _ _ _ _ ih => exact ih
  | expr h _ _ ih => exact (Body.expr?_addExpr_of_has (h.has he) _).trans ih
  | stmt _ _ _ ih => exact ih
  | bind _ _ _ _ ih => exact (Body.expr?_setTyping ..).trans ih

/-- A run keeps the records in agreement with the syntax if it defines no name that stands for a
constant, a type or a package. -/
theorem explained (h : Run I s found t) (hb : t.func.body.Descends)
    (hs : s.func.body.Explained m₀)
    (hd : ∀ e ∈ I.defines, s.func.body.Has (.expr e) ∧
      ∀ name, s.func.body.expr? e = some (.ident name) → m₀ e = .other) :
    ∃ m, I.Extends s.func.body t.func.body m₀ m ∧ t.func.body.Explained m := by
  induction h with
  | start =>
    refine ⟨m₀, ⟨fun _ _ => rfl, ?_⟩, hs⟩
    exact fun e expr he hx => absurd (Body.has_of_expr? hx) he
  | token _ _ ih => exact ih hb
  | quiet _ _ _ _ ih => exact ih hb
  | stmt _ _ _ ih =>
    obtain ⟨m, hm, hx⟩ := ih hb
    exact ⟨m, ⟨hm.old, hm.new⟩, hx.of_exprs rfl⟩
  | bind h he hn ty ih =>
    rename_i t e name
    have hbt : t.func.body.Descends := by
      intro d expr c hx
      exact hb d expr c ((Body.expr?_setTyping ..).trans hx)
    obtain ⟨m, hm, hx⟩ := ih hbt
    obtain ⟨hhas, hother⟩ := hd e he
    have hme : m e = .other := by
      rw [hm.old e hhas]
      exact hother name ((h.expr?_eq hhas).symm.trans hn)
    refine ⟨m, ⟨hm.old, ?_⟩, hx.setTyping hn hme ty⟩
    intro d expr hnew hd
    exact hm.new d expr hnew ((Body.expr?_setTyping ..).symm.trans hd)
  | expr h hn hr ih =>
    rename_i t node _
    obtain ⟨m, hm, hx⟩ := ih hb.of_addExpr
    exact ⟨_, hm.addExpr hx hb fun e he => h.has he, hx.addExpr hn hb⟩

end Run

namespace Workspace

def inputs (w : Workspace) (c : Command) : Inputs :=
  match w.level with
  | .func f g h => c.inputs h (w.funcState f g)
  | _ => ⟨fun _ => .other, fun _ _ => .other, [], [], []⟩

/-- The meanings `m` are those that the names of the open body had in the states in which commands
of the script built them. -/
def Resolved (cs : List Command) (b : Body) (m : ExprId → Meaning) : Prop :=
  ∀ e expr, b.expr? e = some expr → ∃ before c, MadeBy (.expr e) before c cs ∧
    m e = ((empty.run before).inputs c).leaf m expr

/-- All expressions that the commands define are identifiers made as bindings. -/
def DefinesBindings (cs : List Command) : Prop :=
  ∀ before c, before ++ [c] <+: cs → ∀ e ∈ ((empty.run before).inputs c).defines,
    ∃ earlier name, MadeBy (.expr e) earlier (.func (.binding name)) before

theorem Resolved.binding (h : Resolved cs b m) (hx : b.expr? e = some (.ident name))
    (hm : MadeBy (.expr e) before (.func (.binding name')) cs) : m e = .other := by
  obtain ⟨before', c, hm', he⟩ := h e _ hx
  obtain ⟨rfl, rfl⟩ := hm'.unique hm
  rw [he, Inputs.leaf, inputs]
  cases (empty.run before').level <;> rfl

/-- The next command leaves the meanings of the old names alone and adds those of the new ones. -/
theorem Resolved.step (h : Resolved cs b m₀) (hb : (empty.run cs).level.body? = some b)
    (hb' : (empty.run (cs ++ [c])).level.body? = some b') (hd : b.Descends)
    (hold : ∀ e, b.Has (.expr e) → b'.expr? e = b.expr? e)
    (hm : ((empty.run cs).inputs c).Extends b b' m₀ m) : Resolved (cs ++ [c]) b' m := by
  intro e expr hx
  by_cases he : b.Has (.expr e)
  · rw [hold e he] at hx
    obtain ⟨before, c', hmade, hme⟩ := h e expr hx
    refine ⟨before, c', .later hmade (by rw [hb', Option.isSome_some]), ?_⟩
    rw [hm.old e he, hme]
    exact Inputs.leaf_congr _ fun d hmem => (hm.old d (hd.has hx hmem)).symm
  · exact ⟨cs, c, .new hb he hb' (Body.has_of_expr? hx), hm.new e expr he hx⟩

theorem open_descends (hb : (empty.run cs).level.body? = some b) : b.Descends :=
  ((run_valid cs).level.openBody hb).ordered.descends

theorem open_explained (hdef : DefinesBindings cs) (hb : (empty.run cs).level.body? = some b) :
    ∃ m, Resolved cs b m ∧ b.Explained m := by
  induction cs using List.reverseRecOn generalizing b with
  | nil => cases hb
  | append_singleton cs c ih =>
    obtain ⟨f, g, h, hl, rfl⟩ := level_of_body? hb
    rcases open_step hl with he | ⟨f₀, g₀, h₀, hl₀, t, h', he, hrun, -⟩
    · rw [he]
      exact ⟨fun _ => .other, fun e expr hx => (by cases hx), Body.explained_empty _⟩
    · have hb₀ : (empty.run cs).level.body? = some g₀.body := by rw [hl₀, Level.body?]
      have hin : (empty.run cs).inputs c = c.inputs h₀ ((empty.run cs).funcState f₀ g₀) := by
        rw [inputs, hl₀]
      have hdef₀ : DefinesBindings cs :=
        fun before d hp => hdef before d (hp.trans (List.prefix_append cs [c]))
      obtain ⟨m₀, hres, hexp⟩ := ih hdef₀ hb₀
      have hbinds : ∀ e ∈ ((empty.run cs).inputs c).defines, g₀.body.Has (.expr e) ∧
          ∀ name, g₀.body.expr? e = some (.ident name) → m₀ e = .other := by
        intro e hmem
        obtain ⟨earlier, name', hmade⟩ := hdef cs c (List.prefix_refl _) e hmem
        obtain ⟨b, hb, hhas⟩ := hmade.has
        cases hb₀.symm.trans hb
        exact ⟨hhas, fun name hx => hres.binding hx hmade⟩
      rw [he] at hl
      cases hl
      rw [← hin] at hrun
      obtain ⟨m, hm, hexp'⟩ := hrun.explained (open_descends hb) hexp hbinds
      exact ⟨m, hres.step hb₀ hb (open_descends hb₀) (fun e he => hrun.expr?_eq he) hm, hexp'⟩

theorem Created.body? (h : Created cs b log) : (empty.run cs).level.body? = some b := by
  cases h with
  | opened _ hv => exact hv
  | step _ hv _ => exact hv

/-- The value recorded for an expression of any function is the one it folds to, with its names
taken as they were when they were built. -/
theorem values_folded (cs : List Command) (hdef : DefinesBindings cs)
    (b : Body) (hb : b ∈ (empty.run cs).bodies) : ∃ cs' b₀ m, cs' <+: cs ∧
      (empty.run cs').level.body? = some b₀ ∧ b = { b₀ with root := b.root } ∧
      Resolved cs' b₀ m ∧ ∀ e, b.Has (.expr e) → ∀ v, b.Folds m e v ↔ v = b.value? e := by
  obtain ⟨cs', b₀, _, root, hp, hc, rfl, _⟩ := created_of_mem_bodies hb
  have hdef' : DefinesBindings cs' := fun before c hp' => hdef before c (hp'.trans hp)
  obtain ⟨m, hres, hexp⟩ := open_explained hdef' hc.body?
  refine ⟨cs', b₀, m, hp, hc.body?, rfl, hres, ?_⟩
  intro e he v
  have hexp' : Body.Explained { b₀ with root } m := hexp.of_exprs rfl
  have hdesc : Body.Descends { b₀ with root } := open_descends (b := b₀) hc.body?
  exact hexp'.folds_iff hdesc he

theorem eq_take_of_prefix (h : before ++ [c] <+: cs) :
    ∃ i < cs.length, before = cs.take i ∧ cs[i]? = some c := by
  obtain ⟨rest, rfl⟩ := h
  refine ⟨before.length, ?_, ?_, ?_⟩ <;> simp

/-- A variable that is defined by the quotient of a negative constant. -/
def quotientScript : List Command :=
  [.decl (.package ⟨"p"⟩ "p"),
    .decl (.declareConst (.prim (.int .int)) (some (.int (-7))) ⟨"p"⟩ "K"),
    .decl (.openFile ⟨"p"⟩ "p.go" "func f() \x7b x := K / 2 \x7d"), .file (.openFunc "f"),
    .func (.binding "x"), .func (.ident "K"), .func (.intLit "2"),
    .func (.binary 1 (.arith .div) 2), .func (.define 0 3), .func (.finish [0])]

theorem values_folded_quotient :
    DefinesBindings quotientScript ∧ ∃ b ∈ (empty.run quotientScript).bodies, ∃ cs' b₀ m,
      cs' <+: quotientScript ∧ Resolved cs' b₀ m ∧ b.Folds m ⟨3⟩ (some (.int (-3))) := by
  let cs := quotientScript
  have hmade : MadeBy (.expr ⟨0⟩) (cs.take 4) (.func (.binding "x")) (cs.take 5) := by
    obtain ⟨b, hb⟩ : ∃ b, (empty.run (cs.take 5)).level.body? = some b :=
      Option.isSome_iff_exists.1 (by decide +kernel)
    have hlen : ∀ b ∈ (empty.run (cs.take 5)).level.body?, 0 < b.exprs.length := by decide +kernel
    exact .new (b := .empty) (by decide +kernel) (Nat.not_lt_zero _) hb (hlen b hb)
  have hmade : MadeBy (.expr ⟨0⟩) (cs.take 4) (.func (.binding "x")) (cs.take 8) :=
    .later (d := .func (.binary 1 (.arith .div) 2))
      (.later (d := .func (.intLit "2"))
        (.later (d := .func (.ident "K")) hmade (by decide +kernel)) (by decide +kernel))
      (by decide +kernel)
  have hdef : DefinesBindings cs := by
    intro before c hp e he
    obtain ⟨i, hi, rfl, hc⟩ := eq_take_of_prefix hp
    have hall : ∀ i < 10, ∀ c ∈ cs[i]?, ∀ e ∈ ((empty.run (cs.take i)).inputs c).defines,
        i = 8 ∧ e = ⟨0⟩ := by decide +kernel
    obtain ⟨rfl, rfl⟩ := hall i hi c hc e he
    exact ⟨_, "x", hmade⟩
  obtain ⟨b, hb, hlen, hv⟩ : ∃ b ∈ (empty.run cs).bodies,
      3 < b.exprs.length ∧ b.value? ⟨3⟩ = some (.int (-3)) := by decide +kernel
  obtain ⟨cs', b₀, m, hp, _, _, hres, hfolds⟩ := values_folded cs hdef b hb
  exact ⟨hdef, b, hb, cs', b₀, m, hp, hres, (hfolds ⟨3⟩ hlen _).2 hv.symm⟩

end Workspace

end SwitchCover
