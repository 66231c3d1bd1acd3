import SwitchCover.Proofs.ExactArith
import SwitchCover.Proofs.NewNodes
import SwitchCover.Proofs.Numerals

namespace SwitchCover.Body

inductive DenotesType (b : Body) (m : ExprId → Meaning) : ExprId → Prop where
  | name (h : b.expr? e = some expr) (hn : expr.isName) (hm : m e = .type) : b.DenotesType m e
  | paren (h : b.expr? e = some (.paren d)) (hd : b.DenotesType m d) : b.DenotesType m e

/-- The value of an expression, or that it has none, where `m` says what the names stand for. -/
inductive Folds (b : Body) (m : ExprId → Meaning) : ExprId → Option ConstValue → Prop where
  | intLit (h : b.expr? e = some (.intLit text)) (hn : IntLiteral.Denotes text n) :
    b.Folds m e (some (.int n))
  | intLitNone (h : b.expr? e = some (.intLit text)) (hn : ∀ n, ¬IntLiteral.Denotes text n) :
    b.Folds m e none
  | strLit (h : b.expr? e = some (.strLit value)) : b.Folds m e (some (.str value))
  | name (h : b.expr? e = some expr) (hn : expr.isName) : b.Folds m e (m e).value
  | paren (h : b.expr? e = some (.paren d)) (hd : b.Folds m d v) : b.Folds m e v
  | plus (h : b.expr? e = some (.unary .plus d)) (hd : b.Folds m d v) : b.Folds m e v
  | minus (h : b.expr? e = some (.unary .minus d)) (hd : b.Folds m d (some (.int n))) :
    b.Folds m e (some (.int (-n)))
  | minusNone (h : b.expr? e = some (.unary .minus d)) (hd : b.Folds m d v)
    (hv : ∀ n, v ≠ some (.int n)) : b.Folds m e none
  | not (h : b.expr? e = some (.unary .not d)) (hd : b.Folds m d (some (.bool t))) :
    b.Folds m e (some (.bool !t))
  | notNone (h : b.expr? e = some (.unary .not d)) (hd : b.Folds m d v)
    (hv : ∀ t, v ≠ some (.bool t)) : b.Folds m e none
  | bitNot (h : b.expr? e = some (.unary .bitNot d)) : b.Folds m e none
  | arith (h : b.expr? e = some (.binary l (.arith op) r)) (hl : b.Folds m l (some (.int i)))
    (hr : b.Folds m r (some (.int j))) (hk : op.Exact i j k) : b.Folds m e (some (.int k))
  | arithNone (h : b.expr? e = some (.binary l (.arith op) r)) (hl : b.Folds m l v)
    (hr : b.Folds m r w)
    (hk : ∀ i j k, v = some (.int i) → w = some (.int j) → ¬op.Exact i j k) : b.Folds m e none
  | comp (h : b.expr? e = some (.binary l (.comp op) r)) : b.Folds m e none
  | logical (h : b.expr? e = some (.binary l (.logical op) r)) : b.Folds m e none
  | conversion (h : b.expr? e = some (.call callee [arg])) (hc : b.DenotesType m callee)
    (ha : b.Folds m arg v) : b.Folds m e v
  | call (h : b.expr? e = some (.call callee args))
    (hc : b.DenotesType m callee → args.length ≠ 1) : b.Folds m e none
  | funcLit (h : b.expr? e = some (.funcLit ss)) : b.Folds m e none

def MarksTyped (b : Body) : Prop :=
  ∀ e, b.isTypeExpr e → (b.typing? e).isSome

/-- Each expression has the records that follow from its syntax and from the records of its parts,
where `m` says what the names stand for. -/
structure Explained (b : Body) (m : ExprId → Meaning) : Prop where
  value : ∀ e expr, b.expr? e = some expr → b.value? e = b.newValue (m e) expr
  isType : ∀ e expr, b.expr? e = some expr → b.isTypeExpr e = b.newIsType (m e) expr
  package : ∀ e expr, b.expr? e = some expr → b.packageRef? e = (m e).package?
  typed : b.MarksTyped

def Descends (b : Body) : Prop :=
  ∀ e expr d, b.expr? e = some expr → .expr d ∈ expr.mentions → d.index < e.index

theorem Ordered.descends {b : Body} (h : b.Ordered) : b.Descends := by
  obtain ⟨stamp, h⟩ := h
  intro e expr d he hd
  have hm : .expr d ∈ b.mentions (.expr e) := by simpa only [mentions, he] using hd
  obtain ⟨hhas, hlt⟩ := h.mention _ _ hm
  have hw : 0 < (NodeId.expr e).weight := by simp [NodeId.weight]
  by_contra hle
  rcases Nat.lt_or_eq_of_le (Nat.le_of_not_lt hle) with hgt | heq
  · have := h.exprs_lt e d hgt hhas
    omega
  · obtain ⟨i⟩ := e
    obtain ⟨j⟩ := d
    cases heq
    omega

variable {b : Body} {m : ExprId → Meaning}

theorem Descends.has (h : b.Descends) (he : b.expr? e = some expr) (hd : .expr d ∈ expr.mentions) :
    b.Has (.expr d) := by
  have hlt := h e expr d he hd
  have hhas : e.index < b.exprs.length := has_of_expr? he
  exact Nat.lt_trans hlt hhas

/-- Induction along the syntax of the expressions. -/
theorem Descends.induction (h : b.Descends) {P : ExprId → Prop}
    (hp : ∀ e expr, b.expr? e = some expr → (∀ d, .expr d ∈ expr.mentions → P d) → P e)
    (he : b.Has (.expr e)) : P e := by
  obtain ⟨i⟩ := e
  induction i using Nat.strong_induction_on with
  | h i ih =>
    obtain ⟨expr, hx⟩ := expr?_of_has he
    refine hp _ expr hx fun d hd => ?_
    exact ih d.index (h _ expr d hx hd) (h.has hx hd)

theorem newValue_intLit (b : Body) (μ : Meaning) (text : String) :
    b.newValue μ (.intLit text) = some v ↔ ∃ n, IntLiteral.Denotes text n ∧ v = .int n := by
  simp only [newValue, Option.map_eq_some_iff, IntLiteral.ofText?_bind_value?, eq_comm (a := v)]

theorem newValue_plus (b : Body) (μ : Meaning) (d : ExprId) :
    b.newValue μ (.unary .plus d) = b.value? d := by
  rw [newValue]
  cases b.value? d <;> rfl

theorem newValue_minus (b : Body) (μ : Meaning) (d : ExprId) :
    b.newValue μ (.unary .minus d) = some v ↔ ∃ n, b.value? d = some (.int n) ∧ v = .int (-n) := by
  rw [newValue]
  cases b.value? d with
  | none => simp
  | some w => cases w <;> simp [UnaryOp.foldValue, eq_comm]

theorem newValue_not (b : Body) (μ : Meaning) (d : ExprId) :
    b.newValue μ (.unary .not d) = some v ↔ ∃ t, b.value? d = some (.bool t) ∧ v = .bool !t := by
  rw [newValue]
  cases b.value? d with
  | none => simp
  | some w => cases w <;> simp [UnaryOp.foldValue, eq_comm]

theorem newValue_bitNot (b : Body) (μ : Meaning) (d : ExprId) :
    b.newValue μ (.unary .bitNot d) = none := by
  rw [newValue]
  cases b.value? d <;> rfl

theorem newValue_arith (b : Body) (μ : Meaning) (l : ExprId) (op : ArithOp) (r : ExprId) :
    b.newValue μ (.binary l (.arith op) r) = some v ↔ ∃ i j k, b.value? l = some (.int i) ∧
      b.value? r = some (.int j) ∧ op.Exact i j k ∧ v = .int k := by
  simp only [newValue, ← ArithOp.fold_eq_some_iff]
  cases b.value? l with
  | none => simp
  | some x =>
    cases b.value? r with
    | none => simp
    | some y => cases x <;> cases y <;> simp [BinaryOp.foldValues, eq_comm]

/-- Comparisons and logical operations have no value. -/
theorem newValue_truth (b : Body) (μ : Meaning) (l r : ExprId) (h : ∀ op', op ≠ .arith op') :
    b.newValue μ (.binary l op r) = none := by
  rw [newValue]
  split
  · cases op with
    | arith op' => exact absurd rfl (h op')
    | comp op => rfl
    | logical op => rfl
  · rfl

/-- With these marks a conversion is known by the mark alone. -/
theorem MarksTyped.newValue_call (h : b.MarksTyped) (μ : Meaning) (callee arg : ExprId) :
    b.newValue μ (.call callee [arg]) = if b.isTypeExpr callee then b.value? arg else none := by
  rw [newValue]
  by_cases hc : b.isTypeExpr callee
  · rw [if_pos hc, if_pos ⟨hc, by rw [type?, Option.isSome_map]; exact h callee hc⟩]
  · rw [if_neg hc, if_neg fun hcond => hc hcond.1]

namespace Explained

theorem isType_of_denotesType (h : b.Explained m) (hd : b.DenotesType m e) :
    b.isTypeExpr e := by
  induction hd with
  | name hx hn hm => rw [h.isType _ _ hx, newIsType_name _ _ hn, hm, Meaning.isType]
  | paren hx _ ih => rw [h.isType _ _ hx, newIsType, ih]

theorem denotesType_of_isType (h : b.Explained m) (hb : b.Descends) (he : b.Has (.expr e))
    (ht : b.isTypeExpr e) : b.DenotesType m e := by
  revert ht
  refine hb.induction (P := fun e => b.isTypeExpr e → b.DenotesType m e) ?_ he
  intro e expr hx ih ht
  rw [h.isType _ _ hx] at ht
  cases expr with
  | ident name =>
    refine .name hx rfl ?_
    cases hm : m e <;> simp [newIsType, hm, Meaning.isType] at ht ⊢
  | selector base member =>
    refine .name hx rfl ?_
    cases hm : m e <;> simp [newIsType, hm, Meaning.isType] at ht ⊢
  | paren inner => exact .paren hx (ih inner List.mem_cons_self ht)
  | _ => cases ht

/-- No expression folds to anything but the value recorded for it. -/
theorem value_of_folds (h : b.Explained m) (hb : b.Descends) (hf : b.Folds m e v) :
    b.value? e = v := by
  -- Where the relation says that there is no value, a value recorded would contradict it.
  have hnone {o : Option ConstValue} (ho : ∀ v, o ≠ some v) : o = none :=
    Option.eq_none_iff_forall_ne_some.2 ho
  induction hf with
  | intLit hx hn =>
    rw [h.value _ _ hx]
    exact (newValue_intLit ..).2 ⟨_, hn, rfl⟩
  | intLitNone hx hn =>
    rw [h.value _ _ hx]
    apply hnone
    intro w hw
    obtain ⟨n, hd, -⟩ := (newValue_intLit ..).1 hw
    exact hn n hd
  | strLit hx => rw [h.value _ _ hx, newValue]
  | name hx hn => rw [h.value _ _ hx, newValue_name _ _ hn]
  | paren hx _ ih => rw [h.value _ _ hx, newValue, ih]
  | plus hx _ ih => rw [h.value _ _ hx, newValue_plus, ih]
  | minus hx _ ih =>
    rw [h.value _ _ hx]
    exact (newValue_minus ..).2 ⟨_, ih, rfl⟩
  | minusNone hx _ hv ih =>
    rw [h.value _ _ hx]
    apply hnone
    intro w hw
    obtain ⟨n, hn, -⟩ := (newValue_minus ..).1 hw
    exact hv n (ih.symm.trans hn)
  | not hx _ ih =>
    rw [h.value _ _ hx]
    exact (newValue_not ..).2 ⟨_, ih, rfl⟩
  | notNone hx _ hv ih =>
    rw [h.value _ _ hx]
    apply hnone
    intro w hw
    obtain ⟨t, ht, -⟩ := (newValue_not ..).1 hw
    exact hv t (ih.symm.trans ht)
  | bitNot hx => rw [h.value _ _ hx, newValue_bitNot]
  | arith hx _ _ hk ihl ihr =>
    rw [h.value _ _ hx]
    exact (newValue_arith ..).2 ⟨_, _, _, ihl, ihr, hk, rfl⟩
  | arithNone hx _ _ hk ihl ihr =>
    rw [h.value _ _ hx]
    apply hnone
    intro w hw
    obtain ⟨i, j, k, hi, hj, he, -⟩ := (newValue_arith ..).1 hw
    exact hk i j k (ihl.symm.trans hi) (ihr.symm.trans hj) he
  | comp hx => rw [h.value _ _ hx, newValue_truth _ _ _ _ fun _ ho => by cases ho]
  | logical hx => rw [h.value _ _ hx, newValue_truth _ _ _ _ fun _ ho => by cases ho]
  | conversion hx hc _ ih =>
    rw [h.value _ _ hx, h.typed.newValue_call, if_pos (h.isType_of_denotesType hc), ih]
  | call hx hc =>
    rename_i callee args
    rw [h.value _ _ hx]
    cases args with
    | nil => rfl
    | cons arg rest =>
      cases rest with
      | nil =>
        have hhas : b.Has (.expr callee) := hb.has hx List.mem_cons_self
        rw [h.typed.newValue_call, if_neg fun ht => hc (h.denotesType_of_isType hb hhas ht) rfl]
      | cons => rfl
  | funcLit hx => rw [h.value _ _ hx, newValue]

/-- Every expression folds to the value recorded for it. -/
theorem folds_value (h : b.Explained m) (hb : b.Descends) (he : b.Has (.expr e)) :
    b.Folds m e (b.value? e) := by
  refine hb.induction (P := fun e => b.Folds m e (b.value? e)) ?_ he
  intro e expr hx ih
  rw [h.value _ _ hx]
  cases expr with
  | ident name => exact .name hx rfl
  | selector base member => exact .name hx rfl
  | intLit text =>
    cases hv : b.newValue (m e) (.intLit text) with
    | none =>
      refine .intLitNone hx fun n hn => ?_
      cases hv.symm.trans ((newValue_intLit ..).2 ⟨n, hn, rfl⟩)
    | some v =>
      obtain ⟨n, hn, rfl⟩ := (newValue_intLit ..).1 hv
      exact .intLit hx hn
  | strLit value => exact .strLit hx
  | paren inner => exact .paren hx (ih inner List.mem_cons_self)
  | unary op d =>
    have hd : b.Folds m d (b.value? d) := ih d List.mem_cons_self
    cases op with
    | plus =>
      rw [newValue_plus]
      exact .plus hx hd
    | minus =>
      cases hv : b.newValue (m e) (.unary .minus d) with
      | none =>
        refine .minusNone hx hd fun n hn => ?_
        cases hv.symm.trans ((newValue_minus ..).2 ⟨n, hn, rfl⟩)
      | some v =>
        obtain ⟨n, hn, rfl⟩ := (newValue_minus ..).1 hv
        exact .minus hx (hn ▸ hd)
    | not =>
      cases hv : b.newValue (m e) (.unary .not d) with
      | none =>
        refine .notNone hx hd fun t ht => ?_
        cases hv.symm.trans ((newValue_not ..).2 ⟨t, ht, rfl⟩)
      | some v =>
        obtain ⟨t, ht, rfl⟩ := (newValue_not ..).1 hv
        exact .not hx (ht ▸ hd)
    | bitNot =>
      rw [newValue_bitNot]
      exact .bitNot hx
  | binary l op r =>
    cases op with
    | arith op =>
      have hl : b.Folds m l (b.value? l) := ih l List.mem_cons_self
      have hr : b.Folds m r (b.value? r) := ih r (List.mem_cons_of_mem _ List.mem_cons_self)
      cases hv : b.newValue (m e) (.binary l (.arith op) r) with
      | none =>
        refine .arithNone hx hl hr fun i j k hi hj hk => ?_
        cases hv.symm.trans ((newValue_arith ..).2 ⟨i, j, k, hi, hj, hk, rfl⟩)
      | some v =>
        obtain ⟨i, j, k, hi, hj, hk, rfl⟩ := (newValue_arith ..).1 hv
        exact .arith hx (hi ▸ hl) (hj ▸ hr) hk
    | comp op =>
      rw [newValue_truth _ _ _ _ fun _ ho => by cases ho]
      exact .comp hx
    | logical op =>
      rw [newValue_truth _ _ _ _ fun _ ho => by cases ho]
      exact .logical hx
  | call callee args =>
    cases args with
    | nil => exact .call hx fun _ hn => by cases hn
    | cons arg rest =>
      cases rest with
      | nil =>
        rw [h.typed.newValue_call]
        split
        next ht =>
          have hc := h.denotesType_of_isType hb (hb.has hx List.mem_cons_self) ht
          exact .conversion hx hc (ih arg (List.mem_cons_of_mem _ List.mem_cons_self))
        next ht => exact .call hx fun hc => absurd (h.isType_of_denotesType hc) ht
      | cons => exact .call hx fun _ hn => by cases hn
  | funcLit ss => exact .funcLit hx

theorem folds_iff (h : b.Explained m) (hb : b.Descends) (he : b.Has (.expr e)) :
    b.Folds m e v ↔ v = b.value? e := by
  constructor
  · exact fun hf => (h.value_of_folds hb hf).symm
  · rintro rfl
    exact h.folds_value hb he

end Explained

end SwitchCover.Body
