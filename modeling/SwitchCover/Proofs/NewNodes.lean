import SwitchCover.Proofs.FuncSteps

namespace SwitchCover

inductive Meaning where
  | package (path : PackagePath)
  | type
  | const (value : Option ConstValue)
  /-- A variable, a function, `nil`, or nothing at all. -/
  | other
deriving DecidableEq

namespace Meaning

def value : Meaning → Option ConstValue
  | const value => value
  | _ => none

def isType : Meaning → Bool
  | type => true
  | _ => false

def package? : Meaning → Option PackagePath
  | package path => some path
  | _ => none

def predeclared (name : String) : Meaning :=
  if name = "true" then .const (some (.bool true))
  else if name = "false" then .const (some (.bool false))
  else if (PrimType.ofName? name).isSome then .type
  else .other

end Meaning

def ScopeItem.meaning : ScopeItem → Meaning
  | type _ => .type
  | const decl => .const decl.value
  | var _ => .other
  | func _ => .other

def Program.memberMeaning (p : Program) (path : PackagePath) (member : String) : Meaning :=
  match p.lookup path member with
  | some item => item.meaning
  | none => .other

/-- What an identifier stands for. Local variables hide the declarations of the package, these the
imports of the file, and these the predeclared names. -/
def FuncState.meaning (s : FuncState) (name : String) : Meaning :=
  if (s.func.locals.get? name).isSome then .other
  else
    match s.program.lookup s.file.package name with
    | some item => item.meaning
    | none =>
      match s.file.resolveImport name with
      | some path => .package path
      | none => .predeclared name

def Expr.isName : Expr → Bool
  | ident _ => true
  | selector _ _ => true
  | _ => false

namespace Body

def addExpr (b : Body) (node : ExprNode) : Body :=
  { b with exprs := b.exprs ++ [node] }

def addStmt (b : Body) (node : StmtNode) : Body :=
  { b with stmts := b.stmts ++ [node] }

/-- The value of a new expression, where `μ` says what it stands for if it is a name. -/
def newValue (b : Body) (μ : Meaning) : Expr → Option ConstValue
  | .ident _ => μ.value
  | .selector _ _ => μ.value
  | .intLit text => ((IntLiteral.ofText? text).bind IntLiteral.value?).map .int
  | .strLit value => some (.str value)
  | .paren inner => b.value? inner
  | .unary op operand => (b.value? operand).bind op.foldValue
  | .binary lhs op rhs =>
    match b.value? lhs, b.value? rhs with
    | some v, some w => op.foldValues v w
    | _, _ => none
  | .call callee [arg] =>
    if b.isTypeExpr callee ∧ (b.type? callee).isSome then b.value? arg else none
  | .call _ _ => none
  | .funcLit _ => none

def newIsType (b : Body) (μ : Meaning) : Expr → Bool
  | .ident _ => μ.isType
  | .selector _ _ => μ.isType
  | .paren inner => b.isTypeExpr inner
  | _ => false

end Body

theorem Body.newValue_name (b : Body) (μ : Meaning) (h : expr.isName) :
    b.newValue μ expr = μ.value := by
  cases expr <;> first | rfl | cases h

theorem Body.newIsType_name (b : Body) (μ : Meaning) (h : expr.isName) :
    b.newIsType μ expr = μ.isType := by
  cases expr <;> first | rfl | cases h

/-- The facts recorded with a new expression of a body, where `μ` says what it stands for if it is
a name. -/
structure ExprNode.Agrees (node : ExprNode) (b : Body) (μ : Meaning) : Prop where
  value : node.typing.bind Typing.value = b.newValue μ node.expr
  isType : node.isType = b.newIsType μ node.expr
  package : node.packageRef = μ.package?
  /-- An expression that denotes a type has a type, unless there was none to copy. -/
  typed : node.isType → node.typing.isSome ∨ ∃ inner, node.expr = .paren inner ∧
    b.typing? inner = none

def ExprNode.bare (expr : Expr) (range : TextRange) : ExprNode :=
  ⟨expr, range, none, none, false⟩

namespace Body

theorem modifyExpr_addExpr (b : Body) (node : ExprNode) (f : ExprNode → ExprNode) :
    (b.addExpr node).modifyExpr ⟨b.exprs.length⟩ f = b.addExpr (f node) := by
  simp [modifyExpr, addExpr, List.modify_eq_take_cons_drop]

theorem exprNode?_addExpr (b : Body) (node : ExprNode) (e : ExprId) :
    (b.addExpr node).exprNode? e =
      if e = ⟨b.exprs.length⟩ then some node else b.exprNode? e := by
  obtain ⟨i⟩ := e
  simp only [addExpr, exprNode?, ExprId.mk.injEq, List.getElem?_append]
  by_cases hi : i < b.exprs.length
  · rw [if_pos hi, if_neg (by omega)]
  · by_cases he : i = b.exprs.length
    · simp [he]
    · have hlt : b.exprs.length < i := by omega
      simp [hi, he, Nat.sub_eq_zero_iff_le, Nat.not_le_of_lt hlt]

end Body

namespace FuncState

def nextExpr (t : FuncState) : ExprId :=
  ⟨t.func.body.exprs.length⟩

def added (t : FuncState) (node : ExprNode) (types : TypeTable) (events : List Event) :
    FuncState :=
  { t with
    program := { t.program with types }, events
    func := { t.func with body := t.func.body.addExpr node } }

variable (t : FuncState) (node : ExprNode) (types : TypeTable) (events : List Event)

theorem added_locals : (t.added node types events).func.locals = t.func.locals :=
  rfl

theorem added_file : (t.added node types events).file = t.file :=
  rfl

theorem added_lookup (path : PackagePath) (name : String) :
    (t.added node types events).program.lookup path name = t.program.lookup path name :=
  rfl

end FuncState

theorem get_bind_apply (k : σ → EStateM ε σ α) (s : σ) : (get >>= k) s = k s s :=
  rfl

namespace FuncM

variable {t : FuncState} {expr : Expr} {range : TextRange} {μ : Meaning}

theorem modifyBody_added (f : ExprNode → ExprNode) (node : ExprNode) (types : TypeTable)
    (events : List Event) :
    modifyBody (·.modifyExpr t.nextExpr f) (t.added node types events) =
      .ok () (t.added (f node) types events) := by
  change EStateM.Result.ok () { t with
    program := { t.program with types }, events
    func := { t.func with
      body := (t.func.body.addExpr node).modifyExpr ⟨t.func.body.exprs.length⟩ f } } = _
  rw [Body.modifyExpr_addExpr]
  rfl

/-- A computation with the result `a` that completes the facts recorded with a new expression. -/
def Completes (t : FuncState) (expr : Expr) (range : TextRange) (μ : Meaning) (x : FuncM α)
    (a : α) : Prop :=
  ∀ types events, ∃ node types' events',
    x (t.added (.bare expr range) types events) = .ok a (t.added node types' events') ∧
      node.expr = expr ∧ node.range = range ∧ node.Agrees t.func.body μ

def Adds (t : FuncState) (expr : Expr) (range : TextRange) (μ : Meaning) (x : FuncM ExprId) :
    Prop :=
  ∃ node types events, x t = .ok t.nextExpr (t.added node types events) ∧
    node.expr = expr ∧ node.range = range ∧ node.Agrees t.func.body μ

theorem Completes.adds {k : ExprId → FuncM ExprId}
    (h : Completes t expr range μ (k t.nextExpr) t.nextExpr) :
    Adds t expr range μ (pushExpr expr range >>= k) :=
  h t.program.types t.events

theorem Adds.ensures {x : FuncM ExprId} (h : Adds t expr range μ x) :
    ∃ node types events, node.expr = expr ∧ node.range = range ∧ node.Agrees t.func.body μ ∧
      Ensures (fun _ u => u = t.added node types events) (fun _ _ => True) t x fun _ _ => True := by
  obtain ⟨node, types, events, hx, he, hr, hn⟩ := h
  refine ⟨node, types, events, he, hr, hn, ?_⟩
  simp only [Ensures, Outcome, hx, and_self]

theorem Adds.body {k : Body → FuncM ExprId} (h : Adds t expr range μ (k t.func.body)) :
    Adds t expr range μ (body >>= k) :=
  h

theorem Adds.types {k : TypeTable → FuncM ExprId} (h : Adds t expr range μ (k t.program.types)) :
    Adds t expr range μ (types >>= k) :=
  h

theorem Adds.intern {k : TyId → FuncM ExprId}
    (h : ∀ ty types, Adds { t with program := { t.program with types } } expr range μ (k ty)) :
    Adds t expr range μ (liftDecl (.intern data) >>= k) :=
  h (t.program.types.intern data).1 (t.program.types.intern data).2

theorem Completes.result {x : FuncM Unit} (h : Completes t expr range μ x ()) (a : α) :
    Completes t expr range μ (do x; return a) a := by
  intro types events
  obtain ⟨node, types', events', hx, hnode⟩ := h types events
  refine ⟨node, types', events', ?_, hnode⟩
  simp only [bind, EStateM.bind, hx]
  rfl

theorem completes_record {ty : Typing} (hv : ty.value = t.func.body.newValue μ expr)
    (ht : t.func.body.newIsType μ expr = false) (hp : μ.package? = none) :
    Completes t expr range μ (record t.nextExpr ty) () := by
  intro types events
  refine ⟨_, types, events, modifyBody_added _ _ _ _, rfl, rfl, hv, ht.symm, hp.symm, ?_⟩
  exact fun h => by cases h

theorem completes_pure (hv : t.func.body.newValue μ expr = none)
    (ht : t.func.body.newIsType μ expr = false) (hp : μ.package? = none) :
    Completes t expr range μ (pure ()) () := by
  intro types events
  refine ⟨_, types, events, rfl, rfl, rfl, hv.symm, ht.symm, hp.symm, ?_⟩
  exact fun h => by cases h

theorem completes_recordAll {typing : Option Typing}
    (hv : typing.bind Typing.value = t.func.body.newValue μ expr)
    (ht : t.func.body.newIsType μ expr = false) (hp : μ.package? = none) :
    Completes t expr range μ (recordAll t.nextExpr typing) () := by
  cases typing with
  | none => exact completes_pure hv.symm ht hp
  | some ty => exact completes_record hv ht hp

theorem adds_recordAll {typing : Option Typing}
    (hv : typing.bind Typing.value = t.func.body.newValue μ expr)
    (ht : t.func.body.newIsType μ expr = false) (hp : μ.package? = none) :
    Adds t expr range μ (do let e ← pushExpr expr range; recordAll e typing; return e) :=
  ((completes_recordAll hv ht hp).result _).adds

theorem Completes.intern {k : TyId → FuncM α}
    (h : ∀ ty, Completes t expr range μ (k ty) a) :
    Completes t expr range μ (liftDecl (.intern data) >>= k) a :=
  fun types events => h (types.intern data).1 (types.intern data).2 events

/-- A mark and a type for a name that denotes a type, in either order. -/
theorem completes_markType (h : expr.isName) (ty : TyId) :
    Completes t expr range .type (do
      modifyBody (·.markType t.nextExpr); record t.nextExpr ⟨ty, none⟩) () ∧
    Completes t expr range .type (do
      record t.nextExpr ⟨ty, none⟩; modifyBody (·.markType t.nextExpr)) () := by
  have hnode : ExprNode.Agrees ⟨expr, range, some ⟨ty, none⟩, none, true⟩ t.func.body .type := by
    refine ⟨?_, ?_, rfl, fun _ => .inl rfl⟩
    · exact (t.func.body.newValue_name .type h).symm
    · exact (t.func.body.newIsType_name .type h).symm
  have hm := modifyBody_added (t := t) fun node => { node with isType := true }
  have hr := modifyBody_added (t := t) fun node => { node with typing := some ⟨ty, none⟩ }
  constructor
  · intro types events
    refine ⟨_, types, events, ?_, rfl, rfl, hnode⟩
    simp only [bind, EStateM.bind, record, Body.setTyping, Body.markType, hm, hr]
    rfl
  · intro types events
    refine ⟨_, types, events, ?_, rfl, rfl, hnode⟩
    simp only [bind, EStateM.bind, record, Body.setTyping, Body.markType, hm, hr]
    rfl

theorem completes_name (h : expr.isName) (ht : μ.isType = false) (hp : μ.package? = none)
    (hv : ty.value = μ.value) : Completes t expr range μ (record t.nextExpr ty) () := by
  apply completes_record
  · rw [hv, Body.newValue_name _ _ h]
  · rw [Body.newIsType_name _ _ h, ht]
  · exact hp

theorem emit_completes (h : expr.isName) (e : Event) :
    Completes t expr range .other (emit e) () := by
  intro types events
  refine ⟨_, types, events ++ [e], rfl, rfl, rfl, ?_, ?_, rfl, fun h => (by cases h)⟩
  · exact (t.func.body.newValue_name .other h).symm
  · exact (t.func.body.newIsType_name .other h).symm

theorem recordItem_completes (h : expr.isName) (item : ScopeItem) :
    Completes t expr range item.meaning (recordItem t.nextExpr item) () := by
  cases item with
  | type decl => exact (completes_markType h decl.ty).1
  | const decl => exact completes_name h rfl rfl rfl
  | var ty => exact completes_name h rfl rfl rfl
  | func ty => exact completes_name h rfl rfl rfl

theorem recordPredeclared_completes (h : expr.isName) (name : String) :
    Completes t expr range (.predeclared name) (recordPredeclared t.nextExpr name) () := by
  rw [recordPredeclared]
  split
  next hb =>
    apply Completes.intern
    intro ty
    rcases hb with rfl | rfl <;> exact completes_name h rfl rfl rfl
  next hb =>
    obtain ⟨ht, hf⟩ := not_or.1 hb
    split
    next hn =>
      subst hn
      exact Completes.intern fun ty => completes_name h rfl rfl rfl
    next =>
      simp only [Meaning.predeclared, if_neg ht, if_neg hf]
      cases PrimType.ofName? name with
      | none => exact emit_completes h _
      | some p => exact Completes.intern fun ty => (completes_markType h ty).2

theorem resolveIdent_completes (t : FuncState) (name : String) (range : TextRange) :
    Completes t (.ident name) range (t.meaning name) (resolveIdent t.nextExpr name) () := by
  intro types events
  rw [resolveIdent, get_bind_apply, FuncState.meaning]
  simp only [FuncState.added_locals, FuncState.added_lookup, FuncState.added_file]
  cases t.func.locals.get? name with
  | some ty => exact completes_name rfl rfl rfl rfl types events
  | none =>
    cases t.program.lookup t.file.package name with
    | some item => exact recordItem_completes rfl item types events
    | none =>
      cases t.file.resolveImport name with
      | some path =>
        refine ⟨_, types, events, modifyBody_added _ _ _ _, rfl, rfl, rfl, rfl, rfl, ?_⟩
        exact fun h => by cases h
      | none => exact recordPredeclared_completes rfl name types events

theorem ident_adds (t : FuncState) (name : String) (range : TextRange) :
    Adds t (.ident name) range (t.meaning name) (do
      let e ← pushExpr (.ident name) range
      resolveIdent e name
      return e) :=
  ((resolveIdent_completes t name range).result _).adds

theorem resolveMember_completes (h : expr.isName) (path : PackagePath) (member : String) :
    Completes t expr range (t.program.memberMeaning path member)
      (resolveMember t.nextExpr path member) () := by
  intro types events
  rw [resolveMember, get_bind_apply, FuncState.added_lookup, Program.memberMeaning]
  cases t.program.lookup path member with
  | some item => exact recordItem_completes h item types events
  | none => exact emit_completes h _ types events

theorem select_adds (t : FuncState) (base : ExprId) (member : String) (range : TextRange) :
    Adds t (.selector base member) ((t.func.body.exprRange base).cover range)
      (match t.func.body.packageRef? base with
        | some path => t.program.memberMeaning path member
        | none => .other) (do
      let b ← body
      let e ← pushExpr (.selector base member) ((b.exprRange base).cover range)
      if let some path := b.packageRef? base then
        resolveMember e path member
      return e) := by
  change Adds t _ _ _ (do
    let e ← pushExpr (.selector base member) ((t.func.body.exprRange base).cover range)
    match t.func.body.packageRef? base with
    | some path => do
      resolveMember e path member
      return e
    | _ => return e)
  cases t.func.body.packageRef? base with
  | none => exact ((completes_pure rfl rfl rfl).result _).adds
  | some path => exact ((resolveMember_completes rfl path member).result _).adds

/-- A literal is added even if its text is not one. -/
theorem intLit_adds (t : FuncState) (text : String) (range : TextRange) :
    ∃ node types events, node.expr = .intLit text ∧ node.range = range ∧
      node.Agrees t.func.body .other ∧
      Ensures (fun _ u => u = t.added node types events) (fun _ _ => True) t (do
        let e ← pushExpr (.intLit text) range
        let ty ← prim (.untyped .int)
        match IntLiteral.ofText? text with
        | some lit => record e ⟨ty, lit.value?.map .int⟩
        | none => throw .badLiteral
        return e) fun _ _ => True := by
  cases ht : IntLiteral.ofText? text with
  | none =>
    refine ⟨.bare (.intLit text) range, _, t.events, rfl, rfl, ?_, rfl, trivial⟩
    refine ⟨?_, rfl, rfl, fun h => (by cases h)⟩
    simp only [ExprNode.bare, Body.newValue, ht]
    rfl
  | some lit =>
    have ha (ty : TyId) : Completes t (.intLit text) range .other
        (record t.nextExpr ⟨ty, lit.value?.map .int⟩) () := by
      refine completes_record ?_ rfl rfl
      simp only [Body.newValue, ht, Option.bind_some]
    exact (Completes.intern fun ty => (ha ty).result t.nextExpr).adds.ensures

theorem strLit_adds (t : FuncState) (value : String) (range : TextRange) :
    Adds t (.strLit value) range .other (do
      let e ← pushExpr (.strLit value) range
      let ty ← prim (.untyped .string)
      record e ⟨ty, some (.str value)⟩
      return e) := by
  apply Completes.adds
  apply Completes.intern
  exact fun _ => (completes_record rfl rfl rfl).result _

theorem value_callTyping (b : Body) (types : TypeTable) (callee : ExprId) (args : List ExprId) :
    (b.callTyping types callee args).bind Typing.value = b.newValue .other (.call callee args) := by
  have hnone (h : ¬(b.isTypeExpr callee ∧ (b.type? callee).isSome)) :
      b.newValue .other (.call callee args) = none := by
    unfold Body.newValue
    split <;> first | rfl | exact if_neg h | simp_all
  rw [Body.callTyping]
  cases hty : b.type? callee with
  | none => exact (hnone fun h => by simp [hty] at h).symm
  | some ty =>
    cases hc : b.isTypeExpr callee with
    | false =>
      rw [hnone fun h => by simp [hc] at h]
      simp only [Bool.false_eq_true, if_false]
      split <;> rfl
    | true =>
      cases args with
      | nil => rfl
      | cons arg rest =>
        cases rest with
        | nil => simp [Body.newValue, hty, hc]
        | cons => rfl

theorem call_adds (t : FuncState) (callee : ExprId) (args : List ExprId) (close : TextRange) :
    Adds t (.call callee args) ((t.func.body.exprRange callee).cover close) .other (do
      let b ← body
      let typing := b.callTyping (← types) callee args
      let e ← pushExpr (.call callee args) ((b.exprRange callee).cover close)
      recordAll e typing
      return e) := by
  apply Adds.body
  apply Adds.types
  exact adds_recordAll (value_callTyping _ _ callee args) rfl rfl

theorem paren_adds (t : FuncState) (opening close : TextRange) (inner : ExprId) :
    Adds t (.paren inner) (opening.cover close) .other (do
      let b ← body
      let e ← pushExpr (.paren inner) (opening.cover close)
      recordAll e (b.typing? inner)
      if b.isTypeExpr inner then
        modifyBody (·.markType e)
      return e) := by
  apply Adds.body
  apply Completes.adds
  cases hc : t.func.body.isTypeExpr inner with
  | false =>
    have ht : t.func.body.newIsType .other (.paren inner) = false := hc
    exact (completes_recordAll rfl ht rfl).result _
  | true =>
    intro types events
    have hm := modifyBody_added (t := t) fun node => { node with isType := true }
    cases hi : t.func.body.typing? inner with
    | none =>
      refine ⟨⟨.paren inner, _, none, none, true⟩, types, events, ?_, rfl, rfl, ?_⟩
      · simp only [bind, EStateM.bind, recordAll, Body.markType, if_true, pure, EStateM.pure, hm]
        rfl
      · refine ⟨?_, hc.symm, rfl, fun _ => .inr ⟨inner, rfl, hi⟩⟩
        simp only [Body.newValue, Body.value?, hi, Option.bind_none]
    | some ty =>
      have hr := modifyBody_added (t := t) fun node => { node with typing := some ty }
      refine ⟨⟨.paren inner, _, some ty, none, true⟩, types, events, ?_, rfl, rfl, ?_⟩
      · simp only [bind, EStateM.bind, recordAll, record, Body.setTyping, Body.markType, if_true,
          pure, EStateM.pure, hr, hm]
        rfl
      · refine ⟨?_, hc.symm, rfl, fun _ => .inl rfl⟩
        simp only [Body.newValue, Body.value?, hi]

theorem value_arithTyping (b : Body) (types : TypeTable) (lhs : ExprId) (op : ArithOp)
    (rhs : ExprId) : (b.arithTyping types lhs op rhs).bind Typing.value =
      b.newValue .other (.binary lhs (.arith op) rhs) := by
  simp only [Body.arithTyping, Body.newValue, Body.value?]
  cases b.typing? lhs with
  | none => rfl
  | some l =>
    cases b.typing? rhs with
    | none => cases hl : l.value <;> simp [hl]
    | some r => rfl

/-- Comparisons and logical operations have no value. -/
theorem compare_adds (t : FuncState) (lhs : ExprId) (op : BinaryOp) (rhs : ExprId)
    (range : TextRange) (hop : ∀ v w, op.foldValues v w = none) :
    Adds t (.binary lhs op rhs) range .other (do
      let ty ← prim (.untyped .bool)
      let e ← pushExpr (.binary lhs op rhs) range
      recordAll e (some ⟨ty, none⟩)
      return e) := by
  apply Adds.intern
  intro ty types
  refine adds_recordAll ?_ rfl rfl
  simp only [Body.newValue, hop]
  split <;> rfl

theorem binary_adds (t : FuncState) (lhs : ExprId) (op : BinaryOp) (rhs : ExprId) :
    Adds t (.binary lhs op rhs)
      ((t.func.body.exprRange lhs).cover (t.func.body.exprRange rhs)) .other
      (binary lhs op rhs) := by
  cases op with
  | arith op =>
    apply Adds.body
    exact adds_recordAll (value_arithTyping _ t.program.types lhs op rhs) rfl rfl
  | comp op => exact compare_adds t lhs (.comp op) rhs _ fun _ _ => rfl
  | logical op => exact compare_adds t lhs (.logical op) rhs _ fun _ _ => rfl

theorem unary_adds (t : FuncState) (range : TextRange) (op : UnaryOp) (operand : ExprId) :
    Adds t (.unary op operand) (range.cover (t.func.body.exprRange operand)) .other
      (unary range op operand) := by
  apply Adds.body
  refine adds_recordAll ?_ rfl rfl
  simp only [Body.newValue, Body.value?]
  cases t.func.body.typing? operand <;> rfl

theorem funcLit_adds (t : FuncState) (keyword : TextRange) (stmts : List StmtId) :
    Adds t (.funcLit stmts) (keyword.extendTo t.file.cursor) .other (funcLit keyword stmts) := by
  change Adds t _ _ _ (do
    let ty ← liftDecl (.intern (.signature [] []))
    let e ← pushExpr (.funcLit stmts) (keyword.extendTo t.file.cursor)
    record e ⟨ty, none⟩
    return e)
  apply Adds.intern
  exact fun ty types => ((completes_record rfl rfl rfl).result _).adds

theorem binding_adds (t : FuncState) (name : String) (range : TextRange) :
    Adds t (.ident name) range .other (pushExpr (.ident name) range) :=
  ⟨_, _, _, rfl, rfl, rfl, rfl, rfl, rfl, fun h => by cases h⟩

end FuncM

end SwitchCover
