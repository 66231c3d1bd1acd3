import SwitchCover.Proofs.NewNodes

namespace SwitchCover

structure Token where
  needle : String
  range : TextRange
deriving DecidableEq

/-- The tokens located one behind the other, up to the first that is not found. -/
def OpenFile.tokens (f : OpenFile) (store : FileStore) : List String → List Token
  | [] => []
  | needle :: needles =>
    match f.locate? store needle with
    | some range => ⟨needle, range⟩ :: tokens { f with cursor := range.stop } store needles
    | none => []

namespace FuncState

def tokens (s : FuncState) (needles : List String) : List Token :=
  s.file.tokens s.program.files needles

def behind (s : FuncState) (range : TextRange) : FuncState :=
  { s with file := { s.file with cursor := range.stop } }

theorem tokens_cons_none {s : FuncState} (h : s.file.locate? s.program.files needle = none)
    (needles : List String) : s.tokens (needle :: needles) = [] := by
  rw [tokens, OpenFile.tokens, h]

theorem tokens_cons_some {s : FuncState} (h : s.file.locate? s.program.files needle = some range)
    (needles : List String) :
    s.tokens (needle :: needles) = ⟨needle, range⟩ :: (s.behind range).tokens needles := by
  rw [tokens, OpenFile.tokens, h]
  rfl

end FuncState

/-- What a command works with: the meanings of names and members, the ranges that it may refer to,
those of them that may become the range of a switch, and the expressions that it may define. -/
structure Inputs where
  names : String → Meaning
  members : PackagePath → String → Meaning
  ranges : List TextRange
  keywords : List TextRange
  defines : List ExprId

def Inputs.member (I : Inputs) (package : Option PackagePath) (name : String) : Meaning :=
  match package with
  | some path => I.members path name
  | none => .other

def Inputs.meaning (I : Inputs) (b : Body) : Expr → Meaning
  | .ident name => I.names name
  | .selector base name => I.member (b.packageRef? base) name
  | _ => .other

/-- Ranges that can be made from the given ones, those of the body and the cursor. -/
inductive Spanned (known : List TextRange) (t : FuncState) : TextRange → Prop where
  | known (h : r ∈ known) : Spanned known t r
  | expr (e : ExprId) : Spanned known t (t.func.body.exprRange e)
  | stmt (s : StmtId) : Spanned known t (t.func.body.stmtRange s)
  | cover (h : Spanned known t r) (h' : Spanned known t r') : Spanned known t (r.cover r')
  | toCursor (h : Spanned known t r) : Spanned known t (r.extendTo t.file.cursor)
  | atCursor : Spanned known t (.emptyAt t.file.cursor)

/-- A run of small steps from one state of a function to another, with the tokens located on the
way. -/
inductive Run (I : Inputs) (s : FuncState) : List Token → FuncState → Prop where
  | start : Run I s [] s
  | token (h : Run I s found t) (hr : t.file.locate? t.program.files needle = some range) :
    Run I s (found ++ [⟨needle, range⟩]) (t.behind range)
  | quiet (h : Run I s found t) (types : TypeTable) (events : List Event)
    (locals : OrderedMap String TyId) : Run I s found { t with
      program := { t.program with types }, events, func := { t.func with locals } }
  | expr (h : Run I s found t) (hn : node.Agrees t.func.body (I.meaning t.func.body node.expr))
    (hr : Spanned (I.ranges ++ found.map Token.range) t node.range) :
    Run I s found { t with func := { t.func with body := t.func.body.addExpr node } }
  | stmt (h : Run I s found t) (hr : Spanned (I.ranges ++ found.map Token.range) t node.range)
    (hs : ∀ sw, node.stmt = .switch sw → node.range ∈ I.keywords) :
    Run I s found { t with func := { t.func with body := t.func.body.addStmt node } }
  | bind (h : Run I s found t) (he : e ∈ I.defines) (hn : t.func.body.expr? e = some (.ident name))
    (ty : TyId) :
    Run I s found { t with func := { t.func with body := t.func.body.setTyping e ⟨ty, none⟩ } }

theorem Run.has (h : Run I s found t) (hn : s.func.body.Has n) : t.func.body.Has n := by
  induction h with
  | start => exact hn
  | token _ _ ih => exact ih
  | quiet _ _ _ _ ih => exact ih
  | expr _ _ _ ih =>
    cases n with
    | stmt i => exact ih
    | expr e =>
      simp only [Body.Has, Body.addExpr, List.length_append] at ih ⊢
      omega
  | stmt _ _ _ ih =>
    cases n with
    | stmt i =>
      simp only [Body.Has, Body.addStmt, List.length_append] at ih ⊢
      omega
    | expr e => exact ih
  | bind _ _ _ _ ih => exact (Body.has_modifyExpr ..).2 ih

/-- A computation from `t` leads to the end of a run with the given tokens, also if it fails. -/
abbrev RunsTo (I : Inputs) (s : FuncState) (found : List Token) (t : FuncState) (x : FuncM α)
    (Q : α → FuncState → Prop) : Prop :=
  Ensures (fun _ u => Run I s found u) (fun _ _ => True) t x Q

instance isTransSnd (P : σ → Prop) : IsTrans σ fun _ t => P t where
  trans _ _ _ _ h := h

namespace FuncM

variable {I : Inputs} {s t : FuncState}

theorem locate_eq (needle : String) (t : FuncState) :
    locate needle t = match t.file.locate? t.program.files needle with
      | some range => .ok range (t.behind range)
      | none => .error (.build (.notInSource needle t.file.cursor)) t := by
  simp only [locate, liftFile, FileM.locate_eq]
  cases t.file.locate? t.program.files needle <;> rfl

theorem locate_run {k : TextRange → FuncM α} (h : Run I s found t)
    (hk : ∀ range, t.file.locate? t.program.files needle = some range →
      RunsTo I s (found ++ ⟨needle, range⟩ :: (t.behind range).tokens needles) (t.behind range)
        (k range) Q) :
    RunsTo I s (found ++ t.tokens (needle :: needles)) t (locate needle >>= k) Q := by
  simp only [Ensures, Outcome, bind, EStateM.bind, locate_eq]
  cases hr : t.file.locate? t.program.files needle with
  | none =>
    rw [FuncState.tokens_cons_none hr, List.append_nil]
    exact ⟨h, trivial⟩
  | some range =>
    rw [FuncState.tokens_cons_some hr]
    exact hk range hr

theorem locate_run_last {k : TextRange → FuncM α} (h : Run I s found t)
    (hk : ∀ range, Run I s (found ++ [⟨needle, range⟩]) (t.behind range) →
      RunsTo I s (found ++ [⟨needle, range⟩]) (t.behind range) (k range) Q) :
    RunsTo I s (found ++ t.tokens [needle]) t (locate needle >>= k) Q :=
  locate_run h fun range hr => hk range (h.token hr)

theorem spanned_last (known : List TextRange) (found : List Token) (needle : String)
    (range : TextRange) (t : FuncState) :
    Spanned (known ++ (found ++ [Token.mk needle range]).map Token.range) t range := by
  apply Spanned.known
  simp

theorem spanned_input (hr : range ∈ I.ranges) (found : List Token) (t : FuncState) :
    Spanned (I.ranges ++ found.map Token.range) t range :=
  .known (List.mem_append_left _ hr)

theorem Adds.run_bind {x : FuncM ExprId} {k : ExprId → FuncM α} (h : Run I s found t)
    (hx : Adds t expr range μ x) (hμ : I.meaning t.func.body expr = μ)
    (hr : Spanned (I.ranges ++ found.map Token.range) t range)
    (hk : ∀ node types events, Run I s found (t.added node types events) →
      RunsTo I s found' (t.added node types events) (k t.nextExpr) Q) :
    RunsTo I s found' t (x >>= k) Q := by
  obtain ⟨node, types, events, hx, rfl, rfl, hn⟩ := hx
  rw [← hμ] at hn
  simp only [Ensures, Outcome, bind, EStateM.bind, hx]
  exact hk node types events ((h.expr hn hr).quiet types events t.func.locals)

theorem Adds.run {x : FuncM ExprId} (h : Run I s found t)
    (hx : Adds t expr range μ x) (hμ : I.meaning t.func.body expr = μ)
    (hr : Spanned (I.ranges ++ found.map Token.range) t range) :
    RunsTo I s found t x fun _ _ => True := by
  have hp : RunsTo I s found t (x >>= pure) fun _ _ => True :=
    hx.run_bind h hμ hr fun _ _ _ hrun => .pure hrun trivial
  rwa [bind_pure] at hp

theorem keyword_run (h : Run I s found t) (text : String) :
    RunsTo I s (found ++ t.tokens [text]) t (keyword text)
      fun range _ => range ∈ (found ++ t.tokens [text]).map Token.range := by
  simp only [Ensures, Outcome, keyword, locate_eq]
  cases hr : t.file.locate? t.program.files text with
  | none =>
    rw [FuncState.tokens_cons_none hr, List.append_nil]
    exact ⟨h, trivial⟩
  | some range =>
    rw [FuncState.tokens_cons_some hr]
    exact ⟨h.token hr, by simp⟩

theorem param_run (h : Run I s found t) (name : String) (ty : TyId) :
    RunsTo I s (found ++ t.tokens [name]) t (param name ty) fun _ _ => True := by
  apply locate_run_last h
  intro range hrun
  exact ⟨hrun.quiet _ _ _, trivial⟩

theorem localVar_run (h : Run I s found t) (name : String) (ty : TyId) :
    RunsTo I s (found ++ t.tokens ["var", name]) t (localVar name ty) fun _ _ => True := by
  apply locate_run h
  intro range hr
  rw [List.append_cons]
  exact param_run (h.token hr) name ty

theorem ident_run (h : Run I s found t) (hn : I.names = t.meaning) (name : String) :
    RunsTo I s (found ++ t.tokens [name]) t (ident name) fun _ _ => True := by
  apply locate_run_last h
  intro range hrun
  exact (ident_adds _ name range).run hrun (congrFun hn name) (spanned_last _ _ _ _ _)

theorem select_run (h : Run I s found t) (hm : I.members = t.program.memberMeaning)
    (base : ExprId) (member : String) :
    RunsTo I s (found ++ t.tokens [member]) t (select base member) fun _ _ => True := by
  apply locate_run_last h
  intro range hrun
  apply (select_adds _ base member range).run hrun
  · simp only [Inputs.meaning, Inputs.member, hm]
    rfl
  · exact .cover (.expr base) (spanned_last _ _ _ _ _)

theorem selector_run (h : Run I s found t) (hn : I.names = t.meaning)
    (hm : I.members = t.program.memberMeaning) (base member : String) :
    RunsTo I s (found ++ t.tokens [base, member]) t (selector base member) fun _ _ => True := by
  have hx : selector base member = (locate base >>= fun range =>
      (do let e ← pushExpr (.ident base) range; resolveIdent e base; return e) >>=
        fun e => select e member) := by
    simp only [selector, ident, bind_assoc]
  rw [hx]
  apply locate_run h
  intro range hr
  rw [List.append_cons]
  apply (ident_adds _ base range).run_bind (h.token hr) (congrFun hn base) (spanned_last _ _ _ _ _)
  -- The identifier leaves the file and the declarations alone, so the search goes on as before.
  exact fun node types events hrun => select_run hrun hm _ member

theorem intLit_run (h : Run I s found t) (text : String) :
    RunsTo I s (found ++ t.tokens [text]) t (intLit text) fun _ _ => True := by
  apply locate_run_last h
  intro range hrun
  obtain ⟨node, types, events, he, rfl, hn, hx⟩ := intLit_adds (t.behind range) text range
  have hn : node.Agrees t.func.body (I.meaning t.func.body node.expr) := he ▸ hn
  have hrun := (hrun.expr hn (spanned_last _ _ _ _ _)).quiet types events t.func.locals
  exact hx.weaken fun u hu => hu ▸ hrun

theorem strLit_run (h : Run I s found t) (value : String) :
    RunsTo I s (found ++ t.tokens ["\"" ++ value ++ "\""]) t (strLit value) fun _ _ => True := by
  apply locate_run_last h
  intro range hrun
  exact (strLit_adds _ value range).run hrun rfl (spanned_last _ _ _ _ _)

theorem call_run (h : Run I s found t) (callee : ExprId) (args : List ExprId) :
    RunsTo I s (found ++ t.tokens [")"]) t (call callee args) fun _ _ => True := by
  apply locate_run_last h
  intro range hrun
  apply (call_adds _ callee args range).run hrun rfl
  exact .cover (.expr callee) (spanned_last _ _ _ _ _)

theorem paren_run (h : Run I s found t) (ho : opening ∈ I.ranges) (inner : ExprId) :
    RunsTo I s (found ++ t.tokens [")"]) t (paren opening inner) fun _ _ => True := by
  apply locate_run_last h
  intro range hrun
  apply (paren_adds _ opening range inner).run hrun rfl
  exact .cover (spanned_input ho _ _) (spanned_last _ _ _ _ _)

theorem binary_run (h : Run I s found t) (lhs : ExprId) (op : BinaryOp) (rhs : ExprId) :
    RunsTo I s found t (binary lhs op rhs) fun _ _ => True :=
  (binary_adds t lhs op rhs).run h rfl (.cover (.expr lhs) (.expr rhs))

theorem unary_run (h : Run I s found t) (hr : range ∈ I.ranges) (op : UnaryOp)
    (operand : ExprId) : RunsTo I s found t (unary range op operand) fun _ _ => True :=
  (unary_adds t range op operand).run h rfl (.cover (spanned_input hr _ _) (.expr operand))

theorem funcLit_run (h : Run I s found t) (hk : kw ∈ I.ranges) (stmts : List StmtId) :
    RunsTo I s found t (funcLit kw stmts) fun _ _ => True :=
  (funcLit_adds t kw stmts).run h rfl (.toCursor (spanned_input hk _ _))

theorem binding_run (h : Run I s found t) (hn : I.names name = .other) :
    RunsTo I s (found ++ t.tokens [name]) t (binding name) fun _ _ => True := by
  apply locate_run_last h
  intro range hrun
  exact (binding_adds _ name range).run hrun hn (spanned_last _ _ _ _ _)

theorem defaultType_run (h : Run I s found t) (ty : TyId) :
    RunsTo I s found t (defaultType ty) fun _ u => u.func = t.func := by
  apply Ensures.get
  split
  · split
    · exact ⟨h.quiet _ _ _, rfl⟩
    · exact ⟨h, rfl⟩
  · exact ⟨h, rfl⟩

theorem bindLocal_run (h : Run I s found t) (hd : lhs ∈ I.defines) (rhs : ExprId) :
    RunsTo I s found t (bindLocal lhs rhs) fun _ _ => True := by
  apply Ensures.get
  split
  next name ty hl _ =>
    apply (defaultType_run h ty).bind
    intro u v hv hb
    have hl : v.func.body.expr? lhs = some (.ident name) := hb ▸ hl
    have hv := hv.quiet v.program.types v.events (v.func.locals.insert name u)
    exact ⟨hv.bind hd hl u, trivial⟩
  next => exact .pure h trivial

theorem pushStmt_run (h : Run I s found t)
    (hr : Spanned (I.ranges ++ found.map Token.range) t range)
    (hs : ∀ sw, stmt = .switch sw → range ∈ I.keywords) :
    RunsTo I s found t (pushStmt stmt range) fun _ _ => True :=
  ⟨h.stmt hr hs, trivial⟩

theorem pushAssign_run (h : Run I s found t) (lhs rhs : ExprId) (define : Bool) :
    RunsTo I s found t (pushAssign lhs rhs define) fun _ _ => True := by
  apply Ensures.get
  apply pushStmt_run h
  · exact .cover (.expr lhs) (.expr rhs)
  · exact fun _ hs => by cases hs

theorem define_run (h : Run I s found t) (hd : lhs ∈ I.defines) (rhs : ExprId) :
    RunsTo I s found t (define lhs rhs) fun _ _ => True := by
  apply (bindLocal_run h hd rhs).bind
  exact fun _ u hu _ => pushAssign_run hu lhs rhs true

theorem exprStmt_run (h : Run I s found t) (e : ExprId) :
    RunsTo I s found t (exprStmt e) fun _ _ => True := by
  apply Ensures.get
  exact pushStmt_run h (.expr e) fun _ hs => by cases hs

theorem block_run (h : Run I s found t) (stmts : List StmtId) :
    RunsTo I s found t (block stmts) fun _ _ => True := by
  apply Ensures.get
  apply pushStmt_run h
  · split
    · exact .cover (.stmt _) (.stmt _)
    · exact .atCursor
  · exact fun _ hs => by cases hs

theorem spanFrom_run (h : Run I s found t) (hk : kw ∈ I.ranges)
    (hs : ∀ sw, stmt ≠ .switch sw) :
    RunsTo I s found t (do pushStmt stmt (← spanFrom kw)) fun _ _ => True := by
  apply Ensures.get
  exact pushStmt_run h (.toCursor (spanned_input hk _ _)) fun sw he => absurd he (hs sw)

/-- A switch, which stands at its keyword. -/
theorem switch_run (h : Run I s found t) (hr : kw ∈ I.ranges)
    (hk : kw ∈ I.keywords) (sw : Switch) :
    RunsTo I s found t (switch kw sw) fun _ _ => True :=
  pushStmt_run h (spanned_input hr _ _) fun _ _ => hk

theorem typeSwitch_run (h : Run I s found t) (hr : kw ∈ I.ranges) (sw : TypeSwitch) :
    RunsTo I s found t (typeSwitch kw sw) fun _ _ => True :=
  pushStmt_run h (spanned_input hr _ _) fun _ hs => by cases hs

theorem pick_run {k : α → FuncM β} (hnone : xs[n]? = none → Run I s found t)
    (hk : ∀ x, xs[n]? = some x → RunsTo I s found t (k x) Q) :
    RunsTo I s found t (pick xs n >>= k) Q :=
  picked_bind (pick_outcome xs n t) hk fun hx => ⟨hnone hx, trivial⟩

theorem pickAll_run {k : List α → FuncM β}
    (hnone : (¬∀ n ∈ ns, n < xs.length) → Run I s found t)
    (hk : (∀ n ∈ ns, n < xs.length) → ∀ ys, RunsTo I s found t (k ys) Q) :
    RunsTo I s found t (pickAll xs ns >>= k) Q :=
  picked_bind (pickAll_outcome xs ns t) (fun ys hys => hk hys.2 ys) fun h => ⟨hnone h, trivial⟩

/-- A computation that searches only if the picked element is there. -/
theorem pick_tokens_run {k : α → FuncM β}
    (hk : ∀ x, xs[n]? = some x → RunsTo I s (s.tokens needles) s (k x) Q) :
    RunsTo I s (s.tokens (if n < xs.length then needles else [])) s (pick xs n >>= k) Q := by
  apply pick_run
  · intro hx
    rw [if_neg (Nat.not_lt.2 (List.getElem?_eq_none_iff.1 hx))]
    exact .start
  · intro x hx
    rw [if_pos (List.getElem?_eq_some_iff.1 hx).1]
    exact hk x hx

theorem pickAll_tokens_run {k : List α → FuncM β}
    (hk : ∀ ys, RunsTo I s (s.tokens needles) s (k ys) Q) :
    RunsTo I s (s.tokens (if ∀ n ∈ ns, n < xs.length then needles else [])) s
      (pickAll xs ns >>= k) Q := by
  apply pickAll_run
  · intro hall
    rw [if_neg hall]
    exact .start
  · intro hall ys
    rw [if_pos hall]
    exact hk ys

theorem pickOption_run {k : Option α → FuncM β} (h : Run I s found t)
    (hk : ∀ y, RunsTo I s found t (k y) Q) : RunsTo I s found t (pickOption xs n >>= k) Q :=
  picked_bind (pickOption_outcome xs n t) (fun y _ => hk y) fun _ => ⟨h, trivial⟩

end FuncM

namespace FuncCommand

/-- The tokens that a command searches for, which are none if one of its positions is unknown. -/
def needles (slots : List TyId) (h : Handles) : FuncCommand → List String
  | keyword text => [text]
  | param name slot => if slot < slots.length then [name] else []
  | localVar name slot => if slot < slots.length then ["var", name] else []
  | ident name => [name]
  | selector base member => [base, member]
  | select base member => if base < h.exprs.length then [member] else []
  | intLit text => [text]
  | strLit value => ["\"" ++ value ++ "\""]
  | call callee args =>
    if callee < h.exprs.length ∧ ∀ arg ∈ args, arg < h.exprs.length then [")"] else []
  | paren opening inner =>
    if opening < h.ranges.length ∧ inner < h.exprs.length then [")"] else []
  | binding name => [name]
  | _ => []

def inputs (c : FuncCommand) (h : Handles) (s : FuncState) : Inputs where
  names := match c with
    | binding _ => fun _ => .other
    | _ => s.meaning
  members := s.program.memberMeaning
  ranges := h.ranges
  keywords := match c with
    | switch kw _ _ _ => h.ranges[kw]?.toList
    | _ => []
  defines := match c with
    | define lhs _ => h.exprs[lhs]?.toList
    | _ => []

theorem expr_runs {x : FuncM ExprId} {ranges : List TextRange}
    (hx : RunsTo I s found t x fun _ _ => True) :
    RunsTo I s found t (Product.expr <$> x) fun p _ =>
      ∀ range, p = .range range → range ∈ ranges :=
  hx.map fun _ _ _ _ _ hp => by cases hp

theorem stmt_runs {x : FuncM StmtId} {ranges : List TextRange}
    (hx : RunsTo I s found t x fun _ _ => True) :
    RunsTo I s found t (Product.stmt <$> x) fun p _ =>
      ∀ range, p = .range range → range ∈ ranges :=
  hx.map fun _ _ _ _ _ hp => by cases hp

/-- What a command on a function does, whether it succeeds or fails. -/
theorem run_runs (slots : List TyId) (h : Handles) (s : FuncState) (c : FuncCommand) :
    RunsTo (c.inputs h s) s (s.tokens (c.needles slots h)) s (c.run slots h) fun p _ =>
      ∀ range, p = .range range → range ∈ (s.tokens (c.needles slots h)).map Token.range := by
  have hstart {I : Inputs} : Run I s [] s := .start
  have hmem {xs : List TextRange} {n : Nat} {r : TextRange} (hr : xs[n]? = some r) : r ∈ xs :=
    List.mem_of_getElem? hr
  cases c with
  | keyword text =>
    apply (FuncM.keyword_run hstart text).map
    intro range _ _ hr r hp
    cases hp
    exact hr
  | param name slot =>
    apply FuncM.pick_tokens_run
    intro ty _
    apply (FuncM.param_run hstart name ty).bind
    exact fun _ _ hu _ => .pure hu fun _ hp => by cases hp
  | localVar name slot =>
    apply FuncM.pick_tokens_run
    intro ty _
    apply (FuncM.localVar_run hstart name ty).bind
    exact fun _ _ hu _ => .pure hu fun _ hp => by cases hp
  | ident name => exact expr_runs (FuncM.ident_run hstart rfl name)
  | selector base member => exact expr_runs (FuncM.selector_run hstart rfl rfl base member)
  | select base member =>
    apply FuncM.pick_tokens_run
    exact fun e _ => expr_runs (FuncM.select_run hstart rfl e member)
  | intLit text => exact expr_runs (FuncM.intLit_run hstart text)
  | strLit value => exact expr_runs (FuncM.strLit_run hstart value)
  | call callee args =>
    rw [needles, ite_and]
    apply FuncM.pick_tokens_run
    intro e _
    apply FuncM.pickAll_tokens_run
    exact fun es => expr_runs (FuncM.call_run hstart e es)
  | paren opening inner =>
    rw [needles, ite_and]
    apply FuncM.pick_tokens_run
    intro r hr
    apply FuncM.pick_tokens_run
    exact fun e _ => expr_runs (FuncM.paren_run hstart (hmem hr) e)
  | binary lhs op rhs =>
    apply FuncM.pick_run fun _ => hstart
    intro l _
    apply FuncM.pick_run fun _ => hstart
    exact fun r _ => expr_runs (FuncM.binary_run hstart l op r)
  | unary range op operand =>
    apply FuncM.pick_run fun _ => hstart
    intro r hr
    apply FuncM.pick_run fun _ => hstart
    exact fun e _ => expr_runs (FuncM.unary_run hstart (hmem hr) op e)
  | funcLit kw stmts =>
    apply FuncM.pick_run fun _ => hstart
    intro r hr
    apply FuncM.pickAll_run fun _ => hstart
    exact fun _ ss => expr_runs (FuncM.funcLit_run hstart (hmem hr) ss)
  | binding name => exact expr_runs (FuncM.binding_run hstart rfl)
  | define lhs rhs =>
    apply FuncM.pick_run fun _ => hstart
    intro l hl
    apply FuncM.pick_run fun _ => hstart
    intro r _
    refine stmt_runs (FuncM.define_run hstart ?_ r)
    simp only [inputs, hl, Option.toList_some, List.mem_singleton]
  | assign lhs rhs =>
    apply FuncM.pick_run fun _ => hstart
    intro l _
    apply FuncM.pick_run fun _ => hstart
    exact fun r _ => stmt_runs (FuncM.pushAssign_run hstart l r false)
  | exprStmt expr =>
    apply FuncM.pick_run fun _ => hstart
    exact fun e _ => stmt_runs (FuncM.exprStmt_run hstart e)
  | block stmts =>
    apply FuncM.pickAll_run fun _ => hstart
    exact fun _ ss => stmt_runs (FuncM.block_run hstart ss)
  | ret kw exprs =>
    apply FuncM.pick_run fun _ => hstart
    intro r hr
    apply FuncM.pickAll_run fun _ => hstart
    exact fun _ es => stmt_runs (FuncM.spanFrom_run hstart (hmem hr) fun _ hs => by cases hs)
  | cond kw test body otherwise =>
    apply FuncM.pick_run fun _ => hstart
    intro r hr
    apply FuncM.pick_run fun _ => hstart
    intro e _
    apply FuncM.pickAll_run fun _ => hstart
    intro _ ss
    apply FuncM.pickOption_run hstart
    exact fun o => stmt_runs (FuncM.spanFrom_run hstart (hmem hr) fun _ hs => by cases hs)
  | loop kw test body =>
    apply FuncM.pick_run fun _ => hstart
    intro r hr
    apply FuncM.pickOption_run hstart
    intro o
    apply FuncM.pickAll_run fun _ => hstart
    exact fun _ ss => stmt_runs (FuncM.spanFrom_run hstart (hmem hr) fun _ hs => by cases hs)
  | switch kw init tag clauses =>
    apply FuncM.pick_run fun _ => hstart
    intro r hr
    apply FuncM.pickOption_run hstart
    intro i
    apply FuncM.pickOption_run hstart
    intro o
    apply FuncM.pickAll_run fun _ => hstart
    intro _ cs
    refine stmt_runs (FuncM.switch_run hstart (hmem hr) ?_ ⟨i, o, cs⟩)
    simp only [inputs, hr, Option.toList_some, List.mem_singleton]
  | typeSwitch kw subject clauses =>
    apply FuncM.pick_run fun _ => hstart
    intro r hr
    apply FuncM.pick_run fun _ => hstart
    intro e _
    apply FuncM.pickAll_run fun _ => hstart
    exact fun _ cs => stmt_runs (FuncM.typeSwitch_run hstart (hmem hr) ⟨e, cs⟩)
  | caseClause labels body =>
    apply FuncM.pickAll_run fun _ => hstart
    intro _ es
    apply FuncM.pickAll_run fun _ => hstart
    intro _ ss
    cases es with
    | nil => exact .throw hstart trivial
    | cons e es => exact ⟨hstart, fun _ hp => by cases hp⟩
  | defaultClause body =>
    apply FuncM.pickAll_run fun _ => hstart
    exact fun _ ss => .pure hstart fun _ hp => by cases hp
  | finish root => exact .throw hstart trivial
  | drop => exact .throw hstart trivial

end FuncCommand

end SwitchCover
