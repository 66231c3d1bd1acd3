import SwitchCover.Build.Script
import SwitchCover.Proofs.DeclareSteps

namespace SwitchCover

structure OpenFunc.Valid (g : OpenFunc) (table : TypeTable) : Prop where
  body : g.body.Valid table
  locals : ∀ name ty, g.locals.get? name = some ty → table.Has ty

theorem OpenFunc.Valid.mono {g : OpenFunc} (h : g.Valid s) (he : s.Extends t) : g.Valid t :=
  ⟨h.body.mono he, fun name ty hl => (h.locals name ty hl).mono he⟩

namespace FuncState

structure Valid (s : FuncState) : Prop where
  program : s.program.Valid
  func : s.func.Valid s.program.types

/-- A later state of a function under construction. -/
structure Leads (s t : FuncState) : Prop where
  valid : t.Valid
  program : t.program = { s.program with types := t.program.types }
  types : s.program.types.Extends t.program.types
  file : t.file = { s.file with cursor := t.file.cursor }
  makes : ∃ new, s.func.body.Makes new t.func.body

instance : IsTrans FuncState Leads where
  trans s t u h h' := by
    obtain ⟨new, hm⟩ := h.makes
    obtain ⟨new', hm'⟩ := h'.makes
    refine ⟨h'.valid, ?_, h.types.trans h'.types, ?_, new ++ new', hm.trans hm'⟩
    · rw [h'.program, h.program]
    · rw [h'.file, h.file]

theorem Valid.leads {s : FuncState} (h : s.Valid) : s.Leads s :=
  ⟨h, rfl, .refl _, rfl, [], .refl _⟩

theorem Valid.unpicked {s : FuncState} {F : FuncState → Prop} (h : s.Valid) :
    s.Leads s ∧ OnBuildError F .unknownHandle s :=
  ⟨h.leads, fun b hb => by cases hb⟩

theorem Leads.has {s t : FuncState} (h : s.Leads t) (n : NodeId) (hn : s.func.body.Has n) :
    t.func.body.Has n := by
  obtain ⟨_, hm⟩ := h.makes
  exact (hm.has n).2 (.inl hn)

theorem Leads.grows {s t : FuncState} (h : s.Leads t) : s.program.Grows t.program := by
  have hp := h.program
  refine ⟨h.types, ?_, ?_, ?_⟩
  · rw [hp]
  · rw [hp]
    exact .refl _
  · rw [hp]

theorem Leads.changes {s t : FuncState} (h : s.Leads t) : s.program.Changes .types t.program := by
  rw [h.program]
  exact .types ⟨h.valid.program.types, h.types⟩

def MadeExpr (e : ExprId) (s : FuncState) : Prop :=
  s.func.body.Has (.expr e)

def MadeStmt (id : StmtId) (s : FuncState) : Prop :=
  s.func.body.Has (.stmt id)

theorem Valid.setBody {s : FuncState} (h : s.Valid) {b : Body} (hb : b.Valid s.program.types)
    (hm : s.func.body.Makes new b) :
    s.Leads { s with func := { s.func with body := b } } :=
  ⟨⟨h.program, hb, h.func.locals⟩, rfl, .refl _, rfl, new, hm⟩

end FuncState

def OpenFile.skip (f : OpenFile) (store : FileStore) (needle : String) : OpenFile :=
  match f.locate? store needle with
  | some range => { f with cursor := range.stop }
  | none => f

namespace FuncState

def skip (s : FuncState) (needle : String) : FuncState :=
  { s with file := s.file.skip s.program.files needle }

def withIdent (s : FuncState) (name : String) : FuncState :=
  match FuncM.ident name s with
  | .ok _ t => t
  | .error _ _ => s

end FuncState

theorem FileM.locate_eq (needle : String) (s : FileState) :
    locate needle s = match s.file.locate? s.program.files needle with
      | some range => .ok range { s with file := { s.file with cursor := range.stop } }
      | none => .error (.build (.notInSource needle s.file.cursor)) s := by
  change (match s.file.locate? s.program.files needle with
    | some range => do
      set { s with file := { s.file with cursor := range.stop } }
      return range
    | none => throw (.build (.notInSource needle s.file.cursor)) : FileM TextRange) s = _
  cases s.file.locate? s.program.files needle <;> rfl

namespace FuncM

open FuncState (Leads MadeExpr MadeStmt)

/-- A step on a function that does not fail with a build error. -/
abbrev Quiet (s : FuncState) (x : FuncM α) (Q : α → FuncState → Prop) : Prop :=
  Ensures Leads (OnBuildError fun _ => False) s x Q

/-- A step on a function that changes nothing if it fails with a build error. -/
abbrev Keeps (s : FuncState) (x : FuncM α) (Q : α → FuncState → Prop) : Prop :=
  Ensures Leads (OnBuildError (· = s)) s x Q

theorem Quiet.ensures {s : FuncState} {x : FuncM α} (hx : Quiet s x Q) :
    Ensures Leads (OnBuildError P) s x Q :=
  hx.mono fun _ _ he b hb => (he b hb).elim

theorem locate_ensures {s : FuncState} (h : s.Valid) (needle : String) :
    Ensures Leads (OnBuildError fun t => t = s ∧ s.skip needle = s) s (locate needle)
      fun _ t => t = s.skip needle := by
  simp only [Ensures, Outcome, locate, liftFile, FileM.locate_eq, FuncState.skip, OpenFile.skip]
  cases s.file.locate? s.program.files needle with
  | none => exact ⟨h.leads, fun _ _ => ⟨rfl, rfl⟩⟩
  | some range => exact ⟨⟨⟨h.program, h.func⟩, rfl, .refl _, rfl, [], .refl _⟩, rfl⟩

theorem locate_bind {s : FuncState} {k : TextRange → FuncM α} (h : s.Valid) (needle : String)
    (hk : ∀ range t, s.Leads t → Quiet t (k range) Q) : Keeps s (locate needle >>= k) Q := by
  have hl : Keeps s (locate needle) fun _ t => t = s.skip needle :=
    (locate_ensures h needle).mono fun _ _ he b hb => (he b hb).1
  exact hl.bind fun range t ht _ => (hk range t ht).ensures

theorem intern_ensures {s : FuncState} (h : s.Valid)
    (hd : ∀ c ∈ TyData.components data, s.program.types.Has c) :
    Quiet s (liftDecl (.intern data)) fun ty t => t.program.types.Has ty := by
  have he := s.program.types.intern_extends data
  have hp := (h.program.setTypes he (h.program.types.intern hd)).1
  exact ⟨⟨⟨hp, h.func.mono he⟩, rfl, he, rfl, [], .refl _⟩, s.program.types.has_intern data⟩

theorem prim_ensures {s : FuncState} (h : s.Valid) (p : PrimType) :
    Quiet s (prim p) fun ty t => t.program.types.Has ty :=
  intern_ensures h fun _ hc => (by cases hc)

theorem emit_ensures {s : FuncState} (h : s.Valid) (e : Event) :
    Quiet s (emit e) fun _ _ => True :=
  ⟨⟨⟨h.program, h.func⟩, rfl, .refl _, rfl, [], .refl _⟩, trivial⟩

theorem setLocal_ensures {s : FuncState} (h : s.Valid) (name : String)
    (ht : s.program.types.Has ty) : Quiet s (setLocal name ty) fun _ _ => True := by
  refine ⟨⟨⟨h.program, h.func.body, ?_⟩, rfl, .refl _, rfl, [], .refl _⟩, trivial⟩
  intro n u hu
  rw [OrderedMap.get?_insert] at hu
  split at hu
  · cases hu
    exact ht
  · exact h.func.locals n u hu

theorem pushExpr_ensures {s : FuncState} (h : s.Valid)
    (hm : ∀ n ∈ Expr.mentions expr, s.func.body.Has n) (range : TextRange) :
    Quiet s (pushExpr expr range) MadeExpr :=
  ⟨h.setBody (h.func.body.pushExpr hm range) (Body.makes_pushExpr hm range),
    (s.func.body.has_pushExpr expr range _).2 (.inr rfl)⟩

theorem pushStmt_ensures {s : FuncState} (h : s.Valid)
    (hm : ∀ n ∈ Stmt.mentions stmt, s.func.body.Has n) (range : TextRange) :
    Quiet s (pushStmt stmt range) MadeStmt :=
  ⟨h.setBody (h.func.body.pushStmt hm range) (Body.makes_pushStmt hm range),
    (s.func.body.has_pushStmt stmt range _).2 (.inr rfl)⟩

theorem modifyExpr_ensures {s : FuncState} (h : s.Valid)
    (hf : ∀ node, (f node).expr = ExprNode.expr node)
    (hb : (s.func.body.modifyExpr e f).Valid s.program.types) :
    Quiet s (modifyBody (·.modifyExpr e f)) fun _ _ => True :=
  ⟨h.setBody hb (Body.makes_modifyExpr _ e hf), trivial⟩

theorem record_ensures {s : FuncState} (h : s.Valid) (e : ExprId) {t : Typing}
    (ht : s.program.types.Has t.ty) : Quiet s (record e t) fun _ _ => True :=
  modifyExpr_ensures h (fun _ => rfl) (h.func.body.setTyping e ht)

theorem markType_ensures {s : FuncState} (h : s.Valid) (e : ExprId) :
    Quiet s (modifyBody (·.markType e)) fun _ _ => True :=
  modifyExpr_ensures h (fun _ => rfl) (h.func.body.markType e)

theorem setPackageRef_ensures {s : FuncState} (h : s.Valid) (e : ExprId) (p : PackagePath) :
    Quiet s (modifyBody (·.setPackageRef e p)) fun _ _ => True :=
  modifyExpr_ensures h (fun _ => rfl) (h.func.body.setPackageRef e p)

theorem recordAll_ensures {s : FuncState} (h : s.Valid) (e : ExprId) {typing : Option Typing}
    (ht : ∀ t, typing = some t → s.program.types.Has t.ty) :
    Quiet s (recordAll e typing) fun _ _ => True := by
  cases typing with
  | none => exact .pure h.leads trivial
  | some t => exact record_ensures h e (ht t rfl)

theorem recordItem_ensures {s : FuncState} (h : s.Valid) (e : ExprId) {item : ScopeItem}
    (hi : ∀ ty ∈ item.types, s.program.types.Has ty) :
    Quiet s (recordItem e item) fun _ _ => True := by
  cases item with
  | type decl =>
    apply (markType_ensures h e).bind
    intro _ t ht _
    exact record_ensures ht.valid e ((hi _ List.mem_cons_self).mono ht.types)
  | const decl => exact record_ensures h e (hi _ List.mem_cons_self)
  | var ty => exact record_ensures h e (hi _ List.mem_cons_self)
  | func ty => exact record_ensures h e (hi _ List.mem_cons_self)

theorem recordPredeclared_ensures {s : FuncState} (h : s.Valid) (e : ExprId) (name : String) :
    Quiet s (recordPredeclared e name) fun _ _ => True := by
  rw [recordPredeclared]
  split
  · apply (prim_ensures h _).bind
    intro ty t ht hty
    exact record_ensures ht.valid e hty
  · split
    · apply (prim_ensures h _).bind
      intro ty t ht hty
      exact record_ensures ht.valid e hty
    · split
      · apply (prim_ensures h _).bind
        intro ty t ht hty
        apply (record_ensures ht.valid e hty).bind
        intro _ u hu _
        exact markType_ensures hu.valid e
      · exact emit_ensures h _

theorem has_of_lookup {p : Program} (h : p.Valid) (hl : p.lookup path name = some item) :
    ∀ ty ∈ item.types, p.types.Has ty := by
  obtain ⟨pkg, hp, hl⟩ := Option.bind_eq_some_iff.1 hl
  exact ((h.packages path pkg hp).scope name item hl).has

theorem resolveIdent_ensures {s : FuncState} (h : s.Valid) (e : ExprId) (name : String) :
    Quiet s (resolveIdent e name) fun _ _ => True := by
  apply Ensures.get
  split
  next ty hl => exact record_ensures h e (h.func.locals name ty hl)
  next =>
    split
    next item hi => exact recordItem_ensures h e (has_of_lookup h.program hi)
    next =>
      split
      · exact setPackageRef_ensures h e _
      · exact recordPredeclared_ensures h e name

/-- An expression that is added and then annotated. -/
theorem annotated_ensures {s : FuncState} {note : ExprId → FuncM Unit} (h : s.Valid)
    (hm : ∀ n ∈ Expr.mentions expr, s.func.body.Has n) (range : TextRange)
    (hk : ∀ e t, Leads s t → Quiet t (note e) fun _ _ => True) :
    Quiet s (do let e ← pushExpr expr range; note e; return e) MadeExpr := by
  apply (pushExpr_ensures h hm range).bind
  intro e t ht he
  apply (hk e t ht).bind
  intro _ u hu _
  exact .pure hu.valid.leads (hu.has _ he)

theorem param_ensures {s : FuncState} (h : s.Valid) (name : String)
    (ht : s.program.types.Has ty) : Keeps s (param name ty) fun _ _ => True := by
  apply locate_bind h
  intro _ t hl
  exact setLocal_ensures hl.valid name (ht.mono hl.types)

theorem localVar_ensures {s : FuncState} (h : s.Valid) (name : String)
    (ht : s.program.types.Has ty) :
    Ensures Leads (OnBuildError (· = s.skip "var")) s (localVar name ty) fun _ _ => True := by
  have hl : Ensures Leads (OnBuildError (· = s.skip "var")) s (locate "var")
      fun _ t => t = s.skip "var" := by
    apply (locate_ensures h "var").mono
    intro e t he b hb
    obtain ⟨ht, hs⟩ := he b hb
    exact ht.trans hs.symm
  apply hl.bind
  rintro _ _ hl rfl
  exact param_ensures hl.valid name (ht.mono hl.types)

theorem ident_ensures {s : FuncState} (h : s.Valid) (name : String) :
    Keeps s (ident name) MadeExpr := by
  apply locate_bind h
  intro range t ht
  apply annotated_ensures ht.valid (fun n hn => (by cases hn)) range
  exact fun e u hu => resolveIdent_ensures hu.valid e name

theorem resolveMember_ensures {s : FuncState} (h : s.Valid) (e : ExprId) (path : PackagePath)
    (member : String) : Quiet s (resolveMember e path member) fun _ _ => True := by
  apply Ensures.get
  split
  next item hi => exact recordItem_ensures h e (has_of_lookup h.program hi)
  next => exact emit_ensures h _

theorem select_ensures {s : FuncState} (h : s.Valid) (hb : s.func.body.Has (.expr base))
    (member : String) : Keeps s (select base member) MadeExpr := by
  apply locate_bind h
  intro range t ht
  have hm : ∀ n ∈ Expr.mentions (.selector base member), t.func.body.Has n := by
    intro n hn
    rw [List.mem_singleton.1 hn]
    exact ht.has _ hb
  apply Ensures.get
  apply (pushExpr_ensures ht.valid hm _).bind
  intro e u hu he
  split
  · apply (resolveMember_ensures hu.valid e _ member).bind
    intro _ v hv _
    exact .pure hv.valid.leads (hv.has _ he)
  · exact .pure hu.valid.leads he

theorem selector_ensures {s : FuncState} (h : s.Valid) (base member : String) :
    Ensures Leads (OnBuildError (· = s.withIdent base)) s (selector base member) MadeExpr := by
  have hi : Ensures Leads (OnBuildError (· = s.withIdent base)) s (ident base)
      fun e t => MadeExpr e t ∧ t = s.withIdent base := by
    apply (ident_ensures h base).self.outcome.mono
    · rintro e t ⟨ht, he, hx⟩
      exact ⟨ht, he, by rw [FuncState.withIdent, hx]⟩
    · rintro e t ⟨ht, he, hx⟩
      exact ⟨ht, fun b hb => by rw [FuncState.withIdent, hx, he b hb]⟩
  apply hi.bind
  rintro e _ ht ⟨he, rfl⟩
  exact select_ensures ht.valid he member

theorem intLit_ensures {s : FuncState} (h : s.Valid) (text : String) :
    Keeps s (intLit text) MadeExpr := by
  apply locate_bind h
  intro range t ht
  apply (pushExpr_ensures ht.valid (fun n hn => (by cases hn)) range).bind
  intro e u hu he
  apply (prim_ensures hu.valid _).bind
  intro ty v hv hty
  split
  · apply (record_ensures hv.valid e hty).bind
    intro _ w hw _
    exact .pure hw.valid.leads (hw.has _ (hv.has _ he))
  · exact .throw hv.valid.leads fun b hb => (by cases hb)

theorem strLit_ensures {s : FuncState} (h : s.Valid) (value : String) :
    Keeps s (strLit value) MadeExpr := by
  apply locate_bind h
  intro range t ht
  apply (pushExpr_ensures ht.valid (fun n hn => (by cases hn)) range).bind
  intro e u hu he
  apply (prim_ensures hu.valid _).bind
  intro ty v hv hty
  apply (record_ensures hv.valid e hty).bind
  intro _ w hw _
  exact .pure hw.valid.leads (hw.has _ (hv.has _ he))

theorem has_of_callTyping {b : Body} (h : b.Valid table) (ht : table.Valid)
    (hc : b.callTyping table callee args = some typing) : table.Has typing.ty := by
  rw [Body.callTyping] at hc
  split at hc
  · cases hc
  next ty hty =>
    split at hc
    · have hv : typing.ty = ty := by
        split at hc <;> cases hc <;> rfl
      exact hv ▸ h.type? hty
    · split at hc
      next result hr =>
        cases hc
        exact ht.results hr List.mem_cons_self
      · cases hc

theorem call_ensures {s : FuncState} (h : s.Valid) (hc : s.func.body.Has (.expr callee))
    (ha : ∀ a ∈ args, s.func.body.Has (.expr a)) :
    Keeps s (call callee args) MadeExpr := by
  apply locate_bind h
  intro close t ht
  apply Ensures.get
  apply Ensures.get
  have hm : ∀ n ∈ Expr.mentions (.call callee args), t.func.body.Has n := by
    intro n hn
    simp only [Expr.mentions, List.mem_cons, List.mem_map] at hn
    rcases hn with rfl | ⟨a, hmem, rfl⟩
    · exact ht.has _ hc
    · exact ht.has _ (ha a hmem)
  apply annotated_ensures ht.valid hm
  intro e u hu
  apply recordAll_ensures hu.valid e
  intro typing hty
  exact (has_of_callTyping ht.valid.func.body ht.valid.program.types hty).mono hu.types

theorem paren_ensures {s : FuncState} {inner : ExprId} (h : s.Valid) (opening : TextRange)
    (hi : s.func.body.Has (.expr inner)) :
    Keeps s (paren opening inner) MadeExpr := by
  apply locate_bind h
  intro close t ht
  apply Ensures.get
  have hm : ∀ n ∈ Expr.mentions (.paren inner), t.func.body.Has n := by
    intro n hn
    rw [List.mem_singleton.1 hn]
    exact ht.has _ hi
  apply (pushExpr_ensures ht.valid hm _).bind
  intro e u hu he
  have hty (typing : Typing) (hi : t.func.body.typing? inner = some typing) :
      u.program.types.Has typing.ty :=
    (ht.valid.func.body.typed inner typing hi).mono hu.types
  apply (recordAll_ensures hu.valid e hty).bind
  intro _ v hv _
  split
  · apply (markType_ensures hv.valid e).bind
    intro _ w hw _
    exact .pure hw.valid.leads (hw.has _ (hv.has _ he))
  · exact .pure hv.valid.leads (hv.has _ he)

theorem has_of_arithTyping {b : Body} (h : b.Valid table)
    (ha : b.arithTyping table lhs op rhs = some typing) : table.Has typing.ty := by
  rw [Body.arithTyping] at ha
  split at ha
  next l r hl hr =>
    cases ha
    dsimp only
    split
    · exact h.typed rhs r hr
    · exact h.typed lhs l hl
  · cases ha

theorem binaryTyping_ensures {s : FuncState} (h : s.Valid) (lhs : ExprId) (op : BinaryOp)
    (rhs : ExprId) : Quiet s (binaryTyping lhs op rhs)
      fun typing t => ∀ u, typing = some u → t.program.types.Has u.ty := by
  unfold binaryTyping
  split
  · exact ⟨h.leads, fun u hu => has_of_arithTyping h.func.body hu⟩
  · apply (prim_ensures h _).bind
    intro ty t ht hty
    refine .pure ht.valid.leads ?_
    intro u hu
    cases hu
    exact hty

theorem binary_ensures {s : FuncState} (h : s.Valid) (hl : s.func.body.Has (.expr lhs))
    (op : BinaryOp) (hr : s.func.body.Has (.expr rhs)) :
    Quiet s (binary lhs op rhs) MadeExpr := by
  apply Ensures.get
  apply (binaryTyping_ensures h lhs op rhs).bind
  intro typing t ht hty
  have hm : ∀ n ∈ Expr.mentions (.binary lhs op rhs), t.func.body.Has n := by
    intro n hn
    simp only [Expr.mentions, List.mem_cons, List.not_mem_nil, or_false] at hn
    rcases hn with rfl | rfl
    · exact ht.has _ hl
    · exact ht.has _ hr
  apply annotated_ensures ht.valid hm
  intro e u hu
  exact recordAll_ensures hu.valid e fun v hv => (hty v hv).mono hu.types

theorem unary_ensures {s : FuncState} (h : s.Valid) (range : TextRange) (op : UnaryOp)
    (ho : s.func.body.Has (.expr operand)) :
    Quiet s (unary range op operand) MadeExpr := by
  apply Ensures.get
  have hm : ∀ n ∈ Expr.mentions (.unary op operand), s.func.body.Has n := by
    intro n hn
    rw [List.mem_singleton.1 hn]
    exact ho
  apply annotated_ensures h hm
  intro e t ht
  apply recordAll_ensures ht.valid e
  intro u hu
  obtain ⟨v, hv, rfl⟩ := Option.map_eq_some_iff.1 hu
  exact (h.func.body.typed operand v hv).mono ht.types

theorem funcLit_ensures {s : FuncState} (h : s.Valid) (keyword : TextRange)
    (hs : ∀ id ∈ stmts, s.func.body.Has (.stmt id)) :
    Quiet s (funcLit keyword stmts) MadeExpr := by
  apply Ensures.get
  apply (intern_ensures h (fun c hc => (by cases hc))).bind
  intro ty t ht hty
  have hm : ∀ n ∈ Expr.mentions (.funcLit stmts), t.func.body.Has n := by
    intro n hn
    obtain ⟨id, hid, rfl⟩ := List.mem_map.1 hn
    exact ht.has _ (hs id hid)
  apply annotated_ensures ht.valid hm
  exact fun e u hu => record_ensures hu.valid e (hty.mono hu.types)

theorem binding_ensures {s : FuncState} (h : s.Valid) (name : String) :
    Keeps s (binding name) MadeExpr := by
  apply locate_bind h
  intro range t ht
  exact pushExpr_ensures ht.valid (fun n hn => (by cases hn)) range

theorem defaultType_ensures {s : FuncState} (h : s.Valid) (hty : s.program.types.Has ty) :
    Quiet s (defaultType ty) fun u t => t.program.types.Has u := by
  apply Ensures.get
  split
  · split
    · exact prim_ensures h _
    · exact .pure h.leads hty
  · exact .pure h.leads hty

theorem bindLocal_ensures {s : FuncState} (h : s.Valid) (lhs rhs : ExprId) :
    Quiet s (bindLocal lhs rhs) fun _ _ => True := by
  apply Ensures.get
  split
  next name ty _ hty =>
    apply (defaultType_ensures h (h.func.body.type? hty)).bind
    intro u t ht hu
    apply (setLocal_ensures ht.valid name hu).bind
    intro _ v hv _
    exact record_ensures hv.valid lhs (hu.mono hv.types)
  · exact .pure h.leads trivial

theorem pushAssign_ensures {s : FuncState} (h : s.Valid) (hl : s.func.body.Has (.expr lhs))
    (hr : s.func.body.Has (.expr rhs)) (define : Bool) :
    Quiet s (pushAssign lhs rhs define) MadeStmt := by
  apply Ensures.get
  apply pushStmt_ensures h
  intro n hn
  simp only [Stmt.mentions, List.map_cons, List.map_nil, List.cons_append, List.nil_append,
    List.mem_cons, List.not_mem_nil, or_false] at hn
  rcases hn with rfl | rfl
  · exact hl
  · exact hr

theorem define_ensures {s : FuncState} (h : s.Valid) (hl : s.func.body.Has (.expr lhs))
    (hr : s.func.body.Has (.expr rhs)) :
    Quiet s (define lhs rhs) MadeStmt := by
  apply (bindLocal_ensures h lhs rhs).bind
  intro _ t ht _
  exact pushAssign_ensures ht.valid (ht.has _ hl) (ht.has _ hr) true

theorem exprStmt_ensures {s : FuncState} (h : s.Valid) (he : s.func.body.Has (.expr e)) :
    Quiet s (exprStmt e) MadeStmt := by
  apply Ensures.get
  apply pushStmt_ensures h
  intro n hn
  rw [List.mem_singleton.1 hn]
  exact he

theorem block_ensures {s : FuncState} (h : s.Valid)
    (hs : ∀ id ∈ stmts, s.func.body.Has (.stmt id)) :
    Quiet s (block stmts) MadeStmt := by
  apply Ensures.get
  apply pushStmt_ensures h
  intro n hn
  obtain ⟨id, hid, rfl⟩ := List.mem_map.1 hn
  exact hs id hid

theorem ret_ensures {s : FuncState} (h : s.Valid) (keyword : TextRange)
    (he : ∀ e ∈ exprs, s.func.body.Has (.expr e)) :
    Quiet s (ret keyword exprs) MadeStmt := by
  apply Ensures.get
  apply pushStmt_ensures h
  intro n hn
  obtain ⟨e, hmem, rfl⟩ := List.mem_map.1 hn
  exact he e hmem

theorem cond_ensures {s : FuncState} (h : s.Valid) (keyword : TextRange)
    (ht : s.func.body.Has (.expr test)) (hb : ∀ id ∈ stmts, s.func.body.Has (.stmt id))
    (ho : ∀ id, otherwise = some id → s.func.body.Has (.stmt id)) :
    Quiet s (cond keyword test stmts otherwise) MadeStmt := by
  apply Ensures.get
  apply pushStmt_ensures h
  intro n hn
  simp only [Stmt.mentions, Option.toList_none, List.map_nil, List.nil_append, List.cons_append,
    List.mem_cons, List.mem_append, List.mem_map, Option.mem_toList] at hn
  rcases hn with rfl | ⟨id, hid, rfl⟩ | ⟨id, hid, rfl⟩
  · exact ht
  · exact hb id hid
  · exact ho id hid

theorem loop_ensures {s : FuncState} (h : s.Valid) (keyword : TextRange)
    (ht : ∀ e, test = some e → s.func.body.Has (.expr e))
    (hb : ∀ id ∈ stmts, s.func.body.Has (.stmt id)) :
    Quiet s (loop keyword test stmts) MadeStmt := by
  apply Ensures.get
  apply pushStmt_ensures h
  intro n hn
  simp only [Stmt.mentions, List.mem_append, List.mem_map, Option.mem_toList] at hn
  rcases hn with ⟨e, he, rfl⟩ | ⟨id, hid, rfl⟩
  · exact ht e he
  · exact hb id hid

theorem switch_ensures {s : FuncState} (h : s.Valid) (keyword : TextRange)
    (hi : ∀ id, init = some id → s.func.body.Has (.stmt id))
    (ht : ∀ e, tag = some e → s.func.body.Has (.expr e))
    (hc : ∀ c ∈ clauses, ∀ n ∈ Clause.mentions c, s.func.body.Has n) :
    Quiet s (switch keyword ⟨init, tag, clauses⟩) MadeStmt := by
  apply pushStmt_ensures h
  intro n hn
  simp only [Stmt.mentions, List.mem_append, List.mem_map, List.mem_flatMap,
    Option.mem_toList] at hn
  rcases hn with (⟨id, hid, rfl⟩ | ⟨e, he, rfl⟩) | ⟨c, hmem, hn⟩
  · exact hi id hid
  · exact ht e he
  · exact hc c hmem n hn

theorem typeSwitch_ensures {s : FuncState} (h : s.Valid) (keyword : TextRange)
    (hs : s.func.body.Has (.expr subject))
    (hc : ∀ c ∈ clauses, ∀ n ∈ Clause.mentions c, s.func.body.Has n) :
    Quiet s (typeSwitch keyword ⟨subject, clauses⟩) MadeStmt := by
  apply pushStmt_ensures h
  intro n hn
  simp only [Stmt.mentions, List.mem_cons, List.mem_flatMap] at hn
  rcases hn with rfl | ⟨c, hmem, hn⟩
  · exact hs
  · exact hc c hmem n hn

theorem has_of_clause {b : Body} (hl : ∀ e ∈ labels, b.Has (.expr e))
    (hb : ∀ id ∈ stmts, b.Has (.stmt id)) :
    ∀ n ∈ Clause.mentions ⟨some labels, stmts⟩, b.Has n := by
  intro n hn
  simp only [Clause.mentions, Clause.labelList, Option.getD_some, List.mem_append,
    List.mem_map] at hn
  rcases hn with ⟨e, he, rfl⟩ | ⟨id, hid, rfl⟩
  · exact hl e he
  · exact hb id hid

theorem caseClause_ensures {s : FuncState} (h : s.Valid)
    (hl : ∀ e ∈ labels, s.func.body.Has (.expr e)) (hb : ∀ id ∈ stmts, s.func.body.Has (.stmt id)) :
    Keeps s (caseClause labels stmts)
      fun c t => ∀ n ∈ Clause.mentions c, t.func.body.Has n := by
  cases labels with
  | nil => exact .throw h.leads fun _ _ => rfl
  | cons e es => exact .pure h.leads (has_of_clause hl hb)

theorem pick_outcome (xs : List α) (n : Nat) (s : FuncState) :
    Outcome s (pick xs n) (fun x t => t = s ∧ xs[n]? = some x)
      fun e t => t = s ∧ e = .unknownHandle ∧ xs[n]? = none := by
  rw [pick]
  split
  next x hx => exact ⟨rfl, hx⟩
  next hx => exact ⟨rfl, rfl, hx⟩

theorem pickAll_outcome (xs : List α) (ns : List Nat) (s : FuncState) :
    Outcome s (pickAll xs ns) (fun ys t => t = s ∧ ys ⊆ xs ∧ ∀ n ∈ ns, n < xs.length)
      fun e t => t = s ∧ e = .unknownHandle ∧ ¬∀ n ∈ ns, n < xs.length := by
  induction ns with
  | nil => exact ⟨rfl, List.nil_subset xs, fun n hn => (by cases hn)⟩
  | cons n ns ih =>
    simp only [List.forall_mem_cons]
    apply (pick_outcome xs n s).bind
    · rintro y _ _ ⟨rfl, hy⟩
      apply ih.bind
      · rintro ys _ _ ⟨rfl, hys, hall⟩
        have hn := (List.getElem?_eq_some_iff.1 hy).1
        exact ⟨rfl, List.cons_subset.2 ⟨List.mem_of_getElem? hy, hys⟩, hn, hall⟩
      · exact fun e t he => ⟨he.1, he.2.1, fun h => he.2.2 h.2⟩
    · exact fun e t he => ⟨he.1, he.2.1, fun h => absurd h.1 (by simpa using he.2.2)⟩

theorem pickOption_outcome (xs : List α) (n : Option Nat) (s : FuncState) :
    Outcome s (pickOption xs n) (fun y t => t = s ∧ ∀ x, y = some x → x ∈ xs)
      fun e t => t = s ∧ e = .unknownHandle ∧ True := by
  cases n with
  | none => exact ⟨rfl, fun x hx => (by cases hx)⟩
  | some n =>
    apply ((pick_outcome xs n s).mono (fun _ _ h => h) fun _ _ h => ⟨h.1, h.2.1, trivial⟩).map
    intro x t hx
    exact ⟨hx.1, fun y hy => Option.some.inj hy ▸ List.mem_of_getElem? hx.2⟩

/-- A computation that goes on with what was picked. -/
theorem picked_bind {R : FuncState → FuncState → Prop} {F : StepError → FuncState → Prop}
    {x : FuncM α} {k : α → FuncM β} {P : α → Prop} {N : Prop}
    (hx : Outcome s x (fun y t => t = s ∧ P y) fun e t => t = s ∧ e = .unknownHandle ∧ N)
    (hk : ∀ y, P y → Ensures R F s (k y) Q) (hn : N → R s s ∧ F .unknownHandle s) :
    Ensures R F s (x >>= k) Q := by
  apply hx.bind
  · rintro y _ _ ⟨rfl, hy⟩
    exact hk y hy
  · rintro e _ ⟨rfl, rfl, h⟩
    exact hn h

theorem pick_bind {s : FuncState} {k : α → FuncM β} (h : s.Valid)
    (hk : ∀ x ∈ xs, Ensures Leads (OnBuildError F) s (k x) Q) :
    Ensures Leads (OnBuildError F) s (pick xs n >>= k) Q :=
  picked_bind (pick_outcome xs n s) (fun x hx => hk x (List.mem_of_getElem? hx)) fun _ => h.unpicked

theorem pickAll_bind {s : FuncState} {k : List α → FuncM β} (h : s.Valid)
    (hk : ∀ ys, ys ⊆ xs → Ensures Leads (OnBuildError F) s (k ys) Q) :
    Ensures Leads (OnBuildError F) s (pickAll xs ns >>= k) Q :=
  picked_bind (pickAll_outcome xs ns s) (fun ys hys => hk ys hys.1) fun _ => h.unpicked

theorem pickOption_bind {s : FuncState} {k : Option α → FuncM β} (h : s.Valid)
    (hk : ∀ y, (∀ x, y = some x → x ∈ xs) → Ensures Leads (OnBuildError F) s (k y) Q) :
    Ensures Leads (OnBuildError F) s (pickOption xs n >>= k) Q :=
  picked_bind (pickOption_outcome xs n s) hk fun _ => h.unpicked

end FuncM

end SwitchCover
