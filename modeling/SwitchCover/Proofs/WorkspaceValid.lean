import SwitchCover.Proofs.FuncSteps

namespace SwitchCover

/-- Results handed out for a body are nodes of it. -/
structure Handles.Valid (h : Handles) (b : Body) : Prop where
  exprs : ∀ e ∈ h.exprs, b.Has (.expr e)
  stmts : ∀ s ∈ h.stmts, b.Has (.stmt s)
  clauses : ∀ c ∈ h.clauses, ∀ n ∈ c.mentions, b.Has n

def Product.Valid (b : Body) : Product → Prop
  | nothing => True
  | range _ => True
  | expr e => b.Has (.expr e)
  | stmt s => b.Has (.stmt s)
  | clause c => ∀ n ∈ c.mentions, b.Has n

namespace Handles

theorem valid_empty (b : Body) : empty.Valid b where
  exprs := fun _ he => by cases he
  stmts := fun _ hs => by cases hs
  clauses := fun _ hc => by cases hc

theorem Valid.mono {h : Handles} {b b' : Body} (hv : h.Valid b) (hb : ∀ n, b.Has n → b'.Has n) :
    h.Valid b' where
  exprs := fun e he => hb _ (hv.exprs e he)
  stmts := fun s hs => hb _ (hv.stmts s hs)
  clauses := fun c hc n hn => hb n (hv.clauses c hc n hn)

theorem Valid.add {h : Handles} {b : Body} (hv : h.Valid b) (hp : Product.Valid b p) :
    (h.add p).Valid b := by
  cases p with
  | nothing => exact hv
  | range r => exact ⟨hv.exprs, hv.stmts, hv.clauses⟩
  | expr e =>
    refine ⟨?_, hv.stmts, hv.clauses⟩
    intro d hd
    rcases List.mem_append.1 hd with hd | hd
    · exact hv.exprs d hd
    · exact List.mem_singleton.1 hd ▸ hp
  | stmt s =>
    refine ⟨hv.exprs, ?_, hv.clauses⟩
    intro t ht
    rcases List.mem_append.1 ht with ht | ht
    · exact hv.stmts t ht
    · exact List.mem_singleton.1 ht ▸ hp
  | clause c =>
    refine ⟨hv.exprs, hv.stmts, ?_⟩
    intro d hd
    rcases List.mem_append.1 hd with hd | hd
    · exact hv.clauses d hd
    · exact List.mem_singleton.1 hd ▸ hp

end Handles

namespace FuncCommand

open FuncM
open FuncState (Leads MadeExpr MadeStmt)

/-- What a command leaves behind that fails with a build error. Two commands are made of two steps,
each of which can fail. -/
def leftover (s : FuncState) : FuncCommand → FuncState
  | localVar _ _ => s.skip "var"
  | selector base _ => s.withIdent base
  | _ => s

theorem expr_ensures {s : FuncState} {x : FuncM ExprId} (hx : Quiet s x MadeExpr) :
    Keeps s (Product.expr <$> x) fun p t => p.Valid t.func.body :=
  hx.ensures.map fun _ _ _ he => he

theorem stmt_ensures {s : FuncState} {x : FuncM StmtId} (hx : Quiet s x MadeStmt) :
    Keeps s (Product.stmt <$> x) fun p t => p.Valid t.func.body :=
  hx.ensures.map fun _ _ _ hid => hid

theorem run_ensures {s : FuncState} {h : Handles} (hs : s.Valid) (hh : h.Valid s.func.body)
    (ht : ∀ ty ∈ slots, s.program.types.Has ty) (c : FuncCommand) :
    Ensures Leads (OnBuildError (· = c.leftover s)) s (c.run slots h)
      fun p t => p.Valid t.func.body := by
  cases c with
  | keyword text =>
    have hl : Keeps s (FuncM.keyword text) fun _ t => t = s.skip text :=
      (locate_ensures hs text).mono fun _ _ he b hb => (he b hb).1
    exact hl.map fun _ _ _ _ => trivial
  | param name slot =>
    apply pick_bind hs
    intro ty hty
    exact (param_ensures hs name (ht ty hty)).bind fun _ t hl _ => .pure hl.valid.leads trivial
  | localVar name slot =>
    apply pick_bind hs
    intro ty hty
    exact (localVar_ensures hs name (ht ty hty)).bind fun _ t hl _ => .pure hl.valid.leads trivial
  | ident name => exact (ident_ensures hs name).map fun _ _ _ he => he
  | selector base member => exact (selector_ensures hs base member).map fun _ _ _ he => he
  | select base member =>
    apply pick_bind hs
    intro b hb
    exact (select_ensures hs (hh.exprs b hb) member).map fun _ _ _ he => he
  | intLit text => exact (intLit_ensures hs text).map fun _ _ _ he => he
  | strLit value => exact (strLit_ensures hs value).map fun _ _ _ he => he
  | call callee args =>
    apply pick_bind hs
    intro c hc
    apply pickAll_bind hs
    intro as ha
    have ha (a : ExprId) (hm : a ∈ as) := hh.exprs a (ha hm)
    exact (call_ensures hs (hh.exprs c hc) ha).map fun _ _ _ he => he
  | paren opening inner =>
    apply pick_bind hs
    intro r _
    apply pick_bind hs
    intro i hi
    exact (paren_ensures hs r (hh.exprs i hi)).map fun _ _ _ he => he
  | binary lhs op rhs =>
    apply pick_bind hs
    intro l hl
    apply pick_bind hs
    intro r hr
    exact expr_ensures (binary_ensures hs (hh.exprs l hl) op (hh.exprs r hr))
  | unary range op operand =>
    apply pick_bind hs
    intro r _
    apply pick_bind hs
    intro o ho
    exact expr_ensures (unary_ensures hs r op (hh.exprs o ho))
  | funcLit kw stmts =>
    apply pick_bind hs
    intro r _
    apply pickAll_bind hs
    intro ss hss
    have hss (id : StmtId) (hm : id ∈ ss) := hh.stmts id (hss hm)
    exact expr_ensures (funcLit_ensures hs r hss)
  | binding name => exact (binding_ensures hs name).map fun _ _ _ he => he
  | define lhs rhs =>
    apply pick_bind hs
    intro l hl
    apply pick_bind hs
    intro r hr
    exact stmt_ensures (define_ensures hs (hh.exprs l hl) (hh.exprs r hr))
  | assign lhs rhs =>
    apply pick_bind hs
    intro l hl
    apply pick_bind hs
    intro r hr
    exact stmt_ensures (pushAssign_ensures hs (hh.exprs l hl) (hh.exprs r hr) false)
  | exprStmt expr =>
    apply pick_bind hs
    intro e he
    exact stmt_ensures (exprStmt_ensures hs (hh.exprs e he))
  | block stmts =>
    apply pickAll_bind hs
    intro ss hss
    exact stmt_ensures (block_ensures hs fun id hm => hh.stmts id (hss hm))
  | ret kw exprs =>
    apply pick_bind hs
    intro r _
    apply pickAll_bind hs
    intro es hes
    exact stmt_ensures (ret_ensures hs r fun e hm => hh.exprs e (hes hm))
  | cond kw test body otherwise =>
    apply pick_bind hs
    intro r _
    apply pick_bind hs
    intro e he
    apply pickAll_bind hs
    intro ss hss
    apply pickOption_bind hs
    intro o ho
    have hss (id : StmtId) (hm : id ∈ ss) := hh.stmts id (hss hm)
    have ho (id : StmtId) (hm : o = some id) := hh.stmts id (ho id hm)
    exact stmt_ensures (cond_ensures hs r (hh.exprs e he) hss ho)
  | loop kw test body =>
    apply pick_bind hs
    intro r _
    apply pickOption_bind hs
    intro e he
    apply pickAll_bind hs
    intro ss hss
    have he (d : ExprId) (hm : e = some d) := hh.exprs d (he d hm)
    have hss (id : StmtId) (hm : id ∈ ss) := hh.stmts id (hss hm)
    exact stmt_ensures (loop_ensures hs r he hss)
  | switch kw init tag clauses =>
    apply pick_bind hs
    intro r _
    apply pickOption_bind hs
    intro i hi
    apply pickOption_bind hs
    intro e he
    apply pickAll_bind hs
    intro cs hcs
    have hi (id : StmtId) (hm : i = some id) := hh.stmts id (hi id hm)
    have he (d : ExprId) (hm : e = some d) := hh.exprs d (he d hm)
    have hcs (c : Clause) (hm : c ∈ cs) := hh.clauses c (hcs hm)
    exact stmt_ensures (switch_ensures hs r hi he hcs)
  | typeSwitch kw subject clauses =>
    apply pick_bind hs
    intro r _
    apply pick_bind hs
    intro e he
    apply pickAll_bind hs
    intro cs hcs
    have hcs (c : Clause) (hm : c ∈ cs) := hh.clauses c (hcs hm)
    exact stmt_ensures (typeSwitch_ensures hs r (hh.exprs e he) hcs)
  | caseClause labels body =>
    apply pickAll_bind hs
    intro ls hls
    apply pickAll_bind hs
    intro ss hss
    have hls (e : ExprId) (hm : e ∈ ls) := hh.exprs e (hls hm)
    have hss (id : StmtId) (hm : id ∈ ss) := hh.stmts id (hss hm)
    exact (caseClause_ensures hs hls hss).map fun _ _ _ hc => hc
  | defaultClause body =>
    apply pickAll_bind hs
    intro ss hss
    refine .pure hs.leads ?_
    intro n hn
    obtain ⟨id, hm, rfl⟩ := List.mem_map.1 hn
    exact hh.stmts id (hss hm)
  | finish root => exact .throw hs.leads fun _ _ => rfl
  | drop => exact .throw hs.leads fun _ _ => rfl

end FuncCommand

/-- The table grows, also if the computation fails, and a failure is not of building. -/
abbrev Interns (table : TypeTable) (x : EStateM StepError TypeTable α)
    (Q : α → TypeTable → Prop) : Prop :=
  Ensures TypeTable.Leads (OnBuildError fun _ => False) table x Q

namespace TypeRef

theorem internData_interns (h : table.Valid) (hc : ∀ c ∈ TyData.components data, table.Has c) :
    Interns table (internData data) fun ty t => t.Has ty :=
  ⟨⟨h.intern hc, table.intern_extends data⟩, table.has_intern data⟩

mutual

theorem intern_interns (h : table.Valid) (hs : ∀ ty ∈ slots, table.Has ty) (r : TypeRef) :
    Interns table (r.intern slots) fun ty t => t.Has ty := by
  match r with
  | prim p => exact internData_interns h fun c hc => (by cases hc)
  | interface => exact internData_interns h fun c hc => (by cases hc)
  | invalid => exact internData_interns h fun c hc => (by cases hc)
  | named n => exact internData_interns h fun c hc => (by cases hc)
  | pointer elem =>
    apply (intern_interns h hs elem).bind
    intro ty t ht hty
    exact internData_interns ht.1 fun c hc => List.mem_singleton.1 hc ▸ hty
  | slice elem =>
    apply (intern_interns h hs elem).bind
    intro ty t ht hty
    exact internData_interns ht.1 fun c hc => List.mem_singleton.1 hc ▸ hty
  | signature params results =>
    apply (internAll_interns h hs params).bind
    intro ps t ht hps
    apply (internAll_interns ht.1 (fun ty hty => (hs ty hty).mono ht.2) results).bind
    intro rs u hu hrs
    apply internData_interns hu.1
    intro c hc
    rcases List.mem_append.1 hc with hc | hc
    · exact (hps c hc).mono hu.2
    · exact hrs c hc
  | slot n =>
    rw [intern]
    split
    next ty hty => exact .pure h.leads (hs ty (List.mem_of_getElem? hty))
    next => exact ⟨h.leads, fun b hb => (by cases hb)⟩
  | unknown => exact ⟨h.leads, fun b hb => (by cases hb)⟩

theorem internAll_interns (h : table.Valid) (hs : ∀ ty ∈ slots, table.Has ty)
    (rs : List TypeRef) : Interns table (internAll slots rs) fun tys t => ∀ ty ∈ tys, t.Has ty := by
  match rs with
  | [] => exact .pure h.leads fun ty hty => (by cases hty)
  | r :: rs =>
    apply (intern_interns h hs r).bind
    intro ty t ht hty
    apply (internAll_interns ht.1 (fun ty hty => (hs ty hty).mono ht.2) rs).bind
    intro tys u hu htys
    refine .pure hu.1.leads ?_
    intro v hv
    rcases List.mem_cons.1 hv with rfl | hv
    · exact hty.mono hu.2
    · exact htys v hv

end

end TypeRef

def Level.Valid (p : Program) : Level → Prop
  | program => True
  | file f => f.Valid p
  | func f g h => f.Valid p ∧ g.Valid p.types ∧ h.Valid g.body

namespace Workspace

structure Valid (w : Workspace) : Prop where
  program : w.program.Valid
  slots : ∀ ty ∈ w.slots, w.program.types.Has ty
  level : w.level.Valid w.program

theorem valid_empty : empty.Valid :=
  ⟨Program.valid_empty, fun ty hty => (by cases hty), trivial⟩

theorem Valid.file {w : Workspace} (h : w.Valid) (hl : w.level = .file f) : f.Valid w.program := by
  have hv := h.level
  rwa [hl] at hv

theorem Valid.func {w : Workspace} (h : w.Valid) (hl : w.level = .func f g hs) :
    f.Valid w.program ∧ g.Valid w.program.types ∧ hs.Valid g.body := by
  have hv := h.level
  rwa [hl] at hv

end Workspace

theorem OpenFile.valid_new {p : Program} {package : PackagePath} (h : p.Valid)
    (hp : package ∈ p.packages.keys) (source : SourceText) :
    OpenFile.Valid ⟨(p.files.add source).1, package, [], [], 0⟩
      { p with files := (p.files.add source).2 } where
  stored := by simp [FileStore.add, FileStore.size]
  newest := by
    intro id hid
    obtain ⟨f, hf⟩ := OrderedMap.exists_get?_of_mem_keys hid
    exact (h.files id f hf).stored
  loaded := hp
  imports := fun i hi => by cases hi
  bodies := fun g hg => by cases hg

theorem OpenFile.Valid.setCursor {f : OpenFile} (h : f.Valid p) (n : Nat) :
    OpenFile.Valid { f with cursor := n } p :=
  ⟨h.stored, h.newest, h.loaded, h.imports, h.bodies⟩

theorem OpenFile.Valid.addImport {f : OpenFile} (h : f.Valid p) (hi : p.Imports f.package path) :
    OpenFile.Valid { f with imports := f.imports ++ [⟨name, path⟩] } p := by
  refine ⟨h.stored, h.newest, h.loaded, ?_, h.bodies⟩
  intro i hmem
  rcases List.mem_append.1 hmem with hmem | hmem
  · exact h.imports i hmem
  · rw [List.mem_singleton.1 hmem]
    exact hi

theorem OpenFunc.Valid.finish {g : OpenFunc} {table : TypeTable} (h : g.Valid table)
    (hr : ∀ id ∈ root, g.body.Has (.stmt id)) : (g.finish root).body.Valid table := by
  obtain ⟨stamp, hs⟩ := h.body.ordered
  refine ⟨⟨stamp, ?_⟩, hr, h.body.typed⟩
  exact ⟨hs.weight_le, hs.le_maxDepth, hs.mention, hs.stmts_lt, hs.exprs_lt⟩

end SwitchCover
