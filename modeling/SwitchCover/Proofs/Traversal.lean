import SwitchCover.Syntax.Walk

namespace SwitchCover

inductive NodeId where
  | stmt (s : StmtId)
  | expr (e : ExprId)
deriving DecidableEq

namespace NodeId

def toNode : NodeId → Node
  | stmt s => .stmt s
  | expr e => .expr e

/-- Levels that a node takes at most: a switch is met as statement, switch and clause. -/
def weight : NodeId → Nat
  | stmt _ => 3
  | expr _ => 1

end NodeId

namespace Clause

def mentions (c : Clause) : List NodeId :=
  c.labelList.map .expr ++ c.body.map .stmt

end Clause

namespace Stmt

def mentions : Stmt → List NodeId
  | expr e => [.expr e]
  | assign lhs rhs _ => lhs.map .expr ++ rhs.map .expr
  | block stmts => stmts.map .stmt
  | cond init test body otherwise =>
    init.toList.map .stmt ++ .expr test :: body.map .stmt ++ otherwise.toList.map .stmt
  | loop test body => test.toList.map .expr ++ body.map .stmt
  | ret exprs => exprs.map .expr
  | switch s =>
    s.init.toList.map .stmt ++ s.tag.toList.map .expr ++ s.clauses.flatMap Clause.mentions
  | typeSwitch s => .expr s.subject :: s.clauses.flatMap Clause.mentions

/-- Nodes below a statement. The labels of a type switch are types and do not count. -/
def parts : Stmt → List NodeId
  | typeSwitch s => .expr s.subject :: (s.clauses.flatMap Clause.body).map .stmt
  | s => s.mentions

theorem parts_sublist_mentions (s : Stmt) : s.parts.Sublist s.mentions := by
  cases s with
  | typeSwitch s =>
    apply List.Sublist.cons_cons
    induction s.clauses with
    | nil => exact List.Sublist.slnil
    | cons c cs ih =>
      rw [List.flatMap_cons, List.map_append, List.flatMap_cons]
      exact (List.sublist_append_right _ _).append ih
  | _ => exact List.Sublist.refl _

theorem parts_subset_mentions (s : Stmt) : s.parts ⊆ s.mentions :=
  s.parts_sublist_mentions.subset

theorem children_eq (id : StmtId) (h : ∀ t, s ≠ switch t) (h' : ∀ t, s ≠ typeSwitch t) :
    s.children id = s.parts.map NodeId.toNode := by
  cases s with
  | switch t => exact absurd rfl (h t)
  | typeSwitch t => exact absurd rfl (h' t)
  | _ => simp [children, parts, mentions, NodeId.toNode, Function.comp_def]

end Stmt

namespace Expr

def mentions : Expr → List NodeId
  | ident _ => []
  | selector base _ => [.expr base]
  | call callee args => .expr callee :: args.map .expr
  | intLit _ => []
  | strLit _ => []
  | paren inner => [.expr inner]
  | unary _ operand => [.expr operand]
  | binary lhs _ rhs => [.expr lhs, .expr rhs]
  | funcLit stmts => stmts.map .stmt

theorem children_eq (e : Expr) : e.children = e.mentions.map NodeId.toNode := by
  cases e <;> simp [children, mentions, NodeId.toNode]

end Expr

namespace Body

def Has (b : Body) : NodeId → Prop
  | .stmt s => s.index < b.stmts.length
  | .expr e => e.index < b.exprs.length

def mentions (b : Body) : NodeId → List NodeId
  | .stmt s => match b.stmt? s with
    | some s => s.mentions
    | none => []
  | .expr e => match b.expr? e with
    | some e => e.mentions
    | none => []

def parts (b : Body) : NodeId → List NodeId
  | .stmt s => match b.stmt? s with
    | some s => s.parts
    | none => []
  | .expr e => b.mentions (.expr e)

theorem parts_sublist_mentions (b : Body) (n : NodeId) : (b.parts n).Sublist (b.mentions n) := by
  cases n with
  | stmt s =>
    simp only [parts, mentions]
    split
    · exact Stmt.parts_sublist_mentions _
    · exact List.Sublist.refl _
  | expr e => exact List.Sublist.refl _

theorem parts_subset_mentions (b : Body) (n : NodeId) : b.parts n ⊆ b.mentions n :=
  (b.parts_sublist_mentions n).subset

/-- The top-level statements and all nodes below them. -/
inductive Reaches (b : Body) : NodeId → Prop where
  | root (h : s ∈ b.root) : b.Reaches (.stmt s)
  | part (h : b.Reaches n) (hm : m ∈ b.parts n) : b.Reaches m

/-- Every node refers only to nodes of the body with an earlier stamp. The distance leaves room
for the levels of a traversal, and within the statements and within the expressions stamps
increase with the position. -/
structure Stamped (b : Body) (stamp : NodeId → Nat) : Prop where
  weight_le (n : NodeId) : b.Has n → n.weight ≤ stamp n
  le_maxDepth (n : NodeId) : b.Has n → stamp n ≤ b.maxDepth
  mention (n m : NodeId) : m ∈ b.mentions n → b.Has m ∧ stamp m + n.weight ≤ stamp n
  stmts_lt (s t : StmtId) : s.index < t.index → b.Has (.stmt t) → stamp (.stmt s) < stamp (.stmt t)
  exprs_lt (d e : ExprId) : d.index < e.index → b.Has (.expr e) → stamp (.expr d) < stamp (.expr e)

/-- Nodes can be ordered in time so that each refers to earlier nodes only. -/
def Ordered (b : Body) : Prop :=
  ∃ stamp, b.Stamped stamp

def Rooted (b : Body) : Prop :=
  ∀ s ∈ b.root, b.Has (.stmt s)

end Body

namespace Node

theorem children_clause (b : Body) (c : Clause) :
    (clause c).children b = c.mentions.map NodeId.toNode := by
  simp [children, Clause.mentions, NodeId.toNode, Function.comp_def]

theorem children_typeSwitch (b : Body) (id : StmtId) (s : TypeSwitch) :
    (typeSwitch id s).children b = (Stmt.typeSwitch s).parts.map NodeId.toNode := by
  simp [children, Stmt.parts, NodeId.toNode, Function.comp_def]

end Node

namespace Body

theorem has_of_stmt? {b : Body} {id : StmtId} (h : b.stmt? id = some s) : b.Has (.stmt id) := by
  obtain ⟨node, hn, _⟩ := Option.map_eq_some_iff.1 h
  exact (List.getElem?_eq_some_iff.1 hn).1

theorem has_of_expr? {b : Body} (h : b.expr? d = some e) : b.Has (.expr d) := by
  obtain ⟨node, hn, _⟩ := Option.map_eq_some_iff.1 h
  exact (List.getElem?_eq_some_iff.1 hn).1

theorem expr?_of_has {b : Body} {e : ExprId} (h : b.Has (.expr e)) : ∃ x, b.expr? e = some x :=
  ⟨_, congrArg (Option.map ExprNode.expr) (List.getElem?_eq_getElem h)⟩

theorem stmt?_of_has {b : Body} {s : StmtId} (h : b.Has (.stmt s)) : ∃ x, b.stmt? s = some x :=
  ⟨_, congrArg (Option.map StmtNode.stmt) (List.getElem?_eq_getElem h)⟩

theorem has_of_mem_mentions {b : Body} (h : m ∈ b.mentions n) : b.Has n := by
  cases n with
  | stmt s =>
    simp only [mentions] at h
    split at h
    next hs => exact has_of_stmt? hs
    next => cases h
  | expr e =>
    simp only [mentions] at h
    split at h
    next he => exact has_of_expr? he
    next => cases h

end Body

end SwitchCover
