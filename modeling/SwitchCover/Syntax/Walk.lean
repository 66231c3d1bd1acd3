import SwitchCover.Syntax.Body

namespace SwitchCover

/-- What a traversal meets. A switch statement is met first as a statement and then as a switch,
and so is each of its clauses. -/
inductive Node where
  | stmt (s : StmtId)
  | switch (id : StmtId) (s : Switch)
  | typeSwitch (id : StmtId) (s : TypeSwitch)
  | clause (c : Clause)
  | expr (e : ExprId)
deriving DecidableEq

namespace Stmt

def children (id : StmtId) : Stmt → List Node
  | expr e => [.expr e]
  | assign lhs rhs _ => (lhs ++ rhs).map .expr
  | block stmts => stmts.map .stmt
  | cond init test body otherwise =>
    init.toList.map .stmt ++ .expr test :: body.map .stmt ++ otherwise.toList.map .stmt
  | loop test body => test.toList.map .expr ++ body.map .stmt
  | ret exprs => exprs.map .expr
  | switch s => [.switch id s]
  | typeSwitch s => [.typeSwitch id s]

end Stmt

namespace Expr

def children : Expr → List Node
  | ident _ => []
  | selector base _ => [.expr base]
  | call callee args => (callee :: args).map .expr
  | intLit _ => []
  | strLit _ => []
  | paren inner => [.expr inner]
  | unary _ operand => [.expr operand]
  | binary lhs _ rhs => [.expr lhs, .expr rhs]
  | funcLit stmts => stmts.map .stmt

end Expr

namespace Node

/-- Nodes directly below a node. The labels of a type switch are types and are not visited. -/
def children (b : Body) : Node → List Node
  | stmt id => match b.stmt? id with
    | some s => s.children id
    | none => []
  | switch _ s => s.init.toList.map .stmt ++ s.tag.toList.map .expr ++ s.clauses.map .clause
  | typeSwitch _ s => .expr s.subject :: (s.clauses.flatMap Clause.body).map .stmt
  | clause c => c.labelList.map .expr ++ c.body.map .stmt
  | expr id => match b.expr? id with
    | some e => e.children
    | none => []

/-- The node at the given depth and all nodes below it, down to `fuel` levels. -/
def walkWithin (b : Body) : Nat → Nat → Node → List (Nat × Node)
  | 0, _, _ => []
  | fuel + 1, depth, node =>
    (depth, node) :: (node.children b).flatMap (walkWithin b fuel (depth + 1))

end Node

namespace Body

/-- Levels of a body in which no node is below itself: a statement takes at most three, as
statement, switch and clause, and an expression one. -/
def maxDepth (b : Body) : Nat :=
  3 * b.stmts.length + b.exprs.length

def walk (b : Body) : List (Nat × Node) :=
  b.root.flatMap fun s => Node.walkWithin b b.maxDepth 0 (.stmt s)

def nodes (b : Body) : List Node :=
  b.walk.map Prod.snd

end Body

namespace Node

def switch? : Node → Option (StmtId × Switch)
  | switch id s => some (id, s)
  | _ => none

def isExpr : Node → Bool
  | expr _ => true
  | _ => false

end Node

namespace Body

def switches (b : Body) : List (StmtId × Switch) :=
  b.nodes.filterMap Node.switch?

end Body

end SwitchCover
