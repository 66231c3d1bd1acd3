import SwitchCover.ConstValue

namespace SwitchCover

structure ExprId where
  index : Nat
deriving DecidableEq

structure StmtId where
  index : Nat
deriving DecidableEq

inductive Expr where
  | ident (name : String)
  | selector (base : ExprId) (member : String)
  | call (callee : ExprId) (args : List ExprId)
  | intLit (text : String)
  | strLit (value : String)
  | paren (inner : ExprId)
  | unary (op : UnaryOp) (operand : ExprId)
  | binary (lhs : ExprId) (op : BinaryOp) (rhs : ExprId)
  /-- A function literal, whose statements stand in the enclosing body. -/
  | funcLit (stmts : List StmtId)
deriving DecidableEq

/-- A clause of a switch: labels, or none for the default clause, and statements. -/
structure Clause where
  labels : Option (List ExprId)
  body : List StmtId
deriving DecidableEq

namespace Clause

def isDefault (c : Clause) : Bool :=
  c.labels.isNone

def labelList (c : Clause) : List ExprId :=
  c.labels.getD []

end Clause

/-- An expression switch. Without a tag it tests conditions. -/
structure Switch where
  init : Option StmtId
  tag : Option ExprId
  clauses : List Clause
deriving DecidableEq

namespace Switch

def hasDefault (s : Switch) : Bool :=
  s.clauses.any Clause.isDefault

def labels (s : Switch) : List ExprId :=
  s.clauses.flatMap Clause.labelList

end Switch

structure TypeSwitch where
  subject : ExprId
  clauses : List Clause
deriving DecidableEq

inductive Stmt where
  | expr (e : ExprId)
  | assign (lhs rhs : List ExprId) (define : Bool)
  | block (stmts : List StmtId)
  | cond (init : Option StmtId) (test : ExprId) (body : List StmtId) (otherwise : Option StmtId)
  | loop (test : Option ExprId) (body : List StmtId)
  | ret (exprs : List ExprId)
  | switch (s : Switch)
  | typeSwitch (s : TypeSwitch)
deriving DecidableEq

end SwitchCover
