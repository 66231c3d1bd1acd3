import SwitchCover.Package.Path
import SwitchCover.Syntax.Basic
import SwitchCover.Text.Range
import SwitchCover.Type.Table

namespace SwitchCover

structure Typing where
  ty : TyId
  value : Option ConstValue
deriving DecidableEq

/-- An expression with its range and the facts recorded about it. -/
structure ExprNode where
  expr : Expr
  range : TextRange
  typing : Option Typing
  packageRef : Option PackagePath
  /-- Whether the expression denotes a type rather than a value. -/
  isType : Bool
deriving DecidableEq

/-- A statement with its range. The range of a switch is that of its keyword. -/
structure StmtNode where
  stmt : Stmt
  range : TextRange
deriving DecidableEq

structure Body where
  exprs : List ExprNode
  stmts : List StmtNode
  root : List StmtId
deriving DecidableEq

namespace Body

def empty : Body :=
  ⟨[], [], []⟩

def exprNode? (b : Body) (e : ExprId) : Option ExprNode :=
  b.exprs[e.index]?

def stmtNode? (b : Body) (s : StmtId) : Option StmtNode :=
  b.stmts[s.index]?

def expr? (b : Body) (e : ExprId) : Option Expr :=
  (b.exprNode? e).map ExprNode.expr

def stmt? (b : Body) (s : StmtId) : Option Stmt :=
  (b.stmtNode? s).map StmtNode.stmt

def typing? (b : Body) (e : ExprId) : Option Typing :=
  (b.exprNode? e).bind ExprNode.typing

def type? (b : Body) (e : ExprId) : Option TyId :=
  (b.typing? e).map Typing.ty

def value? (b : Body) (e : ExprId) : Option ConstValue :=
  (b.typing? e).bind Typing.value

def packageRef? (b : Body) (e : ExprId) : Option PackagePath :=
  (b.exprNode? e).bind ExprNode.packageRef

def isTypeExpr (b : Body) (e : ExprId) : Bool :=
  (b.exprNode? e).any ExprNode.isType

def exprRange (b : Body) (e : ExprId) : TextRange :=
  match b.exprNode? e with
  | some node => node.range
  | none => ⟨0, 0⟩

def stmtRange (b : Body) (s : StmtId) : TextRange :=
  match b.stmtNode? s with
  | some node => node.range
  | none => ⟨0, 0⟩

def pushExpr (b : Body) (expr : Expr) (range : TextRange) : ExprId × Body :=
  (⟨b.exprs.length⟩, { b with exprs := b.exprs ++ [⟨expr, range, none, none, false⟩] })

def pushStmt (b : Body) (stmt : Stmt) (range : TextRange) : StmtId × Body :=
  (⟨b.stmts.length⟩, { b with stmts := b.stmts ++ [⟨stmt, range⟩] })

def modifyExpr (b : Body) (e : ExprId) (f : ExprNode → ExprNode) : Body :=
  { b with exprs := b.exprs.modify e.index f }

def setTyping (b : Body) (e : ExprId) (t : Typing) : Body :=
  b.modifyExpr e fun node => { node with typing := some t }

def setPackageRef (b : Body) (e : ExprId) (p : PackagePath) : Body :=
  b.modifyExpr e fun node => { node with packageRef := some p }

def markType (b : Body) (e : ExprId) : Body :=
  b.modifyExpr e fun node => { node with isType := true }

def unparenWithin (b : Body) : Nat → ExprId → ExprId
  | 0, e => e
  | fuel + 1, e =>
    match b.expr? e with
    | some (.paren inner) => b.unparenWithin fuel inner
    | _ => e

/-- The expression behind any number of parentheses. A chain without repetitions is no longer
than the body has expressions. -/
def unparen (b : Body) (e : ExprId) : ExprId :=
  b.unparenWithin b.exprs.length e

end Body

structure Func where
  name : String
  range : TextRange
  body : Body
deriving DecidableEq

end SwitchCover
