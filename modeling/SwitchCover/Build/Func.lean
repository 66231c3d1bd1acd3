import SwitchCover.Build.File
import SwitchCover.IntLiteral
import SwitchCover.Trace

namespace SwitchCover

structure OpenFunc where
  name : String
  range : TextRange
  body : Body
  locals : OrderedMap String TyId

structure FuncState where
  program : Program
  file : OpenFile
  func : OpenFunc
  events : List Event

abbrev FuncM := EStateM StepError FuncState

namespace FuncM

def liftDecl {α : Type} (x : DeclM α) : FuncM α := fun s =>
  match x s.program with
  | .ok a p => .ok a { s with program := p }
  | .error e p => .error e { s with program := p }

def liftFile {α : Type} (x : FileM α) : FuncM α := fun s =>
  match x ⟨s.program, s.file⟩ with
  | .ok a t => .ok a { s with program := t.program, file := t.file }
  | .error e t => .error e { s with program := t.program, file := t.file }

def emit (e : Event) : FuncM Unit :=
  modify fun s => { s with events := s.events ++ [e] }

def locate (needle : String) : FuncM TextRange :=
  liftFile (.locate needle)

def body : FuncM Body := do
  return (← get).func.body

def modifyBody (f : Body → Body) : FuncM Unit :=
  modify fun s => { s with func := { s.func with body := f s.func.body } }

def setLocal (name : String) (ty : TyId) : FuncM Unit :=
  modify fun s => { s with func := { s.func with locals := s.func.locals.insert name ty } }

def prim (p : PrimType) : FuncM TyId :=
  liftDecl (.intern (.prim p))

def types : FuncM TypeTable := do
  return (← get).program.types

def pushExpr (expr : Expr) (range : TextRange) : FuncM ExprId := do
  let (id, b) := (← body).pushExpr expr range
  modifyBody fun _ => b
  return id

def pushStmt (stmt : Stmt) (range : TextRange) : FuncM StmtId := do
  let (id, b) := (← body).pushStmt stmt range
  modifyBody fun _ => b
  return id

def record (e : ExprId) (t : Typing) : FuncM Unit :=
  modifyBody (·.setTyping e t)

def recordAll (e : ExprId) : Option Typing → FuncM Unit
  | some t => record e t
  | none => return ()

/-- From the start of a range to the cursor, or to its own end if that is later. -/
def spanFrom (range : TextRange) : FuncM TextRange := do
  return range.extendTo (← get).file.cursor

def recordItem (e : ExprId) : ScopeItem → FuncM Unit
  | .type decl => do
    modifyBody (·.markType e)
    record e ⟨decl.ty, none⟩
  | .const decl => record e ⟨decl.ty, decl.value⟩
  | .var ty => record e ⟨ty, none⟩
  | .func ty => record e ⟨ty, none⟩

def recordPredeclared (e : ExprId) (name : String) : FuncM Unit := do
  if name = "true" ∨ name = "false" then
    let ty ← prim (.untyped .bool)
    record e ⟨ty, some (.bool (name = "true"))⟩
  else if name = "nil" then
    let ty ← prim (.untyped .nil)
    record e ⟨ty, none⟩
  else
    match PrimType.ofName? name with
    | some p =>
      let ty ← prim p
      record e ⟨ty, none⟩
      modifyBody (·.markType e)
    | none => emit (.unresolvedIdent name)

/-- Resolves an identifier: local variables come first, then the package scope, the imports of
the file and the predeclared names. -/
def resolveIdent (e : ExprId) (name : String) : FuncM Unit := do
  let s ← get
  match s.func.locals.get? name with
  | some ty => record e ⟨ty, none⟩
  | none =>
    match s.program.lookup s.file.package name with
    | some item => recordItem e item
    | none =>
      match s.file.resolveImport name with
      | some path => modifyBody (·.setPackageRef e path)
      | none => recordPredeclared e name

def keyword (text : String) : FuncM TextRange :=
  locate text

def param (name : String) (ty : TyId) : FuncM Unit := do
  let _ ← locate name
  setLocal name ty

def localVar (name : String) (ty : TyId) : FuncM Unit := do
  let _ ← locate "var"
  param name ty

def ident (name : String) : FuncM ExprId := do
  let range ← locate name
  let e ← pushExpr (.ident name) range
  resolveIdent e name
  return e

/-- Records a member of an imported package, which is looked up in its scope. -/
def resolveMember (e : ExprId) (path : PackagePath) (member : String) : FuncM Unit := do
  match (← get).program.lookup path member with
  | some item => recordItem e item
  | none => emit (.unresolvedMember path member)

def select (base : ExprId) (member : String) : FuncM ExprId := do
  let range ← locate member
  let b ← body
  let e ← pushExpr (.selector base member) ((b.exprRange base).cover range)
  if let some path := b.packageRef? base then
    resolveMember e path member
  return e

def selector (base member : String) : FuncM ExprId := do
  let base ← ident base
  select base member

/-- An integer literal. The expression is added before its text is read. -/
def intLit (text : String) : FuncM ExprId := do
  let range ← locate text
  let e ← pushExpr (.intLit text) range
  let ty ← prim (.untyped .int)
  match IntLiteral.ofText? text with
  | some lit => record e ⟨ty, lit.value?.map .int⟩
  | none => throw .badLiteral
  return e

def strLit (value : String) : FuncM ExprId := do
  let range ← locate ("\"" ++ value ++ "\"")
  let e ← pushExpr (.strLit value) range
  let ty ← prim (.untyped .string)
  record e ⟨ty, some (.str value)⟩
  return e

end FuncM

namespace Body

/-- Typing of a call. A conversion has the type it names and keeps the value of its only operand;
a call has the type of the only result. -/
def callTyping (b : Body) (types : TypeTable) (callee : ExprId) (args : List ExprId) :
    Option Typing :=
  match b.type? callee with
  | none => none
  | some ty =>
    if b.isTypeExpr callee then
      match args with
      | [arg] => some ⟨ty, b.value? arg⟩
      | _ => some ⟨ty, none⟩
    else
      match types.results ty with
      | some [result] => some ⟨result, none⟩
      | _ => none

/-- Typing of an arithmetic operation. A typed operand decides the type, the left one first. -/
def arithTyping (b : Body) (types : TypeTable) (lhs : ExprId) (op : ArithOp) (rhs : ExprId) :
    Option Typing :=
  match b.typing? lhs, b.typing? rhs with
  | some l, some r =>
    let ty := if (types.asPrim l.ty).any PrimType.isUntyped then r.ty else l.ty
    let value := match l.value, r.value with
      | some v, some w => BinaryOp.foldValues (.arith op) v w
      | _, _ => none
    some ⟨ty, value⟩
  | _, _ => none

end Body

namespace UntypedKind

def defaultPrim? : UntypedKind → Option PrimType
  | bool => some .bool
  | int => some (.int .int)
  | float => some (.float .float64)
  | string => some .string
  | nil => none

end UntypedKind

namespace FuncM

/-- A call or, if the callee denotes a type, a conversion. Its arguments are built before, so the
next closing parenthesis is its own. -/
def call (callee : ExprId) (args : List ExprId) : FuncM ExprId := do
  let close ← locate ")"
  let b ← body
  let typing := b.callTyping (← types) callee args
  let e ← pushExpr (.call callee args) ((b.exprRange callee).cover close)
  recordAll e typing
  return e

/-- An expression in parentheses, which keeps everything known about it but a package name. -/
def paren (opening : TextRange) (inner : ExprId) : FuncM ExprId := do
  let close ← locate ")"
  let b ← body
  let e ← pushExpr (.paren inner) (opening.cover close)
  recordAll e (b.typing? inner)
  if b.isTypeExpr inner then
    modifyBody (·.markType e)
  return e

def binaryTyping (lhs : ExprId) (op : BinaryOp) (rhs : ExprId) : FuncM (Option Typing) := do
  match op with
  | .arith op => return (← body).arithTyping (← types) lhs op rhs
  | _ =>
    let ty ← prim (.untyped .bool)
    return some ⟨ty, none⟩

def binary (lhs : ExprId) (op : BinaryOp) (rhs : ExprId) : FuncM ExprId := do
  let b ← body
  let typing ← binaryTyping lhs op rhs
  let e ← pushExpr (.binary lhs op rhs) ((b.exprRange lhs).cover (b.exprRange rhs))
  recordAll e typing
  return e

def unary (range : TextRange) (op : UnaryOp) (operand : ExprId) : FuncM ExprId := do
  let b ← body
  let typing := (b.typing? operand).map fun t => (⟨t.ty, t.value.bind op.foldValue⟩ : Typing)
  let e ← pushExpr (.unary op operand) (range.cover (b.exprRange operand))
  recordAll e typing
  return e

def funcLit (keyword : TextRange) (stmts : List StmtId) : FuncM ExprId := do
  let range ← spanFrom keyword
  let ty ← liftDecl (.intern (.signature [] []))
  let e ← pushExpr (.funcLit stmts) range
  record e ⟨ty, none⟩
  return e

def binding (name : String) : FuncM ExprId := do
  let range ← locate name
  pushExpr (.ident name) range

def defaultType (ty : TyId) : FuncM TyId := do
  match (← types).asPrim ty with
  | some (.untyped kind) =>
    match kind.defaultPrim? with
    | some p => prim p
    | none => return ty
  | _ => return ty

def bindLocal (lhs rhs : ExprId) : FuncM Unit := do
  let b ← body
  match b.expr? lhs, b.type? rhs with
  | some (.ident name), some ty =>
    let ty ← defaultType ty
    setLocal name ty
    record lhs ⟨ty, none⟩
  | _, _ => return ()

def pushAssign (lhs rhs : ExprId) (define : Bool) : FuncM StmtId := do
  let b ← body
  pushStmt (.assign [lhs] [rhs] define) ((b.exprRange lhs).cover (b.exprRange rhs))

def define (lhs rhs : ExprId) : FuncM StmtId := do
  bindLocal lhs rhs
  pushAssign lhs rhs true

def assign (lhs rhs : ExprId) : FuncM StmtId :=
  pushAssign lhs rhs false

def exprStmt (e : ExprId) : FuncM StmtId := do
  pushStmt (.expr e) ((← body).exprRange e)

/-- A block reaches from its first to its last statement; an empty one stands at the cursor. -/
def block (stmts : List StmtId) : FuncM StmtId := do
  let s ← get
  let range := match stmts.head?, stmts.getLast? with
    | some first, some last =>
      (s.func.body.stmtRange first).cover (s.func.body.stmtRange last)
    | _, _ => .emptyAt s.file.cursor
  pushStmt (.block stmts) range

def ret (keyword : TextRange) (exprs : List ExprId) : FuncM StmtId := do
  pushStmt (.ret exprs) (← spanFrom keyword)

def cond (keyword : TextRange) (test : ExprId) (body : List StmtId) (otherwise : Option StmtId) :
    FuncM StmtId := do
  pushStmt (.cond none test body otherwise) (← spanFrom keyword)

def loop (keyword : TextRange) (test : Option ExprId) (body : List StmtId) : FuncM StmtId := do
  pushStmt (.loop test body) (← spanFrom keyword)

def switch (keyword : TextRange) (s : Switch) : FuncM StmtId :=
  pushStmt (.switch s) keyword

def typeSwitch (keyword : TextRange) (s : TypeSwitch) : FuncM StmtId :=
  pushStmt (.typeSwitch s) keyword

def caseClause (labels : List ExprId) (body : List StmtId) : FuncM Clause :=
  match labels with
  | [] => throw (.build .emptyCase)
  | labels => return ⟨some labels, body⟩

end FuncM

namespace OpenFunc

def finish (f : OpenFunc) (root : List StmtId) : Func :=
  ⟨f.name, f.range, { f.body with root }⟩

end OpenFunc

end SwitchCover
