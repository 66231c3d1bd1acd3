import SwitchCover.Build.Func
import SwitchCover.Build.TypeRef

namespace SwitchCover

inductive DeclCommand where
  | package (path : PackagePath) (name : String)
  | addImport (importer imported : PackagePath)
  | type (ref : TypeRef)
  | defineType (ref : TypeRef) (package : PackagePath) (name : String)
  | aliasType (target : TypeRef) (package : PackagePath) (name : String)
  | declareFunc (params results : List TypeRef) (package : PackagePath) (name : String)
  | declareConst (ref : TypeRef) (value : Option ConstValue) (package : PackagePath) (name : String)
  | declareIota (ref : TypeRef) (package : PackagePath) (names : List String)
  | declareVar (ref : TypeRef) (package : PackagePath) (name : String)
  | openFile (package : PackagePath) (path text : String)

inductive FileCommand where
  | importPackage (path : PackagePath)
  | importAs (name : String) (path : PackagePath)
  | openFunc (name : String)
  | finish
  | drop

/-- Commands on an open function. Numbers are positions among the expressions, statements, ranges
and clauses made so far, or among the types of the script. -/
inductive FuncCommand where
  | keyword (text : String)
  | param (name : String) (slot : Nat)
  | localVar (name : String) (slot : Nat)
  | ident (name : String)
  | selector (base member : String)
  | select (base : Nat) (member : String)
  | intLit (text : String)
  | strLit (value : String)
  | call (callee : Nat) (args : List Nat)
  | paren (opening inner : Nat)
  | binary (lhs : Nat) (op : BinaryOp) (rhs : Nat)
  | unary (range : Nat) (op : UnaryOp) (operand : Nat)
  | funcLit (keyword : Nat) (stmts : List Nat)
  | binding (name : String)
  | define (lhs rhs : Nat)
  | assign (lhs rhs : Nat)
  | exprStmt (expr : Nat)
  | block (stmts : List Nat)
  | ret (keyword : Nat) (exprs : List Nat)
  | cond (keyword test : Nat) (body : List Nat) (otherwise : Option Nat)
  | loop (keyword : Nat) (test : Option Nat) (body : List Nat)
  | switch (keyword : Nat) (init tag : Option Nat) (clauses : List Nat)
  | typeSwitch (keyword subject : Nat) (clauses : List Nat)
  | caseClause (labels body : List Nat)
  | defaultClause (body : List Nat)
  | finish (root : List Nat)
  | drop

inductive Command where
  | decl (c : DeclCommand)
  | file (c : FileCommand)
  | func (c : FuncCommand)

inductive Answer where
  | done
  | path (p : PackagePath)
  | slot (index : Nat) (ty : TyId)
  | file (id : FileId)
  | range (r : TextRange)
  | expr (id : ExprId)
  | stmt (id : StmtId)
deriving DecidableEq

/-- Results of commands on the open function, each list in the order of the commands. -/
structure Handles where
  exprs : List ExprId
  stmts : List StmtId
  ranges : List TextRange
  clauses : List Clause
deriving DecidableEq

inductive Product where
  | nothing
  | range (r : TextRange)
  | expr (id : ExprId)
  | stmt (id : StmtId)
  | clause (c : Clause)
deriving DecidableEq

namespace Product

def answer : Product → Answer
  | nothing => .done
  | range r => .range r
  | expr id => .expr id
  | stmt id => .stmt id
  | clause _ => .done

end Product

namespace Handles

def empty : Handles :=
  ⟨[], [], [], []⟩

def add (h : Handles) : Product → Handles
  | .nothing => h
  | .range r => { h with ranges := h.ranges ++ [r] }
  | .expr id => { h with exprs := h.exprs ++ [id] }
  | .stmt id => { h with stmts := h.stmts ++ [id] }
  | .clause c => { h with clauses := h.clauses ++ [c] }

end Handles

namespace FuncM

def pick {α : Type} (xs : List α) (n : Nat) : FuncM α :=
  match xs[n]? with
  | some x => return x
  | none => throw .unknownHandle

def pickAll {α : Type} (xs : List α) : List Nat → FuncM (List α)
  | [] => return []
  | n :: ns => do
    let y ← pick xs n
    let ys ← pickAll xs ns
    return y :: ys

def pickOption {α : Type} (xs : List α) : Option Nat → FuncM (Option α)
  | none => return none
  | some n => some <$> pick xs n

end FuncM

namespace FuncCommand

open FuncM

/-- Runs a command on the open function. Positions are looked up in the order in which they are
given, before anything changes. -/
def run (slots : List TyId) (h : Handles) : FuncCommand → FuncM Product
  | keyword text => .range <$> FuncM.keyword text
  | param name slot => do
    let ty ← pick slots slot
    FuncM.param name ty
    return .nothing
  | localVar name slot => do
    let ty ← pick slots slot
    FuncM.localVar name ty
    return .nothing
  | ident name => .expr <$> FuncM.ident name
  | selector base member => .expr <$> FuncM.selector base member
  | select base member => do
    let base ← pick h.exprs base
    .expr <$> FuncM.select base member
  | intLit text => .expr <$> FuncM.intLit text
  | strLit value => .expr <$> FuncM.strLit value
  | call callee args => do
    let callee ← pick h.exprs callee
    let args ← pickAll h.exprs args
    .expr <$> FuncM.call callee args
  | paren opening inner => do
    let opening ← pick h.ranges opening
    let inner ← pick h.exprs inner
    .expr <$> FuncM.paren opening inner
  | binary lhs op rhs => do
    let lhs ← pick h.exprs lhs
    let rhs ← pick h.exprs rhs
    .expr <$> FuncM.binary lhs op rhs
  | unary range op operand => do
    let range ← pick h.ranges range
    let operand ← pick h.exprs operand
    .expr <$> FuncM.unary range op operand
  | funcLit kw stmts => do
    let kw ← pick h.ranges kw
    let stmts ← pickAll h.stmts stmts
    .expr <$> FuncM.funcLit kw stmts
  | binding name => .expr <$> FuncM.binding name
  | define lhs rhs => do
    let lhs ← pick h.exprs lhs
    let rhs ← pick h.exprs rhs
    .stmt <$> FuncM.define lhs rhs
  | assign lhs rhs => do
    let lhs ← pick h.exprs lhs
    let rhs ← pick h.exprs rhs
    .stmt <$> FuncM.assign lhs rhs
  | exprStmt expr => do
    let expr ← pick h.exprs expr
    .stmt <$> FuncM.exprStmt expr
  | block stmts => do
    let stmts ← pickAll h.stmts stmts
    .stmt <$> FuncM.block stmts
  | ret kw exprs => do
    let kw ← pick h.ranges kw
    let exprs ← pickAll h.exprs exprs
    .stmt <$> FuncM.ret kw exprs
  | cond kw test body otherwise => do
    let kw ← pick h.ranges kw
    let test ← pick h.exprs test
    let body ← pickAll h.stmts body
    let otherwise ← pickOption h.stmts otherwise
    .stmt <$> FuncM.cond kw test body otherwise
  | loop kw test body => do
    let kw ← pick h.ranges kw
    let test ← pickOption h.exprs test
    let body ← pickAll h.stmts body
    .stmt <$> FuncM.loop kw test body
  | switch kw init tag clauses => do
    let kw ← pick h.ranges kw
    let init ← pickOption h.stmts init
    let tag ← pickOption h.exprs tag
    let clauses ← pickAll h.clauses clauses
    .stmt <$> FuncM.switch kw ⟨init, tag, clauses⟩
  | typeSwitch kw subject clauses => do
    let kw ← pick h.ranges kw
    let subject ← pick h.exprs subject
    let clauses ← pickAll h.clauses clauses
    .stmt <$> FuncM.typeSwitch kw ⟨subject, clauses⟩
  | caseClause labels body => do
    let labels ← pickAll h.exprs labels
    let body ← pickAll h.stmts body
    .clause <$> FuncM.caseClause labels body
  | defaultClause body => do
    let body ← pickAll h.stmts body
    return .clause ⟨none, body⟩
  | finish _ => throw .misplaced
  | drop => throw .misplaced

end FuncCommand

inductive Level where
  | program
  | file (f : OpenFile)
  | func (f : OpenFile) (g : OpenFunc) (h : Handles)

structure Workspace where
  program : Program
  slots : List TyId
  events : List Event
  level : Level

abbrev ScriptM := EStateM StepError Workspace

namespace Workspace

def empty : Workspace :=
  ⟨.empty, [], [], .program⟩

end Workspace

namespace ScriptM

def setLevel (level : Level) : ScriptM Unit :=
  modify fun w => { w with level }

def runDecl {α : Type} (x : DeclM α) : ScriptM α := fun w =>
  match x w.program with
  | .ok a p => .ok a { w with program := p }
  | .error e p => .error e { w with program := p }

def runFile {α : Type} (f : OpenFile) (x : FileM α) : ScriptM α := fun w =>
  match x ⟨w.program, f⟩ with
  | .ok a s => .ok a { w with program := s.program, level := .file s.file }
  | .error e s => .error e { w with program := s.program, level := .file s.file }

def runFunc {α : Type} (f : OpenFile) (g : OpenFunc) (h : Handles) (x : FuncM α) : ScriptM α :=
  fun w =>
    match x ⟨w.program, f, g, w.events⟩ with
    | .ok a s =>
      .ok a { w with program := s.program, events := s.events, level := .func s.file s.func h }
    | .error e s =>
      .error e { w with program := s.program, events := s.events, level := .func s.file s.func h }

def internRef (r : TypeRef) : ScriptM TyId := fun w =>
  match r.intern w.slots w.program.types with
  | .ok ty types => .ok ty { w with program := { w.program with types } }
  | .error e types => .error e { w with program := { w.program with types } }

def internRefs (rs : List TypeRef) : ScriptM (List TyId) := fun w =>
  match TypeRef.internAll w.slots rs w.program.types with
  | .ok tys types => .ok tys { w with program := { w.program with types } }
  | .error e types => .error e { w with program := { w.program with types } }

def addSlot (ty : TyId) : ScriptM Answer := do
  let w ← get
  set { w with slots := w.slots ++ [ty] }
  return .slot w.slots.length ty

/-- Runs a command on the program. Type references are added to the table first. -/
def decl : DeclCommand → ScriptM Answer
  | .package path name => do
    return .path (← runDecl (.addPackage path name))
  | .addImport importer imported => do
    runDecl (.addImport importer imported)
    return .done
  | .type ref => do
    addSlot (← internRef ref)
  | .defineType ref package name => do
    let ty ← internRef ref
    addSlot (← runDecl (.defineType ty package name))
  | .aliasType target package name => do
    let ty ← internRef target
    addSlot (← runDecl (.aliasType ty package name))
  | .declareFunc params results package name => do
    let params ← internRefs params
    let results ← internRefs results
    addSlot (← runDecl (.declareFunc params results package name))
  | .declareConst ref value package name => do
    let ty ← internRef ref
    runDecl (.declareConst ty value package name)
    return .done
  | .declareIota ref package names => do
    let ty ← internRef ref
    runDecl (.declareIota ty package 0 names)
    return .done
  | .declareVar ref package name => do
    let ty ← internRef ref
    runDecl (.declareVar ty package name)
    return .done
  | .openFile package path text => do
    let f ← runDecl (.openFile package path text)
    setLevel (.file f)
    return .file f.file

def file (f : OpenFile) : FileCommand → ScriptM Answer
  | .importPackage path => do
    runFile f (.importPackage path)
    return .done
  | .importAs name path => do
    runFile f (.importAs name path)
    return .done
  | .openFunc name => do
    let (range, f) ← runFile f do
      let range ← FileM.locateFunc name
      return (range, (← get).file)
    setLevel (.func f ⟨name, range, .empty, ∅⟩ .empty)
    return .done
  | .finish => do
    let id ← runDecl (.closeFile f)
    setLevel .program
    return .file id
  | .drop => do
    setLevel .program
    return .done

def func (f : OpenFile) (g : OpenFunc) (h : Handles) : FuncCommand → ScriptM Answer
  | .finish root => do
    let root ← runFunc f g h (.pickAll h.stmts root)
    setLevel (.file { f with funcs := f.funcs ++ [g.finish root] })
    return .done
  | .drop => do
    setLevel (.file f)
    return .done
  | c => do
    let slots := (← get).slots
    let (product, f, g) ← runFunc f g h do
      let product ← c.run slots h
      let s ← get
      return (product, s.file, s.func)
    setLevel (.func f g (h.add product))
    return product.answer

def step (c : Command) : ScriptM Answer := do
  match c, (← get).level with
  | .decl c, .program => decl c
  | .file c, .file f => file f c
  | .func c, .func f g h => func f g h c
  | _, _ => throw .misplaced

end ScriptM

namespace Workspace

/-- The workspace after a command, whether the command succeeds or fails. -/
def after (w : Workspace) (c : Command) : Workspace :=
  match ScriptM.step c w with
  | .ok _ w => w
  | .error _ w => w

/-- The workspace after a script. A command that fails does not stop the script. -/
def run (w : Workspace) (cs : List Command) : Workspace :=
  cs.foldl after w

end Workspace

end SwitchCover
