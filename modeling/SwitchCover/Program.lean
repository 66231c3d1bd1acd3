import SwitchCover.Package.ImportGraph
import SwitchCover.Package.Scope
import SwitchCover.Source
import SwitchCover.Syntax.Body

namespace SwitchCover

structure Package where
  path : PackagePath
  name : String
  /-- Imported packages in the order of their first import. -/
  imports : List PackagePath
  scope : Scope
  files : List FileId

structure Import where
  name : String
  path : PackagePath
deriving DecidableEq

structure CheckedFile where
  file : FileId
  package : PackagePath
  imports : List Import
  funcs : List Func
deriving DecidableEq

structure Program where
  files : FileStore
  types : TypeTable
  packages : OrderedMap PackagePath Package
  checkedFiles : OrderedMap FileId CheckedFile
  graph : ImportGraph

namespace Program

def empty : Program where
  files := .empty
  types := .empty
  packages := ∅
  checkedFiles := ∅
  graph := .empty

def package? (p : Program) (path : PackagePath) : Option Package :=
  p.packages.get? path

def checkedFile? (p : Program) (file : FileId) : Option CheckedFile :=
  p.checkedFiles.get? file

def filesOf (p : Program) (path : PackagePath) : List CheckedFile :=
  p.checkedFiles.values.filter fun f => f.package = path

def closure (p : Program) (path : PackagePath) : Closure :=
  p.graph.closure path

/-- What a name stands for in a package. -/
def lookup (p : Program) (path : PackagePath) (name : String) : Option ScopeItem :=
  (p.package? path).bind fun pkg => pkg.scope.lookup name

def typeDecl? (p : Program) (t : NamedType) : Option TypeDecl :=
  (p.package? t.package).bind fun pkg => pkg.scope.typeDecl? t.name

def addFunc (p : Program) (file : FileId) (f : Func) : Program :=
  { p with checkedFiles := p.checkedFiles.modify file fun c => { c with funcs := c.funcs ++ [f] } }

end Program

end SwitchCover
