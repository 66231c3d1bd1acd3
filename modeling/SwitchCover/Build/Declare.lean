import SwitchCover.Build.Error
import SwitchCover.Program

namespace SwitchCover

/-- Steps that change a program. A step that fails keeps the changes made before. -/
abbrev DeclM := EStateM StepError Program

namespace DeclM

def fail {α : Type} (e : BuildError) : DeclM α :=
  throw (.build e)

def requirePackage (path : PackagePath) : DeclM Package := do
  match (← get).package? path with
  | some package => return package
  | none => fail (.unknownPackage path)

def modifyPackage (path : PackagePath) (f : Package → Package) : DeclM Unit :=
  modify fun p => { p with packages := p.packages.modify path f }

def addPackage (path : PackagePath) (name : String) : DeclM PackagePath := do
  let p ← get
  if h : path ∈ p.packages.keys then
    fail (.duplicatePackage path)
  else
    set { p with
      graph := p.graph.addPackage path
      packages := p.packages.append path ⟨path, name, [], .empty, []⟩ h }
    return path

def addImport (importer imported : PackagePath) : DeclM Unit := do
  let _ ← requirePackage imported
  let _ ← requirePackage importer
  modifyPackage importer fun package => { package with
    imports :=
      if imported ∈ package.imports then package.imports else package.imports ++ [imported] }
  modify fun p => { p with graph := p.graph.addImport importer imported }

def intern (data : TyData) : DeclM TyId := do
  let p ← get
  let (ty, types) := p.types.intern data
  set { p with types }
  return ty

def declare (path : PackagePath) (name : String) (item : ScopeItem) : DeclM Unit := do
  let package ← requirePackage path
  match package.scope.declare? name item with
  | some scope => modifyPackage path fun package => { package with scope }
  | none => fail (.duplicateDeclaration path name)

/-- The type behind a type: for a named type with a declaration the underlying type recorded
there, for any other type the type itself. -/
def underlying (ty : TyId) : DeclM TyId := do
  let p ← get
  match (p.types.asNamed ty).bind p.typeDecl? with
  | some decl => return decl.underlying
  | none => return ty

def defineType (ty : TyId) (path : PackagePath) (name : String) : DeclM TyId := do
  let underlying ← underlying ty
  let ty ← intern (.named ⟨path, name⟩)
  declare path name (.type ⟨ty, underlying, false⟩)
  return ty

def aliasType (target : TyId) (path : PackagePath) (name : String) : DeclM TyId := do
  let underlying ← underlying target
  declare path name (.type ⟨target, underlying, true⟩)
  return target

def declareConst (ty : TyId) (value : Option ConstValue) (path : PackagePath) (name : String) :
    DeclM Unit :=
  declare path name (.const ⟨ty, value⟩)

def declareIota (ty : TyId) (path : PackagePath) (first : Nat) : List String → DeclM Unit
  | [] => return ()
  | name :: names => do
    declareConst ty (some (.int first)) path name
    declareIota ty path (first + 1) names

def declareVar (ty : TyId) (path : PackagePath) (name : String) : DeclM Unit :=
  declare path name (.var ty)

def declareFunc (params results : List TyId) (path : PackagePath) (name : String) :
    DeclM TyId := do
  let ty ← intern (.signature params results)
  declare path name (.func ty)
  return ty

end DeclM

structure OpenFile where
  file : FileId
  package : PackagePath
  imports : List Import
  funcs : List Func
  /-- End of the last located token. -/
  cursor : Nat
deriving DecidableEq

namespace DeclM

/-- Opens a file of a package. The text enters the store even if the file is never finished. -/
def openFile (package : PackagePath) (path text : String) : DeclM OpenFile := do
  let _ ← requirePackage package
  let p ← get
  let (file, files) := p.files.add ⟨path, text⟩
  set { p with files }
  return ⟨file, package, [], [], 0⟩

/-- Adds a finished file to its package and to the program. -/
def closeFile (f : OpenFile) : DeclM FileId := do
  modifyPackage f.package fun package => { package with files := package.files ++ [f.file] }
  modify fun p => { p with
    checkedFiles := p.checkedFiles.insert f.file ⟨f.file, f.package, f.imports, f.funcs⟩ }
  return f.file

end DeclM

end SwitchCover
