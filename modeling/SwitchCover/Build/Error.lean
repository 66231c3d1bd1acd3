import SwitchCover.Package.Path

namespace SwitchCover

inductive BuildError where
  | duplicatePackage (path : PackagePath)
  | unknownPackage (path : PackagePath)
  | duplicateDeclaration (package : PackagePath) (name : String)
  | notInSource (needle : String) (offset : Nat)
  | emptyCase
deriving DecidableEq

namespace BuildError

def message : BuildError → String
  | duplicatePackage path => "package `" ++ path.text ++ "` is already defined"
  | unknownPackage path => "unknown package `" ++ path.text ++ "`"
  | duplicateDeclaration package name =>
    "`" ++ name ++ "` is declared twice in package `" ++ package.text ++ "`"
  | notInSource needle offset =>
    "`" ++ needle ++ "` not found in source after offset " ++ toString offset
  | emptyCase => "case clause without labels"

end BuildError

inductive StepError where
  | build (e : BuildError)
  /-- An integer literal is empty or has a minus sign. -/
  | badLiteral
  | unknownType
  /-- A position is beyond the end of the list it refers to. -/
  | unknownHandle
  /-- The step does not fit what is open. -/
  | misplaced
deriving DecidableEq

end SwitchCover
