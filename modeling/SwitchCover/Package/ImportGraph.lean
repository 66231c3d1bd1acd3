import SwitchCover.OrderedMap
import SwitchCover.Package.Path
import SwitchCover.Sorted

namespace SwitchCover

/-- A set of packages in canonical form: ascending paths, each once. -/
structure Closure where
  paths : List PackagePath
deriving DecidableEq

namespace Closure

def ofList (paths : List PackagePath) : Closure :=
  ⟨Sorted.ofList paths⟩

def contains (c : Closure) (p : PackagePath) : Bool :=
  Sorted.contains p c.paths

def size (c : Closure) : Nat :=
  c.paths.length

end Closure

structure ImportGraph where
  targets : OrderedMap PackagePath (List PackagePath)

namespace ImportGraph

def empty : ImportGraph :=
  ⟨∅⟩

def nodes (g : ImportGraph) : List PackagePath :=
  g.targets.keys

def contains (g : ImportGraph) (p : PackagePath) : Bool :=
  g.targets.contains p

def targetsOf (g : ImportGraph) (p : PackagePath) : List PackagePath :=
  (g.targets.get? p).getD []

def addPackage (g : ImportGraph) (p : PackagePath) : ImportGraph :=
  if h : p ∈ g.targets.keys then g else ⟨g.targets.append p [] h⟩

def indexOf (g : ImportGraph) (p : PackagePath) : Nat :=
  g.nodes.idxOf p

def addImport (g : ImportGraph) (importer imported : PackagePath) : ImportGraph :=
  let g := (g.addPackage importer).addPackage imported
  ⟨g.targets.modify importer fun ps => if imported ∈ ps then ps else ps ++ [imported]⟩

def imports (g : ImportGraph) (p : PackagePath) : List PackagePath :=
  Sorted.ofList (g.targetsOf p)

def importCount (g : ImportGraph) : Nat :=
  (g.nodes.flatMap g.targetsOf).length

/-- Walks depth first for at most `n` steps. The head of the list is the top of the stack; a
package may stand there several times, and only the first visit counts. -/
def walk (g : ImportGraph) : Nat → List PackagePath → List PackagePath → List PackagePath
  | 0, _, seen => seen
  | _ + 1, [], seen => seen
  | n + 1, p :: stack, seen =>
    if p ∈ seen then
      g.walk n stack seen
    else
      let seen := seen ++ [p]
      g.walk n ((g.targetsOf p).filter (· ∉ seen) ++ stack) seen

/-- `p` together with every package that it transitively imports. -/
def closure (g : ImportGraph) (p : PackagePath) : Closure :=
  -- Each import is pushed at most once, so the stack is empty after that many steps.
  .ofList (g.walk (g.importCount + 1) [p] [])

end ImportGraph

end SwitchCover
