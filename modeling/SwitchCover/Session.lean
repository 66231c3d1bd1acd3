import SwitchCover.Diagnostic.Report
import SwitchCover.Rule.Check

namespace SwitchCover

/-- Runs of the rule over one program. The registry of a closure is built when it is first needed
and kept, so packages of equal closure share it. -/
structure Session where
  program : Program
  config : Config
  registries : OrderedMap Closure Registry

namespace Session

/-- Starts a session. Entries of the configuration without effect are reported. -/
def start (program : Program) (config : Config) : Traced Session := do
  if let some text := config.formattedDiagnostics then
    Traced.emit (.invalidConfig text)
  return ⟨program, config, ∅⟩

def cachedRegistries (s : Session) : Nat :=
  s.registries.size

def registryFor (s : Session) (path : PackagePath) : Traced (Registry × Session) := do
  let closure := s.program.closure path
  match s.registries.get? closure with
  | some r => return (r, s)
  | none =>
    Traced.emit (.buildingRegistry path closure.size)
    let r ← Registry.build s.program closure s.config.settings.integerKinds
    return (r, { s with registries := s.registries.insert closure r })

def check (s : Session) (registry : Registry) (files : List CheckedFile) : Traced Report := do
  let ds ← Rule.runPasses [Rule.pass s.program registry s.config.settings] files
  return .ofList ds

def runFile (s : Session) (id : FileId) : Traced (Report × Session) :=
  match s.program.checkedFile? id with
  | none => do
    Traced.emit (.unknownFile id)
    return (.empty, s)
  | some file => do
    let (registry, s) ← s.registryFor file.package
    return (← s.check registry [file], s)

def runPackage (s : Session) (path : PackagePath) : Traced (Report × Session) :=
  match s.program.package? path with
  | none => do
    Traced.emit (.unknownPackage path)
    return (.empty, s)
  | some _ => do
    let (registry, s) ← s.registryFor path
    return (← s.check registry (s.program.filesOf path), s)

def runAll (s : Session) : Traced (Report × Session) := do
  let paths := s.program.packages.keys
  let (report, s) ← Traced.foldl (fun (report, s) path => do
    let (more, s) ← runPackage s path
    return (Report.append report more, s)) (Report.empty, s) paths
  Traced.emit (.checkedProgram paths.length report.size)
  return (report, s)

end Session

end SwitchCover
