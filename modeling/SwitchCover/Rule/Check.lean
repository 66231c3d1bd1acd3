import SwitchCover.Diagnostic.Basic
import SwitchCover.Rule.Coverage
import SwitchCover.Syntax.Walk

namespace SwitchCover

/-- A switch that does not cover all constants of its type. -/
structure UncoveredSwitch where
  /-- The keyword of the switch. -/
  span : Span
  enum : NamedType
  missing : List String
  severity : Severity
deriving DecidableEq

namespace UncoveredSwitch

def ofMissing (severity : Severity) (span : Span) (enum : NamedType) (missing : List String) :
    Option UncoveredSwitch :=
  if missing.isEmpty then none else some ⟨span, enum, missing, severity⟩

def code (_ : UncoveredSwitch) : ErrorCode :=
  ⟨0⟩

def message (u : UncoveredSwitch) : String :=
  "uncovered cases for " ++ u.enum.name ++ " enum switch" ++
    String.join (u.missing.map fun name => "\n\t- " ++ name)

def label (u : UncoveredSwitch) : String :=
  let count := u.missing.length
  let constants := if count = 1 then "1 constant" else toString count ++ " constants"
  "`" ++ u.enum.name ++ "` switch misses " ++ constants

def toDiagnostic (u : UncoveredSwitch) : Diagnostic where
  severity := u.severity
  message := u.message
  subs := [⟨.primary, u.label, some u.span⟩]
  notes := ["add the missing constants or a `default` clause"]
  code := u.code

end UncoveredSwitch

namespace Body

/-- The named type of an expression, if its type is known and named. -/
def resolveNamed (b : Body) (table : TypeTable) (e : ExprId) : Traced (Option NamedType) :=
  match b.type? e with
  | none => do
    Traced.emit (.tagWithoutType e)
    return none
  | some ty =>
    match table.asNamed ty with
    | some t => pure (some t)
    | none => do
      Traced.emit (.tagNotNamed ty)
      return none

end Body

namespace Rule

def checkSwitch (program : Program) (registry : Registry) (settings : Settings) (file : FileId)
    (b : Body) (id : StmtId) (s : Switch) : Traced (Option UncoveredSwitch) :=
  match s.tag with
  | none => do
    Traced.emit .switchWithoutTag
    return none
  | some tag => do
    match ← b.resolveNamed program.types tag with
    | none => return none
    | some t =>
      match registry.constantsOf t with
      | none => do
        Traced.emit (.tagNotEnum t)
        return none
      | some constants =>
        match ← Coverage.check settings program.types b s t constants with
        | none => return none
        | some c =>
          return UncoveredSwitch.ofMissing settings.severity ⟨file, b.stmtRange id⟩ t c.missing

def checkFunc (program : Program) (registry : Registry) (settings : Settings) (file : FileId)
    (f : Func) : Traced (List UncoveredSwitch) := do
  let found ← Traced.mapList
    (fun (id, s) => checkSwitch program registry settings file f.body id s) f.body.switches
  return found.filterMap id

def checkFile (program : Program) (registry : Registry) (settings : Settings)
    (file : CheckedFile) : Traced (List UncoveredSwitch) := do
  let found ← Traced.mapList (checkFunc program registry settings file.file) file.funcs
  return found.flatten

abbrev Pass := CheckedFile → Traced (List Diagnostic)

def pass (program : Program) (registry : Registry) (settings : Settings) : Pass := fun file => do
  return (← checkFile program registry settings file).map UncoveredSwitch.toDiagnostic

def runPasses (passes : List Pass) (files : List CheckedFile) : Traced (List Diagnostic) := do
  let found ← Traced.mapList (fun file => Traced.mapList (· file) passes) files
  return found.flatten.flatten

end Rule

end SwitchCover
