import SwitchCover.Toml.Document

namespace SwitchCover

inductive Severity where
  | error | warning | note
deriving DecidableEq

inductive IntegerKinds where
  | int
  | signed
  | any
deriving DecidableEq

inductive QualifiedLabels where
  /-- By the selected name alone. -/
  | loose
  /-- The qualifier must refer to the package of the enum type. -/
  | strict
deriving DecidableEq

inductive ConversionLabels where
  | ignore
  /-- Every constant with the value of the label, if the label has the enum type. -/
  | evaluate
deriving DecidableEq

structure Settings where
  severity : Severity := .error
  integerKinds : IntegerKinds := .signed
  qualifiedLabels : QualifiedLabels := .loose
  conversionLabels : ConversionLabels := .ignore
deriving DecidableEq

inductive ConfigDiagnostic where
  | unknownField (key : String)
  | invalidValue (key value : String)
  | unexpectedData (key found expected : String)
deriving DecidableEq

structure Config where
  settings : Settings := {}
  diagnostics : List ConfigDiagnostic := []
deriving DecidableEq

def Severity.name : Severity → String
  | error => "error"
  | warning => "warning"
  | note => "note"

def IntegerKinds.name : IntegerKinds → String
  | int => "int"
  | signed => "signed"
  | any => "any"

def QualifiedLabels.name : QualifiedLabels → String
  | loose => "loose"
  | strict => "strict"

def ConversionLabels.name : ConversionLabels → String
  | ignore => "ignore"
  | evaluate => "evaluate"

/-- The key of an entry, the names of the choices that it may make, and the place of the choice
among the settings. -/
structure Setting where
  key : String
  Choice : Type
  choices : List Choice
  name : Choice → String
  get : Settings → Choice
  put : Choice → Settings → Settings
  mem_choices : ∀ a, a ∈ choices := by intro a; cases a <;> decide
  name_injective : ∀ a b, name a = name b → a = b := by intro a b; cases a <;> cases b <;> decide
  get_put : ∀ a s, get (put a s) = a := by intros; rfl

namespace Setting

def severity : Setting where
  key := "severity"
  Choice := Severity
  choices := [.error, .warning, .note]
  name := Severity.name
  get := Settings.severity
  put a s := { s with severity := a }

def integerKinds : Setting where
  key := "integer-kinds"
  Choice := IntegerKinds
  choices := [.int, .signed, .any]
  name := IntegerKinds.name
  get := Settings.integerKinds
  put a s := { s with integerKinds := a }

def qualifiedLabels : Setting where
  key := "qualified-labels"
  Choice := QualifiedLabels
  choices := [.loose, .strict]
  name := QualifiedLabels.name
  get := Settings.qualifiedLabels
  put a s := { s with qualifiedLabels := a }

def conversionLabels : Setting where
  key := "conversion-labels"
  Choice := ConversionLabels
  choices := [.ignore, .evaluate]
  name := ConversionLabels.name
  get := Settings.conversionLabels
  put a s := { s with conversionLabels := a }

def all : List Setting :=
  [severity, integerKinds, qualifiedLabels, conversionLabels]

def ofKey? (key : String) : Option Setting :=
  all.find? (·.key = key)

def choice? (s : Setting) (text : String) : Option s.Choice :=
  s.choices.find? (s.name · = text)

end Setting

def Severity.ofName? (text : String) : Option Severity :=
  Setting.severity.choice? text

namespace ConfigDiagnostic

def message : ConfigDiagnostic → String
  | unknownField key => "Unknown field " ++ key
  | invalidValue key value => "Invalid value \"" ++ value ++ "\" for field " ++ key
  | unexpectedData key found expected =>
    "Expected a " ++ expected ++ " in field " ++ key ++ ", but found a " ++ found

end ConfigDiagnostic

namespace Config

def tableKey : String :=
  "enum-switch"

def applyChoice (c : Config) (s : Setting) (v : Toml.Value) : Config :=
  match v.asString with
  | none => { c with diagnostics := c.diagnostics ++ [.unexpectedData s.key v.kind "string"] }
  | some text =>
    match s.choice? text with
    | some a => { c with settings := s.put a c.settings }
    | none => { c with diagnostics := c.diagnostics ++ [.invalidValue s.key text] }

def applyEntry (c : Config) (e : String × Toml.Value) : Config :=
  match Setting.ofKey? e.1 with
  | some s => c.applyChoice s e.2
  | none => { c with diagnostics := c.diagnostics ++ [.unknownField (tableKey ++ "." ++ e.1)] }

/-- The configuration of a document. Entries are applied in ascending order of their keys. -/
def ofDocument (doc : Toml.Value) : Config :=
  match doc.get? tableKey with
  | none => {}
  | some v =>
    match v.asTable with
    | some entries => entries.sorted.foldl applyEntry {}
    | none => { diagnostics := [.unexpectedData tableKey v.kind "table"] }

/-- Reads a configuration; none if the document is malformed. -/
def parse? (text : String) : Option Config :=
  (Toml.parse? text).map ofDocument

def formattedDiagnostics (c : Config) : Option String :=
  if c.diagnostics = [] then none
  else some ("\n".intercalate (c.diagnostics.map fun d => "  " ++ d.message))

end Config

end SwitchCover
