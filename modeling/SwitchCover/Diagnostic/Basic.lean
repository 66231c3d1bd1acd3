import SwitchCover.Config
import SwitchCover.Source

namespace SwitchCover

inductive LabelStyle where
  | primary | secondary
deriving DecidableEq

structure SubDiagnostic where
  style : LabelStyle
  message : String
  span : Option Span
deriving DecidableEq

structure ErrorCode where
  number : Nat
deriving DecidableEq

namespace ErrorCode

/-- The code as it is shown: the letters and digit of the rule, then at least three digits. -/
def text (code : ErrorCode) : String :=
  let digits := toString code.number
  "EC1" ++ String.ofList (List.replicate (3 - digits.length) '0') ++ digits

end ErrorCode

structure Diagnostic where
  severity : Severity
  message : String
  subs : List SubDiagnostic
  notes : List String
  code : ErrorCode
deriving DecidableEq

structure Label where
  style : LabelStyle
  span : Span
  message : String
deriving DecidableEq

namespace SubDiagnostic

def isPrimary (s : SubDiagnostic) : Bool :=
  s.style = .primary

def label? (s : SubDiagnostic) : Option Label :=
  s.span.map fun span => ⟨s.style, span, s.message⟩

end SubDiagnostic

namespace Diagnostic

/-- Span of the first primary remark, which may have none. -/
def primarySpan (d : Diagnostic) : Option Span :=
  (d.subs.find? SubDiagnostic.isPrimary).bind SubDiagnostic.span

def labels (d : Diagnostic) : List Label :=
  d.subs.filterMap SubDiagnostic.label?

/-- What diagnostics are ordered by: the primary span, where diagnostics without one come first,
and then the code. -/
def key (d : Diagnostic) : List Nat :=
  match d.primarySpan with
  | none => [0, 0, 0, 0, d.code.number]
  | some span => [1, span.file.index, span.range.start, span.range.stop, d.code.number]

def keyLE : List Nat → List Nat → Bool
  | [], _ => true
  | _ :: _, [] => false
  | m :: ms, n :: ns => m < n || (m = n && keyLE ms ns)

end Diagnostic

end SwitchCover
