import NameResolution.Location

/-!
# Diagnostics

A diagnostic is a message at a location with a severity, an optional code, labels that point at
further places, notes and help texts. A report is the list of the diagnostics handed in, in order.
-/

namespace NameResolution

/-! ## Severities -/

/-- How grave a diagnostic is, gravest first. -/
inductive Severity where
  | error
  | warning
  | info
  | hint
deriving DecidableEq

namespace Severity

/-- The place of a severity, counted from the gravest. -/
def rank : Severity → Nat
  | error => 0
  | warning => 1
  | info => 2
  | hint => 3

/-- The gravest comes first. -/
instance : Ord Severity where
  compare a b := compare a.rank b.rank

/-- The word for a severity. -/
def word : Severity → String
  | error => "error"
  | warning => "warning"
  | info => "info"
  | hint => "hint"

end Severity

/-! ## Single diagnostics -/

/-- A remark at a place: the place a diagnostic is about, or a related one. -/
structure Label where
  location : Location
  message : String
  /-- Whether the label marks the place that the diagnostic is about. -/
  isPrimary : Bool
deriving DecidableEq

/-- A message with everything that is shown with it. -/
structure Diagnostic where
  severity : Severity
  message : String
  location : Location
  code : Option String := none
  labels : List Label := []
  notes : List String := []
  help : List String := []
deriving DecidableEq

namespace Diagnostic

/-- The diagnostic under a code, in place of the one it had. -/
def withCode (d : Diagnostic) (code : String) : Diagnostic :=
  { d with code := some code }

/-- The diagnostic with a label more. -/
def withLabel (d : Diagnostic) (label : Label) : Diagnostic :=
  { d with labels := d.labels ++ [label] }

/-- The diagnostic with a note more. -/
def withNote (d : Diagnostic) (note : String) : Diagnostic :=
  { d with notes := d.notes ++ [note] }

/-- The diagnostic with a help text more. -/
def withHelp (d : Diagnostic) (help : String) : Diagnostic :=
  { d with help := d.help ++ [help] }

/-! ## What name resolution reports -/

/-- Two declarations of one name and signature in one scope. The earlier one is pointed at when it
is in a file. -/
def duplicateDefinition (location : Location) (name : String) (previous : Location) :
    Diagnostic where
  severity := .error
  message := "duplicate definition of '" ++ name ++ "'"
  location := location
  code := some "E2201"
  labels := ⟨location, "redefined here", true⟩ ::
    if previous.isValid then [⟨previous, "first defined here", false⟩] else []
  help := ["overloads must differ in their parameter types"]

/-- Several templates that answer one request. -/
def ambiguousTemplate (location : Location) (name : String) (candidates : Nat) : Diagnostic where
  severity := .error
  message := "ambiguous template instantiation of '" ++ name ++ "'"
  location := location
  code := some "E2301"
  labels := [⟨location, s!"{candidates} templates match this request", true⟩]
  help := ["make the template parameter constraints mutually exclusive"]

/-- A name that was not found, everything that can be loaded included. -/
def unresolvedName (location : Location) (name : String) : Diagnostic where
  severity := .error
  message := "cannot find '" ++ name ++ "' in this scope"
  location := location
  code := some "E2001"
  labels := [⟨location, "not found", true⟩]
  help := ["check that the name is declared and its package can be loaded"]

/-- A mangled name that cannot be read. -/
def invalidEncoding (position : Nat) (reason : String) : Diagnostic where
  severity := .error
  message := s!"invalid mangled name at offset {position}: " ++ reason
  location := .unknown
  code := some "E2401"
  notes := ["mangled names are machine generated; this usually indicates corruption"]

end Diagnostic

/-! ## Reports -/

/-- The diagnostics handed in, in order. -/
abbrev Report := List Diagnostic

namespace Report

/-- The diagnostics of one severity. -/
def ofSeverity (report : Report) (severity : Severity) : Report :=
  report.filter (·.severity = severity)

/-- The errors among them. -/
def errors (report : Report) : Report :=
  report.ofSeverity .error

/-- The warnings among them. -/
def warnings (report : Report) : Report :=
  report.ofSeverity .warning

/-- Whether there is an error among them. -/
def hasErrors (report : Report) : Bool :=
  report.any (·.severity = .error)

/-- Those under a code. -/
def withCode (report : Report) (code : String) : Report :=
  report.filter (·.code = some code)

end Report

end NameResolution
