import NameResolution.Failure

/-!
# Notes

What happens in a session is noted, each kind of event at its level. A log shows the notes up to a
level, one line each; the level of a log is set once, and later attempts to set it change nothing.
-/

namespace NameResolution

/-! ## Levels -/

/-- How important a note is, most important first. -/
inductive Level where
  | error
  | warn
  | info
  | debug
  | trace
deriving DecidableEq

namespace Level

/-- The place of a level, counted from the most important. -/
def rank : Level → Nat
  | error => 1
  | warn => 2
  | info => 3
  | debug => 4
  | trace => 5

/-- The word for a level. -/
def word : Level → String
  | error => "ERROR"
  | warn => "WARN"
  | info => "INFO"
  | debug => "DEBUG"
  | trace => "TRACE"

end Level

/-! ## Notes -/

/-- An event worth noting. Paths are those at the moment of the event. -/
inductive Note where
  | declared (kind : String) (entity : EntityId)
  | released (entity : EntityId)
  | reporting (failure : Failure)
  /-- A scope is asked to load while its load is running. -/
  | reentrantLoad (path : String)
  | loading (path : String)
  | loaded (path : String)
  | notReady (path : String)
  | targetedLoad (part : NamePart)
  /-- A loader supplied a declaration that cannot be defined. -/
  | unusable (name : String) (failure : Failure)
  | instantiated (path : String)
  | relinking (node : NodeId) (before after : Option NodeId)
  | clearing (node : NodeId)
  | propagated (node : NodeId) (descendants : Nat)

namespace Note

/-- The level of a note. -/
def level : Note → Level
  | declared .. | released .. | reentrantLoad .. | targetedLoad .. => .trace
  | unusable .. => .warn
  | _ => .debug

/-- The component that a note comes from. -/
def component : Note → String
  | relinking .. | clearing .. | propagated .. => "resolver::hierarchy"
  | _ => "resolver::resolver"

/-- The message of a note. -/
def message : Note → String
  | declared kind entity => "declared " ++ kind ++ " " ++ entity.inspect
  | released entity => "released " ++ entity.inspect
  | reporting failure => "reporting " ++ failure.message
  | reentrantLoad path => "ignoring re-entrant load of " ++ path
  | loading path => "loading " ++ path
  | loaded path => "loaded " ++ path
  | notReady path => "loader of " ++ path ++ " is not ready yet"
  | targetedLoad part => "targeted load of '" ++ part.render ++ "'"
  | unusable name failure =>
    "loader produced an unusable declaration '" ++ name ++ "': " ++ failure.message
  | instantiated path => "instantiated template " ++ path
  | relinking node before after =>
    "relinking " ++ node.inspect ++ ": " ++ link before ++ " -> " ++ link after
  | clearing node => "clearing superclass of " ++ node.inspect
  | propagated node descendants =>
    "propagated new ancestors of " ++ node.inspect ++ s!" to {descendants} descendants"
where
  link (node : Option NodeId) : String :=
    Text.inspectOption (node.map Handle.inspect)

end Note

/-! ## Logs -/

/-- The notes that a log shows. -/
structure LogFilter where
  /-- The least important level shown; none at all shows nothing. -/
  limit : Option Level
deriving DecidableEq

namespace LogFilter

/-- What a log shows unless it is told otherwise. -/
def standard : LogFilter := ⟨some .warn⟩

/-- Whether a note is shown. -/
def shows (filter : LogFilter) (note : Note) : Bool :=
  filter.limit.any fun limit => note.level.rank ≤ limit.rank

end LogFilter

/-- A log: not set up yet, or set up with a filter. -/
structure Log where
  filter : Option LogFilter := none

namespace Log

/-- Sets a log up. Only the first time has an effect. -/
def setUp (log : Log) (filter : LogFilter) : Log :=
  ⟨log.filter <|> some filter⟩

/-- The line that a note is shown as. The level is padded to five characters. -/
def line (note : Note) : String :=
  let word := note.level.word
  "[" ++ word ++ String.ofList (List.replicate (5 - word.length) ' ') ++ "] " ++ note.component ++
    " - " ++ note.message

/-- The lines shown for notes. -/
def lines (log : Log) (notes : List Note) : List String :=
  match log.filter with
  | some filter => (notes.filter filter.shows).map line
  | none => []

/-- A log that is set up stays as it is. -/
theorem setUp_setUp (log : Log) (first second : LogFilter) :
    (log.setUp first).setUp second = log.setUp first := by
  cases log with
  | mk filter => cases filter <;> rfl

end Log

end NameResolution
