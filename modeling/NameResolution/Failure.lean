import NameResolution.Diagnostic
import NameResolution.ErrorCode
import NameResolution.Name

/-!
# Failures and faults

An operation fails for one of eight causes. A failure is a value: it has a registered code, a
message, and a diagnostic. A fault is the use of a handle whose value was released, or a length that
would fall below zero, where the operation has no way to answer; nothing recovers from it. A run
stops with a failure, with a fault, or because it used up its fuel, as it does if it never ends.
-/

namespace NameResolution

/-! ## Failures -/

/-- Why an operation failed. -/
inductive Failure where
  /-- The scope holds an entity of this name and signature, `existing`, declared at `previous`. -/
  | duplicateDefinition (name : String) (existing : EntityId) (location previous : Location)
  /-- The entity was put into a scope before. -/
  | alreadyOwned (entity : EntityId) (owner : ScopeId)
  /-- Several templates answer the request. -/
  | ambiguousTemplate (name : String) (candidates : Nat) (location : Location)
  /-- The name is not found, everything that can be loaded included. -/
  | unresolved (name : String) (location : Location)
  /-- The mangled name breaks the grammar at an offset, counted in bytes. -/
  | malformed (encoded : String) (position : Nat) (reason : String)
  /-- The entity is no type. -/
  | notAType (entity : EntityId)
  /-- The type would inherit from itself. -/
  | cyclicInheritance (child parent : EntityId)
  /-- The chain of supertypes would be longer than allowed. -/
  | chainTooLong (length limit : Nat)
deriving DecidableEq

namespace Failure

/-- The registered code of a cause. -/
def code : Failure → UInt16
  | unresolved .. => 2001
  | notAType .. => 2101
  | cyclicInheritance .. => 2102
  | chainTooLong .. => 2103
  | duplicateDefinition .. => 2201
  | alreadyOwned .. => 2202
  | ambiguousTemplate .. => 2301
  | malformed .. => 2401

/-- Where the failure is reported. -/
def location : Failure → Location
  | duplicateDefinition _ _ location _ => location
  | ambiguousTemplate _ _ location => location
  | unresolved _ location => location
  | _ => .unknown

/-- The message of a failure. -/
def message : Failure → String
  | duplicateDefinition name existing _ _ =>
    "'" ++ name ++ "' is already defined as " ++ existing.render
  | alreadyOwned entity owner => entity.render ++ " already belongs to " ++ owner.render
  | ambiguousTemplate name candidates _ =>
    s!"{candidates} templates named '" ++ name ++ "' match the request"
  | unresolved name _ => "cannot find '" ++ name ++ "'"
  | malformed encoded position reason =>
    "invalid mangled name " ++ Text.quote encoded ++ s!" at offset {position}: " ++ reason
  | notAType entity => entity.render ++ " is not a type"
  | cyclicInheritance child parent =>
    child.render ++ " cannot inherit from its own subtype " ++ parent.render
  | chainTooLong length limit =>
    s!"inheritance chain of length {length} exceeds the limit of {limit}"

/-- The diagnostic of a failure. -/
def diagnostic : Failure → Diagnostic
  | duplicateDefinition name _ location previous =>
    .duplicateDefinition location name previous
  | ambiguousTemplate name candidates location => .ambiguousTemplate location name candidates
  | unresolved name location => .unresolvedName location name
  | malformed _ position reason => .invalidEncoding position reason
  | f =>
    { severity := .error
      message := f.message
      location := .unknown
      code := some (ErrorCode.format f.code) }

/-- Every cause has a registered code. -/
theorem isRegistered_code (f : Failure) : ErrorCode.isRegistered f.code = true := by
  cases f <;> rfl

/-- Every failure is reported as an error. -/
theorem severity_diagnostic (f : Failure) : f.diagnostic.severity = .error := by
  cases f <;> rfl

/-- A failure is reported under its code. -/
theorem code_diagnostic (f : Failure) : f.diagnostic.code = some (ErrorCode.format f.code) := by
  cases f with
  | duplicateDefinition => exact congrArg some (by cbv : "E2201" = ErrorCode.format 2201)
  | ambiguousTemplate => exact congrArg some (by cbv : "E2301" = ErrorCode.format 2301)
  | unresolved => exact congrArg some (by cbv : "E2001" = ErrorCode.format 2001)
  | malformed => exact congrArg some (by cbv : "E2401" = ErrorCode.format 2401)
  | _ => rfl

/-- A failure is reported at its location. -/
theorem location_diagnostic (f : Failure) : f.diagnostic.location = f.location := by
  cases f <;> rfl

end Failure

/-! ## Faults -/

/-- The use of a released value, or a difference below zero. -/
inductive Fault where
  | entity (id : EntityId)
  | scope (id : ScopeId)
  | node (id : NodeId)
  | underflow
deriving DecidableEq

/-- The message of a fault. -/
def Fault.message : Fault → String
  | entity id => "entity " ++ id.inspect ++ " was released"
  | scope id => "container " ++ id.inspect ++ " was released"
  | node id => "type node " ++ id.inspect ++ " was released"
  | underflow => "attempt to subtract with overflow"

/-! ## Stops -/

/-- Why a run has no answer. -/
inductive Stop where
  | failure (f : Failure)
  | fault (f : Fault)
  | outOfFuel
deriving DecidableEq

end NameResolution
