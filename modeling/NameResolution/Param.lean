import NameResolution.Handle
import NameResolution.Text.Inspect

/-!
# Parameters

A signature is a list of parameters. A parameter names the entity of its type, or is void; void is
a parameter of its own and stands for no failure. Each is taken by value or by reference.
-/

namespace NameResolution

/-- One parameter of a signature. -/
structure Param where
  /-- The entity of the type; none for void. -/
  entity : Option EntityId
  byReference : Bool
deriving DecidableEq

namespace Param

/-- A type taken by value. -/
def value (entity : EntityId) : Param := ⟨some entity, false⟩

/-- A type taken by reference. -/
def reference (entity : EntityId) : Param := ⟨some entity, true⟩

/-- Void by value. -/
def void : Param := ⟨none, false⟩

/-- Whether the parameter is void. -/
def isVoid (p : Param) : Bool :=
  p.entity.isNone

/-- The parameter in messages: the position of its entity's slot, after `&` for a reference. -/
def spell (p : Param) : List Char :=
  let target := match p.entity with
    | some e => '#' :: Nat.toDigits 10 e.index
    | none => ['v', 'o', 'i', 'd']
  if p.byReference then '&' :: target else target

/-- The parameter for inspection. -/
def inspect (p : Param) : String :=
  Text.inspectRecord "TypeSignature"
    [("entity", Text.inspectOption (p.entity.map Handle.inspect)),
      ("is_reference", Text.inspectBool p.byReference)]

end Param

end NameResolution
