import NameResolution.Mangled.Sentinel
import NameResolution.Name

/-!
# Reading mangled names

A mangled name is read one character at a time, with a stack of the groups that are open. When the
name of a parameter is complete, its entity is asked for before reading goes on (`Step.ask`), so a
name that denotes nothing is noticed before a fault further on in the text.

A state knows what may come next: `State.step` reads one character and `State.finish` the end of
the text, and both tell where and why reading ends otherwise.
-/

namespace NameResolution.Mangled

/-- An open group: the name it belongs to so far, and its parameters so far. -/
structure Frame where
  /-- The complete parts before the one that the group belongs to. -/
  before : QualifiedName
  /-- The text of the part that the group belongs to. -/
  text : String
  params : List Param := []
  /-- How the parameter that is being read is taken. -/
  byReference : Bool
deriving DecidableEq

/-- What is being read of a part. -/
inductive Mode where
  /-- Its text. -/
  | text (read : String)
  /-- The character after an escape, which stands at an offset. -/
  | escaped (read : String) (offset : Nat)
  /-- The first separator of its group. -/
  | opened (text : String)
  /-- Nothing more: its group is closed. -/
  | closed (part : NamePart)
deriving DecidableEq

/-- What has been read: the open groups, innermost first, the complete parts of the current name,
and its current part. -/
structure State where
  frames : List Frame := []
  parts : QualifiedName := []
  mode : Mode := .text ""
deriving DecidableEq

/-- What one character leads to. -/
inductive Step where
  | go (next : State)
  /-- A parameter's name is complete; reading goes on once its entity is known. -/
  | ask (name : QualifiedName) (next : EntityId → State)
  | stop (offset : Nat) (reason : String)

namespace State

/-- The current name if it ends here. In a group, nothing at all is no name, but void. -/
def name? (s : State) (last : NamePart) : Option QualifiedName :=
  if s.parts = [] ∧ last = .simple "" [] then none else some (s.parts ++ [last])

/-- Ends the parameter being read, whose name is given unless it is void, and goes on with the
group. -/
def endParam (frame : Frame) (name : Option QualifiedName) (next : Frame → State) : Step :=
  let push (entity : Option EntityId) : Frame :=
    { frame with params := frame.params ++ [⟨entity, frame.byReference⟩] }
  match name with
  | some n => .ask n fun e => next (push (some e))
  | none => .go (next (push none))

/-- Reads the character after the current part. -/
def afterPart (s : State) (last : NamePart) (offset : Nat) (c : Char) : Step :=
  if c = dot then .go { s with parts := s.parts ++ [last], mode := .text "" }
  else if c = closing ∨ c = comma ∨ c = referenceComma then
    match s.frames with
    | [] =>
      if c = closing then .stop offset "group close without a matching open"
      else .stop offset "parameter separator outside a group"
    | frame :: frames =>
      endParam frame (s.name? last) fun frame =>
        if c = closing then
          { frames, parts := frame.before, mode := .closed (.simple frame.text frame.params) }
        else
          { frames := { frame with byReference := c = referenceComma } :: frames
            parts := []
            mode := .text "" }
  else .stop offset "unexpected character after a part"

/-- Whether a character may follow a complete part. -/
def isPartEnd (c : Char) : Bool :=
  c = dot || c = closing || c = comma || c = referenceComma

/-- Reads the character at an offset. -/
def step (s : State) (offset : Nat) (c : Char) : Step :=
  match s.mode with
  | .text read =>
    if c = escape then .go { s with mode := .escaped read offset }
    else if c = opening then .go { s with mode := .opened read }
    else if isPartEnd c then s.afterPart (.simple read []) offset c
    else .go { s with mode := .text (read.push c) }
  | .escaped read _ => .go { s with mode := .text (read.push c) }
  | .opened text =>
    if c = comma ∨ c = referenceComma then
      .go
        { frames := { before := s.parts, text, byReference := c = referenceComma } :: s.frames
          parts := []
          mode := .text "" }
    else if c = closing then .stop offset "empty parameter group"
    else .stop offset "expected a parameter separator"
  | .closed part =>
    if isPartEnd c then s.afterPart part offset c
    else .stop offset "unexpected character after a parameter group"

/-- Reads the end of the text, which is at an offset: the name, or where and why there is none. -/
def finish (s : State) (offset : Nat) : Except (Nat × String) QualifiedName :=
  match s.mode, s.frames with
  | .escaped _ start, _ => .error (start, "escape at end of input")
  | .text read, [] => .ok (s.parts ++ [.simple read []])
  | .closed part, [] => .ok (s.parts ++ [part])
  | _, _ => .error (offset, "unterminated parameter group")

end State

end NameResolution.Mangled
