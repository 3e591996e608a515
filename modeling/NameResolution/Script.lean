import NameResolution.Operation

/-!
# Scripts

What a loader does is a script: it performs operations on the session that called it, looks at the
tables, reads and writes the world it shares with other loaders, and makes remarks. A script has no
other way to touch the session, so whatever holds of every operation holds of every script.
-/

namespace NameResolution

/-- What can be done with a session from outside, ending with a value. -/
inductive Script (L T W α : Type) where
  | done (a : α)
  /-- Ends with a fault. -/
  | fault (f : Fault)
  /-- Performs an operation and goes on with the answer. -/
  | call (op : Operation L T) (next : op.Answer → Script L T W α)
  /-- Looks at the tables. -/
  | inspect (next : Tables L T → Script L T W α)
  | readWorld (next : W → Script L T W α)
  | writeWorld (world : W) (next : Script L T W α)
  | remark (text : String) (next : Script L T W α)

namespace Script

variable {L T W α β : Type}

/-- Goes on with another script. -/
def bind : Script L T W α → (α → Script L T W β) → Script L T W β
  | done a, k => k a
  | fault f, _ => fault f
  | call op next, k => call op fun answer => (next answer).bind k
  | inspect next, k => inspect fun t => (next t).bind k
  | readWorld next, k => readWorld fun w => (next w).bind k
  | writeWorld w next, k => writeWorld w (next.bind k)
  | remark text next, k => remark text (next.bind k)

/-- Scripts are put one after the other. -/
instance : Monad (Script L T W) where
  pure := done
  bind := bind

/-- Performs one operation. -/
def perform (op : Operation L T) : Script L T W op.Answer :=
  call op done

/-- The tables as they are. -/
def tables : Script L T W (Tables L T) :=
  inspect done

/-- The world as it is. -/
def world : Script L T W W :=
  readWorld done

/-- Puts another world in place. -/
def setWorld (w : W) : Script L T W Unit :=
  writeWorld w (done ())

/-- Runs a script. -/
def run (services : Services L T W) : Script L T W α → Run L T W α
  | done a => return a
  | fault f => throw (.fault f)
  | call op next => do (next (← op.perform services)).run services
  | inspect next => do (next (← get).tables).run services
  | readWorld next => do (next (← get).world).run services
  | writeWorld w next => do
    modify fun s => { s with world := w }
    next.run services
  | remark text next => do
    Session.record (.remarked text)
    next.run services

end Script

end NameResolution
