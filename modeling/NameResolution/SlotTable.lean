import NameResolution.Handle

/-!
# Slot tables

A table keeps values in slots and hands out a handle for each. Emptying a slot makes every handle
to its value stale: the generation of the slot moves on, and a stale handle reads as absent, also
when the slot is filled again. Empty slots are filled before new ones are made, the one emptied
last first.

`get?_insert_next` and `get?_erase_self` say how a table reads after a change at the same handle.
-/

namespace NameResolution

/-- A slot: the value in it, and how often it was emptied. -/
structure Slot (α : Type) where
  value : Option α
  releases : Nat := 0

/-- The generation of the value in a slot, or of the next value that it will hold. -/
def Slot.generation {α : Type} (s : Slot α) : UInt32 :=
  UInt32.ofNat s.releases

/-- Values addressed by handles. -/
structure SlotTable (kind : Kind) (α : Type) where
  slots : Array (Slot α) := #[]
  /-- The positions of the empty slots, the one emptied last first. -/
  free : List Nat := []
  /-- The number of values held. -/
  size : Nat := 0

namespace SlotTable

variable {kind : Kind} {α : Type}

/-! ## Reading -/

/-- The slot that a handle refers to, if the generation agrees. -/
def slot? (t : SlotTable kind α) (h : Handle kind) : Option (Slot α) :=
  t.slots[h.index]?.filter (·.generation = h.generation)

/-- The value that a handle refers to. -/
def get? (t : SlotTable kind α) (h : Handle kind) : Option α :=
  (t.slot? h).bind Slot.value

/-- Whether a handle refers to a value. -/
def contains (t : SlotTable kind α) (h : Handle kind) : Bool :=
  (t.get? h).isSome

/-- Whether the table holds no value. -/
def isEmpty (t : SlotTable kind α) : Bool :=
  t.size == 0

/-- The entries of a run of slots whose first is at position `start`. -/
def entriesFrom (start : Nat) : List (Slot α) → List (Handle kind × α)
  | [] => []
  | s :: rest =>
    match s.value with
    | some a => (⟨start, s.generation⟩, a) :: entriesFrom (start + 1) rest
    | none => entriesFrom (start + 1) rest

/-- The values with their handles, by position. -/
def toList (t : SlotTable kind α) : List (Handle kind × α) :=
  entriesFrom 0 t.slots.toList

/-! ## Changing -/

/-- The handle of the value that is put in next. -/
def next (t : SlotTable kind α) : Handle kind :=
  match t.free with
  | i :: _ => ⟨i, (t.slots[i]?.map Slot.generation).getD 0⟩
  | [] => ⟨t.slots.size, 0⟩

/-- The table with a value more, at the handle `next`. -/
def insert (t : SlotTable kind α) (a : α) : SlotTable kind α :=
  match t.free with
  | i :: rest =>
    { slots := t.slots.modify i fun s => { s with value := some a }
      free := rest
      size := t.size + 1 }
  | [] => { t with slots := t.slots.push { value := some a }, size := t.size + 1 }

/-- The table with the value at a handle changed; a stale handle changes nothing. -/
def modify (t : SlotTable kind α) (h : Handle kind) (f : α → α) : SlotTable kind α :=
  if t.contains h then
    { t with slots := t.slots.modify h.index fun s => { s with value := s.value.map f } }
  else t

/-- The table without the value at a handle; a stale handle changes nothing. -/
def erase (t : SlotTable kind α) (h : Handle kind) : SlotTable kind α :=
  if t.contains h then
    { slots := t.slots.modify h.index fun s => { value := none, releases := s.releases + 1 }
      free := h.index :: t.free
      size := t.size - 1 }
  else t

/-! ## Reading after a change -/

/-- A value that has just been put in is read at its handle. -/
theorem get?_insert_next {t : SlotTable kind α} (a : α) (h : ∀ i ∈ t.free, i < t.slots.size) :
    (t.insert a).get? t.next = some a := by
  unfold get? slot? insert next
  split
  · rename_i i rest hfree
    have hi : i < t.slots.size := h i (by simp [hfree])
    simp [hi, Slot.generation, Option.filter, Array.getElem_modify]
  · simp [Slot.generation, Option.filter]

/-- A handle is stale once the value at it has been taken out. -/
theorem get?_erase_self {t : SlotTable kind α} (h : Handle kind) : (t.erase h).get? h = none := by
  unfold erase
  split
  · simp only [get?, slot?, Array.getElem?_modify, if_true]
    cases t.slots[h.index]? with
    | none => rfl
    | some s => by_cases hg : (⟨none, s.releases + 1⟩ : Slot α).generation = h.generation <;>
        simp [Option.filter, hg]
  · rename_i hc
    simpa [contains] using hc

end SlotTable

end NameResolution
