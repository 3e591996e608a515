import Mathlib.Data.List.Nodup
import Mathlib.Data.List.Perm.Subperm
import Mathlib.Data.Nat.Basic
import Mathlib.Tactic.Common
import NameResolution.HandleSet

/-!
# Handles over the life of a table

A table is well formed if its free list names the empty slots, each once. Then each
operation changes what is read at one handle and at no other (`get?_insert`,
`get?_modify`, `get?_erase`).

A handle has been issued if it is live, or if the slot has been emptied since
(`Issued`). Slots are never given up and their counts of releases never shrink
(`Extends`), so an issued handle stays issued. As long as no slot has been emptied
`2 ^ 32` times (`Unwrapped`), the handle of the next value is none that was issued
before (`not_issued_next`) : a stale handle never comes back.

A handle stays from a table to a later one if nothing has been taken out of its slot in
between (`StillAt`); without so many releases, being live is enough (`stillAt_of_unwrapped`).

`length_le_of_nodup` bounds walks over live handles by the number of slots.
-/

namespace NameResolution

namespace SlotTable

variable {kind : Kind} {α β : Type} {t t' u : SlotTable kind α} {h k : Handle kind} {a b : α}

/-! ## Reading -/

/-- A handle reads a value if its slot has that value, in the generation of the handle. -/
theorem get?_eq_some_iff : t.get? h = some a ↔
    ∃ s, t.slots[h.index]? = some s ∧ s.generation = h.generation ∧ s.value = some a := by
  unfold get? slot?
  cases t.slots[h.index]? with
  | none => simp
  | some s => by_cases hg : s.generation = h.generation <;> simp [Option.filter, hg]

theorem contains_iff : t.contains h = true ↔ ∃ a, t.get? h = some a := by
  simp [contains, Option.isSome_iff_exists]

theorem contains_of_get? (ha : t.get? h = some a) : t.contains h = true :=
  contains_iff.2 ⟨a, ha⟩

theorem get?_eq_none_of_contains (hc : ¬t.contains h = true) : t.get? h = none := by
  simpa [contains] using hc

/-- Handles with one position differ in their generation. -/
theorem generation_ne (hne : k ≠ h) (hi : k.index = h.index) : h.generation ≠ k.generation := by
  intro hg
  cases h
  cases k
  exact hne (congr (congrArg Handle.mk hi) hg.symm)

/-- Two live handles with one position are the same handle. -/
theorem eq_of_index_eq (ha : t.get? h = some a) (hb : t.get? k = some b)
    (hi : h.index = k.index) : h = k := by
  obtain ⟨s, hs, hg, -⟩ := get?_eq_some_iff.1 ha
  obtain ⟨s', hs', hg', -⟩ := get?_eq_some_iff.1 hb
  rw [hi, hs'] at hs
  obtain rfl := Option.some.inj hs
  by_contra hne
  exact generation_ne hne hi (hg'.symm.trans hg)

theorem index_lt (ha : t.get? h = some a) : h.index < t.slots.size := by
  obtain ⟨s, hs, -⟩ := get?_eq_some_iff.1 ha
  exact (Array.getElem?_eq_some_iff.1 hs).1

/-- Different live handles take up different slots. -/
theorem length_le_of_nodup {l : List (Handle kind)} (hl : l.Nodup)
    (hc : ∀ h ∈ l, t.contains h = true) : l.length ≤ t.slots.size := by
  have hinj : ∀ h ∈ l, ∀ k ∈ l, h.index = k.index → h = k := by
    intro h hh k hk hi
    obtain ⟨a, ha⟩ := contains_iff.1 (hc h hh)
    obtain ⟨b, hb⟩ := contains_iff.1 (hc k hk)
    exact eq_of_index_eq ha hb hi
  have hsub : l.map Handle.index ⊆ List.range t.slots.size := by
    intro i hi
    obtain ⟨h, hh, rfl⟩ := List.mem_map.1 hi
    obtain ⟨a, ha⟩ := contains_iff.1 (hc h hh)
    exact List.mem_range.2 (index_lt ha)
  have := ((List.nodup_map_iff_inj_on hl).2 hinj).subperm hsub
  simpa using this.length_le

/-! ## Well-formed tables -/

/-- The free list names the empty slots, each once. -/
structure WellFormed (t : SlotTable kind α) : Prop where
  nodup : t.free.Nodup
  mem_free : ∀ i, i ∈ t.free ↔ ∃ s, t.slots[i]? = some s ∧ s.value = none

theorem wellFormed_empty : WellFormed ({} : SlotTable kind α) :=
  ⟨by simp, by simp⟩

/-- Where the next value goes : to the slot emptied last, or to a new one. -/
theorem next_cases (ht : t.WellFormed) :
    (∃ i rest s, t.free = i :: rest ∧ t.slots[i]? = some s ∧ s.value = none ∧
      t.next = ⟨i, s.generation⟩) ∨ t.free = [] ∧ t.next = ⟨t.slots.size, 0⟩ := by
  unfold next
  cases hf : t.free with
  | nil => exact Or.inr ⟨rfl, rfl⟩
  | cons i rest =>
    obtain ⟨s, hs, hv⟩ := (ht.mem_free i).1 (by simp [hf])
    exact Or.inl ⟨i, rest, s, rfl, hs, hv, by simp [hs]⟩

/-- The handle that is given out next is not live. -/
theorem get?_next (ht : t.WellFormed) : t.get? t.next = none := by
  rcases next_cases ht with ⟨i, rest, s, -, hs, hv, hn⟩ | ⟨-, hn⟩
  · rw [hn, get?, slot?]
    simp [hs, hv, Option.filter]
  · rw [hn, get?, slot?]
    simp

theorem ne_next (ht : t.WellFormed) (ha : t.get? h = some a) : h ≠ t.next := by
  rintro rfl
  rw [get?_next ht] at ha
  cases ha

theorem getElem?_slots_insert (ht : t.WellFormed) (a : α) (i : Nat) :
    (t.insert a).slots[i]? =
      if i = t.next.index then
        some ⟨some a, ((t.slots[i]?).map Slot.releases).getD 0⟩
      else t.slots[i]? := by
  rcases next_cases ht with ⟨j, rest, s, hf, hs, -, hn⟩ | ⟨hf, hn⟩
  · simp only [insert, hf, hn, Array.getElem?_modify]
    by_cases hij : j = i
    · subst hij
      simp [hs]
    · simp [hij, Ne.symm hij]
  · simp only [insert, hf, hn, Array.getElem?_push]
    by_cases hi : i = t.slots.size
    · simp [hi]
    · simp [hi]

/-- Putting a value in changes what is read at its handle alone. -/
theorem get?_insert (ht : t.WellFormed) (a : α) (h : Handle kind) :
    (t.insert a).get? h = if h = t.next then some a else t.get? h := by
  by_cases hn : h = t.next
  · subst hn
    have hfree : ∀ i ∈ t.free, i < t.slots.size := by
      intro i hi
      obtain ⟨s, hs, -⟩ := (ht.mem_free i).1 hi
      exact (Array.getElem?_eq_some_iff.1 hs).1
    simpa using get?_insert_next a hfree
  · rw [if_neg hn]
    by_cases hi : h.index = t.next.index
    · -- The slot is the one filled, in another generation than that of the handle.
      have hold : t.get? h = none := by
        rcases next_cases ht with ⟨j, rest, s, -, hs, hv, hj⟩ | ⟨-, hj⟩
        · rw [get?, slot?, hi, hj]
          by_cases hg : s.generation = h.generation <;> simp [hs, hv, hg, Option.filter]
        · rw [get?, slot?, hi, hj]
          simp
      rw [hold, get?, slot?, getElem?_slots_insert ht, if_pos hi]
      have hg : UInt32.ofNat (((t.slots[h.index]?).map Slot.releases).getD 0) =
          t.next.generation := by
        rcases next_cases ht with ⟨j, rest, s, -, hs, -, hj⟩ | ⟨-, hj⟩
        · rw [hi, hj]
          simp [hs, Slot.generation]
        · rw [hi, hj]
          simp
      have hne := generation_ne hn hi
      simp [Option.filter, Slot.generation, hg, hne]
    · rw [get?, get?, slot?, slot?, getElem?_slots_insert ht, if_neg hi]

/-- Changing a value changes what is read at its handle alone. -/
theorem get?_modify (h : Handle kind) (f : α → α) (k : Handle kind) :
    (t.modify h f).get? k = if k = h then (t.get? h).map f else t.get? k := by
  by_cases hc : t.contains h = true
  · obtain ⟨a, ha⟩ := contains_iff.1 hc
    obtain ⟨s, hs, hg, hv⟩ := get?_eq_some_iff.1 ha
    simp only [modify, hc, if_true]
    by_cases hk : k = h
    · subst hk
      rw [if_pos rfl, ha]
      have hg' : UInt32.ofNat s.releases = k.generation := hg
      simp [get?, slot?, Array.getElem?_modify, hs, Option.filter, Slot.generation, hv, hg']
    · rw [if_neg hk]
      by_cases hi : k.index = h.index
      · have hne : s.generation ≠ k.generation := hg ▸ generation_ne hk hi
        have hne' : UInt32.ofNat s.releases ≠ k.generation := hne
        simp [get?, slot?, Array.getElem?_modify, hi, hs, Option.filter, Slot.generation, hne']
      · simp [get?, slot?, Array.getElem?_modify, Ne.symm hi]
  · simp only [modify, if_neg hc]
    by_cases hk : k = h
    · subst hk
      simp [get?_eq_none_of_contains hc]
    · simp [hk]

/-- Taking a value out changes what is read at its handle alone. -/
theorem get?_erase (h k : Handle kind) :
    (t.erase h).get? k = if k = h then none else t.get? k := by
  by_cases hk : k = h
  · subst hk
    simpa using get?_erase_self k
  · rw [if_neg hk]
    by_cases hc : t.contains h = true
    · obtain ⟨a, ha⟩ := contains_iff.1 hc
      obtain ⟨s, hs, hg, -⟩ := get?_eq_some_iff.1 ha
      simp only [erase, hc, if_true]
      by_cases hi : k.index = h.index
      · have hne : s.generation ≠ k.generation := hg ▸ generation_ne hk hi
        by_cases hg' : (⟨none, s.releases + 1⟩ : Slot α).generation = k.generation <;>
          simp [get?, slot?, Array.getElem?_modify, hi, hs, Option.filter, hne, hg']
      · simp [get?, slot?, Array.getElem?_modify, Ne.symm hi]
    · simp [erase, hc]

/-- Changing a value makes no handle live or stale. -/
@[simp] theorem contains_modify (h : Handle kind) (f : α → α) (k : Handle kind) :
    (t.modify h f).contains k = t.contains k := by
  unfold contains
  rw [get?_modify]
  split_ifs with hk <;> simp [hk]

@[simp] theorem size_slots_modify (h : Handle kind) (f : α → α) :
    (t.modify h f).slots.size = t.slots.size := by
  unfold modify
  split_ifs <;> simp

theorem size_insert (a : α) : (t.insert a).size = t.size + 1 := by
  unfold insert
  split <;> rfl

theorem size_modify (h : Handle kind) (f : α → α) : (t.modify h f).size = t.size := by
  unfold modify
  split_ifs <;> rfl

theorem size_erase {h : Handle kind} (hc : t.contains h = true) :
    (t.erase h).size = t.size - 1 := by
  rw [erase, if_pos hc]

/-- What a change does not touch reads as before. -/
theorem map_get?_modify {f : α → α} {g : α → β} (hg : ∀ a, g (f a) = g a) (h k : Handle kind) :
    ((t.modify h f).get? k).map g = (t.get? k).map g := by
  rw [get?_modify]
  split_ifs with hk
  · subst hk
    cases t.get? k <;> simp [hg]
  · rfl

/-- A change that leaves the value as it is leaves the table as it is. -/
theorem modify_eq_self {f : α → α} (hf : ∀ a, t.get? h = some a → f a = a) :
    t.modify h f = t := by
  by_cases hc : t.contains h = true
  · obtain ⟨a, ha⟩ := contains_iff.1 hc
    obtain ⟨s, hs, -, hv⟩ := get?_eq_some_iff.1 ha
    have hslots : (t.slots.modify h.index fun s => { s with value := s.value.map f }) =
        t.slots := by
      refine Array.ext_getElem? fun i => ?_
      rw [Array.getElem?_modify]
      split_ifs with hi
      · subst hi
        rw [hs, Option.map_some, hv, Option.map_some, hf a ha, ← hv]
      · rfl
    rw [modify, if_pos hc, hslots]
  · rw [modify, if_neg hc]

theorem modify_modify (h : Handle kind) (f g : α → α) :
    (t.modify h f).modify h g = t.modify h (g ∘ f) := by
  by_cases hc : t.contains h = true
  · have hc' : (t.modify h f).contains h = true := by simpa using hc
    rw [modify, if_pos hc', modify, if_pos hc, modify, if_pos hc]
    congr 1
    ext i : 1
    · simp
    · simp [Array.getElem_modify]
      split_ifs <;> simp
  · simp [modify, hc]

/-! ## Well-formedness is kept -/

/-- Putting a value in keeps a table well formed. -/
theorem WellFormed.insert (ht : t.WellFormed) (a : α) : (t.insert a).WellFormed := by
  constructor
  · rcases next_cases ht with ⟨i, rest, s, hf, -, -, -⟩ | ⟨hf, -⟩
    · have := ht.nodup
      simp only [SlotTable.insert, hf]
      rw [hf] at this
      exact (List.nodup_cons.1 this).2
    · simp [SlotTable.insert, hf]
  · intro i
    rw [getElem?_slots_insert ht]
    rcases next_cases ht with ⟨j, rest, s, hf, hs, -, hn⟩ | ⟨hf, hn⟩
    · have hnd := List.nodup_cons.1 (hf ▸ ht.nodup)
      have hmem := ht.mem_free i
      rw [hf, List.mem_cons] at hmem
      simp only [SlotTable.insert, hf, hn]
      by_cases hij : i = j
      · subst hij
        simpa using hnd.1
      · simpa [hij] using hmem
    · have hmem := ht.mem_free i
      rw [hf] at hmem
      simp only [SlotTable.insert, hf, hn]
      by_cases hi : i = t.slots.size
      · simp [hi]
      · simpa [hi] using hmem

/-- Changing a value keeps a table well formed. -/
theorem WellFormed.modify (ht : t.WellFormed) (h : Handle kind) (f : α → α) :
    (t.modify h f).WellFormed := by
  unfold SlotTable.modify
  split_ifs with hc
  · refine ⟨ht.nodup, fun i => ?_⟩
    rw [ht.mem_free i]
    simp only [Array.getElem?_modify]
    by_cases hi : h.index = i
    · cases t.slots[i]? <;> simp [hi]
    · simp [hi]
  · exact ht

/-- Taking a value out keeps a table well formed. -/
theorem WellFormed.erase (ht : t.WellFormed) (h : Handle kind) : (t.erase h).WellFormed := by
  unfold SlotTable.erase
  split_ifs with hc
  · obtain ⟨a, ha⟩ := contains_iff.1 hc
    obtain ⟨s, hs, -, hv⟩ := get?_eq_some_iff.1 ha
    refine ⟨List.nodup_cons.2 ⟨?_, ht.nodup⟩, fun i => ?_⟩
    · rw [ht.mem_free]
      rintro ⟨s', hs', hv'⟩
      rw [hs] at hs'
      obtain rfl := Option.some.inj hs'
      rw [hv] at hv'
      cases hv'
    · rw [List.mem_cons, ht.mem_free i, Array.getElem?_modify]
      by_cases hi : h.index = i
      · subst hi
        simp [hs]
      · simp [hi, Ne.symm hi]
  · exact ht

/-! ## Handles that have been issued -/

/-- No slot has been emptied so often that its generation has come round. -/
def Unwrapped (t : SlotTable kind α) : Prop :=
  ∀ s ∈ t.slots, s.releases < UInt32.size

instance (t : SlotTable kind α) : Decidable t.Unwrapped :=
  inferInstanceAs (Decidable (∀ s ∈ t.slots, s.releases < UInt32.size))

theorem Unwrapped.releases_lt (ht : t.Unwrapped) {i : Nat} {s : Slot α}
    (hs : t.slots[i]? = some s) : s.releases < UInt32.size :=
  ht s (Array.mem_of_getElem? hs)

/-- The value at the handle has been taken out. -/
def Spent (t : SlotTable kind α) (h : Handle kind) : Prop :=
  ∃ s, t.slots[h.index]? = some s ∧ h.generation.toNat < s.releases

/-- The handle has been given to a value. -/
def Issued (t : SlotTable kind α) (h : Handle kind) : Prop :=
  t.contains h = true ∨ t.Spent h

theorem issued_of_get? (ha : t.get? h = some a) : t.Issued h :=
  Or.inl (contains_of_get? ha)

/-- A handle whose value was taken out is stale. -/
theorem get?_of_spent (ht : t.Unwrapped) (hs : t.Spent h) : t.get? h = none := by
  obtain ⟨s, hs, hlt⟩ := hs
  have hne : s.generation ≠ h.generation := by
    intro hg
    rw [← hg, Slot.generation, UInt32.toNat_ofNat_of_lt' (ht.releases_lt hs)] at hlt
    exact lt_irrefl _ hlt
  simp [get?, slot?, hs, Option.filter, hne]

/-- The next value gets a handle that no value had before. -/
theorem not_issued_next (hw : t.WellFormed) (ht : t.Unwrapped) : ¬t.Issued t.next := by
  rintro (hc | ⟨s, hs, hlt⟩)
  · obtain ⟨a, ha⟩ := contains_iff.1 hc
    rw [get?_next hw] at ha
    cases ha
  · rcases next_cases hw with ⟨i, rest, s', -, hs', -, hn⟩ | ⟨-, hn⟩
    · rw [hn] at hs hlt
      rw [hs'] at hs
      obtain rfl := Option.some.inj hs
      rw [Slot.generation, UInt32.toNat_ofNat_of_lt' (ht.releases_lt hs')] at hlt
      exact lt_irrefl _ hlt
    · rw [hn] at hs
      simp at hs

/-- A slot whose value is changed is not emptied. -/
theorem Unwrapped.modify_slots (ht : t.Unwrapped) (i : Nat) (f : Slot α → Slot α)
    (hf : ∀ s, (f s).releases = s.releases) :
    ∀ s ∈ t.slots.modify i f, s.releases < UInt32.size := by
  intro s hs
  obtain ⟨k, hk⟩ := Array.mem_iff_getElem?.1 hs
  rw [Array.getElem?_modify] at hk
  split_ifs at hk
  · obtain ⟨s', hs', rfl⟩ := Option.map_eq_some_iff.1 hk
    rw [hf]
    exact ht.releases_lt hs'
  · exact ht.releases_lt hk

theorem Unwrapped.modify (ht : t.Unwrapped) (h : Handle kind) (f : α → α) :
    (t.modify h f).Unwrapped := by
  unfold SlotTable.modify
  split_ifs
  · unfold Unwrapped
    dsimp only
    exact ht.modify_slots _ _ fun _ => rfl
  · exact ht

/-! ## What a table keeps over its life -/

/-- A later state of a table : no slot is given up, and what was issued stays issued. -/
structure Extends (t t' : SlotTable kind α) : Prop where
  slots : ∀ (i : Nat) (s : Slot α), t.slots[i]? = some s →
    ∃ s', t'.slots[i]? = some s' ∧ s.releases ≤ s'.releases
  issued : ∀ h, t.Issued h → t'.Issued h

theorem Extends.refl (t : SlotTable kind α) : t.Extends t :=
  ⟨fun _ s hs => ⟨s, hs, le_rfl⟩, fun _ h => h⟩

theorem Extends.trans (h : t.Extends t') (h' : t'.Extends u) : t.Extends u := by
  refine ⟨fun i s hs => ?_, fun k hk => h'.issued k (h.issued k hk)⟩
  obtain ⟨s', hs', hle⟩ := h.slots i s hs
  obtain ⟨s'', hs'', hle'⟩ := h'.slots i s' hs'
  exact ⟨s'', hs'', le_trans hle hle'⟩

/-- What was taken out is not put back. -/
theorem Spent.extends (hs : t.Spent h) (he : t.Extends t') : t'.Spent h := by
  obtain ⟨s, hs, hlt⟩ := hs
  obtain ⟨s', hs', hle⟩ := he.slots _ s hs
  exact ⟨s', hs', lt_of_lt_of_le hlt hle⟩

/-- What has not been emptied too often in the end, never was. -/
theorem Extends.unwrapped (h : t.Extends t') (ht : t'.Unwrapped) : t.Unwrapped := by
  intro s hs
  obtain ⟨i, hi⟩ := Array.mem_iff_getElem?.1 hs
  obtain ⟨s', hs', hle⟩ := h.slots i s hi
  exact lt_of_le_of_lt hle (ht.releases_lt hs')

theorem Extends.size_le (h : t.Extends t') : t.slots.size ≤ t'.slots.size := by
  by_contra hlt
  push Not at hlt
  obtain ⟨s', hs', -⟩ := h.slots t'.slots.size _ (Array.getElem?_eq_getElem hlt)
  simp at hs'

/-- The counts of releases and the live handles decide what is kept. -/
theorem Extends.of_contains
    (hs : ∀ (i : Nat) (s : Slot α), t.slots[i]? = some s →
      ∃ s', t'.slots[i]? = some s' ∧ s.releases ≤ s'.releases)
    (hc : ∀ h, t.contains h = true → t'.Issued h) : t.Extends t' := by
  refine ⟨hs, fun h hi => ?_⟩
  rcases hi with hi | ⟨s, hsl, hlt⟩
  · exact hc h hi
  · obtain ⟨s', hs', hle⟩ := hs _ _ hsl
    exact Or.inr ⟨s', hs', lt_of_lt_of_le hlt hle⟩

theorem extends_insert (ht : t.WellFormed) (a : α) : t.Extends (t.insert a) := by
  refine Extends.of_contains (fun i s hs => ?_) fun h hc => Or.inl ?_
  · rw [getElem?_slots_insert ht]
    by_cases hi : i = t.next.index
    · exact ⟨_, if_pos hi, by simp [hs]⟩
    · exact ⟨s, by rw [if_neg hi, hs], le_rfl⟩
  · obtain ⟨b, hb⟩ := contains_iff.1 hc
    rw [contains_iff, get?_insert ht, if_neg (ne_next ht hb)]
    exact ⟨b, hb⟩

theorem extends_modify (h : Handle kind) (f : α → α) : t.Extends (t.modify h f) := by
  refine Extends.of_contains (fun i s hs => ?_) fun k hk => Or.inl (by simpa using hk)
  unfold modify
  split_ifs with hc
  · by_cases hi : h.index = i
    · exact ⟨{ s with value := s.value.map f }, by simp [Array.getElem?_modify, hi, hs], le_rfl⟩
    · exact ⟨s, by simp [Array.getElem?_modify, hi, hs], le_rfl⟩
  · exact ⟨s, hs, le_rfl⟩

/-- A handle is spent once the value at it has been taken out. -/
theorem spent_erase (hc : t.contains h = true) : (t.erase h).Spent h := by
  obtain ⟨a, ha⟩ := contains_iff.1 hc
  obtain ⟨s, hs, hg, -⟩ := get?_eq_some_iff.1 ha
  refine ⟨⟨none, s.releases + 1⟩, by simp [erase, hc, Array.getElem?_modify, hs], ?_⟩
  have hle : h.generation.toNat ≤ s.releases := by
    rw [← hg, Slot.generation, UInt32.toNat_ofNat']
    exact Nat.mod_le _ _
  exact Nat.lt_succ_of_le hle

theorem extends_erase (h : Handle kind) : t.Extends (t.erase h) := by
  refine Extends.of_contains (fun i s hs => ?_) fun k hk => ?_
  · unfold erase
    split_ifs with hc
    · by_cases hi : h.index = i
      · exact ⟨⟨none, s.releases + 1⟩, by simp [Array.getElem?_modify, hi, hs], Nat.le_succ _⟩
      · exact ⟨s, by simp [Array.getElem?_modify, hi, hs], le_rfl⟩
    · exact ⟨s, hs, le_rfl⟩
  · by_cases hkh : k = h
    · subst hkh
      exact Or.inr (spent_erase hk)
    · obtain ⟨b, hb⟩ := contains_iff.1 hk
      refine Or.inl (contains_iff.2 ⟨b, ?_⟩)
      rw [get?_erase, if_neg hkh, hb]

/-! ## Handles that stay -/

/-- How often the slot that a handle points to has been emptied. -/
def releasesAt (t : SlotTable kind α) (h : Handle kind) : Nat :=
  ((t.slots[h.index]?).map Slot.releases).getD 0

/-- In the later table `t'` the handle is live, and nothing has been taken out of its slot since. -/
def StillAt (t t' : SlotTable kind α) (h : Handle kind) : Prop :=
  t'.contains h = true ∧ t'.releasesAt h = t.releasesAt h

theorem Extends.releasesAt_le (he : t.Extends t') (h : Handle kind) :
    t.releasesAt h ≤ t'.releasesAt h := by
  unfold releasesAt
  cases hs : t.slots[h.index]? with
  | none => exact Nat.zero_le _
  | some s =>
    obtain ⟨s', hs', hle⟩ := he.slots _ s hs
    rw [hs']
    exact hle

/-- The slot of the value that is taken out has been emptied once more. -/
theorem releasesAt_erase (hc : t.contains h = true) :
    (t.erase h).releasesAt h = t.releasesAt h + 1 := by
  obtain ⟨a, ha⟩ := contains_iff.1 hc
  obtain ⟨s, hs, -, -⟩ := get?_eq_some_iff.1 ha
  simp [releasesAt, erase, hc, Array.getElem?_modify, hs]

/-- A live handle tells how often its slot has been emptied, until its generation comes round. -/
theorem releasesAt_eq_generation (ht : t.Unwrapped) (hc : t.contains h = true) :
    t.releasesAt h = h.generation.toNat := by
  obtain ⟨a, ha⟩ := contains_iff.1 hc
  obtain ⟨s, hs, hg, -⟩ := get?_eq_some_iff.1 ha
  rw [← hg, Slot.generation, UInt32.toNat_ofNat_of_lt' (ht.releases_lt hs), releasesAt, hs]
  rfl

/-- As long as no slot has been emptied too often, a handle that is live at both moments stays in
between. -/
theorem stillAt_of_unwrapped (he : t.Extends t') (hu : t'.Unwrapped) (hc : t.contains h = true)
    (hc' : t'.contains h = true) : t.StillAt t' h :=
  ⟨hc', (releasesAt_eq_generation hu hc').trans
    (releasesAt_eq_generation (he.unwrapped hu) hc).symm⟩

end SlotTable

end NameResolution
