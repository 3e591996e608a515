import NameResolution.Proofs.Handles

/-!
# Slots that are emptied again and again

To put a value into a table and take it out again is a round. The slot that is filled next has
been emptied once more then, and nothing else is different (`erase_insert_next`). After `n`
rounds it has been emptied `n` times more (`turned`), and after `2 ^ 32` rounds its generation
has come round. So a handle whose value was taken out is given out again after one round less
(`next_turned_erase`) : the bound on releases that `Unwrapped` sets is the least one which
keeps stale handles apart from live ones.
-/

namespace NameResolution

namespace SlotTable

variable {kind : Kind} {α : Type} {t : SlotTable kind α} {h : Handle kind}

/-- The table in which the slot that is filled next has been emptied `n` times more. -/
def turned (t : SlotTable kind α) (n : Nat) : SlotTable kind α :=
  match t.free with
  | i :: _ => { t with slots := t.slots.modify i fun s => { s with releases := s.releases + n } }
  | [] => t

/-- The empty slots are the same. -/
@[simp] theorem free_turned (t : SlotTable kind α) (n : Nat) : (t.turned n).free = t.free := by
  unfold turned
  split <;> simp_all

/-- The slot that is filled next is the first of the free list. -/
theorem turned_of_free {i : Nat} {rest : List Nat} (hf : t.free = i :: rest) (n : Nat) :
    t.turned n = { t with
      slots := t.slots.modify i fun s => { s with releases := s.releases + n } } := by
  unfold turned
  rw [hf]

/-- Without a release more the table is as it was. -/
@[simp] theorem turned_zero (t : SlotTable kind α) : t.turned 0 = t := by
  cases hf : t.free with
  | nil =>
    unfold turned
    rw [hf]
  | cons i rest =>
    rw [turned_of_free hf]
    congr 1
    ext j : 1
    · simp
    · simp [Array.getElem_modify]

/-- Rounds add up. -/
theorem turned_turned (t : SlotTable kind α) (m n : Nat) :
    (t.turned m).turned n = t.turned (m + n) := by
  cases hf : t.free with
  | nil =>
    have hid (k : Nat) : t.turned k = t := by
      unfold turned
      rw [hf]
    rw [hid, hid, hid]
  | cons i rest =>
    rw [turned_of_free ((free_turned t m).trans hf), turned_of_free hf, turned_of_free hf]
    congr 1
    ext j : 1
    · simp
    · simp only [Array.getElem_modify]
      split_ifs
      · rw [Nat.add_assoc]
      · rfl

/-- Releases more keep a table well formed. -/
theorem WellFormed.turned (ht : t.WellFormed) (n : Nat) : (t.turned n).WellFormed := by
  cases hf : t.free with
  | nil =>
    unfold SlotTable.turned
    rwa [hf]
  | cons i rest =>
    rw [turned_of_free hf]
    refine ⟨ht.nodup, fun j => (ht.mem_free j).trans ?_⟩
    simp only [Array.getElem?_modify]
    split_ifs with hij
    · cases t.slots[j]? <;> simp
    · rfl

/-- What is put in and taken out again leaves nothing but a slot that has been emptied once more. -/
theorem erase_insert_next (ht : t.WellFormed) (hfree : t.free ≠ []) (a : α) :
    (t.insert a).erase t.next = t.turned 1 := by
  have hc : (t.insert a).contains t.next = true :=
    contains_of_get? ((get?_insert ht a _).trans (if_pos rfl))
  obtain ⟨i, rest, s, hf, hs, hv, hn⟩ := (next_cases ht).resolve_right fun h => hfree h.1
  rw [erase, if_pos hc, turned_of_free hf, hn]
  unfold insert
  rw [hf]
  dsimp only
  congr 1
  ext j : 1
  · simp
  · simp only [Array.getElem_modify]
    split_ifs with hij
    · subst hij
      have hj := (Array.getElem?_eq_some_iff.1 hs).2
      simp only [hj, hv]
    · rfl

/-- The next handle is that of the first empty slot, in its generation. -/
theorem next_of_free {i : Nat} {rest : List Nat} (hf : t.free = i :: rest) {s : Slot α}
    (hs : t.slots[i]? = some s) : t.next = ⟨i, s.generation⟩ := by
  unfold next
  rw [hf]
  simp [hs]

/-- A handle whose value was taken out is given out again once its slot has been emptied so often
that its generation comes round. -/
theorem next_turned_erase (hc : t.contains h = true) :
    ((t.erase h).turned (UInt32.size - 1)).next = h := by
  obtain ⟨a, ha⟩ := contains_iff.1 hc
  obtain ⟨s, hs, hg, -⟩ := get?_eq_some_iff.1 ha
  have hf : (t.erase h).free = h.index :: t.free := by rw [erase, if_pos hc]
  have hslot : ((t.erase h).turned (UInt32.size - 1)).slots[h.index]? =
      some ⟨none, s.releases + UInt32.size⟩ := by
    rw [turned_of_free hf]
    simp [erase, hc, Array.getElem?_modify, hs, UInt32.size, Nat.add_assoc]
  rw [next_of_free ((free_turned _ _).trans hf) hslot]
  have hround : UInt32.ofNat (s.releases + UInt32.size) = UInt32.ofNat s.releases := by
    rw [UInt32.ofNat_add, UInt32.ofNat_size, UInt32.add_zero]
  exact congrArg (Handle.mk h.index) (hround.trans hg)

end SlotTable

end NameResolution
