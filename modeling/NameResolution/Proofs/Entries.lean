import NameResolution.Proofs.Handles

/-!
# The entries of a table

The entries of a table are its live handles with their values (`mem_toList_iff`), by
position, so each handle once (`nodup_handles`). The size that a table keeps is their number
(`Counted.length_toList`), because every change counts the slot that it fills or empties. A
table whose values and some values of another table refer to each other has as many entries
as there are such values (`Counted.size_eq_countP`).
-/

namespace NameResolution

namespace SlotTable

variable {kind kind' : Kind} {α β : Type} {t : SlotTable kind α} {u : SlotTable kind' β}
  {h : Handle kind} {a : α}

/-! ## Entries -/

/-- The entries are the values of the run, under the handles that their places have. -/
theorem mem_entriesFrom_iff {l : List (Slot α)} {start : Nat} :
    (h, a) ∈ entriesFrom start l ↔
      ∃ i s, l[i]? = some s ∧ h = ⟨start + i, s.generation⟩ ∧ s.value = some a := by
  induction l generalizing start with
  | nil => simp [entriesFrom]
  | cons s rest ih =>
    have hrest : (h, a) ∈ entriesFrom (start + 1) rest ↔
        ∃ i s', (s :: rest)[i + 1]? = some s' ∧ h = ⟨start + (i + 1), s'.generation⟩ ∧
          s'.value = some a := by
      simp only [ih, List.getElem?_cons_succ, Nat.add_assoc, Nat.add_comm 1]
    unfold entriesFrom
    constructor
    · intro hmem
      cases hv : s.value with
      | none =>
        rw [hv] at hmem
        obtain ⟨i, s', hs'⟩ := hrest.1 hmem
        exact ⟨i + 1, s', hs'⟩
      | some b =>
        rw [hv, List.mem_cons] at hmem
        rcases hmem with heq | hmem
        · obtain ⟨rfl, rfl⟩ := Prod.mk.inj heq
          exact ⟨0, s, rfl, rfl, hv⟩
        · obtain ⟨i, s', hs'⟩ := hrest.1 hmem
          exact ⟨i + 1, s', hs'⟩
    · rintro ⟨_ | i, s', hs', hh, hv⟩
      · obtain rfl := Option.some.inj hs'
        rw [hv]
        exact List.mem_cons.2 (Or.inl (by rw [hh]; rfl))
      · have hmem := hrest.2 ⟨i, s', hs', hh, hv⟩
        cases s.value with
        | none => exact hmem
        | some b => exact List.mem_cons_of_mem _ hmem

/-- The entries are the live handles with their values. -/
theorem mem_toList_iff : (h, a) ∈ t.toList ↔ t.get? h = some a := by
  rw [toList, mem_entriesFrom_iff, get?_eq_some_iff]
  constructor
  · rintro ⟨i, s, hs, rfl, hv⟩
    exact ⟨s, by simpa using hs, rfl, hv⟩
  · rintro ⟨s, hs, hg, hv⟩
    exact ⟨h.index, s, by simpa using hs, by rw [Nat.zero_add, hg], hv⟩

/-- Entries come by position. -/
theorem pairwise_index_entriesFrom (l : List (Slot α)) (start : Nat) :
    ((entriesFrom start l : List (Handle kind × α)).map Prod.fst).Pairwise
      fun h k => h.index < k.index := by
  induction l generalizing start with
  | nil => exact List.Pairwise.nil
  | cons s rest ih =>
    unfold entriesFrom
    cases s.value with
    | none => exact ih _
    | some b =>
      refine List.pairwise_cons.2 ⟨fun k hk => ?_, ih _⟩
      obtain ⟨⟨k, b⟩, hmem, rfl⟩ := List.mem_map.1 hk
      obtain ⟨i, s', -, rfl, -⟩ := mem_entriesFrom_iff.1 hmem
      show start < start + 1 + i
      omega

/-- Every handle has one entry. -/
theorem nodup_handles (t : SlotTable kind α) : (t.toList.map Prod.fst).Nodup := by
  refine (pairwise_index_entriesFrom t.slots.toList 0).imp fun hlt heq => ?_
  rw [heq] at hlt
  exact Nat.lt_irrefl _ hlt

/-! ## Sizes -/

/-- The size is the number of slots that hold a value. -/
def Counted (t : SlotTable kind α) : Prop :=
  t.slots.toList.countP (·.value.isSome) = t.size

/-- There are as many entries as slots that are filled. -/
theorem length_entriesFrom (l : List (Slot α)) (start : Nat) :
    (entriesFrom start l : List (Handle kind × α)).length = l.countP (·.value.isSome) := by
  induction l generalizing start with
  | nil => rfl
  | cons s rest ih =>
    rw [List.countP_cons]
    unfold entriesFrom
    cases s.value with
    | none => simp [ih]
    | some b => simp [ih]

/-- A table that counts its values has as many entries as it says. -/
theorem Counted.length_toList (ht : t.Counted) : t.toList.length = t.size := by
  rw [toList, length_entriesFrom, ht]

/-- Changing one element of a list moves a count by that element alone. -/
theorem countP_modify {l : List α} {i : Nat} (ha : l[i]? = some a) (p : α → Bool) (f : α → α) :
    (l.modify i f).countP p + (if p a then 1 else 0) =
      l.countP p + if p (f a) then 1 else 0 := by
  induction l generalizing i with
  | nil => simp at ha
  | cons b l ih =>
    cases i with
    | zero =>
      obtain rfl := Option.some.inj ha
      simp only [List.modify_zero_cons, List.countP_cons]
      omega
    | succ i =>
      have := ih (i := i) (by simpa using ha)
      simp only [List.modify_succ_cons, List.countP_cons]
      omega

theorem counted_empty : Counted ({} : SlotTable kind α) :=
  rfl

theorem Counted.insert (hc : t.Counted) (ht : t.WellFormed) (a : α) : (t.insert a).Counted := by
  unfold Counted at hc ⊢
  rcases next_cases ht with ⟨i, rest, s, hf, hs, hv, -⟩ | ⟨hf, -⟩
  · have hs' : t.slots.toList[i]? = some s := by simpa using hs
    have hcount := countP_modify hs' (·.value.isSome) fun s => { s with value := some a }
    simp only [hv, Option.isSome_none, Option.isSome_some, if_true, Bool.false_eq_true,
      if_false] at hcount
    simp only [SlotTable.insert, hf, Array.toList_modify]
    omega
  · simp [SlotTable.insert, hf, hc]

theorem Counted.modify (hc : t.Counted) (h : Handle kind) (f : α → α) :
    (t.modify h f).Counted := by
  unfold SlotTable.modify
  split_ifs with hlive
  · obtain ⟨a, ha⟩ := contains_iff.1 hlive
    obtain ⟨s, hs, -, hv⟩ := get?_eq_some_iff.1 ha
    have hs' : t.slots.toList[h.index]? = some s := by simpa using hs
    have hcount := countP_modify hs' (·.value.isSome) fun s => { s with value := s.value.map f }
    simp only [hv, Option.map_some, Option.isSome_some, if_true] at hcount
    unfold Counted at hc ⊢
    simp only [Array.toList_modify]
    omega
  · exact hc

theorem Counted.erase (hc : t.Counted) (h : Handle kind) : (t.erase h).Counted := by
  unfold SlotTable.erase
  split_ifs with hlive
  · obtain ⟨a, ha⟩ := contains_iff.1 hlive
    obtain ⟨s, hs, -, hv⟩ := get?_eq_some_iff.1 ha
    have hs' : t.slots.toList[h.index]? = some s := by simpa using hs
    have hcount := countP_modify hs' (·.value.isSome) fun s =>
      { value := none, releases := s.releases + 1 }
    simp only [hv, Option.isSome_none, Option.isSome_some, if_true, Bool.false_eq_true,
      if_false] at hcount
    unfold Counted at hc ⊢
    simp only [Array.toList_modify]
    omega
  · exact hc

/-! ## Tables that refer to each other -/

/-- If the entries of a table and some entries of another one refer to each other, the table has as
many entries as there are such entries in the other. -/
theorem Counted.size_eq_countP (hu : u.Counted) {ref : α → Option (Handle kind')}
    {back : β → Handle kind}
    (inside : ∀ h a k, t.get? h = some a → ref a = some k →
      ∃ b, u.get? k = some b ∧ back b = h)
    (outside : ∀ k b, u.get? k = some b → ∃ a, t.get? (back b) = some a ∧ ref a = some k) :
    u.size = t.toList.countP fun entry => (ref entry.2).isSome := by
  rw [← hu.length_toList, ← List.length_map Prod.fst, ← List.length_filterMap_eq_countP]
  refine List.Perm.length_eq (List.Perm.symm ?_)
  refine (List.perm_ext_iff_of_nodup ?_ (nodup_handles u)).2 fun k => ?_
  · -- Two entries with the same reference are both what is referred back to.
    refine List.pairwise_filterMap.2 (List.Pairwise.imp_of_mem ?_ (List.pairwise_map.1
      (nodup_handles t)))
    rintro ⟨h, a⟩ ⟨h', a'⟩ hmem hmem' hne k hk k' hk' rfl
    obtain ⟨b, hb, rfl⟩ := inside h a k (mem_toList_iff.1 hmem) hk
    obtain ⟨b', hb', rfl⟩ := inside h' a' k (mem_toList_iff.1 hmem') hk'
    rw [hb, Option.some.injEq] at hb'
    exact hne (congrArg back hb')
  · rw [List.mem_filterMap, List.mem_map]
    constructor
    · rintro ⟨⟨h, a⟩, hmem, hk⟩
      obtain ⟨b, hb, -⟩ := inside h a k (mem_toList_iff.1 hmem) hk
      exact ⟨(k, b), mem_toList_iff.2 hb, rfl⟩
    · rintro ⟨⟨k, b⟩, hmem, rfl⟩
      obtain ⟨a, ha, hk⟩ := outside k b (mem_toList_iff.1 hmem)
      exact ⟨(back b, a), mem_toList_iff.2 ha, hk⟩

end SlotTable

end NameResolution
