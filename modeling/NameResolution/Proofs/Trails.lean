import NameResolution.Proofs.Entries
import NameResolution.Proofs.Tables.Paths

/-!
# Trails through a table

What is computed for a handle may need what is computed for others, and so on. If no handle
is needed for itself in the end, then a trail of handles that need each other repeats
nothing, and there are no more of them than slots in the table. So a recursion that is cut
off at a greater depth than that is not cut off at all : computed to any two such depths,
or without a bound, everything comes out the same (`SlotTable.Recursion.eq`).
-/

namespace NameResolution

open Relation

/-- If nothing that needs something is needed, nothing is needed for itself. -/
theorem not_transGen_of_flat {α : Type} {r : α → α → Prop} (h : ∀ a b c, r a b → ¬r b c) (a : α) :
    ¬TransGen r a a := by
  intro hcycle
  obtain ⟨b, hab, -⟩ := TransGen.head'_iff.1 hcycle
  obtain ⟨c, -, hca⟩ := TransGen.tail'_iff.1 hcycle
  exact h c a b hca hab

namespace SlotTable

variable {kind : Kind} {α β : Type} {t : SlotTable kind α} {P : Handle kind → Prop}
  {R : Handle kind → Handle kind → Prop}
  {next : (Handle kind → β) → Handle kind → β} {F G : Nat → Handle kind → β} {h : Handle kind}

/-- For a handle, `next` reads what is given for the handles that it needs alone : `R k h` says that
`h` needs `k`. Only live handles need others, and none is needed for itself in the end. -/
structure Recursion (t : SlotTable kind α) (P : Handle kind → Prop)
    (R : Handle kind → Handle kind → Prop) (next : (Handle kind → β) → Handle kind → β) : Prop where
  closed : ∀ {k h}, P h → R k h → P k
  live : ∀ {k h}, P h → R k h → t.contains h = true
  reads : ∀ {h} {f g : Handle kind → β}, P h → (∀ k, R k h → f k = g k) → next f h = next g h
  acyclic : ∀ {h}, P h → ¬TransGen R h h

/-- The handles of a trail all need `h`, so if `h` needs others in turn, it is new to the trail. -/
theorem Recursion.eq_of_trail (hr : Recursion t P R next) (hF : ∀ d h, F (d + 1) h = next (F d) h)
    (hG : ∀ d h, G (d + 1) h = next (G d) h) (hP : P h) {trail : List (Handle kind)}
    (hnodup : trail.Nodup) (hlive : ∀ k ∈ trail, t.contains k = true)
    (hneeds : ∀ k ∈ trail, TransGen R h k) {d d' : Nat} (hd : t.slots.size < d + trail.length)
    (hd' : t.slots.size < d' + trail.length) : F d h = G d' h := by
  induction d generalizing h trail d' with
  | zero =>
    have hle := length_le_of_nodup hnodup hlive
    omega
  | succ d ih =>
    have hle := length_le_of_nodup hnodup hlive
    obtain ⟨d', rfl⟩ : ∃ n, d' = n + 1 := ⟨d' - 1, by omega⟩
    rw [hF, hG]
    refine hr.reads hP fun k hk => ?_
    have hnew : h ∉ trail := fun hmem => hr.acyclic hP (hneeds h hmem)
    refine ih (hr.closed hP hk) (List.nodup_cons.2 ⟨hnew, hnodup⟩)
      (List.forall_mem_cons.2 ⟨hr.live hP hk, hlive⟩)
      (List.forall_mem_cons.2 ⟨.single hk, fun b hb => .head hk (hneeds b hb)⟩) ?_ ?_
    · rw [List.length_cons]
      omega
    · rw [List.length_cons]
      omega

/-- Beyond a depth of as many steps as there are slots, nothing more is computed. -/
theorem Recursion.eq (hr : Recursion t P R next) (hF : ∀ d h, F (d + 1) h = next (F d) h)
    (hG : ∀ d h, G (d + 1) h = next (G d) h) (hP : P h) {d d' : Nat} (hd : t.slots.size < d)
    (hd' : t.slots.size < d') : F d h = G d' h :=
  hr.eq_of_trail hF hG hP List.nodup_nil (by simp) (by simp) hd hd'

end SlotTable

namespace Tables

variable {L T : Type} {t : Tables L T}

/-- Owners of owners have no owner, so nothing is around itself. -/
theorem not_transGen_above_of_flat (h : ∀ entry ∈ t.entities.toList,
    ((entry.2.owner.bind t.scopes.get?).bind fun x =>
      (t.entities.get? x.entity).bind Entity.owner) = none) (e : EntityId) :
    ¬TransGen t.Above e e := by
  refine not_transGen_of_flat (fun a b c hab hbc => ?_) e
  obtain ⟨x, k, y, hx, hown, hy, hye⟩ := hbc
  obtain ⟨x', k', y', hx', hown', -⟩ := hab
  have hnone := h (c, x) (SlotTable.mem_toList_iff.2 hx)
  rw [hown, Option.bind_some, hy, Option.bind_some, hye, hx', Option.bind_some, hown'] at hnone
  cases hnone

end Tables

end NameResolution
