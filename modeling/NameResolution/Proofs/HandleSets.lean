import NameResolution.Proofs.Handles

/-!
# Members of handle sets

A set stores no handle twice, whatever is put in or taken out (`nodup_insert`,
`nodup_erase`, `nodup_prune`). Taking a member out moves the last one into its place :
up to order, the member is deleted (`erase_perm`).
-/

namespace NameResolution

namespace HandleSet

variable {kind : Kind} {α : Type} {s : HandleSet kind} {h k : Handle kind}
  {t : SlotTable kind α}

/-- Moving the last entry into the place of another one deletes that one. -/
theorem dropLast_set_getLastD_perm (before after : List (Handle kind)) (h : Handle kind) :
    (((before ++ h :: after).set before.length ((before ++ h :: after).getLastD h)).dropLast).Perm
      (before ++ after) := by
  rcases List.eq_nil_or_concat' after with rfl | ⟨after', z, rfl⟩
  · simp
  · have hsplit : before ++ h :: (after' ++ [z]) = (before ++ h :: after') ++ [z] := by simp
    have hlast : (before ++ h :: (after' ++ [z])).getLastD h = z := by
      rw [hsplit, List.getLastD_concat]
    have hset : ((before ++ h :: (after' ++ [z])).set before.length z).dropLast =
        before ++ z :: after' := by
      rw [List.set_append_right _ _ le_rfl, Nat.sub_self, List.set_cons_zero,
        show before ++ z :: (after' ++ [z]) = (before ++ z :: after') ++ [z] by simp,
        List.dropLast_concat]
    rw [hlast, hset]
    exact (List.perm_append_singleton z after').symm.append_left before

/-- Up to order, taking a member out deletes it. -/
theorem erase_perm (s : HandleSet kind) (h : Handle kind) :
    (s.erase h).members.Perm (s.members.erase h) := by
  unfold erase
  by_cases hm : h ∈ s.members
  · obtain ⟨before, after, hs, hb⟩ := List.eq_append_cons_of_mem hm
    have hi : s.members.idxOf? h = some before.length := by
      rw [List.idxOf?_eq_some_iff]
      refine ⟨by simp [hs], by simp [hs], fun j hj => ?_⟩
      simp only [hs, List.getElem_append_left hj]
      exact fun he => hb (he ▸ List.getElem_mem hj)
    rw [hi, hs, List.erase_append_right _ hb, List.erase_cons_head]
    exact dropLast_set_getLastD_perm before after h
  · rw [List.idxOf?_eq_none_iff.2 hm, List.erase_of_not_mem hm]

theorem nodup_erase (hs : s.members.Nodup) (h : Handle kind) : (s.erase h).members.Nodup :=
  (erase_perm s h).nodup_iff.2 (hs.erase h)

/-- What is taken out is gone, and everything else stays. -/
theorem mem_erase (hs : s.members.Nodup) :
    k ∈ (s.erase h).members ↔ k ≠ h ∧ k ∈ s.members := by
  rw [(erase_perm s h).mem_iff, hs.mem_erase_iff]

/-- What is put in is there, with everything that was there. -/
theorem mem_insert : k ∈ (s.insert h).members ↔ k = h ∨ k ∈ s.members := by
  unfold insert
  split_ifs with hm
  · constructor
    · exact Or.inr
    · rintro (rfl | hk)
      · exact hm
      · exact hk
  · simp [or_comm]

theorem nodup_insert (hs : s.members.Nodup) (h : Handle kind) : (s.insert h).members.Nodup := by
  unfold insert
  split_ifs with hm
  · exact hs
  · refine List.nodup_append.2 ⟨hs, by simp, ?_⟩
    rintro k hk _ hkh rfl
    exact hm (List.mem_singleton.1 hkh ▸ hk)

theorem mem_prune : k ∈ (s.prune t).members ↔ k ∈ s.members ∧ t.contains k = true := by
  simp [prune]

theorem nodup_prune (hs : s.members.Nodup) (t : SlotTable kind α) : (s.prune t).members.Nodup :=
  hs.filter _

/-- Pruning asks a table for nothing but the live handles. -/
theorem prune_congr {β : Type} {t' : SlotTable kind β}
    (h : ∀ k, t'.contains k = t.contains k) (s : HandleSet kind) : s.prune t' = s.prune t := by
  rw [prune, prune, funext h]

/-- The live members are those that the table has. -/
theorem mem_live : k ∈ s.live t ↔ k ∈ s.members ∧ t.contains k = true := by
  simp [live]

/-- A stale handle is not read. -/
theorem live_insert_of_stale (hh : t.contains h = false) : (s.insert h).live t = s.live t := by
  rw [live, live, insert]
  split_ifs with hm
  · rfl
  · rw [List.filter_append, List.filter_singleton, hh, cond_false, List.append_nil]

/-- Pruning for a table with more in it changes nothing that is read. -/
theorem live_prune_of_le {β : Type} {t' : SlotTable kind β}
    (h : ∀ k, t.contains k = true → t'.contains k = true) : (s.prune t').live t = s.live t := by
  rw [live, live, prune, List.filter_filter]
  refine List.filter_congr fun k _ => ?_
  cases hk : t.contains k with
  | false => rfl
  | true => rw [h k hk, Bool.and_self]

end HandleSet

end NameResolution
