import NameResolution.Proofs.HandleSets
import NameResolution.Proofs.Lifetimes

/-!
# Handle sets beside a changing table

A table is filled and emptied while handles are put into a set and taken out of it (`Deed`). The
set learns nothing of what happens to the table; it is only read against it. A `Census` holds both.

A handle has `Joined` the set if it was put in and not taken out since. The set may have forgotten
such a handle, but only after its value was gone : a handle that has joined and is live is a member
(`Faithful.kept`). No access makes a stale handle live again (`Sound.contains_of_access`), which is
why forgetting it is for good. Every deed keeps this (`faithful_of_proper`), and
`members_follow_deeds` reads off what the set yields.
-/

namespace NameResolution

/-- An access makes no handle live that was issued before and is stale. -/
theorem SlotTable.Logged.Sound.contains_of_access {kind : Kind} {α : Type} {h : Handle kind}
    {s : Logged kind α} {x : Access kind α} (hs : s.Sound) (hx : (s.access x).Sound)
    (hissued : h ∈ s.log.filterMap Event.issued?)
    (hlive : (s.access x).table.contains h = true) : s.table.contains h = true := by
  refine hs.contains_iff.2 ⟨hissued, fun htaken => (hx.contains_iff.1 hlive).2 ?_⟩
  rw [Logged.access, List.filterMap_append]
  exact List.mem_append_left _ htaken

namespace HandleSet

open SlotTable (Access Event Logged logged sound_logged)

variable {kind : Kind} {α : Type} {h k : Handle kind}

/-! ## Deeds -/

/-- What can be done with a table and with a set of its handles. -/
inductive Deed (kind : Kind) (α : Type) where
  | access (x : Access kind α)
  | put (h : Handle kind)
  | take (h : Handle kind)
  | prune

namespace Deed

/-- The access to the table. -/
def access? : Deed kind α → Option (Access kind α)
  | access x => some x
  | _ => none

/-- The handle that is put into the set. -/
def put? : Deed kind α → Option (Handle kind)
  | put h => some h
  | _ => none

end Deed

/-- A table with its log, and a set of handles beside it. -/
structure Census (kind : Kind) (α : Type) where
  logged : Logged kind α := {}
  set : HandleSet kind := {}

namespace Census

/-- The handles that the table has issued. -/
def issued (c : Census kind α) : List (Handle kind) :=
  c.logged.log.filterMap Event.issued?

/-- The handles whose values have been taken out of the table. -/
def taken (c : Census kind α) : List (Handle kind) :=
  c.logged.log.filterMap Event.taken?

/-- The members of the set that are live in the table. -/
def live (c : Census kind α) : List (Handle kind) :=
  c.set.live c.logged.table

/-- A table and a set after a deed. -/
def after (c : Census kind α) : Deed kind α → Census kind α
  | .access x => { c with logged := c.logged.access x }
  | .put h => { c with set := c.set.insert h }
  | .take h => { c with set := c.set.erase h }
  | .prune => { c with set := c.set.prune c.logged.table }

end Census

/-- The empty table and the empty set after some deeds. -/
def census (ds : List (Deed kind α)) : Census kind α :=
  ds.foldl Census.after {}

/-- Only handles that the table has issued are put into the set. -/
def Proper (ds : List (Deed kind α)) : Prop :=
  ∀ i (hi : i < ds.length), ∀ h ∈ ds[i].put?, h ∈ (census (ds.take i)).issued

/-- The handle was put into the set and has not been taken out since. -/
def Joined (ds : List (Deed kind α)) (h : Handle kind) : Prop :=
  ∃ before after, ds = before ++ .put h :: after ∧ .take h ∉ after

variable {ds : List (Deed kind α)} {d : Deed kind α}

theorem census_append : census (ds ++ [d]) = (census ds).after d := by
  rw [census, List.foldl_append]
  rfl

/-- The table knows nothing of the set. -/
theorem logged_census (ds : List (Deed kind α)) :
    (census ds).logged = logged (ds.filterMap Deed.access?) := by
  induction ds using List.reverseRecOn with
  | nil => rfl
  | append_singleton ds d ih =>
    rw [census_append, List.filterMap_append]
    cases d with
    | access x =>
      rw [logged, List.foldl_append]
      exact congrArg (Logged.access · x) ih
    | put h | take h | prune =>
      show (census ds).logged = logged (ds.filterMap Deed.access? ++ [])
      rw [List.append_nil, ih]

/-- What has been taken out of the table stays so. -/
theorem taken_subset {before : List (Deed kind α)} (hb : before <+: ds) :
    (census before).taken ⊆ (census ds).taken := by
  obtain ⟨es, rfl⟩ := hb
  induction es using List.reverseRecOn with
  | nil => rw [List.append_nil]; exact List.Subset.refl _
  | append_singleton es d ih =>
    rw [← List.append_assoc, census_append]
    cases d with
    | access x =>
      refine List.Subset.trans ih fun h hh => ?_
      rw [Census.taken, Census.after, Logged.access, List.filterMap_append]
      exact List.mem_append_left _ hh
    | put h | take h | prune => exact ih

/-- What comes before the last deed is proper as well. -/
theorem Proper.left (hp : Proper (ds ++ [d])) : Proper ds := by
  intro i hi h hh
  have := hp i (by rw [List.length_append]; omega) h (by rwa [List.getElem_append_left hi])
  rwa [List.take_append_of_le_length (Nat.le_of_lt hi)] at this

theorem Proper.last (hp : Proper (ds ++ [.put h])) : h ∈ (census ds).issued := by
  simpa [Deed.put?] using hp ds.length (by simp) h

/-- The last deed puts the handle in, or leaves it in. -/
theorem joined_append_iff :
    Joined (ds ++ [d]) h ↔ d = .put h ∨ d ≠ .take h ∧ Joined ds h := by
  constructor
  · rintro ⟨before, after, heq, hafter⟩
    rcases List.eq_nil_or_concat' after with rfl | ⟨after, e, rfl⟩
    · obtain ⟨-, hd⟩ := List.append_inj' heq rfl
      exact Or.inl (List.cons.inj hd).1
    · have hsplit : ds ++ [d] = (before ++ .put h :: after) ++ [e] := by simp [heq]
      obtain ⟨rfl, hd⟩ := List.append_inj' hsplit rfl
      obtain ⟨rfl, -⟩ := List.cons.inj hd
      simp only [List.mem_append, List.mem_singleton, not_or] at hafter
      exact Or.inr ⟨Ne.symm hafter.2, before, after, rfl, hafter.1⟩
  · rintro (rfl | ⟨hd, before, after, rfl, hafter⟩)
    · exact ⟨ds, [], rfl, by simp⟩
    · refine ⟨before, after ++ [d], by simp, ?_⟩
      simp only [List.mem_append, List.mem_singleton, not_or]
      exact ⟨hafter, Ne.symm hd⟩

/-! ## What every deed keeps -/

/-- What a set is to the handles that have joined it. -/
structure Faithful (ds : List (Deed kind α)) : Prop where
  nodup : (census ds).set.members.Nodup
  joined : ∀ h ∈ (census ds).set.members, Joined ds h
  issued : ∀ h, Joined ds h → h ∈ (census ds).issued
  kept : ∀ h, Joined ds h → (census ds).logged.table.contains h = true →
    h ∈ (census ds).set.members

/-- Before the first deed, the set agrees with the deeds. -/
theorem faithful_nil : Faithful ([] : List (Deed kind α)) where
  nodup := .nil
  joined := fun h hh => nomatch hh
  issued := by rintro h ⟨before, after, heq, -⟩; simp at heq
  kept := by rintro h ⟨before, after, heq, -⟩; simp at heq

/-- Of the handles that have joined the set, an access to the table only makes some stale. -/
theorem Faithful.access {x : Access kind α} (hf : Faithful ds) (hs : (census ds).logged.Sound)
    (hx : ((census ds).logged.access x).Sound) : Faithful (ds ++ [.access x]) := by
  have hjoined : ∀ h, Joined (ds ++ [.access x]) h ↔ Joined ds h := by simp [joined_append_iff]
  refine ⟨?_, fun h hh => (hjoined h).2 (hf.joined h ?_), fun h hj => ?_, fun h hj hlive => ?_⟩
  · rw [census_append]
    exact hf.nodup
  · rwa [census_append] at hh
  · rw [census_append, Census.issued, Census.after, Logged.access, List.filterMap_append]
    exact List.mem_append_left _ (hf.issued h ((hjoined h).1 hj))
  · rw [census_append] at hlive ⊢
    have hissued := hf.issued h ((hjoined h).1 hj)
    exact hf.kept h ((hjoined h).1 hj) (hs.contains_of_access hx hissued hlive)

/-- A handle that is put in has joined. -/
theorem Faithful.put (hf : Faithful ds) (hh : h ∈ (census ds).issued) :
    Faithful (ds ++ [.put h]) := by
  have hjoined : ∀ k, Joined (ds ++ [.put h]) k ↔ k = h ∨ Joined ds k := by
    simp [joined_append_iff, eq_comm]
  refine ⟨?_, fun k hk => ?_, fun k hj => ?_, fun k hj hlive => ?_⟩
  · rw [census_append]
    exact nodup_insert hf.nodup h
  · rw [census_append] at hk
    exact (hjoined k).2 ((mem_insert.1 hk).imp_right (hf.joined k))
  · rw [census_append]
    rcases (hjoined k).1 hj with rfl | hj
    · exact hh
    · exact hf.issued k hj
  · rw [census_append] at hlive ⊢
    exact mem_insert.2 (((hjoined k).1 hj).imp_right fun hj => hf.kept k hj hlive)

/-- A handle that is taken out has not joined any more, and the others have. -/
theorem Faithful.take (hf : Faithful ds) (h : Handle kind) : Faithful (ds ++ [.take h]) := by
  have hjoined : ∀ k, Joined (ds ++ [.take h]) k ↔ k ≠ h ∧ Joined ds k := by
    simp [joined_append_iff, eq_comm]
  refine ⟨?_, fun k hk => ?_, fun k hj => ?_, fun k hj hlive => ?_⟩
  · rw [census_append]
    exact nodup_erase hf.nodup h
  · rw [census_append] at hk
    exact (hjoined k).2 (((mem_erase hf.nodup).1 hk).imp_right (hf.joined k))
  · rw [census_append]
    exact hf.issued k ((hjoined k).1 hj).2
  · rw [census_append] at hlive ⊢
    obtain ⟨hne, hj⟩ := (hjoined k).1 hj
    exact (mem_erase hf.nodup).2 ⟨hne, hf.kept k hj hlive⟩

/-- Only stale handles are forgotten. -/
theorem Faithful.prune (hf : Faithful ds) : Faithful (ds ++ [.prune]) := by
  have hjoined : ∀ h, Joined (ds ++ [.prune]) h ↔ Joined ds h := by simp [joined_append_iff]
  refine ⟨?_, fun h hh => (hjoined h).2 ?_, fun h hj => ?_, fun h hj hlive => ?_⟩
  · rw [census_append]
    exact nodup_prune hf.nodup _
  · rw [census_append] at hh
    exact hf.joined h (mem_prune.1 hh).1
  · rw [census_append]
    exact hf.issued h ((hjoined h).1 hj)
  · rw [census_append] at hlive ⊢
    exact mem_prune.2 ⟨hf.kept h ((hjoined h).1 hj) hlive, hlive⟩

/-- Every deed keeps a set faithful, as long as the accesses are few. -/
theorem faithful_of_proper (hp : Proper ds)
    (hlen : (ds.filterMap Deed.access?).length < UInt32.size) : Faithful ds := by
  induction ds using List.reverseRecOn with
  | nil => exact faithful_nil
  | append_singleton ds d ih =>
    have hsound : (census (ds ++ [d])).logged.Sound := logged_census (ds ++ [d]) ▸ sound_logged hlen
    rw [List.filterMap_append, List.length_append] at hlen
    have hlen' : (ds.filterMap Deed.access?).length < UInt32.size := by omega
    have hf := ih hp.left hlen'
    cases d with
    | access x =>
      rw [census_append] at hsound
      exact hf.access (logged_census ds ▸ sound_logged hlen') hsound
    | put h => exact hf.put hp.last
    | take h => exact hf.take h
    | prune => exact hf.prune

/-- After any deeds with fewer than `2 ^ 32` accesses among them, where only issued handles are put
into the set, it stores no handle twice. It yields, each once, the handles that have joined it and
are live, which are those issued and not taken out of the table; so it yields at most one handle of
a slot, and none whose value was ever taken out. Pruning changes nothing that is yielded and leaves
as many handles stored as are live. Taking a handle out keeps every other member. -/
theorem members_follow_deeds (ds : List (Deed kind α)) (hp : Proper ds)
    (hlen : (ds.filterMap Deed.access?).length < 2 ^ 32) :
    let c := census ds
    c.set.members.Nodup ∧
    (c.live.Nodup ∧ ∀ h, h ∈ c.live ↔ Joined ds h ∧ h ∈ c.issued ∧ h ∉ c.taken) ∧
    (∀ h, c.logged.table.contains h = true ↔ h ∈ c.issued ∧ h ∉ c.taken) ∧
    (∀ h ∈ c.live, ∀ k ∈ c.live, h.index = k.index → h = k) ∧
    (∀ before, before <+: ds → ∀ h ∈ (census before).taken, h ∉ c.live) ∧
    ((c.after .prune).live = c.live ∧ (c.after .prune).set.storedSize = c.live.length) ∧
    ∀ h k, k ∈ (c.after (.take h)).set.members ↔ k ≠ h ∧ k ∈ c.set.members := by
  intro c
  have hf : Faithful ds := faithful_of_proper hp hlen
  have hs : c.logged.Sound := logged_census ds ▸ sound_logged hlen
  have hlive : ∀ h, c.logged.table.contains h = true ↔ h ∈ c.issued ∧ h ∉ c.taken :=
    fun h => hs.contains_iff
  refine ⟨hf.nodup, ⟨hf.nodup.filter _, fun h => ?_⟩, hlive, fun h hh k hk hindex => ?_,
    fun before hb h htaken hh => ?_, ⟨live_prune _ _, rfl⟩, fun h k => mem_erase hf.nodup⟩
  · rw [← hlive, Census.live, mem_live]
    exact ⟨fun ⟨hm, hc⟩ => ⟨hf.joined h hm, hc⟩, fun ⟨hj, hc⟩ => ⟨hf.kept h hj hc, hc⟩⟩
  · obtain ⟨a, ha⟩ := SlotTable.contains_iff.1 (mem_live.1 hh).2
    obtain ⟨b, hb⟩ := SlotTable.contains_iff.1 (mem_live.1 hk).2
    exact SlotTable.eq_of_index_eq ha hb hindex
  · exact ((hlive h).1 (mem_live.1 hh).2).2 (taken_subset hb htaken)

/-- The slot of the first member is emptied and filled again. -/
def refill : List (Deed .entity Nat) :=
  [.access (.insert fun _ => 1), .access (.insert fun _ => 2), .put ⟨0, 0⟩, .put ⟨1, 0⟩,
    .access (.erase ⟨0, 0⟩), .access (.insert fun _ => 3), .put ⟨1, 0⟩]

/-- The member that has been released is still stored, until the set is pruned. -/
theorem members_follow_deeds_refill :
    Proper refill ∧ (refill.filterMap Deed.access?).length < 2 ^ 32 ∧
      (census refill).set.members = [⟨0, 0⟩, ⟨1, 0⟩] ∧ (census refill).live = [⟨1, 0⟩] ∧
      ⟨0, 0⟩ ∉ (census refill).live ∧ ((census refill).after .prune).set.storedSize = 1 := by
  have hp : Proper refill := by unfold Proper; decide
  have hlen : (refill.filterMap Deed.access?).length < 2 ^ 32 := by decide
  obtain ⟨-, -, -, -, hgone, ⟨-, hsize⟩, -⟩ := members_follow_deeds refill hp hlen
  have htaken : ⟨0, 0⟩ ∈ (census (refill.take 5)).taken := by decide
  exact ⟨hp, hlen, by decide, by decide, hgone _ (List.take_prefix 5 refill) _ htaken, hsize⟩

end HandleSet

end NameResolution
