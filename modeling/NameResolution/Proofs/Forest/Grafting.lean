import NameResolution.Proofs.Forest.Records
import NameResolution.Proofs.Forest.Support

/-!
# New nodes in a forest

A node that has just been made is in no chain but its own and has no subtypes. So it can
be put under exactly the live nodes whose chains may get longer
(`Supported.setParent_next_eq`), and the nodes that were there keep their chains (`Grown`).
-/

namespace NameResolution

namespace Forest

variable {f g u : Forest} {p x : NodeId} {m : TypeNode}

/-! ## Forests that grow -/

/-- Nodes have come, and those that were there are still there, with the same chains. -/
structure Grown (f g : Forest) : Prop where
  supported : g.Supported
  maxDepth : g.maxDepth = f.maxDepth
  contains : ∀ n, f.nodes.contains n = true → g.nodes.contains n = true
  chain : ∀ n, f.nodes.contains n = true → g.chain n = f.chain n

/-- A forest has grown from itself. -/
theorem Supported.grown_self (hf : f.Supported) : f.Grown f :=
  ⟨hf, rfl, fun _ => id, fun _ _ => rfl⟩

/-! ## Making a node -/

theorem descend_eq_nil (hx : f.nodes.contains x = true) (h : f.children x = []) :
    f.descend x = .ok [] := by
  have hlevel : f.level 1 [x] = [] := by simp [level, h]
  refine descend_eq_ok_iff.2 ⟨hx, level_size_eq_nil hx hlevel, ?_⟩
  rw [descendants]
  cases f.nodes.slots.size with
  | zero => rfl
  | succ n => simp [below_succ, h, below_nil]

section Next

variable (hw : f.nodes.WellFormed)

include hw

/-- A new node lists nothing. -/
theorem get?_insert_next (e : EntityId) :
    (f.insert e).nodes.get? f.nodes.next = some { owner := e } := by
  rw [get?_insert hw, if_pos rfl]

theorem subtreeHeight_next (e : EntityId) :
    (f.insert e).subtreeHeight f.nodes.next = .ok 1 := by
  have hget := get?_insert_next hw e
  have hchildren : (f.insert e).children f.nodes.next = [] := by
    rw [children, hget]
    rfl
  unfold subtreeHeight
  rw [descend_eq_nil (SlotTable.contains_of_get? hget) hchildren]
  rfl

/-- A new node that is put under another one lists nothing, either. -/
theorem descend_moved_next (hp : f.nodes.contains p = true) (e : EntityId)
    (ancestors : Option (List NodeId)) :
    ((f.insert e).moved f.nodes.next (some p) ancestors).descend f.nodes.next = .ok [] := by
  obtain ⟨m, hm⟩ := SlotTable.contains_iff.1 hp
  have hne : p ≠ f.nodes.next := SlotTable.ne_next hw hm
  have hget := get?_insert_next hw e
  have hparent : (f.insert e).parent? f.nodes.next = none := by rw [parent?_of_get? hget]
  refine descend_eq_nil ((contains_moved _ _ _ _ _).trans (SlotTable.contains_of_get? hget)) ?_
  rw [children_moved, hget]
  simp [movedChildren, hparent, hne, HandleSet.live]

/-- To relink a new node, no chain has to be mended. -/
theorem relinked_next (hp : f.nodes.contains p = true) (e : EntityId)
    (ancestors : Option (List NodeId)) :
    (f.insert e).relinked f.nodes.next (some p) ancestors =
      (f.insert e).moved f.nodes.next (some p) ancestors := by
  obtain ⟨-, -, hnil⟩ := descend_eq_ok_iff.1 (descend_moved_next hw hp e ancestors)
  rw [relinked, propagate, ← hnil, List.foldl_nil]

/-- To put a new node under a live one always ends. -/
theorem relink_next (hp : f.nodes.contains p = true) (e : EntityId)
    (ancestors : Option (List NodeId)) (opening : Note) :
    (f.insert e).relink f.nodes.next (some p) ancestors opening =
      .ok ⟨(f.insert e).relinked f.nodes.next (some p) ancestors, [opening]⟩ := by
  unfold relink
  rw [descend_moved_next hw hp]
  rfl

/-- A new node is put under a live one, unless the chain of that one names it already or would
get longer than the limit. -/
theorem setParent_insert_next (hm : f.nodes.get? p = some m) (e : EntityId) :
    (f.insert e).setParent f.nodes.next (some p) =
      if (f.insert e).inherits p f.nodes.next then
        .error (.failure (.cyclicInheritance e m.owner))
      else if f.maxDepth < ((f.insert e).chain p).length + 1 then
        .error (.failure (.chainTooLong (((f.insert e).chain p).length + 1) f.maxDepth))
      else .ok (some ⟨(f.insert e).relinked f.nodes.next (some p)
        (some ((f.insert e).chain p ++ [f.nodes.next])),
          [.relinking f.nodes.next none (some p)]⟩) := by
  have hget := get?_insert_next hw e
  have hpget : (f.insert e).nodes.get? p = some m := by
    rw [get?_insert hw, if_neg (SlotTable.ne_next hw hm), hm]
  have hmax : (f.insert e).maxDepth = f.maxDepth := rfl
  unfold setParent
  rw [node_eq_ok_iff.2 hget]
  simp only [isA_eq_ok_of_contains (SlotTable.contains_of_get? hpget)
      (SlotTable.contains_of_get? hget), owner_eq_ok hpget, subtreeHeight_next hw,
    relink_next hw (SlotTable.contains_of_get? hm), bind, Except.bind, pure, Except.pure, throw,
    throwThe, MonadExceptOf.throw, hmax, gt_iff_lt]
  simp

/-- Putting a new node under a live one is granted or refused. -/
theorem setParent_next_ne_fault (hp : f.nodes.contains p = true) {e : EntityId} {stop : Stop}
    (h : (f.insert e).setParent f.nodes.next (some p) = .error stop) :
    ∃ failure, stop = .failure failure := by
  obtain ⟨m, hm⟩ := SlotTable.contains_iff.1 hp
  rw [setParent_insert_next hw hm] at h
  split_ifs at h
  · cases h
    exact ⟨_, rfl⟩
  · cases h
    exact ⟨_, rfl⟩

end Next

namespace Supported

variable (hf : f.Supported)

include hf

theorem inherits_next (hp : f.nodes.contains p = true) (e : EntityId) :
    (f.insert e).inherits p f.nodes.next = false := by
  rw [Bool.eq_false_iff]
  intro h
  unfold inherits at h
  rw [beq_iff_eq, hf.chain_insert hp] at h
  exact hf.next_notMem_chain hp (List.mem_of_getElem? h)

/-! ## Putting it under another one -/

/-- A new node is put under a live one, unless the chain would get longer than the limit. -/
theorem setParent_next_eq (hp : f.nodes.contains p = true) (e : EntityId) :
    (f.insert e).setParent f.nodes.next (some p) =
      if f.maxDepth < (f.chain p).length + 1 then
        .error (.failure (.chainTooLong ((f.chain p).length + 1) f.maxDepth))
      else .ok (some ⟨(f.insert e).relinked f.nodes.next (some p)
        (some (f.chain p ++ [f.nodes.next])), [.relinking f.nodes.next none (some p)]⟩) := by
  obtain ⟨m, hm⟩ := SlotTable.contains_iff.1 hp
  rw [setParent_insert_next hf.wellFormed hm, if_neg (by rw [hf.inherits_next hp]; exact nofun),
    hf.chain_insert hp]

theorem grown_insert (e : EntityId) : f.Grown (f.insert e) :=
  ⟨hf.insert e, rfl, fun _ hn => (hf.contains_insert e).2 (Or.inr hn),
    fun _ hn => hf.chain_insert hn e⟩

/-- A new node that is released again leaves the others as they were. -/
theorem grown_erase_insert (e : EntityId) : f.Grown ((f.insert e).erase f.nodes.next) := by
  have hg := hf.grown_insert e
  have hget (n : NodeId) (hn : f.nodes.contains n = true) :
      ((f.insert e).erase f.nodes.next).nodes.get? n = (f.insert e).nodes.get? n := by
    unfold Forest.erase
    split_ifs
    · exact (SlotTable.get?_erase _ _).trans (if_neg (hf.ne_next hn))
    · rfl
  refine ⟨hg.supported.erase _, ?_, fun n hn => ?_, fun n hn => ?_⟩
  · unfold Forest.erase
    split_ifs <;> rfl
  · rw [SlotTable.contains, hget n hn]
    exact hg.contains n hn
  · rw [Forest.chain, hget n hn]
    exact hg.chain n hn

/-- A new node can be put under a live node whose chain may get longer. -/
theorem setParent_next (hp : f.nodes.contains p = true)
    (hlen : (f.chain p).length < f.maxDepth) (e : EntityId) :
    ∃ change, (f.insert e).setParent f.nodes.next (some p) = .ok (some change) ∧
      f.Grown change.forest := by
  have hchange := hf.setParent_next_eq hp e
  rw [if_neg (not_lt.2 hlen)] at hchange
  refine ⟨_, hchange, (hf.insert e).setParent hchange, ?_, fun n hn => ?_, fun n hn => ?_⟩
  · exact (reworked_relinked (f.insert e) _ _ _).maxDepth
  · rw [contains_relinked]
    exact (hf.contains_insert e).2 (Or.inr hn)
  · rw [relinked_next hf.wellFormed hp, chain_moved_of_ne (hf.ne_next hn), hf.chain_insert hn]

/-- It can be put under such a node only. -/
theorem of_setParent_next {e : EntityId} {change : Option Change}
    (h : (f.insert e).setParent f.nodes.next (some p) = .ok change) :
    f.nodes.contains p = true ∧ (f.chain p).length < f.maxDepth := by
  have hp : f.nodes.contains p = true := by
    cases change with
    | none =>
      have hparent := setParent_eq_none h
      rw [parent?_of_get? (get?_insert_next hf.wellFormed e)] at hparent
      cases hparent
    | some change =>
      obtain ⟨hnone, -⟩ | ⟨q, -, ⟨⟩, hq, hi, -⟩ := setParent_eq_some h
      · cases hnone
      refine ((hf.contains_insert e).1 hq).resolve_left ?_
      rintro rfl
      have hchain : (f.insert e).chain f.nodes.next = [f.nodes.next] := by
        rw [chain_of_get? (get?_insert_next hf.wellFormed e)]
        rfl
      simp [inherits, hchain] at hi
  refine ⟨hp, ?_⟩
  rw [hf.setParent_next_eq hp e] at h
  split_ifs at h with hlen
  exact Nat.lt_of_not_le fun hle => hlen (Nat.lt_succ_of_le hle)

end Supported

end Forest

end NameResolution
