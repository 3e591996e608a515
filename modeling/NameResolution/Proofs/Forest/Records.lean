import NameResolution.Proofs.Entries
import NameResolution.Proofs.Forest.Flattening

/-!
# What relinking leaves of a node

Relinking gives nodes new chains, one node a new parent, and moves that node from one list
of children to another. The entity of every node stays (`owner_relinked`), and so do the
children of every node that is neither the old nor the new parent (`children_relinked`). A node
whose request is not refused has the parent that was asked for, and the others have theirs
(`parent?_of_setParent`). This holds of every forest, flattened or not.

In a flattened forest the walk below a node ends, and no chain below it is shorter than its own.
So a request about live nodes is granted or refused, and never a fault
(`Flattened.setParent_ne_fault`, `Flattened.clearParent_ne_fault`).
-/

namespace NameResolution

namespace Forest

variable {f g : Forest} {id p x : NodeId} {n : TypeNode} {parent : Option NodeId}
  {ancestors : Option (List NodeId)}

/-! ## What stays -/

/-- Relinking leaves the owners of the nodes alone. -/
theorem owner_relinked (f : Forest) (id : NodeId) (parent : Option NodeId)
    (ancestors : Option (List NodeId)) (x : NodeId) :
    ((f.relinked id parent ancestors).nodes.get? x).map TypeNode.owner =
      (f.nodes.get? x).map TypeNode.owner := by
  rw [map_get?_relinked fun _ _ => rfl, get?_moved, Option.map_map]
  rfl

/-- The node has its new parent then, and every other node has its own. -/
theorem Relinks.parent?_eq (h : f.Relinks id parent ancestors g) (x : NodeId) :
    g.parent? x = if x = id then parent else f.parent? x := by
  rw [h.forest_eq, parent?_relinked h.contains]

/-- Unless it is refused, a node has the parent that was asked for, and no other node is moved. -/
theorem parent?_of_setParent {change : Option Change} (h : f.setParent id parent = .ok change)
    (x : NodeId) : ((change.map Change.forest).getD f).parent? x =
      if x = id then parent else f.parent? x := by
  cases change with
  | none =>
    have hsame : f.parent? id = parent := setParent_eq_none h
    split_ifs with hx
    · exact hx ▸ hsame
    · rfl
  | some change =>
    obtain ⟨rfl, hr⟩ | ⟨p, -, rfl, -, -, -, -, hr⟩ := setParent_eq_some h
    · exact hr.parent?_eq x
    · exact hr.parent?_eq x

/-- Taking a parent back answers with a forest in which the node has none. -/
theorem parent?_of_clearParent {change : Option Change} (h : f.clearParent id = .ok change)
    (x : NodeId) : ((change.map Change.forest).getD f).parent? x =
      if x = id then none else f.parent? x := by
  cases change with
  | none =>
    have hsame : f.parent? id = none := clearParent_eq_none h
    split_ifs with hx
    · exact hx ▸ hsame
    · rfl
  | some change =>
    exact (clearParent_eq_some h).parent?_eq x

theorem counted_foldl_extendUnder (hc : f.nodes.Counted) (id : NodeId) (l : List NodeId) :
    (l.foldl (extendUnder id) f).nodes.Counted := by
  induction l generalizing f with
  | nil => exact hc
  | cons d l ih => exact ih (hc.modify d _)

/-- Relinking leaves the size alone. -/
theorem counted_relinked (hc : f.nodes.Counted) (id : NodeId) (parent : Option NodeId)
    (ancestors : Option (List NodeId)) : (f.relinked id parent ancestors).nodes.Counted := by
  have hmove : (f.move id parent).nodes.Counted := by
    unfold move
    dsimp only
    refine SlotTable.Counted.modify ?_ id _
    split
    · refine SlotTable.Counted.modify ?_ _ _
      split
      · exact hc.modify _ _
      · exact hc
    · split
      · exact hc.modify _ _
      · exact hc
  exact counted_foldl_extendUnder (hmove.modify id _) id _

/-- The lists of children are those of the moved node's forest. -/
theorem children_relinked_eq (f : Forest) (id : NodeId) (parent : Option NodeId)
    (ancestors : Option (List NodeId)) :
    (f.relinked id parent ancestors).children = (f.moved id parent ancestors).children :=
  funext ((keepsChildren_extendUnder id).foldl _ _)

/-- The children of a node stay unless the relinked node comes to it or leaves it. -/
theorem children_relinked (hold : f.parent? id ≠ some x) (hnew : parent ≠ some x)
    (ancestors : Option (List NodeId)) :
    (f.relinked id parent ancestors).children x = f.children x := by
  rw [children_relinked_eq, children_moved, children]
  cases f.nodes.get? x with
  | none => rfl
  | some n => simp [movedChildren, hold, hnew]

/-! ## Requests about live nodes -/

/-- A question about live nodes is answered by their chains. -/
theorem isA_eq_ok_of_contains (hid : f.nodes.contains id = true)
    (hx : f.nodes.contains x = true) : f.isA id x = .ok (f.inherits id x) := by
  obtain ⟨n, hn⟩ := SlotTable.contains_iff.1 hid
  obtain ⟨m, hm⟩ := SlotTable.contains_iff.1 hx
  unfold isA
  rw [node_eq_ok_iff.2 hn, node_eq_ok_iff.2 hm]
  rfl

theorem owner_eq_ok (hx : f.nodes.get? x = some n) : f.owner x = .ok n.owner := by
  unfold owner
  rw [node_eq_ok_iff.2 hx]
  rfl

/-- Where every answer is there, the list of them is. -/
theorem mapM_eq_ok {α β : Type} {F : α → Except Stop β} {G : α → β} {l : List α}
    (h : ∀ x ∈ l, F x = .ok (G x)) : l.mapM F = .ok (l.map G) := by
  induction l with
  | nil => rfl
  | cons x l ih =>
    obtain ⟨hx, hl⟩ := List.forall_mem_cons.1 h
    rw [List.mapM_cons, hx, ih hl]
    rfl

/-- Levels follow the lists of children alone. -/
theorem level_congr (h : f.children = g.children) (k : Nat) (l : List NodeId) :
    f.level k l = g.level k l := by
  induction k generalizing l with
  | zero => rfl
  | succ k ih => rw [level, level, h, ih]

/-- The number of nodes on the longest path from a node down to a live descendant. -/
def height (f : Forest) (id : NodeId) : Nat :=
  ((f.descendants id).map fun d => (f.chain d).length - (f.chain id).length).foldl max 0 + 1

namespace Flattened

variable (hf : f.Flattened)

include hf

/-- No chain below a node is shorter than its own. -/
theorem subtreeHeight_eq (hid : f.nodes.contains id = true) :
    f.subtreeHeight id = .ok (f.height id) := by
  have hsteps : (f.descendants id).mapM (fun d =>
      if (f.chain id).length ≤ (f.chain d).length then
        Except.ok ((f.chain d).length - (f.chain id).length)
      else Except.error (Stop.fault .underflow)) =
      .ok ((f.descendants id).map fun d => (f.chain d).length - (f.chain id).length) := by
    refine mapM_eq_ok fun d hd => if_pos ?_
    obtain ⟨-, hmem, -⟩ := (hf.mem_descendants_iff hid).1 hd
    exact (hf.chain_prefix_of_mem hmem).length_le
  unfold subtreeHeight
  rw [hf.descend_eq hid]
  dsimp only [bind, Except.bind]
  rw [hsteps]
  rfl

section Relink

variable (hid : f.nodes.contains id = true) (hadm : f.Admits id parent)
  (hsome : ∀ p, parent = some p → ancestors = some (f.chain p ++ [id]))
  (hnone : parent = none → ancestors = none ∨ ancestors = some [id])

include hid hadm hsome hnone

/-- The walk below a node that has been moved ends : the lists are those of a flattened forest. -/
theorem exists_descend_moved :
    ∃ below, (f.moved id parent ancestors).descend id = .ok below := by
  have hchildren := children_relinked_eq f id parent ancestors
  have hrel := hf.relinked hid hadm hsome hnone
  have hends := hrel.level_eq_nil ((contains_relinked f id parent ancestors id).trans hid) le_rfl
  rw [level_congr hchildren, (reworked_relinked f id parent ancestors).size,
    ← (reworked_moved f id parent ancestors).size] at hends
  exact ⟨_, descend_eq_ok_iff.2 ⟨(contains_moved f id parent ancestors id).trans hid, hends, rfl⟩⟩

/-- Relinking is carried out. -/
theorem exists_relink_eq (opening : Note) :
    ∃ change, f.relink id parent ancestors opening = .ok change ∧
      change.forest = f.relinked id parent ancestors := by
  obtain ⟨below, hbelow⟩ := hf.exists_descend_moved hid hadm hsome hnone
  unfold relink
  rw [hbelow]
  exact ⟨_, rfl, rfl⟩

end Relink

/-- A node is made a root. -/
theorem exists_relink_none (hid : f.nodes.contains id = true)
    (hroot : ancestors = none ∨ ancestors = some [id]) (opening : Note) :
    ∃ change, f.relink id none ancestors opening = .ok change ∧
      change.forest = f.relinked id none ancestors := by
  refine hf.exists_relink_eq hid ?_ ?_ (fun _ => hroot) opening
  · nofun
  · nofun

/-- A node is put under one that is not below it. -/
theorem exists_relink_some (hid : f.nodes.contains id = true) (hp : f.nodes.contains p = true)
    (hi : f.inherits p id = false) (opening : Note) :
    ∃ change, f.relink id (some p) (some (f.chain p ++ [id])) opening = .ok change ∧
      change.forest = f.relinked id (some p) (some (f.chain p ++ [id])) := by
  refine hf.exists_relink_eq hid (hf.admits_of_inherits hp hi) ?_ nofun opening
  rintro _ ⟨⟩
  rfl

/-- Linking a live node under a live one is granted, without effect, or refused. -/
theorem setParent_ne_fault (hid : f.nodes.contains id = true)
    (hp : ∀ p, parent = some p → f.nodes.contains p = true) {stop : Stop}
    (h : f.setParent id parent = .error stop) : ∃ failure, stop = .failure failure := by
  obtain ⟨n, hn⟩ := SlotTable.contains_iff.1 hid
  unfold Forest.setParent at h
  simp only [node_eq_ok_iff.2 hn, bind, Except.bind] at h
  split_ifs at h
  · cases h
  · cases parent with
    | none =>
      obtain ⟨change, hchange, -⟩ :=
        hf.exists_relink_none hid (Or.inr rfl) (.relinking id n.parent none)
      simp only [hchange] at h
      cases h
    | some p =>
      obtain ⟨m, hm⟩ := SlotTable.contains_iff.1 (hp p rfl)
      simp only [isA_eq_ok_of_contains (hp p rfl) hid, owner_eq_ok hm, hf.subtreeHeight_eq hid,
        throw, throwThe, MonadExceptOf.throw, pure, Except.pure] at h
      split_ifs at h with hi hlen
      · cases h
        exact ⟨_, rfl⟩
      · cases h
        exact ⟨_, rfl⟩
      · obtain ⟨change, hchange, -⟩ := hf.exists_relink_some hid (hp p rfl)
          (Bool.eq_false_iff.2 hi) (.relinking id n.parent (some p))
        simp only [hchange] at h
        cases h

/-- Taking back the supertype of a live node is not refused. -/
theorem clearParent_ne_fault (hid : f.nodes.contains id = true) {stop : Stop} :
    f.clearParent id ≠ .error stop := by
  obtain ⟨n, hn⟩ := SlotTable.contains_iff.1 hid
  obtain ⟨change, hchange, -⟩ := hf.exists_relink_none hid (Or.inl rfl) (.clearing id)
  unfold Forest.clearParent
  simp only [node_eq_ok_iff.2 hn, hchange, bind, Except.bind]
  split_ifs <;> simp [pure, Except.pure]

end Flattened

end Forest

end NameResolution
