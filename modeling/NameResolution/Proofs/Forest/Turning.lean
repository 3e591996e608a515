import NameResolution.Proofs.Forest.Flattening
import NameResolution.Proofs.Turning

/-!
# Forests whose handles come round

To create a node and to release it is a round of requests (`rounds`), which leaves nothing but a
slot that has been emptied once more (`foldl_rounds`). So `2 ^ 32` releases of one slot give out the
handle of a released subtype again, and the list of children that still has it names a node which is
no subtype (`changeling`). What is proved of chains and of walks under `Unwrapped` is tried there.
-/

namespace NameResolution

namespace Forest

variable {f : Forest}

/-- Rounds of creating a node and releasing it. -/
def rounds (f : Forest) (owner : EntityId) (n : Nat) : List Request :=
  (List.range n).flatMap fun k => [.create owner, .release (f.nodes.turned k).next]

/-- A round empties the slot that is filled next once more. -/
theorem serve_round (hw : f.nodes.WellFormed) (hfree : f.nodes.free ≠ []) (owner : EntityId) :
    (f.serve (.create owner)).serve (.release f.nodes.next) =
      { f with nodes := f.nodes.turned 1 } := by
  have hn : (f.insert owner).nodes.get? f.nodes.next = some { owner } :=
    (get?_insert hw owner _).trans (if_pos rfl)
  have hr : (f.insert owner).isReleasable f.nodes.next = true := by
    rw [isReleasable, SlotTable.contains_of_get? hn, children, hn]
    rfl
  calc (f.serve (.create owner)).serve (.release f.nodes.next)
      = (f.insert owner).erase f.nodes.next := rfl
    _ = { f with nodes := (f.nodes.insert { owner }).erase f.nodes.next } := if_pos hr
    _ = { f with nodes := f.nodes.turned 1 } := by
        rw [SlotTable.erase_insert_next hw hfree]

/-- So many rounds empty it so many times more. -/
theorem foldl_rounds (hw : f.nodes.WellFormed) (hfree : f.nodes.free ≠ []) (owner : EntityId)
    (n : Nat) :
    (f.rounds owner n).foldl serve f = { f with nodes := f.nodes.turned n } := by
  induction n with
  | zero => simp [rounds]
  | succ n ih =>
    have hround := serve_round (f := { f with nodes := f.nodes.turned n }) (hw.turned n)
      (by rwa [SlotTable.free_turned]) owner
    rw [rounds, List.range_succ, List.flatMap_append, List.foldl_append, ← rounds, ih,
      List.flatMap_singleton, List.foldl_cons, List.foldl_cons, List.foldl_nil, hround,
      SlotTable.turned_turned]

/-! ## A changeling -/

/-- A root, a subtype of it, and a subtype of that one, which is released. -/
def planted : List Request :=
  [.create ⟨1, 0⟩, .create ⟨2, 0⟩, .create ⟨3, 0⟩, .setParent ⟨1, 0⟩ (some ⟨0, 0⟩),
    .setParent ⟨2, 0⟩ (some ⟨1, 0⟩), .release ⟨2, 0⟩]

/-- The handle of the released node comes round, and a node without a parent is created at it. -/
def changeling : List Request :=
  planted ++ (planted.foldl serve { maxDepth := 8 }).rounds ⟨4, 0⟩ (UInt32.size - 1) ++
    [.create ⟨4, 0⟩]

/-- The root and its subtype are as they were, so the subtype still lists the handle of the node
that is new. -/
theorem foldl_changeling : changeling.foldl serve { maxDepth := 8 } =
    { nodes :=
        { slots := #[⟨some ⟨⟨1, 0⟩, none, none, ⟨[⟨1, 0⟩]⟩⟩, 0⟩,
            ⟨some ⟨⟨2, 0⟩, some ⟨0, 0⟩, some [⟨0, 0⟩, ⟨1, 0⟩], ⟨[⟨2, 0⟩]⟩⟩, 0⟩,
            ⟨some ⟨⟨4, 0⟩, none, none, {}⟩, UInt32.size⟩]
          free := []
          size := 3 }
      maxDepth := 8 } := by
  have hw := wellFormed_foldl_serve (f := { maxDepth := 8 }) SlotTable.wellFormed_empty planted
  rw [changeling, List.foldl_append, List.foldl_append, foldl_rounds hw (by decide)]
  rfl

end Forest

end NameResolution
