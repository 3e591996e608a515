import Mathlib.Data.Nat.PSub
import NameResolution.Proofs.Forest.Records
import NameResolution.Proofs.Forest.Turning

/-!
# Questions about inheritance

Whether a type inherits from another one, how far it is below it, and which type two of
them have in common is read off the chains, without following a link. In a threaded
forest the answers are those of the links. The node `k` links above a node (`ascend`) is
the one that stands in its chain `k` places before the end (`ascend_iff`), so a distance
counts links. The last node that two chains begin with is below all others that both nodes
inherit from (`getLast?_commonPath_eq_some_iff_nearest`).

The questions are also answered cell by cell, where reading beyond the end of a chain and
taking away more than there is have no result (`inheritsByCell`, `distanceByCell`,
`commonByCell`). There is a result always, and it is the same.

`queries_follow_links` says all of this of every forest that requests grow, as long as no
handle has come round. After that a chain can say more than the links
(`changeling_inherits_unlinked`).
-/

namespace NameResolution

namespace Forest

variable {f : Forest} {a b c id p x : NodeId} {i k n : Nat} {l l' m : List NodeId}

/-! ## Following links -/

/-- The node so many parent links above a node. -/
def ascend (f : Forest) : Nat → NodeId → Option NodeId
  | 0, id => some id
  | k + 1, id => (f.parent? id).bind (f.ascend k)

/-- A node stands in the chains of those below it, as many places before the end as there
are links between them. -/
theorem Threaded.ascend_iff (hf : f.Threaded) :
    f.ascend k id = some x ↔
      x ∈ f.chain id ∧ (f.chain id).length = (f.chain x).length + k := by
  induction k generalizing id with
  | zero =>
    rw [ascend, Option.some.injEq]
    constructor
    · rintro rfl
      exact ⟨hf.mem_chain_self id, rfl⟩
    · rintro ⟨hx, hlen⟩
      refine (hf.eq_of_mem_chain hx ?_).symm
      rw [(hf.chain_prefix_of_mem hx).eq_of_length hlen.symm]
      exact hf.mem_chain_self id
  | succ k ih =>
    rw [ascend]
    cases hp : f.parent? id with
    | none =>
      rw [hf.chain_of_parent?_eq_none hp, List.mem_singleton]
      refine ⟨nofun, ?_⟩
      rintro ⟨rfl, hlen⟩
      rw [hf.chain_of_parent?_eq_none hp] at hlen
      omega
    | some p =>
      rw [Option.bind_some, ih, hf.mem_chain_of_parent? hp, hf.chain_of_parent? hp,
        List.length_append, List.length_singleton]
      constructor
      · rintro ⟨hx, hlen⟩
        exact ⟨Or.inl hx, by omega⟩
      · rintro ⟨hx | rfl, hlen⟩
        · exact ⟨hx, by omega⟩
        · rw [hf.chain_of_parent? hp, List.length_append, List.length_singleton] at hlen
          omega

/-- Read from its end, a chain follows the links up. -/
theorem Threaded.getElem?_reverse_chain (hf : f.Threaded) (k : Nat) (id : NodeId) :
    (f.chain id).reverse[k]? = f.ascend k id := by
  induction k generalizing id with
  | zero =>
    obtain ⟨l, hl⟩ := hf.chain_eq_append id
    simp [hl, ascend]
  | succ k ih =>
    rw [ascend]
    cases hp : f.parent? id with
    | none => simp [hf.chain_of_parent?_eq_none hp]
    | some p => simp [hf.chain_of_parent? hp, ih]

/-! ## The common beginning of two chains -/

/-- The common beginning is a beginning of the first path. -/
theorem commonPath_prefix_left : List.IsPrefix (commonPath l l') l := by
  fun_induction commonPath l l' with
  | case1 as x bs ih => exact (List.prefix_cons_inj x).2 ih
  | case2 => exact List.nil_prefix
  | case3 => exact List.nil_prefix

/-- The common beginning is a beginning of the second path. -/
theorem commonPath_prefix_right : List.IsPrefix (commonPath l l') l' := by
  fun_induction commonPath l l' with
  | case1 as x bs ih => exact (List.prefix_cons_inj x).2 ih
  | case2 => exact List.nil_prefix
  | case3 => exact List.nil_prefix

/-- What is a beginning of both paths is a beginning of the common one. -/
theorem prefix_commonPath (h : List.IsPrefix m l) (h' : List.IsPrefix m l') :
    List.IsPrefix m (commonPath l l') := by
  induction m generalizing l l' with
  | nil => exact List.nil_prefix
  | cons x m ih =>
    obtain ⟨r, rfl⟩ := h
    obtain ⟨r', rfl⟩ := h'
    simp only [List.cons_append, commonPath, if_true]
    exact (List.prefix_cons_inj x).2 (ih (List.prefix_append _ _) (List.prefix_append _ _))

namespace Threaded

variable (hf : f.Threaded)

include hf

/-- A beginning of a chain is the chain of its last node. -/
theorem chain_of_prefix (h : List.IsPrefix (l ++ [c]) (f.chain id)) : f.chain c = l ++ [c] := by
  induction id using hf.parent_induction generalizing l with
  | root id hp =>
    have hchain := hf.chain_of_parent?_eq_none hp
    have hc : c = id := by simpa [hchain] using h.subset (List.mem_append_right l (by simp))
    subst hc
    rw [hchain] at h ⊢
    exact (h.eq_of_length_le (by simp)).symm
  | child id p hp ih =>
    rw [hf.chain_of_parent? hp, List.prefix_concat_iff] at h
    rcases h with heq | h
    · obtain ⟨rfl, hc⟩ := List.append_inj' heq rfl
      rw [List.singleton_inj] at hc
      rw [hc, hf.chain_of_parent? hp]
    · exact ih h

/-- The nodes that two chains have in common are those of their common beginning. -/
theorem mem_commonPath_iff :
    x ∈ commonPath (f.chain a) (f.chain b) ↔ x ∈ f.chain a ∧ x ∈ f.chain b := by
  constructor
  · intro hx
    exact ⟨commonPath_prefix_left.subset hx, commonPath_prefix_right.subset hx⟩
  · rintro ⟨ha, hb⟩
    have h := prefix_commonPath (hf.chain_prefix_of_mem ha) (hf.chain_prefix_of_mem hb)
    exact h.subset (hf.mem_chain_self x)

/-- The common beginning ends with a node if it is the chain of that node. -/
theorem getLast?_commonPath_eq_some_iff :
    (commonPath (f.chain a) (f.chain b)).getLast? = some c ↔
      commonPath (f.chain a) (f.chain b) = f.chain c := by
  constructor
  · intro h
    obtain ⟨l, hl⟩ := List.getLast?_eq_some_iff.1 h
    have hprefix : List.IsPrefix (l ++ [c]) (f.chain a) := hl ▸ commonPath_prefix_left
    rw [hl, hf.chain_of_prefix hprefix]
  · intro h
    obtain ⟨l, hl⟩ := hf.chain_eq_append c
    rw [h, hl, List.getLast?_concat]

/-- The last node of the common beginning is the one that inherits from all others that
both nodes inherit from. -/
theorem getLast?_commonPath_eq_some_iff_nearest :
    (commonPath (f.chain a) (f.chain b)).getLast? = some c ↔
      c ∈ f.chain a ∧ c ∈ f.chain b ∧ ∀ d, d ∈ f.chain a → d ∈ f.chain b → d ∈ f.chain c := by
  rw [hf.getLast?_commonPath_eq_some_iff]
  constructor
  · intro h
    obtain ⟨ha, hb⟩ := hf.mem_commonPath_iff.1 (h.symm ▸ hf.mem_chain_self c)
    exact ⟨ha, hb, fun d hda hdb => h ▸ hf.mem_commonPath_iff.2 ⟨hda, hdb⟩⟩
  · rintro ⟨ha, hb, hnear⟩
    have hc := hf.mem_commonPath_iff.2 ⟨ha, hb⟩
    obtain ⟨e, he⟩ := Option.ne_none_iff_exists'.1
      (mt List.getLast?_eq_none_iff.1 (List.ne_nil_of_mem hc))
    have hchain := hf.getLast?_commonPath_eq_some_iff.1 he
    obtain ⟨hea, heb⟩ := hf.mem_commonPath_iff.1 (List.mem_of_getLast? he)
    rw [hchain] at hc ⊢
    rw [hf.eq_of_mem_chain hc (hnear e hea heb)]

/-- Two chains have no common beginning if they have no node in common. -/
theorem getLast?_commonPath_eq_none_iff :
    (commonPath (f.chain a) (f.chain b)).getLast? = none ↔
      ∀ d, d ∈ f.chain a → d ∉ f.chain b := by
  rw [List.getLast?_eq_none_iff, List.eq_nil_iff_forall_not_mem]
  simp only [hf.mem_commonPath_iff, not_and]

end Threaded

/-! ## Answers about live nodes -/

theorem isA_eq_ok_true_iff :
    f.isA a b = .ok true ↔
      f.nodes.contains a = true ∧ f.nodes.contains b = true ∧ f.inherits a b = true := by
  refine ⟨isA_eq_ok, ?_⟩
  rintro ⟨ha, hb, h⟩
  rw [isA_eq_ok_of_contains ha hb, h]

/-- The distance of live nodes is the difference of the lengths of their chains. -/
theorem distance_eq_ok (ha : f.nodes.contains a = true) (hb : f.nodes.contains b = true) :
    f.distance a b =
      .ok (if f.inherits a b then some ((f.chain a).length - (f.chain b).length) else none) := by
  unfold distance
  rw [isA_eq_ok_of_contains ha hb]
  cases f.inherits a b <;> rfl

/-- There is no distance unless one node inherits from the other. -/
theorem distance_eq_none_iff (ha : f.nodes.contains a = true) (hb : f.nodes.contains b = true) :
    f.distance a b = .ok none ↔ f.isA a b = .ok false := by
  rw [distance_eq_ok ha hb, isA_eq_ok_of_contains ha hb]
  cases f.inherits a b <;> simp

/-- There is a distance exactly if one node inherits from the other. -/
theorem exists_distance_iff : (∃ k, f.distance a b = .ok (some k)) ↔ f.isA a b = .ok true := by
  unfold distance
  cases f.isA a b with
  | error stop => simp [bind, Except.bind]
  | ok r => cases r <;> simp [bind, Except.bind, pure, Except.pure]

theorem contains_of_distance {o : Option Nat} (h : f.distance a b = .ok o) :
    f.nodes.contains a = true ∧ f.nodes.contains b = true := by
  unfold distance at h
  cases hr : f.isA a b with
  | error stop => simp [hr, bind, Except.bind] at h
  | ok r => exact ⟨(isA_eq_ok hr).1, (isA_eq_ok hr).2.1⟩

/-- The common ancestor of live nodes is the last node of what their chains have in common. -/
theorem commonAncestor_eq_ok (ha : f.nodes.contains a = true) (hb : f.nodes.contains b = true) :
    f.commonAncestor a b = .ok (commonPath (f.chain a) (f.chain b)).getLast? := by
  obtain ⟨n, hn⟩ := SlotTable.contains_iff.1 ha
  obtain ⟨m, hm⟩ := SlotTable.contains_iff.1 hb
  unfold commonAncestor
  rw [node_eq_ok_iff.2 hn, node_eq_ok_iff.2 hm]
  rfl

namespace Threaded

variable (hf : f.Threaded)

include hf

/-- A live node inherits from a node if that one stands in its chain; it is then live, too. -/
theorem isA_iff (ha : f.nodes.contains a = true) : f.isA a b = .ok true ↔ b ∈ f.chain a := by
  rw [isA_eq_ok_true_iff, hf.inherits_iff]
  exact ⟨fun h => h.2.2, fun h => ⟨ha, hf.contains_of_mem_chain ha h, h⟩⟩

/-- The distance counts the links between two nodes. -/
theorem distance_eq_some_iff (ha : f.nodes.contains a = true) (hb : f.nodes.contains b = true) :
    f.distance a b = .ok (some k) ↔ f.ascend k a = some b := by
  rw [distance_eq_ok ha hb, hf.ascend_iff, ← hf.inherits_iff]
  cases h : f.inherits a b with
  | false => simp
  | true =>
    have hle := (hf.chain_prefix_of_mem (hf.inherits_iff.1 h)).length_le
    simp only [if_true, Except.ok.injEq, Option.some.injEq, true_and]
    omega

/-- Distances along a chain add up. -/
theorem distance_add (hab : f.distance a b = .ok (some k))
    (hbc : f.distance b c = .ok (some n)) : f.distance a c = .ok (some (k + n)) := by
  obtain ⟨ha, hb⟩ := contains_of_distance hab
  obtain ⟨-, hc⟩ := contains_of_distance hbc
  rw [hf.distance_eq_some_iff ha hb, hf.ascend_iff] at hab
  rw [hf.distance_eq_some_iff hb hc, hf.ascend_iff] at hbc
  rw [hf.distance_eq_some_iff ha hc, hf.ascend_iff]
  exact ⟨hf.mem_chain_trans hbc.1 hab.1, by omega⟩

/-- The common ancestor is below all others. -/
theorem commonAncestor_eq_some_iff (ha : f.nodes.contains a = true)
    (hb : f.nodes.contains b = true) :
    f.commonAncestor a b = .ok (some c) ↔
      f.isA a c = .ok true ∧ f.isA b c = .ok true ∧
        ∀ d, f.isA a d = .ok true → f.isA b d = .ok true → f.isA c d = .ok true := by
  rw [commonAncestor_eq_ok ha hb, Except.ok.injEq, hf.getLast?_commonPath_eq_some_iff_nearest]
  simp only [hf.isA_iff ha, hf.isA_iff hb]
  refine and_congr_right fun hc => and_congr_right fun _ => ?_
  simp only [hf.isA_iff (hf.contains_of_mem_chain ha hc)]

/-- There is no common ancestor just in case no node is above both. -/
theorem commonAncestor_eq_none_iff (ha : f.nodes.contains a = true)
    (hb : f.nodes.contains b = true) :
    f.commonAncestor a b = .ok none ↔
      ¬∃ d, f.isA a d = .ok true ∧ f.isA b d = .ok true := by
  rw [commonAncestor_eq_ok ha hb, Except.ok.injEq, hf.getLast?_commonPath_eq_none_iff]
  simp only [hf.isA_iff ha, hf.isA_iff hb, not_exists, not_and]

end Threaded

/-! ## Reading chains cell by cell -/

/-- The cell of a chain at an index. A node without a chain is all there is in it. -/
def cell? (f : Forest) (id : NodeId) (i : Nat) : Option NodeId :=
  match (f.nodes.get? id).bind TypeNode.ancestors with
  | some l => l[i]?
  | none => some id

/-- Whether a node inherits from another one, from one cell of its chain. -/
def inheritsByCell (f : Forest) (id other : NodeId) : Option Bool := do
  if (f.chain other).length ≤ (f.chain id).length then
    let last ← Nat.psub (f.chain other).length 1
    return (← f.cell? id last) == other
  else return false

/-- The number of steps from a node up to another one, as a difference of lengths. -/
def distanceByCell (f : Forest) (id other : NodeId) : Option (Option Nat) := do
  if ← f.inheritsByCell id other then
    return some (← Nat.psub (f.chain id).length (f.chain other).length)
  else return none

/-- The last of so many pairs of cells, from an index on, up to which two chains agree. -/
def commonCells (f : Forest) (a b : NodeId) : Nat → Nat → Option NodeId → Option (Option NodeId)
  | 0, _, common => some common
  | n + 1, i, common => do
    let x ← f.cell? a i
    let y ← f.cell? b i
    if x = y then commonCells f a b n (i + 1) (some x) else return common

/-- The nearest node that both inherit from, comparing cells from the root on. -/
def commonByCell (f : Forest) (a b : NodeId) : Option (Option NodeId) :=
  f.commonCells a b (min (f.chain a).length (f.chain b).length) 0 none

/-- Within its length, the cells of a chain are there. -/
theorem cell?_eq (hi : i < (f.chain id).length) : f.cell? id i = (f.chain id)[i]? := by
  unfold cell? chain at *
  cases h : (f.nodes.get? id).bind TypeNode.ancestors with
  | none =>
    rw [h] at hi
    obtain rfl : i = 0 := by simpa using hi
    rfl
  | some l => rfl

/-- The pairs of cells from an index on are those of what the chains have left there. -/
theorem commonCells_eq (hn : n + i = min (f.chain a).length (f.chain b).length)
    (common : Option NodeId) :
    f.commonCells a b n i common =
      some ((commonPath ((f.chain a).drop i) ((f.chain b).drop i)).getLast?.or common) := by
  induction n generalizing i common with
  | zero =>
    have hnil : commonPath ((f.chain a).drop i) ((f.chain b).drop i) = [] := by
      rcases Nat.le_total (f.chain a).length (f.chain b).length with h | h
      · rw [List.drop_of_length_le (by omega : (f.chain a).length ≤ i)]
        exact List.prefix_nil.1 commonPath_prefix_left
      · rw [List.drop_of_length_le (by omega : (f.chain b).length ≤ i)]
        exact List.prefix_nil.1 commonPath_prefix_right
    rw [commonCells, hnil, List.getLast?_nil, Option.none_or]
  | succ n ih =>
    have ha : i < (f.chain a).length := by omega
    have hb : i < (f.chain b).length := by omega
    rw [commonCells, cell?_eq ha, cell?_eq hb, List.getElem?_eq_getElem ha,
      List.getElem?_eq_getElem hb, List.drop_eq_getElem_cons ha, List.drop_eq_getElem_cons hb]
    simp only [Option.bind_eq_bind, Option.bind_some, commonPath]
    split_ifs with heq
    · rw [ih (by omega), List.getLast?_cons, Option.or_some, Option.some_or]
    · rfl

/-- Comparing cells reads no chain beyond its end, and finds the common beginning. -/
theorem commonByCell_eq (f : Forest) (a b : NodeId) :
    f.commonByCell a b = some (commonPath (f.chain a) (f.chain b)).getLast? := by
  rw [commonByCell, commonCells_eq (by omega), List.drop_zero, List.drop_zero, Option.or_none]

namespace Threaded

variable (hf : f.Threaded)

include hf

/-- One cell decides about inheritance, and it is there. -/
theorem inheritsByCell_eq (a b : NodeId) : f.inheritsByCell a b = some (f.inherits a b) := by
  have hpos := hf.length_chain_pos b
  unfold inheritsByCell inherits
  split_ifs with hle
  · have hi : (f.chain b).length - 1 < (f.chain a).length := by omega
    rw [Nat.psub_eq_sub (by omega), Option.bind_eq_bind, Option.bind_some, cell?_eq hi,
      List.getElem?_eq_getElem hi]
    rfl
  · rw [List.getElem?_eq_none (by omega)]
    rfl

/-- The chain of a node is no longer than those of the nodes that inherit from it. -/
theorem distanceByCell_eq (a b : NodeId) :
    f.distanceByCell a b =
      some (if f.inherits a b then some ((f.chain a).length - (f.chain b).length) else none) := by
  unfold distanceByCell
  rw [hf.inheritsByCell_eq, Option.bind_eq_bind, Option.bind_some]
  split_ifs with h
  · have hle := (hf.chain_prefix_of_mem (hf.inherits_iff.1 h)).length_le
    rw [Nat.psub_eq_sub hle]
    rfl
  · rfl

end Threaded

/-! ## What holds of every forest -/

/-- In every forest that requests grow from the empty one, as long as no slot has been emptied
`2 ^ 32` times, and of any two live nodes : one inherits from the other exactly when zero or more
parent links lead from it to the other, which orders the nodes; the distance is `k` exactly when the
other one is `k` links above, there is none exactly when the one does not inherit from the other,
and distances add up; the common ancestor is the node that both inherit from and that inherits from
all nodes that both inherit from, and there is none exactly when there is no such node. Reading the
chains cell by cell gives the same answers : it goes beyond the end of no chain, and takes no more
away than there is. -/
theorem queries_follow_links (maxDepth : Nat) (rs : List Request)
    (hu : (rs.foldl serve { maxDepth }).nodes.Unwrapped) {a b : NodeId}
    (ha : (rs.foldl serve { maxDepth }).nodes.contains a = true)
    (hb : (rs.foldl serve { maxDepth }).nodes.contains b = true) :
    let f : Forest := rs.foldl serve { maxDepth }
    ((∃ r, f.isA a b = .ok r ∧
        (r = true ↔ Relation.ReflTransGen (fun x y => f.parent? x = some y) a b)) ∧
      f.isA a a = .ok true ∧
      (f.isA a b = .ok true → f.isA b a = .ok true → a = b) ∧
      ∀ c, f.isA a b = .ok true → f.isA b c = .ok true → f.isA a c = .ok true) ∧
    ((∀ k, f.distance a b = .ok (some k) ↔ f.ascend k a = some b) ∧
      (f.distance a b = .ok none ↔ f.isA a b = .ok false) ∧
      ∀ c k n, f.distance a b = .ok (some k) → f.distance b c = .ok (some n) →
        f.distance a c = .ok (some (k + n))) ∧
    ((∀ c, f.commonAncestor a b = .ok (some c) ↔
        f.isA a c = .ok true ∧ f.isA b c = .ok true ∧
          ∀ d, f.isA a d = .ok true → f.isA b d = .ok true → f.isA c d = .ok true) ∧
      (f.commonAncestor a b = .ok none ↔
        ¬∃ d, f.isA a d = .ok true ∧ f.isA b d = .ok true)) ∧
    ∃ r k c, f.isA a b = .ok r ∧ f.inheritsByCell a b = some r ∧
      f.distance a b = .ok k ∧ f.distanceByCell a b = some k ∧
      f.commonAncestor a b = .ok c ∧ f.commonByCell a b = some c := by
  intro f
  have hf : f.Flattened := flattened_foldl_serve (flattened_empty maxDepth) rs hu
  refine ⟨⟨⟨_, isA_eq_ok_of_contains ha hb, ?_⟩, ?_, ?_, ?_⟩, ⟨?_, ?_, ?_⟩, ⟨?_, ?_⟩, ?_⟩
  · rw [hf.inherits_iff, hf.mem_chain_iff]
  · exact (hf.isA_iff ha).2 (hf.mem_chain_self a)
  · intro hab hba
    exact (hf.eq_of_mem_chain ((hf.isA_iff ha).1 hab) ((hf.isA_iff hb).1 hba)).symm
  · intro c hab hbc
    exact (hf.isA_iff ha).2 (hf.mem_chain_trans ((hf.isA_iff hb).1 hbc) ((hf.isA_iff ha).1 hab))
  · exact fun k => hf.distance_eq_some_iff ha hb
  · exact distance_eq_none_iff ha hb
  · exact fun c k n => hf.distance_add
  · exact fun c => hf.commonAncestor_eq_some_iff ha hb
  · exact hf.commonAncestor_eq_none_iff ha hb
  · exact ⟨_, _, _, isA_eq_ok_of_contains ha hb, hf.inheritsByCell_eq a b, distance_eq_ok ha hb,
      hf.distanceByCell_eq a b, commonAncestor_eq_ok ha hb, commonByCell_eq f a b⟩

/-- Two branches under one root, one of them two links long, beside a tree of its own; a slot
has been used twice. -/
def branches : List Request :=
  [.create ⟨0, 0⟩, .create ⟨1, 0⟩, .create ⟨2, 0⟩, .release ⟨2, 0⟩, .create ⟨3, 0⟩, .create ⟨4, 0⟩,
    .create ⟨5, 0⟩, .setParent ⟨3, 0⟩ (some ⟨2, 1⟩), .setParent ⟨2, 1⟩ (some ⟨0, 0⟩),
    .setParent ⟨1, 0⟩ (some ⟨0, 0⟩)]

/-- The end of the longer branch is two links below the root. -/
theorem queries_follow_links_branches :
    (branches.foldl serve { maxDepth := 3 }).nodes.Unwrapped ∧
      (branches.foldl serve { maxDepth := 3 }).nodes.contains ⟨3, 0⟩ = true ∧
      (branches.foldl serve { maxDepth := 3 }).nodes.contains ⟨0, 0⟩ = true ∧
      (branches.foldl serve { maxDepth := 3 }).distance ⟨3, 0⟩ ⟨0, 0⟩ = .ok (some 2) := by
  have hu : (branches.foldl serve { maxDepth := 3 }).nodes.Unwrapped := by decide +kernel
  exact ⟨hu, rfl, rfl, ((queries_follow_links 3 branches hu rfl rfl).2.1.1 2).2 rfl⟩

/-- Once a handle has come round, a node without a parent can inherit from one that lists it : it
got a chain when the chains below that one were mended. -/
theorem changeling_inherits_unlinked :
    let f : Forest := (changeling ++ [Request.setParent ⟨1, 0⟩ none]).foldl serve { maxDepth := 8 }
    f.nodes.contains ⟨2, 0⟩ = true ∧ f.nodes.contains ⟨1, 0⟩ = true ∧
      f.isA ⟨2, 0⟩ ⟨1, 0⟩ = .ok true ∧
      ¬Relation.ReflTransGen (fun x y => f.parent? x = some y) ⟨2, 0⟩ ⟨1, 0⟩ ∧
      f.distance ⟨2, 0⟩ ⟨1, 0⟩ = .ok (some 1) ∧ f.ascend 1 ⟨2, 0⟩ = none := by
  rw [List.foldl_append, foldl_changeling]
  refine ⟨rfl, rfl, rfl, fun hlinks => ?_, rfl, rfl⟩
  obtain heq | ⟨p, hp, -⟩ := hlinks.cases_head
  · cases heq
  · cases hp

end Forest

end NameResolution
