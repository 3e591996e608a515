import NameResolution.Proofs.Forest.Chains

/-!
# What lies below a node

`below` walks down level by level. A level is empty for some number only if there is no cycle of
lists below the node (`level_ne_nil_of_cycle`), and then it is as soon as there are as many levels
as slots (`level_size_eq_nil`). So `descend` answers if the walk ends, and only then
(`descend_eq_ok_iff`).

The `k`-th level below a node of a flattened forest holds the live nodes whose chains go
through it and are `k` longer than its own (`mem_level_of_mem_chain`). Chains are no longer
than the table, so no level is left out : the descendants of a node are the other live nodes
with the node in their chains (`mem_descendants_iff`).
-/

namespace NameResolution

namespace Forest

variable {f : Forest} {id p q x : NodeId} {k n : Nat} {l : List NodeId}

/-- The next level holds the children of the last one. -/
theorem level_succ (f : Forest) (k : Nat) (l : List NodeId) :
    f.level (k + 1) l = (f.level k l).flatMap f.children := by
  induction k generalizing l with
  | zero => rfl
  | succ k ih => exact ih _

theorem below_nil (f : Forest) (n : Nat) : f.below n [] = [] := by
  cases n <;> rfl

/-- The walk goes on from the next level. -/
theorem below_succ (f : Forest) (n : Nat) (l : List NodeId) :
    f.below (n + 1) l = l.flatMap f.children ++ f.below n (l.flatMap f.children) := by
  rw [below]
  cases hc : l.flatMap f.children with
  | nil => rw [below_nil, List.append_nil]
  | cons a next => rfl

/-- The walk lists the levels below the first one. -/
theorem mem_below_iff : x ∈ f.below n l ↔ ∃ k, k < n ∧ x ∈ f.level (k + 1) l := by
  induction n generalizing l with
  | zero => simp [below]
  | succ n ih =>
    rw [below_succ, List.mem_append, ih]
    constructor
    · rintro (hx | ⟨k, hk, hx⟩)
      · exact ⟨0, by omega, hx⟩
      · exact ⟨k + 1, by omega, hx⟩
    · rintro ⟨_ | k, hk, hx⟩
      · exact Or.inl hx
      · exact Or.inr ⟨k, by omega, hx⟩

/-! ## Walks that end -/

/-- The lists name the one node after the other, and the second one is live. -/
def Lists (f : Forest) (p x : NodeId) : Prop :=
  x ∈ f.children p

theorem Lists.contains_left (h : f.Lists p x) : f.nodes.contains p = true := by
  obtain ⟨m, hm, -, -⟩ := mem_children_iff.1 h
  exact SlotTable.contains_of_get? hm

theorem Lists.contains_right (h : f.Lists p x) : f.nodes.contains x = true := by
  obtain ⟨-, -, -, hx⟩ := mem_children_iff.1 h
  exact hx

/-- The nodes of later levels are reached from the first one. -/
theorem reaches_of_mem_level (hx : x ∈ f.level k [id]) :
    Relation.ReflTransGen f.Lists id x := by
  induction k generalizing x with
  | zero =>
    obtain rfl := List.mem_singleton.1 hx
    exact .refl
  | succ k ih =>
    rw [level_succ, List.mem_flatMap] at hx
    obtain ⟨q, hq, hx⟩ := hx
    exact (ih hq).tail hx

/-- The nodes of later levels are reached by one list at least. -/
theorem transGen_of_mem_level (hx : x ∈ f.level (k + 1) [id]) :
    Relation.TransGen f.Lists id x := by
  rw [level_succ, List.mem_flatMap] at hx
  obtain ⟨q, hq, hx⟩ := hx
  exact .tail' (reaches_of_mem_level hq) hx

/-- What is reached by lists is on some level. -/
theorem exists_mem_level (h : Relation.ReflTransGen f.Lists id x) : ∃ k, x ∈ f.level k [id] := by
  induction h with
  | refl => exact ⟨0, List.mem_singleton_self id⟩
  | tail _ hlists ih =>
    obtain ⟨k, hk⟩ := ih
    exact ⟨k + 1, by rw [level_succ]; exact List.mem_flatMap.2 ⟨_, hk, hlists⟩⟩

/-- What is reached by one list at least is on a later level. -/
theorem exists_mem_level_succ (h : Relation.TransGen f.Lists id x) :
    ∃ k, x ∈ f.level (k + 1) [id] := by
  obtain ⟨q, hq, hlists⟩ := Relation.TransGen.tail'_iff.1 h
  obtain ⟨k, hk⟩ := exists_mem_level hq
  exact ⟨k, by rw [level_succ]; exact List.mem_flatMap.2 ⟨q, hk, hlists⟩⟩

/-- No level is empty above a cycle of lists. -/
theorem level_ne_nil_of_cycle (hx : Relation.ReflTransGen f.Lists id x)
    (hcycle : Relation.TransGen f.Lists x x) (k : Nat) : f.level k [id] ≠ [] := by
  suffices h : ∃ y ∈ f.level k [id], Relation.ReflTransGen f.Lists y x by
    obtain ⟨y, hy, -⟩ := h
    exact List.ne_nil_of_mem hy
  induction k with
  | zero => exact ⟨id, List.mem_singleton_self id, hx⟩
  | succ k ih =>
    obtain ⟨y, hy, hyx⟩ := ih
    obtain ⟨z, hz, hzx⟩ : ∃ z, f.Lists y z ∧ Relation.ReflTransGen f.Lists z x := by
      rcases hyx.cases_head with rfl | hstep
      · exact Relation.TransGen.head'_iff.1 hcycle
      · exact hstep
    exact ⟨z, by rw [level_succ]; exact List.mem_flatMap.2 ⟨y, hy, hz⟩, hzx⟩

/-- Levels are counted on from any of them. -/
theorem level_add (f : Forest) (j k : Nat) (l : List NodeId) :
    f.level (j + k) l = f.level k (f.level j l) := by
  induction j generalizing l with
  | zero => rw [Nat.zero_add, level]
  | succ j ih => rw [Nat.succ_add, level, level, ih]

theorem level_nil (f : Forest) (k : Nat) : f.level k [] = [] := by
  induction k with
  | zero => rfl
  | succ k ih => exact ih

/-- Below an empty level all levels are empty. -/
theorem level_eq_nil_of_le (h : f.level n l = []) (hk : n ≤ k) : f.level k l = [] := by
  obtain ⟨j, rfl⟩ := Nat.exists_eq_add_of_le hk
  rw [level_add, h, level_nil]

/-- Where no cycle of lists is reached, the nodes on the way to a node of a level are as many as
there are levels. -/
theorem exists_nodup_of_mem_level (hid : f.nodes.contains id = true)
    (hacyclic : ∀ y, Relation.ReflTransGen f.Lists id y → ¬Relation.TransGen f.Lists y y)
    (hx : x ∈ f.level k [id]) :
    ∃ path : List NodeId, path.length = k + 1 ∧ path.Nodup ∧
      ∀ y ∈ path, f.nodes.contains y = true ∧ Relation.ReflTransGen f.Lists y x := by
  induction k generalizing x with
  | zero =>
    obtain rfl := List.mem_singleton.1 hx
    exact ⟨[x], rfl, List.nodup_singleton x, List.forall_mem_singleton.2 ⟨hid, .refl⟩⟩
  | succ k ih =>
    have hreach := reaches_of_mem_level hx
    rw [level_succ, List.mem_flatMap] at hx
    obtain ⟨q, hq, hx⟩ := hx
    obtain ⟨path, hlen, hnodup, hpath⟩ := ih hq
    refine ⟨x :: path, by rw [List.length_cons, hlen], List.nodup_cons.2 ⟨fun hmem => ?_, hnodup⟩,
      List.forall_mem_cons.2 ⟨⟨Lists.contains_right hx, .refl⟩, fun y hy => ?_⟩⟩
    · exact hacyclic x hreach (.tail' (hpath x hmem).2 hx)
    · exact ⟨(hpath y hy).1, (hpath y hy).2.tail hx⟩

/-- If the walk below a live node ends, it does so after as many levels as there are slots. -/
theorem level_size_eq_nil (hid : f.nodes.contains id = true) (h : f.level n [id] = []) :
    f.level f.nodes.slots.size [id] = [] := by
  refine List.eq_nil_iff_forall_not_mem.2 fun x hx => ?_
  have hacyclic (y : NodeId) (hy : Relation.ReflTransGen f.Lists id y) :
      ¬Relation.TransGen f.Lists y y :=
    fun hcycle => level_ne_nil_of_cycle hy hcycle n h
  obtain ⟨path, hlen, hnodup, hpath⟩ := exists_nodup_of_mem_level hid hacyclic hx
  have hle := SlotTable.length_le_of_nodup hnodup fun y hy => (hpath y hy).1
  omega

/-- The walk below a live node answers with its descendants if it ends. -/
theorem descend_eq_ok_iff {below : List NodeId} :
    f.descend id = .ok below ↔
      f.nodes.contains id = true ∧ f.level f.nodes.slots.size [id] = [] ∧
        below = f.descendants id := by
  unfold descend node
  cases hn : f.nodes.get? id with
  | none => simp [SlotTable.contains, hn, bind, Except.bind]
  | some n =>
    simp only [bind, Except.bind, SlotTable.contains_of_get? hn, true_and, List.isEmpty_iff]
    split_ifs with hlevel
    · simp [hlevel, pure, Except.pure, eq_comm]
    · simp [hlevel]

namespace Flattened

variable (hf : f.Flattened)

include hf

/-- The nodes of a level below a node have the node in their chains. -/
theorem mem_chain_of_mem_level (hid : f.nodes.contains id = true)
    (hx : x ∈ f.level k [id]) :
    f.nodes.contains x = true ∧ id ∈ f.chain x ∧
      (f.chain x).length = (f.chain id).length + k := by
  induction k generalizing x with
  | zero =>
    obtain rfl := List.mem_singleton.1 hx
    exact ⟨hid, hf.mem_chain_self x, rfl⟩
  | succ k ih =>
    rw [level_succ, List.mem_flatMap] at hx
    obtain ⟨q, hq, hx⟩ := hx
    obtain ⟨-, hmem, hlen⟩ := ih hq
    have hp := hf.parent?_of_mem_children hx
    obtain ⟨m, -, -, hc⟩ := mem_children_iff.1 hx
    refine ⟨hc, (hf.mem_chain_of_parent? hp).2 (Or.inl hmem), ?_⟩
    rw [hf.chain_of_parent? hp, List.length_append, hlen, List.length_singleton]
    omega

/-- There are no more levels than slots. -/
theorem level_eq_nil (hid : f.nodes.contains id = true) (hk : f.nodes.slots.size ≤ k) :
    f.level k [id] = [] := by
  refine List.eq_nil_iff_forall_not_mem.2 fun x hx => ?_
  obtain ⟨hc, -, hlen⟩ := hf.mem_chain_of_mem_level hid hx
  have hle := hf.length_chain_le hc
  have hpos := hf.length_chain_pos id
  omega

/-- The walk below a live node ends. -/
theorem descend_eq (hid : f.nodes.contains id = true) :
    f.descend id = .ok (f.descendants id) :=
  descend_eq_ok_iff.2 ⟨hid, hf.level_eq_nil hid le_rfl, rfl⟩

/-- A node with another one in its chain is on a level below that one. -/
theorem mem_level_of_mem_chain (hx : id ∈ f.chain x) :
    x ∈ f.level ((f.chain x).length - (f.chain id).length) [id] := by
  induction x using hf.parent_induction with
  | root x hp =>
    rw [hf.chain_of_parent?_eq_none hp, List.mem_singleton] at hx
    simp [hx, level]
  | child x p hp ih =>
    rcases (hf.mem_chain_of_parent? hp).1 hx with hx | rfl
    · have hle := (hf.chain_prefix_of_mem hx).length_le
      have hlen : (f.chain x).length - (f.chain id).length =
          ((f.chain p).length - (f.chain id).length) + 1 := by
        rw [hf.chain_of_parent? hp, List.length_append, List.length_singleton]
        omega
      rw [hlen, level_succ, List.mem_flatMap]
      exact ⟨p, ih hx, hf.mem_children_of_parent? hp⟩
    · simp [level]

/-- The descendants of a live node are the other live nodes that have it in their chains. -/
theorem mem_descendants_iff (hid : f.nodes.contains id = true) :
    x ∈ f.descendants id ↔ f.nodes.contains x = true ∧ id ∈ f.chain x ∧ x ≠ id := by
  unfold descendants
  rw [mem_below_iff]
  constructor
  · rintro ⟨k, -, hx⟩
    obtain ⟨hc, hmem, hlen⟩ := hf.mem_chain_of_mem_level hid hx
    refine ⟨hc, hmem, ?_⟩
    rintro rfl
    omega
  · rintro ⟨hc, hmem, hne⟩
    have hle := (hf.chain_prefix_of_mem hmem).length_le
    have hlt : (f.chain id).length ≠ (f.chain x).length := by
      intro heq
      apply hne
      refine (hf.eq_of_mem_chain hmem ?_).symm
      rw [(hf.chain_prefix_of_mem hmem).eq_of_length heq]
      exact hf.mem_chain_self x
    have hmax := hf.length_chain_le hc
    have hpos := hf.length_chain_pos id
    refine ⟨(f.chain x).length - (f.chain id).length - 1, by omega, ?_⟩
    have hx := hf.mem_level_of_mem_chain hmem
    rwa [show (f.chain x).length - (f.chain id).length - 1 + 1 =
      (f.chain x).length - (f.chain id).length by omega]

end Flattened

end Forest

end NameResolution
