import Mathlib.Order.Bounds.Basic
import NameResolution.Proofs.Forest.Grafting
import NameResolution.Proofs.Forest.Records
import NameResolution.Proofs.Forest.Turning

/-!
# When relinking is granted, and what it changes

A node moves with all that is below it, its subtree. Whether a parent is granted is decided
on the chains as they are (`setParent_some_eq`) : the parent must not stand in the subtree,
and the chain of the parent and the height of the subtree must fit the limit together. Their
sum is the length of the longest chain that the subtree will have (`longest_attach`), so that
length is known before any chain has been made anew.

A granted request changes the subtree alone (`Regrafted`). The chain of the node itself is
replaced, and the chains below it keep what comes after the node. The chains of a subtree
thus get no longer than the limit when it is put under a parent, and no longer than they
were when it becomes a tree of its own, so that no chain ever exceeds the limit
(`bounded_foldl_serve`). `relinking_exact` says all of this of every forest that requests
grow, as long as no handle has come round. After that a subtree may hold a node whose chain
is short (`changeling_not_relinked`).
-/

namespace NameResolution

namespace Forest

variable {f g : Forest} {id p x y : NodeId} {n m : TypeNode} {parent : Option NodeId}
  {ancestors : Option (List NodeId)}

/-! ## Subtrees -/

/-- A node and its live descendants. -/
def subtree (f : Forest) (id : NodeId) : List NodeId :=
  id :: f.descendants id

/-- The subtree of a live node consists of the live nodes in whose chains it stands. -/
theorem Flattened.mem_subtree_iff (hf : f.Flattened) (hid : f.nodes.contains id = true) :
    x ∈ f.subtree id ↔ f.nodes.contains x = true ∧ id ∈ f.chain x := by
  rw [subtree, List.mem_cons, hf.mem_descendants_iff hid]
  constructor
  · rintro (rfl | ⟨hx, hmem, -⟩)
    · exact ⟨hid, hf.mem_chain_self x⟩
    · exact ⟨hx, hmem⟩
  · rintro ⟨hx, hmem⟩
    rcases eq_or_ne x id with rfl | hne
    · exact Or.inl rfl
    · exact Or.inr ⟨hx, hmem, hne⟩

/-- The greatest of some numbers, the first one included. -/
theorem isGreatest_foldl_max (l : List Nat) (a : Nat) :
    IsGreatest {k | k = a ∨ k ∈ l} (l.foldl max a) := by
  induction l generalizing a with
  | nil => exact ⟨by simp, by simp [upperBounds]⟩
  | cons b l ih =>
    obtain ⟨hmem, hmax⟩ := ih (max a b)
    have hle : max a b ≤ l.foldl max (max a b) := hmax (Or.inl rfl)
    constructor
    · rcases hmem with heq | hmem
      · rw [List.foldl_cons, heq]
        rcases Nat.le_total a b with h | h
        · exact Or.inr (by simp [Nat.max_eq_right h])
        · exact Or.inl (Nat.max_eq_left h)
      · exact Or.inr (List.mem_cons_of_mem b hmem)
    · rintro k (rfl | hk)
      · exact (le_max_left k b).trans hle
      · rcases List.mem_cons.1 hk with rfl | hk
        · exact (le_max_right a k).trans hle
        · exact hmax (Or.inr hk)

/-- The height of a subtree is that of the longest of its chains, counted from its root. -/
theorem isGreatest_height (f : Forest) (id : NodeId) :
    IsGreatest {k | ∃ x ∈ f.subtree id, k = (f.chain x).length - (f.chain id).length + 1}
      (f.height id) := by
  obtain ⟨hmem, hmax⟩ := isGreatest_foldl_max
    ((f.descendants id).map fun d => (f.chain d).length - (f.chain id).length) 0
  constructor
  · rcases hmem with heq | hmem
    · exact ⟨id, by simp [subtree], by rw [height, heq, Nat.sub_self]⟩
    · obtain ⟨d, hd, heq⟩ := List.mem_map.1 hmem
      exact ⟨d, List.mem_cons_of_mem id hd, by rw [height, ← heq]⟩
  · rintro k ⟨x, hx, rfl⟩
    refine Nat.succ_le_succ (hmax ?_)
    rcases List.mem_cons.1 hx with rfl | hx
    · exact Or.inl (Nat.sub_self _)
    · exact Or.inr (List.mem_map_of_mem hx)

/-! ## What is granted -/

/-- The forest with a node put under another one, be it granted or not. -/
def attach (f : Forest) (id p : NodeId) : Forest :=
  f.relinked id (some p) (some (f.chain p ++ [id]))

/-- The longest chain that a subtree would get under a parent has this length. -/
def Longest (f : Forest) (id p : NodeId) (length : Nat) : Prop :=
  IsGreatest {k | ∃ x ∈ f.subtree id, k = ((f.attach id p).chain x).length} length

namespace Flattened

variable (hf : f.Flattened)

include hf

/-- A live parent stands in the subtree of a node if it has the node in its chain. -/
theorem inherits_iff_mem_subtree (hid : f.nodes.contains id = true)
    (hp : f.nodes.contains p = true) : f.inherits p id = true ↔ p ∈ f.subtree id := by
  rw [hf.inherits_iff, hf.mem_subtree_iff hid]
  exact ⟨fun h => ⟨hp, h⟩, And.right⟩

/-- A node can be put under any live node that is not in its subtree. -/
theorem admits_some (hid : f.nodes.contains id = true) (hp : f.nodes.contains p = true)
    (hnot : p ∉ f.subtree id) : f.Admits id (some p) := by
  rintro _ ⟨⟩
  exact ⟨hp, fun hmem => hnot ((hf.mem_subtree_iff hid).2 ⟨hp, hmem⟩)⟩

/-- A parent is there already, stands in the subtree, is too far down, or is granted. -/
theorem setParent_some_eq (hn : f.nodes.get? id = some n) (hm : f.nodes.get? p = some m) :
    ∃ change : Change, change.forest = f.attach id p ∧
      f.setParent id (some p) =
        if f.parent? id = some p then .ok none
        else if p ∈ f.subtree id then .error (.failure (.cyclicInheritance n.owner m.owner))
        else if f.maxDepth < (f.chain p).length + f.height id then
          .error (.failure (.chainTooLong ((f.chain p).length + f.height id) f.maxDepth))
        else .ok (some change) := by
  have hid := SlotTable.contains_of_get? hn
  have hp := SlotTable.contains_of_get? hm
  simp only [← hf.inherits_iff_mem_subtree hid hp]
  unfold Forest.setParent
  simp only [node_eq_ok_iff.2 hn, isA_eq_ok_of_contains hp hid, owner_eq_ok hm,
    hf.subtreeHeight_eq hid, parent?_of_get? hn, bind, Except.bind, Option.isSome_some, true_or,
    and_true, throw, throwThe, MonadExceptOf.throw, pure, Except.pure, gt_iff_lt]
  cases hi : f.inherits p id with
  | true =>
    simp only [if_true, and_true]
    generalize f.attach id p = g
    exact ⟨⟨g, []⟩, rfl⟩
  | false =>
    obtain ⟨change, hchange, hforest⟩ :=
      hf.exists_relink_some hid hp hi (.relinking id n.parent (some p))
    simp only [hchange]
    exact ⟨change, hforest, rfl⟩

/-- The chains of a subtree are replaced up to its root. -/
theorem length_chain_attach (hid : f.nodes.contains id = true) (hadm : f.Admits id (some p))
    (hx : x ∈ f.subtree id) :
    ((f.attach id p).chain x).length =
      (f.chain p).length + ((f.chain x).length - (f.chain id).length + 1) := by
  obtain ⟨hxc, hmem⟩ := (hf.mem_subtree_iff hid).1 hx
  rw [attach, hf.chain_relinked hid hadm (by simp) hxc, if_pos hmem, newChain, Option.getD_some,
    List.length_append, List.length_append, List.length_drop, List.length_singleton]
  omega

/-- What is compared with the limit is the length of the longest chain that the subtree gets. -/
theorem longest_attach (hid : f.nodes.contains id = true) (hadm : f.Admits id (some p)) :
    f.Longest id p ((f.chain p).length + f.height id) := by
  obtain ⟨⟨x, hx, heq⟩, hmax⟩ := isGreatest_height f id
  have hlongest : ((f.attach id p).chain x).length = (f.chain p).length + f.height id := by
    rw [heq, hf.length_chain_attach hid hadm hx]
  constructor
  · rw [← hlongest]
    exact ⟨x, hx, rfl⟩
  · intro k hk
    obtain ⟨y, hy, hk⟩ := hk
    have hle : (f.chain y).length - (f.chain id).length + 1 ≤ f.height id :=
      hmax ⟨y, hy, rfl⟩
    rw [hk, hf.length_chain_attach hid hadm hy]
    omega

/-- The longest chain that the subtree gets under a parent has a length. -/
theorem longest_iff (hid : f.nodes.contains id = true) (hp : f.nodes.contains p = true)
    (hnot : p ∉ f.subtree id) {k : Nat} :
    f.Longest id p k ↔ k = (f.chain p).length + f.height id := by
  have hgreatest := hf.longest_attach hid (hf.admits_some hid hp hnot)
  exact ⟨fun h => h.unique hgreatest, fun h => h ▸ hgreatest⟩

section

variable (hn : f.nodes.get? id = some n) (hm : f.nodes.get? p = some m)

include hn hm

/-- A request has no effect if the parent is there already. -/
theorem setParent_idle_iff :
    f.setParent id (some p) = .ok none ↔ f.parent? id = some p := by
  obtain ⟨change, -, heq⟩ := hf.setParent_some_eq hn hm
  rw [heq]
  split_ifs with hpar <;> simp [hpar]

/-- Otherwise it is refused as cyclic if the parent is in the subtree. -/
theorem setParent_cyclic_iff {child parent : EntityId} :
    f.setParent id (some p) = .error (.failure (.cyclicInheritance child parent)) ↔
      f.parent? id ≠ some p ∧ p ∈ f.subtree id ∧ child = n.owner ∧ parent = m.owner := by
  obtain ⟨change, -, heq⟩ := hf.setParent_some_eq hn hm
  rw [heq]
  split_ifs with hpar hsub
  · simp [hpar]
  · simp [hpar, hsub, eq_comm]
  · simp [hsub]
  · simp [hsub]

/-- Otherwise it is refused as too deep if a chain would exceed the limit. -/
theorem setParent_tooLong_iff {length limit : Nat} :
    f.setParent id (some p) = .error (.failure (.chainTooLong length limit)) ↔
      f.parent? id ≠ some p ∧ p ∉ f.subtree id ∧ f.Longest id p length ∧
        f.maxDepth < length ∧ limit = f.maxDepth := by
  obtain ⟨change, -, heq⟩ := hf.setParent_some_eq hn hm
  rw [heq]
  split_ifs with hpar hsub hlen
  · simp [hpar]
  · simp [hsub]
  · rw [hf.longest_iff (SlotTable.contains_of_get? hn) (SlotTable.contains_of_get? hm) hsub]
    simp only [Except.error.injEq, Stop.failure.injEq, Failure.chainTooLong.injEq]
    constructor
    · rintro ⟨rfl, rfl⟩
      exact ⟨hpar, hsub, rfl, hlen, rfl⟩
    · rintro ⟨-, -, rfl, -, rfl⟩
      exact ⟨rfl, rfl⟩
  · rw [hf.longest_iff (SlotTable.contains_of_get? hn) (SlotTable.contains_of_get? hm) hsub]
    refine ⟨nofun, ?_⟩
    rintro ⟨-, -, rfl, hlt, -⟩
    exact absurd hlt hlen

/-- Otherwise it is granted. -/
theorem setParent_granted_iff :
    (∃ change, f.setParent id (some p) = .ok (some change)) ↔
      f.parent? id ≠ some p ∧ p ∉ f.subtree id ∧
        ∃ length, f.Longest id p length ∧ length ≤ f.maxDepth := by
  obtain ⟨change, -, heq⟩ := hf.setParent_some_eq hn hm
  rw [heq]
  split_ifs with hpar hsub hlen
  · simp [hpar]
  · simp [hsub]
  · refine ⟨nofun, ?_⟩
    rintro ⟨-, -, length, hlongest, hle⟩
    rw [hf.longest_iff (SlotTable.contains_of_get? hn) (SlotTable.contains_of_get? hm) hsub]
      at hlongest
    omega
  · refine ⟨fun _ => ⟨hpar, hsub, _, ?_, not_lt.1 hlen⟩, fun _ => ⟨_, rfl⟩⟩
    exact (hf.longest_iff (SlotTable.contains_of_get? hn) (SlotTable.contains_of_get? hm) hsub).2
      rfl

end

end Flattened

/-! ## What is changed -/

/-- A node has got a parent and a chain, and the chains below it have been mended; nothing
else has changed. -/
structure Regrafted (f g : Forest) (id : NodeId) (parent : Option NodeId)
    (ancestors : Option (List NodeId)) : Prop where
  contains : ∀ x, g.nodes.contains x = f.nodes.contains x
  parent? : ∀ x, g.parent? x = if x = id then parent else f.parent? x
  ancestors_self : g.ancestors? id = ancestors
  /-- What comes after the node in a chain below it stays. -/
  ancestors_below : ∀ x ∈ f.descendants id,
    g.ancestors? x = some (g.chain id ++ (f.chain x).drop (f.chain id).length)
  ancestors_outside : ∀ x, x ∉ f.subtree id → g.ancestors? x = f.ancestors? x
  isA_outside : ∀ x y, x ∉ f.subtree id → g.isA x y = f.isA x y

/-- A question is answered if both nodes are live. -/
theorem isA_eq (f : Forest) (x y : NodeId) :
    f.isA x y =
      if f.nodes.contains x = false then .error (.fault (.node x))
      else if f.nodes.contains y = false then .error (.fault (.node y))
      else .ok (f.inherits x y) := by
  unfold isA node
  cases hx : f.nodes.get? x with
  | none => simp [SlotTable.contains, hx, bind, Except.bind]
  | some n =>
    cases hy : f.nodes.get? y with
    | none => simp [SlotTable.contains, hx, hy, bind, Except.bind]
    | some m => simp [SlotTable.contains, hx, hy, bind, Except.bind, pure, Except.pure]

/-- The chain of a node decides all questions about it. -/
theorem isA_congr (hf : f.Flattened) (hg : g.Flattened)
    (hc : ∀ x, g.nodes.contains x = f.nodes.contains x) (hx : g.chain x = f.chain x)
    (y : NodeId) : g.isA x y = f.isA x y := by
  have hinherits : g.inherits x y = f.inherits x y := by
    rw [Bool.eq_iff_iff, hg.inherits_iff, hf.inherits_iff, hx]
  rw [isA_eq, isA_eq, hc, hc, hinherits]

/-- Relinking regrafts. -/
theorem Flattened.regrafted_relinked (hf : f.Flattened) (hid : f.nodes.contains id = true)
    (hadm : f.Admits id parent)
    (hsome : ∀ p, parent = some p → ancestors = some (f.chain p ++ [id]))
    (hnone : parent = none → ancestors = none ∨ ancestors = some [id]) :
    f.Regrafted (f.relinked id parent ancestors) id parent ancestors := by
  have hg := hf.relinked hid hadm hsome hnone
  have hcont := contains_relinked f id parent ancestors
  have hget := hf.get?_relinked hid hadm hsome
  have hself : (f.relinked id parent ancestors).chain id = ancestors.getD [id] := by
    rw [hf.chain_relinked hid hadm hsome hid, if_pos (hf.mem_chain_self id), newChain_self]
  have houtside : ∀ x, x ∉ f.subtree id →
      (f.relinked id parent ancestors).ancestors? x = f.ancestors? x := by
    intro x hx
    rw [ancestors?, hget, ancestors?]
    cases hn : f.nodes.get? x with
    | none => rfl
    | some n =>
      have hc := SlotTable.contains_of_get? hn
      rw [hf.mem_subtree_iff hid, not_and] at hx
      have hne : x ≠ id := fun h => hx hc (h ▸ hf.mem_chain_self x)
      simp only [Option.map_some, Option.bind_some, if_neg hne, if_neg (hx hc)]
  refine ⟨hcont, parent?_relinked hid parent ancestors, ?_, ?_, houtside, ?_⟩
  · obtain ⟨n, hn⟩ := SlotTable.contains_iff.1 hid
    simp [ancestors?, hget, hn]
  · intro x hx
    obtain ⟨hc, hmem, hne⟩ := (hf.mem_descendants_iff hid).1 hx
    obtain ⟨n, hn⟩ := SlotTable.contains_iff.1 hc
    rw [hself]
    simp [ancestors?, hget, hn, hne, hmem, newChain]
  · intro x y hx
    refine isA_congr hf hg hcont ?_ y
    exact congrArg (Option.getD · [x]) (houtside x hx)

namespace Flattened

variable (hf : f.Flattened)

include hf

/-- A parent that is granted changes the subtree alone. -/
theorem regrafted_setParent_some {change : Change}
    (h : f.setParent id (some p) = .ok (some change)) :
    f.Regrafted change.forest id (some p) (some (f.chain p ++ [id])) := by
  obtain ⟨hp, -⟩ | ⟨q, -, hp, hq, hi, -, -, hid, -, hforest⟩ := setParent_eq_some h
  · cases hp
  · obtain rfl := Option.some.inj hp
    rw [hforest]
    refine hf.regrafted_relinked hid (hf.admits_of_inherits hq hi) ?_ nofun
    rintro _ ⟨⟩
    rfl

/-- To become a root changes the subtree alone. -/
theorem regrafted_setParent_none {change : Change}
    (h : f.setParent id none = .ok (some change)) :
    f.Regrafted change.forest id none (some [id]) := by
  obtain ⟨-, hid, -, hforest⟩ | ⟨p, -, hp, -⟩ := setParent_eq_some h
  · exact hforest ▸ hf.regrafted_relinked hid nofun nofun fun _ => Or.inr rfl
  · cases hp

/-- To lose the parent changes the subtree alone. -/
theorem regrafted_clearParent {change : Change} (h : f.clearParent id = .ok (some change)) :
    f.Regrafted change.forest id none none := by
  obtain ⟨hid, -, hforest⟩ := clearParent_eq_some h
  exact hforest ▸ hf.regrafted_relinked hid nofun nofun fun _ => Or.inl rfl

end Flattened

/-! ## No chain exceeds the limit -/

theorem maxDepth_serve (f : Forest) (r : Request) : (f.serve r).maxDepth = f.maxDepth := by
  cases r with
  | create owner => rfl
  | setParent id parent =>
    simp only [serve]
    split
    next change h => exact (reworked_of_setParent h).maxDepth
    next => rfl
  | clearParent id =>
    simp only [serve]
    split
    next change h => exact (reworked_of_clearParent h).maxDepth
    next => rfl
  | release id =>
    simp only [serve, erase]
    split_ifs <;> rfl

theorem maxDepth_foldl_serve (f : Forest) (rs : List Request) :
    (rs.foldl serve f).maxDepth = f.maxDepth := by
  induction rs generalizing f with
  | nil => rfl
  | cons r rs ih => exact (ih _).trans (maxDepth_serve f r)

/-- No chain is longer than the limit, or than that of a node alone. -/
def Bounded (f : Forest) : Prop :=
  ∀ x, (f.chain x).length ≤ max 1 f.maxDepth

/-- A released node is alone in its chain. -/
theorem bounded_of_contains
    (h : ∀ x, f.nodes.contains x = true → (f.chain x).length ≤ max 1 f.maxDepth) :
    f.Bounded := by
  intro x
  cases hn : f.nodes.get? x with
  | none =>
    rw [chain, hn]
    exact le_max_left _ _
  | some n => exact h x (SlotTable.contains_of_get? hn)

namespace Flattened

variable (hf : f.Flattened)

include hf

/-- Relinking keeps the bound if the chains of the subtree keep it. -/
theorem bounded_relinked (hb : f.Bounded) (hid : f.nodes.contains id = true)
    (hadm : f.Admits id parent)
    (hsome : ∀ p, parent = some p → ancestors = some (f.chain p ++ [id]))
    (hnew : ∀ x ∈ f.subtree id,
      (f.newChain id (ancestors.getD [id]) x).length ≤ max 1 f.maxDepth) :
    (f.relinked id parent ancestors).Bounded := by
  refine bounded_of_contains fun x hx => ?_
  rw [contains_relinked] at hx
  rw [hf.chain_relinked hid hadm hsome hx, (reworked_relinked f id _ _).maxDepth]
  split_ifs with hmem
  · exact hnew x ((hf.mem_subtree_iff hid).2 ⟨hx, hmem⟩)
  · exact hb x

/-- The chains of a subtree get no longer when it becomes a tree of its own. -/
theorem bounded_relinked_none (hb : f.Bounded) (hid : f.nodes.contains id = true)
    (hroot : ancestors.getD [id] = [id]) : (f.relinked id none ancestors).Bounded := by
  refine hf.bounded_relinked hb hid nofun nofun fun x hx => ?_
  have hle := (hf.chain_prefix_of_mem ((hf.mem_subtree_iff hid).1 hx).2).length_le
  have hpos := hf.length_chain_pos id
  have hx := hb x
  rw [hroot, newChain, List.length_append, List.length_singleton, List.length_drop]
  omega

theorem bounded_insert (hb : f.Bounded) (e : EntityId) : (f.insert e).Bounded := by
  intro x
  rw [chain, get?_insert hf.wellFormed]
  split_ifs
  · exact le_max_left _ _
  · exact hb x

theorem bounded_setParent {change : Change} (hb : f.Bounded)
    (h : f.setParent id parent = .ok (some change)) : change.forest.Bounded := by
  obtain ⟨rfl, hid, -, hforest⟩ | ⟨p, height, rfl, hp, hi, hheight, hlen, hid, -, hforest⟩ :=
    setParent_eq_some h
  · exact hforest ▸ hf.bounded_relinked_none hb hid rfl
  · have hadm := hf.admits_of_inherits hp hi
    rw [hf.subtreeHeight_eq hid] at hheight
    obtain rfl := Except.ok.inj hheight
    rw [hforest]
    refine hf.bounded_relinked hb hid hadm (by simp) fun x hx => ?_
    have hle := (hf.longest_attach hid hadm).2 ⟨x, hx, rfl⟩
    obtain ⟨hxc, hmem⟩ := (hf.mem_subtree_iff hid).1 hx
    rw [attach, hf.chain_relinked hid hadm (by simp) hxc, if_pos hmem] at hle
    omega

/-- A parent that is taken back keeps the bound. -/
theorem bounded_clearParent {change : Change} (hb : f.Bounded)
    (h : f.clearParent id = .ok (some change)) : change.forest.Bounded := by
  obtain ⟨hid, -, hforest⟩ := clearParent_eq_some h
  exact hforest ▸ hf.bounded_relinked_none hb hid rfl

end Flattened

theorem Bounded.erase (hb : f.Bounded) (id : NodeId) : (f.erase id).Bounded := by
  unfold Forest.erase
  split_ifs
  · intro x
    rw [chain, SlotTable.get?_erase]
    split_ifs
    · exact le_max_left _ _
    · exact hb x
  · exact hb

/-- Every request keeps the bound. -/
theorem Flattened.bounded_serve (hf : f.Flattened) (hb : f.Bounded) (r : Request) :
    (f.serve r).Bounded := by
  cases r with
  | create owner => exact hf.bounded_insert hb owner
  | setParent id parent =>
    simp only [Forest.serve]
    split
    next change h => exact hf.bounded_setParent hb h
    next => exact hb
  | clearParent id =>
    simp only [Forest.serve]
    split
    next change h => exact hf.bounded_clearParent hb h
    next => exact hb
  | release id => exact hb.erase id

/-- Requests keep the bound, as long as no slot has been emptied too often. -/
theorem bounded_foldl_serve (hf : f.Flattened) (hb : f.Bounded) (rs : List Request)
    (hu : (rs.foldl Forest.serve f).nodes.Unwrapped) : (rs.foldl Forest.serve f).Bounded := by
  induction rs using List.reverseRecOn with
  | nil => exact hb
  | append_singleton rs r ih =>
    rw [List.foldl_append, List.foldl_cons, List.foldl_nil] at hu ⊢
    have hw := wellFormed_foldl_serve hf.wellFormed rs
    have hu' := (wellFormed_serve hw r).2.unwrapped hu
    exact (flattened_foldl_serve hf rs hu').bounded_serve (ih hu') r

theorem bounded_empty (maxDepth : Nat) : Bounded { maxDepth } :=
  bounded_of_contains (by simp [SlotTable.contains, SlotTable.get?, SlotTable.slot?])

/-! ## What holds of every forest -/

/-- In every forest that requests grow from the empty one, as long as no slot has been emptied
`2 ^ 32` times, a request to put a live node under another one has no effect exactly when it is
there already. Otherwise it is refused as cyclic exactly when the other one is in its subtree;
otherwise as too deep exactly when the longest chain that the subtree would get exceeds the limit,
with the length of that chain; and otherwise granted. What is refused changes nothing. What is
granted, as making the node a root or taking its parent back, changes the parent of that node and
the chains of its subtree alone : they are the new chain of the node, followed by what came after it
before. So no chain is longer than the limit, or than that of a node alone. -/
theorem relinking_exact (maxDepth : Nat) (rs : List Request)
    (hu : (rs.foldl serve { maxDepth }).nodes.Unwrapped) {id p : NodeId} {n m : TypeNode}
    (hn : (rs.foldl serve { maxDepth }).nodes.get? id = some n)
    (hm : (rs.foldl serve { maxDepth }).nodes.get? p = some m) :
    let f : Forest := rs.foldl serve { maxDepth }
    ((f.setParent id (some p) = .ok none ↔ f.parent? id = some p) ∧
      (∀ child parent,
        f.setParent id (some p) = .error (.failure (.cyclicInheritance child parent)) ↔
          f.parent? id ≠ some p ∧ p ∈ f.subtree id ∧ child = n.owner ∧ parent = m.owner) ∧
      (∀ length limit, f.setParent id (some p) = .error (.failure (.chainTooLong length limit)) ↔
          f.parent? id ≠ some p ∧ p ∉ f.subtree id ∧ f.Longest id p length ∧
            maxDepth < length ∧ limit = maxDepth) ∧
      ((∃ change, f.setParent id (some p) = .ok (some change)) ↔
          f.parent? id ≠ some p ∧ p ∉ f.subtree id ∧
            ∃ length, f.Longest id p length ∧ length ≤ maxDepth)) ∧
    (∀ parent, (∀ change, f.setParent id parent ≠ .ok (some change)) →
      f.serve (.setParent id parent) = f) ∧
    ((∀ change, f.setParent id (some p) = .ok (some change) →
        f.Regrafted change.forest id (some p) (some (f.chain p ++ [id]))) ∧
      (∀ change, f.setParent id none = .ok (some change) →
        f.Regrafted change.forest id none (some [id])) ∧
      ∀ change, f.clearParent id = .ok (some change) →
        f.Regrafted change.forest id none none) ∧
    ∀ x, (f.chain x).length ≤ max 1 maxDepth := by
  intro f
  have hf : f.Flattened := flattened_foldl_serve (flattened_empty maxDepth) rs hu
  have hmax : f.maxDepth = maxDepth := maxDepth_foldl_serve _ rs
  rw [← hmax]
  refine ⟨⟨hf.setParent_idle_iff hn hm, fun _ _ => hf.setParent_cyclic_iff hn hm,
    fun _ _ => hf.setParent_tooLong_iff hn hm, hf.setParent_granted_iff hn hm⟩, ?_,
    ⟨fun change h => ?_, fun _ => hf.regrafted_setParent_none,
      fun _ => hf.regrafted_clearParent⟩, ?_⟩
  · intro parent hnot
    unfold serve
    dsimp only
    split
    next change h => exact absurd h (hnot change)
    next => rfl
  · exact hf.regrafted_setParent_some h
  · exact bounded_foldl_serve (flattened_empty maxDepth) (bounded_empty maxDepth) rs hu

/-- Two trees of two nodes each; put under the lower node of the other one, either would get
too deep by one. -/
def replanting : List Request :=
  [.create ⟨0, 0⟩, .create ⟨1, 0⟩, .create ⟨2, 0⟩, .create ⟨3, 0⟩, .setParent ⟨2, 0⟩ (some ⟨1, 0⟩),
    .setParent ⟨0, 0⟩ (some ⟨3, 0⟩)]

/-- The chain that the lower tree would get has four nodes. -/
theorem relinking_exact_replanting :
    (replanting.foldl serve { maxDepth := 3 }).nodes.Unwrapped ∧
      (replanting.foldl serve { maxDepth := 3 }).nodes.get? ⟨1, 0⟩ =
        some ⟨⟨1, 0⟩, none, none, ⟨[⟨2, 0⟩]⟩⟩ ∧
      (replanting.foldl serve { maxDepth := 3 }).nodes.get? ⟨0, 0⟩ =
        some ⟨⟨0, 0⟩, some ⟨3, 0⟩, some [⟨3, 0⟩, ⟨0, 0⟩], {}⟩ ∧
      (replanting.foldl serve { maxDepth := 3 }).Longest ⟨1, 0⟩ ⟨0, 0⟩ 4 := by
  have hu : (replanting.foldl serve { maxDepth := 3 }).nodes.Unwrapped := by decide +kernel
  have hn : (replanting.foldl serve { maxDepth := 3 }).nodes.get? ⟨1, 0⟩ =
      some ⟨⟨1, 0⟩, none, none, ⟨[⟨2, 0⟩]⟩⟩ := rfl
  have hm : (replanting.foldl serve { maxDepth := 3 }).nodes.get? ⟨0, 0⟩ =
      some ⟨⟨0, 0⟩, some ⟨3, 0⟩, some [⟨3, 0⟩, ⟨0, 0⟩], {}⟩ := rfl
  exact ⟨hu, hn, hm, (((relinking_exact 3 replanting hu hn hm).1.2.2.1 4 3).1 rfl).2.2.1⟩

/-- Once a handle has come round, the height of a subtree cannot be told from the chains : to put a
node under one that it lists, and that has no parent, is neither idle nor refused nor granted. To
make the node a root changes the chain of the other one. -/
theorem changeling_not_relinked :
    let f : Forest := changeling.foldl serve { maxDepth := 8 }
    f.nodes.contains ⟨1, 0⟩ = true ∧ f.nodes.contains ⟨2, 0⟩ = true ∧
      f.parent? ⟨1, 0⟩ = some ⟨0, 0⟩ ∧ f.parent? ⟨2, 0⟩ = none ∧
      f.setParent ⟨1, 0⟩ (some ⟨2, 0⟩) = .error (.fault .underflow) ∧
      ∃ change, f.setParent ⟨1, 0⟩ none = .ok (some change) ∧
        f.chain ⟨2, 0⟩ = [⟨2, 0⟩] ∧ change.forest.chain ⟨2, 0⟩ = [⟨1, 0⟩, ⟨2, 0⟩] := by
  rw [foldl_changeling]
  exact ⟨rfl, rfl, rfl, rfl, rfl, _, rfl, rfl, rfl⟩

end Forest

end NameResolution
