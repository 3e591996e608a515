import NameResolution.Proofs.Forest.Descent

/-!
# What relinking does to every node

Relinking a node gives it a parent and a chain, moves it from the children of the old
parent to those of the new one, and extends the chains of the nodes below it anew, a
parent always before its children. Once the chain of a parent is in place, extending puts
the child's in place, however often it is done (`Settles.foldl`). So propagation is
followed level by level (`Settles.below`).

`get?_relinked` says how every node of a flattened forest reads afterwards. A node below
the relinked one keeps the part of its chain below that node and gets a new beginning
(`newChain`); all other chains are left alone. `Flattened.relinked` follows : the forest is
flattened again if the new parent is not below the relinked node.
-/

namespace NameResolution

namespace Forest

variable {f g g' u : Forest} {id p q x : NodeId} {n m : TypeNode} {l : List NodeId}
  {parent : Option NodeId} {ancestors : Option (List NodeId)}

/-! ## Changes that keep the set of nodes -/

/-- The same slots hold values, none has been emptied, and the limit is the same. -/
structure Reworked (f g : Forest) : Prop where
  wellFormed : f.nodes.WellFormed → g.nodes.WellFormed
  extends_nodes : f.nodes.Extends g.nodes
  size : g.nodes.slots.size = f.nodes.slots.size
  count : g.nodes.size = f.nodes.size
  maxDepth : g.maxDepth = f.maxDepth
  unwrapped : f.nodes.Unwrapped → g.nodes.Unwrapped

theorem Reworked.refl (f : Forest) : f.Reworked f :=
  ⟨id, .refl _, rfl, rfl, rfl, id⟩

theorem Reworked.trans (h : f.Reworked g) (h' : g.Reworked u) : f.Reworked u :=
  ⟨fun hw => h'.wellFormed (h.wellFormed hw), h.extends_nodes.trans h'.extends_nodes,
    h'.size.trans h.size, h'.count.trans h.count, h'.maxDepth.trans h.maxDepth,
    fun hu => h'.unwrapped (h.unwrapped hu)⟩

theorem reworked_modify (f : Forest) (id : NodeId) (F : TypeNode → TypeNode) :
    f.Reworked { f with nodes := f.nodes.modify id F } :=
  ⟨fun hw => hw.modify id F, SlotTable.extends_modify id F, SlotTable.size_slots_modify id F,
    SlotTable.size_modify id F, rfl, fun hu => hu.modify id F⟩

theorem reworked_detach (f : Forest) (id : NodeId) (old : Option NodeId) :
    f.Reworked { f with nodes := match old with
      | some old => f.nodes.modify old fun n => { n with children := n.children.erase id }
      | none => f.nodes } := by
  cases old with
  | none => exact .refl f
  | some old => exact reworked_modify f old _

theorem reworked_move (f : Forest) (id : NodeId) (parent : Option NodeId) :
    f.Reworked (f.move id parent) := by
  have hold := reworked_detach f id (f.parent? id)
  unfold move
  cases parent with
  | none => exact hold.trans (reworked_modify _ id _)
  | some new => exact (hold.trans (reworked_modify _ new _)).trans (reworked_modify _ id _)

/-- To mend chains is rework. -/
theorem reworked_foldl_extendUnder (f : Forest) (id : NodeId) (l : List NodeId) :
    f.Reworked (l.foldl (extendUnder id) f) := by
  induction l generalizing f with
  | nil => exact .refl f
  | cons d l ih => exact (reworked_modify f d _).trans (ih _)

/-- To move a node and to give it a chain is rework. -/
theorem reworked_moved (f : Forest) (id : NodeId) (parent : Option NodeId)
    (ancestors : Option (List NodeId)) : f.Reworked (f.moved id parent ancestors) :=
  (reworked_move f id parent).trans (reworked_modify _ id _)

/-- Relinking is rework. -/
theorem reworked_relinked (f : Forest) (id : NodeId) (parent : Option NodeId)
    (ancestors : Option (List NodeId)) : f.Reworked (f.relinked id parent ancestors) :=
  (reworked_moved f id parent ancestors).trans (reworked_foldl_extendUnder _ id _)

/-! ## Moving a node -/

/-- The children of a node once `id` has been moved under `parent`. -/
def movedChildren (f : Forest) (id : NodeId) (parent : Option NodeId) (x : NodeId)
    (n : TypeNode) : HandleSet .node :=
  let kept := if f.parent? id = some x then n.children.erase id else n.children
  if parent = some x then (kept.prune f.nodes).insert id else kept

/-- Taking `id` out of the children of its old parent. -/
theorem get?_detach (f : Forest) (id : NodeId) (old : Option NodeId) (x : NodeId) :
    SlotTable.get? (match old with
      | some old => f.nodes.modify old fun n => { n with children := n.children.erase id }
      | none => f.nodes) x = (f.nodes.get? x).map fun n =>
        { n with children := if old = some x then n.children.erase id else n.children } := by
  cases old with
  | none => simp
  | some old =>
    simp only [SlotTable.get?_modify, Option.some.injEq]
    by_cases hx : x = old
    · simp [hx]
    · simp [hx, Ne.symm hx]

/-- Putting `id` among the children of its new parent. -/
theorem get?_adopt (t : SlotTable .node TypeNode) (id : NodeId) (parent : Option NodeId)
    (x : NodeId) :
    SlotTable.get? (match parent with
      | some new => t.modify new fun n => { n with children := (n.children.prune t).insert id }
      | none => t) x = (t.get? x).map fun n =>
        { n with children :=
            if parent = some x then (n.children.prune t).insert id else n.children } := by
  cases parent with
  | none => simp
  | some new =>
    simp only [SlotTable.get?_modify, Option.some.injEq]
    by_cases hx : x = new
    · simp [hx]
    · simp [hx, Ne.symm hx]

theorem contains_detach (f : Forest) (id : NodeId) (old : Option NodeId) (x : NodeId) :
    SlotTable.contains (match old with
      | some old => f.nodes.modify old fun n => { n with children := n.children.erase id }
      | none => f.nodes) x = f.nodes.contains x := by
  rw [SlotTable.contains, get?_detach, Option.isSome_map, SlotTable.contains]

theorem get?_move (f : Forest) (id : NodeId) (parent : Option NodeId) (x : NodeId) :
    (f.move id parent).nodes.get? x = (f.nodes.get? x).map fun n =>
      { n with
        parent := if x = id then parent else n.parent
        children := f.movedChildren id parent x n } := by
  simp only [move]
  rw [SlotTable.get?_modify]
  have hstep : ∀ y, SlotTable.get? _ y = _ := fun y =>
    (get?_adopt _ id parent y).trans (by rw [get?_detach f id (f.parent? id) y])
  have hprune := fun s => HandleSet.prune_congr (contains_detach f id (f.parent? id)) s
  by_cases hx : x = id
  · subst hx
    simp only [if_true]
    refine (congrArg _ (hstep x)).trans ?_
    simp [movedChildren, Function.comp_def, hprune]
  · simp only [hx, if_false]
    refine (hstep x).trans ?_
    simp [movedChildren, Function.comp_def, hprune]

theorem get?_setAncestors (f : Forest) (id : NodeId) (ancestors : Option (List NodeId))
    (x : NodeId) : (f.setAncestors id ancestors).nodes.get? x =
      (f.nodes.get? x).map fun n => if x = id then { n with ancestors } else n := by
  unfold setAncestors
  rw [SlotTable.get?_modify]
  split_ifs with hx <;> simp [hx]

theorem contains_setAncestors (f : Forest) (id : NodeId) (ancestors : Option (List NodeId))
    (x : NodeId) : (f.setAncestors id ancestors).nodes.contains x = f.nodes.contains x :=
  SlotTable.contains_modify id _ x

theorem children_setAncestors (f : Forest) (id : NodeId) (ancestors : Option (List NodeId))
    (q : NodeId) : (f.setAncestors id ancestors).children q = f.children q := by
  unfold children
  rw [get?_setAncestors]
  cases f.nodes.get? q with
  | none => rfl
  | some n =>
    simp only [Option.map_some, HandleSet.live, funext (contains_setAncestors f id ancestors)]
    split_ifs <;> rfl

/-- What is read at a node when one has moved : the owner stays, and the rest is as the move has
it. -/
theorem get?_moved (f : Forest) (id : NodeId) (parent : Option NodeId)
    (ancestors : Option (List NodeId)) (x : NodeId) :
    (f.moved id parent ancestors).nodes.get? x =
      (f.nodes.get? x).map fun n =>
        { owner := n.owner
          parent := if x = id then parent else n.parent
          ancestors := if x = id then ancestors else n.ancestors
          children := f.movedChildren id parent x n } := by
  rw [moved, get?_setAncestors, get?_move, Option.map_map]
  congr 1
  funext n
  by_cases hx : x = id <;> simp [hx]

theorem contains_moved (f : Forest) (id : NodeId) (parent : Option NodeId)
    (ancestors : Option (List NodeId)) (x : NodeId) :
    (f.moved id parent ancestors).nodes.contains x = f.nodes.contains x := by
  rw [SlotTable.contains, get?_moved, Option.isSome_map, SlotTable.contains]

/-- The parents after a move. -/
theorem parent?_moved (f : Forest) (id : NodeId) (parent : Option NodeId)
    (ancestors : Option (List NodeId)) (x : NodeId) :
    (f.moved id parent ancestors).parent? x =
      (f.nodes.get? x).bind fun n => if x = id then parent else n.parent := by
  rw [parent?, get?_moved, Option.bind_map]
  rfl

/-- A parent after a move is the new one, or one from before. -/
theorem parent?_moved_cases (h : (f.moved id parent ancestors).parent? x = some q) :
    (x = id ∧ parent = some q) ∨ (x ≠ id ∧ f.parent? x = some q) := by
  rw [parent?_moved] at h
  obtain ⟨n, hn, hq⟩ := Option.bind_eq_some_iff.1 h
  split_ifs at hq with hx
  · exact Or.inl ⟨hx, hq⟩
  · exact Or.inr ⟨hx, (parent?_of_get? hn).trans hq⟩

/-- The live children of a node when one has moved. -/
theorem children_moved (f : Forest) (id : NodeId) (parent : Option NodeId)
    (ancestors : Option (List NodeId)) (p : NodeId) :
    (f.moved id parent ancestors).children p = ((f.nodes.get? p).map fun n =>
      (f.movedChildren id parent p n).live f.nodes).getD [] := by
  unfold children
  rw [get?_moved]
  cases f.nodes.get? p with
  | none => rfl
  | some n =>
    simp only [Option.map_some, HandleSet.live, funext (contains_moved f id parent ancestors),
      Option.getD_some]

/-! ## Extending chains level by level -/

/-- The chain that a node carries. -/
def ancestors? (f : Forest) (id : NodeId) : Option (List NodeId) :=
  (f.nodes.get? id).bind TypeNode.ancestors

/-- To mend a chain changes one chain. -/
theorem get?_extendUnder (f : Forest) (id x y : NodeId) :
    (f.extendUnder id x).nodes.get? y = (f.nodes.get? y).map fun n =>
      if y = x then { n with ancestors := some (f.chain ((f.parent? x).getD id) ++ [x]) } else n :=
  get?_setAncestors f x _ y

theorem ancestors?_extendUnder_of_ne (hx : x ≠ p) (id : NodeId) :
    (f.extendUnder id p).ancestors? x = f.ancestors? x := by
  rw [ancestors?, get?_extendUnder, ancestors?]
  simp [hx]

theorem ancestors?_extendUnder_self (hp : f.parent? x = some p) (id : NodeId) :
    (f.extendUnder id x).ancestors? x = some (f.chain p ++ [x]) := by
  obtain ⟨n, hn, -⟩ := parent?_eq_some_iff.1 hp
  simp [ancestors?, get?_extendUnder, hn, hp]

/-- Extending chains changes nothing but chains. -/
theorem map_get?_foldl_extendUnder {β : Type} {F : TypeNode → β}
    (hF : ∀ n ancestors, F { n with ancestors } = F n) (l : List NodeId) (f : Forest)
    (x : NodeId) :
    ((l.foldl (extendUnder id) f).nodes.get? x).map F = (f.nodes.get? x).map F := by
  induction l generalizing f with
  | nil => rfl
  | cons d l ih =>
    refine (ih _).trans ?_
    rw [get?_extendUnder, Option.map_map]
    congr 1
    funext n
    by_cases hx : x = d <;> simp [hx, hF]

theorem parent?_foldl_extendUnder (id : NodeId) (l : List NodeId) (f : Forest) (x : NodeId) :
    (l.foldl (extendUnder id) f).parent? x = f.parent? x := by
  have hparent (g : Forest) : g.parent? x = ((g.nodes.get? x).map TypeNode.parent).join := by
    rw [parent?]
    cases g.nodes.get? x <;> rfl
  rw [hparent, hparent, map_get?_foldl_extendUnder fun _ _ => rfl]

/-- Visits leave the lists of children alone. -/
def KeepsChildren (visit : Forest → NodeId → Forest) : Prop :=
  ∀ f x y, (visit f x).children y = f.children y

/-- To mend a chain leaves the children alone. -/
theorem keepsChildren_extendUnder (id : NodeId) : KeepsChildren (extendUnder id) :=
  fun _ _ _ => children_setAncestors _ _ _ _

theorem KeepsChildren.foldl {visit : Forest → NodeId → Forest} (hv : KeepsChildren visit)
    (l : List NodeId) (f : Forest) (y : NodeId) :
    (l.foldl visit f).children y = f.children y := by
  induction l generalizing f with
  | nil => rfl
  | cons x l ih => exact (ih _).trans (hv f x y)

/-- Chains `A` that extending leads to, whichever nodes it is done to : each continues that of the
parent, and what is listed has one. The rank of a node says after how many levels its chain is in
place. -/
structure Settles (f : Forest) (A : NodeId → Option (List NodeId)) (rank : NodeId → Nat) :
    Prop where
  parented : ∀ d q, d ∈ f.children q → f.parent? d ≠ none
  continues : ∀ d q, f.parent? d = some q → A d = some ((A q).getD [q] ++ [d])
  bottom : ∀ d q, f.parent? d = some q → rank d = 0 → rank q = 0
  climbs : ∀ d k, rank d = k + 1 → ∃ q, f.parent? d = some q ∧ rank q = k ∧ d ∈ f.children q

namespace Settles

variable {A : NodeId → Option (List NodeId)} {rank : NodeId → Nat} {j : Nat}

/-- The rank of a parent is one less, down to the bottom. -/
theorem rank_parent_le (h : Settles f A rank) (hq : f.parent? x = some q) (hx : rank x ≤ j + 1) :
    rank q ≤ j := by
  rcases Nat.eq_zero_or_pos (rank x) with h0 | hpos
  · rw [h.bottom x q hq h0]
    exact Nat.zero_le j
  · obtain ⟨q', hq', hrank, -⟩ := h.climbs x (rank x - 1) (by omega)
    obtain rfl := Option.some.inj (hq.symm.trans hq')
    omega

/-- Once the chain of the parent is in place, extending puts the child's in place. -/
theorem extendUnder (h : Settles f A rank) (hp : ∀ x, g.parent? x = f.parent? x)
    (hj : ∀ x, rank x ≤ j → g.ancestors? x = A x) (hq : f.parent? x = some q)
    (hx : rank x ≤ j + 1) : (g.extendUnder id x).ancestors? x = A x := by
  rw [ancestors?_extendUnder_self ((hp x).trans hq), h.continues x q hq,
    ← hj q (h.rank_parent_le hq hx)]
  rfl

/-- Extending a list of nodes puts their chains in place and leaves in place what is there, up to
the first level that is not. -/
theorem foldl (h : Settles f A rank) (l : List NodeId) (hl : ∀ d ∈ l, f.parent? d ≠ none)
    (hp : ∀ x, g.parent? x = f.parent? x) (hj : ∀ x, rank x ≤ j → g.ancestors? x = A x)
    (hrank : rank x ≤ j + 1) (hx : g.ancestors? x = A x ∨ x ∈ l) :
    (l.foldl (Forest.extendUnder id) g).ancestors? x = A x := by
  induction l generalizing g with
  | nil => exact hx.resolve_right List.not_mem_nil
  | cons d l ih =>
    obtain ⟨q, hq⟩ := Option.ne_none_iff_exists'.1 (hl d List.mem_cons_self)
    have hstep (y : NodeId) (hy : rank y ≤ j + 1) (hin : g.ancestors? y = A y ∨ y = d) :
        (g.extendUnder id d).ancestors? y = A y := by
      by_cases hyd : y = d
      · subst hyd
        exact h.extendUnder hp hj hq hy
      · rw [ancestors?_extendUnder_of_ne hyd, hin.resolve_right hyd]
    refine ih (fun y hy => hl y (List.mem_cons_of_mem d hy))
      (fun y => (parent?_foldl_extendUnder id [d] g y).trans (hp y))
      (fun y hy => hstep y (Nat.le_succ_of_le hy) (Or.inl (hj y hy))) ?_
    rcases hx with hx | hx
    · exact Or.inl (hstep x hrank (Or.inl hx))
    · exact (List.mem_cons.1 hx).imp (fun hx => hstep x hrank (Or.inr hx)) fun hx => hx

/-- Extending level by level puts the chains of so many levels in place. -/
theorem below (h : Settles f A rank) (n : Nat) {l : List NodeId}
    (hl : ∀ d, rank d = j + 1 → ∃ q ∈ l, d ∈ f.children q)
    (hp : ∀ x, g.parent? x = f.parent? x) (hj : ∀ x, rank x ≤ j → g.ancestors? x = A x) :
    ∀ x, rank x ≤ j + n →
      ((f.below n l).foldl (Forest.extendUnder id) g).ancestors? x = A x := by
  induction n generalizing j l g with
  | zero => exact hj
  | succ n ih =>
    have hnext (d : NodeId) (hd : rank d = j + 1) : d ∈ l.flatMap f.children :=
      List.mem_flatMap.2 (hl d hd)
    have hparented (d : NodeId) (hd : d ∈ l.flatMap f.children) : f.parent? d ≠ none := by
      obtain ⟨q, -, hd⟩ := List.mem_flatMap.1 hd
      exact h.parented d q hd
    have hj' (x : NodeId) (hx : rank x ≤ j + 1) :
        ((l.flatMap f.children).foldl (Forest.extendUnder id) g).ancestors? x = A x := by
      refine h.foldl _ hparented hp hj hx ?_
      rcases Nat.lt_or_ge j (rank x) with hlt | hle
      · exact Or.inr (hnext x (by omega))
      · exact Or.inl (hj x hle)
    have hp' (x : NodeId) :
        ((l.flatMap f.children).foldl (Forest.extendUnder id) g).parent? x = f.parent? x :=
      (parent?_foldl_extendUnder id _ g x).trans (hp x)
    intro x hx
    rw [below_succ, List.foldl_append]
    refine ih (fun d hd => ?_) hp' hj' x (by omega)
    obtain ⟨q, -, hq, hd⟩ := h.climbs d (j + 1) hd
    exact ⟨q, hnext q hq, hd⟩

end Settles

/-! ## Relinking -/

/-- The chain of a node at or below `id` once the chain of `id` is `base` : what follows
`id` is kept. -/
def newChain (f : Forest) (id : NodeId) (base : List NodeId) (x : NodeId) : List NodeId :=
  base ++ (f.chain x).drop (f.chain id).length

theorem newChain_self (f : Forest) (id : NodeId) (base : List NodeId) :
    f.newChain id base id = base := by
  simp [newChain]

/-- Whether `id` can be put under `parent` : the parent is live and not below `id`. -/
def Admits (f : Forest) (id : NodeId) (parent : Option NodeId) : Prop :=
  ∀ p, parent = some p → f.nodes.contains p = true ∧ id ∉ f.chain p

/-- The chains that relinking leads to. -/
def ancestorsAfter (f : Forest) (id : NodeId) (ancestors : Option (List NodeId)) (x : NodeId) :
    Option (List NodeId) :=
  (f.nodes.get? x).bind fun n =>
    if x = id then ancestors
    else if id ∈ f.chain x then some (f.newChain id (ancestors.getD [id]) x)
    else n.ancestors

/-- How far a node is below another one; elsewhere it is nothing. -/
def rankBelow (f : Forest) (id x : NodeId) : Nat :=
  if id ∈ f.chain x then (f.chain x).length - (f.chain id).length else 0

/-- Relinking treats nodes as the move does, but for their chains. -/
theorem map_get?_relinked {β : Type} {F : TypeNode → β}
    (hF : ∀ n ancestors, F { n with ancestors } = F n) (f : Forest) (id : NodeId)
    (parent : Option NodeId) (ancestors : Option (List NodeId)) (x : NodeId) :
    ((f.relinked id parent ancestors).nodes.get? x).map F =
      ((f.moved id parent ancestors).nodes.get? x).map F :=
  map_get?_foldl_extendUnder hF _ _ x

/-- Relinking makes no node and frees none. -/
theorem contains_relinked (f : Forest) (id : NodeId) (parent : Option NodeId)
    (ancestors : Option (List NodeId)) (x : NodeId) :
    (f.relinked id parent ancestors).nodes.contains x = f.nodes.contains x := by
  have hsome := congrArg Option.isSome
    (map_get?_relinked (F := TypeNode.owner) (fun _ _ => rfl) f id parent ancestors x)
  rw [Option.isSome_map, Option.isSome_map] at hsome
  exact hsome.trans (contains_moved f id parent ancestors x)

/-- One node has the parent that was asked for, and the others have theirs. -/
theorem parent?_relinked (hid : f.nodes.contains id = true) (parent : Option NodeId)
    (ancestors : Option (List NodeId)) (x : NodeId) :
    (f.relinked id parent ancestors).parent? x = if x = id then parent else f.parent? x := by
  refine (parent?_foldl_extendUnder id _ _ x).trans ?_
  rw [parent?_moved]
  split_ifs with hx
  · obtain ⟨n, hn⟩ := SlotTable.contains_iff.1 hid
    rw [hx, hn, Option.bind_some]
  · rfl

/-! ## The children of a relinked forest -/

theorem nodup_movedChildren (hn : n.children.members.Nodup) :
    (f.movedChildren id parent x n).members.Nodup := by
  have hkept :
      (if f.parent? id = some x then n.children.erase id else n.children).members.Nodup := by
    split_ifs
    · exact HandleSet.nodup_erase hn id
    · exact hn
  unfold movedChildren
  split_ifs at hkept ⊢
  · exact HandleSet.nodup_insert (HandleSet.nodup_prune hkept _) id
  · exact hkept
  · exact HandleSet.nodup_insert (HandleSet.nodup_prune hkept _) id
  · exact hkept

/-- Another node than the relinked one is listed where it was listed before. -/
theorem mem_movedChildren_of_ne (hn : n.children.members.Nodup) {c : NodeId} (hne : c ≠ id)
    (hc : f.nodes.contains c = true) :
    c ∈ (f.movedChildren id parent x n).members ↔ c ∈ n.children.members := by
  have herase := HandleSet.mem_erase (h := id) (k := c) hn
  unfold movedChildren
  split_ifs <;> simp [HandleSet.mem_insert, HandleSet.mem_prune, herase, hne, hc]

/-- A move lists no child but the one that moves and those that were listed. -/
theorem mem_of_mem_movedChildren (hn : n.children.members.Nodup) {c : NodeId}
    (hc : c ∈ (f.movedChildren id parent x n).members) : c = id ∨ c ∈ n.children.members := by
  have herase := HandleSet.mem_erase (h := id) (k := c) hn
  unfold movedChildren at hc
  split_ifs at hc <;>
    simp only [HandleSet.mem_insert, HandleSet.mem_prune, herase] at hc <;> tauto

/-- The relinked node is listed by its new parent. -/
theorem mem_movedChildren_self : id ∈ (f.movedChildren id (some x) x n).members := by
  simp [movedChildren, HandleSet.mem_insert]

namespace Threaded

variable (hf : f.Threaded)

include hf

/-- The new chain of a node continues that of its parent. -/
theorem newChain_of_parent? (base : List NodeId) (hp : f.parent? x = some p)
    (hid : id ∈ f.chain p) : f.newChain id base x = f.newChain id base p ++ [x] := by
  have hle := (hf.chain_prefix_of_mem hid).length_le
  rw [newChain, newChain, hf.chain_of_parent? hp, List.drop_append_of_le_length hle,
    List.append_assoc]

/-- Another node than the relinked one stays a child of its parent. -/
theorem mem_children_moved (hx : x ≠ id) (hq : f.parent? x = some q) :
    x ∈ (f.moved id parent ancestors).children q := by
  obtain ⟨n, hn, hnq⟩ := parent?_eq_some_iff.1 hq
  obtain ⟨m, hm, hxm, -⟩ := hf.linked x n q hn hnq
  have hxc := SlotTable.contains_of_get? hn
  rw [children_moved, hm, Option.map_some, Option.getD_some, HandleSet.mem_live]
  exact ⟨(mem_movedChildren_of_ne (hf.nodup q m hm) hx hxc).2 hxm, hxc⟩

/-! ## Chains after relinking -/

/-- A node further down is a child of one a level above it. -/
theorem exists_parent_of_rankBelow {k : Nat} (hk : f.rankBelow id x = k + 1) :
    ∃ q, f.parent? x = some q ∧ x ≠ id ∧ id ∈ f.chain q ∧
      (f.chain q).length = (f.chain id).length + k := by
  unfold rankBelow at hk
  split_ifs at hk with hmem
  have hx : x ≠ id := by
    rintro rfl
    omega
  cases hq : f.parent? x with
  | none =>
    rw [hf.chain_of_parent?_eq_none hq, List.mem_singleton] at hmem
    exact absurd hmem.symm hx
  | some q =>
    rw [hf.chain_of_parent? hq, List.length_append, List.length_singleton] at hk
    exact ⟨q, rfl, hx, ((hf.mem_chain_of_parent? hq).1 hmem).resolve_right (Ne.symm hx), by omega⟩

/-- Where the rank is nothing, there is the node itself or none below it. -/
theorem eq_or_notMem_of_rankBelow (h0 : f.rankBelow id x = 0) : x = id ∨ id ∉ f.chain x := by
  by_cases hmem : id ∈ f.chain x
  · rw [rankBelow, if_pos hmem] at h0
    have hpre := hf.chain_prefix_of_mem hmem
    have heq := hpre.eq_of_length_le (by omega)
    exact Or.inl (hf.eq_of_mem_chain (heq ▸ hf.mem_chain_self x) hmem)
  · exact Or.inr hmem

/-- What relinking leads to as a chain. -/
theorem getD_ancestorsAfter (ancestors : Option (List NodeId)) (hx : f.nodes.contains x = true) :
    (f.ancestorsAfter id ancestors x).getD [x] =
      if id ∈ f.chain x then f.newChain id (ancestors.getD [id]) x else f.chain x := by
  obtain ⟨n, hn⟩ := SlotTable.contains_iff.1 hx
  rw [ancestorsAfter, hn, Option.bind_some]
  by_cases hid : x = id
  · subst hid
    simp [hf.mem_chain_self, newChain_self]
  · rw [if_neg hid]
    split_ifs with hmem
    · rfl
    · exact (chain_of_get? hn).symm

end Threaded

namespace Flattened

variable (hf : f.Flattened)

include hf

/-- The relinked node is listed by its new parent alone. -/
theorem eq_of_mem_movedChildren_self (hid : f.nodes.contains id = true)
    (hn : f.nodes.get? x = some n) (hmem : id ∈ (f.movedChildren id parent x n).members) :
    parent = some x := by
  by_contra hp
  have herase := HandleSet.mem_erase (h := id) (k := id) (hf.nodup x n hn)
  rw [movedChildren, if_neg hp] at hmem
  split_ifs at hmem with hold
  · exact (herase.1 hmem).1 rfl
  · exact hold (hf.listed x n id hn hmem hid)

/-- After the move, too, what is listed and live has the listing node as its parent. -/
theorem parent?_moved_of_mem_children (hid : f.nodes.contains id = true)
    (hx : x ∈ (f.moved id parent ancestors).children p) :
    (f.moved id parent ancestors).parent? x = some p := by
  rw [children_moved] at hx
  cases hm : f.nodes.get? p with
  | none => simp [hm] at hx
  | some m =>
    rw [hm, Option.map_some, Option.getD_some, HandleSet.mem_live] at hx
    obtain ⟨hmem, hlive⟩ := hx
    obtain ⟨n, hn⟩ := SlotTable.contains_iff.1 hlive
    rw [parent?_moved, hn, Option.bind_some]
    split_ifs with hxid
    · exact hf.eq_of_mem_movedChildren_self hid hm (hxid ▸ hmem)
    · rw [← parent?_of_get? hn]
      exact hf.listed p m x hm ((mem_movedChildren_of_ne (hf.nodup p m hm) hxid hlive).1 hmem) hlive

section Relinked

variable (hid : f.nodes.contains id = true) (hadm : f.Admits id parent)
  (hsome : ∀ p, parent = some p → ancestors = some (f.chain p ++ [id]))

include hid hadm hsome

/-- After the move the chains settle, level by level below the relinked node. -/
theorem settles_move : Settles (f.moved id parent ancestors)
    (f.ancestorsAfter id ancestors) (f.rankBelow id) := by
  refine ⟨fun d q hd => ?_, fun d q hq => ?_, fun d q hq h0 => ?_, fun d k hk => ?_⟩
  · rw [hf.parent?_moved_of_mem_children hid hd]
    nofun
  · rcases parent?_moved_cases hq with ⟨rfl, hnew⟩ | ⟨hd, hq⟩
    · obtain ⟨hqc, hnot⟩ := hadm q hnew
      obtain ⟨n, hn⟩ := SlotTable.contains_iff.1 hid
      rw [hf.getD_ancestorsAfter _ hqc, if_neg hnot, ancestorsAfter, hn, Option.bind_some,
        if_pos rfl, hsome q hnew]
    · obtain ⟨n, hn, hnq⟩ := parent?_eq_some_iff.1 hq
      obtain ⟨-, -, -, ha⟩ := hf.linked d n q hn hnq
      have hmem : id ∈ f.chain d ↔ id ∈ f.chain q := by
        rw [hf.mem_chain_of_parent? hq]
        simp [Ne.symm hd]
      rw [hf.getD_ancestorsAfter _ (hf.contains_of_parent? hq), ancestorsAfter, hn,
        Option.bind_some, if_neg hd]
      by_cases hc : id ∈ f.chain q
      · rw [if_pos (hmem.2 hc), if_pos hc, hf.newChain_of_parent? _ hq hc]
      · rw [if_neg (mt hmem.1 hc), if_neg hc, ha]
  · rcases parent?_moved_cases hq with ⟨rfl, hnew⟩ | ⟨hd, hq⟩
    · rw [rankBelow, if_neg (hadm q hnew).2]
    · have hnot := (hf.eq_or_notMem_of_rankBelow h0).resolve_left hd
      rw [rankBelow, if_neg fun hmem => hnot ((hf.mem_chain_of_parent? hq).2 (Or.inl hmem))]
  · obtain ⟨q, hq, hd, hmem, hlen⟩ := hf.exists_parent_of_rankBelow hk
    obtain ⟨n, hn, hnq⟩ := parent?_eq_some_iff.1 hq
    refine ⟨q, ?_, ?_, hf.mem_children_moved hd hq⟩
    · rw [parent?_moved, hn, Option.bind_some, if_neg hd, hnq]
    · rw [rankBelow, if_pos hmem, hlen, Nat.add_sub_cancel_left]

/-- Propagation puts the new chains in place. -/
theorem ancestors?_relinked (x : NodeId) :
    (f.relinked id parent ancestors).ancestors? x =
      f.ancestorsAfter id ancestors x := by
  have hsize : (f.moved id parent ancestors).nodes.slots.size =
      f.nodes.slots.size :=
    ((reworked_move f id parent).trans (reworked_modify _ id _)).size
  have hrank : f.rankBelow id x ≤ 0 + f.nodes.slots.size := by
    cases hr : f.rankBelow id x with
    | zero => exact Nat.zero_le _
    | succ k =>
      obtain ⟨q, hq, -, -, hlen⟩ := hf.exists_parent_of_rankBelow hr
      have hle := hf.length_chain_le (hf.contains_of_parent? hq)
      have hpos := hf.length_chain_pos id
      omega
  rw [relinked, propagate, descendants, hsize]
  refine (hf.settles_move hid hadm hsome).below _ (fun d hd => ?_) (fun _ => rfl)
    (fun y hy => ?_) x hrank
  · -- The first level below the relinked node is that of its children.
    obtain ⟨q, hq, hd, hmem, hlen⟩ := hf.exists_parent_of_rankBelow hd
    obtain rfl : q = id := by
      refine (hf.eq_or_notMem_of_rankBelow ?_).resolve_right (not_not_intro hmem)
      rw [rankBelow, if_pos hmem, hlen, Nat.add_zero, Nat.sub_self]
    exact ⟨q, List.mem_singleton_self q, hf.mem_children_moved hd hq⟩
  · rw [ancestors?, get?_moved, Option.bind_map, ancestorsAfter]
    congr 1
    funext n
    by_cases hyid : y = id
    · simp [hyid]
    · have hnot := (hf.eq_or_notMem_of_rankBelow (Nat.le_zero.1 hy)).resolve_left hyid
      simp [hyid, hnot]

/-- How a node reads once `id` has been relinked. -/
theorem get?_relinked (x : NodeId) :
    (f.relinked id parent ancestors).nodes.get? x =
      (f.nodes.get? x).map fun n =>
        { owner := n.owner
          parent := if x = id then parent else n.parent
          ancestors :=
            if x = id then ancestors
            else if id ∈ f.chain x then some (f.newChain id (ancestors.getD [id]) x)
            else n.ancestors
          children := f.movedChildren id parent x n } := by
  have hrest := map_get?_relinked (F := fun n : TypeNode => (n.owner, n.parent, n.children))
    (fun _ _ => rfl) f id parent ancestors x
  have hchain := hf.ancestors?_relinked hid hadm hsome x
  rw [get?_moved, Option.map_map] at hrest
  rw [ancestorsAfter, ancestors?] at hchain
  cases hn : f.nodes.get? x with
  | none =>
    rw [hn, Option.map_none, Option.map_eq_none_iff] at hrest
    rw [hrest, Option.map_none]
  | some n =>
    rw [hn, Option.map_some, Option.map_eq_some_iff] at hrest
    obtain ⟨m, hm, hmn⟩ := hrest
    rw [hm, hn, Option.bind_some, Option.bind_some] at hchain
    obtain ⟨howner, hparent, hchildren⟩ : m.owner = n.owner ∧
        m.parent = (if x = id then parent else n.parent) ∧
          m.children = f.movedChildren id parent x n := by
      simpa using hmn
    rw [hm, Option.map_some, ← howner, ← hparent, ← hchain, ← hchildren]

/-- Chains after relinking : those below the relinked node begin anew. -/
theorem chain_relinked (hx : f.nodes.contains x = true) :
    (f.relinked id parent ancestors).chain x =
      if id ∈ f.chain x then f.newChain id (ancestors.getD [id]) x else f.chain x := by
  rw [← hf.getD_ancestorsAfter ancestors hx, ← hf.ancestors?_relinked hid hadm hsome x]
  rfl

/-- After relinking, every node with a parent is listed there and continues its chain. -/
theorem linked_relinked (hm : (f.relinked id parent ancestors).nodes.get? x = some m)
    (hp : m.parent = some p) :
    ∃ k, (f.relinked id parent ancestors).nodes.get? p = some k ∧
      x ∈ k.children.members ∧
      m.ancestors = some ((f.relinked id parent ancestors).chain p ++ [x]) := by
  rw [hf.get?_relinked hid hadm hsome, Option.map_eq_some_iff] at hm
  obtain ⟨n, hn, rfl⟩ := hm
  by_cases hx : x = id
  · subst hx
    obtain rfl : parent = some p := by simpa using hp
    obtain ⟨hpc, hnot⟩ := hadm p rfl
    obtain ⟨k, hk⟩ := SlotTable.contains_iff.1 hpc
    refine ⟨_, (hf.get?_relinked hid hadm hsome p).trans (by rw [hk, Option.map_some]),
      mem_movedChildren_self, ?_⟩
    rw [hf.chain_relinked hid hadm hsome hpc, if_neg hnot]
    simp [hsome p rfl]
  · simp only [hx, if_false] at hp ⊢
    have hpar : f.parent? x = some p := by rw [parent?_of_get? hn, hp]
    obtain ⟨k, hk, hxk, ha⟩ := hf.linked x n p hn hp
    refine ⟨_, (hf.get?_relinked hid hadm hsome p).trans (by rw [hk, Option.map_some]),
      (mem_movedChildren_of_ne (hf.nodup p k hk) hx (SlotTable.contains_of_get? hn)).2 hxk, ?_⟩
    have hmem : id ∈ f.chain x ↔ id ∈ f.chain p := by
      rw [hf.mem_chain_of_parent? hpar]
      simp [Ne.symm hx]
    rw [hf.chain_relinked hid hadm hsome (SlotTable.contains_of_get? hk)]
    by_cases hc : id ∈ f.chain p
    · simp [hmem, hc, hf.newChain_of_parent? _ hpar hc]
    · simp [hmem, hc, ha]

/-- A forest stays flattened when a node is put under a live parent that is not below it,
with the chain that continues the parent's, or made a root. -/
theorem relinked (hnone : parent = none → ancestors = none ∨ ancestors = some [id]) :
    (f.relinked id parent ancestors).Flattened := by
  have hre := reworked_relinked f id parent ancestors
  refine ⟨⟨hre.wellFormed hf.wellFormed, ?_, ?_, ?_⟩, ?_, ?_⟩
  · intro p m hm
    rw [hf.get?_relinked hid hadm hsome, Option.map_eq_some_iff] at hm
    obtain ⟨n, hn, rfl⟩ := hm
    exact nodup_movedChildren (hf.nodup p n hn)
  · exact fun x m p hm hp => hf.linked_relinked hid hadm hsome hm hp
  · intro x m hm hp
    rw [hf.get?_relinked hid hadm hsome, Option.map_eq_some_iff] at hm
    obtain ⟨n, hn, rfl⟩ := hm
    by_cases hx : x = id
    · subst hx
      simpa using hnone (by simpa using hp)
    · simp only [hx, if_false] at hp ⊢
      have hpar : f.parent? x = none := by rw [parent?_of_get? hn, hp]
      have hc : id ∉ f.chain x := by simpa [hf.chain_of_parent?_eq_none hpar] using Ne.symm hx
      simpa [hc] using hf.unlinked x n hn hp
  · intro p m hm c hc
    rw [hf.get?_relinked hid hadm hsome, Option.map_eq_some_iff] at hm
    obtain ⟨n, hn, rfl⟩ := hm
    apply hre.extends_nodes.issued
    rcases mem_of_mem_movedChildren (hf.nodup p n hn) hc with rfl | hc
    · exact Or.inl hid
    · exact hf.issued p n hn c hc
  · intro p m c hm hc hlive
    rw [hf.get?_relinked hid hadm hsome, Option.map_eq_some_iff] at hm
    obtain ⟨n, hn, rfl⟩ := hm
    rw [contains_relinked] at hlive
    rw [parent?_relinked hid]
    by_cases hx : c = id
    · subst hx
      rw [if_pos rfl, hf.eq_of_mem_movedChildren_self hid hn hc]
    · rw [if_neg hx]
      exact hf.listed p n c hn ((mem_movedChildren_of_ne (hf.nodup p n hn) hx hlive).1 hc) hlive

end Relinked

end Flattened

end Forest

end NameResolution
