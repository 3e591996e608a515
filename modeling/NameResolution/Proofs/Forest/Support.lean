import NameResolution.Proofs.Forest.Flattening

/-!
# What chains rest on in every forest

When the generation of a slot has come round, a node may list one that is no child of it,
and a relinking gives that one a chain, too. Such a forest is not flattened any more. What
is left is that a forest is supported : lists lead from every node of a chain down to the
node whose chain it is, and a parent lists its children (`Supported`). So the nodes of the
chain of a live node are live, and a node that no other one is below of is in no chain but
its own.

Every request keeps a forest supported (`Supported.serve`), with no bound on releases. For
relinking this hangs on the walk below the node : if it ends, there is no cycle of lists
below the node, so no path to a node elsewhere went through the link that is cut
(`Supported.reaches_moved`), and level by level the chains below the node come to rest on
chains that have come to rest (`Walkable.rests_below`).
-/

namespace NameResolution

namespace Forest

variable {f g u : Forest} {id p q x y a : NodeId} {k n : Nat} {l : List NodeId}
  {parent : Option NodeId} {ancestors : Option (List NodeId)}

/-- Lists lead from the nodes of a chain to its end, and from parents to their children. -/
structure Supported (f : Forest) : Prop where
  wellFormed : f.nodes.WellFormed
  nodup : ∀ p m, f.nodes.get? p = some m → m.children.members.Nodup
  listed : ∀ x p, f.parent? x = some p → f.Lists p x
  leads : ∀ x, f.nodes.contains x = true → ∀ a ∈ f.chain x, Relation.ReflTransGen f.Lists a x

/-- The empty forest is supported. -/
theorem supported_empty (maxDepth : Nat) : Supported { maxDepth } := by
  constructor <;>
    simp [SlotTable.get?, SlotTable.slot?, SlotTable.wellFormed_empty, parent?, SlotTable.contains]

/-! ## Releasing -/

/-- A node that can be released lists no live node. -/
theorem not_lists_of_isReleasable (hr : f.isReleasable id = true) : ¬f.Lists id x := by
  intro h
  rw [isReleasable, Bool.and_eq_true, List.isEmpty_iff] at hr
  rw [Lists, hr.2] at h
  cases h

/-- What is released lists nothing, so other nodes stay listed. -/
theorem lists_erase (hr : f.isReleasable id = true) (hx : x ≠ id) (h : f.Lists p x) :
    (f.erase id).Lists p x := by
  have hp : p ≠ id := fun hp => not_lists_of_isReleasable hr (hp ▸ h)
  obtain ⟨m, hm, hmem, hlive⟩ := mem_children_iff.1 h
  refine mem_children_iff.2 ⟨m, ?_, hmem, ?_⟩
  · rw [erase, if_pos hr, SlotTable.get?_erase, if_neg hp, hm]
  · rw [erase, if_pos hr, SlotTable.contains, SlotTable.get?_erase, if_neg hx]
    exact hlive

/-- A path to another node does not go through one that can be released. -/
theorem reaches_erase (hr : f.isReleasable id = true) (hx : x ≠ id)
    (h : Relation.ReflTransGen f.Lists a x) : Relation.ReflTransGen (f.erase id).Lists a x := by
  induction h with
  | refl => exact .refl
  | tail _ hlists ih =>
    exact (ih fun hb => not_lists_of_isReleasable hr (hb ▸ hlists)).tail (lists_erase hr hx hlists)

namespace Supported

variable (hf : f.Supported)

include hf

/-- Every node of the chain of a live node is live. -/
theorem contains_of_mem_chain (hx : f.nodes.contains x = true) (ha : a ∈ f.chain x) :
    f.nodes.contains a = true := by
  rcases (hf.leads x hx a ha).cases_head with rfl | ⟨b, hlists, -⟩
  · exact hx
  · exact hlists.contains_left

theorem ne_next (hx : f.nodes.contains x = true) : x ≠ f.nodes.next := by
  obtain ⟨n, hn⟩ := SlotTable.contains_iff.1 hx
  exact SlotTable.ne_next hf.wellFormed hn

theorem contains_insert (e : EntityId) :
    (f.insert e).nodes.contains x = true ↔ x = f.nodes.next ∨ f.nodes.contains x = true := by
  unfold SlotTable.contains
  rw [get?_insert hf.wellFormed]
  split_ifs with hx <;> simp [hx]

theorem chain_insert (hx : f.nodes.contains x = true) (e : EntityId) :
    (f.insert e).chain x = f.chain x := by
  unfold Forest.chain
  rw [get?_insert hf.wellFormed, if_neg (hf.ne_next hx)]

/-- What is listed stays listed when a node is made. -/
theorem lists_insert (e : EntityId) (h : f.Lists p x) : (f.insert e).Lists p x := by
  obtain ⟨m, hm, hmem, hx⟩ := mem_children_iff.1 h
  refine mem_children_iff.2 ⟨m, ?_, hmem, (hf.contains_insert e).2 (Or.inr hx)⟩
  rw [get?_insert hf.wellFormed, if_neg (hf.ne_next h.contains_left), hm]

/-- A new node keeps a forest supported. -/
theorem insert (e : EntityId) : (f.insert e).Supported := by
  have hget := get?_insert hf.wellFormed e
  refine ⟨hf.wellFormed.insert _, ?_, ?_, ?_⟩
  · intro p m hm
    rw [hget] at hm
    split_ifs at hm with hp
    · obtain rfl := Option.some.inj hm
      simp
    · exact hf.nodup p m hm
  · intro x p hp
    rw [parent?, hget] at hp
    split_ifs at hp with hx
    · cases hp
    · exact hf.lists_insert e (hf.listed x p hp)
  · intro x hx a ha
    rcases (hf.contains_insert e).1 hx with rfl | hx
    · rw [Forest.chain, hget, if_pos rfl] at ha
      rw [List.mem_singleton.1 ha]
    · rw [hf.chain_insert hx] at ha
      exact Relation.ReflTransGen.mono (fun _ _ => hf.lists_insert e) _ _ (hf.leads x hx a ha)

/-- A released node leaves a forest supported. -/
theorem erase (id : NodeId) : (f.erase id).Supported := by
  by_cases hr : f.isReleasable id = true
  · have hget (x : NodeId) : (f.erase id).nodes.get? x =
        if x = id then none else f.nodes.get? x := by
      rw [Forest.erase, if_pos hr, SlotTable.get?_erase]
    refine ⟨?_, fun p m hm => hf.nodup p m (of_get?_erase hm), fun x p hp => ?_,
      fun x hx a ha => ?_⟩
    · rw [Forest.erase, if_pos hr]
      exact hf.wellFormed.erase id
    · rw [parent?, hget] at hp
      split_ifs at hp with hx
      · cases hp
      · exact lists_erase hr hx (hf.listed x p hp)
    · rw [SlotTable.contains, hget] at hx
      rw [Forest.chain, hget] at ha
      split_ifs at hx ha with hxid
      · cases hx
      · exact reaches_erase hr hxid (hf.leads x hx a ha)
  · rwa [Forest.erase, if_neg hr]

end Supported

/-! ## Moving a node -/

section Moved

variable (hf : f.Supported) (hid : f.nodes.contains id = true)
  (hends : (f.moved id parent ancestors).level n [id] = [])

/-- Another node than the one that is moved stays listed. -/
theorem Supported.lists_moved (hf : f.Supported) (hx : x ≠ id) (h : f.Lists p x) :
    (f.moved id parent ancestors).Lists p x := by
  obtain ⟨m, hm, hmem, hlive⟩ := mem_children_iff.1 h
  rw [Lists, children_moved, hm, Option.map_some, Option.getD_some, HandleSet.mem_live]
  exact ⟨(mem_movedChildren_of_ne (hf.nodup p m hm) hx hlive).2 hmem, hlive⟩

/-- The new parent lists the node that has moved. -/
theorem lists_moved_self (hid : f.nodes.contains id = true) (hp : f.nodes.contains p = true) :
    (f.moved id (some p) ancestors).Lists p id := by
  obtain ⟨m, hm⟩ := SlotTable.contains_iff.1 hp
  rw [Lists, children_moved, hm, Option.map_some, Option.getD_some, HandleSet.mem_live]
  exact ⟨mem_movedChildren_self, hid⟩

/-- The node that has moved has the chain that it was given. -/
theorem chain_moved_self (hid : f.nodes.contains id = true) :
    (f.moved id parent ancestors).chain id = ancestors.getD [id] := by
  obtain ⟨n, hn⟩ := SlotTable.contains_iff.1 hid
  simp [chain, get?_moved, hn]

theorem chain_moved_of_ne (hx : x ≠ id) : (f.moved id parent ancestors).chain x = f.chain x := by
  unfold chain
  rw [get?_moved]
  cases f.nodes.get? x <;> simp [hx]

include hf in
/-- A path to a node that is not below the one that is moved does not go through that one. -/
theorem Supported.reaches_moved (hx : x ≠ id)
    (hbelow : ¬Relation.TransGen (f.moved id parent ancestors).Lists id x)
    (h : Relation.ReflTransGen f.Lists a x) :
    Relation.ReflTransGen (f.moved id parent ancestors).Lists a x := by
  induction h with
  | refl => exact .refl
  | @tail b c _ hlists ih =>
    have hmoved : (f.moved id parent ancestors).Lists b c := hf.lists_moved hx hlists
    have hb : b ≠ id := by
      rintro rfl
      exact hbelow (.single hmoved)
    have hreaches := ih hb fun h => hbelow (h.tail hmoved)
    exact hreaches.tail hmoved

end Moved

/-! ## Mending chains level by level -/

/-- A live node is on no later level below another one than the `j`-th. -/
structure Settled (g : Forest) (id : NodeId) (j : Nat) (x : NodeId) : Prop where
  contains : g.nodes.contains x = true
  notMem_level : ∀ i, j < i → x ∉ g.level i [id]

/-- The lists of one forest lead down the chain of a node in another one. -/
def Leads (g u : Forest) (x : NodeId) : Prop :=
  ∀ a ∈ u.chain x, Relation.ReflTransGen g.Lists a x

/-- A forest has the parents of another one, and chains that rest on the lists of that one, up to
the `j`-th level. -/
structure Rests (g : Forest) (id : NodeId) (j : Nat) (u : Forest) : Prop where
  parents : ∀ x, u.parent? x = g.parent? x
  leads : ∀ x, g.Settled id j x → g.Leads u x

/-- The parents of a forest list their children, and the walk below a live node ends. -/
structure Walkable (g : Forest) (id : NodeId) : Prop where
  contains : g.nodes.contains id = true
  listed : ∀ x p, g.parent? x = some p → g.Lists p x
  ends : g.level g.nodes.slots.size [id] = []

/-- A chain that is mended is that of the parent, continued by the node. -/
theorem mem_chain_extendUnder_self (h : a ∈ (f.extendUnder id x).chain x) :
    a = x ∨ a ∈ f.chain ((f.parent? x).getD id) := by
  rw [chain, get?_extendUnder] at h
  cases hn : f.nodes.get? x with
  | none => exact Or.inl (by simpa [hn] using h)
  | some n => simpa [hn, or_comm] using h

theorem chain_extendUnder_of_ne (hx : x ≠ y) : (f.extendUnder id y).chain x = f.chain x := by
  unfold chain
  rw [get?_extendUnder]
  cases f.nodes.get? x <;> simp [hx]

/-- Mending a node of the next level undoes nothing. -/
theorem Rests.extendUnder {j : Nat} (hu : g.Rests id j u) (hy : y ∈ g.level (j + 1) [id]) :
    g.Rests id j (u.extendUnder id y) := by
  refine ⟨fun x => (parent?_foldl_extendUnder id [y] u x).trans (hu.parents x), fun x hx => ?_⟩
  have hne : x ≠ y := fun h => hx.notMem_level (j + 1) (Nat.lt_succ_self j) (h ▸ hy)
  rw [Leads, chain_extendUnder_of_ne hne]
  exact hu.leads x hx

namespace Walkable

variable {j : Nat} (hg : g.Walkable id)

include hg

/-- A chain on the next level is continued from a node before that level. -/
theorem settled_source (hx : g.Settled id (j + 1) x) (hmem : x ∈ g.level (j + 1) [id]) :
    g.Settled id j ((g.parent? x).getD id) ∧
      Relation.ReflTransGen g.Lists ((g.parent? x).getD id) x := by
  cases hp : g.parent? x with
  | none =>
    refine ⟨⟨hg.contains, fun i hi hid => ?_⟩, reaches_of_mem_level hmem⟩
    obtain ⟨i, rfl⟩ : ∃ k, i = k + 1 := ⟨i - 1, by omega⟩
    exact level_ne_nil_of_cycle .refl (transGen_of_mem_level hid) _ hg.ends
  | some q =>
    have hlists := hg.listed x q hp
    refine ⟨⟨hlists.contains_left, fun i hi hq => ?_⟩, .single hlists⟩
    refine hx.notMem_level (i + 1) (by omega) ?_
    rw [level_succ]
    exact List.mem_flatMap.2 ⟨q, hq, hlists⟩

/-- Where the levels before are mended, mending a node puts its chain in place. -/
theorem leads_extendUnder_self (hu : g.Rests id j u) (hx : g.Settled id (j + 1) x)
    (hmem : x ∈ g.level (j + 1) [id]) : g.Leads (u.extendUnder id x) x := by
  intro a ha
  obtain ⟨hsource, hreach⟩ := hg.settled_source hx hmem
  rcases mem_chain_extendUnder_self ha with rfl | ha
  · exact .refl
  · rw [hu.parents] at ha
    exact (hu.leads _ hsource a ha).trans hreach

/-- Mending nodes of the next level puts their chains in place. -/
theorem leads_foldl (hu : g.Rests id j u) (hl : ∀ y ∈ l, y ∈ g.level (j + 1) [id])
    (hx : g.Settled id (j + 1) x) (hin : g.Leads u x ∨ x ∈ l) :
    g.Leads (l.foldl (extendUnder id) u) x := by
  induction l generalizing u with
  | nil => exact hin.resolve_right List.not_mem_nil
  | cons y l ih =>
    obtain ⟨hy, hl⟩ := List.forall_mem_cons.1 hl
    refine ih (hu.extendUnder hy) hl ?_
    by_cases hxy : x = y
    · subst hxy
      exact Or.inl (hg.leads_extendUnder_self hu hx hy)
    · refine hin.imp (fun hin => ?_) fun hin => (List.mem_cons.1 hin).resolve_left hxy
      rwa [Leads, chain_extendUnder_of_ne hxy]

/-- Mending the whole next level puts the chains up to that level in place. -/
theorem rests_foldl (hu : g.Rests id j u) :
    g.Rests id (j + 1) ((g.level (j + 1) [id]).foldl (extendUnder id) u) := by
  refine ⟨fun x => (parent?_foldl_extendUnder id _ u x).trans (hu.parents x), fun x hx => ?_⟩
  refine hg.leads_foldl hu (fun _ hy => hy) hx ?_
  by_cases hmem : x ∈ g.level (j + 1) [id]
  · exact Or.inr hmem
  · refine Or.inl (hu.leads x ⟨hx.contains, fun i hi hlevel => ?_⟩)
    rcases Nat.eq_or_lt_of_le (Nat.succ_le_of_lt hi) with rfl | hi
    · exact hmem hlevel
    · exact hx.notMem_level i hi hlevel

/-- Mending level by level puts the chains of so many levels in place. -/
theorem rests_below (hu : g.Rests id j u) (n : Nat) :
    g.Rests id (j + n) ((g.below n (g.level j [id])).foldl (extendUnder id) u) := by
  induction n generalizing j u with
  | zero => exact hu
  | succ n ih =>
    rw [below_succ, List.foldl_append, ← level_succ, Nat.add_succ, ← Nat.succ_add]
    exact ih (hg.rests_foldl hu)

/-- Once all nodes below are mended, all chains rest on lists. -/
theorem leads_propagate (h0 : ∀ x, g.Settled id 0 x → g.Leads g x)
    (hx : g.nodes.contains x = true) : g.Leads (g.propagate id) x := by
  refine (hg.rests_below ⟨fun _ => rfl, h0⟩ _).leads x ⟨hx, fun i hi => ?_⟩
  rw [level_eq_nil_of_le hg.ends (by omega)]
  exact List.not_mem_nil

end Walkable

/-! ## Relinking -/

namespace Supported

variable (hf : f.Supported)

include hf

section Relinks

variable (hadm : ∀ p, parent = some p → f.nodes.contains p = true)
  (hchain : ∀ a ∈ ancestors.getD [id], a = id ∨ ∃ p, parent = some p ∧ a ∈ f.chain p)

include hadm in
/-- A forest that was relinked could be walked when the node had moved. -/
theorem walkable_moved (hr : f.Relinks id parent ancestors g) :
    (f.moved id parent ancestors).Walkable id := by
  obtain ⟨below, hbelow⟩ := hr.ends
  obtain ⟨hid, hends, -⟩ := descend_eq_ok_iff.1 hbelow
  refine ⟨hid, fun x p hp => ?_, hends⟩
  rcases parent?_moved_cases hp with ⟨rfl, hnew⟩ | ⟨hx, hp⟩
  · subst hnew
    exact lists_moved_self hr.contains (hadm p rfl)
  · exact hf.lists_moved hx (hf.listed x p hp)

include hadm hchain in
/-- The chain of the moved node rests on lists : its parent lists it, so that one is not below
it. -/
theorem leads_moved_self (hid : f.nodes.contains id = true)
    (hbelow : ¬Relation.TransGen (f.moved id parent ancestors).Lists id id) :
    (f.moved id parent ancestors).Leads (f.moved id parent ancestors) id := by
  intro a ha
  rw [chain_moved_self hid] at ha
  rcases hchain a ha with rfl | ⟨p, rfl, ha⟩
  · exact .refl
  have hlists : (f.moved id (some p) ancestors).Lists p id := lists_moved_self hid (hadm p rfl)
  have hne : p ≠ id := by
    rintro rfl
    exact hbelow (.single hlists)
  exact (hf.reaches_moved hne (fun h => hbelow (h.tail hlists)) (hf.leads p (hadm p rfl) a ha)).tail
    hlists

include hadm hchain in
/-- The chains of the nodes that are not below the moved one rest on lists. -/
theorem leads_moved (hid : f.nodes.contains id = true)
    (hx : (f.moved id parent ancestors).Settled id 0 x) :
    (f.moved id parent ancestors).Leads (f.moved id parent ancestors) x := by
  have hbelow : ¬Relation.TransGen (f.moved id parent ancestors).Lists id x := fun h => by
    obtain ⟨k, hk⟩ := exists_mem_level_succ h
    exact hx.notMem_level (k + 1) (Nat.succ_pos k) hk
  by_cases hxid : x = id
  · subst hxid
    exact hf.leads_moved_self hadm hchain hid hbelow
  · have hlive := hx.contains
    rw [contains_moved] at hlive
    rw [Leads, chain_moved_of_ne hxid]
    exact fun a ha => hf.reaches_moved hxid hbelow (hf.leads x hlive a ha)

end Relinks

/-- Relinking keeps a forest supported. -/
theorem relinks (hr : f.Relinks id parent ancestors g)
    (hadm : ∀ p, parent = some p → f.nodes.contains p = true)
    (hchain : ∀ a ∈ ancestors.getD [id], a = id ∨ ∃ p, parent = some p ∧ a ∈ f.chain p) :
    g.Supported := by
  have hw := hf.walkable_moved hadm hr
  obtain ⟨hid, -, rfl⟩ := hr
  have hlists : (f.relinked id parent ancestors).Lists = (f.moved id parent ancestors).Lists := by
    funext q x
    rw [Lists, relinked, propagate, (keepsChildren_extendUnder id).foldl, Lists]
  refine ⟨(reworked_relinked f id _ _).wellFormed hf.wellFormed, fun p m hm => ?_,
    fun x p hp => ?_, fun x hx => ?_⟩
  · have hkept := map_get?_relinked (F := TypeNode.children) (fun _ _ => rfl) f id parent
      ancestors p
    rw [hm, get?_moved, Option.map_map, Option.map_some, eq_comm, Option.map_eq_some_iff] at hkept
    obtain ⟨n, hn, hchildren⟩ := hkept
    exact hchildren ▸ nodup_movedChildren (hf.nodup p n hn)
  · rw [relinked, propagate, parent?_foldl_extendUnder] at hp
    rw [hlists]
    exact hw.listed x p hp
  · rw [contains_relinked] at hx
    rw [hlists]
    exact hw.leads_propagate (fun _ hy => hf.leads_moved hadm hchain hid hy)
      ((contains_moved f id parent ancestors x).trans hx)

/-- A parent that is granted keeps a forest supported. -/
theorem setParent {parent : Option NodeId} {change : Change}
    (h : f.setParent id parent = .ok (some change)) : change.forest.Supported := by
  obtain ⟨rfl, hr⟩ | ⟨p, -, rfl, hp, -, -, -, hr⟩ := setParent_eq_some h
  · exact hf.relinks hr nofun fun a ha => Or.inl (List.mem_singleton.1 ha)
  · refine hf.relinks hr (fun q hq => Option.some.inj hq ▸ hp) fun a ha => ?_
    rw [Option.getD_some, List.mem_append, List.mem_singleton] at ha
    exact ha.symm.imp_right fun ha => ⟨p, rfl, ha⟩

/-- A parent that is taken back leaves a forest supported. -/
theorem clearParent {change : Change} (h : f.clearParent id = .ok (some change)) :
    change.forest.Supported :=
  hf.relinks (clearParent_eq_some h) nofun fun _ ha => Or.inl (List.mem_singleton.1 ha)

/-- Every request keeps a forest supported. -/
theorem serve (r : Request) : (f.serve r).Supported := by
  cases r with
  | create owner => exact hf.insert owner
  | setParent id parent =>
    simp only [Forest.serve]
    split
    next change h => exact hf.setParent h
    next => exact hf
  | clearParent id =>
    simp only [Forest.serve]
    split
    next change h => exact hf.clearParent h
    next => exact hf
  | release id => exact hf.erase id

/-- Whatever is requested, a forest stays supported. -/
theorem foldl_serve (rs : List Request) : (rs.foldl Forest.serve f).Supported := by
  induction rs generalizing f with
  | nil => exact hf
  | cons r rs ih => exact ih (hf.serve r)

/-! ## New nodes -/

/-- No chain of a live node names a node that is still to be made. -/
theorem next_notMem_chain (hx : f.nodes.contains x = true) : f.nodes.next ∉ f.chain x :=
  fun hmem => hf.ne_next (hf.contains_of_mem_chain hx hmem) rfl

end Supported

end Forest

end NameResolution
