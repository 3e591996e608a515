import NameResolution.Proofs.Session.Correspondence
import NameResolution.Proofs.Session.Orphans

/-!
# What is released, and what is left

An entity is released exactly if it is there, nobody has put it anywhere, it is not the root, and
no type has it as its direct supertype (`Tables.Unneeded`). A request is granted or refused by
looking at the list of subtypes, in which there may be handles that are stale. In a flattened
forest what is live in this list are the nodes with this parent, so both are the same
(`Tables.isReleasable_iff_unneeded`).

A release takes out the entity, and the scope and the node if it has them, and touches nothing
else (`Tables.Frees`) : what it leaves in the list of the supertype is a handle that is stale, so it
is missing where the list is read. The three handles are spent and do not come back, whatever is put
into their slots afterwards (`Tables.spent_discard`); and since a parent and a chain name live nodes
only, none names the node again.
-/

namespace NameResolution

/-! ## Nodes without one -/

namespace Forest

variable {f : Forest} {id x : NodeId}

/-- Erasing a node without children takes away that node and no other. -/
theorem get?_erase_of_isReleasable (h : f.isReleasable id = true) (x : NodeId) :
    (f.erase id).nodes.get? x = if x = id then none else f.nodes.get? x := by
  rw [erase, if_pos h, SlotTable.get?_erase]

/-- A node that is released is missing among the children of every other one. -/
theorem children_erase (h : f.isReleasable id = true) (hx : x ≠ id) :
    (f.erase id).children x = (f.children x).filter (· ≠ id) := by
  unfold children
  rw [get?_erase_of_isReleasable h, if_neg hx]
  cases f.nodes.get? x with
  | none => rfl
  | some n =>
    dsimp only [HandleSet.live]
    rw [List.filter_filter]
    refine List.filter_congr fun y _ => ?_
    rw [SlotTable.contains, get?_erase_of_isReleasable h, SlotTable.contains]
    by_cases hy : y = id <;> simp [hy]

end Forest

namespace Tables

variable {L T : Type} {t t' : Tables L T} {e other : EntityId} {x : Entity}

/-! ## What nobody needs -/

/-- The entity is live, nobody has put it anywhere, and it is not the root; and if it is a type, no
type has it as its direct supertype. -/
structure Unneeded (t : Tables L T) (e : EntityId) : Prop where
  live : ∃ x, t.entities.get? e = some x ∧ x.owner = none
  not_root : e ≠ rootEntity
  childless : t.node? e ≠ none → ∀ other, t.superType other ≠ .ok (some e)

/-- What can be released is what nobody needs. -/
theorem isReleasable_iff_unneeded (hm : t.Matched) (hf : t.forest.Flattened) :
    t.isReleasable e = true ↔ t.Unneeded e := by
  rw [isReleasable_iff]
  constructor
  · rintro ⟨⟨hroot, hlive⟩, hnode⟩
    refine ⟨hlive, hroot, fun _ other hother => ?_⟩
    obtain ⟨m, n, -, hn, hparent⟩ := (superType_eq_some_iff hm).1 hother
    have hrel := hnode n hn
    simp only [Forest.isReleasable, Bool.and_eq_true, List.isEmpty_iff] at hrel
    have hmem := hf.mem_children_of_parent? hparent
    rw [hrel.2] at hmem
    cases hmem
  · rintro ⟨hlive, hroot, hchildless⟩
    refine ⟨⟨hroot, hlive⟩, fun n hn => ?_⟩
    simp only [Forest.isReleasable, Bool.and_eq_true, List.isEmpty_iff]
    refine ⟨hm.contains_node hn, List.eq_nil_iff_forall_not_mem.2 fun m hmem => ?_⟩
    obtain ⟨k, hk, hkm⟩ := Forest.parent?_eq_some_iff.1 (hf.parent?_of_mem_children hmem)
    obtain ⟨y, hy, hym⟩ := hm.linked.outside m k hk
    refine hchildless (by simp [hn]) k.owner ((superType_eq_some_iff hm).2 ?_)
    exact ⟨m, n, Option.bind_eq_some_iff.2 ⟨y, hy, hym⟩, hn,
      Forest.parent?_eq_some_iff.2 ⟨k, hk, hkm⟩⟩

/-! ## What a release does -/

/-- The entity is gone, with its scope and its node, and everything else is as it was. Only in the
list of the supertype's subtypes the node is missing; the others are in their old order. -/
structure Frees (t : Tables L T) (e : EntityId) (t' : Tables L T) : Prop where
  entity : ∀ o, t'.entities.get? o = if o = e then none else t.entities.get? o
  scope : ∀ c, t'.scopes.get? c = if t.scopeOf? e = some c then none else t.scopes.get? c
  node : ∀ n, t'.forest.nodes.get? n = if t.node? e = some n then none else t.forest.nodes.get? n
  children : ∀ n, t.node? e ≠ some n →
    t'.forest.children n = (t.forest.children n).filter (t.node? e ≠ some ·)
  maxDepth : t'.forest.maxDepth = t.forest.maxDepth
  config : t'.config = t.config

/-- What a release of an unneeded entity frees. -/
theorem frees_discard (h : t.isReleasable e = true) : t.Frees e (t.discard e) := by
  obtain ⟨hloose, hnode⟩ := isReleasable_iff.1 h
  have hconfig := (Edit.discard hloose).config_eq
  obtain ⟨-, x, hx, -⟩ := hloose
  obtain ⟨he, hs⟩ := discard_cases hx
  have hscope : t.scopeOf? e = x.kind.scope? := by rw [scopeOf?, hx, Option.bind_some]
  have hkind : t.node? e = x.kind.node? := by rw [node?, hx, Option.bind_some]
  have hscopes (c : ScopeId) : (t.discard e).scopes.get? c =
      if t.scopeOf? e = some c then none else t.scopes.get? c := by
    rcases hs with ⟨hnone, hs⟩ | ⟨c₀, hc₀, hs⟩
    · simp [hs, hscope, hnone]
    · rw [hs, SlotTable.get?_erase, hscope, hc₀]
      simp [eq_comm]
  have hentities (o : EntityId) : (t.discard e).entities.get? o =
      if o = e then none else t.entities.get? o := by
    rw [he, SlotTable.get?_erase]
  rcases node_discard_cases hx with ⟨hnone, hf⟩ | ⟨n, hn, hf⟩
  · rw [hnone] at hkind
    refine ⟨hentities, hscopes, fun m => ?_, fun m _ => ?_, ?_, hconfig⟩ <;> simp [hf, hkind]
  · rw [hn] at hkind
    have hrel := hnode n hkind
    refine ⟨hentities, hscopes, fun m => ?_, fun m hne => ?_, ?_, hconfig⟩
    · rw [hf, Forest.get?_erase_of_isReleasable hrel, hkind]
      simp [eq_comm]
    · rw [hkind] at hne ⊢
      rw [hf, Forest.children_erase hrel (by simpa [eq_comm] using hne)]
      simp [eq_comm]
    · rw [hf, Forest.erase, if_pos hrel]

/-- The handles of the entity, of its scope and of its node lead to nothing in other tables, and no
live node names its node. -/
structure Stale (t : Tables L T) (e : EntityId) (t' : Tables L T) : Prop where
  entity : t'.entities.get? e = none
  scope : ∀ c, t.scopeOf? e = some c → t'.scopes.get? c = none
  node : ∀ n, t.node? e = some n → t'.forest.nodes.get? n = none
  unnamed : ∀ n, t.node? e = some n → ∀ m k, t'.forest.nodes.get? m = some k →
    k.parent ≠ some n ∧ ∀ l, k.ancestors = some l → n ∉ l

/-- What is taken out has had its time. -/
theorem spent_discard (hm : t.Matched) (h : t.isReleasable e = true) :
    (t.discard e).entities.Spent e ∧
      (∀ c, t.scopeOf? e = some c → (t.discard e).scopes.Spent c) ∧
      ∀ n, t.node? e = some n → (t.discard e).forest.nodes.Spent n := by
  obtain ⟨hloose, hnode⟩ := isReleasable_iff.1 h
  obtain ⟨-, x, hx, -⟩ := id hloose
  refine ⟨?_, fun c hc => ?_, fun n hn => ?_⟩
  · rw [(discard_cases hx).1]
    exact SlotTable.spent_erase (SlotTable.contains_of_get? hx)
  · exact GivesUp.spent ⟨e, hloose, hc, rfl⟩ hm.coherent.paired
  · have hkind : t.node? e = x.kind.node? := by rw [node?, hx, Option.bind_some]
    rcases node_discard_cases hx with ⟨hnone, -⟩ | ⟨m, hm', hf⟩
    · rw [hkind, hnone] at hn
      cases hn
    · obtain rfl := Option.some.inj (hm'.symm.trans (hkind.symm.trans hn))
      rw [hf, Forest.erase, if_pos (hnode m hn)]
      exact SlotTable.spent_erase (hm.contains_node hn)

end Tables

/-! ## What a chain names -/

namespace Forest

/-- A live node names live nodes only. -/
theorem Flattened.contains_of_named {f : Forest} (hf : f.Flattened) {n : NodeId} {k : TypeNode}
    (hk : f.nodes.get? n = some k) :
    (∀ p, k.parent = some p → f.nodes.contains p = true) ∧
      ∀ l, k.ancestors = some l → ∀ a ∈ l, f.nodes.contains a = true := by
  refine ⟨fun p hp => ?_, fun l hl a ha => ?_⟩
  · exact hf.contains_of_parent? (parent?_eq_some_iff.2 ⟨k, hk, hp⟩)
  · refine hf.contains_of_mem_chain (SlotTable.contains_of_get? hk) ?_
    rwa [chain_of_get? hk, hl]

end Forest

namespace Session

variable {L T W : Type} {s s' s'' : Session L T W} {e : EntityId} {config : Config} {world : W}

/-- What has been taken out does not come back. -/
theorem stale_of_reaches (h : Reaches (fun _ => True) (start config world) s)
    (he : s.tables.isReleasable e = true) (hs' : s'.tables = s.tables.discard e)
    (h' : Reaches (fun _ => True) (start config world) s')
    (hlater : Reaches (fun _ => True) s' s'') (hu : s''.tables.Unwrapped)
    (hn : s''.tables.forest.nodes.Unwrapped) : s.tables.Stale e s''.tables := by
  have hm := h.matched (Tables.Matched.start config)
  have hm' := h'.matched (Tables.Matched.start config)
  have hmoves := hlater.moves hm'
  have hext := hmoves.extends hm'
  have hnodes := (hmoves.extends_nodes hm'.linked.nodes).2
  obtain ⟨hentity, hscope, hnode⟩ := Tables.spent_discard hm he
  rw [← hs'] at hentity hscope hnode
  have hgone (n : NodeId) (hne : s.tables.node? e = some n) :
      s''.tables.forest.nodes.get? n = none :=
    SlotTable.get?_of_spent hn ((hnode n hne).extends hnodes)
  have hf := (h'.trans hlater).flattened hn
  refine ⟨SlotTable.get?_of_spent hu.entities (hentity.extends hext.entities),
    fun c hc => SlotTable.get?_of_spent hu.scopes ((hscope c hc).extends hext.scopes), hgone,
    fun n hne m k hk => ?_⟩
  have hdead : ¬s''.tables.forest.nodes.contains n = true := by
    simp [SlotTable.contains, hgone n hne]
  obtain ⟨hparent, hancestors⟩ := hf.contains_of_named hk
  exact ⟨fun hp => hdead (hparent n hp), fun l hl hmem => hdead (hancestors l hl n hmem)⟩

/-- A release in a session that hosts can bring about is granted exactly if the entity is live,
nobody has put it anywhere, it is not the root, and if it is a type, no live type has it as its
direct supertype. A release that is refused changes nothing, and that of a supertype is refused. One
that is granted takes out the entity with its scope and its node and notes it; everything else is as
it was, only that the node is missing among the subtypes of its supertype. The three handles read as
absent from then on, whatever happens to the session, and no live node names the one that is gone :
in every session, what parents and chains name is live. -/
theorem releases_exactly (h : Reaches (fun _ => True) (start config world) s)
    (hu : s.tables.forest.nodes.Unwrapped) (host : Host L T W) (fuel : Nat) (e : EntityId) :
    (¬s.tables.Unneeded e → host.perform fuel (.release e) s = (.ok false, s)) ∧
    (s.tables.Unneeded e → ∃ s', host.perform fuel (.release e) s = (.ok true, s') ∧
      s.tables.Frees e s'.tables ∧
      s' = { s with tables := s'.tables, journal := .noted (.released e) :: s.journal } ∧
      ∀ s'', Reaches (fun _ => True) s' s'' → s''.tables.Unwrapped →
        s''.tables.forest.nodes.Unwrapped → s.tables.Stale e s''.tables) ∧
    (∀ other, s.tables.superType other = .ok (some e) →
      host.perform fuel (.release e) s = (.ok false, s)) ∧
    ∀ n k, s.tables.forest.nodes.get? n = some k →
      (∀ p, k.parent = some p → s.tables.forest.nodes.contains p = true) ∧
        ∀ l, k.ancestors = some l → ∀ a ∈ l, s.tables.forest.nodes.contains a = true := by
  have hm := h.matched (Tables.Matched.start config)
  have hf := h.flattened hu
  have hiff := Tables.isReleasable_iff_unneeded (e := e) hm hf
  have hperform : host.perform fuel (.release e) s = (release e).run s := rfl
  have hrefused (hnot : ¬s.tables.Unneeded e) :
      host.perform fuel (.release e) s = (.ok false, s) := by
    rw [hperform, run_release, if_neg (mt hiff.1 hnot)]
  refine ⟨hrefused, fun hunneeded => ?_, fun other hother => hrefused fun hunneeded => ?_,
    fun n k hk => hf.contains_of_named hk⟩
  · have hrel := hiff.2 hunneeded
    have hrun := (run_release s e).trans (if_pos hrel)
    refine ⟨_, hperform.trans hrun, Tables.frees_discard hrel, rfl, fun s'' hlater hu'' hn'' => ?_⟩
    have hreached : Reaches (fun _ => True) (start config world)
        (host.perform fuel (.release e) s).2 :=
      h.perform (host.within_of_forall fun _ => trivial) fuel trivial
    rw [hperform, hrun] at hreached
    exact stale_of_reaches h hrel rfl hreached hlater hu'' hn''
  · obtain ⟨m, n, -, hn, -⟩ := (Tables.superType_eq_some_iff hm).1 hother
    exact hunneeded.childless (by simp [hn]) other hother

/-- Declares a type. -/
def breed (name : String) (parent : Option EntityId) : Operation Unit Unit :=
  .declare { name, params := [], kind := .type parent, location := .unknown }

/-- A type with two subtypes, none of which is in a scope. -/
def kennel : Session Unit Unit Unit :=
  fillingHost.after 2 [breed "Animal" none, breed "Dog" (some ⟨1, 0⟩), breed "Cat" (some ⟨1, 0⟩)]
    (start {} ())

/-- The subtype that was declared first is released, and another type takes its slots. -/
theorem releases_exactly_kennel :
    kennel.tables.forest.nodes.Unwrapped ∧
    fillingHost.perform 2 (.release ⟨1, 0⟩) kennel = (.ok false, kennel) ∧
    kennel.tables.Unneeded ⟨2, 0⟩ ∧
    ∃ s' s'', fillingHost.perform 2 (.release ⟨2, 0⟩) kennel = (.ok true, s') ∧
      fillingHost.perform 2 (breed "Fox" (some ⟨1, 0⟩)) s' = (.ok (.ok ⟨2, 1⟩), s'') ∧
      kennel.tables.forest.children ⟨0, 0⟩ = [⟨1, 0⟩, ⟨2, 0⟩] ∧
      s'.tables.forest.children ⟨0, 0⟩ = [⟨2, 0⟩] ∧
      s''.tables.forest.children ⟨0, 0⟩ = [⟨2, 0⟩, ⟨1, 1⟩] ∧
      s''.tables.entities.get? ⟨2, 0⟩ = none := by
  have hu : kennel.tables.forest.nodes.Unwrapped := by decide +kernel
  have hlater (ops : List (Operation Unit Unit)) (s : Session Unit Unit Unit) :
      Reaches (fun _ => True) s (fillingHost.after 2 ops s) :=
    (Reaches.refl s).after (fillingHost.within_of_forall fun _ => trivial) 2 fun _ _ => trivial
  have hreached : Reaches (fun _ => True) (start {} ()) kennel := hlater _ _
  have hm := hreached.matched (Tables.Matched.start {})
  have hunneeded : kennel.tables.Unneeded ⟨2, 0⟩ :=
    (Tables.isReleasable_iff_unneeded hm (hreached.flattened hu)).1 (by decide +kernel)
  obtain ⟨-, -, hsuper, -⟩ := releases_exactly hreached hu fillingHost 2 ⟨1, 0⟩
  obtain ⟨-, hgranted, -⟩ := releases_exactly hreached hu fillingHost 2 ⟨2, 0⟩
  obtain ⟨s', hrun, hfrees, -, hstale⟩ := hgranted hunneeded
  have hchildren : s'.tables.forest.children ⟨0, 0⟩ = [⟨2, 0⟩] :=
    (hfrees.children ⟨0, 0⟩ (by decide +kernel)).trans (by decide +kernel)
  obtain rfl : s' = (fillingHost.perform 2 (.release ⟨2, 0⟩) kennel).2 := by rw [hrun]
  have hgone := hstale _ (hlater [breed "Fox" (some ⟨1, 0⟩)] _) (by decide +kernel)
    (by decide +kernel)
  exact ⟨hu, hsuper ⟨2, 0⟩ rfl, hunneeded, _, _, hrun, rfl, by decide +kernel, hchildren,
    by decide +kernel, hgone.entity⟩

end Session

end NameResolution
