import NameResolution.Proofs.Entries
import NameResolution.Proofs.Forest.Records
import NameResolution.Proofs.Tables.Growth

/-!
# Three tables that match

A type has a slot in each of the three tables, a package in two, any other entity in one.
Tables match if scopes and entities name each other (`Coherent`), nodes and types do
(`Linked`), and every table knows its size (`Counted`). Then there are as many nodes as types
(`Matched.size_nodes`), and as many scopes as types and packages (`Matched.size_scopes`).

Every change keeps tables matched. Discarding does because only what can be released is
ever discarded : a type with live subtypes would leave its node behind (`Matched.discard`).
-/

namespace NameResolution

namespace Tables

variable {L T : Type} {t t' : Tables L T} {c : ScopeId} {e : EntityId} {x : Entity}
  {d : Declaration L}

/-- Every type is the owner of its node, and every node has one. -/
structure Linked (t : Tables L T) : Prop where
  nodes : t.forest.nodes.WellFormed
  inside : ∀ e x n, t.entities.get? e = some x → x.kind.node? = some n →
    ∃ k, t.forest.nodes.get? n = some k ∧ k.owner = e
  outside : ∀ n k, t.forest.nodes.get? n = some k →
    ∃ x, t.entities.get? k.owner = some x ∧ x.kind.node? = some n

/-- Every table knows its size. -/
structure Counted (t : Tables L T) : Prop where
  entities : t.entities.Counted
  scopes : t.scopes.Counted
  nodes : t.forest.nodes.Counted

/-- Entities, scopes and nodes belong together as their kinds say. -/
structure Matched (t : Tables L T) : Prop where
  coherent : t.Coherent
  linked : t.Linked
  counted : t.Counted

/-! ## Effects on the forest -/

/-- A placed type brings a node that refers to it. -/
theorem node_place_cases (t : Tables L T) (d : Declaration L) :
    ∃ kind, (t.place d).2.entities = t.entities.insert (d.toEntity kind) ∧
      (kind.node? = none ∧ (t.place d).2.forest = t.forest ∨
        kind.node? = some t.forest.nodes.next ∧
          (t.place d).2.forest = t.forest.insert t.entities.next) := by
  unfold place
  cases d.kind with
  | type parent => exact ⟨_, rfl, Or.inr ⟨rfl, rfl⟩⟩
  | function result => exact ⟨_, rfl, Or.inl ⟨rfl, rfl⟩⟩
  | var type => exact ⟨_, rfl, Or.inl ⟨rfl, rfl⟩⟩
  | thread => exact ⟨_, rfl, Or.inl ⟨rfl, rfl⟩⟩
  | package loader => exact ⟨_, rfl, Or.inl ⟨rfl, rfl⟩⟩

theorem node_discard_cases (hx : t.entities.get? e = some x) :
    x.kind.node? = none ∧ (t.discard e).forest = t.forest ∨
      ∃ n, x.kind.node? = some n ∧ (t.discard e).forest = t.forest.erase n := by
  unfold discard
  rw [hx, Option.map_some]
  cases x.kind with
  | type node members => exact Or.inr ⟨node, rfl, rfl⟩
  | function result => exact Or.inl ⟨rfl, rfl⟩
  | var type => exact Or.inl ⟨rfl, rfl⟩
  | thread => exact Or.inl ⟨rfl, rfl⟩
  | package scope => exact Or.inl ⟨rfl, rfl⟩

theorem node?_of_typeNode {n : NodeId} (h : t.typeNode e = .ok n) : t.node? e = some n :=
  Option.bind_eq_some_iff.2 (typeNode_eq_ok.1 h)

/-- What is no live type fails, and is no fault. -/
theorem typeNode_eq_error {stop : Stop} (h : t.typeNode e = .error stop) :
    t.node? e = none ∧ stop = .failure (.notAType e) := by
  unfold typeNode at h
  unfold node?
  split at h
  · cases h
  · rename_i hnone
    cases h
    exact ⟨hnone, rfl⟩

/-- A loose entity can be released unless it is a type with live subtypes. -/
theorem isReleasable_iff : t.isReleasable e = true ↔
    t.Loose e ∧ ∀ n, t.node? e = some n → t.forest.isReleasable n = true := by
  unfold isReleasable Loose node?
  cases hx : t.entities.get? e with
  | none => simp
  | some x => cases hk : x.kind <;> simp [EntityKind.node?, hk, and_comm]

/-! ## Linked tables -/

theorem Linked.start (config : Config) : (Tables.start config : Tables L T).Linked := by
  refine ⟨SlotTable.wellFormed_empty, fun e x n hx hn => ?_, fun n k hk => ?_⟩
  · unfold Tables.start at hx
    rw [SlotTable.get?_insert SlotTable.wellFormed_empty] at hx
    split_ifs at hx
    · obtain rfl := Option.some.inj hx
      cases hn
    · cases hx
  · cases hk

/-- Only the kinds of entities and the owners of nodes matter for links. -/
theorem Linked.congr (hl : t.Linked) (hw : t'.forest.nodes.WellFormed)
    (he : ∀ e, (t'.entities.get? e).map Entity.kind = (t.entities.get? e).map Entity.kind)
    (hn : ∀ n, (t'.forest.nodes.get? n).map TypeNode.owner =
      (t.forest.nodes.get? n).map TypeNode.owner) : t'.Linked := by
  refine ⟨hw, fun e x n hx hxn => ?_, fun n k hk => ?_⟩
  · have h := he e
    rw [hx, Option.map_some, eq_comm, Option.map_eq_some_iff] at h
    obtain ⟨y, hy, hyk⟩ := h
    obtain ⟨k, hk, hke⟩ := hl.inside e y n hy (hyk ▸ hxn)
    have h := hn n
    rw [hk, Option.map_some, Option.map_eq_some_iff] at h
    obtain ⟨k', hk', hke'⟩ := h
    exact ⟨k', hk', hke'.trans hke⟩
  · have h := hn n
    rw [hk, Option.map_some, eq_comm, Option.map_eq_some_iff] at h
    obtain ⟨k₀, hk₀, hke⟩ := h
    obtain ⟨x, hx, hxn⟩ := hl.outside n k₀ hk₀
    have h := he k₀.owner
    rw [hx, Option.map_some, Option.map_eq_some_iff] at h
    obtain ⟨y, hy, hyk⟩ := h
    exact ⟨y, hke ▸ hy, hyk ▸ hxn⟩

/-- A new type and its node refer to each other. -/
theorem Linked.place (hl : t.Linked) (ht : t.Formed) (d : Declaration L) :
    (t.place d).2.Linked := by
  obtain ⟨kind, he, hcases⟩ := node_place_cases t d
  have hent (e : EntityId) := congrArg (SlotTable.get? · e) he
  simp only [SlotTable.get?_insert ht.entities] at hent
  have hne {e : EntityId} {x : Entity} (hx : t.entities.get? e = some x) :
      (t.place d).2.entities.get? e = some x := by
    rw [hent, if_neg (SlotTable.ne_next ht.entities hx), hx]
  rcases hcases with ⟨hk, hf⟩ | ⟨hk, hf⟩
  · refine ⟨hf ▸ hl.nodes, fun e x n hx hn => ?_, fun n k hn => ?_⟩
    · rw [hent] at hx
      rw [hf]
      split_ifs at hx
      · obtain rfl := Option.some.inj hx
        rw [Declaration.toEntity, hk] at hn
        cases hn
      · exact hl.inside e x n hx hn
    · rw [hf] at hn
      obtain ⟨x, hx, hxn⟩ := hl.outside n k hn
      exact ⟨x, hne hx, hxn⟩
  · have hnode (n : NodeId) := congrArg (fun f : Forest => f.nodes.get? n) hf
    simp only [Forest.insert, SlotTable.get?_insert hl.nodes] at hnode
    refine ⟨hf ▸ hl.nodes.insert _, fun e x n hx hn => ?_, fun n k hn => ?_⟩
    · rw [hent] at hx
      split_ifs at hx with hnew
      · obtain rfl := Option.some.inj hx
        obtain rfl := Option.some.inj (hn.symm.trans hk)
        exact ⟨_, by rw [hnode, if_pos rfl], hnew.symm⟩
      · obtain ⟨k, hk', hke⟩ := hl.inside e x n hx hn
        exact ⟨k, by rw [hnode, if_neg (SlotTable.ne_next hl.nodes hk'), hk'], hke⟩
    · rw [hnode] at hn
      split_ifs at hn with hnew
      · obtain rfl := Option.some.inj hn
        exact ⟨d.toEntity kind, by rw [hent, if_pos rfl], hnew ▸ hk⟩
      · obtain ⟨x, hx, hxn⟩ := hl.outside n k hn
        exact ⟨x, hne hx, hxn⟩

/-- The node of an entity that can be released goes with it, so no node is left behind. -/
theorem Linked.discard (hl : t.Linked) (h : t.isReleasable e = true) :
    (t.discard e).Linked := by
  obtain ⟨hloose, hnode⟩ := isReleasable_iff.1 h
  obtain ⟨-, x, hx, -⟩ := id hloose
  rcases node_discard_cases hx with ⟨hk, hf⟩ | ⟨n, hk, hf⟩
  · refine ⟨hf ▸ hl.nodes, fun e' y n hy hn => ?_, fun n k hn => ?_⟩
    · rw [hf]
      exact hl.inside e' y n ((get?_entities_discard hloose).1 hy).2 hn
    · rw [hf] at hn
      obtain ⟨y, hy, hyn⟩ := hl.outside n k hn
      refine ⟨y, (get?_entities_discard hloose).2 ⟨?_, hy⟩, hyn⟩
      intro heq
      obtain rfl := Option.some.inj (hx.symm.trans (heq ▸ hy))
      rw [hk] at hyn
      cases hyn
  · have herase : (t.discard e).forest.nodes = t.forest.nodes.erase n := by
      rw [hf, Forest.erase, if_pos (hnode n (Option.bind_eq_some_iff.2 ⟨x, hx, hk⟩))]
    obtain ⟨k, hkn, rfl⟩ := hl.inside e x n hx hk
    refine ⟨herase ▸ hl.nodes.erase n, fun e' y m hy hm => ?_, fun m k' hm => ?_⟩
    · obtain ⟨hne, hy⟩ := (get?_entities_discard hloose).1 hy
      obtain ⟨k', hk', rfl⟩ := hl.inside e' y m hy hm
      refine ⟨k', ?_, rfl⟩
      rw [herase, SlotTable.get?_erase, if_neg, hk']
      rintro rfl
      exact hne (congrArg TypeNode.owner (Option.some.inj (hk'.symm.trans hkn)))
    · rw [herase, SlotTable.get?_erase] at hm
      split_ifs at hm with hne
      obtain ⟨y, hy, hym⟩ := hl.outside m k' hm
      refine ⟨y, (get?_entities_discard hloose).2 ⟨?_, hy⟩, hym⟩
      intro heq
      obtain rfl := Option.some.inj (hx.symm.trans (heq ▸ hy))
      exact hne (Option.some.inj (hym.symm.trans hk))

theorem Linked.attach (hl : t.Linked) (h : t.attach c e = .ok t') : t'.Linked := by
  have hf := forest_attach h
  refine hl.congr (hf ▸ hl.nodes) (fun e' => ?_) fun n => by rw [hf]
  obtain ⟨x, s, hx, -, -, -, hent, -⟩ := attach_cases h
  rw [hent]
  split_ifs with he
  · rw [he, hx]
    rfl
  · rfl

/-! ## Matched tables -/

theorem Matched.start (config : Config) : (Tables.start config : Tables L T).Matched :=
  ⟨(Sound.start config).coherent, .start config,
    SlotTable.counted_empty.insert SlotTable.wellFormed_empty _,
    SlotTable.counted_empty.insert SlotTable.wellFormed_empty _, SlotTable.counted_empty⟩

theorem Matched.place (hm : t.Matched) (d : Declaration L) : (t.place d).2.Matched := by
  have ht := hm.coherent.formed
  refine ⟨hm.coherent.edit (.place t d), hm.linked.place ht d, ?_, ?_, ?_⟩
  · obtain ⟨kind, he, -⟩ := place_cases t d
    exact he ▸ hm.counted.entities.insert ht.entities _
  · obtain ⟨kind, -, ⟨-, hs⟩ | ⟨loader, -, hs⟩⟩ := place_cases t d
    · exact hs ▸ hm.counted.scopes
    · exact hs ▸ hm.counted.scopes.insert ht.scopes _
  · obtain ⟨kind, -, ⟨-, hf⟩ | ⟨-, hf⟩⟩ := node_place_cases t d
    · exact hf ▸ hm.counted.nodes
    · exact hf ▸ hm.counted.nodes.insert hm.linked.nodes _

theorem Matched.discard (hm : t.Matched) (h : t.isReleasable e = true) :
    (t.discard e).Matched := by
  obtain ⟨hloose, -⟩ := isReleasable_iff.1 h
  obtain ⟨-, x, hx, -⟩ := id hloose
  obtain ⟨he, hs⟩ := discard_cases hx
  refine ⟨hm.coherent.edit (.discard hloose), hm.linked.discard h, ?_, ?_, ?_⟩
  · exact he ▸ hm.counted.entities.erase e
  · rcases hs with ⟨-, hs⟩ | ⟨c, -, hs⟩
    · exact hs ▸ hm.counted.scopes
    · exact hs ▸ hm.counted.scopes.erase c
  · rcases node_discard_cases hx with ⟨-, hf⟩ | ⟨n, -, hf⟩
    · exact hf ▸ hm.counted.nodes
    · rw [hf, Forest.erase]
      split_ifs
      · exact hm.counted.nodes.erase n
      · exact hm.counted.nodes

theorem Matched.attach (hm : t.Matched) (h : t.attach c e = .ok t') : t'.Matched := by
  refine ⟨hm.coherent.edit (.attach h), hm.linked.attach h, ?_⟩
  obtain ⟨x, s, -, -, -, -, rfl⟩ := attach_eq_ok.1 h
  exact ⟨hm.counted.entities.modify e _, hm.counted.scopes.modify c _, hm.counted.nodes⟩

theorem Matched.scope (hm : t.Matched) (c : ScopeId) {f : Scope L T → Scope L T}
    (h : ∀ s : Scope L T, s.Alike (f s)) : Matched { t with scopes := t.scopes.modify c f } :=
  ⟨hm.coherent.edit (.scope t c f h),
    hm.linked.congr hm.linked.nodes (fun _ => rfl) fun _ => rfl,
    hm.counted.entities, hm.counted.scopes.modify c f, hm.counted.nodes⟩

theorem Matched.relinked (hm : t.Matched) (id : NodeId) (parent : Option NodeId)
    (ancestors : Option (List NodeId)) :
    Matched { t with forest := t.forest.relinked id parent ancestors } := by
  have hre := Forest.reworked_relinked t.forest id parent ancestors
  refine ⟨hm.coherent.edit (.forest t _), hm.linked.congr (hre.wellFormed hm.linked.nodes)
    (fun _ => rfl) (Forest.owner_relinked t.forest id parent ancestors), hm.counted.entities,
    hm.counted.scopes, ?_⟩
  exact Forest.counted_relinked hm.counted.nodes id parent ancestors

/-! ## As many as there should be -/

theorem Matched.size_nodes (hm : t.Matched) : t.forest.nodes.size =
    t.entities.toList.countP fun entry => entry.2.kind matches .type .. := by
  rw [hm.counted.nodes.size_eq_countP hm.linked.inside hm.linked.outside]
  congr 1
  funext entry
  cases entry.2.kind <;> rfl

/-- There are as many scopes as types and packages. -/
theorem Matched.size_scopes (hm : t.Matched) : t.scopes.size =
    (t.entities.toList.countP fun entry => entry.2.kind matches .type ..) +
      t.entities.toList.countP fun entry => entry.2.kind matches .package _ := by
  rw [hm.counted.scopes.size_eq_countP hm.coherent.paired.inside hm.coherent.paired.outside]
  induction t.entities.toList with
  | nil => rfl
  | cons entry entries ih =>
    simp only [List.countP_cons, ih]
    cases entry.2.kind <;> simp [EntityKind.scope?] <;> omega

/-- The node of a type is live, and belongs to it. -/
theorem Matched.exists_node (hm : t.Matched) {n : NodeId} (hn : t.node? e = some n) :
    ∃ k, t.forest.nodes.get? n = some k ∧ k.owner = e := by
  obtain ⟨x, hx, hxn⟩ := Option.bind_eq_some_iff.1 hn
  exact hm.linked.inside e x n hx hxn

/-- A node is that of its owner only. -/
theorem Matched.node?_eq_some_iff (hm : t.Matched) {n : NodeId} {k : TypeNode}
    (hk : t.forest.nodes.get? n = some k) : t.node? e = some n ↔ k.owner = e := by
  constructor
  · intro hn
    obtain ⟨k', hk', rfl⟩ := hm.exists_node hn
    rw [Option.some.inj (hk.symm.trans hk')]
  · rintro rfl
    exact Option.bind_eq_some_iff.2 (hm.linked.outside n k hk)

theorem Matched.contains_node (hm : t.Matched) {n : NodeId} (hn : t.node? e = some n) :
    t.forest.nodes.contains n = true := by
  obtain ⟨k, hk, -⟩ := hm.exists_node hn
  exact SlotTable.contains_of_get? hk

end Tables

end NameResolution
