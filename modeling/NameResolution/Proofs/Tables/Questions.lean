import NameResolution.Proofs.Forest.Queries
import NameResolution.Proofs.Tables.Matching

/-!
# Questions about any handles

Questions about inheritance take handles of entities, which may be stale, or may never have
been handed out. In tables that match, over a flattened forest, every question has an answer
(`answers`) : the node of a live type is live, and so are all nodes that its record, its chain
and its list of subtypes lead to. What is no live type is unrelated to everything
(`Apart`), and has no supertype to be asked for.
-/

namespace NameResolution

namespace Forest

variable {f : Forest} {id x : NodeId}

end Forest

namespace Tables

variable {L T : Type} {t : Tables L T} {e other : EntityId} {n m : NodeId}

/-- No two of the questions that take two handles find the entities related. -/
structure Apart (t : Tables L T) (e other : EntityId) : Prop where
  isA : t.isA e other = .ok false
  distance : t.distance e other = .ok none
  commonAncestor : t.commonAncestor e other = .ok none

/-- Every question about the inheritance of two handles has an answer. -/
structure Answers (t : Tables L T) (e other : EntityId) : Prop where
  isA : ∃ b, t.isA e other = .ok b
  distance : ∃ steps, t.distance e other = .ok steps
  commonAncestor : ∃ a, t.commonAncestor e other = .ok a
  subtypes : ∃ es, t.subtypes e = .ok es
  /-- What is no live type is told apart from a type without a supertype. -/
  superType : (t.node? e = none ∧ t.superType e = .error (.failure (.notAType e))) ∨
    ∃ parent, t.superType e = .ok parent
  apart : t.node? e = none ∨ t.node? other = none → t.Apart e other
  childless : t.node? e = none → t.subtypes e = .ok []

theorem apart (h : t.node? e = none ∨ t.node? other = none) : t.Apart e other := by
  constructor
  · unfold isA
    rcases h with h | h
    · rw [h]
      rfl
    · rw [h]
      cases t.node? e <;> rfl
  · unfold distance
    rcases h with h | h
    · rw [h]
      rfl
    · rw [h]
      cases t.node? e <;> rfl
  · unfold commonAncestor
    rcases h with h | h
    · rw [h]
      rfl
    · rw [h]
      cases t.node? e <;> rfl

/-- What is no type has no supertype to ask for. -/
theorem superType_of_node?_eq_none (h : t.node? e = none) :
    t.superType e = .error (.failure (.notAType e)) := by
  have htype : t.typeNode e = .error (.failure (.notAType e)) := by
    cases hn : t.typeNode e with
    | ok n =>
      rw [node?_of_typeNode hn] at h
      cases h
    | error stop => rw [(typeNode_eq_error hn).2]
  unfold superType
  rw [htype]
  rfl

/-- The supertype of a type is read off its node. -/
theorem superType_eq_mapM (hm : t.Matched) (hn : t.node? e = some n) :
    t.superType e = (t.forest.parent? n).mapM t.forest.owner := by
  obtain ⟨k, hk, -⟩ := hm.exists_node hn
  have htype : t.typeNode e = .ok n := typeNode_eq_ok.2 (Option.bind_eq_some_iff.1 hn)
  unfold superType
  rw [htype, Forest.parent?_of_get? hk]
  simp only [bind, Except.bind, Forest.node_eq_ok_iff.2 hk]
  cases k.parent with
  | none => rfl
  | some p => cases t.forest.owner p <;> rfl

/-- The supertype of a type is the entity of the node above its node. -/
theorem superType_eq_some_iff (hm : t.Matched) : t.superType other = .ok (some e) ↔
    ∃ m n, t.node? other = some m ∧ t.node? e = some n ∧ t.forest.parent? m = some n := by
  cases ho : t.node? other with
  | none => simp [superType_of_node?_eq_none ho]
  | some m =>
    rw [superType_eq_mapM hm ho]
    cases hparent : t.forest.parent? m with
    | none => simp [hparent, pure, Except.pure]
    | some p =>
      cases hp : t.forest.nodes.get? p with
      | none =>
        have hnot : t.node? e ≠ some p := by
          intro hn
          obtain ⟨j, hj, -⟩ := hm.exists_node hn
          rw [hp] at hj
          cases hj
        simp [hparent, Forest.owner, Forest.node, hp, hnot, bind, Except.bind]
      | some j => simp [hparent, Forest.owner_eq_ok hp, hm.node?_eq_some_iff hp]

theorem superType_eq_none_iff (hm : t.Matched) : t.superType e = .ok none ↔
    ∃ n, t.node? e = some n ∧ t.forest.parent? n = none := by
  cases hn : t.node? e with
  | none => simp [superType_of_node?_eq_none hn]
  | some n =>
    rw [superType_eq_mapM hm hn]
    cases hparent : t.forest.parent? n with
    | none => simp [hparent, pure, Except.pure]
    | some p => cases hp : t.forest.owner p <;> simp [hparent, hp]

/-- The supertype of a type is where its link leads. -/
theorem superType_eq_iff (hm : t.Matched) {parent : Option EntityId} :
    t.superType e = .ok parent ↔ ∃ n, t.node? e = some n ∧
      (parent.isSome → (parent.bind t.node?).isSome) ∧
      t.forest.parent? n = parent.bind t.node? := by
  cases parent with
  | none => simp [superType_eq_none_iff hm]
  | some p =>
    rw [superType_eq_some_iff hm, Option.bind_some]
    constructor
    · rintro ⟨m, n, hm, hn, hlink⟩
      exact ⟨m, hm, fun _ => by rw [hn, Option.isSome_some], hlink.trans hn.symm⟩
    · rintro ⟨m, hm, hnode, hlink⟩
      obtain ⟨n, hn⟩ := Option.isSome_iff_exists.1 (hnode rfl)
      exact ⟨m, n, hm, hn, hlink.trans hn⟩

/-- A type has a supertype or none. -/
theorem exists_superType (hm : t.Matched) (hf : t.forest.Flattened) (hn : t.node? e = some n) :
    ∃ parent, t.superType e = .ok parent := by
  rw [superType_eq_mapM hm hn]
  cases hp : t.forest.parent? n with
  | none => exact ⟨none, rfl⟩
  | some p =>
    obtain ⟨q, hq⟩ := SlotTable.contains_iff.1 (hf.contains_of_parent? hp)
    exact ⟨some q.owner, by simp [Forest.owner_eq_ok hq]⟩

/-- Live nodes have owners, and are the nodes of these. -/
theorem Matched.exists_mapM_owner (hm : t.Matched) {l : List NodeId}
    (h : ∀ x ∈ l, t.forest.nodes.contains x = true) :
    ∃ es, l.mapM t.forest.owner = .ok es ∧ es.map t.node? = l.map some := by
  induction l with
  | nil => exact ⟨[], rfl, rfl⟩
  | cons x l ih =>
    obtain ⟨k, hk⟩ := SlotTable.contains_iff.1 (h x List.mem_cons_self)
    obtain ⟨es, hes, hnodes⟩ := ih fun y hy => h y (List.mem_cons_of_mem _ hy)
    refine ⟨k.owner :: es, ?_, ?_⟩
    · rw [List.mapM_cons, Forest.owner_eq_ok hk, hes]
      rfl
    · rw [List.map_cons, List.map_cons, hnodes, (hm.node?_eq_some_iff hk).2 rfl]

/-- The subtypes of a live type can always be listed. -/
theorem exists_subtypes (hm : t.Matched) (hn : t.node? e = some n) :
    ∃ es, t.subtypes e = .ok es := by
  obtain ⟨k, hk, -⟩ := hm.exists_node hn
  obtain ⟨es, hes, -⟩ := hm.exists_mapM_owner (l := t.forest.children n)
    fun x hx => (Forest.mem_children_iff.1 hx).elim fun _ h => h.2.2
  refine ⟨es, ?_⟩
  unfold subtypes
  simp only [hn, Forest.node_eq_ok_iff.2 hk, bind, Except.bind]
  exact hes

/-- The nearest common ancestor of two types is on the chain of both, so it is live. -/
theorem exists_commonAncestor (hm : t.Matched) (hf : t.forest.Flattened)
    (hn : t.node? e = some n) (ho : t.node? other = some m) :
    ∃ a, t.commonAncestor e other = .ok a := by
  obtain ⟨k, hk, -⟩ := hm.exists_node hn
  obtain ⟨j, hj, -⟩ := hm.exists_node ho
  have hancestor : t.forest.commonAncestor n m =
      .ok (Forest.commonPath (t.forest.chain n) (t.forest.chain m)).getLast? := by
    unfold Forest.commonAncestor
    rw [Forest.node_eq_ok_iff.2 hk, Forest.node_eq_ok_iff.2 hj]
    rfl
  unfold commonAncestor
  simp only [hn, ho, hancestor, bind, Except.bind]
  cases hlast : (Forest.commonPath (t.forest.chain n) (t.forest.chain m)).getLast? with
  | none => exact ⟨none, rfl⟩
  | some a =>
    have hmem := Forest.commonPath_prefix_left.subset (List.mem_of_getLast? hlast)
    obtain ⟨q, hq⟩ := SlotTable.contains_iff.1
      (hf.contains_of_mem_chain (SlotTable.contains_of_get? hk) hmem)
    exact ⟨some q.owner, by simp only [Forest.owner_eq_ok hq]; rfl⟩

/-- In tables that match, every question has an answer, whatever the handles are. -/
theorem answers (hm : t.Matched) (hf : t.forest.Flattened) (e other : EntityId) :
    t.Answers e other := by
  have hchildless (h : t.node? e = none) : t.subtypes e = .ok [] := by
    unfold subtypes
    rw [h]
    rfl
  cases hn : t.node? e with
  | none =>
    have hapart : t.Apart e other := apart (Or.inl hn)
    exact ⟨⟨_, hapart.isA⟩, ⟨_, hapart.distance⟩, ⟨_, hapart.commonAncestor⟩,
      ⟨_, hchildless hn⟩, Or.inl ⟨hn, superType_of_node?_eq_none hn⟩, apart, hchildless⟩
  | some n =>
    have hsub := exists_subtypes hm hn
    have hsuper := exists_superType hm hf hn
    cases ho : t.node? other with
    | none =>
      have hapart : t.Apart e other := apart (Or.inr ho)
      exact ⟨⟨_, hapart.isA⟩, ⟨_, hapart.distance⟩, ⟨_, hapart.commonAncestor⟩, hsub,
        Or.inr hsuper, apart, hchildless⟩
    | some m =>
      have hisA := Forest.isA_eq_ok_of_contains (hm.contains_node hn) (hm.contains_node ho)
      refine ⟨⟨t.forest.inherits n m, ?_⟩, ?_, exists_commonAncestor hm hf hn ho, hsub,
        Or.inr hsuper, apart, hchildless⟩
      · unfold isA
        simp only [hn, ho, hisA]
      · unfold distance Forest.distance
        simp only [hn, ho, hisA, bind, Except.bind]
        split_ifs
        · exact ⟨_, rfl⟩
        · exact ⟨_, rfl⟩

end Tables

end NameResolution
