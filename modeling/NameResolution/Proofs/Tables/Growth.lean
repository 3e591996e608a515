import NameResolution.Proofs.Forest.Grafting
import NameResolution.Proofs.Tables.Ownership

/-!
# Tables that grow

Tables grow as long as nothing is taken out of them and no type that was there is moved
(`Grown`). Whether a declaration finds its supertype does not change meanwhile
(`Linkable.grown`), and neither does what has been made of one (`Made.grown`).

Placing a declaration lets tables grow (`grown_place`), and so does putting its entity
into the scope that it is declared for (`Formed.attach_placed`).
-/

namespace NameResolution

variable {L T : Type}

/-- The declaration makes entities of the kind. -/
def DeclarationKind.Makes : DeclarationKind L → EntityKind → Prop
  | .type _, .type _ _ => True
  | .package _, .package _ => True
  | .function result, .function result' => result' = result
  | .var t, .var t' => t' = t
  | .thread, .thread => True
  | _, _ => False

namespace Tables

variable {t t' : Tables L T} {c : ScopeId} {e p : EntityId} {n : NodeId} {d : Declaration L}
  {g : Forest}

/-! ## What is asked of tables -/

/-- The entity is what the declaration says, and belongs to the scope. -/
def Made (t : Tables L T) (c : ScopeId) (d : Declaration L) (e : EntityId) : Prop :=
  ∃ kind, d.kind.Makes kind ∧
    t.entities.get? e = some { d.toEntity kind with owner := some c }

/-- The supertype, if one is given, is a live type whose chain may get longer. -/
def Linkable (t : Tables L T) (kind : DeclarationKind L) : Prop :=
  ∀ p, kind = .type (some p) → ∃ n, t.typeNode p = .ok n ∧ t.forest.nodes.contains n = true ∧
    (t.forest.chain n).length < t.forest.maxDepth

/-- The node of an entity is answered exactly if it is a live type. -/
theorem typeNode_eq_ok : t.typeNode p = .ok n ↔
    ∃ x, t.entities.get? p = some x ∧ x.kind.node? = some n := by
  unfold typeNode
  cases t.entities.get? p with
  | none => simp
  | some x => cases hn : x.kind.node? <;> simp [hn]

/-! ## Growth -/

/-- Entities are there as they were, and so are the nodes of types and their chains. -/
structure Grown (t t' : Tables L T) : Prop where
  entities : ∀ e x, t.entities.get? e = some x → t'.entities.get? e = some x
  forest : t.forest.Grown t'.forest

/-- What can be linked can still be linked after growth. -/
theorem Linkable.grown {kind : DeclarationKind L} (hl : t.Linkable kind) (h : t.Grown t') :
    t'.Linkable kind := by
  intro p hp
  obtain ⟨n, hn, hlive, hlen⟩ := hl p hp
  obtain ⟨x, hx, hxn⟩ := typeNode_eq_ok.1 hn
  refine ⟨n, typeNode_eq_ok.2 ⟨x, h.entities p x hx, hxn⟩, h.forest.contains n hlive, ?_⟩
  rw [h.forest.chain n hlive, h.forest.maxDepth]
  exact hlen

theorem Made.grown (hm : t.Made c d e) (h : t.Grown t') : t'.Made c d e := by
  obtain ⟨kind, hk, he⟩ := hm
  exact ⟨kind, hk, h.entities e _ he⟩

/-! ## Placing -/

/-- Placing a declaration makes an entity of its kind. -/
theorem place_makes (t : Tables L T) (d : Declaration L) :
    ∃ kind, d.kind.Makes kind ∧ (t.place d).2.entities = t.entities.insert (d.toEntity kind) := by
  unfold place
  cases d.kind <;> exact ⟨_, by simp [DeclarationKind.Makes], rfl⟩

/-- The entity of a declaration after it has been placed, wherever its type is linked. -/
theorem Formed.get?_placed (ht : t.Formed) (d : Declaration L) :
    ∃ kind, d.kind.Makes kind ∧
      ∀ e, (t.place d).2.entities.get? e =
        if e = t.entities.next then some (d.toEntity kind) else t.entities.get? e := by
  obtain ⟨kind, hk, he⟩ := t.place_makes d
  refine ⟨kind, hk, fun e => ?_⟩
  rw [he, SlotTable.get?_insert ht.entities]

theorem grown_place (ht : t.Formed) (d : Declaration L) (hg : t.forest.Grown g) :
    t.Grown { (t.place d).2 with forest := g } := by
  obtain ⟨kind, -, he⟩ := ht.get?_placed d
  refine ⟨fun e x hx => ?_, hg⟩
  rw [he, if_neg (SlotTable.ne_next ht.entities hx), hx]

theorem typeNode_place (ht : t.Formed) {parent : Option EntityId} (hd : d.kind = .type parent) :
    (t.place d).2.typeNode t.entities.next = .ok t.forest.nodes.next := by
  refine typeNode_eq_ok.2 ?_
  unfold place
  rw [hd]
  exact ⟨_, (SlotTable.get?_insert ht.entities _ _).trans (if_pos rfl), rfl⟩

theorem forest_place_of_type {parent : Option EntityId} (hd : d.kind = .type parent) :
    (t.place d).2.forest = t.forest.insert t.entities.next := by
  unfold place
  rw [hd]

/-- The new node has neither a supertype nor children. -/
theorem grown_forest_place (hf : t.forest.Supported) (d : Declaration L) :
    t.forest.Grown (t.place d).2.forest := by
  unfold place
  cases d.kind with
  | type parent => exact hf.grown_insert _
  | _ => exact hf.grown_self

/-! ## Putting into a scope -/

theorem forest_attach (h : t.attach c e = .ok t') : t'.forest = t.forest := by
  obtain ⟨x, s, -, -, -, -, rfl⟩ := attach_eq_ok.1 h
  rfl

/-- What has been placed is put into a scope that has nothing of its name and signature, wherever
its type is linked. -/
theorem Formed.attach_placed {x : Scope L T} (ht : t.Formed) (hg : t.forest.Grown g)
    (hx : t.scopes.get? c = some x) (hnew : x.find? d.name d.params = none) :
    ∃ t', ({ (t.place d).2 with forest := g } : Tables L T).attach c t.entities.next = .ok t' ∧
      t'.Formed ∧ t.Grown t' ∧ t'.Made c d t.entities.next ∧
      t'.scopes.get? c = some (x.push d.name d.params t.entities.next) := by
  obtain ⟨kind, hk, hget⟩ := ht.get?_placed d
  have hx' := ht.get?_scopes_place_of_some d hx
  have hnext : (t.place d).2.entities.get? t.entities.next = some (d.toEntity kind) := by
    rw [hget, if_pos rfl]
  obtain ⟨t', h⟩ : ∃ t', ({ (t.place d).2 with forest := g } : Tables L T).attach c
      t.entities.next = .ok t' := ⟨_, attach_eq_ok.2 ⟨_, x, hnext, rfl, hx', hnew, rfl⟩⟩
  have hformed : ({ (t.place d).2 with forest := g } : Tables L T).Formed :=
    (ht.place d).edit (.forest _ g)
  obtain ⟨y, z, hy, -, hz, -, hent, hscope⟩ := attach_cases h
  obtain rfl := Option.some.inj (hnext.symm.trans hy)
  obtain rfl := Option.some.inj (hx'.symm.trans hz)
  refine ⟨t', h, hformed.attach h, ⟨fun e x hx => ?_, forest_attach h ▸ hg⟩,
    ⟨kind, hk, (hent _).trans (if_pos rfl)⟩, (hscope c).trans (if_pos rfl)⟩
  have hne := SlotTable.ne_next ht.entities hx
  exact (hent e).trans ((if_neg hne).trans (ht.get?_entities_place_of_some d hx))

end Tables

end NameResolution
