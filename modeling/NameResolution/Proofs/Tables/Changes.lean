import NameResolution.Proofs.Handles
import NameResolution.Proofs.Scopes
import NameResolution.Tables

/-!
# What changes do to entities and scopes

Placing a declaration fills one slot for the entity and, for a type or a package, one
for its scope (`place_cases`). Discarding an entity empties the same slots
(`discard_cases`). Attaching writes the owner into the entity and the entity into the
scope, and needs an entity without an owner (`attach_eq_ok`).

`Tables.Formed` says that both tables are well formed and the root entity is live. An
entity other than the root that has no owner is loose (`Tables.Loose`) : only loose ones
are discarded, so the root stays. `Tables.Edit` lists the changes that are ever made;
they keep tables formed (`Formed.edit`) and never give a slot up (`Formed.extends_edit`).
-/

namespace NameResolution

namespace Tables

variable {L T : Type} {t t' : Tables L T} {c : ScopeId} {e : EntityId} {x : Entity}

/-! ## Effects -/

theorem place_fst (t : Tables L T) (d : Declaration L) : (t.place d).1 = t.entities.next :=
  rfl

/-- What placing a declaration adds : an entity, and its scope if it has one. -/
theorem place_cases (t : Tables L T) (d : Declaration L) :
    ∃ kind, (t.place d).2.entities = t.entities.insert (d.toEntity kind) ∧
      (kind.scope? = none ∧ (t.place d).2.scopes = t.scopes ∨
        ∃ loader, kind.scope? = some t.scopes.next ∧
          (t.place d).2.scopes = t.scopes.insert { entity := t.entities.next, loader }) := by
  unfold place
  cases d.kind with
  | type parent => exact ⟨_, rfl, Or.inr ⟨none, rfl, rfl⟩⟩
  | function result => exact ⟨_, rfl, Or.inl ⟨rfl, rfl⟩⟩
  | var type => exact ⟨_, rfl, Or.inl ⟨rfl, rfl⟩⟩
  | thread => exact ⟨_, rfl, Or.inl ⟨rfl, rfl⟩⟩
  | package loader => exact ⟨_, rfl, Or.inr ⟨loader, rfl, rfl⟩⟩

/-- The scope of a new type has no loader. -/
theorem type_place_cases (t : Tables L T) (d : Declaration L) :
    ∃ kind, (t.place d).2.entities = t.entities.insert (d.toEntity kind) ∧
      ∀ n c, kind = .type n c → c = t.scopes.next ∧
        (t.place d).2.scopes = t.scopes.insert { entity := t.entities.next } := by
  unfold place
  cases d.kind with
  | type parent => exact ⟨_, rfl, by rintro n c ⟨⟩; exact ⟨rfl, rfl⟩⟩
  | function result => exact ⟨_, rfl, nofun⟩
  | var type => exact ⟨_, rfl, nofun⟩
  | thread => exact ⟨_, rfl, nofun⟩
  | package loader => exact ⟨_, rfl, nofun⟩

/-- What discarding takes away : the entity, and its scope if it has one. -/
theorem discard_cases (hx : t.entities.get? e = some x) :
    (t.discard e).entities = t.entities.erase e ∧
      (x.kind.scope? = none ∧ (t.discard e).scopes = t.scopes ∨
        ∃ c, x.kind.scope? = some c ∧ (t.discard e).scopes = t.scopes.erase c) := by
  unfold discard
  rw [hx, Option.map_some]
  cases x.kind with
  | type node members => exact ⟨rfl, Or.inr ⟨members, rfl, rfl⟩⟩
  | function result => exact ⟨rfl, Or.inl ⟨rfl, rfl⟩⟩
  | var type => exact ⟨rfl, Or.inl ⟨rfl, rfl⟩⟩
  | thread => exact ⟨rfl, Or.inl ⟨rfl, rfl⟩⟩
  | package scope => exact ⟨rfl, Or.inr ⟨scope, rfl, rfl⟩⟩

theorem get?_scopes_of_discard (hx : t.entities.get? e = some x) {s : Scope L T}
    (h : (t.discard e).scopes.get? c = some s) : t.scopes.get? c = some s := by
  rcases (discard_cases hx).2 with ⟨-, hs⟩ | ⟨c₀, -, hs⟩
  · rwa [hs] at h
  · rw [hs, SlotTable.get?_erase] at h
    split_ifs at h
    exact h

/-- A scope stays if its slot has not been emptied. -/
theorem get?_scopes_discard_of_releasesAt (hx : t.entities.get? e = some x) {s : Scope L T}
    (hs : t.scopes.get? c = some s)
    (hr : (t.discard e).scopes.releasesAt c = t.scopes.releasesAt c) :
    (t.discard e).scopes.get? c = some s := by
  rcases (discard_cases hx).2 with ⟨-, hsc⟩ | ⟨c₀, -, hsc⟩
  · rw [hsc, hs]
  · have hne : c ≠ c₀ := by
      rintro rfl
      rw [hsc, SlotTable.releasesAt_erase (SlotTable.contains_of_get? hs)] at hr
      exact Nat.succ_ne_self _ hr
    rw [hsc, SlotTable.get?_erase, if_neg hne, hs]

/-- Exactly an entity without an owner can be attached, where no other one has its name and
signature. -/
theorem attach_eq_ok : t.attach c e = .ok t' ↔
    ∃ x s, t.entities.get? e = some x ∧ x.owner = none ∧ t.scopes.get? c = some s ∧
      s.find? x.name x.params = none ∧
      t' = { t with
        scopes := t.scopes.modify c (·.push x.name x.params e)
        entities := t.entities.modify e fun x => { x with owner := some c } } := by
  unfold attach entity scope
  cases hx : t.entities.get? e with
  | none => simp [bind, Except.bind]
  | some x =>
    cases ho : x.owner with
    | some owner => simp [bind, Except.bind, ho, throw, throwThe, MonadExceptOf.throw]
    | none =>
      cases hs : t.scopes.get? c with
      | none => simp [bind, Except.bind, ho]
      | some s =>
        cases hf : s.find? x.name x.params with
        | none =>
          simp [bind, Except.bind, ho, hf, pure, Except.pure, eq_comm]
        | some existing =>
          cases he : t.entities.get? existing <;>
            simp [bind, Except.bind, ho, hf, he, throw, throwThe, MonadExceptOf.throw]

/-- An entity without an owner is refused where another one has its name and signature. -/
theorem attach_of_find? {s : Scope L T} {other : EntityId} {y : Entity}
    (hx : t.entities.get? e = some x) (hown : x.owner = none) (hs : t.scopes.get? c = some s)
    (hf : s.find? x.name x.params = some other) (hy : t.entities.get? other = some y) :
    t.attach c e = .error
      (.failure (.duplicateDefinition x.name other x.location y.location)) := by
  unfold attach entity scope
  simp [hx, hown, hs, hf, hy, bind, Except.bind, throw, throwThe, MonadExceptOf.throw]

/-- Attaching changes what is read at the entity and at the scope. -/
theorem attach_cases (h : t.attach c e = .ok t') :
    ∃ x s, t.entities.get? e = some x ∧ x.owner = none ∧ t.scopes.get? c = some s ∧
      s.find? x.name x.params = none ∧
      (∀ e', t'.entities.get? e' =
        if e' = e then some { x with owner := some c } else t.entities.get? e') ∧
      ∀ c', t'.scopes.get? c' =
        if c' = c then some (s.push x.name x.params e) else t.scopes.get? c' := by
  obtain ⟨x, s, hx, hown, hs, hnew, rfl⟩ := attach_eq_ok.1 h
  refine ⟨x, s, hx, hown, hs, hnew, fun e' => ?_, fun c' => ?_⟩
  · rw [SlotTable.get?_modify, hx]
    rfl
  · rw [SlotTable.get?_modify, hs]
    rfl

/-! ## Well-formed tables -/

/-- Both tables are well formed, and the root is there. -/
structure Formed (t : Tables L T) : Prop where
  entities : t.entities.WellFormed
  scopes : t.scopes.WellFormed
  root : ∃ x, t.entities.get? rootEntity = some x ∧ x.kind = .package rootScope

/-- The entity is live, has no owner, and is not the root : nothing keeps it alive. -/
def Loose (t : Tables L T) (e : EntityId) : Prop :=
  e ≠ rootEntity ∧ ∃ x, t.entities.get? e = some x ∧ x.owner = none

/-- An entity that can be released is held by no scope. -/
theorem loose_of_isReleasable (h : t.isReleasable e = true) : t.Loose e := by
  unfold isReleasable at h
  cases hx : t.entities.get? e with
  | none => simp [hx] at h
  | some x =>
    simp only [hx, Bool.and_eq_true, bne_iff_ne, Option.isNone_iff_eq_none] at h
    exact ⟨h.1.2, x, hx, h.1.1⟩

/-- The entity has this name and signature, and nobody has put it into a scope yet. -/
def Declared (t : Tables L T) (name : String) (params : List Param) (e : EntityId) : Prop :=
  e ≠ rootEntity ∧ ∃ x, t.entities.get? e = some x ∧ x.owner = none ∧ x.name = name ∧
    x.params = params

/-- The entity is there, with this name and signature, and belongs to the scope. -/
def Has (t : Tables L T) (c : ScopeId) (name : String) (params : List Param) (e : EntityId) :
    Prop :=
  ∃ x, t.entities.get? e = some x ∧ x.name = name ∧ x.params = params ∧ x.owner = some c

theorem Declared.loose {name : String} {params : List Param} (h : t.Declared name params e) :
    t.Loose e := by
  obtain ⟨hne, x, hx, hown, -⟩ := h
  exact ⟨hne, x, hx, hown⟩

/-- A placed declaration is in the tables, and in no scope yet. -/
theorem Formed.declared_place (ht : t.Formed) (d : Declaration L) :
    (t.place d).2.Declared d.name d.params (t.place d).1 := by
  obtain ⟨kind, he, -⟩ := place_cases t d
  obtain ⟨root, hr, -⟩ := ht.root
  refine ⟨(SlotTable.ne_next ht.entities hr).symm, d.toEntity kind, ?_, rfl, rfl, rfl⟩
  rw [he, place_fst, SlotTable.get?_insert ht.entities, if_pos rfl]

theorem Formed.start (config : Config) : (Tables.start config : Tables L T).Formed :=
  ⟨SlotTable.wellFormed_empty.insert _, SlotTable.wellFormed_empty.insert _, ⟨_, rfl, rfl⟩⟩

theorem Formed.place (ht : t.Formed) (d : Declaration L) : (t.place d).2.Formed := by
  obtain ⟨kind, he, hs⟩ := place_cases t d
  refine ⟨he ▸ ht.entities.insert _, ?_, ?_⟩
  · rcases hs with ⟨-, hs⟩ | ⟨loader, -, hs⟩
    · exact hs ▸ ht.scopes
    · exact hs ▸ ht.scopes.insert _
  · obtain ⟨root, hr, hk⟩ := ht.root
    refine ⟨root, ?_, hk⟩
    rw [he, SlotTable.get?_insert ht.entities, if_neg (SlotTable.ne_next ht.entities hr), hr]

theorem Formed.discard (ht : t.Formed) (he : t.Loose e) : (t.discard e).Formed := by
  obtain ⟨hne, x, hx, -⟩ := he
  obtain ⟨hen, hsc⟩ := discard_cases hx
  refine ⟨hen ▸ ht.entities.erase e, ?_, ?_⟩
  · rcases hsc with ⟨-, hsc⟩ | ⟨c, -, hsc⟩
    · exact hsc ▸ ht.scopes
    · exact hsc ▸ ht.scopes.erase c
  · obtain ⟨root, hr, hk⟩ := ht.root
    refine ⟨root, ?_, hk⟩
    rw [hen, SlotTable.get?_erase, if_neg (Ne.symm hne), hr]

theorem Formed.attach (ht : t.Formed) (h : t.attach c e = .ok t') : t'.Formed := by
  obtain ⟨root, hr, hk⟩ := ht.root
  obtain ⟨x, s, hx, -, -, -, hent, -⟩ := attach_cases h
  have hroot : ∃ x, t'.entities.get? rootEntity = some x ∧ x.kind = .package rootScope := by
    rw [hent]
    split_ifs with he
    · rw [← he, hr] at hx
      exact ⟨_, rfl, Option.some.inj hx ▸ hk⟩
    · exact ⟨root, hr, hk⟩
  obtain ⟨y, z, -, -, -, -, rfl⟩ := attach_eq_ok.1 h
  exact ⟨ht.entities.modify e _, ht.scopes.modify c _, hroot⟩

/-! ## What tables keep over their life -/

/-- A later state of the tables, slot by slot. -/
structure Extends (t t' : Tables L T) : Prop where
  entities : t.entities.Extends t'.entities
  scopes : t.scopes.Extends t'.scopes

/-- No slot of an entity or a scope has been emptied so often that its generation has come
round. -/
structure Unwrapped (t : Tables L T) : Prop where
  entities : t.entities.Unwrapped
  scopes : t.scopes.Unwrapped

instance (t : Tables L T) : Decidable t.Unwrapped :=
  decidable_of_iff (t.entities.Unwrapped ∧ t.scopes.Unwrapped)
    ⟨fun h => ⟨h.1, h.2⟩, fun h => ⟨h.entities, h.scopes⟩⟩

theorem Extends.refl (t : Tables L T) : t.Extends t :=
  ⟨.refl _, .refl _⟩

theorem Extends.trans {u : Tables L T} (h : t.Extends t') (h' : t'.Extends u) : t.Extends u :=
  ⟨h.entities.trans h'.entities, h.scopes.trans h'.scopes⟩

theorem Extends.unwrapped (h : t.Extends t') (ht : t'.Unwrapped) : t.Unwrapped :=
  ⟨h.entities.unwrapped ht.entities, h.scopes.unwrapped ht.scopes⟩

theorem Formed.extends_place (ht : t.Formed) (d : Declaration L) : t.Extends (t.place d).2 := by
  obtain ⟨kind, he, hs⟩ := place_cases t d
  refine ⟨he ▸ SlotTable.extends_insert ht.entities _, ?_⟩
  rcases hs with ⟨-, hs⟩ | ⟨loader, -, hs⟩
  · exact hs ▸ SlotTable.Extends.refl _
  · exact hs ▸ SlotTable.extends_insert ht.scopes _

theorem extends_discard (he : t.Loose e) : t.Extends (t.discard e) := by
  obtain ⟨-, x, hx, -⟩ := he
  obtain ⟨hen, hsc⟩ := discard_cases hx
  refine ⟨hen ▸ SlotTable.extends_erase e, ?_⟩
  rcases hsc with ⟨-, hsc⟩ | ⟨c, -, hsc⟩
  · exact hsc ▸ SlotTable.Extends.refl _
  · exact hsc ▸ SlotTable.extends_erase c

theorem extends_attach (h : t.attach c e = .ok t') : t.Extends t' := by
  obtain ⟨x, s, -, -, -, -, rfl⟩ := attach_eq_ok.1 h
  exact ⟨SlotTable.extends_modify e _, SlotTable.extends_modify c _⟩

/-! ## Edits -/

/-- One change to the tables. A scope is changed in its templates, observers and loading only,
unless an entity is attached to it. -/
inductive Edit : Tables L T → Tables L T → Prop
  | refl (t : Tables L T) : Edit t t
  | place (t : Tables L T) (d : Declaration L) : Edit t (t.place d).2
  | discard {t : Tables L T} {e : EntityId} (h : t.Loose e) : Edit t (t.discard e)
  | attach {t t' : Tables L T} {c : ScopeId} {e : EntityId} (h : t.attach c e = .ok t') : Edit t t'
  | forest (t : Tables L T) (forest : Forest) : Edit t { t with forest }
  | scope (t : Tables L T) (c : ScopeId) (f : Scope L T → Scope L T)
    (h : ∀ s : Scope L T, s.Alike (f s)) : Edit t { t with scopes := t.scopes.modify c f }

theorem Formed.edit (ht : t.Formed) (h : Edit t t') : t'.Formed := by
  cases h with
  | refl => exact ht
  | place d => exact ht.place d
  | discard h => exact ht.discard h
  | attach h => exact ht.attach h
  | forest f => exact ⟨ht.entities, ht.scopes, ht.root⟩
  | scope c f h => exact ⟨ht.entities, ht.scopes.modify c f, ht.root⟩

/-- No edit touches the configuration. -/
theorem Edit.config_eq (h : Edit t t') : t'.config = t.config := by
  cases h with
  | refl => rfl
  | place d =>
    unfold Tables.place
    cases d.kind <;> rfl
  | discard h =>
    unfold Tables.discard
    split <;> rfl
  | attach h =>
    obtain ⟨x, s, -, -, -, -, rfl⟩ := attach_eq_ok.1 h
    rfl
  | forest f => rfl
  | scope c f h => rfl

/-- An edit gives up no handle that has been handed out. -/
theorem Formed.extends_edit (ht : t.Formed) (h : Edit t t') : t.Extends t' := by
  cases h with
  | refl => exact Extends.refl _
  | place d => exact ht.extends_place d
  | discard h => exact extends_discard h
  | attach h => exact extends_attach h
  | forest f => exact ⟨.refl _, .refl _⟩
  | scope c f h => exact ⟨.refl _, SlotTable.extends_modify c f⟩

end Tables

end NameResolution
