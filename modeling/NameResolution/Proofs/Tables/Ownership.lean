import NameResolution.Proofs.Tables.Changes

/-!
# Who owns what

Two records are kept of every scope, which names the entity that it is the inside of, and
is named by it (`Paired`). Only loose entities are ever freed, so an entity with an owner
stays as it is for ever (`Formed.get?_entities_edit`), and the scope of an entity that is
not loose stays too (`Paired.get?_scopes_edit`). What a scope has under a name and signature
it has until it is given up (`Lists.edit`), and never twice (`Distinct.edit`).

Two records are kept also of every entity that was put into a scope : the entity names its
owner, and the scope lists the entity under its name and signature. What a scope lists
belongs to it, after every edit (`Coherent.edit`). That a scope lists everything which names
it as the owner (`Owned`) is kept by an edit as long as a new scope does not get the handle
of an old one (`Sound.edit`).
-/

namespace NameResolution

namespace Tables

variable {L T : Type} {t t' : Tables L T} {c : ScopeId} {e : EntityId} {x : Entity}
  {s : Scope L T}

/-- Every entity that holds a scope is the entity of the scope, and every scope has one. -/
structure Paired (t : Tables L T) : Prop where
  inside : ∀ e x c, t.entities.get? e = some x → x.kind.scope? = some c →
    ∃ s, t.scopes.get? c = some s ∧ s.entity = e
  outside : ∀ c s, t.scopes.get? c = some s →
    ∃ x, t.entities.get? s.entity = some x ∧ x.kind.scope? = some c

/-- An entity with an owner is another one than an entity without. -/
theorem ne_of_owned {e₀ : EntityId} {x₀ : Entity} (hx : t.entities.get? e = some x)
    (hc : x.owner = some c) (hx₀ : t.entities.get? e₀ = some x₀) (hown : x₀.owner = none) :
    e ≠ e₀ := by
  rintro rfl
  rw [hx₀] at hx
  rw [Option.some.inj hx, hc] at hown
  cases hown

/-! ## Placing -/

/-- An entity is there after a placement because it was there before, or it is the new one. -/
theorem Formed.get?_entities_place (ht : t.Formed) {d : Declaration L}
    (h : (t.place d).2.entities.get? e = some x) :
    t.entities.get? e = some x ∨
      e = t.entities.next ∧ ∃ kind, x = d.toEntity kind ∧
        ∀ c, kind.scope? = some c → ∃ loader, (t.place d).2.scopes.get? c =
          some { entity := t.entities.next, loader } := by
  obtain ⟨kind, he, hs⟩ := place_cases t d
  rw [he, SlotTable.get?_insert ht.entities] at h
  split_ifs at h with hn
  · refine Or.inr ⟨hn, kind, (Option.some.inj h).symm, fun c hc => ?_⟩
    rcases hs with ⟨hk, -⟩ | ⟨loader, hk, hs⟩
    · rw [hk] at hc
      cases hc
    · rw [hk] at hc
      obtain rfl := Option.some.inj hc
      exact ⟨loader, by rw [hs, SlotTable.get?_insert ht.scopes, if_pos rfl]⟩
  · exact Or.inl h

/-- A scope is there after a placement because it was there before, or it is the new one. -/
theorem Formed.get?_scopes_place (ht : t.Formed) {d : Declaration L}
    (h : (t.place d).2.scopes.get? c = some s) :
    t.scopes.get? c = some s ∨
      c = t.scopes.next ∧ (∃ loader, s = { entity := t.entities.next, loader }) ∧
        ∃ x, (t.place d).2.entities.get? t.entities.next = some x ∧ x.kind.scope? = some c := by
  obtain ⟨kind, he, ⟨-, hs⟩ | ⟨loader, hk, hs⟩⟩ := place_cases t d
  · exact Or.inl (hs ▸ h)
  · rw [hs, SlotTable.get?_insert ht.scopes] at h
    split_ifs at h with hc
    · refine Or.inr ⟨hc, ⟨loader, (Option.some.inj h).symm⟩, d.toEntity kind, ?_, hc ▸ hk⟩
      rw [he, SlotTable.get?_insert ht.entities, if_pos rfl]
    · exact Or.inl h

theorem Formed.get?_entities_place_of_some (ht : t.Formed) (d : Declaration L)
    (hx : t.entities.get? e = some x) : (t.place d).2.entities.get? e = some x := by
  obtain ⟨kind, he, -⟩ := place_cases t d
  rw [he, SlotTable.get?_insert ht.entities, if_neg (SlotTable.ne_next ht.entities hx), hx]

theorem Formed.get?_scopes_place_of_some (ht : t.Formed) (d : Declaration L)
    (hs : t.scopes.get? c = some s) : (t.place d).2.scopes.get? c = some s := by
  obtain ⟨kind, -, ⟨-, h⟩ | ⟨loader, -, h⟩⟩ := place_cases t d
  · rw [h, hs]
  · rw [h, SlotTable.get?_insert ht.scopes, if_neg (SlotTable.ne_next ht.scopes hs), hs]

/-- A new entity is in no scope, so that nothing has to be paired. -/
theorem Paired.place (hp : t.Paired) (ht : t.Formed) (d : Declaration L) :
    (t.place d).2.Paired := by
  constructor
  · intro e x c hx hc
    rcases ht.get?_entities_place hx with hx | ⟨rfl, kind, rfl, hnew⟩
    · obtain ⟨s, hs, hse⟩ := hp.inside e x c hx hc
      exact ⟨s, ht.get?_scopes_place_of_some d hs, hse⟩
    · obtain ⟨loader, hs⟩ := hnew c hc
      exact ⟨_, hs, rfl⟩
  · intro c s hs
    rcases ht.get?_scopes_place hs with hs | ⟨-, ⟨loader, rfl⟩, hnew⟩
    · obtain ⟨x, hx, hxc⟩ := hp.outside c s hs
      exact ⟨x, ht.get?_entities_place_of_some d hx, hxc⟩
    · exact hnew

/-! ## Discarding -/

/-- What is there after an entity was discarded was there before, and is not that entity. -/
theorem get?_entities_discard {e₀ : EntityId} (he : t.Loose e₀) :
    (t.discard e₀).entities.get? e = some x ↔ e ≠ e₀ ∧ t.entities.get? e = some x := by
  obtain ⟨-, x₀, hx₀, -⟩ := he
  rw [(discard_cases hx₀).1, SlotTable.get?_erase]
  split_ifs with h <;> simp [h]

/-- The scopes after an entity was discarded are those before, but for the one inside of it. -/
theorem Paired.get?_scopes_discard (hp : t.Paired) {e₀ : EntityId} (he : t.Loose e₀) :
    (t.discard e₀).scopes.get? c = some s ↔ s.entity ≠ e₀ ∧ t.scopes.get? c = some s := by
  obtain ⟨-, x₀, hx₀, -⟩ := he
  have hkind (hs : t.scopes.get? c = some s) (hse : s.entity = e₀) : x₀.kind.scope? = some c := by
    obtain ⟨x, hx, hxc⟩ := hp.outside c s hs
    rw [hse, hx₀] at hx
    obtain rfl := Option.some.inj hx
    exact hxc
  rcases (discard_cases hx₀).2 with ⟨hk, hs⟩ | ⟨c₀, hk, hs⟩
  · rw [hs]
    refine ⟨fun h => ⟨fun hse => ?_, h⟩, fun h => h.2⟩
    rw [hkind h hse] at hk
    cases hk
  · rw [hs, SlotTable.get?_erase]
    obtain ⟨s₀, hs₀, hse₀⟩ := hp.inside e₀ x₀ c₀ hx₀ hk
    split_ifs with hc
    · subst hc
      refine ⟨nofun, fun ⟨hne, h⟩ => ?_⟩
      rw [hs₀] at h
      exact absurd (Option.some.inj h ▸ hse₀) hne
    · refine ⟨fun h => ⟨fun hse => hc ?_, h⟩, fun h => h.2⟩
      exact Option.some.inj ((hkind h hse).symm.trans hk)

/-- A loose entity is in no scope, so that no pair is torn. -/
theorem Paired.discard (hp : t.Paired) {e₀ : EntityId} (he : t.Loose e₀) :
    (t.discard e₀).Paired := by
  constructor
  · intro e x c hx hc
    obtain ⟨hne, hx⟩ := (get?_entities_discard he).1 hx
    obtain ⟨s, hs, hse⟩ := hp.inside e x c hx hc
    exact ⟨s, (hp.get?_scopes_discard he).2 ⟨hse ▸ hne, hs⟩, hse⟩
  · intro c s hs
    obtain ⟨hne, hs⟩ := (hp.get?_scopes_discard he).1 hs
    obtain ⟨x, hx, hxc⟩ := hp.outside c s hs
    exact ⟨x, (get?_entities_discard he).2 ⟨hne, hx⟩, hxc⟩

/-- An entity with an owner outlives the discarding of others. -/
theorem get?_entities_discard_of_owned {e₀ : EntityId} (he : t.Loose e₀)
    (hx : t.entities.get? e = some x) (hc : x.owner = some c) :
    (t.discard e₀).entities.get? e = some x := by
  obtain ⟨-, x₀, hx₀, hown⟩ := id he
  exact (get?_entities_discard he).2 ⟨ne_of_owned hx hc hx₀ hown, hx⟩

/-! ## Attaching, and changing scopes -/

/-- Only the kinds of entities and the entities of scopes matter for pairs. -/
theorem Paired.congr (hp : t.Paired)
    (he : ∀ e, (t'.entities.get? e).map Entity.kind = (t.entities.get? e).map Entity.kind)
    (hs : ∀ c, (t'.scopes.get? c).map Scope.entity = (t.scopes.get? c).map Scope.entity) :
    t'.Paired := by
  constructor
  · intro e x c hx hc
    have h := he e
    rw [hx, Option.map_some, eq_comm, Option.map_eq_some_iff] at h
    obtain ⟨y, hy, hyk⟩ := h
    obtain ⟨s, hsc, hse⟩ := hp.inside e y c hy (hyk ▸ hc)
    have h := hs c
    rw [hsc, Option.map_some, Option.map_eq_some_iff] at h
    obtain ⟨s', hs', hse'⟩ := h
    exact ⟨s', hs', hse'.trans hse⟩
  · intro c s hc
    have h := hs c
    rw [hc, Option.map_some, eq_comm, Option.map_eq_some_iff] at h
    obtain ⟨s₀, hs₀, hse⟩ := h
    obtain ⟨x, hx, hxc⟩ := hp.outside c s₀ hs₀
    have h := he s₀.entity
    rw [hx, Option.map_some, Option.map_eq_some_iff] at h
    obtain ⟨y, hy, hyk⟩ := h
    exact ⟨y, hse ▸ hy, hyk ▸ hxc⟩

/-- Attaching makes the pair : the entry and the owner. -/
theorem Paired.attach (hp : t.Paired) (h : t.attach c e = .ok t') : t'.Paired := by
  obtain ⟨x, s, hx, -, hs, -, hent, hscope⟩ := attach_cases h
  refine hp.congr (fun e' => ?_) fun c' => ?_
  · rw [hent]
    split_ifs with he
    · rw [he, hx]
      rfl
    · rfl
  · rw [hscope]
    split_ifs with hc
    · rw [hc, hs]
      rfl
    · rfl

theorem Paired.scope (hp : t.Paired) (c : ScopeId) {f : Scope L T → Scope L T}
    (h : ∀ s : Scope L T, s.Alike (f s)) : Paired { t with scopes := t.scopes.modify c f } :=
  hp.congr (fun _ => rfl) (SlotTable.map_get?_modify (fun s => (h s).entity) c)

/-- A scope that is there after a change was there before, and held the same. -/
theorem get?_scopes_modify {f : Scope L T → Scope L T} (h : ∀ s : Scope L T, s.Alike (f s))
    {c₀ : ScopeId} (hs : (t.scopes.modify c₀ f).get? c = some s) :
    ∃ s₀, t.scopes.get? c = some s₀ ∧ s₀.Alike s := by
  rw [SlotTable.get?_modify] at hs
  split_ifs at hs with hc
  · obtain ⟨s₀, hs₀, rfl⟩ := Option.map_eq_some_iff.1 hs
    exact ⟨s₀, hc ▸ hs₀, h s₀⟩
  · exact ⟨s, hs, .refl s⟩

/-! ## What stays -/

theorem Paired.edit (hp : t.Paired) (ht : t.Formed) (h : Edit t t') : t'.Paired := by
  cases h with
  | refl => exact hp
  | place d => exact hp.place ht d
  | discard h => exact hp.discard h
  | attach h => exact hp.attach h
  | forest f => exact ⟨hp.inside, hp.outside⟩
  | scope c f h => exact hp.scope c h

/-- An entity with an owner stays as it is. -/
theorem Formed.get?_entities_edit (ht : t.Formed) (h : Edit t t')
    (hx : t.entities.get? e = some x) (hc : x.owner = some c) : t'.entities.get? e = some x := by
  cases h with
  | refl => exact hx
  | place d => exact ht.get?_entities_place_of_some d hx
  | discard h => exact get?_entities_discard_of_owned h hx hc
  | attach h =>
    obtain ⟨x₀, s₀, hx₀, hown, -, -, hent, -⟩ := attach_cases h
    rw [hent, if_neg (ne_of_owned hx hc hx₀ hown), hx]
  | forest f => exact hx
  | scope c f h => exact hx

/-- A scope stays as long as its entity is not loose. -/
theorem Paired.get?_scopes_edit (hp : t.Paired) (ht : t.Formed) (h : Edit t t')
    (hs : t.scopes.get? c = some s) (hl : ¬t.Loose s.entity) :
    ∃ s', t'.scopes.get? c = some s' ∧ s'.entity = s.entity := by
  cases h with
  | refl => exact ⟨s, hs, rfl⟩
  | place d => exact ⟨s, ht.get?_scopes_place_of_some d hs, rfl⟩
  | discard h =>
    refine ⟨s, (hp.get?_scopes_discard h).2 ⟨?_, hs⟩, rfl⟩
    rintro rfl
    exact hl h
  | attach h =>
    obtain ⟨x, s₀, -, -, hs₀, -, -, hscope⟩ := attach_cases h
    rw [hscope]
    split_ifs with hc
    · rw [hc, hs₀] at hs
      exact ⟨_, rfl, Option.some.inj hs ▸ rfl⟩
    · exact ⟨s, hs, rfl⟩
  | forest f => exact ⟨s, hs, rfl⟩
  | scope c₀ f h =>
    rw [SlotTable.get?_modify]
    split_ifs with hc
    · exact ⟨f s, by rw [← hc, hs]; rfl, (h s).entity⟩
    · exact ⟨s, hs, rfl⟩

/-- A type is the one that it was, or it is new; its scope has no loader then. -/
theorem Formed.type_edit (ht : t.Formed) (h : Edit t t') {n : NodeId}
    (hx : t'.entities.get? e = some x) (hk : x.kind = .type n c) :
    (∃ y, t.entities.get? e = some y ∧ y.kind = .type n c) ∨
      c = t.scopes.next ∧ t'.scopes.get? c = some { entity := e } := by
  cases h with
  | refl => exact Or.inl ⟨x, hx, hk⟩
  | place d =>
    obtain ⟨kind, he, hscope⟩ := type_place_cases t d
    rw [he, SlotTable.get?_insert ht.entities] at hx
    split_ifs at hx with hnew
    · obtain rfl := Option.some.inj hx
      obtain ⟨rfl, hs⟩ := hscope n c hk
      exact Or.inr ⟨rfl, by rw [hs, SlotTable.get?_insert ht.scopes, if_pos rfl, hnew]⟩
    · exact Or.inl ⟨x, hx, hk⟩
  | discard h => exact Or.inl ⟨x, ((get?_entities_discard h).1 hx).2, hk⟩
  | attach h =>
    obtain ⟨y, -, hy, -, -, -, hent, -⟩ := attach_cases h
    rw [hent] at hx
    split_ifs at hx with he
    · obtain rfl := Option.some.inj hx
      exact Or.inl ⟨y, he ▸ hy, hk⟩
    · exact Or.inl ⟨x, hx, hk⟩
  | forest f => exact Or.inl ⟨x, hx, hk⟩
  | scope c₀ f h => exact Or.inl ⟨x, hx, hk⟩

/-! ## What scopes hold -/

/-- An entry of a scope stays there as long as the scope does. -/
theorem Has.edit {name : String} {params : List Param} (h : t.Has c name params e) (ht : t.Formed)
    (he : Edit t t') : t'.Has c name params e := by
  obtain ⟨x, hx, hname, hparams, hown⟩ := h
  exact ⟨x, ht.get?_entities_edit he hx hown, hname, hparams, hown⟩

/-- Scopes and their entities name each other, and what a scope holds belongs to it. -/
structure Coherent (t : Tables L T) : Prop where
  formed : t.Formed
  paired : t.Paired
  held : ∀ c s, t.scopes.get? c = some s → ∀ name, ∀ o ∈ s.items name,
    t.Has c name o.params o.entity

/-- Coherent tables stay so, edit by edit. No handle needs to be kept from coming round for that. -/
theorem Coherent.edit (ht : t.Coherent) (h : Edit t t') : t'.Coherent := by
  refine ⟨ht.formed.edit h, ht.paired.edit ht.formed h, fun c s hs name o hmem => ?_⟩
  have hkept {s₀ : Scope L T} (hs₀ : t.scopes.get? c = some s₀) (hmem : o ∈ s₀.items name) :
      t'.Has c name o.params o.entity :=
    (ht.held c s₀ hs₀ name o hmem).edit ht.formed h
  cases h with
  | refl => exact hkept hs hmem
  | place d =>
    rcases ht.formed.get?_scopes_place hs with hs | ⟨-, ⟨loader, rfl⟩, -⟩
    · exact hkept hs hmem
    · cases hmem
  | discard h => exact hkept ((ht.paired.get?_scopes_discard h).1 hs).2 hmem
  | attach h =>
    obtain ⟨x₀, s₀, hx₀, -, hs₀, -, hent, hscope⟩ := attach_cases h
    rw [hscope] at hs
    split_ifs at hs with hc
    · obtain rfl := Option.some.inj hs
      subst hc
      rcases Scope.mem_items_push.1 hmem with hmem | ⟨rfl, rfl⟩
      · exact hkept hs₀ hmem
      · exact ⟨{ x₀ with owner := some c }, by rw [hent, if_pos rfl], rfl, rfl, rfl⟩
    · exact hkept hs hmem
  | forest f => exact hkept hs hmem
  | scope c₀ f h =>
    obtain ⟨s₀, hs₀, halike⟩ := get?_scopes_modify h hs
    exact hkept hs₀ (halike.items name ▸ hmem)

/-- The scope is there, and has the entity under the name and signature. -/
def Lists (t : Tables L T) (c : ScopeId) (name : String) (params : List Param) (e : EntityId) :
    Prop :=
  ∃ s, t.scopes.get? c = some s ∧ s.find? name params = some e

theorem Lists.scope {name : String} {params : List Param} (h : t.Lists c name params e)
    (c₀ : ScopeId) {f : Scope L T → Scope L T} (hf : ∀ s : Scope L T, s.Alike (f s)) :
    Lists { t with scopes := t.scopes.modify c₀ f } c name params e := by
  obtain ⟨s, hs, hfind⟩ := h
  rw [Lists, SlotTable.get?_modify]
  split_ifs with hc
  · exact ⟨f s, by rw [← hc, hs]; rfl, by rw [(hf s).find?_eq, hfind]⟩
  · exact ⟨s, hs, hfind⟩

/-- What a scope has it keeps, until it is given up itself. -/
theorem Lists.edit {name : String} {params : List Param} (h : t.Lists c name params e)
    (ht : t.Formed) (he : Edit t t') (hr : t'.scopes.releasesAt c = t.scopes.releasesAt c) :
    t'.Lists c name params e := by
  obtain ⟨s, hs, hf⟩ := id h
  cases he with
  | refl => exact ⟨s, hs, hf⟩
  | place d => exact ⟨s, ht.get?_scopes_place_of_some d hs, hf⟩
  | discard h =>
    obtain ⟨-, x, hx, -⟩ := h
    exact ⟨s, get?_scopes_discard_of_releasesAt hx hs hr, hf⟩
  | attach h =>
    obtain ⟨x, s₀, -, -, hs₀, -, -, hscope⟩ := attach_cases h
    rw [Lists, hscope]
    split_ifs with hc
    · rw [hc, hs₀] at hs
      obtain rfl := Option.some.inj hs
      exact ⟨_, rfl, Scope.find?_push_of_find? hf⟩
    · exact ⟨s, hs, hf⟩
  | forest f => exact ⟨s, hs, hf⟩
  | scope c₀ f hf => exact h.scope c₀ hf

/-- The entity belongs to the scope under the name and signature, and the scope has it there. -/
structure Holds (t : Tables L T) (c : ScopeId) (name : String) (params : List Param)
    (e : EntityId) : Prop where
  has : t.Has c name params e
  lists : t.Lists c name params e

/-- What has just been put into a scope is there. -/
theorem holds_of_attach (h : t.attach c e = .ok t') (hx : t.entities.get? e = some x) :
    t'.Holds c x.name x.params e := by
  obtain ⟨y, s, hy, -, -, hnew, hent, hscope⟩ := attach_cases h
  rw [hx] at hy
  obtain rfl := Option.some.inj hy
  have hhas : t'.Has c x.name x.params e :=
    ⟨{ x with owner := some c }, by rw [hent, if_pos rfl], rfl, rfl, rfl⟩
  exact ⟨hhas, _, by rw [hscope, if_pos rfl], Scope.find?_push_self hnew⟩

theorem Holds.scope {name : String} {params : List Param} (h : t.Holds c name params e)
    (c₀ : ScopeId) {f : Scope L T → Scope L T} (hf : ∀ s : Scope L T, s.Alike (f s)) :
    Holds { t with scopes := t.scopes.modify c₀ f } c name params e :=
  ⟨h.has, h.lists.scope c₀ hf⟩

/-- No scope has two entities of one name and signature. -/
def Distinct (t : Tables L T) : Prop :=
  ∀ c s, t.scopes.get? c = some s → ∀ name, ((s.items name).map Overload.params).Nodup

theorem Distinct.edit (h : t.Distinct) (ht : t.Formed) (he : Edit t t') : t'.Distinct := by
  intro c s hs name
  cases he with
  | refl => exact h c s hs name
  | place d =>
    rcases ht.get?_scopes_place hs with hs | ⟨-, ⟨loader, rfl⟩, -⟩
    · exact h c s hs name
    · exact List.nodup_nil
  | discard he =>
    obtain ⟨-, x, hx, -⟩ := he
    exact h c s (get?_scopes_of_discard hx hs) name
  | attach ha =>
    obtain ⟨x, s₀, -, -, hs₀, hnew, -, hscope⟩ := attach_cases ha
    rw [hscope] at hs
    split_ifs at hs with hc
    · obtain rfl := Option.some.inj hs
      exact Scope.nodup_params_push (h _ s₀ hs₀ name) hnew
    · exact h c s hs name
  | forest f => exact h c s hs name
  | scope c₀ f hf =>
    obtain ⟨s₀, hs₀, halike⟩ := get?_scopes_modify hf hs
    exact halike.items name ▸ h c s₀ hs₀ name

/-- The root package and its scope belong together. -/
theorem Coherent.get?_rootScope (ht : t.Coherent) :
    ∃ s, t.scopes.get? rootScope = some s ∧ s.entity = rootEntity := by
  obtain ⟨x, hx, hk⟩ := ht.formed.root
  exact ht.paired.inside rootEntity x _ hx (congrArg EntityKind.scope? hk)

/-! ## Who owns what -/

/-- Entities and scopes agree about who owns what, and no two entities of a scope have the same
name and signature. -/
structure Owned (t : Tables L T) : Prop where
  keys : ∀ c s, t.scopes.get? c = some s → s.keys.Nodup
  signatures : t.Distinct
  held : ∀ c s, t.scopes.get? c = some s → ∀ name, ∀ o ∈ s.items name,
    t.Has c name o.params o.entity
  listed : ∀ e x c s, t.entities.get? e = some x → x.owner = some c → t.scopes.get? c = some s →
    ⟨x.params, e⟩ ∈ s.items x.name
  issued : ∀ e x c, t.entities.get? e = some x → x.owner = some c → t.scopes.Issued c

/-- A new entity has no owner. Its new scope is empty, and no owner refers to it as long as the
handles have not come round. -/
theorem Owned.place (ho : t.Owned) (hc : t.Coherent) (hu : t.scopes.Unwrapped)
    (d : Declaration L) : (t.place d).2.Owned := by
  have ht := hc.formed
  have hold {e : EntityId} {x : Entity} {c : ScopeId}
      (hx : (t.place d).2.entities.get? e = some x) (hc : x.owner = some c) :
      t.entities.get? e = some x := by
    rcases ht.get?_entities_place hx with hx | ⟨-, kind, rfl, -⟩
    · exact hx
    · cases hc
  constructor
  · intro c s hs
    rcases ht.get?_scopes_place hs with hs | ⟨-, ⟨loader, rfl⟩, -⟩
    · exact ho.keys c s hs
    · exact List.nodup_nil
  · exact ho.signatures.edit ht (.place t d)
  · exact (hc.edit (.place t d)).held
  · intro e x c s hx hxc hs
    have hx := hold hx hxc
    rcases ht.get?_scopes_place hs with hs | ⟨rfl, -, -⟩
    · exact ho.listed e x c s hx hxc hs
    · exact absurd (ho.issued e x _ hx hxc) (SlotTable.not_issued_next ht.scopes hu)
  · intro e x c hx hxc
    exact (ht.extends_place d).scopes.issued c (ho.issued e x c (hold hx hxc) hxc)

/-- A loose entity has no owner, and a released scope takes its content out of the question. -/
theorem Owned.discard (ho : t.Owned) (hc : t.Coherent) {e₀ : EntityId} (he : t.Loose e₀) :
    (t.discard e₀).Owned := by
  have hp := hc.paired
  constructor
  · intro c s hs
    exact ho.keys c s ((hp.get?_scopes_discard he).1 hs).2
  · exact ho.signatures.edit hc.formed (.discard he)
  · exact (hc.edit (.discard he)).held
  · intro e x c s hx hxc hs
    exact ho.listed e x c s ((get?_entities_discard he).1 hx).2 hxc
      ((hp.get?_scopes_discard he).1 hs).2
  · intro e x c hx hxc
    exact (extends_discard he).scopes.issued c
      (ho.issued e x c ((get?_entities_discard he).1 hx).2 hxc)

/-- The entity that is attached is listed by its owner from then on. -/
theorem Owned.attach (ho : t.Owned) (hco : t.Coherent) {c₀ : ScopeId} {e₀ : EntityId}
    (h : t.attach c₀ e₀ = .ok t') : t'.Owned := by
  have hheld := (hco.edit (.attach h)).held
  have hext := (extends_attach h).scopes.issued
  obtain ⟨x₀, s₀, hx₀, hown, hs₀, hnew, hent, hscope⟩ := attach_cases h
  constructor
  · intro c s hs
    rw [hscope] at hs
    split_ifs at hs with hc
    · obtain rfl := Option.some.inj hs
      exact Scope.nodup_keys_alter _ (ho.keys c₀ s₀ hs₀)
    · exact ho.keys c s hs
  · exact ho.signatures.edit hco.formed (.attach h)
  · exact hheld
  · intro e x c s hx hxc hs
    rw [hent] at hx
    rw [hscope] at hs
    split_ifs at hx with he
    · obtain rfl := Option.some.inj hx
      obtain rfl := Option.some.inj hxc
      rw [if_pos rfl] at hs
      obtain rfl := Option.some.inj hs
      exact Scope.mem_items_push.2 (Or.inr ⟨rfl, he ▸ rfl⟩)
    · split_ifs at hs with hc
      · obtain rfl := Option.some.inj hs
        exact Scope.mem_items_push.2 (Or.inl (ho.listed e x c₀ s₀ hx (hc ▸ hxc) hs₀))
      · exact ho.listed e x c s hx hxc hs
  · intro e x c hx hxc
    rw [hent] at hx
    split_ifs at hx with he
    · obtain rfl := Option.some.inj hx
      obtain rfl := Option.some.inj hxc
      exact hext _ (SlotTable.issued_of_get? hs₀)
    · exact hext _ (ho.issued e x c hx hxc)

theorem Owned.scope (ho : t.Owned) (hco : t.Coherent) (c : ScopeId) {f : Scope L T → Scope L T}
    (h : ∀ s : Scope L T, s.Alike (f s)) : Owned { t with scopes := t.scopes.modify c f } := by
  constructor
  · intro c s hs
    obtain ⟨s₀, hs₀, halike⟩ := get?_scopes_modify h hs
    exact halike.keys (ho.keys c s₀ hs₀)
  · exact ho.signatures.edit hco.formed (.scope t c f h)
  · exact (hco.edit (.scope t c f h)).held
  · intro e x c s hx hxc hs
    obtain ⟨s₀, hs₀, halike⟩ := get?_scopes_modify h hs
    exact halike.items x.name ▸ ho.listed e x c s₀ hx hxc hs₀
  · intro e x c' hx hxc
    exact (SlotTable.extends_modify c f).issued c' (ho.issued e x c' hx hxc)

/-! ## Sound tables -/

/-- All records of the tables agree. -/
structure Sound (t : Tables L T) : Prop where
  formed : t.Formed
  paired : t.Paired
  owned : t.Owned

theorem Sound.coherent (ht : t.Sound) : t.Coherent :=
  ⟨ht.formed, ht.paired, ht.owned.held⟩

/-- At the beginning there is the root, which no scope owns. -/
theorem get?_entities_start {config : Config}
    (h : (Tables.start config : Tables L T).entities.get? e = some x) :
    e = rootEntity ∧ x.owner = none ∧ x.kind.scope? = some rootScope := by
  unfold Tables.start at h
  rw [SlotTable.get?_insert SlotTable.wellFormed_empty] at h
  split_ifs at h with he
  · obtain rfl := Option.some.inj h
    exact ⟨he, rfl, rfl⟩
  · cases h

theorem get?_scopes_start {config : Config}
    (h : (Tables.start config : Tables L T).scopes.get? c = some s) :
    c = rootScope ∧ s = { entity := rootEntity } := by
  unfold Tables.start at h
  rw [SlotTable.get?_insert SlotTable.wellFormed_empty] at h
  split_ifs at h with hc
  · exact ⟨hc, (Option.some.inj h).symm⟩
  · cases h

theorem Sound.start (config : Config) : (Tables.start config : Tables L T).Sound := by
  refine ⟨Formed.start config, ⟨fun e x c hx hc => ?_, fun c s hs => ?_⟩, ?_⟩
  · obtain ⟨rfl, -, hk⟩ := get?_entities_start hx
    rw [hk] at hc
    obtain rfl := Option.some.inj hc
    exact ⟨{ entity := rootEntity }, rfl, rfl⟩
  · obtain ⟨rfl, rfl⟩ := get?_scopes_start hs
    exact ⟨_, rfl, rfl⟩
  · constructor
    · intro c s hs
      obtain ⟨-, rfl⟩ := get?_scopes_start hs
      exact List.nodup_nil
    · intro c s hs name
      obtain ⟨-, rfl⟩ := get?_scopes_start hs
      exact List.nodup_nil
    · intro c s hs name o hmem
      obtain ⟨-, rfl⟩ := get?_scopes_start hs
      cases hmem
    · intro e x c s hx hxc
      rw [(get?_entities_start hx).2.1] at hxc
      cases hxc
    · intro e x c hx hxc
      rw [(get?_entities_start hx).2.1] at hxc
      cases hxc

/-- Sound tables stay so, as long as no handle comes round. -/
theorem Sound.edit (ht : t.Sound) (hu : t.Unwrapped) (h : Edit t t') : t'.Sound := by
  have hco := ht.coherent
  refine ⟨ht.formed.edit h, ht.paired.edit ht.formed h, ?_⟩
  cases h with
  | refl => exact ht.owned
  | place d => exact ht.owned.place hco hu.scopes d
  | discard h => exact ht.owned.discard hco h
  | attach h => exact ht.owned.attach hco h
  | forest f =>
    exact ⟨ht.owned.keys, ht.owned.signatures, ht.owned.held, ht.owned.listed, ht.owned.issued⟩
  | scope c f h => exact ht.owned.scope hco c h

end Tables

end NameResolution
