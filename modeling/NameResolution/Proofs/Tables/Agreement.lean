import NameResolution.Proofs.Forest.Agreement
import NameResolution.Proofs.Tables.Matching

/-!
# Tables that agree on what is live

Tables agree if the same entities and scopes are live in both, just as they are, and the forests
agree (`Agrees`). An entity that has just been declared is one entity more, with the slots that its
kind needs (`Adds`) : all else is as it was. It can be released, and what it leaves agrees with what
there was before (`Adds.agrees_discard`), wherever its type has been linked meanwhile.

A declaration is refused if its supertype is no live type, or has a chain that may not get longer
(`refusal?`).
-/

namespace NameResolution

variable {L T : Type}

/-- The loader of a declared package. -/
def DeclarationKind.loader? : DeclarationKind L → Option L
  | .package loader => loader
  | _ => none

namespace Tables

variable {t t' u : Tables L T} {c : ScopeId} {e : EntityId} {d : Declaration L}
  {parent : Option NodeId} {owner : Option ScopeId}

/-! ## Agreement -/

/-- The same entities, scopes and nodes are live, and there are as many of each. -/
structure Agrees (t t' : Tables L T) : Prop where
  entities : ∀ e, t'.entities.get? e = t.entities.get? e
  scopes : ∀ c, t'.scopes.get? c = t.scopes.get? c
  forest : t.forest.Agrees t'.forest
  config : t'.config = t.config
  size_entities : t'.entities.size = t.entities.size
  size_scopes : t'.scopes.size = t.scopes.size

theorem Agrees.refl (t : Tables L T) : t.Agrees t :=
  ⟨fun _ => rfl, fun _ => rfl, .refl _, rfl, rfl, rfl⟩

theorem Agrees.trans (h : t.Agrees t') (h' : t'.Agrees u) : t.Agrees u :=
  ⟨fun e => (h'.entities e).trans (h.entities e), fun c => (h'.scopes c).trans (h.scopes c),
    h.forest.trans h'.forest, h'.config.trans h.config,
    h'.size_entities.trans h.size_entities, h'.size_scopes.trans h.size_scopes⟩

/-! ## Refusals -/

/-- The node under which a declared type is linked. -/
def parentNode? (t : Tables L T) : DeclarationKind L → Option NodeId
  | .type (some p) => t.node? p
  | _ => none

/-- Why a declaration is refused, if it is. -/
def refusal? (t : Tables L T) : DeclarationKind L → Option Failure
  | .type (some p) =>
    match t.node? p with
    | none => some (.notAType p)
    | some n =>
      if t.config.maxDepth < (t.forest.chain n).length + 1 then
        some (.chainTooLong ((t.forest.chain n).length + 1) t.config.maxDepth)
      else none
  | _ => none

/-- Only a supertype is a reason to refuse a declaration. -/
theorem refusal?_of_ne {kind : DeclarationKind L} (h : ∀ p, kind ≠ .type (some p)) :
    t.refusal? kind = none ∧ t.parentNode? kind = none := by
  cases kind with
  | type parent =>
    cases parent with
    | none => exact ⟨rfl, rfl⟩
    | some p => exact absurd rfl (h p)
  | _ => exact ⟨rfl, rfl⟩

/-- Where the same is live, the same is refused. -/
theorem Agrees.refusal? (h : t.Agrees t') (kind : DeclarationKind L) :
    t'.refusal? kind = t.refusal? kind := by
  have hnode (e : EntityId) : t'.node? e = t.node? e := by
    rw [node?, h.entities, node?]
  cases kind with
  | type parent =>
    cases parent with
    | none => rfl
    | some p => simp only [Tables.refusal?, hnode, h.forest.chain, h.config]
  | _ => rfl

/-! ## One entity more -/

/-- What a declaration makes of its entity : its slots are the next ones. -/
def newKind (t : Tables L T) : DeclarationKind L → EntityKind
  | .type _ => .type t.forest.nodes.next t.scopes.next
  | .function result => .function result
  | .var type => .var type
  | .thread => .thread
  | .package _ => .package t.scopes.next

/-- The tables with a new entity, written out. -/
theorem place_eq (t : Tables L T) (d : Declaration L) : t.place d = (t.entities.next,
    { entities := t.entities.insert (d.toEntity (t.newKind d.kind))
      scopes :=
        if (t.newKind d.kind).scope?.isSome then
          t.scopes.insert { entity := t.entities.next, loader := d.kind.loader? }
        else t.scopes
      forest :=
        if (t.newKind d.kind).node?.isSome then t.forest.insert t.entities.next else t.forest
      config := t.config }) := by
  unfold place
  cases d.kind <;> rfl

theorem scope?_newKind (t : Tables L T) (kind : DeclarationKind L) :
    (t.newKind kind).scope? = none ∨ (t.newKind kind).scope? = some t.scopes.next := by
  cases kind <;> simp [newKind, EntityKind.scope?]

theorem node?_newKind (t : Tables L T) (kind : DeclarationKind L) :
    (t.newKind kind).node? = none ∨ (t.newKind kind).node? = some t.forest.nodes.next := by
  cases kind <;> simp [newKind, EntityKind.node?]

/-- A declared entity is there, in a slot that was free, and so are the scope and the node that it
needs; its node is linked under `parent`. All else is as it was, but for the scope that is the
`owner` of the entity. -/
structure Adds (t t' : Tables L T) (d : Declaration L) (parent : Option NodeId)
    (owner : Option ScopeId) : Prop where
  fresh : t.entities.get? t.entities.next = none
  freshScope : t.scopes.get? t.scopes.next = none
  entities : ∀ e, t'.entities.get? e =
    if e = t.entities.next then some { d.toEntity (t.newKind d.kind) with owner }
    else t.entities.get? e
  scopes : ∀ c, owner ≠ some c → t'.scopes.get? c =
    if (t.newKind d.kind).scope? = some c then
      some { entity := t.entities.next, loader := d.kind.loader? }
    else t.scopes.get? c
  forest : (t.newKind d.kind).node? = none ∧ parent = none ∧ t'.forest = t.forest ∨
    (t.newKind d.kind).node? = some t.forest.nodes.next ∧
      t.forest.Adds t'.forest t.entities.next parent
  config : t'.config = t.config
  size_entities : t'.entities.size = t.entities.size + 1
  size_scopes : t'.scopes.size =
    t.scopes.size + if (t.newKind d.kind).scope?.isSome then 1 else 0

/-- Placing a declaration adds one entity, without a supertype or an owner as yet. -/
theorem Formed.adds_place (ht : t.Formed) (hw : t.forest.nodes.WellFormed) (d : Declaration L) :
    t.Adds (t.place d).2 d none none := by
  rw [place_eq]
  refine ⟨SlotTable.get?_next ht.entities, SlotTable.get?_next ht.scopes,
    SlotTable.get?_insert ht.entities _, fun c _ => ?_, ?_, rfl, SlotTable.size_insert _, ?_⟩
  · rcases t.scope?_newKind d.kind with hk | hk
    · simp [hk]
    · simp [hk, SlotTable.get?_insert ht.scopes, eq_comm]
  · rcases t.node?_newKind d.kind with hk | hk
    · simp [hk]
    · exact Or.inr ⟨hk, by simpa [hk] using Forest.adds_insert hw _⟩
  · cases (t.newKind d.kind).scope? with
    | none => rfl
    | some c => exact SlotTable.size_insert _

/-- A new type may be linked meanwhile. -/
theorem Adds.with_forest (h : t.Adds t' d parent owner) {g : Forest} {parent' : Option NodeId}
    (hk : (t.newKind d.kind).node? = some t.forest.nodes.next)
    (hg : t.forest.Adds g t.entities.next parent') :
    t.Adds { t' with forest := g } d parent' owner :=
  ⟨h.fresh, h.freshScope, h.entities, h.scopes, Or.inr ⟨hk, hg⟩, h.config, h.size_entities,
    h.size_scopes⟩

namespace Adds

/-! ### Putting it into a scope -/

theorem get?_next (h : t.Adds t' d parent owner) : t'.entities.get? t.entities.next =
    some { d.toEntity (t.newKind d.kind) with owner } := by
  rw [h.entities, if_pos rfl]

/-- What was there is there still. -/
theorem get?_entities_of_some (h : t.Adds t' d parent owner) {x : Entity}
    (hx : t.entities.get? e = some x) : t'.entities.get? e = some x := by
  rw [h.entities, if_neg, hx]
  rintro rfl
  cases h.fresh.symm.trans hx

theorem get?_scopes_of_some (h : t.Adds t' d parent owner) (hc : owner ≠ some c)
    {x : Scope L T} (hx : t.scopes.get? c = some x) : t'.scopes.get? c = some x := by
  rw [h.scopes c hc, if_neg, hx]
  intro hk
  obtain hnext | hnext := t.scope?_newKind d.kind
  · cases hk.symm.trans hnext
  · rw [Option.some.inj (hk.symm.trans hnext), h.freshScope] at hx
    cases hx

/-- Attaching the new entity gives it that scope as its owner. -/
theorem attach (h : t.Adds t' d parent none) (ha : t'.attach c t.entities.next = .ok u) :
    t.Adds u d parent (some c) := by
  obtain ⟨x, s, hx, -, -, -, hent, hscope⟩ := attach_cases ha
  obtain rfl := Option.some.inj (h.get?_next.symm.trans hx)
  obtain ⟨_, _, _, _, _, _, rfl⟩ := attach_eq_ok.1 ha
  refine ⟨h.fresh, h.freshScope, fun e => ?_, fun c' hc => ?_, h.forest, h.config,
    (SlotTable.size_modify _ _).trans h.size_entities,
    (SlotTable.size_modify _ _).trans h.size_scopes⟩
  · rw [hent]
    split_ifs with he
    · rfl
    · rw [h.entities, if_neg he]
  · rw [hscope, if_neg (by rintro rfl; exact hc rfl), h.scopes c' nofun]

/-- What happens to the owner does not count. -/
theorem modify_owner (h : t.Adds t' d parent (some c)) (f : Scope L T → Scope L T) :
    t.Adds { t' with scopes := t'.scopes.modify c f } d parent (some c) := by
  refine ⟨h.fresh, h.freshScope, h.entities, fun c' hc => ?_, h.forest, h.config, h.size_entities,
    (SlotTable.size_modify _ _).trans h.size_scopes⟩
  rw [SlotTable.get?_modify, if_neg (by rintro rfl; exact hc rfl), h.scopes c' hc]

/-! ### What can be declared next -/

/-- The entity is what the declaration says. -/
theorem made (h : t.Adds t' d parent (some c)) : t'.Made c d t.entities.next := by
  refine ⟨t.newKind d.kind, ?_, h.get?_next⟩
  cases d.kind <;> trivial

/-- What could be declared before can be declared still. -/
theorem refusal?_eq_none (h : t.Adds t' d parent owner) (hm : t.Matched) {kind : DeclarationKind L}
    (hk : t.refusal? kind = none) : t'.refusal? kind = none := by
  match kind with
  | .type (some p) =>
    cases hp : t.node? p with
    | none =>
      rw [Tables.refusal?, hp] at hk
      cases hk
    | some n =>
      obtain ⟨x, hx, hn⟩ := Option.bind_eq_some_iff.1 hp
      obtain ⟨m, hlive⟩ := SlotTable.contains_iff.1 (hm.contains_node hp)
      have hp' : t'.node? p = some n := by
        rw [node?, h.get?_entities_of_some hx]
        exact hn
      have hchain : t'.forest.chain n = t.forest.chain n := by
        rcases h.forest with ⟨-, -, hf⟩ | ⟨-, hf⟩
        · rw [hf]
        · exact hf.chain_eq hlive
      simp only [Tables.refusal?, hp', hchain, h.config]
      simpa only [Tables.refusal?, hp] using hk
  | .type none => rfl
  | .function _ => rfl
  | .var _ => rfl
  | .thread => rfl
  | .package _ => rfl

/-! ### Taking it back -/

variable (h : t.Adds t' d parent none)

include h

/-- An entity that has just been declared can be released. -/
theorem isReleasable (ht : t.Formed) : t'.isReleasable t.entities.next = true := by
  obtain ⟨root, hroot, -⟩ := ht.root
  refine isReleasable_iff.2 ⟨⟨?_, _, h.get?_next, rfl⟩, fun n hn => ?_⟩
  · exact (SlotTable.ne_next ht.entities hroot).symm
  · have hkind : (t.newKind d.kind).node? = some n := by
      rw [node?, h.get?_next] at hn
      exact hn
    rcases h.forest with ⟨hk, -, -⟩ | ⟨hk, hf⟩
    · cases hk.symm.trans hkind
    · obtain rfl := Option.some.inj (hk.symm.trans hkind)
      exact hf.isReleasable

/-- The scope of the entity goes with it. -/
theorem scopes_discard :
    (∀ c, (t'.discard t.entities.next).scopes.get? c = t.scopes.get? c) ∧
      (t'.discard t.entities.next).scopes.size = t.scopes.size := by
  obtain ⟨hk, hs⟩ | ⟨m, hk, hs⟩ := (discard_cases h.get?_next).2
  · have hk : (t.newKind d.kind).scope? = none := hk
    rw [hs, h.size_scopes, hk]
    refine ⟨fun c => ?_, rfl⟩
    rw [h.scopes c nofun, hk, if_neg nofun]
  · have hk : (t.newKind d.kind).scope? = some m := hk
    have hm : t.scopes.get? m = none := by
      obtain hnext | hnext := t.scope?_newKind d.kind
      · cases hk.symm.trans hnext
      · rw [Option.some.inj (hk.symm.trans hnext), h.freshScope]
    have hlive : t'.scopes.contains m = true :=
      SlotTable.contains_of_get? ((h.scopes m nofun).trans (if_pos hk))
    rw [hs, SlotTable.size_erase hlive, h.size_scopes, hk]
    refine ⟨fun c => ?_, rfl⟩
    rw [SlotTable.get?_erase, h.scopes c nofun, hk]
    by_cases hc : c = m
    · rw [if_pos hc, hc, hm]
    · rw [if_neg hc, if_neg fun heq => hc (Option.some.inj heq).symm]

/-- So does its node. -/
theorem forest_discard : t.forest.Agrees (t'.discard t.entities.next).forest := by
  obtain ⟨hk, hf⟩ | ⟨n, hk, hf⟩ := node_discard_cases h.get?_next
  · rcases h.forest with ⟨-, -, hforest⟩ | ⟨hk', -⟩
    · rw [hf, hforest]
      exact .refl _
    · cases hk'.symm.trans hk
  · rcases h.forest with ⟨hk', -, -⟩ | ⟨hk', hforest⟩
    · cases hk'.symm.trans hk
    · obtain rfl := Option.some.inj (hk'.symm.trans hk)
      rw [hf]
      exact hforest.agrees_erase

/-- Without the new entity everything is as before. -/
theorem agrees_discard (ht : t.Formed) : t.Agrees (t'.discard t.entities.next) := by
  have hx := h.get?_next
  have hent := (discard_cases hx).1
  have hconfig := (Edit.discard (loose_of_isReleasable (h.isReleasable ht))).config_eq
  refine ⟨fun e => ?_, h.scopes_discard.1, h.forest_discard, hconfig.trans h.config,
    ?_, h.scopes_discard.2⟩
  · rw [hent, SlotTable.get?_erase, h.entities]
    split_ifs with he
    · rw [he, h.fresh]
    · rfl
  · rw [hent, SlotTable.size_erase (SlotTable.contains_of_get? hx), h.size_entities,
      Nat.add_sub_cancel]

end Adds

end Tables

end NameResolution
