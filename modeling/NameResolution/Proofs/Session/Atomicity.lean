import NameResolution.Proofs.Forest.Regrafting
import NameResolution.Proofs.Session.Correspondence
import NameResolution.Proofs.Tables.Agreement

/-!
# Declaring is all or nothing

A session is unmoved if what is live in it is as it was, and nobody has been told anything
(`Unmoved`). A declaration that is refused leaves a session unmoved, wherever it was refused :
before it was placed, when its type was to be linked, or when its entity was to be put into a scope
(`declare_cases`, `define_cases`). Otherwise there is one entity more (`Adds`).
-/

namespace NameResolution

namespace Tables

variable {L T : Type}

/-- Tables match, their forest is supported, and its chains are bounded as is configured. -/
structure Arranged (t : Tables L T) : Prop extends t.Matched where
  supported : t.forest.Supported
  maxDepth : t.forest.maxDepth = t.config.maxDepth

end Tables

namespace Session

variable {L T W : Type} {allowed : Operation L T → Prop} {s s' s'' : Session L T W}
  {c : ScopeId} {x : Scope L T} {d : Declaration L} {f : Failure}

/-! ## Reached sessions -/

theorem Move.arranged (h : Move allowed s s') (ha : s.tables.Arranged) : s'.tables.Arranged := by
  have hconfig : s'.tables.config = s.tables.config := by
    obtain ⟨t, h₁, h₂⟩ := h.edits
    exact h₂.config_eq.trans h₁.config_eq
  refine ⟨h.matched ha.toMatched, ?_, ?_⟩
  · obtain hf | ⟨request, hf⟩ := h.forest_cases
    · exact hf ▸ ha.supported
    · exact hf ▸ ha.supported.serve request
  · rw [hconfig, ← ha.maxDepth]
    obtain hf | ⟨request, hf⟩ := h.forest_cases
    · rw [hf]
    · rw [hf, Forest.maxDepth_serve]

/-- Moves one after the other keep tables arranged. -/
theorem Moves.arranged (h : Moves allowed s s') (ha : s.tables.Arranged) :
    s'.tables.Arranged := by
  induction h with
  | refl => exact ha
  | tail _ hmove ih => exact hmove.arranged ih

/-- The tables of every session that hosts can bring about are arranged. -/
theorem Reaches.arranged {config : Config} {world : W}
    (h : Reaches allowed (start config world) s) : s.tables.Arranged :=
  (h.moves (.start config)).arranged ⟨.start config, Forest.supported_empty _, rfl⟩

/-! ## Sessions that agree -/

/-- The same is live as before, and nobody was told anything. -/
structure Unmoved (s s' : Session L T W) : Prop where
  tables : s.tables.Agrees s'.tables
  gone : s'.gone = s.gone
  world : s'.world = s.world
  unheard : Unheard s s'

theorem Unmoved.refl (s : Session L T W) : Unmoved s s :=
  ⟨.refl _, rfl, rfl, .refl s⟩

theorem Unmoved.trans (h : Unmoved s s') (h' : Unmoved s' s'') : Unmoved s s'' :=
  ⟨h.tables.trans h'.tables, h'.gone.trans h.gone, h'.world.trans h.world,
    h.unheard.trans h'.unheard⟩

/-- There is one entity more, made of a declaration, and the rest is as it was. -/
structure Adds (s s' : Session L T W) (d : Declaration L) (owner : Option ScopeId) : Prop where
  tables : s.tables.Adds s'.tables d (s.tables.parentNode? d.kind) owner
  gone : s'.gone = s.gone
  world : s'.world = s.world

/-- An entity that is taken back leaves a session unmoved. -/
theorem Adds.unmoved_discard (h : Adds s s' d none) (hq : Unheard s s') (ht : s.tables.Formed) :
    Unmoved s ((discard s.tables.entities.next).run s').2 :=
  ⟨h.tables.agrees_discard ht, h.gone, h.world, hq.trans (unheard_discard _ s')⟩

/-! ## Declaring -/

/-- A new type is refused as its declaration is, or it is the one node more of the forest. -/
theorem linking_cases (ha : s.tables.Arranged) {p : EntityId} {n : NodeId}
    (hd : d.kind = .type (some p)) (hp : s.tables.node? p = some n) :
    (∃ f, s.tables.refusal? d.kind = some f ∧ s.linking d n = .error (.failure f)) ∨
    ∃ change, s.tables.refusal? d.kind = none ∧ s.linking d n = .ok (some change) ∧
      s.tables.forest.Adds change.forest s.tables.entities.next (some n) := by
  have hlive := ha.contains_node hp
  have hset := ha.supported.setParent_next_eq hlive s.tables.entities.next
  have hlinking : s.linking d n =
      (s.tables.forest.insert s.tables.entities.next).setParent s.tables.forest.nodes.next
        (some n) := by
    rw [linking, placed, Tables.forest_place_of_type hd]
  rw [← hlinking, ha.maxDepth] at hset
  rw [hd, Tables.refusal?, hp]
  dsimp only
  by_cases hlen : s.tables.config.maxDepth < (s.tables.forest.chain n).length + 1
  · rw [if_pos hlen] at hset
    exact Or.inl ⟨_, if_pos hlen, hset⟩
  · rw [if_neg hlen] at hset
    refine Or.inr ⟨_, if_neg hlen, hset, ?_⟩
    dsimp only
    exact ha.supported.adds_relinked hlive _

/-- A declaration is refused and leaves the session unmoved, or there is one entity more. -/
theorem declare_cases (ha : s.tables.Arranged) (d : Declaration L) :
    (∃ f s', s.tables.refusal? d.kind = some f ∧
      (declare d).run s = (.error (.failure f), s') ∧ Unmoved s s') ∨
    ∃ s', s.tables.refusal? d.kind = none ∧
      (declare d).run s = (.ok s.tables.entities.next, s') ∧ Adds s s' d none ∧ Unheard s s' := by
  have ht := ha.coherent.formed
  have hplace := ht.adds_place ha.supported.wellFormed d
  have hquiet : Unheard s (s.placed d) := ⟨[], rfl, by simp⟩
  obtain ⟨answer, s', hrun, hends⟩ := places_declare ht ha.supported.wellFormed d
  rw [hrun]
  cases hends with
  | @notAType p hd hp =>
    have hrefusal : s.tables.refusal? d.kind = some (.notAType p) := by
      rw [hd, Tables.refusal?, hp]
    exact Or.inl ⟨_, _, hrefusal, rfl, .refl s⟩
  | refused hd hp h =>
    obtain ⟨f, hrefusal, h'⟩ | ⟨change, -, h', -⟩ := linking_cases ha hd hp
    · obtain rfl := Stop.failure.inj (Except.error.inj (h.symm.trans h'))
      exact Or.inl ⟨_, _, hrefusal, rfl, hplace.agrees_discard ht, rfl, rfl,
        hquiet.trans (unheard_discard _ _)⟩
    · cases h.symm.trans h'
  | stopped hd hp h hstop =>
    obtain ⟨f, rfl⟩ := linking_ne_fault ha.toMatched hd hp h
    exact (hstop f rfl).elim
  | unlinked hd word =>
    obtain ⟨hrefusal, hparent⟩ := Tables.refusal?_of_ne hd
    exact Or.inr ⟨_, hrefusal, rfl, ⟨hparent ▸ hplace, rfl, rfl⟩, hquiet.log id⟩
  | @linked p n change hd hp h word =>
    have hparent : s.tables.parentNode? d.kind = some n := by
      rw [hd, Tables.parentNode?, hp]
    have hkind : (s.tables.newKind d.kind).node? = some s.tables.forest.nodes.next := by
      rw [hd]
      rfl
    obtain ⟨f, -, h'⟩ | ⟨change', hrefusal, h', hforest⟩ := linking_cases ha hd hp
    · cases h.symm.trans h'
    · obtain rfl := Option.some.inj (Except.ok.inj (h.symm.trans h'))
      have hrun := run_changeForest change (s.placed d)
      have hadds : Adds s ((changeForest change).run (s.placed d)).2 d none := by
        rw [hrun]
        exact ⟨hparent ▸ hplace.with_forest hkind hforest, rfl, rfl⟩
      exact Or.inr ⟨_, hrefusal, rfl, ⟨hadds.tables, hadds.gone, hadds.world⟩,
        (hquiet.trans (unheard_changeForest change _)).log id⟩

/-! ## Defining -/

/-- What a scope holds is live. -/
theorem exists_of_find? (ht : s.tables.Coherent) (hx : s.tables.scopes.get? c = some x)
    {name : String} {params : List Param} {e : EntityId} (h : x.find? name params = some e) :
    ∃ y, s.tables.entities.get? e = some y := by
  obtain ⟨y, hy, -⟩ := ht.held c x hx name _ (Scope.mem_of_find? h)
  exact ⟨y, hy⟩

/-- A new entity is put into a scope, unless the scope has one of its name and signature. -/
theorem add_new_cases (ht : s.tables.Coherent) (hx : s.tables.scopes.get? c = some x)
    (h : Adds s s' d none) :
    (∃ e y, x.find? d.name d.params = some e ∧ s.tables.entities.get? e = some y ∧
      (add c s.tables.entities.next).run s' =
        (.error (.failure (.duplicateDefinition d.name e d.location y.location)), s')) ∨
    ∃ s'', x.find? d.name d.params = none ∧
      (add c s.tables.entities.next).run s' = (.ok (), s'') ∧ Adds s s'' d (some c) ∧
      s''.tables.scopes.get? c =
        some ((x.push d.name d.params s.tables.entities.next).prune s.gone) := by
  have hnext := h.tables.get?_next
  have hx' := h.tables.get?_scopes_of_some nofun hx
  cases hf : x.find? d.name d.params with
  | some e =>
    obtain ⟨y, hy⟩ := exists_of_find? ht hx hf
    have hattach := Tables.attach_of_find? hnext rfl hx' hf (h.tables.get?_entities_of_some hy)
    exact Or.inl ⟨e, y, rfl, hy, run_add_of_error hattach⟩
  | none =>
    obtain ⟨t, hattach⟩ : ∃ t, s'.tables.attach c s.tables.entities.next = .ok t :=
      ⟨_, Tables.attach_eq_ok.2 ⟨_, x, hnext, rfl, hx', hf, rfl⟩⟩
    obtain ⟨y, z, hy, -, hz, -, -, hscope⟩ := Tables.attach_cases hattach
    obtain rfl := Option.some.inj (hnext.symm.trans hy)
    obtain rfl := Option.some.inj (hx'.symm.trans hz)
    refine Or.inr ⟨_, rfl, run_add hattach hx',
      ⟨(h.tables.attach hattach).modify_owner _, h.gone, h.world⟩, ?_⟩
    show (t.scopes.modify c _).get? c = _
    rw [SlotTable.get?_modify, if_pos rfl, hscope, if_pos rfl, h.gone]
    rfl

/-- What a definition comes to : it is refused, or the scope has an entity of its name and
signature, or there is one entity more, which the scope has got. -/
theorem define_cases (ha : s.tables.Arranged) (hx : s.tables.scopes.get? c = some x)
    (d : Declaration L) :
    (∃ f s', s.tables.refusal? d.kind = some f ∧
      (define c d).run s = (.error (.failure f), s') ∧ Unmoved s s') ∨
    (∃ e y s', s.tables.refusal? d.kind = none ∧ x.find? d.name d.params = some e ∧
      s.tables.entities.get? e = some y ∧ (define c d).run s =
        (.error (.failure (.duplicateDefinition d.name e d.location y.location)), s') ∧
      Unmoved s s') ∨
    ∃ s', s.tables.refusal? d.kind = none ∧ x.find? d.name d.params = none ∧
      (define c d).run s = (.ok s.tables.entities.next, s') ∧ Adds s s' d (some c) ∧
      s'.tables.scopes.get? c =
        some ((x.push d.name d.params s.tables.entities.next).prune s.gone) := by
  have ht := ha.coherent
  unfold define
  obtain ⟨f, s', hf, hrun, hs'⟩ | ⟨s₁, hf, hrun, hadds, hq⟩ := declare_cases ha d
  · exact Or.inl ⟨f, s', hf, by rw [run_bind, hrun], hs'⟩
  · rw [run_bind_of_ok hrun]
    obtain ⟨e, y, he, hy, hadd⟩ | ⟨s', he, hadd, hs', hscope⟩ := add_new_cases ht hx hadds
    · exact Or.inr (Or.inl ⟨e, y, _, hf, he, hy, run_undoing_discard_bind hadd _ _,
        hadds.unmoved_discard hq ht.formed⟩)
    · exact Or.inr (Or.inr ⟨s', hf, he, run_bind_of_ok (run_undoing_of_ok hadd _) _, hs', hscope⟩)

/-! ## Every session -/

/-- In every session that hosts can bring about, a declaration is refused exactly if its supertype
is no live type, or has a chain that may not get longer. In a live scope it is also refused if the
scope has an entity of its name and signature, and that is what the failure names. Whatever is
refused leaves the session unmoved. What is not makes one entity more, which is the last of its name
in the scope that it is defined in, and observers that are gone are forgotten there. An entity that
cannot be put into a scope changes nothing at all. -/
theorem all_or_nothing {config : Config} {world : W}
    (h : Reaches (fun _ => True) (start config world) s) (host : Host L T W) (fuel : Nat) :
    (∀ c x d, s.tables.scopes.get? c = some x →
      ∃ answer s', host.perform fuel (.define c d) s = (.ok answer, s') ∧
        match s.tables.refusal? d.kind, x.find? d.name d.params with
        | some f, _ => answer = .error f ∧ Unmoved s s'
        | none, some e => ∃ y, s.tables.entities.get? e = some y ∧
          answer = .error (.duplicateDefinition d.name e d.location y.location) ∧ Unmoved s s'
        | none, none => answer = .ok s.tables.entities.next ∧ Adds s s' d (some c) ∧
          s'.tables.scopes.get? c =
            some ((x.push d.name d.params s.tables.entities.next).prune s.gone)) ∧
    (∀ d, ∃ answer s', host.perform fuel (.declare d) s = (.ok answer, s') ∧
      match s.tables.refusal? d.kind with
      | some f => answer = .error f ∧ Unmoved s s'
      | none => answer = .ok s.tables.entities.next ∧ Adds s s' d none ∧ Unheard s s') ∧
    ∀ c e, (host.perform fuel (.add c e) s).1 ≠ .ok (.ok ()) →
      (host.perform fuel (.add c e) s).2 = s := by
  have ha := h.arranged
  refine ⟨fun c x d hx => ?_, fun d => ?_, fun c e hne => ?_⟩
  · have hperform : host.perform fuel (.define c d) s = (attempt (define c d)).run s := rfl
    rw [hperform, run_attempt]
    obtain ⟨f, s', hf, hrun, hs'⟩ | ⟨e, y, s', hf, he, hy, hrun, hs'⟩ |
      ⟨s', hf, he, hrun, hs', hscope⟩ := define_cases ha hx d
    · rw [hrun, hf]
      exact ⟨_, _, rfl, rfl, hs'⟩
    · rw [hrun, hf, he]
      exact ⟨_, _, rfl, y, hy, rfl, hs'⟩
    · rw [hrun, hf, he]
      exact ⟨_, _, rfl, rfl, hs', hscope⟩
  · have hperform : host.perform fuel (.declare d) s = (attempt (declare d)).run s := rfl
    rw [hperform, run_attempt]
    obtain ⟨f, s', hf, hrun, hs'⟩ | ⟨s', hf, hrun, hs', hq⟩ := declare_cases ha d
    · rw [hrun, hf]
      exact ⟨_, _, rfl, rfl, hs'⟩
    · rw [hrun, hf]
      exact ⟨_, _, rfl, rfl, hs', hq⟩
  · have hperform : host.perform fuel (.add c e) s = (attempt (add c e)).run s := rfl
    rw [hperform] at hne ⊢
    rw [run_attempt_snd]
    obtain ⟨t, x, -, -, hrun⟩ | ⟨stop, -, hrun⟩ := add_cases c e s
    · rw [run_attempt, hrun] at hne
      exact absurd rfl hne
    · rw [hrun]

/-- A type that its scope has already is placed under its supertype in vain. -/
theorem all_or_nothing_menagerie :
    menagerie.tables.scopes.contains rootScope = true ∧ ∃ s', fillingHost.perform 2
      (.define rootScope
        { name := "Dog", params := [], kind := .type (some ⟨1, 0⟩), location := .unknown })
      menagerie = (.ok (.error (.duplicateDefinition "Dog" ⟨2, 1⟩ .unknown .unknown)), s') ∧
    Unmoved menagerie s' := by
  have hreached : Reaches (fun _ => True) (start {} ()) menagerie :=
    (Reaches.refl _).after (fillingHost.within_of_forall fun _ => trivial) 2 fun _ _ => trivial
  have hcontains : menagerie.tables.scopes.contains rootScope = true := by decide +kernel
  obtain ⟨x, hx⟩ := SlotTable.contains_iff.1 hcontains
  have hfind : (menagerie.tables.scopes.get? rootScope).bind (·.find? "Dog" []) =
      some ⟨2, 1⟩ := by decide +kernel
  have hlocation : (menagerie.tables.entities.get? ⟨2, 1⟩).map Entity.location =
      some .unknown := by decide +kernel
  have hrefusal : menagerie.tables.refusal? (.type (some ⟨1, 0⟩)) = none :=
    Option.isNone_iff_eq_none.1 (by decide +kernel)
  have hdefine := (all_or_nothing hreached fillingHost 2).1 rootScope x
    { name := "Dog", params := [], kind := .type (some ⟨1, 0⟩), location := .unknown } hx
  generalize menagerie = s at *
  obtain ⟨answer, s', hrun, hends⟩ := hdefine
  rw [hx, Option.bind_some] at hfind
  rw [hrefusal, hfind] at hends
  obtain ⟨y, hy, rfl, hs'⟩ := hends
  rw [hy, Option.map_some, Option.some.injEq] at hlocation
  rw [hlocation] at hrun
  exact ⟨hcontains, s', hrun, hs'⟩

end Session

end NameResolution
