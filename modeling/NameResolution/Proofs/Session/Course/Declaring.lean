import NameResolution.Proofs.Session.Course
import NameResolution.Proofs.Tables.Ownership

/-!
# Declaring follows a course

What is declared has the name and signature it was declared with and is in no scope
(`follows_declare`), and putting an entity into a scope fails only before it has done
anything (`follows_add`). So when a definition fails after its entity was made, the entity
that it takes back is loose still (`covered_define`).
-/

namespace NameResolution

namespace Session

variable {L T W α β : Type} {s : Session L T W} {c : ScopeId} {e : EntityId}

/-! ## Discarding and releasing -/

/-- What nobody owns is discarded by a change. -/
theorem follows_discard (he : s.tables.Loose e) :
    Follows (discard e) s (Returns fun _ _ => True) := by
  refine Follows.getTables_bind ((follows_setTables (.discard he)).then fun _ s' _ => ?_)
  exact unfailing_note _ s'

theorem unfailing_release (e : EntityId) : Unfailing (release e : Run L T W Bool) := by
  intro s
  refine Follows.getTables_bind ?_
  split_ifs with h
  · exact (follows_discard (Tables.loose_of_isReleasable h)).then fun _ s' _ =>
      unfailing_pure true s'
  · exact unfailing_pure false s

/-! ## Declaring -/

/-- Events of a list are recorded one after the other; the tables stay. -/
theorem follows_forM_record (event : α → Event T) (hevent : ∀ a, ¬(event a).IsCall) (as : List α)
    (s : Session L T W) :
    Follows (as.forM fun a => record (event a)) s (Returns fun _ s' => s'.tables = s.tables) := by
  induction as generalizing s with
  | nil => exact follows_pure ⟨_, rfl, rfl⟩
  | cons a as ih =>
    refine (follows_record (hevent a) s).then ?_
    rintro - s' rfl
    exact ih (s.log (event a))

/-- A forest that is granted is put in place by a change, which leaves the entities alone. -/
theorem follows_changeForest {change : Forest.Change} (h : s.tables.forest.Grants change) :
    Follows (changeForest change) s
      (Returns fun _ s' => s'.tables.entities = s.tables.entities) := by
  refine Follows.getTables_bind ((follows_setTables (.relink h)).then ?_)
  rintro - s' rfl
  refine (follows_forM_record .noted (fun _ => id) change.notes _).mono ?_
  rintro r s' ⟨u, hr, hs'⟩
  refine ⟨u, hr, ?_⟩
  show s'.tables.entities = _
  rw [hs']

/-- What comes out of a declaration has its name and signature, and is in no scope. Linking its
supertype leaves the entities alone. -/
theorem follows_declare (d : Declaration L) (s : Session L T W) :
    Follows (declare d) s fun r s' => ∀ e, r = .ok e → s'.tables.Declared d.name d.params e := by
  unfold declare
  extract_lets jp
  have hjp : ∀ parent s, Follows (jp parent) s fun r s' => ∀ e, r = .ok e →
      s'.tables.Declared d.name d.params e := by
    intro parent s hs
    refine Follows.getTables_bind ?_ hs
    have hl := hs.declared_place d
    have hc := Change.place s d
    generalize s.tables.place d = placed at hl hc
    obtain ⟨e, t⟩ := placed
    refine (follows_setTables hc).then ?_
    rintro - s' rfl
    extract_lets jp'
    have hjp' : ∀ s : Session L T W, s.tables.Declared d.name d.params e →
        Follows (jp' ()) s fun r s' => ∀ e, r = .ok e → s'.tables.Declared d.name d.params e := by
      intro s he
      refine Follows.ask_bind (fun x _ => ?_) fun _ _ => nofun
      refine (follows_record id s).then ?_
      rintro - s' rfl
      refine follows_pure ?_
      rintro _ ⟨⟩
      exact he
    cases parent with
    | none => exact hjp' _ hl
    | some parent =>
      refine Follows.bind (P := fun r s' => ∀ u, r = .ok u → s'.tables.Declared d.name d.params e)
        (Follows.undoing (P := fun _ s' => s'.tables.Declared d.name d.params e) ?_
          (fun _ _ he _ _ => he) fun f s' he => (follows_discard he.loose).mono ?_)
        (fun u s' he => hjp' s' (he u rfl)) fun _ _ _ => nofun
      · refine Follows.ask_bind (fun node _ => ?_) fun _ _ => hl
        refine Follows.ask_bind (fun change hchange => ?_) fun _ _ => hl
        split
        · refine (follows_changeForest (.inl ⟨_, _, hchange⟩)).mono ?_
          rintro r s' ⟨-, -, hs'⟩
          unfold Tables.Declared
          rw [hs']
          exact hl
        · exact follows_pure hl
      · rintro r s'' ⟨u, hr, -⟩
        exact ⟨u, hr, nofun⟩
  split
  · exact (Covered.map (covered_ask _) some s).bind (fun p s' _ => hjp p s') fun _ _ _ => nofun
  · exact hjp none s

theorem covered_declare (d : Declaration L) : Covered (declare d : Run L T W EntityId) :=
  Follows.covered (follows_declare d)

/-! ## Adding -/

theorem scope_eq_ok {x : Scope L T} (h : s.tables.scope c = .ok x) :
    s.tables.scopes.get? c = some x := by
  unfold Tables.scope at h
  cases hx : s.tables.scopes.get? c with
  | none => simp [hx] at h
  | some y => simpa [hx] using h

theorem entity_eq_ok {x : Entity} (h : s.tables.entity e = .ok x) :
    s.tables.entities.get? e = some x := by
  unfold Tables.entity at h
  cases hx : s.tables.entities.get? e with
  | none => simp [hx] at h
  | some y => simpa [hx] using h

/-- Telling observers leaves the tables as they are, but for the list of observers. -/
theorem follows_notifyAdded (c : ScopeId) (e : EntityId) (s : Session L T W) :
    Follows (notifyAdded c e) s
      (Returns fun _ s' => s'.tables = (s.mapScope c (·.prune s.gone)).tables) := by
  refine Follows.get_bind ?_
  refine Follows.then (P := fun _ s' => s' = s.mapScope c (·.prune s.gone))
    (follows_modifyScope fun x _ =>
      ⟨.observers s c fun os => os.filter (· ∉ s.gone), (), rfl, rfl⟩) ?_
  rintro - s' rfl
  refine Follows.getTables_bind ?_
  refine Follows.ask_bind (fun x _ => ?_) fun f hf => absurd hf (scope_ne_failure _ _ f)
  exact follows_forM_record _ (fun _ => id) x.observers _

/-- Putting an entity into a scope fails before anything is done, or not at all. Afterwards it
belongs to the scope, and the scope has it. -/
theorem follows_add {name : String} {params : List Param} (c : ScopeId)
    (he : s.tables.Declared name params e) :
    Follows (add c e) s fun r s' =>
      (∀ f, r = .error f → s' = s) ∧ ∀ u, r = .ok u → s'.tables.Holds c name params e := by
  refine Follows.ask_bind (fun t ht => ?_) fun _ _ => ⟨fun _ _ => rfl, fun _ => nofun⟩
  refine (follows_setTables (.attach ht)).then ?_
  rintro - s' rfl
  refine (follows_notifyAdded c e _).mono ?_
  rintro r s'' ⟨u, rfl, hs''⟩
  refine ⟨fun _ => nofun, fun _ _ => ?_⟩
  obtain ⟨-, x, hx, -, rfl, rfl⟩ := he
  rw [hs'']
  exact (Tables.holds_of_attach ht hx).scope c fun _ => Scope.Alike.of_names rfl rfl

theorem covered_add (c : ScopeId) (e : EntityId) : Covered (add c e : Run L T W Unit) := by
  refine fun s => Follows.ask_bind (fun t ht => ?_) fun _ _ => trivial
  refine (follows_setTables (.attach ht)).then fun _ s' _ => ?_
  exact (follows_notifyAdded c e s').mono fun _ _ _ => trivial

/-- An entity that cannot be put into its scope is taken back. -/
theorem follows_undoing_add {name : String} {params : List Param}
    (he : s.tables.Declared name params e) :
    Follows (undoing (discard e) (add c e)) s fun r s' =>
      ∀ u, r = .ok u → s'.tables.Holds c name params e := by
  refine Follows.undoing (follows_add c he) (fun _ _ h => h.2) fun f s' h => ?_
  rw [h.1 f rfl]
  exact (follows_discard he.loose).mono fun _ _ ⟨u, hr, _⟩ => ⟨u, hr, nofun⟩

/-- To define is covered : what cannot be added is discarded again, as nobody owns it. -/
theorem covered_define (c : ScopeId) (d : Declaration L) :
    Covered (define c d : Run L T W EntityId) := by
  intro s
  refine (follows_declare d s).bind (fun e s' he => ?_) fun _ _ _ => trivial
  exact (follows_undoing_add (he e rfl)).bind (fun _ s'' _ => follows_pure trivial)
    fun _ _ _ => trivial

theorem unfailing_defineReporting (c : ScopeId) (ds : List (Declaration L)) :
    Unfailing (defineReporting c ds : Run L T W (List EntityId × Report)) := by
  induction ds with
  | nil => exact unfailing_pure _
  | cons d ds ih =>
    refine (covered_define c d).attempt.bind fun r => ?_
    cases r with
    | ok e => exact ih.bind fun _ => unfailing_pure _
    | error f => exact (unfailing_note _).bind fun _ => ih.bind fun _ => unfailing_pure _

/-! ## Templates, observers and supertypes -/

theorem unfailing_addTemplate (services : Services L T W) (c : ScopeId) (template : T) :
    Unfailing (addTemplate services c template) :=
  fun s => follows_modifyScope fun _ _ => ⟨.template s c _ template, (), rfl, trivial⟩

theorem unfailing_watch (c : ScopeId) (observer : ObserverId) :
    Unfailing (watch c observer : Run L T W Unit) :=
  fun s => follows_modifyScope fun _ _ => ⟨.observers s c (· ++ [observer]), (), rfl, trivial⟩

theorem unfailing_unwatch (c : ScopeId) (observer : ObserverId) :
    Unfailing (unwatch c observer : Run L T W Unit) :=
  fun s => follows_modifyScope fun _ _ =>
    ⟨.observers s c fun os => os.filter (· ≠ observer), (), rfl, trivial⟩

theorem unfailing_drop (observer : ObserverId) :
    Unfailing (drop observer : Run L T W Unit) :=
  fun s => follows_of_change rfl (.drop s observer) ⟨(), rfl, trivial⟩

/-- Supertypes are changed as the forest grants it. -/
theorem covered_relinking {question : Tables L T → Except Stop (Option Forest.Change)}
    (h : ∀ t change, question t = .ok (some change) → t.forest.Grants change) :
    Covered (do
      match ← ask question with
      | some change =>
        changeForest change
        return true
      | none => return false : Run L T W Bool) := by
  intro s
  refine Follows.ask_bind (fun change hchange => ?_) fun _ _ => trivial
  split
  · exact (follows_changeForest (h _ _ hchange)).then fun _ _ _ => follows_pure trivial
  · exact follows_pure trivial

theorem covered_setSuper (e : EntityId) (parent : Option EntityId) :
    Covered (setSuper e parent : Run L T W Bool) := by
  refine (covered_ask _).bind fun node => ?_
  have hgrant (parent : Option NodeId) (t : Tables L T) (change : Forest.Change)
      (h : t.forest.setParent node parent = .ok (some change)) : t.forest.Grants change :=
    Or.inl ⟨node, parent, h⟩
  cases parent with
  | some p => exact ((covered_ask _).map some).bind fun parent => covered_relinking (hgrant parent)
  | none => exact (covered_pure none).bind fun parent => covered_relinking (hgrant parent)

theorem covered_clearSuper (e : EntityId) : Covered (clearSuper e : Run L T W Bool) :=
  (covered_ask _).bind fun node => covered_relinking fun _ _ h => Or.inr ⟨node, h⟩

end Session

end NameResolution
