import NameResolution.Proofs.Session.Runs
import NameResolution.Proofs.Tables.Changes

/-!
# What adding does

What asking templates and adding leave of a session, to the last event of the journal.
Putting an entity into a scope either leaves everything as it is, or the entity is in the
scope, observers that are gone are forgotten, and the others have been told
(`Session.enter`, `add_cases`).
-/

namespace NameResolution

namespace Session

variable {L T W α : Type} {s : Session L T W} {c : ScopeId} {e : EntityId} {x : Scope L T}
  {t : Tables L T}

/-! ## Recording -/

/-- Events of a list are recorded one after the other. -/
theorem run_forM_record (event : α → Event T) (as : List α) (s : Session L T W) :
    (as.forM fun a => record (event a)).run s =
      (.ok (), { s with journal := (as.map event).reverse ++ s.journal }) := by
  induction as generalizing s with
  | nil => rfl
  | cons a as ih =>
    refine (run_bind_of_ok (run_record (event a) s) _).trans ((ih _).trans ?_)
    simp [log]

/-- To put a changed forest in place notes what is to be noted. -/
theorem run_changeForest (change : Forest.Change) (s : Session L T W) :
    (changeForest change).run s =
      (.ok (), { s with
        tables := { s.tables with forest := change.forest }
        journal := (change.notes.map .noted).reverse ++ s.journal }) :=
  run_forM_record .noted change.notes _

/-- Templates are asked one after the other, and what they are asked is recorded. -/
theorem run_consult (services : Services L T W) (params : List Param) (ts : List T)
    (s : Session L T W) : (consult services params ts).run s =
      (.ok (ts.filterMap (services.generate · s.tables s.world params)), { s with
        journal := (ts.map fun template => .consulted template params
          (services.generate template s.tables s.world params).isSome).reverse ++ s.journal }) := by
  induction ts generalizing s with
  | nil => rfl
  | cons template ts ih =>
    have hget : (get : Run L T W (Session L T W)).run s = (.ok s, s) := rfl
    unfold consult
    rw [run_bind_of_ok hget, run_bind_of_ok (run_record _ _), run_bind_of_ok (ih _), run_pure]
    cases hd : services.generate template s.tables s.world params <;> simp [log, hd]

/-! ## Entering a scope -/

/-- What is recorded when observers are told about an entity in a scope, the latest first. -/
def told (c : ScopeId) (e : EntityId) (observers : List ObserverId) : List (Event T) :=
  (observers.map fun o => .notified o c e (some c)).reverse

/-- The session after an entity has been put into the scope `x`, with the tables `t` as they are
then : observers that are gone are forgotten, and the others have been told. -/
def enter (s : Session L T W) (c : ScopeId) (e : EntityId) (t : Tables L T) (x : Scope L T) :
    Session L T W :=
  { s with
    tables := { t with scopes := t.scopes.modify c (·.prune s.gone) }
    journal := told c e (x.prune s.gone).observers ++ s.journal }

/-- The observers that are not gone are told, in order. -/
theorem run_notifyAdded (hx : s.tables.scopes.get? c = some x) (e : EntityId) :
    (notifyAdded c e).run s = (.ok (), { s.mapScope c (·.prune s.gone) with
      journal :=
        ((x.prune s.gone).observers.map fun o =>
          .notified o c e ((s.tables.entities.get? e).bind Entity.owner)).reverse ++
        s.journal }) := by
  have hget : (get : Run L T W (Session L T W)).run s = (.ok s, s) := rfl
  unfold notifyAdded
  rw [run_bind_of_ok hget, run_bind_of_ok (run_modifyScope hx _),
    run_bind_of_ok (run_getTables _), run_bind_of_ok (run_ask_scope (get?_mapScope hx _))]
  exact run_forM_record _ (x.prune s.gone).observers (s.mapScope c (·.prune s.gone))

/-- An entity that can be attached enters the scope. -/
theorem run_add (h : s.tables.attach c e = .ok t) (hx : s.tables.scopes.get? c = some x) :
    (add c e).run s = (.ok (), s.enter c e t x) := by
  obtain ⟨y, z, -, -, hz, -, hent, hscope⟩ := Tables.attach_cases h
  obtain rfl := Option.some.inj (hx.symm.trans hz)
  have hattach : (ask (·.attach c e) : Run L T W (Tables L T)).run s = (.ok t, s) := by
    rw [run_ask, h]
  have hx' : t.scopes.get? c = some (x.push y.name y.params e) := by
    rw [hscope, if_pos rfl]
  unfold add
  rw [run_bind_of_ok hattach, run_bind_of_ok (run_setTables t s), run_notifyAdded hx',
    hent, if_pos rfl]
  rfl

/-- An entity that cannot be put into a scope changes nothing. -/
theorem run_add_of_error {stop : Stop} (h : s.tables.attach c e = .error stop) :
    (add c e).run s = (.error stop, s) := by
  unfold add
  rw [run_bind, run_ask, h]

/-- An entity enters the scope, or nothing happens. -/
theorem add_cases (c : ScopeId) (e : EntityId) (s : Session L T W) :
    (∃ t x, s.tables.attach c e = .ok t ∧ s.tables.scopes.get? c = some x ∧
      (add c e).run s = (.ok (), s.enter c e t x)) ∨
    ∃ stop, s.tables.attach c e = .error stop ∧ (add c e).run s = (.error stop, s) := by
  cases h : s.tables.attach c e with
  | error stop => exact Or.inr ⟨stop, rfl, run_add_of_error h⟩
  | ok t =>
    obtain ⟨-, x, -, -, hx, -⟩ := Tables.attach_cases h
    exact Or.inl ⟨t, x, rfl, hx, run_add h hx⟩

end Session

end NameResolution
