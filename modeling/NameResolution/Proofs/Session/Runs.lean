import NameResolution.Host
import NameResolution.Proofs.Handles

/-!
# What runs do

Equations for running the steps that every operation is made of : each says with what a
step ends, and what session it leaves (`run_bind`, `run_ask`, `run_modifyScope`,
`run_attempt`, `run_undoing`). `Session.mapScope` and `Session.log` are the two small
changes of a session that most steps make.
-/

namespace NameResolution

namespace Session

variable {L T W α β : Type}

/-! ## Small changes -/

/-- The session with a scope changed. -/
def mapScope (s : Session L T W) (c : ScopeId) (f : Scope L T → Scope L T) : Session L T W :=
  { s with tables := { s.tables with scopes := s.tables.scopes.modify c f } }

/-- The session with an event more. -/
def log (s : Session L T W) (event : Event T) : Session L T W :=
  { s with journal := event :: s.journal }

theorem get?_mapScope {s : Session L T W} {c : ScopeId} {x : Scope L T}
    (hx : s.tables.scopes.get? c = some x) (f : Scope L T → Scope L T) :
    (s.mapScope c f).tables.scopes.get? c = some (f x) := by
  unfold mapScope
  rw [SlotTable.get?_modify, if_pos rfl, hx]
  rfl

theorem mapScope_mapScope (s : Session L T W) (c : ScopeId) (f g : Scope L T → Scope L T) :
    (s.mapScope c f).mapScope c g = s.mapScope c (g ∘ f) := by
  unfold mapScope
  rw [SlotTable.modify_modify]

theorem tables_mapScope_congr {s s' : Session L T W} {c : ScopeId} (h : s.tables = s'.tables)
    (f : Scope L T → Scope L T) : (s.mapScope c f).tables = (s'.mapScope c f).tables := by
  unfold mapScope
  rw [h]

/-! ## Questions -/

/-- A scope that is asked for and not there is a fault. -/
theorem scope_ne_failure (t : Tables L T) (c : ScopeId) (f : Failure) :
    t.scope c ≠ .error (.failure f) := by
  unfold Tables.scope
  cases t.scopes.get? c <;> simp

/-- An entity that is asked for and not there is a fault. -/
theorem entity_ne_failure (t : Tables L T) (e : EntityId) (f : Failure) :
    t.entity e ≠ .error (.failure f) := by
  unfold Tables.entity
  cases t.entities.get? e <;> simp

/-! ## Steps -/

theorem run_pure (a : α) (s : Session L T W) : (pure a : Run L T W α).run s = (.ok a, s) :=
  rfl

/-- A sequence runs its first half, and its second where the first ends well. -/
theorem run_bind (x : Run L T W α) (f : α → Run L T W β) (s : Session L T W) :
    (x >>= f).run s =
      match x.run s with
      | (.ok a, s') => (f a).run s'
      | (.error stop, s') => (.error stop, s') := by
  show ExceptT.bindCont f (x.run s).1 (x.run s).2 = _
  rcases x.run s with ⟨r, s'⟩
  cases r <;> rfl

/-- The second half runs where the first has ended. -/
theorem run_bind_of_ok {x : Run L T W α} {a : α} {s s' : Session L T W}
    (h : x.run s = (.ok a, s')) (f : α → Run L T W β) : (x >>= f).run s = (f a).run s' := by
  rw [run_bind, h]

/-- A value comes out at the end of both steps. -/
theorem exists_of_run_bind_eq_ok {x : Run L T W α} {f : α → Run L T W β} {b : β}
    {s s' : Session L T W} (h : (x >>= f).run s = (.ok b, s')) :
    ∃ a s₁, x.run s = (.ok a, s₁) ∧ (f a).run s₁ = (.ok b, s') := by
  rw [run_bind] at h
  rcases hr : x.run s with ⟨stop | a, s₁⟩
  all_goals rw [hr] at h
  · cases h
  · exact ⟨a, s₁, rfl, h⟩

/-- A stop comes from one of the two steps. -/
theorem exists_of_run_bind_eq_error {x : Run L T W α} {f : α → Run L T W β} {stop : Stop}
    {s s' : Session L T W} (h : (x >>= f).run s = (.error stop, s')) :
    x.run s = (.error stop, s') ∨
      ∃ a s₁, x.run s = (.ok a, s₁) ∧ (f a).run s₁ = (.error stop, s') := by
  rw [run_bind] at h
  rcases hr : x.run s with ⟨_ | a, s₁⟩
  all_goals rw [hr] at h
  · cases h
    exact Or.inl rfl
  · exact Or.inr ⟨a, s₁, rfl, h⟩

theorem run_getTables (s : Session L T W) :
    (getTables : Run L T W (Tables L T)).run s = (.ok s.tables, s) :=
  rfl

theorem run_setTables (t : Tables L T) (s : Session L T W) :
    (setTables t : Run L T W Unit).run s = (.ok (), { s with tables := t }) :=
  rfl

theorem run_record (event : Event T) (s : Session L T W) :
    (record event : Run L T W Unit).run s = (.ok (), s.log event) :=
  rfl

theorem run_note (n : Note) (s : Session L T W) :
    (note n : Run L T W Unit).run s = (.ok (), s.log (.noted n)) :=
  rfl

theorem run_fail (f : Failure) (s : Session L T W) :
    (fail f : Run L T W α).run s = (.error (.failure f), s) :=
  rfl

/-- A question leaves the session alone. -/
theorem run_ask (question : Tables L T → Except Stop α) (s : Session L T W) :
    (ask question : Run L T W α).run s = (question s.tables, s) := by
  unfold ask
  simp only [run_bind, run_getTables]
  cases question s.tables <;> rfl

theorem run_ask_scope {c : ScopeId} {s : Session L T W} {x : Scope L T}
    (hx : s.tables.scopes.get? c = some x) :
    (ask (·.scope c) : Run L T W (Scope L T)).run s = (.ok x, s) := by
  rw [run_ask, Tables.scope, hx]

theorem run_modifyScope {c : ScopeId} {s : Session L T W} {x : Scope L T}
    (hx : s.tables.scopes.get? c = some x) (f : Scope L T → Scope L T) :
    (modifyScope c f : Run L T W Unit).run s = (.ok (), s.mapScope c f) := by
  unfold modifyScope
  simp only [run_bind, run_ask, Tables.scope, hx, run_getTables, run_setTables]
  rfl

theorem run_modifyScope_none {c : ScopeId} {s : Session L T W}
    (hc : s.tables.scopes.get? c = none) (f : Scope L T → Scope L T) :
    (modifyScope c f : Run L T W Unit).run s = (.error (.fault (.scope c)), s) := by
  unfold modifyScope
  simp only [run_bind, run_ask, Tables.scope, hc]

theorem run_tryCatch (act : Run L T W α) (handle : Stop → Run L T W α) (s : Session L T W) :
    (tryCatch act handle).run s =
      match act.run s with
      | (.ok a, s') => (.ok a, s')
      | (.error stop, s') => (handle stop).run s' := by
  unfold ExceptT.run
  simp only [tryCatch, tryCatchThe, MonadExceptOf.tryCatch, ExceptT.tryCatch, ExceptT.mk,
    bind, StateT.bind]
  rcases act s with ⟨r, s'⟩
  cases r <;> rfl

/-- An attempt turns a refusal into an answer; faults pass through. -/
theorem run_attempt (act : Run L T W α) (s : Session L T W) :
    (attempt act).run s =
      match act.run s with
      | (.ok a, s') => (.ok (.ok a), s')
      | (.error (.failure f), s') => (.ok (.error f), s')
      | (.error stop, s') => (.error stop, s') := by
  unfold attempt
  rw [run_tryCatch, map_eq_pure_bind, run_bind]
  rcases act.run s with ⟨r, s'⟩
  cases r with
  | ok a => rfl
  | error stop => cases stop <;> rfl

/-- An attempt ends in the session of what it attempts. -/
theorem run_attempt_snd (act : Run L T W α) (s : Session L T W) :
    ((attempt act).run s).2 = (act.run s).2 := by
  rw [run_attempt]
  rcases act.run s with ⟨(_ | _ | _) | _, s'⟩
  all_goals rfl

/-- What an attempt returns is what the run came to. -/
theorem run_attempt_eq_ok {act : Run L T W α} {r : Except Failure α}
    {s s' : Session L T W} (h : (attempt act).run s = (.ok r, s')) :
    act.run s = (r.mapError Stop.failure, s') := by
  rw [run_attempt] at h
  rcases hr : act.run s with ⟨(f | f | _) | a, s₁⟩
  all_goals
    rw [hr] at h
    cases h
  all_goals rfl

theorem run_attempt_of_mapError {act : Run L T W α} {r : Except Failure α}
    {s s' : Session L T W} (h : act.run s = (r.mapError Stop.failure, s')) :
    (attempt act).run s = (.ok r, s') := by
  rw [run_attempt, h]
  cases r <;> rfl

/-- An attempt breaks off where the run does. -/
theorem run_attempt_eq_error {act : Run L T W α} {stop : Stop} {s s' : Session L T W}
    (h : (attempt act).run s = (.error stop, s')) : act.run s = (.error stop, s') := by
  rw [run_attempt] at h
  rcases hr : act.run s with ⟨(f | f | _) | a, s₁⟩
  all_goals
    rw [hr] at h
    cases h
  all_goals rfl

/-- Undoing runs after a refusal only, and the refusal stands. -/
theorem run_undoing (undo : Run L T W Unit) (act : Run L T W α) (s : Session L T W) :
    (undoing undo act).run s =
      match act.run s with
      | (.ok a, s') => (.ok a, s')
      | (.error (.failure f), s') => (undo >>= fun _ => fail f).run s'
      | (.error stop, s') => (.error stop, s') := by
  unfold undoing
  rw [run_bind, run_attempt]
  rcases act.run s with ⟨r, s'⟩
  cases r with
  | ok a => rfl
  | error stop => cases stop <;> rfl

theorem run_undoing_of_ok {act : Run L T W α} {a : α} {s s' : Session L T W}
    (h : act.run s = (.ok a, s')) (undo : Run L T W Unit) :
    (undoing undo act).run s = (.ok a, s') := by
  rw [run_undoing, h]

/-- What had to be undone does not come to a value. -/
theorem run_undoing_eq_ok {undo : Run L T W Unit} {act : Run L T W α} {a : α}
    {s s' : Session L T W} (h : (undoing undo act).run s = (.ok a, s')) :
    act.run s = (.ok a, s') := by
  rw [run_undoing] at h
  rcases hr : act.run s with ⟨(f | f | _) | b, s₁⟩
  all_goals rw [hr] at h
  · obtain ⟨u, s₂, -, h⟩ := exists_of_run_bind_eq_ok h
    cases h
  · cases h
  · cases h
  · exact h

/-! ## Releasing and scripts -/

/-- Releasing answers whether the entity was freed. -/
theorem run_release (s : Session L T W) (e : EntityId) :
    (release e).run s =
      if s.tables.isReleasable e = true then
        (.ok true,
          { s with tables := s.tables.discard e, journal := .noted (.released e) :: s.journal })
      else (.ok false, s) := by
  unfold release
  rw [run_bind, run_getTables]
  dsimp only
  split_ifs <;> rfl

/-- A script that goes on with another one runs the one after the other. -/
theorem run_bind_script (services : Services L T W) (script : Script L T W α)
    (k : α → Script L T W β) :
    (script.bind k).run services = script.run services >>= fun a => (k a).run services := by
  induction script with
  | done a => simp [Script.bind, Script.run]
  | fault f => rfl
  | call op next ih => simp [Script.bind, Script.run, ih]
  | inspect next ih => simp [Script.bind, Script.run, ih]
  | readWorld next ih => simp [Script.bind, Script.run, ih]
  | writeWorld w next ih => simp [Script.bind, Script.run, ih]
  | remark text next ih => simp [Script.bind, Script.run, ih]

end Session

end NameResolution
