import NameResolution.Proofs.Session.Runs
import NameResolution.Proofs.Tables.Changes

/-!
# The course of a run

Whatever a run does is a course : single changes, and calls of loaders, inside which there
are courses again (`Course`). A change touches the tables by an edit, or the journal, the
observers or the world (`Change`). A call takes the loader out of its scope
(`Begins`), runs it, and puts it back (`Finishes`); a call that breaks off leaves the
loader away.

A run from formed tables follows a course if it takes one, and what it returns, a value or
a failure, is as required (`Follows`). `Follows.bind`, `Follows.attempt` and
`Follows.undoing` put courses together along the program; a program that can start
anywhere is `Covered`. A course keeps tables formed (`Course.formed`) and never gives a
slot up (`Course.extends`).
-/

namespace NameResolution

variable {L T W α β : Type}

/-! ## Changes -/

/-- The event belongs to the call of a loader. -/
def Event.IsCall : Event T → Prop
  | .loadBegan .. | .loadEnded .. => True
  | _ => False

/-- The forest is relinked in this way when it is asked for a supertype, or for none. -/
def Forest.Grants (f : Forest) (change : Forest.Change) : Prop :=
  (∃ node parent, f.setParent node parent = .ok (some change)) ∨
    ∃ node, f.clearParent node = .ok (some change)

namespace Session

/-- One change of a session that is no part of calling a loader. -/
inductive Change : Session L T W → Session L T W → Prop
  | place (s : Session L T W) (d : Declaration L) :
    Change s { s with tables := (s.tables.place d).2 }
  | relink {s : Session L T W} {change : Forest.Change} (h : s.tables.forest.Grants change) :
    Change s { s with tables := { s.tables with forest := change.forest } }
  | discard {s : Session L T W} {e : EntityId} (h : s.tables.Loose e) :
    Change s { s with tables := s.tables.discard e }
  | attach {s : Session L T W} {c : ScopeId} {e : EntityId} {t : Tables L T}
    (h : s.tables.attach c e = .ok t) : Change s { s with tables := t }
  | template (s : Session L T W) (c : ScopeId) (name : String) (template : T) :
    Change s (s.mapScope c (·.addTemplate name template))
  | observers (s : Session L T W) (c : ScopeId) (f : List ObserverId → List ObserverId) :
    Change s (s.mapScope c fun x => { x with observers := f x.observers })
  /-- A scope without a loader counts as loaded once everything is asked of it. -/
  | settle {s : Session L T W} {c : ScopeId} {x : Scope L T}
    (hx : s.tables.scopes.get? c = some x) (hs : x.state = .unloaded) (hl : x.loader = none) :
    Change s (s.mapScope c fun x => { x with state := .loaded })
  | event (s : Session L T W) {event : Event T} (h : ¬event.IsCall) : Change s (s.log event)
  | drop (s : Session L T W) (observer : ObserverId) :
    Change s { s with gone := observer :: s.gone }
  | world (s : Session L T W) (w : W) : Change s { s with world := w }

/-! ## Calls -/

/-- How far a scope has got while its loader answers a request. -/
def stateDuring : Option NamePart → LoadState → LoadState
  | none, _ => .loading
  | some _, state => state

/-- How far a scope has got after its loader has answered a request. -/
def stateAfter : Option NamePart → LoadEnd → LoadState → LoadState
  | none, .done, _ => .loaded
  | none, _, _ => .unloaded
  | some _, _, state => state

/-- The call of a scope's loader begins. Everything is asked of an unloaded scope only. -/
inductive Begins (c : ScopeId) (request : Option NamePart) (s : Session L T W) :
    Session L T W → Prop
  | intro {x : Scope L T} {loader : L} (n : Note)
    (hx : s.tables.scopes.get? c = some x) (hl : x.loader = some loader)
    (hs : x.state ≠ .loaded) (hr : request = none → x.state = .unloaded) :
    Begins c request s
      (((s.mapScope c fun x =>
        { x with loader := none, state := stateDuring request x.state }).log (.noted n)).log
          (.loadBegan c request))

/-- The call of a scope's loader comes to its end. -/
inductive Finishes (c : ScopeId) (request : Option NamePart) (s : Session L T W) :
    Session L T W → Prop
  | intro {x : Scope L T} (loader : L) (outcome : LoadEnd)
    (hx : s.tables.scopes.get? c = some x) :
    Finishes c request s
      ((s.log (.loadEnded c outcome)).mapScope c fun x =>
        { x with loader := some loader, state := stateAfter request outcome x.state })

/-! ## Courses -/

/-- How a run ended : it returned a value or a failure, or it was broken off by a fault or for want
of fuel. -/
inductive Ending where
  | returned
  | broken

/-- What happens between the beginning and the end of a run. -/
inductive Course : Session L T W → Ending → Session L T W → Prop
  | refl (s : Session L T W) : Course s .returned s
  | stop (s : Session L T W) : Course s .broken s
  | change {s s' : Session L T W} (h : Change s s') : Course s .returned s'
  | call {s s₁ s₂ s' : Session L T W} {c : ScopeId} {request : Option NamePart}
    (hb : Begins c request s s₁) (h : Course s₁ .returned s₂) (hf : Finishes c request s₂ s') :
    Course s .returned s'
  | callBroken {s s₁ s' : Session L T W} {c : ScopeId} {request : Option NamePart}
    (hb : Begins c request s s₁) (h : Course s₁ .broken s') : Course s .broken s'
  /-- The scope is gone when its loader has answered. -/
  | callLost {s s₁ s' : Session L T W} {c : ScopeId} {request : Option NamePart}
    (hb : Begins c request s s₁) (h : Course s₁ .returned s')
    (hc : s'.tables.scopes.get? c = none) (outcome : LoadEnd) :
    Course s .broken (s'.log (.loadEnded c outcome))
  | trans {s s₁ s' : Session L T W} {ending : Ending}
    (h : Course s .returned s₁) (h' : Course s₁ ending s') : Course s ending s'

variable {s s' : Session L T W} {c : ScopeId} {request : Option NamePart} {ending : Ending}

theorem Change.edit (h : Change s s') : Tables.Edit s.tables s'.tables := by
  cases h with
  | place d => exact .place _ d
  | relink h => exact .forest _ _
  | discard h => exact .discard h
  | attach h => exact .attach h
  | template c name template =>
    exact .scope _ c _ fun x => Scope.alike_addTemplate x name template
  | observers c f => exact .scope _ c _ fun x => Scope.Alike.of_names rfl rfl
  | settle hx hs hl => exact .scope _ _ _ fun x => Scope.Alike.of_names rfl rfl
  | event h => exact .refl _
  | drop observer => exact .refl _
  | world w => exact .refl _

theorem Begins.edit (h : Begins c request s s') : Tables.Edit s.tables s'.tables := by
  cases h with
  | intro n hx hl hs hr => exact .scope _ c _ fun x => Scope.Alike.of_names rfl rfl

theorem Finishes.edit (h : Finishes c request s s') : Tables.Edit s.tables s'.tables := by
  cases h with
  | intro loader outcome hx => exact .scope _ c _ fun x => Scope.Alike.of_names rfl rfl

/-- A property that every edit keeps is kept by every course. -/
theorem Course.induction_edit {P : Tables L T → Prop}
    (hP : ∀ {t t'}, P t → Tables.Edit t t' → P t') (h : Course s ending s') (hs : P s.tables) :
    P s'.tables := by
  induction h with
  | refl s => exact hs
  | stop s => exact hs
  | change h => exact hP hs h.edit
  | call hb _ hf ih => exact hP (ih (hP hs hb.edit)) hf.edit
  | callBroken hb _ ih => exact ih (hP hs hb.edit)
  | callLost hb _ _ _ ih => exact ih (hP hs hb.edit)
  | trans _ _ ih ih' => exact ih' (ih hs)

theorem Course.formed (h : Course s ending s') (hs : s.tables.Formed) : s'.tables.Formed :=
  h.induction_edit Tables.Formed.edit hs

theorem Course.extends (h : Course s ending s') (hs : s.tables.Formed) :
    s.tables.Extends s'.tables := by
  have hP : ∀ {t t' : Tables L T}, t.Formed ∧ s.tables.Extends t → Tables.Edit t t' →
      t'.Formed ∧ s.tables.Extends t' :=
    fun ht he => ⟨ht.1.edit he, ht.2.trans (ht.1.extends_edit he)⟩
  exact (h.induction_edit hP ⟨hs, .refl _⟩).2

/-! ## Runs that follow a course -/

/-- A session comes out at the end of a course, and what was returned, a value or a failure, is as
required. -/
inductive Outcome (s : Session L T W) (Q : Except Failure α → Session L T W → Prop) :
    Except Stop α × Session L T W → Prop
  | value {a : α} {s' : Session L T W} (hc : Course s .returned s') (hQ : Q (.ok a) s') :
    Outcome s Q (.ok a, s')
  | failure {f : Failure} {s' : Session L T W} (hc : Course s .returned s')
    (hQ : Q (.error f) s') : Outcome s Q (.error (.failure f), s')
  | broken {stop : Stop} {s' : Session L T W} (hstop : ∀ f, stop ≠ .failure f)
    (hc : Course s .broken s') : Outcome s Q (.error stop, s')

/-- From formed tables, the run takes a course to an outcome as required. -/
def Follows (act : Run L T W α) (s : Session L T W)
    (Q : Except Failure α → Session L T W → Prop) : Prop :=
  s.tables.Formed → Outcome s Q (act.run s)

/-- A value is returned, and no failure. -/
def Returns (P : α → Session L T W → Prop) : Except Failure α → Session L T W → Prop :=
  fun r s => ∃ a, r = .ok a ∧ P a s

/-- The run follows a course from everywhere. -/
def Covered (act : Run L T W α) : Prop :=
  ∀ s, Follows act s fun _ _ => True

/-- The run follows a course from everywhere, and does not fail. -/
def Unfailing (act : Run L T W α) : Prop :=
  ∀ s, Follows act s (Returns fun _ _ => True)

variable {act x : Run L T W α} {f : α → Run L T W β} {undo : Run L T W Unit}
  {P Q : Except Failure α → Session L T W → Prop} {R : Except Failure β → Session L T W → Prop}
  {r : Except Stop α × Session L T W}

theorem Outcome.mono (h : Outcome s P r) (hPQ : ∀ e s', P e s' → Q e s') : Outcome s Q r := by
  cases h with
  | value hc hP => exact .value hc (hPQ _ _ hP)
  | failure hc hP => exact .failure hc (hPQ _ _ hP)
  | broken hstop hc => exact .broken hstop hc

/-- What comes out after a course comes out of the whole. -/
theorem Outcome.after {s₁ : Session L T W} (hc : Course s .returned s₁) (h : Outcome s₁ Q r) :
    Outcome s Q r := by
  cases h with
  | value hc' hQ => exact .value (hc.trans hc') hQ
  | failure hc' hQ => exact .failure (hc.trans hc') hQ
  | broken hstop hc' => exact .broken hstop (hc.trans hc')

theorem outcome_fault (s : Session L T W) (f : Fault) : Outcome s Q (.error (.fault f), s) :=
  .broken (fun _ => nofun) (.stop s)

theorem outcome_outOfFuel (s : Session L T W) : Outcome s Q (.error .outOfFuel, s) :=
  .broken (fun _ => nofun) (.stop s)

/-- Whatever comes out, there was a course to it. -/
theorem Outcome.course (h : Outcome s Q r) : ∃ ending, Course s ending r.2 := by
  cases h with
  | value hc hQ => exact ⟨_, hc⟩
  | failure hc hQ => exact ⟨_, hc⟩
  | broken hstop hc => exact ⟨_, hc⟩

theorem Follows.mono (h : Follows act s P) (hPQ : ∀ e s', P e s' → Q e s') : Follows act s Q :=
  fun hs => (h hs).mono hPQ

theorem Follows.covered {Q : Session L T W → Except Failure α → Session L T W → Prop}
    (h : ∀ s, Follows act s (Q s)) : Covered act :=
  fun s => (h s).mono fun _ _ _ => trivial

/-- What every edit keeps holds at the end as well. -/
theorem Follows.keeping {P : Tables L T → Prop} (h : Follows act s Q)
    (hP : ∀ {t t'}, P t → Tables.Edit t t' → P t') (hs : P s.tables) :
    Follows act s fun r s' => Q r s' ∧ P s'.tables := by
  intro hf
  have h := h hf
  generalize act.run s = r at h
  cases h with
  | value hc hQ => exact .value hc ⟨hQ, hc.induction_edit hP hs⟩
  | failure hc hQ => exact .failure hc ⟨hQ, hc.induction_edit hP hs⟩
  | broken hstop hc => exact .broken hstop hc

/-- A run that returns a value has taken a course, and the value is as required. -/
theorem Follows.of_run_eq_ok {a : α} (h : Follows act s Q) (hs : s.tables.Formed)
    (hr : act.run s = (.ok a, s')) : Course s .returned s' ∧ Q (.ok a) s' := by
  have h := h hs
  rw [hr] at h
  cases h with
  | value hc hQ => exact ⟨hc, hQ⟩

/-! ## Steps -/

/-- A run that ends with a value, all of whose doing is one change. -/
theorem follows_of_change {a : α} (h : act.run s = (.ok a, s')) (hc : Change s s')
    (hQ : Q (.ok a) s') : Follows act s Q := by
  intro _
  rw [h]
  exact .value (.change hc) hQ

theorem follows_pure {a : α} (hQ : Q (.ok a) s) : Follows (pure a) s Q := by
  intro _
  rw [run_pure]
  exact .value (.refl s) hQ

theorem follows_fail {e : Failure} (hQ : Q (.error e) s) : Follows (fail e) s Q := by
  intro _
  rw [run_fail]
  exact .failure (.refl s) hQ

theorem follows_setTables {t : Tables L T} (h : Change s { s with tables := t }) :
    Follows (setTables t) s (Returns fun _ s' => s' = { s with tables := t }) :=
  follows_of_change (run_setTables t s) h ⟨_, rfl, rfl⟩

theorem follows_record {event : Event T} (h : ¬event.IsCall) (s : Session L T W) :
    Follows (record event) s (Returns fun _ s' => s' = s.log event) :=
  follows_of_change (run_record event s) (.event s h) ⟨_, rfl, rfl⟩

theorem follows_getTables {Q : Except Failure (Tables L T) → Session L T W → Prop}
    (hQ : Q (.ok s.tables) s) : Follows getTables s Q := by
  intro _
  rw [run_getTables]
  exact .value (.refl s) hQ

theorem follows_get {Q : Except Failure (Session L T W) → Session L T W → Prop}
    (hQ : Q (.ok s) s) : Follows get s Q :=
  fun _ => .value (.refl s) hQ

/-- A question changes nothing, and is answered from the tables. -/
theorem follows_ask {question : Tables L T → Except Stop α}
    (hok : ∀ a, question s.tables = .ok a → Q (.ok a) s)
    (herr : ∀ e, question s.tables = .error (.failure e) → Q (.error e) s) :
    Follows (ask question) s Q := by
  intro _
  rw [run_ask]
  cases hq : question s.tables with
  | ok a => exact .value (.refl s) (hok a hq)
  | error stop =>
    cases stop with
    | failure e => exact .failure (.refl s) (herr e hq)
    | fault e => exact outcome_fault s e
    | outOfFuel => exact outcome_outOfFuel s

/-- A scope that is there is changed; if it is not, the run is broken off. -/
theorem follows_modifyScope {f : Scope L T → Scope L T}
    {Q : Except Failure Unit → Session L T W → Prop}
    (h : ∀ x, s.tables.scopes.get? c = some x → Change s (s.mapScope c f) ∧
      Q (.ok ()) (s.mapScope c f)) : Follows (modifyScope c f) s Q := by
  intro _
  cases hx : s.tables.scopes.get? c with
  | none =>
    rw [run_modifyScope_none hx]
    exact outcome_fault s _
  | some x =>
    rw [run_modifyScope hx]
    exact .value (.change (h x hx).1) (h x hx).2

/-! ## Programs -/

/-- A run and the one that goes on with it follow their courses one after the other. -/
theorem Follows.bind (hx : Follows x s P)
    (hf : ∀ a s', P (.ok a) s' → Follows (f a) s' R)
    (herr : ∀ e s', P (.error e) s' → R (.error e) s') : Follows (x >>= f) s R := by
  intro hs
  have h := hx hs
  rw [run_bind]
  generalize x.run s = r at h
  cases h with
  | value hc hP => exact (hf _ _ hP (hc.formed hs)).after hc
  | failure hc hP => exact .failure hc (herr _ _ hP)
  | broken hstop hc => exact .broken hstop hc

/-- What comes after a run that does not fail. -/
theorem Follows.then {P : α → Session L T W → Prop} (hx : Follows x s (Returns P))
    (hf : ∀ a s', P a s' → Follows (f a) s' R) : Follows (x >>= f) s R := by
  refine hx.bind ?_ ?_
  · rintro a s' ⟨_, ⟨⟩, hP⟩
    exact hf a s' hP
  · rintro e s' ⟨a, he, -⟩
    cases he

/-- What comes after the tables have been looked at. -/
theorem Follows.getTables_bind {f : Tables L T → Run L T W β} (h : Follows (f s.tables) s R) :
    Follows (getTables >>= f) s R := by
  refine Follows.then (P := fun t s' => t = s.tables ∧ s' = s)
    (follows_getTables ⟨_, rfl, rfl, rfl⟩) ?_
  rintro t s' ⟨rfl, rfl⟩
  exact h

/-- What comes after the session has been looked at. -/
theorem Follows.get_bind {f : Session L T W → Run L T W β} (h : Follows (f s) s R) :
    Follows (get >>= f) s R := by
  refine Follows.then (P := fun t s' => t = s ∧ s' = s) (follows_get ⟨_, rfl, rfl, rfl⟩) ?_
  rintro t s' ⟨rfl, rfl⟩
  exact h

/-- What comes after a question. -/
theorem Follows.ask_bind {question : Tables L T → Except Stop α}
    (hok : ∀ a, question s.tables = .ok a → Follows (f a) s R)
    (herr : ∀ e, question s.tables = .error (.failure e) → R (.error e) s) :
    Follows (ask question >>= f) s R := by
  refine Follows.bind (P := fun r s' => s' = s ∧ question s.tables = r.mapError Stop.failure)
    (follows_ask (fun a ha => ⟨rfl, ha⟩) fun e he => ⟨rfl, he⟩) ?_ ?_
  · rintro a s' ⟨rfl, ha⟩
    exact hok a ha
  · rintro e s' ⟨rfl, he⟩
    exact herr e he

theorem Follows.attempt {Q : Except Failure (Except Failure α) → Session L T W → Prop}
    (h : Follows act s fun r s' => Q (.ok r) s') : Follows (attempt act) s Q := by
  intro hs
  have h' := h hs
  rw [run_attempt]
  generalize act.run s = r at h'
  cases h' with
  | value hc hP => exact .value hc hP
  | failure hc hP => exact .value hc hP
  | @broken stop _ hstop hc =>
    cases stop with
    | failure f => exact absurd rfl (hstop f)
    | fault f => exact .broken (fun _ => nofun) hc
    | outOfFuel => exact .broken (fun _ => nofun) hc

/-- If the run fails, what it has done is taken back, and it fails. -/
theorem Follows.undoing (h : Follows act s P) (hok : ∀ a s', P (.ok a) s' → Q (.ok a) s')
    (hundo : ∀ e s', P (.error e) s' → Follows undo s' (Returns fun _ s'' => Q (.error e) s'')) :
    Follows (undoing undo act) s Q := by
  intro hs
  have h' := h hs
  rw [run_undoing]
  generalize act.run s = r at h'
  cases h' with
  | value hc hP => exact .value hc (hok _ _ hP)
  | failure hc hP =>
    exact Outcome.after hc
      (Follows.then (hundo _ _ hP) (fun _ s' hQ => follows_fail hQ) (hc.formed hs))
  | @broken stop _ hstop hc =>
    cases stop with
    | failure f => exact absurd rfl (hstop f)
    | fault f => exact .broken (fun _ => nofun) hc
    | outOfFuel => exact .broken (fun _ => nofun) hc

/-- What is put together of runs that are covered is covered. -/
theorem Covered.bind (hx : Covered x) (hf : ∀ a, Covered (f a)) : Covered (x >>= f) :=
  fun s => (hx s).bind (fun a s' _ => hf a s') fun _ _ _ => trivial

theorem Covered.map (hx : Covered x) (g : α → β) : Covered (g <$> x) := by
  rw [map_eq_pure_bind]
  exact hx.bind fun a _ => follows_pure trivial

theorem Covered.attempt (h : Covered act) : Unfailing (Session.attempt act) :=
  fun s => Follows.attempt ((h s).mono fun r _ _ => ⟨r, rfl, trivial⟩)

theorem Unfailing.covered (h : Unfailing act) : Covered act :=
  Follows.covered h

theorem Unfailing.bind (hx : Unfailing x) (hf : ∀ a, Unfailing (f a)) : Unfailing (x >>= f) :=
  fun s => (hx s).then fun a s' _ => hf a s'

theorem unfailing_pure (a : α) : Unfailing (pure a : Run L T W α) :=
  fun _ => follows_pure ⟨a, rfl, trivial⟩

theorem covered_pure (a : α) : Covered (pure a : Run L T W α) :=
  fun _ => follows_pure trivial

theorem covered_fail (e : Failure) : Covered (fail e : Run L T W α) :=
  fun _ => follows_fail trivial

theorem covered_ask (question : Tables L T → Except Stop α) :
    Covered (ask question : Run L T W α) :=
  fun _ => follows_ask (fun _ _ => trivial) fun _ _ => trivial

theorem covered_getTables : Covered (getTables : Run L T W (Tables L T)) :=
  fun _ => follows_getTables trivial

theorem unfailing_record {event : Event T} (h : ¬event.IsCall) :
    Unfailing (record event : Run L T W Unit) :=
  fun s => (follows_record h s).mono fun _ _ ⟨_, hr, _⟩ => ⟨_, hr, trivial⟩

theorem unfailing_note (n : Note) : Unfailing (note n : Run L T W Unit) :=
  unfailing_record id

theorem covered_note (n : Note) : Covered (note n : Run L T W Unit) :=
  (unfailing_note n).covered

end Session

end NameResolution
