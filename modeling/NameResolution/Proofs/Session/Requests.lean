import NameResolution.Proofs.Session.Closure
import NameResolution.Proofs.Session.Progress

/-!
# What is asked of a loader

The journal tells what has been asked of a scope's loader so far (`requests`). Most runs
ask nothing of any loader (`Silent`) : declaring, putting into scopes, resolving by
templates. And while a loader is called nothing more is asked of it, however deep calls
of other loaders are nested in that call : it is away (`Course.requests_of_pending`).
-/

namespace NameResolution

variable {L T W α β : Type}

namespace Session

/-! ## Requests in the journal -/

/-- What has been asked of a scope's loader, the first request first. -/
def requests (c : ScopeId) : List (Event T) → List (Option NamePart)
  | [] => []
  | .loadBegan c' request :: journal =>
    if c' = c then requests c journal ++ [request] else requests c journal
  | _ :: journal => requests c journal

variable {s s' s'' : Session L T W} {c : ScopeId} {request : Option NamePart} {event : Event T}
  {events journal : List (Event T)} {ending : Ending}

theorem requests_cons (h : ¬event.IsCall) : requests c (event :: events) = requests c events := by
  cases event <;> first | rfl | exact absurd trivial h

theorem requests_append (h : ∀ event ∈ events, ¬event.IsCall) :
    requests c (events ++ journal) = requests c journal := by
  induction events with
  | nil => rfl
  | cons event events ih =>
    rw [List.cons_append, requests_cons (h event List.mem_cons_self)]
    exact ih fun event' hmem => h event' (List.mem_cons_of_mem _ hmem)

theorem pending_append (h : ∀ event ∈ events, ¬event.IsCall) :
    pending c (events ++ journal) = pending c journal := by
  induction events with
  | nil => rfl
  | cons event events ih =>
    rw [List.cons_append, pending_cons (h event List.mem_cons_self)]
    exact ih fun event' hmem => h event' (List.mem_cons_of_mem _ hmem)

/-- No loader was called in between. -/
def Uncalled (s s' : Session L T W) : Prop :=
  ∃ events, s'.journal = events ++ s.journal ∧ ∀ event ∈ events, ¬event.IsCall

theorem Uncalled.of_journal_eq (h : s'.journal = s.journal) : Uncalled s s' :=
  ⟨[], h, by simp⟩

theorem Uncalled.trans (h : Uncalled s s') (h' : Uncalled s' s'') : Uncalled s s'' := by
  obtain ⟨events, hj, hevents⟩ := h
  obtain ⟨events', hj', hevents'⟩ := h'
  refine ⟨events' ++ events, by rw [hj', hj, List.append_assoc], fun event hmem => ?_⟩
  rcases List.mem_append.1 hmem with hmem | hmem
  · exact hevents' event hmem
  · exact hevents event hmem

/-- Then nothing was asked of any loader. -/
theorem Uncalled.requests (h : Uncalled s s') (c : ScopeId) :
    requests c s'.journal = requests c s.journal := by
  obtain ⟨events, hj, hevents⟩ := h
  rw [hj, requests_append hevents]

/-- And the calls that were running are running still. -/
theorem Uncalled.pending (h : Uncalled s s') (c : ScopeId) :
    pending c s'.journal = pending c s.journal := by
  obtain ⟨events, hj, hevents⟩ := h
  rw [hj, pending_append hevents]

theorem Change.requests (h : Change s s') (c : ScopeId) :
    requests c s'.journal = requests c s.journal := by
  rcases h.journal with h | ⟨event, he, h⟩
  · rw [h]
  · rw [h, requests_cons he]

theorem Begins.requests (h : Begins c request s s') :
    requests c s'.journal = requests c s.journal ++ [request] := by
  obtain ⟨n, hj⟩ := h.journal
  rw [hj, Session.requests, if_pos rfl]
  rfl

theorem Begins.requests_of_ne {c' : ScopeId} (h : Begins c' request s s') (hc : c' ≠ c) :
    Session.requests c s'.journal = Session.requests c s.journal := by
  obtain ⟨n, hj⟩ := h.journal
  rw [hj, Session.requests, if_neg hc]
  rfl

theorem Finishes.requests {c' : ScopeId} (h : Finishes c' request s s') :
    Session.requests c s'.journal = Session.requests c s.journal := by
  obtain ⟨outcome, hj⟩ := h.journal
  rw [hj]
  rfl

/-- Nothing is asked of a loader that is away. -/
theorem Course.requests_of_pending (h : Course s ending s') (ht : Tracked s)
    (hf : s.tables.Formed) (hu : s'.tables.Unwrapped) (hp : pending c s.journal = some request) :
    requests c s'.journal = requests c s.journal := by
  have hbegins {s s₁ : Session L T W} {c' : ScopeId} {request' : Option NamePart}
      (hb : Begins c' request' s s₁) (ht : Tracked s) (hp : pending c s.journal = some request) :
      requests c s₁.journal = requests c s.journal ∧ pending c s₁.journal = some request := by
    have hc : c' ≠ c := by
      rintro rfl
      obtain ⟨n, hx, hl, -, -⟩ := hb
      rw [ht.not_running hx (by simp [hl])] at hp
      cases hp
    refine ⟨hb.requests_of_ne hc, ?_⟩
    obtain ⟨n, hj⟩ := hb.journal
    rw [hj, pending, if_neg hc]
    exact hp
  induction h with
  | refl s => rfl
  | stop s => rfl
  | change h => exact h.requests c
  | @call s s₁ s₂ s' c' request' hb h hfin ih =>
    have hf₁ := hf.edit hb.edit
    have hu₂ := ((h.formed hf₁).extends_edit hfin.edit).unwrapped hu
    have hu₀ := (hf.extends_edit hb.edit).unwrapped ((h.extends hf₁).unwrapped hu₂)
    obtain ⟨hr, hp₁⟩ := hbegins hb ht hp
    rw [hfin.requests, ih (ht.step hf hu₀.scopes (.begins hb)) hf₁ hu₂ hp₁, hr]
  | @callBroken s s₁ s' c' request' hb h ih =>
    have hf₁ := hf.edit hb.edit
    have hu₀ := (hf.extends_edit hb.edit).unwrapped ((h.extends hf₁).unwrapped hu)
    obtain ⟨hr, hp₁⟩ := hbegins hb ht hp
    rw [ih (ht.step hf hu₀.scopes (.begins hb)) hf₁ hu hp₁, hr]
  | @callLost s s₁ s' c' request' hb h hgone outcome ih =>
    have hf₁ := hf.edit hb.edit
    have hu₀ := (hf.extends_edit hb.edit).unwrapped ((h.extends hf₁).unwrapped hu)
    obtain ⟨hr, hp₁⟩ := hbegins hb ht hp
    exact (ih (ht.step hf hu₀.scopes (.begins hb)) hf₁ hu hp₁).trans hr
  | @trans s s₁ s' ending h h' ih ih' =>
    have hf₁ := h.formed hf
    have hu₁ := (h'.extends hf₁).unwrapped hu
    obtain ⟨hsteps, hpending⟩ := h.steps ht hf hu₁
    rw [ih' (hsteps.tracked ht hf hu₁) hf₁ hu (hpending rfl c ▸ hp), ih ht hf hu₁ hp]

/-! ## Runs that ask nothing -/

/-- However the run ends, no loader has been called. -/
def Silent (act : Run L T W α) : Prop :=
  ∀ s, Uncalled s (act.run s).2

variable {act x : Run L T W α} {f : α → Run L T W β} {undo : Run L T W Unit}

/-- What a silent run comes to. -/
theorem Silent.uncalled {r : Except Stop α} (h : Silent act) (hrun : act.run s = (r, s')) :
    Uncalled s s' := by
  have h := h s
  rwa [hrun] at h

theorem silent_of_journal (h : ∀ s, (act.run s).2.journal = s.journal) : Silent act :=
  fun s => .of_journal_eq (h s)

theorem silent_pure (a : α) : Silent (pure a : Run L T W α) :=
  silent_of_journal fun _ => rfl

theorem silent_fail (e : Failure) : Silent (fail e : Run L T W α) :=
  silent_of_journal fun _ => rfl

theorem silent_get : Silent (get : Run L T W (Session L T W)) :=
  silent_of_journal fun _ => rfl

theorem silent_getTables : Silent (getTables : Run L T W (Tables L T)) :=
  silent_of_journal fun _ => rfl

theorem silent_setTables (t : Tables L T) : Silent (setTables t : Run L T W Unit) :=
  silent_of_journal fun _ => rfl

theorem silent_ask (question : Tables L T → Except Stop α) :
    Silent (ask question : Run L T W α) :=
  silent_of_journal fun s => by rw [run_ask]

theorem silent_record (h : ¬event.IsCall) : Silent (record event : Run L T W Unit) :=
  fun _ => ⟨[event], rfl, by simpa using h⟩

theorem silent_note (n : Note) : Silent (note n : Run L T W Unit) :=
  silent_record id

theorem Silent.bind (hx : Silent x) (hf : ∀ a, Silent (f a)) : Silent (x >>= f) := by
  intro s
  have h := hx s
  rw [run_bind]
  generalize x.run s = r at h
  obtain ⟨stop | a, s₁⟩ := r
  · exact h
  · exact h.trans (hf a s₁)

theorem Silent.attempt (h : Silent act) : Silent (attempt act) := by
  intro s
  have h := h s
  rw [run_attempt]
  generalize act.run s = r at h
  obtain ⟨(_ | _ | _) | _, s₁⟩ := r
  all_goals exact h

theorem Silent.undoing (hundo : Silent undo) (h : Silent act) : Silent (undoing undo act) := by
  refine h.attempt.bind fun r => ?_
  cases r with
  | ok a => exact silent_pure a
  | error e => exact hundo.bind fun _ => silent_fail e

/-! ## Declaring and resolving -/

theorem edits_silent : Edits (L := L) (T := T) (W := W) Silent where
  pure := silent_pure
  bind := Silent.bind
  outOfFuel := silent_of_journal fun _ => rfl
  getTables := silent_getTables
  scope _ := silent_ask _
  entity _ := silent_ask _
  session h _ := silent_get.bind h
  typeNode _ := silent_ask _
  setParent _ _ := silent_ask _
  attach _ _ := silent_ask _
  setTables := silent_setTables
  note := silent_note
  notified _ _ _ _ := silent_record id
  consulted _ _ _ := silent_record id
  undoing := Silent.undoing
  ambiguous _ _ _ := silent_fail _

/-- A delivery asks no loader : it only defines. -/
theorem silent_defineAll (c : ScopeId) (ds : List (Declaration L)) :
    Silent (defineAll c ds : Run L T W Unit) := by
  induction ds with
  | nil => exact silent_pure ()
  | cons d ds ih =>
    refine (edits_silent.define c d).attempt.bind fun r => ?_
    cases r with
    | ok e => exact ih
    | error f => exact (silent_note _).bind fun _ => silent_fail f

/-- Templates are asked, and loaders are not. -/
theorem silent_resolveOverload {services : Services L T W} (c : ScopeId) (name : String)
    (params : List Param) (location : Location) :
    Silent (resolveOverload services c name params location) :=
  edits_silent.resolveOverload services c name params location

end Session

end NameResolution
