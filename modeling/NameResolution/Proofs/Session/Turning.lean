import NameResolution.Proofs.Session.Blindness
import NameResolution.Proofs.Session.Course.Loading
import NameResolution.Proofs.Session.Declaring
import NameResolution.Proofs.Session.History
import NameResolution.Proofs.Session.Moves
import NameResolution.Proofs.Session.Requests
import NameResolution.Proofs.Turning

/-!
# Sessions whose handles come round

To declare a package and to release it again is a round. But for the journal, it leaves a session in
which the next slots have been emptied once more (`run_churn`). After `2 ^ 32` releases a handle is
given out again, and what still has it is mistaken : an entity whose owner was released has another
owner, and a loader that comes back finds another scope. There is a session in which both have
happened (`exists_usurped`), and but for the journal it is the `throne`, whose tables are at hand.
What is proved of sessions under `Unwrapped` is tried there.
-/

namespace NameResolution

variable {L T W α : Type}

/-- A package without a loader, which is declared only to be released. -/
def spare : Declaration L :=
  { name := "", params := [], kind := .package none, location := .unknown }

/-- Declares a package and releases it, so many times. -/
def Script.churn : Nat → Script L T W Unit
  | 0 => .done ()
  | n + 1 => .call (.declare spare) fun
    | .ok e => .call (.release e) fun _ => churn n
    | .error _ => .done ()

namespace Tables

variable {t : Tables L T}

/-- The tables in which the slots for the next entity and the next scope have been emptied `n` times
more. -/
def turned (t : Tables L T) (n : Nat) : Tables L T :=
  { t with entities := t.entities.turned n, scopes := t.scopes.turned n }

/-- The next entity and the next scope go to slots that were in use before, and the first slot is
not that of the next entity. -/
structure Turnable (t : Tables L T) : Prop where
  entities : t.entities.WellFormed
  scopes : t.scopes.WellFormed
  entity : ∃ i rest, t.entities.free = (i + 1) :: rest
  scope : t.scopes.free ≠ []

/-- Turned tables can be turned again. -/
theorem Turnable.turned (ht : t.Turnable) (n : Nat) : (t.turned n).Turnable where
  entities := ht.entities.turned n
  scopes := ht.scopes.turned n
  entity := (SlotTable.free_turned t.entities n).symm ▸ ht.entity
  scope := (SlotTable.free_turned t.scopes n).symm ▸ ht.scope

/-- The spare is found under the next handle. -/
theorem get?_entities_spare (ht : t.Turnable) :
    (t.place spare).2.entities.get? t.entities.next =
      some ((spare (L := L)).toEntity (.package t.scopes.next)) :=
  (SlotTable.get?_insert ht.entities _ _).trans (if_pos rfl)

/-- The spare can be released at once. -/
theorem isReleasable_spare (ht : t.Turnable) :
    (t.place spare).2.isReleasable t.entities.next = true := by
  obtain ⟨i, rest, hf⟩ := ht.entity
  have hroot : t.entities.next ≠ rootEntity := by
    unfold SlotTable.next
    rw [hf]
    rintro ⟨⟩
  unfold isReleasable
  rw [get?_entities_spare ht]
  simp [spare, Declaration.toEntity, hroot]

/-- A round leaves nothing but slots that have been emptied once more. -/
theorem discard_spare (ht : t.Turnable) :
    (t.place spare).2.discard t.entities.next = t.turned 1 := by
  obtain ⟨i, rest, hf⟩ := ht.entity
  unfold discard
  rw [get?_entities_spare ht]
  show ({ t with
    entities := (t.entities.insert _).erase t.entities.next
    scopes := (t.scopes.insert _).erase t.scopes.next } : Tables L T) = _
  rw [SlotTable.erase_insert_next ht.entities (by simp [hf]),
    SlotTable.erase_insert_next ht.scopes ht.scope]
  rfl

/-- Rounds add up. -/
theorem turned_turned (t : Tables L T) (m n : Nat) : (t.turned m).turned n = t.turned (m + n) := by
  simp only [turned, SlotTable.turned_turned]

@[simp] theorem turned_zero (t : Tables L T) : t.turned 0 = t := by
  simp only [turned, SlotTable.turned_zero]

end Tables

namespace Session

variable {s s₁ s' : Session L T W} {services : Services L T W} {c : ScopeId} {x y : Scope L T}
  {loader loader' : L} {act : Run L T W α} {r : Except Stop α}

/-- What a run comes to in one session, it comes to in those that differ in their journals. -/
theorem Blind.exists_run (hact : Blind act) (hrun : act.run s = (r, s₁)) (h : SameState s s') :
    ∃ s₁', act.run s' = (r, s₁') ∧ SameState s₁ s₁' := by
  obtain ⟨hanswer, hstate⟩ := hact s s' h
  rw [hrun] at hanswer hstate
  exact ⟨(act.run s').2, Prod.ext hanswer rfl, hstate⟩

/-! ## Rounds -/

/-- Declaring the spare answers with the next handle. -/
theorem run_declare_spare (ht : s.tables.Turnable) :
    ∃ event, (declare spare).run s =
      (.ok s.tables.entities.next, (s.placed spare).log event) := by
  have hset : (setTables (s.tables.place spare).2 : Run L T W Unit).run s =
      (.ok (), s.placed spare) := rfl
  unfold declare
  extract_lets jp
  have hjp : ∃ event, (jp none).run s =
      (.ok s.tables.entities.next, (s.placed spare).log event) := by
    unfold jp
    rw [run_bind_of_ok (run_getTables s)]
    dsimp only
    rw [run_bind_of_ok hset, Tables.place_fst]
    exact ⟨_, run_announce (Tables.get?_entities_spare ht)⟩
  exact hjp

/-- No loader is called in the rounds of a script. -/
theorem silent_churn (services : Services L T W) (n : Nat) :
    Silent ((Script.churn n).run services) := by
  induction n with
  | zero => exact silent_pure ()
  | succ n ih =>
    refine (edits_silent.declare spare).attempt.bind fun r => ?_
    cases r with
    | ok e => exact (edits_silent.release e).bind fun _ => ih
    | error f => exact silent_pure ()

/-- The rounds of a script turn the tables that often, by induction on their number. -/
theorem run_churn (services : Services L T W) (n : Nat) (ht : s.tables.Turnable) :
    ∃ s', ((Script.churn n).run services).run s = (.ok (), s') ∧
      SameState { s with tables := s.tables.turned n } s' := by
  induction n generalizing s with
  | zero =>
    refine ⟨s, rfl, ?_⟩
    rw [Tables.turned_zero]
    exact .refl s
  | succ n ih =>
    obtain ⟨event, hdeclare⟩ := run_declare_spare ht
    have hanswer : (attempt (declare spare)).run s =
        (.ok (.ok s.tables.entities.next), (s.placed spare).log event) := by
      rw [run_attempt, hdeclare]
    have hrelease := (run_release ((s.placed spare).log event) s.tables.entities.next).trans
      (if_pos (Tables.isReleasable_spare ht))
    have hdiscard : ((s.placed spare).log event).tables.discard s.tables.entities.next =
        s.tables.turned 1 := Tables.discard_spare ht
    rw [hdiscard] at hrelease
    obtain ⟨s', hrun, hstate⟩ := ih (s := { s with
      tables := s.tables.turned 1
      journal := .noted (.released s.tables.entities.next) :: event :: s.journal }) (ht.turned 1)
    refine ⟨s', ?_, ?_⟩
    · show (attempt (declare spare) >>= _).run s = _
      rw [run_bind_of_ok hanswer]
      show (release s.tables.entities.next >>= _).run _ = _
      rw [run_bind_of_ok hrelease]
      exact hrun
    · rw [Tables.turned_turned, Nat.add_comm] at hstate
      exact ⟨hstate.tables, hstate.gone, hstate.world⟩

/-! ## Histories -/

/-- What a host does leads to a later session. -/
theorem Later.after (h : Later s s') (host : Host L T W) (fuel : Nat)
    (ops : List (Operation L T)) : Later s (host.after fuel ops s') := by
  induction ops generalizing s' with
  | nil => exact h
  | cons op ops ih => exact ih (h.perform host fuel op)

/-- So does what a script does. -/
theorem later_run (host : Host L T W) (fuel : Nat) (script : Script L T W α)
    (s : Session L T W) : Later s (host.run fuel script s).2 := by
  induction script generalizing s with
  | done a => exact .refl s
  | fault f => exact .refl s
  | call op next ih =>
    have hop : Later s (host.perform fuel op s).2 := (Later.refl s).perform host fuel op
    show Later s ((op.perform (host.services fuel) >>= fun a =>
      (next a).run (host.services fuel)).run s).2
    rw [run_bind]
    rcases hr : (op.perform (host.services fuel)).run s with ⟨_ | a, s₁⟩
    · exact (congrArg Prod.snd hr).symm ▸ hop
    · exact ((congrArg Prod.snd hr).symm ▸ hop).trans (ih a s₁)
  | inspect next ih => exact ih _ s
  | readWorld next ih => exact ih _ s
  | writeWorld w next ih => exact ((Later.refl s).step (.change (.world s w))).trans (ih _)
  | remark text next ih => exact ((Later.refl s).step (.change (.event s id))).trans (ih _)

/-- And so does a loader that is called. -/
theorem later_load (host : Host L T W) (fuel : Nat) (loader : L) (c : ScopeId)
    (request : Option NamePart) (s : Session L T W) :
    Later s (((host.services (fuel + 1)).load loader c request).run s).2 :=
  later_run host fuel (host.load loader c request) s

/-! ## Loading -/

/-- A full load that comes too early leaves the scope with the loader and unloaded, whatever became
of the tables while the loader ran. The session in which the loader has answered lies in between. -/
theorem run_forceLoad_of_notReady (hx : s.tables.scopes.get? c = some x)
    (hstate : x.state = .unloaded) (hl : x.loader = some loader)
    (hload : ∀ s', Begins c none s s' →
      ∃ s₁', (services.load loader c none).run s' = (.ok (.notReady, loader'), s₁') ∧
        SameState s₁ s₁' ∧ Uncalled s' s₁' ∧ Later s' s₁')
    (hy : s₁.tables.scopes.get? c = some y) :
    ∃ s₀ s', (forceLoad services c).run s = (.ok (), s') ∧ SameState s₁ s₀ ∧ Later s s₀ ∧
      Later s₀ s' ∧
      SameState (s₁.mapScope c fun y => { y with loader := some loader', state := .unloaded })
        s' := by
  obtain ⟨n, hforce⟩ := run_forceLoad_of_loader services hx hstate hl
  have hb : Begins c none s _ := .intro n hx hl (by simp [hstate]) fun _ => hstate
  obtain ⟨s₂, hcall, hs₂, hq, hlater⟩ := hload _ hb
  have hy₂ : s₂.tables.scopes.get? c = some y :=
    (congrArg (fun t : Tables L T => t.scopes.get? c) hs₂.tables).trans hy
  have hp : pending c s₂.journal = some none := (hq.pending c).trans (if_pos rfl)
  have hf : Finishes c none s₂ _ := .intro loader' .notReady hy₂
  have hback := get?_mapScope (s := s₂.log (.loadEnded c .notReady)) hy₂ fun y =>
    { y with loader := some loader' }
  obtain ⟨n', hend⟩ := run_setState_note hback .unloaded .notReady x.entity
  rw [mapScope_mapScope] at hend
  have hrest : (callLoader services c loader none >>= endFull c x.entity).run _ = _ :=
    (run_bind_of_ok (run_callLoader services hcall hy₂) _).trans hend
  refine ⟨s₂, _, hforce.trans hrest, hs₂, ((Later.refl s).step (.begins hb)).trans hlater,
    ((Later.refl s₂).step (.finishes hp hf)).step (.change (.event _ id)), ?_⟩
  have h := hs₂.mapScope c fun y => { y with loader := some loader', state := .unloaded }
  exact ⟨h.tables, h.gone, h.world⟩

/-! ## A session whose handles have come round -/

/-- A type for the root scope. -/
def newcomer : Declaration Unit :=
  { name := "T", params := [], kind := .type none, location := .unknown }

/-- A type is defined whose scope has the handle that was given to the loader. There is nothing to
load in it, so it counts as loaded once that is asked. The loader reports that it came too early. -/
def takeSeat (c : ScopeId) : Script Unit Unit Unit (LoadReply Unit × Unit) :=
  .call (.define rootScope newcomer) fun _ => .call (.forceLoad c) fun _ => .done (.notReady, ())

/-- Asked for one part, a loader declares a variable of that name. Asked for everything, it releases
the package that it is to load, and gives the handles of the package to a type. -/
def usurpingHost : Host Unit Unit Unit where
  templateName _ := ""
  generate _ _ _ _ := none
  load loader c
    | some part => .done (.batch
        [{ name := part.text, params := [], kind := .var .void, location := .unknown }], loader)
    | none => .call (.release ⟨1, 0⟩) fun _ =>
        (Script.churn (UInt32.size - 1)).bind fun _ => takeSeat c

/-- A package with such a loader, which nobody owns, with a type in it; and two more types, of which
each has the one before as its parameter. -/
def besieged : Session Unit Unit Unit :=
  let type (name : String) (params : List Param) : Declaration Unit :=
    { name, params, kind := .type none, location := .unknown }
  usurpingHost.after 1
    [.declare { name := "p", params := [], kind := .package (some ()), location := .unknown },
      .define ⟨1, 0⟩ (type "q" []), .define rootScope (type "r" [.value ⟨2, 0⟩]),
      .define rootScope (type "Box" [.value ⟨3, 0⟩])] (start {} ())

/-- The package is loading, and its loader has been called. -/
def underway : Session Unit Unit Unit :=
  besieged.mapScope ⟨1, 0⟩ fun x => { x with loader := none, state := .loading }

/-- The package has been released, and the slots of its handles have been emptied as often as
generations can tell apart. -/
def vacant : Session Unit Unit Unit :=
  { underway with tables := (underway.tables.discard ⟨1, 0⟩).turned (UInt32.size - 1) }

/-- The type has been defined. -/
def crowned : Session Unit Unit Unit :=
  ((define rootScope newcomer).run vacant).2

/-- Its scope counts as loaded, and the loader is about to answer. -/
def seated : Session Unit Unit Unit :=
  crowned.mapScope ⟨1, 0⟩ fun x => { x with state := .loaded }

/-- The type is there, and its scope has the loader. -/
def throne : Session Unit Unit Unit :=
  seated.mapScope ⟨1, 0⟩ fun x => { x with loader := some (), state := .unloaded }

/-- The siege is a later session. -/
theorem later_besieged : Later (start {} ()) besieged :=
  (Later.refl _).after usurpingHost 1 _

/-- While the load is under way its package can be released. -/
theorem isReleasable_underway : underway.tables.isReleasable ⟨1, 0⟩ = true := by
  decide +kernel

/-- What the release leaves can be turned. -/
theorem turnable_discard_underway : (underway.tables.discard ⟨1, 0⟩).Turnable := by
  have hf : besieged.tables.Formed := later_besieged.formed (.start {})
  have hunderway : underway.tables.Formed :=
    ⟨hf.entities, hf.scopes.modify ⟨1, 0⟩ _, hf.root⟩
  have ht := hunderway.discard (Tables.loose_of_isReleasable isReleasable_underway)
  exact ⟨ht.entities, ht.scopes, ⟨0, [], by decide +kernel⟩, by decide +kernel⟩

/-- The vacant seat is taken without calling a loader. -/
theorem run_takeSeat {s : Session Unit Unit Unit} (services : Services Unit Unit Unit)
    (h : SameState vacant s) :
    ∃ s', ((takeSeat ⟨1, 0⟩).run services).run s = (.ok (.notReady, ()), s') ∧
      SameState seated s' ∧ Uncalled s s' := by
  have hanswer : ((define rootScope newcomer).run vacant).1 = .ok ⟨1, 0⟩ := by decide +kernel
  have hcrowned : (define rootScope newcomer).run vacant = (.ok ⟨1, 0⟩, crowned) := by
    rw [← hanswer]
    exact (Prod.eta _).symm
  obtain ⟨s₁, hdefine, h₁⟩ := (edits_blind.define rootScope newcomer).exists_run hcrowned h
  have hscope : (crowned.tables.scopes.get? ⟨1, 0⟩).map (fun x => (x.state, x.loader)) =
      some (.unloaded, none) := by decide +kernel
  obtain ⟨x, hx, hx'⟩ := Option.map_eq_some_iff.1 hscope
  obtain ⟨hstate, hl⟩ := Prod.ext_iff.1 hx'
  have hx₁ : s₁.tables.scopes.get? ⟨1, 0⟩ = some x :=
    (congrArg (fun t : Tables Unit Unit => t.scopes.get? ⟨1, 0⟩) h₁.tables).trans hx
  have hforce := run_forceLoad_of_loader_none services hx₁ hstate hl
  refine ⟨_, ?_, h₁.mapScope ⟨1, 0⟩ _,
    ((edits_silent.define rootScope newcomer).uncalled hdefine).trans (.of_journal_eq rfl)⟩
  show (attempt (define rootScope newcomer) >>= _).run s = _
  rw [run_bind_of_ok (run_attempt_of_mapError (r := .ok _) hdefine)]
  exact run_bind_of_ok (run_attempt_of_mapError (r := .ok ()) hforce) _

/-- The loader gives the handles of the package to the type, and calls no loader. -/
theorem run_load_underway {s : Session Unit Unit Unit} (h : SameState underway s) :
    ∃ s', ((usurpingHost.services 2).load () ⟨1, 0⟩ none).run s = (.ok (.notReady, ()), s') ∧
      SameState seated s' ∧ Uncalled s s' := by
  have hrelease := (run_release underway ⟨1, 0⟩).trans (if_pos isReleasable_underway)
  obtain ⟨s₁, hrelease, h₁⟩ := (edits_blind.release ⟨1, 0⟩).exists_run hrelease h
  obtain ⟨s₂, hchurn, h₂⟩ := run_churn (usurpingHost.services 1) (UInt32.size - 1)
    (s := s₁) (h₁.tables ▸ turnable_discard_underway)
  have hvacant : SameState vacant s₂ := by
    have hturned := congrArg (fun t : Tables Unit Unit => t.turned (UInt32.size - 1)) h₁.tables
    exact ⟨h₂.tables.trans hturned, h₂.gone.trans h₁.gone, h₂.world.trans h₁.world⟩
  obtain ⟨s₃, htake, h₃, hq⟩ := run_takeSeat (usurpingHost.services 1) hvacant
  have hquiet : Silent (release ⟨1, 0⟩ : Run Unit Unit Unit Bool) := edits_silent.release _
  refine ⟨s₃, ?_, h₃, (hquiet.uncalled hrelease).trans
    (((silent_churn _ _).uncalled hchurn).trans hq)⟩
  generalize hloader : (usurpingHost.services 2).load () ⟨1, 0⟩ none = load
  have hload : load = release ⟨1, 0⟩ >>= fun _ =>
      ((Script.churn (UInt32.size - 1)).bind fun _ => takeSeat ⟨1, 0⟩).run
        (usurpingHost.services 1) := hloader.symm
  rw [hload, run_bind_of_ok hrelease, run_bind_script, run_bind_of_ok hchurn, htake]

/-- The package is asked to load everything. The session in which its loader has answered is as
described but for the journal, and so is the one that comes of it : the loader is back in a scope
that was not its own. -/
theorem exists_seated :
    ∃ s₀ s, usurpingHost.perform 2 (.forceLoad ⟨1, 0⟩) besieged = (.ok (.ok ()), s) ∧
      SameState seated s₀ ∧ Later besieged s₀ ∧ Later s₀ s ∧ SameState throne s := by
  obtain ⟨x, hx, hstate, hl⟩ : ∃ x, besieged.tables.scopes.get? ⟨1, 0⟩ = some x ∧
      x.state = .unloaded ∧ x.loader = some () := ⟨_, rfl, rfl, rfl⟩
  have hy : (seated.tables.scopes.get? ⟨1, 0⟩).isSome = true := by decide +kernel
  obtain ⟨y, hy⟩ := Option.isSome_iff_exists.1 hy
  obtain ⟨s₀, s, hrun, h⟩ := run_forceLoad_of_notReady hx hstate hl (fun s' hb => by
    have hs' : SameState underway s' := by
      cases hb with
      | intro n hx hl hs hr => exact ⟨rfl, rfl, rfl⟩
    obtain ⟨s₁, hload, h₁, hq⟩ := run_load_underway hs'
    refine ⟨s₁, hload, h₁, hq, ?_⟩
    have hlater : Later s' (((usurpingHost.services 2).load () ⟨1, 0⟩ none).run s').2 :=
      later_load usurpingHost 1 () ⟨1, 0⟩ none s'
    rwa [hload] at hlater) hy
  exact ⟨s₀, s, run_attempt_of_mapError (r := .ok ()) hrun, h⟩

/-- So the loader has gone to another scope in the end. -/
theorem exists_usurped :
    ∃ s, usurpingHost.perform 2 (.forceLoad ⟨1, 0⟩) besieged = (.ok (.ok ()), s) ∧
      SameState throne s := by
  obtain ⟨-, s, hrun, -, -, -, h⟩ := exists_seated
  exact ⟨s, hrun, h⟩

end Session

end NameResolution
