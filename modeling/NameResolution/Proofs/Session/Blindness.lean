import NameResolution.Proofs.Session.Closure
import NameResolution.Proofs.Session.Runs

/-!
# Nobody reads the journal

Two sessions are in one state if they differ in their journals at most (`SameState`). A run that is
begun in the one and in the other comes to the same, and leaves them in one state again (`Blind`) :
the journal is written and never read. That is put together along the program like the run itself,
and it holds of every operation, whatever loaders do meanwhile (`sameState_perform`).
-/

namespace NameResolution

namespace Session

variable {L T W α β : Type}

/-- The sessions differ in their journals at most. -/
structure SameState (s s' : Session L T W) : Prop where
  tables : s'.tables = s.tables
  gone : s'.gone = s.gone
  world : s'.world = s.world

variable {s s' s₁ s₂ s₃ : Session L T W}

theorem SameState.refl (s : Session L T W) : SameState s s :=
  ⟨rfl, rfl, rfl⟩

theorem SameState.symm (h : SameState s s') : SameState s' s :=
  ⟨h.tables.symm, h.gone.symm, h.world.symm⟩

theorem SameState.trans (h : SameState s₁ s₂) (h' : SameState s₂ s₃) : SameState s₁ s₃ :=
  ⟨h'.tables.trans h.tables, h'.gone.trans h.gone, h'.world.trans h.world⟩

/-- What is done to a scope in both keeps them so. -/
theorem SameState.mapScope (h : SameState s s') (c : ScopeId) (f : Scope L T → Scope L T) :
    SameState (s.mapScope c f) (s'.mapScope c f) :=
  ⟨tables_mapScope_congr h.tables f, h.gone, h.world⟩

/-- The run does not depend on the journal. -/
def Blind (act : Run L T W α) : Prop :=
  ∀ s s', SameState s s' →
    (act.run s').1 = (act.run s).1 ∧ SameState (act.run s).2 (act.run s').2

variable {act x : Run L T W α} {f : α → Run L T W β} {undo : Run L T W Unit}
  {services : Services L T W}

/-! ## Steps -/

theorem blind_pure (a : α) : Blind (pure a : Run L T W α) :=
  fun _ _ h => ⟨rfl, h⟩

theorem blind_throw (stop : Stop) : Blind (throw stop : Run L T W α) :=
  fun _ _ h => ⟨rfl, h⟩

theorem blind_fail (e : Failure) : Blind (fail e : Run L T W α) :=
  blind_throw _

theorem blind_record (event : Event T) : Blind (record event : Run L T W Unit) :=
  fun _ _ h => ⟨rfl, h.tables, h.gone, h.world⟩

theorem blind_note (n : Note) : Blind (note n : Run L T W Unit) :=
  blind_record _

theorem blind_setTables (t : Tables L T) : Blind (setTables t : Run L T W Unit) :=
  fun _ _ h => ⟨rfl, rfl, h.gone, h.world⟩

theorem blind_getTables : Blind (getTables : Run L T W (Tables L T)) :=
  fun _ _ h => ⟨congrArg Except.ok h.tables, h⟩

/-- A question is about the tables, so it is blind. -/
theorem blind_ask (question : Tables L T → Except Stop α) :
    Blind (ask question : Run L T W α) := by
  intro s s' h
  rw [run_ask, run_ask, h.tables]
  exact ⟨rfl, h⟩

/-- What goes on blindly after a blind run is blind. -/
theorem Blind.bind (hx : Blind x) (hf : ∀ a, Blind (f a)) : Blind (x >>= f) := by
  intro s s' h
  obtain ⟨hanswer, hstate⟩ := hx s s' h
  rw [run_bind, run_bind]
  generalize x.run s = r at hanswer hstate
  generalize x.run s' = r' at hanswer hstate
  obtain ⟨stop | a, s₁⟩ := r
  all_goals
    obtain ⟨_, s₁'⟩ := r'
    cases hanswer
  · exact ⟨rfl, hstate⟩
  · exact hf a s₁ s₁' hstate

/-- What depends on the whole session may not depend on its journal. -/
theorem Blind.get_bind {f : Session L T W → Run L T W β} (hf : ∀ s, Blind (f s))
    (hcongr : ∀ s s', SameState s s' → f s' = f s) : Blind (get >>= f) := by
  intro s s' h
  have hrun (s : Session L T W) : (get >>= f).run s = (f s).run s := rfl
  rw [hrun, hrun, hcongr s s' h]
  exact hf s s s' h

theorem Blind.map (hx : Blind x) (g : α → β) : Blind (g <$> x) := by
  rw [map_eq_pure_bind]
  exact hx.bind fun a => blind_pure _

theorem Blind.attempt (h : Blind act) : Blind (attempt act) := by
  intro s s' hs
  obtain ⟨hanswer, hstate⟩ := h s s' hs
  rw [run_attempt, run_attempt]
  generalize act.run s = r at hanswer hstate
  generalize act.run s' = r' at hanswer hstate
  obtain ⟨(_ | _ | _) | _, s₁⟩ := r
  all_goals
    obtain ⟨_, s₁'⟩ := r'
    cases hanswer
    exact ⟨rfl, hstate⟩

theorem Blind.undoing (hundo : Blind undo) (h : Blind act) : Blind (undoing undo act) := by
  refine h.attempt.bind fun r => ?_
  cases r with
  | ok a => exact blind_pure a
  | error e => exact hundo.bind fun _ => blind_fail e

theorem blind_modifyScope (c : ScopeId) (g : Scope L T → Scope L T) :
    Blind (modifyScope c g : Run L T W Unit) :=
  (blind_ask _).bind fun _ => blind_getTables.bind fun _ => blind_setTables _

/-! ## Declaring -/

/-- Everything that edits the tables is blind. -/
theorem edits_blind : Edits (L := L) (T := T) (W := W) Blind where
  pure := blind_pure
  bind := Blind.bind
  outOfFuel := blind_throw _
  getTables := blind_getTables
  scope _ := blind_ask _
  entity _ := blind_ask _
  session hf hcongr := Blind.get_bind hf fun s s' h => by
    obtain ⟨tables, journal, gone, world⟩ := s'
    obtain ⟨rfl, rfl, rfl⟩ := h
    exact hcongr s journal
  typeNode _ := blind_ask _
  setParent _ _ := blind_ask _
  attach _ _ := blind_ask _
  setTables := blind_setTables
  note := blind_note
  notified _ _ _ _ := blind_record _
  consulted _ _ _ := blind_record _
  undoing := Blind.undoing
  ambiguous _ _ _ := blind_fail _

theorem blind_defineReporting (c : ScopeId) (ds : List (Declaration L)) :
    Blind (defineReporting c ds : Run L T W (List EntityId × Report)) := by
  induction ds with
  | nil => exact blind_pure _
  | cons d ds ih =>
    refine (edits_blind.define c d).attempt.bind fun r => ?_
    cases r with
    | ok e => exact ih.bind fun _ => blind_pure _
    | error f => exact (blind_note _).bind fun _ => ih.bind fun _ => blind_pure _

theorem blind_drop (observer : ObserverId) : Blind (drop observer : Run L T W Unit) :=
  fun _ _ h => ⟨rfl, h.tables, congrArg (observer :: ·) h.gone, h.world⟩

theorem blind_relinking (question : Tables L T → Except Stop (Option Forest.Change)) :
    Blind (do
      match ← ask question with
      | some change =>
        changeForest change
        return true
      | none => return false : Run L T W Bool) := by
  refine (blind_ask question).bind fun change => ?_
  split
  · exact (edits_blind.changeForest _).bind fun _ => blind_pure true
  · exact blind_pure false

theorem blind_setSuper (e : EntityId) (parent : Option EntityId) :
    Blind (setSuper e parent : Run L T W Bool) := by
  refine (blind_ask _).bind fun node => ?_
  cases parent with
  | some p => exact ((blind_ask _).map some).bind fun parent => blind_relinking _
  | none => exact (blind_pure none).bind fun parent => blind_relinking _

theorem blind_clearSuper (e : EntityId) : Blind (clearSuper e : Run L T W Bool) :=
  (blind_ask _).bind fun _ => blind_relinking _

/-! ## Loading -/

/-- No call of a loader depends on the journal. -/
def BlindLoads (services : Services L T W) : Prop :=
  ∀ loader c request, Blind (services.load loader c request)

theorem blind_callLoader (hs : BlindLoads services) (c : ScopeId) (loader : L)
    (request : Option NamePart) : Blind (callLoader services c loader request) :=
  (blind_record _).bind fun _ => (hs loader c request).bind fun _ =>
    (blind_record _).bind fun _ => (blind_modifyScope c _).bind fun _ => blind_pure _

theorem blind_defineAll (c : ScopeId) (ds : List (Declaration L)) :
    Blind (defineAll c ds : Run L T W Unit) := by
  induction ds with
  | nil => exact blind_pure ()
  | cons d ds ih =>
    refine (edits_blind.define c d).attempt.bind fun r => ?_
    cases r with
    | ok e => exact ih
    | error f => exact (blind_note _).bind fun _ => blind_fail f

/-- Loading is blind, as long as the loaders are. -/
theorem loads_blind (hs : BlindLoads services) : Loads services Blind :=
  edits_blind.loads (blind_callLoader hs) blind_defineAll

/-! ## Finding -/

/-- Whatever is found, looked up or read is found blindly. -/
theorem closed_blind (hs : BlindLoads services) : Closed services Blind where
  toComposes := edits_blind.toComposes
  findSimple c name params :=
    edits_blind.findSimple (edits_blind.resolveOverload services c name params _)
      ((loads_blind hs).loadPart c) ((loads_blind hs).forceLoad c)
  fail := blind_fail
  resolveOverload := edits_blind.resolveOverload services

theorem blind_requireReporting (hs : BlindLoads services) (c : ScopeId) (n : QualifiedName)
    (location : Location) : Blind (requireReporting services c n location) := by
  refine ((closed_blind hs).require c n location).attempt.bind fun r => ?_
  split
  · exact blind_pure _
  · exact blind_pure _

/-! ## Operations, scripts and hosts -/

theorem blind_perform (hs : BlindLoads services) (op : Operation L T) :
    Blind (op.perform services) := by
  have hc := closed_blind hs
  cases op with
  | declare d => exact (edits_blind.declare d).attempt
  | add c e => exact (edits_blind.add c e).attempt
  | define c d => exact (edits_blind.define c d).attempt
  | defineReporting c ds => exact blind_defineReporting c ds
  | addTemplate c template => exact blind_modifyScope c _
  | release e => exact edits_blind.release e
  | watch c o => exact blind_modifyScope c _
  | unwatch c o => exact blind_modifyScope c _
  | drop o => exact blind_drop o
  | setSuper e parent => exact (blind_setSuper e parent).attempt
  | clearSuper e => exact (blind_clearSuper e).attempt
  | forceLoad c => exact ((loads_blind hs).forceLoad c).attempt
  | simplify c p => exact ((hc.signature p c).bind fun _ => blind_pure _).attempt
  | tryFind c p => exact (hc.tryFind c p).attempt
  | find c p => exact (hc.find c p).attempt
  | resolveOverload c name params location =>
    exact (hc.resolveOverload c name params location).attempt
  | findName c n => exact (hc.findName n c).attempt
  | lookup c n => exact (hc.lookup c n).attempt
  | require c n location => exact (hc.require c n location).attempt
  | requireReporting c n location => exact blind_requireReporting hs c n location
  | findMember e p => exact ((blind_ask _).bind fun _ => hc.findInFirst p _).attempt
  | readMangled text => exact (hc.readMangled text).attempt
  | decode c text => exact (hc.decode c text).attempt

theorem blind_script (hs : BlindLoads services) (script : Script L T W α) :
    Blind (script.run services) := by
  induction script with
  | done a => exact blind_pure a
  | fault f => exact blind_throw _
  | call op next ih => exact (blind_perform hs op).bind ih
  | inspect next ih =>
    exact Blind.get_bind (fun s => ih s.tables) fun s s' h => by rw [h.tables]
  | readWorld next ih =>
    exact Blind.get_bind (fun s => ih s.world) fun s s' h => by rw [h.world]
  | writeWorld w next ih =>
    have hwrite : Blind (modify fun s => { s with world := w } : Run L T W Unit) :=
      fun _ _ h => ⟨rfl, h.tables, h.gone, rfl⟩
    exact hwrite.bind fun _ => ih
  | remark text next ih => exact (blind_record _).bind fun _ => ih

/-- A loader cannot look at the journal, however deep its calls are nested. -/
theorem blind_services (host : Host L T W) (fuel : Nat) : BlindLoads (host.services fuel) := by
  induction fuel with
  | zero => exact fun _ _ _ => blind_throw _
  | succ fuel ih => exact fun loader c request => blind_script ih _

/-- Sessions in one state answer alike, and are in one state again afterwards. -/
theorem sameState_perform (h : SameState s s') (host : Host L T W) (fuel : Nat)
    (op : Operation L T) :
    (host.perform fuel op s').1 = (host.perform fuel op s).1 ∧
      SameState (host.perform fuel op s).2 (host.perform fuel op s').2 :=
  blind_perform (blind_services host fuel) op s s' h

end Session

end NameResolution
