import NameResolution.Proofs.Session.Closure
import NameResolution.Proofs.Session.Moves.Declaring

/-!
# Every operation moves a session

Loading and finding are made of steps that move a session, so they move it if the loaders
do (`loads_roams`, `closed_roams`). Operations are made of these runs (`roams_perform`), scripts
are made of operations (`roams_script`), and the services of a host run scripts
(`roaming_services`) : whatever a host does for an allowed operation are allowed moves
(`moves_perform`), and so is a whole history (`Reaches.moves`).
-/

namespace NameResolution

namespace Session

variable {L T W α : Type} {allowed : Operation L T → Prop} {s s' : Session L T W}
  {services : Services L T W}

/-- Every call of a loader moves the session. -/
def Roaming (allowed : Operation L T → Prop) (services : Services L T W) : Prop :=
  ∀ loader c request, Roams allowed (services.load loader c request)

theorem composes_roams : Composes (L := L) (T := T) (W := W) (Roams allowed) where
  pure := roams_pure
  bind := Roams.bind
  outOfFuel := roams_throw _
  getTables := roams_getTables
  scope _ := roams_ask _
  entity _ := roams_ask _

/-! ## Loading -/

theorem roams_setState (c : ScopeId) (state : LoadState) :
    Roams allowed (setState c state : Run L T W Unit) :=
  roams_modifyScope fun s => .loading s c (fun _ => state) id

theorem roams_takeLoader (c : ScopeId) : Roams allowed (takeLoader c : Run L T W (Option L)) := by
  refine (roams_ask _).bind fun x => ?_
  exact (roams_modifyScope fun s => .loading s c id fun _ => none).bind fun _ => roams_pure _

/-- What a loader does within the allowed operations is made of moves. -/
theorem roams_callLoader (hs : Roaming allowed services) (c : ScopeId) (loader : L)
    (request : Option NamePart) : Roams allowed (callLoader services c loader request) := by
  refine (roams_record id).bind fun _ => (hs loader c request).bind fun answer => ?_
  refine (roams_record id).bind fun _ => ?_
  exact (roams_modifyScope fun s => .loading s c id fun _ => some answer.2).bind fun _ =>
    roams_pure _

theorem roams_defineAll (c : ScopeId) (ds : List (Declaration L)) :
    Roams allowed (defineAll c ds : Run L T W Unit) := by
  induction ds with
  | nil => exact roams_pure _
  | cons d ds ih =>
    refine (roams_define c d).attempt.bind fun r => ?_
    cases r with
    | ok e => exact ih
    | error f => exact (roams_note _).bind fun _ => roams_fail f

theorem loads_roams (hs : Roaming allowed services) : Loads services (Roams allowed) where
  toComposes := composes_roams
  note := roams_note
  setState := roams_setState
  takeLoader := roams_takeLoader
  callLoader := roams_callLoader hs
  defineAll := roams_defineAll

/-! ## Parts with a signature -/

theorem roams_consult (services : Services L T W) (params : List Param) (ts : List T) :
    Roams allowed (consult services params ts) := by
  induction ts with
  | nil => exact roams_pure _
  | cons t ts ih =>
    exact roams_get.bind fun _ => (roams_record id).bind fun _ => ih.bind fun _ => roams_pure _

/-- That templates are asked is told to nobody. -/
theorem unheard_consult (services : Services L T W) (params : List Param) (ts : List T)
    (s : Session L T W) : Unheard s ((consult services params ts).run s).2 := by
  rw [run_consult]
  refine ⟨_, rfl, fun event hevent => ?_⟩
  obtain ⟨template, -, rfl⟩ := List.mem_map.1 (List.mem_reverse.1 hevent)
  exact id

theorem roams_instantiate (services : Services L T W) (c : ScopeId) (ts : List T) (name : String)
    (params : List Param) (location : Location) :
    Roams allowed (instantiate services c ts name params location) := by
  refine (roams_consult services params ts).bind fun ds => ?_
  split
  · exact roams_pure _
  · refine roams_declare_bind _ fun e s hs he => ?_
    rw [run_bind_of_ok (run_getTables s)]
    extract_lets jp
    have hjp : Roams allowed (jp ()) :=
      roams_getTables.bind fun _ => (roams_note _).bind fun _ => roams_pure _
    split_ifs
    · have hmoves := moves_undoing_add allowed he c
      rw [run_bind]
      generalize (undoing (discard e) (add c e)).run s = r at hmoves
      obtain ⟨stop | u, s'⟩ := r
      · exact hmoves
      · exact hmoves.trans (hjp s' (hmoves.matched hs))
    · exact hjp s hs
  · exact roams_fail _

theorem roams_resolveOverload (services : Services L T W) (c : ScopeId) (name : String)
    (params : List Param) (location : Location) :
    Roams allowed (resolveOverload services c name params location) :=
  composes_roams.resolveOverload fun ts => roams_instantiate services c ts name params location

/-- Moving is closed under all that operations are made of. -/
theorem closed_roams (hs : Roaming allowed services) : Closed services (Roams allowed) where
  toComposes := composes_roams
  findSimple c name params :=
    composes_roams.findSimple (roams_resolveOverload services c name params _)
      ((loads_roams hs).loadPart c) ((loads_roams hs).forceLoad c)
  fail := roams_fail
  resolveOverload := roams_resolveOverload services

theorem roams_requireReporting (hs : Roaming allowed services) (c : ScopeId) (n : QualifiedName)
    (location : Location) : Roams allowed (requireReporting services c n location) := by
  refine ((closed_roams hs).require c n location).attempt.bind fun r => ?_
  split
  · exact roams_pure _
  · exact roams_pure _

/-! ## Operations, scripts and hosts -/

theorem roams_perform (hs : Roaming allowed services) {op : Operation L T} (hop : allowed op) :
    Roams allowed (op.perform services) := by
  have hc := closed_roams hs
  cases op with
  | declare d => exact (roams_declare d).attempt
  | add c e => exact (roams_add c e).attempt
  | define c d => exact (roams_define c d).attempt
  | defineReporting c ds => exact roams_defineReporting c ds
  | addTemplate c template => exact roams_modifyScope fun s => .template s c _ template
  | release e => exact roams_release e
  | watch c o => exact roams_modifyScope fun s => .watch s hop
  | unwatch c o => exact roams_modifyScope fun s => .unwatch s hop
  | drop o => exact fun s _ => .single (.drop s hop)
  | setSuper e parent => exact (roams_setSuper e parent).attempt
  | clearSuper e => exact (roams_clearSuper e).attempt
  | forceLoad c => exact ((loads_roams hs).forceLoad c).attempt
  | simplify c p => exact ((hc.signature p c).bind fun _ => roams_pure _).attempt
  | tryFind c p => exact (hc.tryFind c p).attempt
  | find c p => exact (hc.find c p).attempt
  | resolveOverload c name params location =>
    exact (roams_resolveOverload services c name params location).attempt
  | findName c n => exact (hc.findName n c).attempt
  | lookup c n => exact (hc.lookup c n).attempt
  | require c n location => exact (hc.require c n location).attempt
  | requireReporting c n location => exact roams_requireReporting hs c n location
  | findMember e p => exact ((roams_ask _).bind fun _ => hc.findInFirst p _).attempt
  | readMangled text => exact (hc.readMangled text).attempt
  | decode c text => exact (hc.decode c text).attempt

theorem roams_script (hs : Roaming allowed services) {script : Script L T W α}
    (h : script.Within allowed) : Roams allowed (script.run services) := by
  induction script with
  | done a => exact roams_pure a
  | fault f => exact roams_throw _
  | call op next ih => exact (roams_perform hs h.1).bind fun answer => ih answer (h.2 answer)
  | inspect next ih => exact roams_get.bind fun s => ih s.tables (h s.tables)
  | readWorld next ih => exact roams_get.bind fun s => ih s.world (h s.world)
  | writeWorld w next ih =>
    have hwrite : Roams allowed (modify fun s => { s with world := w } : Run L T W Unit) :=
      fun s _ => .single (.world s w)
    exact hwrite.bind fun _ => ih h
  | remark text next ih => exact (roams_record id).bind fun _ => ih h

/-- Loaders that keep within the allowed operations move the session, however deep their calls are
nested. -/
theorem roaming_services {host : Host L T W} (hhost : host.Within allowed) (fuel : Nat) :
    Roaming allowed (host.services fuel) := by
  induction fuel with
  | zero => exact fun _ _ _ => roams_throw _
  | succ fuel ih => exact fun loader c request => roams_script ih (hhost loader c request)

/-- What a host does to a session for an allowed operation are allowed moves. -/
theorem moves_perform {host : Host L T W} (hhost : host.Within allowed) (fuel : Nat)
    {op : Operation L T} (hop : allowed op) (hs : s.tables.Matched) :
    Moves allowed s (host.perform fuel op s).2 :=
  roams_perform (roaming_services hhost fuel) hop s hs

/-- A history is a sequence of moves. -/
theorem Reaches.moves (h : Reaches allowed s s') (hs : s.tables.Matched) :
    Moves allowed s s' := by
  induction h with
  | refl => exact .refl
  | perform _ hhost fuel hop ih => exact ih.trans (moves_perform hhost fuel hop (ih.matched hs))
  | move _ hmove ih => exact ih.tail hmove

/-- Tables within reach of matched ones are matched. -/
theorem Reaches.matched (h : Reaches allowed s s') (hs : s.tables.Matched) : s'.tables.Matched :=
  (h.moves hs).matched hs

end Session

end NameResolution
