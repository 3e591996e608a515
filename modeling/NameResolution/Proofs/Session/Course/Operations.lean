import NameResolution.Proofs.Session.Closure
import NameResolution.Proofs.Session.Course.Loading

/-!
# Every operation follows a course

Finding consults templates, declares what they make, and loads; it follows a course
because these do (`closed_covered`). Operations are made of these runs (`unfailing_perform`),
scripts are made of operations (`unfailing_script`), and the services of a host run scripts
(`obeys_services`) : whatever a host does to a session is a course (`course_perform`).
-/

namespace NameResolution

namespace Session

variable {L T W α β : Type} {s : Session L T W} {c : ScopeId} {services : Services L T W}

/-! ## Parts with a signature -/

theorem covered_consult (services : Services L T W) (params : List Param) (ts : List T) :
    Covered (consult services params ts) := by
  induction ts with
  | nil => exact covered_pure _
  | cons t ts ih =>
    refine fun s => Follows.get_bind ?_
    exact (unfailing_record id).covered.bind (fun _ => ih.bind fun _ => covered_pure _) s

/-- What templates make for a name and a signature is put into the scope, if it is to be kept. -/
theorem follows_instantiate (services : Services L T W) (c : ScopeId) (ts : List T) (name : String)
    (params : List Param) (location : Location) (s : Session L T W) :
    Follows (instantiate services c ts name params location) s fun r s' =>
      s.tables.config.memoizeTemplates = true →
        ∀ e, r = .ok (some e) → s'.tables.Holds c name params e := by
  have hconfig {t t' : Tables L T} (h : t.config = s.tables.config) (he : Tables.Edit t t') :
      t'.config = s.tables.config :=
    he.config_eq.trans h
  refine ((covered_consult services params ts s).keeping hconfig rfl).bind ?_ fun _ _ _ _ _ => nofun
  rintro ds s₁ ⟨-, h₁⟩
  split
  · exact follows_pure fun _ _ => nofun
  · refine ((follows_declare _ s₁).keeping hconfig h₁).bind ?_ fun _ _ _ _ _ => nofun
    rintro e s₂ ⟨he, h₂⟩
    refine Follows.getTables_bind ?_
    extract_lets jp
    have hjp (s : Session L T W) : Follows (jp ()) s fun r s' =>
        r = .ok (some e) ∧ s'.tables = s.tables := by
      refine Follows.getTables_bind ((follows_record id s).then ?_)
      rintro - s' rfl
      exact follows_pure ⟨rfl, rfl⟩
    split_ifs with hmemo
    · refine (follows_undoing_add (he e rfl)).bind (fun u s₃ h₃ => ?_) fun _ _ _ _ _ => nofun
      refine (hjp s₃).mono ?_
      rintro r s' ⟨rfl, hs'⟩ - e' ⟨⟩
      exact hs' ▸ h₃ u rfl
    · exact (hjp s₂).mono fun r s' _ hon => absurd (h₂ ▸ hon) hmemo
  · exact follows_fail fun _ _ => nofun

theorem composes_covered : Composes (L := L) (T := T) (W := W) Covered where
  pure := covered_pure
  bind := Covered.bind
  outOfFuel s _ := outcome_outOfFuel s
  getTables := covered_getTables
  scope _ := covered_ask _
  entity _ := covered_ask _

theorem covered_resolveOverload (services : Services L T W) (c : ScopeId) (name : String)
    (params : List Param) (location : Location) :
    Covered (resolveOverload services c name params location) :=
  composes_covered.resolveOverload fun ts =>
    Follows.covered (follows_instantiate services c ts name params location)

theorem covered_findSimple (hs : Obeys services) (c : ScopeId) (name : String)
    (params : List Param) : Covered (findSimple services c name params) := by
  unfold findSimple
  extract_lets resolve
  have hresolve : Covered resolve := covered_resolveOverload services c name params _
  refine hresolve.bind fun found s => ?_
  split
  · exact follows_pure trivial
  · refine Follows.ask_bind (fun x hx => ?_) fun _ _ => trivial
    split_ifs with hstate
    · exact follows_pure trivial
    · refine (follows_loadPart hs _ ?_).bind (fun _ s' _ => ?_) fun _ _ _ => trivial
      · intro y hy
        rw [scope_eq_ok hx] at hy
        exact Option.some.inj hy ▸ hstate
      · refine hresolve.bind (fun found => ?_) s'
        split
        · exact covered_pure _
        · exact (covered_forceLoad hs c).bind fun _ => hresolve

/-- Whatever is found, looked up or read is covered, as long as the loaders obey. -/
theorem closed_covered (hs : Obeys services) : Closed services Covered where
  toComposes := composes_covered
  findSimple := covered_findSimple hs
  fail := covered_fail
  resolveOverload := covered_resolveOverload services

theorem unfailing_requireReporting (hs : Obeys services) (c : ScopeId) (n : QualifiedName)
    (location : Location) : Unfailing (requireReporting services c n location) := by
  refine ((closed_covered hs).require c n location).attempt.bind fun r => ?_
  split
  · exact unfailing_pure _
  · exact unfailing_pure _

/-! ## Operations, scripts and hosts -/

/-- An operation follows a course, and its failures are answers. -/
theorem unfailing_perform (hs : Obeys services) (op : Operation L T) :
    Unfailing (op.perform services) := by
  have hc := closed_covered hs
  cases op with
  | declare d => exact (covered_declare d).attempt
  | add c e => exact (covered_add c e).attempt
  | define c d => exact (covered_define c d).attempt
  | defineReporting c ds => exact unfailing_defineReporting c ds
  | addTemplate c template => exact unfailing_addTemplate services c template
  | release e => exact unfailing_release e
  | watch c observer => exact unfailing_watch c observer
  | unwatch c observer => exact unfailing_unwatch c observer
  | drop observer => exact unfailing_drop observer
  | setSuper e parent => exact (covered_setSuper e parent).attempt
  | clearSuper e => exact (covered_clearSuper e).attempt
  | forceLoad c => exact (covered_forceLoad hs c).attempt
  | simplify c p => exact ((hc.signature p c).bind fun _ => covered_pure _).attempt
  | tryFind c p => exact (hc.tryFind c p).attempt
  | find c p => exact (hc.find c p).attempt
  | resolveOverload c name params location =>
    exact (covered_resolveOverload services c name params location).attempt
  | findName c n => exact (hc.findName n c).attempt
  | lookup c n => exact (hc.lookup c n).attempt
  | require c n location => exact (hc.require c n location).attempt
  | requireReporting c n location => exact unfailing_requireReporting hs c n location
  | findMember e p => exact ((covered_ask _).bind fun _ => hc.findInFirst p _).attempt
  | readMangled text => exact (hc.readMangled text).attempt
  | decode c text => exact (hc.decode c text).attempt

/-- A script has no way to fail either. -/
theorem unfailing_script (hs : Obeys services) (script : Script L T W α) :
    Unfailing (script.run services) := by
  induction script with
  | done a => exact unfailing_pure a
  | fault f => exact fun s _ => outcome_fault s f
  | call op next ih => exact (unfailing_perform hs op).bind ih
  | inspect next ih => exact fun s => Follows.get_bind (ih s.tables s)
  | readWorld next ih => exact fun s => Follows.get_bind (ih s.world s)
  | writeWorld w next ih =>
    refine fun s => Follows.then (P := fun _ _ => True) ?_ fun _ s' _ => ih s'
    exact follows_of_change rfl (.world s w) ⟨(), rfl, trivial⟩
  | remark text next ih => exact (unfailing_record id).bind fun _ => ih

/-- All loaders obey, however deep their calls are nested : a script has nothing but operations. -/
theorem obeys_services (host : Host L T W) (fuel : Nat) : Obeys (host.services fuel) := by
  induction fuel with
  | zero => exact fun _ _ _ s _ => outcome_outOfFuel s
  | succ fuel ih => exact fun loader c request => unfailing_script ih _

/-- What a host does to a session for an operation is a course. -/
theorem course_perform (host : Host L T W) (fuel : Nat) (op : Operation L T)
    (hs : s.tables.Formed) : ∃ ending, Course s ending (host.perform fuel op s).2 :=
  (unfailing_perform (obeys_services host fuel) op s hs).course

end Session

end NameResolution
