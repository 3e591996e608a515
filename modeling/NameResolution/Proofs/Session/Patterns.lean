import NameResolution.Proofs.Session.Laziness
import NameResolution.Proofs.Session.Requests
import NameResolution.Proofs.Session.Templates

/-!
# Pattern parts

The arguments of a pattern part are looked up before anything else is done about the part, one after
the other, until one is missed (`lookUps`). So looking among what a scope holds comes in two
stretches. The second one asks no loader, leaves the loading of every scope where it was, and
changes the tables by an instance of a template at most (`Instantiates.loading`). All that is loaded
is loaded for the arguments, in the first one (`tryFind_loads_for_arguments`).
-/

namespace NameResolution

variable {L T W : Type}

/-- The arguments of a part that are still names. -/
def NamePart.arguments : NamePart → List QualifiedName
  | simple _ _ => []
  | pattern _ arguments => arguments

namespace Session

variable {host : Host L T W} {fuel : Nat} {s s' s₁ : Session L T W} {c c' : ScopeId}
  {x y : Scope L T} {name : String} {params : List Param} {location : Location}
  {ds : List (Declaration L)} {answer : Except Failure (Option EntityId)}

/-! ## Arguments -/

/-- The session after names have been looked up from a scope, one after the other. One that is
missed is the last. -/
def lookUps (host : Host L T W) (fuel : Nat) (c : ScopeId) :
    List QualifiedName → Session L T W → Session L T W
  | [], s => s
  | n :: ns, s =>
    match host.perform fuel (.lookup c n) s with
    | (.ok (.ok (some _)), s') => lookUps host fuel c ns s'
    | (_, s') => s'

/-- The arguments of a pattern are looked up, and nothing else happens. -/
theorem run_argumentParams_snd (host : Host L T W) (fuel : Nat) (ns : List QualifiedName)
    (c : ScopeId) (s : Session L T W) :
    ((argumentParams (host.services fuel) ns c).run s).2 = lookUps host fuel c ns s := by
  induction ns generalizing s with
  | nil => rfl
  | cons n ns ih =>
    have hperform : host.perform fuel (.lookup c n) s =
        (attempt (climb (findName (host.services fuel) n) (host.services fuel).reach c)).run s :=
      rfl
    unfold argumentParams lookUps
    rw [hperform, run_attempt, run_bind]
    rcases (climb (findName (host.services fuel) n) (host.services fuel).reach c).run s with
      ⟨(_ | _ | _) | _ | e, s₁⟩
    · rfl
    · rfl
    · rfl
    · rfl
    · dsimp only
      rw [← ih s₁, run_bind]
      rcases (argumentParams (host.services fuel) ns c).run s₁ with ⟨_ | _ | params, s₂⟩
      all_goals rfl

/-- The signature of a part is found by looking its arguments up. -/
theorem run_signature_cases (host : Host L T W) (fuel : Nat) (p : NamePart) (c : ScopeId)
    (s : Session L T W) :
    (∃ params, (signature (host.services fuel) p c).run s =
        (.ok (some (p.text, params)), lookUps host fuel c p.arguments s)) ∨
      (signature (host.services fuel) p c).run s =
        (.ok none, lookUps host fuel c p.arguments s) ∨
      ∃ stop, (signature (host.services fuel) p c).run s =
        (.error stop, lookUps host fuel c p.arguments s) := by
  cases p with
  | simple text params => exact Or.inl ⟨params, rfl⟩
  | pattern text ns =>
    have hsnd := run_argumentParams_snd host fuel ns c s
    unfold signature
    simp only [run_bind]
    rcases hrun : (argumentParams (host.services fuel) ns c).run s with ⟨stop | _ | params, s₁⟩
    all_goals
      rw [hrun] at hsnd
      obtain rfl : s₁ = lookUps host fuel c ns s := hsnd
    · exact Or.inr (Or.inr ⟨stop, rfl⟩)
    · exact Or.inr (Or.inl rfl)
    · exact Or.inl ⟨params, rfl⟩

theorem arranged_lookUps (ha : s.tables.Arranged) (host : Host L T W) (fuel : Nat) (c : ScopeId)
    (ns : List QualifiedName) : (lookUps host fuel c ns s).tables.Arranged := by
  rw [← run_argumentParams_snd]
  have hroaming : Roaming (fun _ => True) (host.services fuel) :=
    roaming_services (host.within_of_forall fun _ => trivial) fuel
  exact ((closed_roams hroaming).argumentParams ns c s ha.toMatched).arranged ha

/-! ## What the scope holds -/

/-- The loading of a scope is where it was. -/
def SameLoading (x x' : Scope L T) : Prop :=
  x'.state = x.state ∧ x'.loader = x.loader

/-- Instances are made without any loading. -/
theorem Instantiates.loading (h : Instantiates c x name params location s ds answer s')
    (hx : s.tables.scopes.get? c = some x) (hy : s.tables.scopes.get? c' = some y) :
    ∃ y', s'.tables.scopes.get? c' = some y' ∧ SameLoading y y' := by
  have hunmoved (h : Unmoved s s') : ∃ y', s'.tables.scopes.get? c' = some y' ∧ SameLoading y y' :=
    ⟨y, (h.tables.scopes c').trans hy, rfl, rfl⟩
  cases h with
  | missed h => exact hunmoved h
  | ambiguous hds h => exact hunmoved h
  | refused hf h => exact hunmoved h
  | loose hf hmemo h hq => exact ⟨y, h.tables.get?_scopes_of_some nofun hy, rfl, rfl⟩
  | kept hf hmemo h hscope =>
    by_cases hc : c = c'
    · subst hc
      obtain rfl := Option.some.inj (hx.symm.trans hy)
      exact ⟨_, hscope, rfl, rfl⟩
    · have hc : some c ≠ some c' := fun heq => hc (Option.some.inj heq)
      exact ⟨y, h.tables.get?_scopes_of_some hc hy, rfl, rfl⟩

/-- A name and a signature are resolved by what the scope has, or by an instance. -/
theorem resolveOverload_cases (ha : s.tables.Arranged) (services : Services L T W) (c : ScopeId)
    (name : String) (params : List Param) (location : Location) :
    ((resolveOverload services c name params location).run s).2 = s ∨
      ∃ x answer, s.tables.scopes.get? c = some x ∧
        Instantiates c x name params location s (offers services.toTemplates s x name params) answer
          ((resolveOverload services c name params location).run s).2 := by
  cases hx : s.tables.scopes.get? c with
  | none =>
    refine Or.inl ?_
    unfold resolveOverload
    rw [run_bind, run_ask, Tables.scope, hx]
  | some x =>
    cases hfind : x.find? name params with
    | some e => exact Or.inl (by rw [run_resolveOverload hx hfind])
    | none =>
      obtain ⟨answer, s', hrun, h⟩ := instantiates_resolveOverload ha hx hfind services location
      exact Or.inr ⟨x, answer, rfl, by rwa [hrun]⟩

/-- What looking among the entities of a scope does once the arguments of the part have been looked
up. -/
theorem run_tryFind_snd_cases (host : Host L T W) (fuel : Nat) (c : ScopeId) (p : NamePart)
    (s : Session L T W) :
    ((tryFind (host.services fuel) c p).run s).2 = lookUps host fuel c p.arguments s ∨
      ∃ params, ((tryFind (host.services fuel) c p).run s).2 =
        ((resolveOverload (host.services fuel) c p.text params .unknown).run
          (lookUps host fuel c p.arguments s)).2 := by
  unfold tryFind
  rw [run_bind]
  obtain ⟨params, hrun⟩ | hrun | ⟨stop, hrun⟩ := run_signature_cases host fuel p c s
  all_goals rw [hrun]
  · exact Or.inr ⟨params, rfl⟩
  · exact Or.inl rfl
  · exact Or.inl rfl

/-- In every session that hosts can bring about, looking for a part among what a scope holds loads
for the arguments of the part only : once these have been looked up, no loader is asked for
anything, the loading of every scope is where it is, and the tables are left alone, but for an
instance that a template of the part makes. A simple part has no arguments, so nothing at all is
loaded for it. -/
theorem tryFind_loads_for_arguments {config : Config} {world : W}
    (h : Reaches (fun _ => True) (start config world) s) (host : Host L T W) (fuel : Nat)
    (c : ScopeId) (p : NamePart) :
    (∀ c', requests c' (host.perform fuel (.tryFind c p) s).2.journal =
      requests c' (lookUps host fuel c p.arguments s).journal) ∧
    (∀ c' y, (lookUps host fuel c p.arguments s).tables.scopes.get? c' = some y →
      ∃ y', (host.perform fuel (.tryFind c p) s).2.tables.scopes.get? c' = some y' ∧
        SameLoading y y') ∧
    ((host.perform fuel (.tryFind c p) s).2 = lookUps host fuel c p.arguments s ∨
      ∃ x params answer, (lookUps host fuel c p.arguments s).tables.scopes.get? c = some x ∧
        Instantiates c x p.text params .unknown (lookUps host fuel c p.arguments s)
          (offers host.toTemplates (lookUps host fuel c p.arguments s) x p.text params) answer
          (host.perform fuel (.tryFind c p) s).2) := by
  have hperform : (host.perform fuel (.tryFind c p) s).2 =
      ((tryFind (host.services fuel) c p).run s).2 := run_attempt_snd _ s
  have htemplates : (host.services fuel).toTemplates = host.toTemplates := by
    cases fuel <;> rfl
  rw [hperform]
  obtain hrun | ⟨params, hrun⟩ := run_tryFind_snd_cases host fuel c p s
  all_goals rw [hrun]
  · exact ⟨fun _ => rfl, fun c' y hy => ⟨y, hy, rfl, rfl⟩, Or.inl rfl⟩
  · have ha := arranged_lookUps h.arranged host fuel c p.arguments
    generalize lookUps host fuel c p.arguments s = s₁ at ha ⊢
    refine ⟨(silent_resolveOverload c p.text params .unknown s₁).requests, ?_⟩
    obtain hsame | ⟨x, answer, hx, hmade⟩ :=
      resolveOverload_cases ha (host.services fuel) c p.text params .unknown
    · rw [hsame]
      exact ⟨fun c' y hy => ⟨y, hy, rfl, rfl⟩, Or.inl rfl⟩
    · rw [htemplates] at hmade
      exact ⟨fun c' y hy => hmade.loading hx hy, Or.inr ⟨x, params, answer, hx, hmade⟩⟩

/-- Nothing is asked for a simple part. For the argument of a pattern, the loader is asked for the
one name and then for everything. -/
theorem tryFind_loads_for_arguments_emptyShelf :
    requests ⟨2, 0⟩ (shelfHost.perform 2 (.tryFind ⟨2, 0⟩ (.simple "Shape" [])) emptyShelf
      ).2.journal = [] ∧
    requests ⟨2, 0⟩ (shelfHost.perform 2
        (.tryFind ⟨2, 0⟩ (.pattern "Box" [[.simple "Circle" []]])) emptyShelf).2.journal =
      [some (.simple "Circle" []), none] := by
  have hreached : Reaches (fun _ => True) (start {} ()) emptyShelf :=
    have hwithin : shelfHost.Within fun _ => True := shelfHost.within_of_forall fun _ => trivial
    ((Reaches.refl _).perform hwithin 1 trivial).perform hwithin 1 trivial
  have hsimple := (tryFind_loads_for_arguments hreached shelfHost 2 ⟨2, 0⟩
    (.simple "Shape" [])).1 ⟨2, 0⟩
  have hpattern := (tryFind_loads_for_arguments hreached shelfHost 2 ⟨2, 0⟩
    (.pattern "Box" [[.simple "Circle" []]])).1 ⟨2, 0⟩
  refine ⟨hsimple.trans ?_, hpattern.trans ?_⟩
  · decide +kernel
  · decide +kernel

/-- Looking for a pattern among what a package holds has loaded the package. -/
theorem emptyShelf_loaded_by_tryFind :
    (emptyShelf.tables.scopes.get? ⟨2, 0⟩).map Scope.state = some .unloaded ∧
    (shelfHost.perform 2 (.tryFind ⟨2, 0⟩ (.pattern "Box" [[.simple "Circle" []]])) emptyShelf).1 =
      .ok (.ok none) ∧
    ((shelfHost.perform 2 (.tryFind ⟨2, 0⟩ (.pattern "Box" [[.simple "Circle" []]])) emptyShelf
      ).2.tables.scopes.get? ⟨2, 0⟩).map (fun x => (x.state, x.content)) =
        some (.loaded, [⟨3, 0⟩, ⟨5, 0⟩, ⟨4, 0⟩]) := by
  refine ⟨rfl, ?_, ?_⟩
  · decide +kernel
  · decide +kernel

end Session

end NameResolution
