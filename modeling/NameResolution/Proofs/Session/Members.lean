import NameResolution.Proofs.Session.Atomicity
import NameResolution.Proofs.Session.Loads
import NameResolution.Proofs.Session.Resolution
import NameResolution.Proofs.Session.Turning
import NameResolution.Proofs.Tables.Lineage

/-!
# Members of types

A member is looked for in the scope of a type, then in those of its supertypes, the nearest first.
The scope of a type never gets a loader (`Later.no_loader`), so without templates there is
nothing to call on the way (`Scope.Inert`) : a scope is read, and if nothing is found in it, it
counts as loaded from then on (`run_findSimple_inert`). Apart from that the session is as it was
(`Settles`), and what comes out is the member of the first type in the lineage that has one
(`run_findInFirst`), which is the nearest one.

To change a supertype moves one link and leaves everything else (`Relinks`). As every session is
followed by one of the same kind, what is found then goes by the new links (`Reroutes`).

`members_follow_lineage` is the result, for handles that have not come round. After that, the
scope of a type may have a loader, which makes what is found (`member_made_by_loader`).
-/

namespace NameResolution

variable {L T W : Type}

theorem EntityKind.eq_type_iff {kind : EntityKind} {n : NodeId} {c : ScopeId} :
    kind = .type n c ↔ kind.node? = some n ∧ kind.scope? = some c := by
  cases kind <;> simp [EntityKind.node?, EntityKind.scope?]

/-- There is nothing to be called when something is looked for in the scope : it has no loader, its
load is not running, and it has no templates. -/
structure Scope.Inert (x : Scope L T) : Prop where
  loader : x.loader = none
  state : x.state ≠ .loading
  bare : x.Bare

theorem Scope.Inert.settled {x : Scope L T} (h : x.Inert) :
    Scope.Inert { x with state := .loaded } :=
  ⟨h.loader, by simp, h.bare⟩

namespace Session

open Tables

variable {s s' s'' : Session L T W} {c : ScopeId} {x : Scope L T} {name : String}
  {params : List Param} {e : EntityId}

/-! ## Sessions that have settled -/

/-- Some scopes count as loaded that did not before, and nothing else is different. -/
def Settles (s s' : Session L T W) : Prop :=
  ∃ scopes, s' = { s with tables := { s.tables with scopes } } ∧
    ∀ c, scopes.get? c = s.tables.scopes.get? c ∨
      scopes.get? c = (s.tables.scopes.get? c).map fun x => { x with state := .loaded }

theorem Settles.refl (s : Session L T W) : Settles s s :=
  ⟨s.tables.scopes, rfl, fun _ => Or.inl rfl⟩

theorem Settles.trans (h : Settles s s') (h' : Settles s' s'') : Settles s s'' := by
  obtain ⟨scopes, rfl, hc⟩ := h
  obtain ⟨scopes', rfl, hc'⟩ := h'
  refine ⟨scopes', rfl, fun c => ?_⟩
  have hc := hc c
  have hc' : scopes'.get? c = scopes.get? c ∨
      scopes'.get? c = (scopes.get? c).map fun x => { x with state := .loaded } := hc' c
  rcases hc' with hc' | hc'
  · rwa [hc']
  · refine Or.inr ?_
    rcases hc with hc | hc
    · rw [hc', hc]
    · rw [hc', hc, Option.map_map]
      rfl

theorem settles_mapScope (s : Session L T W) (c : ScopeId) :
    Settles s (s.mapScope c fun x => { x with state := .loaded }) := by
  refine ⟨_, rfl, fun c' => ?_⟩
  rw [SlotTable.get?_modify]
  split_ifs with hc
  · exact Or.inr (hc ▸ rfl)
  · exact Or.inl rfl

/-- Every type has the members that it had. -/
theorem Settles.member?_eq (h : Settles s s') (name : String) (params : List Param) :
    s'.tables.member? name params = s.tables.member? name params := by
  obtain ⟨scopes, rfl, hc⟩ := h
  funext e
  have hscope : scopeOf? { s.tables with scopes } e = s.tables.scopeOf? e := rfl
  unfold member?
  rw [hscope]
  cases s.tables.scopeOf? e with
  | none => rfl
  | some c =>
    rw [Option.bind_some, Option.bind_some]
    rcases hc c with hc | hc
    · rw [hc]
    · rw [hc]
      cases s.tables.scopes.get? c <;> rfl

/-! ## Looking into types -/

/-- If the entity has a scope, there is nothing to be called in it. -/
def Idle (s : Session L T W) (e : EntityId) : Prop :=
  ∀ c, s.tables.scopeOf? e = some c → ∃ x, s.tables.scopes.get? c = some x ∧ x.Inert

/-- Settling a scope leaves an idle type idle. -/
theorem Settles.idle (h : Settles s s') (hi : Idle s e) : Idle s' e := by
  obtain ⟨scopes, rfl, hc⟩ := h
  intro c he
  obtain ⟨x, hx, hinert⟩ := hi c he
  rcases hc c with hc | hc
  · exact ⟨x, hc.trans hx, hinert⟩
  · rw [hx] at hc
    exact ⟨_, hc, hinert.settled⟩

/-- A scope without a loader is not asked for a part. -/
theorem run_loadPart_of_loader_none (services : Services L T W) (part : NamePart)
    (hx : s.tables.scopes.get? c = some x) (hl : x.loader = none) :
    (loadPart services c part).run s = (.ok (), s) := by
  have htake : (takeLoader c : Run L T W (Option L)).run s = (.ok none, s) := by
    rw [run_takeLoader hx, mapScope_of_loader_none hx hl, hl]
  unfold loadPart
  rw [run_bind_of_ok (run_getTables s)]
  split_ifs
  · rw [run_bind_of_ok htake]
    rfl
  · rfl

/-- What is found in such a scope is what it holds. -/
theorem run_findSimple_inert (services : Services L T W) (name : String) (params : List Param)
    (hx : s.tables.scopes.get? c = some x) (hi : x.Inert) :
    ∃ s', (findSimple services c name params).run s = (.ok (x.find? name params), s') ∧
      Settles s s' := by
  have hresolve {s : Session L T W} {x : Scope L T} (hx : s.tables.scopes.get? c = some x)
      (hi : x.Inert) := run_resolveOverload_bare services hx hi.bare name params .unknown
  unfold findSimple
  extract_lets resolve
  rw [run_bind_of_ok (hresolve hx hi)]
  cases hfind : x.find? name params with
  | some m => exact ⟨s, rfl, .refl s⟩
  | none =>
    dsimp only
    rw [run_bind_of_ok (run_ask_scope hx)]
    split_ifs with hstate
    · exact ⟨s, rfl, .refl s⟩
    · have hunloaded : x.state = .unloaded := by
        cases hs : x.state with
        | unloaded => rfl
        | loading => exact absurd hs hi.state
        | loaded => exact absurd hs hstate
      have hforce := run_forceLoad_of_loader_none services hx hunloaded hi.loader
      rw [run_bind_of_ok (run_loadPart_of_loader_none services _ hx hi.loader),
        run_bind_of_ok (hresolve hx hi), hfind]
      dsimp only
      rw [run_bind_of_ok hforce]
      refine ⟨_, (hresolve (get?_mapScope hx _) hi.settled).trans ?_, settles_mapScope s c⟩
      rw [← hfind]
      rfl

/-- What is found in some types is the member of the first that has one. -/
theorem run_findInFirst (services : Services L T W) (name : String) (params : List Param)
    {es : List EntityId} (hi : ∀ e ∈ es, Idle s e) :
    ∃ s', (findInFirst services (.simple name params) es).run s =
        (.ok (es.findSome? (s.tables.member? name params)), s') ∧ Settles s s' := by
  induction es generalizing s with
  | nil => exact ⟨s, rfl, .refl s⟩
  | cons e es ih =>
    obtain ⟨he, hes⟩ := List.forall_mem_cons.1 hi
    unfold findInFirst
    rw [run_bind_of_ok (run_getTables s), List.findSome?_cons]
    cases hc : s.tables.scopeOf? e with
    | none =>
      have hnone : s.tables.member? name params e = none := by
        rw [member?, hc]
        rfl
      rw [hnone]
      exact ih hes
    | some c =>
      obtain ⟨x, hx, hinert⟩ := he c hc
      have hmember : s.tables.member? name params e = x.find? name params := by
        rw [member?, hc, Option.bind_some, hx, Option.bind_some]
      obtain ⟨s₁, hfind, hs₁⟩ := run_findSimple_inert services name params hx hinert
      dsimp only
      rw [find_simple, run_bind_of_ok hfind, hmember]
      cases hm : x.find? name params with
      | some m => exact ⟨s₁, rfl, hs₁⟩
      | none =>
        obtain ⟨s', hrun, hs'⟩ := ih fun e' he' => hs₁.idle (hes e' he')
        rw [hs₁.member?_eq] at hrun
        exact ⟨s', hrun, hs₁.trans hs'⟩

/-! ## Scopes of types -/

/-- The scope of a type never has a loader, and no load of it is ever running. -/
theorem Later.no_loader {config : Config} {world : W} (h : Later (start config world) s)
    (hu : s.tables.Unwrapped) {y : Entity} {n : NodeId} (hy : s.tables.entities.get? e = some y)
    (hk : y.kind = .type n c) (hx : s.tables.scopes.get? c = some x) :
    x.loader = none ∧ x.state ≠ .loading := by
  have hf : (start config world : Session L T W).tables.Formed := .start config
  have ht := Tracked.start (L := L) (T := T) config world
  have hnone : ¬HasLoader c s x := by
    refine (h.steps ht hf hu).induction ht hf hu (P := fun s => ∀ e y n c x,
      s.tables.entities.get? e = some y → y.kind = .type n c →
        s.tables.scopes.get? c = some x → ¬HasLoader c s x) ?_ ?_ e y n c x hy hk hx
    · rintro e y n c x - - hx (hl | hp)
      · rw [(get?_scopes_start hx).2] at hl
        exact hl rfl
      · exact hp rfl
    · intro s s' hsteps ht hf' hu hstep ih e y' n c x' hy' hk hx'
      rcases hf'.type_edit hstep.edit hy' hk with ⟨y, hy, hk⟩ | ⟨rfl, hnew⟩
      · have hpaired := ((Steps.later hsteps).induction_edit (P := Coherent)
          (fun _ ht he => ht.edit he) hf (Sound.start config).coherent).2.paired
        obtain ⟨x, hx, -⟩ := hpaired.inside e y c hy (congrArg EntityKind.scope? hk)
        obtain ⟨x, hx, hprog⟩ := hstep.progress hf' hu (SlotTable.issued_of_get? hx) hx'
        exact fun hl => ih e y n c x hy hk hx (hprog.hasLoader_iff.1 hl)
      · -- Nobody has called a loader for a scope that is new.
        have hi := SlotTable.not_issued_next hf'.scopes hu
        rintro (hl | hp)
        · obtain rfl := Option.some.inj (hnew.symm.trans hx')
          exact hl rfl
        · rw [(hstep.fresh hf' hi hx').2] at hp
          obtain ⟨request, hp⟩ := Option.ne_none_iff_exists'.1 hp
          exact hi (ht.called _ request hp)
  obtain ⟨hl, hp⟩ := not_or.1 hnone
  exact ⟨not_not.1 hl, (h.tracked ht hf hu).idle c x hx (not_not.1 hp)⟩

/-! ## Changing supertypes -/

/-- A question about the forest is refused, or the forest becomes what is answered; if nothing is to
be done, it stays. -/
theorem run_relinking_cases (question : Tables L T → Except Stop (Option Forest.Change))
    (s : Session L T W) :
    let relinking : Run L T W Bool := do
      match ← ask question with
      | some change =>
        changeForest change
        return true
      | none => return false
    (∃ stop, relinking.run s = (.error stop, s)) ∨
      ∃ change changed journal, question s.tables = .ok change ∧
        relinking.run s = (.ok changed, { s with
          tables :=
            { s.tables with forest := (change.map Forest.Change.forest).getD s.tables.forest }
          journal }) := by
  intro relinking
  have hrun : relinking.run s = _ := run_bind _ _ _
  rw [run_ask] at hrun
  cases hq : question s.tables with
  | error stop =>
    rw [hq] at hrun
    exact Or.inl ⟨stop, hrun⟩
  | ok change =>
    rw [hq] at hrun
    refine Or.inr ⟨change, ?_⟩
    cases change with
    | none => exact ⟨false, s.journal, rfl, hrun⟩
    | some change =>
      dsimp only at hrun
      rw [run_bind_of_ok (run_changeForest change s)] at hrun
      exact ⟨true, _, rfl, hrun⟩

/-- The forest is another one, and something has been recorded; nothing else is different. Unless
it was refused, the link of the type is the one that was asked for, and the others are as they
were. -/
structure Relinks (s s' : Session L T W) (e : EntityId) (parent : Option EntityId)
    (r : Except Stop Bool) : Prop where
  rest : ∃ forest journal, s.tables.forest.Reworked forest ∧
    s' = { s with tables := { s.tables with forest }, journal }
  linked : ∀ changed, r = .ok changed → ∃ n, s.tables.node? e = some n ∧
    (parent.isSome → (parent.bind s.tables.node?).isSome) ∧
    ∀ k, s'.tables.forest.parent? k =
      if k = n then parent.bind s.tables.node? else s.tables.forest.parent? k

theorem relinks_error (s : Session L T W) (e : EntityId) (parent : Option EntityId)
    (stop : Stop) : Relinks s s e parent (.error stop) :=
  ⟨⟨_, _, .refl _, rfl⟩, by simp⟩

theorem relinks_setSuper (e : EntityId) (parent : Option EntityId) (s : Session L T W) :
    Relinks s ((setSuper e parent).run s).2 e parent ((setSuper e parent).run s).1 := by
  obtain ⟨-, hrun⟩ | ⟨p, -, -, -, hrun⟩ | ⟨n, q, hn, rfl, hsome, hrun⟩ :=
    run_setSuper_cases e parent s
  · rw [hrun]
    exact relinks_error s e parent _
  · rw [hrun]
    exact relinks_error s e parent _
  · obtain ⟨stop, hrelink⟩ | ⟨change, changed, journal, hq, hrelink⟩ := run_relinking_cases
      (fun t => t.forest.setParent n (parent.bind s.tables.node?)) s
    · rw [hrun.trans hrelink]
      exact relinks_error s e parent stop
    · rw [hrun.trans hrelink]
      refine ⟨⟨_, _, ?_, rfl⟩, fun _ _ => ⟨n, hn, hsome, Forest.parent?_of_setParent hq⟩⟩
      cases change with
      | none => exact .refl _
      | some change => exact Forest.reworked_of_setParent hq

theorem relinks_clearSuper (e : EntityId) (s : Session L T W) :
    Relinks s ((clearSuper e).run s).2 e none ((clearSuper e).run s).1 := by
  cases hn : s.tables.node? e with
  | none =>
    unfold clearSuper
    rw [run_bind, run_ask_typeNode_of_none hn]
    exact relinks_error s e none _
  | some n =>
    have hrun : (clearSuper e).run s = _ := run_bind_of_ok (run_ask_typeNode hn) _
    obtain ⟨stop, hrelink⟩ | ⟨change, changed, journal, hq, hrelink⟩ :=
      run_relinking_cases (fun t => t.forest.clearParent n) s
    · rw [hrun.trans hrelink]
      exact relinks_error s e none stop
    · rw [hrun.trans hrelink]
      refine ⟨⟨_, _, ?_, rfl⟩, fun _ _ => ⟨n, hn, by simp, Forest.parent?_of_clearParent hq⟩⟩
      cases change with
      | none => exact .refl _
      | some change => exact Forest.reworked_of_clearParent hq

/-- The type has the supertype that was asked for, and every other type has its own. -/
theorem Relinks.superType_eq_ok_iff {parent q : Option EntityId} {changed : Bool} {a : EntityId}
    (h : Relinks s s' e parent (.ok changed)) (hm : s.tables.Matched) (hm' : s'.tables.Matched) :
    s'.tables.superType a = .ok q ↔
      if a = e then q = parent else s.tables.superType a = .ok q := by
  obtain ⟨n, hn, hsome, hlink⟩ := h.linked changed rfl
  obtain ⟨forest, journal, -, rfl⟩ := h.rest
  have hnode : Tables.node? { s.tables with forest } = s.tables.node? := rfl
  split_ifs with ha
  · subst ha
    have hparent : Tables.superType { s.tables with forest } a = .ok parent :=
      (superType_eq_iff hm').2 ⟨n, hn, hsome, (hlink n).trans (if_pos rfl)⟩
    simp [hparent, eq_comm]
  · rw [superType_eq_iff hm', superType_eq_iff hm, hnode]
    refine exists_congr fun k => and_congr_right fun hk => and_congr_right fun _ => ?_
    have hne : k ≠ n := by
      rintro rfl
      exact ha (hm.eq_of_node? hk hn)
    rw [hlink k, if_neg hne]

/-! ## Every session -/

/-- The scopes of types have no templates. -/
def Untemplated (t : Tables L T) : Prop :=
  ∀ e c x, t.node? e ≠ none → t.scopeOf? e = some c → t.scopes.get? c = some x → x.Bare

theorem untemplated_of_forall {t : Tables L T}
    (h : ∀ entry ∈ t.scopes.toList, ∀ named ∈ entry.2.names, named.2.templates = []) :
    Untemplated t :=
  fun _ c x _ _ hx => Scope.bare_of_forall (h (c, x) (SlotTable.mem_toList_iff.2 hx))

/-- Whatever type a member is looked for in, the answer is the nearest declaration of its name and
signature, and there is none exactly if no type that the first one inherits from declares one.
Scopes that have been looked into may count as loaded from then on; nothing else is different. -/
def FindsNearest (s : Session L T W) : Prop :=
  ∀ (host : Host L T W) fuel e name params, s.tables.node? e ≠ none →
    ∃ answer s', host.perform fuel (.findMember e (.simple name params)) s =
        (.ok (.ok answer), s') ∧
      (∀ m, answer = some m ↔ s.tables.Nearest e name params m) ∧
      (answer = none ↔
        ∀ a m, s.tables.isA e a = .ok true → ¬s.tables.Declares a name params m) ∧
      Settles s s'

/-- A member lookup finds the nearest declaration, in every session that keeps its handles. -/
theorem findsNearest {config : Config} {world : W} (h : Later (start config world) s)
    (hr : Reaches (fun _ => True) (start config world) s) (hu : s.tables.Unwrapped)
    (hn : s.tables.forest.nodes.Unwrapped) (hb : Untemplated s.tables) : FindsNearest s := by
  intro host fuel e name params he
  have ha := hr.arranged
  have hs := h.sound (Sound.start config) hu
  obtain ⟨l, hl, hdistance⟩ := exists_lineage ha.toMatched (hr.flattened hn).toThreaded he
  have hidle (a : EntityId) (hmem : a ∈ l.reverse) : Idle s a := by
    intro c hc
    obtain ⟨d, hd⟩ := List.mem_iff_getElem?.1 hmem
    obtain ⟨n, k, -, hk, -⟩ := distance_eq_some_iff.1 ((hdistance d a).1 hd)
    obtain ⟨y, hy, hyk⟩ := Option.bind_eq_some_iff.1 hk
    obtain ⟨y', hy', hyc⟩ := Option.bind_eq_some_iff.1 hc
    obtain rfl := Option.some.inj (hy.symm.trans hy')
    obtain ⟨x, hx, -⟩ := hs.paired.inside a y c hy hyc
    obtain ⟨hloader, hstate⟩ := h.no_loader hu hy (EntityKind.eq_type_iff.2 ⟨hyk, hyc⟩) hx
    exact ⟨x, hx, hloader, hstate, hb a c x (by simp [hk]) hc hx⟩
  obtain ⟨s', hrun, hs'⟩ := run_findInFirst (host.services fuel) name params hidle
  refine ⟨_, s', ?_, fun m => findSome?_member?_eq_some_iff hs hdistance,
    findSome?_member?_eq_none_iff hs hdistance, hs'⟩
  have hask : (ask (·.lineage e) : Run L T W (List EntityId)).run s = (.ok l, s) := by
    rw [run_ask, hl]
  show (attempt (findMember (host.services fuel) e (.simple name params))).run s = _
  unfold findMember
  rw [run_attempt, run_bind_of_ok hask, hrun]

/-- What is found in a type is found in those that inherit from it, too. -/
theorem FindsNearest.inherits (hs : FindsNearest s) (hf : s.tables.forest.Threaded)
    {a b m : EntityId} (hab : s.tables.isA a b = .ok true) {host : Host L T W} {fuel : Nat}
    (hrun : host.perform fuel (.findMember b (.simple name params)) s = (.ok (.ok (some m)), s')) :
    ∃ m' s'', host.perform fuel (.findMember a (.simple name params)) s =
      (.ok (.ok (some m')), s'') := by
  obtain ⟨d, hd⟩ := exists_distance_iff.2 hab
  obtain ⟨n, k, hn, hk, -⟩ := distance_eq_some_iff.1 hd
  obtain ⟨answer, s₁, hrun₁, hsome, -⟩ := hs host fuel b name params (by simp [hk])
  obtain ⟨answer', s₂, hrun₂, -, hnone, -⟩ := hs host fuel a name params (by simp [hn])
  rw [hrun₁] at hrun
  cases hrun
  obtain ⟨o, d', hdeclares, hd', -⟩ := (hsome m).1 rfl
  cases answer' with
  | some m' => exact ⟨m', s₂, hrun₂⟩
  | none =>
    have hbo := exists_distance_iff.1 ⟨d', hd'⟩
    exact absurd hdeclares (hnone.1 rfl o m (isA_trans hf hab hbo))

/-- Members are found in the nearest type that declares them, so what is found in a type is found
in its subtypes, though perhaps nearer; and the nearest declaration is that of the type itself, or
else the one of its supertype. -/
structure FollowsLineage (s : Session L T W) : Prop where
  nearest : FindsNearest s
  inherited : ∀ a b, s.tables.isA a b = .ok true →
    ∀ (host : Host L T W) fuel name params m s',
      host.perform fuel (.findMember b (.simple name params)) s = (.ok (.ok (some m)), s') →
      ∃ m' s'', host.perform fuel (.findMember a (.simple name params)) s =
        (.ok (.ok (some m')), s'')
  links : ∀ e parent name params m, s.tables.superType e = .ok parent →
    (s.tables.Nearest e name params m ↔
      s.tables.Declares e name params m ∨
        (∀ m', ¬s.tables.Declares e name params m') ∧
          ∃ p, parent = some p ∧ s.tables.Nearest p name params m)

/-- So what is found for a type and for its ancestors agrees along the lineage. -/
theorem followsLineage {config : Config} {world : W} (h : Later (start config world) s)
    (hr : Reaches (fun _ => True) (start config world) s) (hu : s.tables.Unwrapped)
    (hn : s.tables.forest.nodes.Unwrapped) (hb : Untemplated s.tables) : FollowsLineage s := by
  have hfinds := findsNearest h hr hu hn hb
  have hm := hr.arranged.toMatched
  have hf := (hr.flattened hn).toThreaded
  exact ⟨hfinds, fun a b hab host fuel name params m s' => hfinds.inherits hf hab,
    fun e parent name params m => nearest_iff hm hf⟩

/-- Members follow the lineages still; types declare what they declared before. Unless it was
refused, the type has the supertype that was asked for, and every other type has its own. -/
structure Reroutes (s s' : Session L T W) (e : EntityId) (parent : Option EntityId)
    (answer : Except Failure Bool) : Prop where
  follows : FollowsLineage s'
  declares : ∀ a name params m,
    s'.tables.Declares a name params m ↔ s.tables.Declares a name params m
  superType : ∀ changed, answer = .ok changed → ∀ a q, s'.tables.superType a = .ok q ↔
    if a = e then q = parent else s.tables.superType a = .ok q

/-- After a relink the members follow the new lineage. -/
theorem Relinks.reroutes {config : Config} {world : W} {parent : Option EntityId}
    {answer : Except Failure Bool} (hrelinks : Relinks s s' e parent (answer.mapError Stop.failure))
    (h : Later (start config world) s) (hr : Reaches (fun _ => True) (start config world) s)
    (hu : s.tables.Unwrapped) (hn : s.tables.forest.nodes.Unwrapped) (hb : Untemplated s.tables)
    {host : Host L T W} {fuel : Nat} {op : Operation L T} (hs' : (host.perform fuel op s).2 = s') :
    Reroutes s s' e parent answer := by
  have h' : Later (start config world) s' := hs' ▸ h.perform host fuel op
  have hr' : Reaches (fun _ => True) (start config world) s' :=
    hs' ▸ hr.perform (host.within_of_forall fun _ => trivial) fuel trivial
  refine ⟨?_, ?_, ?_⟩
  · obtain ⟨forest, journal, hre, rfl⟩ := hrelinks.rest
    exact followsLineage h' hr' ⟨hu.entities, hu.scopes⟩ (hre.unwrapped hn) hb
  · obtain ⟨forest, journal, -, rfl⟩ := hrelinks.rest
    exact fun _ _ _ _ => Iff.rfl
  · rintro changed rfl a q
    exact hrelinks.superType_eq_ok_iff hr.arranged.toMatched hr'.arranged.toMatched

/-- In every session that hosts can bring about, as long as no slot of a table has been emptied so
often that its generation has come round, and with no templates in the scopes of types, the
member of a name and signature that is found in a type is the nearest one : that of the supertype
at the least distance which declares one, the type itself included; and there is none if there is
no such supertype. So what is found in a type is found in its subtypes, though perhaps nearer. To
find it changes nothing but that scopes may count as loaded. After a change of a supertype, what
is found goes by the links as they are then. -/
theorem members_follow_lineage {config : Config} {world : W}
    (h : Later (start config world) s) (hr : Reaches (fun _ => True) (start config world) s)
    (hu : s.tables.Unwrapped) (hn : s.tables.forest.nodes.Unwrapped)
    (hb : Untemplated s.tables) :
    FollowsLineage s ∧
    (∀ (host : Host L T W) fuel e parent, ∃ answer s',
      host.perform fuel (.setSuper e parent) s = (.ok answer, s') ∧
        Reroutes s s' e parent answer) ∧
    ∀ (host : Host L T W) fuel e, ∃ answer s',
      host.perform fuel (.clearSuper e) s = (.ok answer, s') ∧ Reroutes s s' e none answer := by
  have hm := hr.arranged.toMatched
  have hf := hr.flattened hn
  refine ⟨followsLineage h hr hu hn hb, fun host fuel e parent => ?_, fun host fuel e => ?_⟩
  · obtain ⟨answer, s', hperform, -⟩ := perform_setSuper hm hf host fuel e parent
    have hrelinks := relinks_setSuper e parent s
    rw [run_attempt_eq_ok hperform] at hrelinks
    exact ⟨answer, s', hperform, hrelinks.reroutes h hr hu hn hb (congrArg Prod.snd hperform)⟩
  · obtain ⟨answer, s', hperform, -⟩ := perform_clearSuper hm hf host fuel e
    have hrelinks := relinks_clearSuper e s
    rw [run_attempt_eq_ok hperform] at hrelinks
    exact ⟨answer, s', hperform, hrelinks.reroutes h hr hu hn hb (congrArg Prod.snd hperform)⟩

/-- An animal, with a name and a size, and a dog, which has a name of its own. -/
def kinds : List (Operation Unit Unit) :=
  [.define rootScope { name := "Animal", params := [], kind := .type none, location := .unknown },
    .define rootScope
      { name := "Dog", params := [], kind := .type (some ⟨1, 0⟩), location := .unknown },
    .define ⟨1, 0⟩ { name := "name", params := [], kind := .var .void, location := .unknown },
    .define ⟨1, 0⟩ { name := "size", params := [], kind := .var .void, location := .unknown },
    .define ⟨2, 0⟩ { name := "name", params := [], kind := .var .void, location := .unknown }]

/-- The session with both. -/
def kindred : Session Unit Unit Unit :=
  fillingHost.after 2 kinds (start {} ())

/-- The dog has its own name, and the size of an animal. -/
theorem members_follow_lineage_kindred :
    kindred.tables.Unwrapped ∧ kindred.tables.forest.nodes.Unwrapped ∧
      Untemplated kindred.tables ∧ kindred.tables.isA ⟨2, 0⟩ ⟨1, 0⟩ = .ok true ∧
      ∀ (host : Host Unit Unit Unit) fuel,
        (∃ s', host.perform fuel (.findMember ⟨2, 0⟩ (.simple "name" [])) kindred =
          (.ok (.ok (some ⟨5, 0⟩)), s')) ∧
        ∃ m s', host.perform fuel (.findMember ⟨2, 0⟩ (.simple "size" [])) kindred =
          (.ok (.ok (some m)), s') := by
  have h : Later (start {} ()) kindred := (Later.refl _).after fillingHost 2 _
  have hr : Reaches (fun _ => True) (start {} ()) kindred :=
    (Reaches.refl _).after (fillingHost.within_of_forall fun _ => trivial) 2 fun _ _ => trivial
  have hu : kindred.tables.Unwrapped := by decide +kernel
  have hn : kindred.tables.forest.nodes.Unwrapped := by decide +kernel
  have hb : Untemplated kindred.tables := untemplated_of_forall (by decide +kernel)
  have hisA : kindred.tables.isA ⟨2, 0⟩ ⟨1, 0⟩ = .ok true := by decide +kernel
  have hs := h.sound (Sound.start _) hu
  obtain ⟨⟨hfinds, hinherits, -⟩, -⟩ := members_follow_lineage h hr hu hn hb
  have hown {e m : EntityId} {name : String} (he : kindred.tables.node? e ≠ none)
      (hd : kindred.tables.distance e e = .ok (some 0))
      (hm : kindred.tables.member? name [] e = some m) (host : Host Unit Unit Unit) (fuel : Nat) :
      ∃ s', host.perform fuel (.findMember e (.simple name [])) kindred =
        (.ok (.ok (some m)), s') := by
    obtain ⟨answer, s', hrun, hsome, -⟩ := hfinds host fuel e name [] he
    have hnearest : kindred.tables.Nearest e name [] m :=
      ⟨e, 0, (member?_eq_some_iff hs).1 hm, hd, fun _ _ d _ _ => Nat.zero_le d⟩
    exact ⟨s', (hsome m).2 hnearest ▸ hrun⟩
  refine ⟨hu, hn, hb, hisA, fun host fuel => ⟨?_, ?_⟩⟩
  · exact hown (by decide +kernel) (by decide +kernel) (by decide +kernel) host fuel
  · obtain ⟨s', hrun⟩ : ∃ s', host.perform fuel (.findMember ⟨1, 0⟩ (.simple "size" [])) kindred =
        (.ok (.ok (some ⟨4, 0⟩)), s') :=
      hown (by decide +kernel) (by decide +kernel) (by decide +kernel) host fuel
    exact hinherits _ _ hisA host fuel _ _ _ _ hrun

/-- Once handles have come round, the nearest declaration need not be found : the scope of the type
that owns it does not hold it, and what its loader makes there is found, which was not there. -/
theorem member_made_by_loader :
    ∃ s, Later (start {} ()) s ∧ Reaches (fun _ => True) (start {} ()) s ∧
      Untemplated s.tables ∧ s.tables.isA ⟨1, 0⟩ ⟨1, 0⟩ = .ok true ∧
      s.tables.Declares ⟨1, 0⟩ "q" [] ⟨2, 0⟩ ∧ s.tables.entities.get? ⟨5, 0⟩ = none ∧
      (usurpingHost.perform 2 (.findMember ⟨1, 0⟩ (.simple "q" [])) s).1 =
        .ok (.ok (some ⟨5, 0⟩)) := by
  obtain ⟨s, hrun, hstate⟩ := exists_usurped
  have hbare : Untemplated throne.tables := untemplated_of_forall (by decide +kernel)
  have hisA : throne.tables.isA ⟨1, 0⟩ ⟨1, 0⟩ = .ok true := by decide +kernel
  have hscope : throne.tables.scopeOf? ⟨1, 0⟩ = some ⟨1, 0⟩ := by decide +kernel
  have hq : (throne.tables.entities.get? ⟨2, 0⟩).map (fun x => (x.name, x.params, x.owner)) =
      some ("q", [], some ⟨1, 0⟩) := by decide +kernel
  have hnew : (throne.tables.entities.get? ⟨5, 0⟩).isNone = true := by decide +kernel
  have hfound : (usurpingHost.perform 2 (.findMember ⟨1, 0⟩ (.simple "q" [])) throne).1 =
      .ok (.ok (some ⟨5, 0⟩)) := by decide +kernel
  rw [← hstate.tables] at hbare hisA hscope hq hnew
  obtain ⟨x, hx, hx'⟩ := Option.map_eq_some_iff.1 hq
  obtain ⟨hname, hparams, hown⟩ : x.name = "q" ∧ x.params = [] ∧ x.owner = some ⟨1, 0⟩ := by
    simpa using hx'
  have hwithin : usurpingHost.Within fun _ => True := usurpingHost.within_of_forall fun _ => trivial
  have hr : Reaches (fun _ => True) (start {} ()) besieged :=
    (Reaches.refl _).after hwithin 1 fun _ _ => trivial
  have hr' : Reaches (fun _ => True) (start {} ())
      (usurpingHost.perform 2 (.forceLoad ⟨1, 0⟩) besieged).2 := hr.perform hwithin 2 trivial
  rw [hrun] at hr'
  refine ⟨s, later_besieged.trans (later_of_perform hrun), hr', hbare, hisA,
    ⟨_, hscope, x, hx, hname, hparams, hown⟩, Option.isNone_iff_eq_none.1 hnew, ?_⟩
  rw [(sameState_perform hstate usurpingHost 2 _).1, hfound]

end Session

end NameResolution
