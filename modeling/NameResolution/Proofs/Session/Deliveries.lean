import NameResolution.Proofs.Session.Batches
import NameResolution.Proofs.Session.Course.Loading

/-!
# Loaders that deliver in batches

A loader that performs no operations itself can still fill its scope, by the batches that it replies
with (`Recites`). A batch is defined up to the first declaration that is refused (`DefinesUntil`,
`run_defineAll`). Whatever a full load comes to, the loader is back in its scope afterwards, and the
scope is unloaded unless the loader has said that it is done (`Reciting.delivers`,
`Reciting.forceLoad_done`).

So asking for everything again and again goes through all replies, one at a time, and comes to an
end (`deliveries_complete`) : what is delivered is kept, a batch that cannot be defined does not
keep the next ones from being delivered, and a loaded scope is left alone.
-/

namespace NameResolution

variable {L T W α : Type}

/-- What a loader wants to have defined. -/
def LoadReply.declarations : LoadReply L → List (Declaration L)
  | batch declarations => declarations
  | _ => []

namespace Session

variable {host : Host L T W} {fuel : Nat} {s s' s₀ s₁ : Session L T W} {c : ScopeId}
  {x : Scope L T} {d : Declaration L} {ds : List (Declaration L)} {e : EntityId} {y : Entity}
  {es : List EntityId} {answers : List (Except Failure EntityId)} {answer : Except Failure Unit}
  {f : Failure} {reply : LoadReply L} {replies : List (LoadReply L)} {loader loader' : L} {w w' : W}

/-! ## What definitions keep -/

/-- If all definitions succeed, their entities are the answers. -/
theorem definitions_map_ok (es : List EntityId) : definitions (es.map .ok) = es := by
  induction es with
  | nil => rfl
  | cons e es ih => exact congrArg (e :: ·) ih

/-- A scope in which a declaration can be defined is one that defines it. -/
theorem definable_iff (ha : s.tables.Arranged) (hx : s.tables.scopes.get? c = some x) :
    s.tables.Definable c d ↔ ∃ e s', host.perform fuel (.define c d) s = (.ok (.ok e), s') := by
  obtain ⟨f, s', hd, hrun, -⟩ | ⟨s', hd, hrun, -⟩ := perform_define_cases ha hx host fuel d
  · rw [hrun]
    exact ⟨fun h => (hd h).elim, nofun⟩
  · exact ⟨fun _ => ⟨_, s', hrun⟩, fun _ => hd⟩

namespace DefinesEach

/-- Definitions one after the other keep tables arranged. -/
theorem arranged (h : DefinesEach host fuel c s ds answers s') (ha : s.tables.Arranged) :
    s'.tables.Arranged := by
  induction h with
  | nil => exact ha
  | defined hrun _ _ _ _ ih => exact ih (arranged_of_define ha hrun)
  | refused hrun _ _ ih =>
    have ha₁ := arranged_of_define ha hrun
    exact ih ha₁

theorem world_eq (h : DefinesEach host fuel c s ds answers s') : s'.world = s.world := by
  induction h with
  | nil => rfl
  | defined _ hadds _ _ _ ih => exact ih.trans hadds.world
  | refused _ hunmoved _ ih => exact ih.trans hunmoved.world

/-- Definitions leave the entities alone that are there. -/
theorem get?_entities (h : DefinesEach host fuel c s ds answers s')
    (hy : s.tables.entities.get? e = some y) : s'.tables.entities.get? e = some y := by
  induction h with
  | nil => exact hy
  | defined _ hadds _ _ _ ih => exact ih (hadds.tables.get?_entities_of_some hy)
  | refused _ hunmoved _ ih => exact ih ((hunmoved.tables.entities e).trans hy)

/-- What was defined is new. -/
theorem fresh (h : DefinesEach host fuel c s ds answers s') :
    ∀ e ∈ definitions answers, s.tables.entities.get? e = none := by
  induction h with
  | nil => nofun
  | @defined s s₁ s' x d ds answers hrun hadds hx hscope hrest ih =>
    refine List.forall_mem_cons.2 ⟨hadds.tables.fresh, fun e he => ?_⟩
    by_contra hne
    obtain ⟨y, hy⟩ := Option.ne_none_iff_exists'.1 hne
    cases (ih e he).symm.trans (hadds.tables.get?_entities_of_some hy)
  | refused _ hunmoved _ ih => exact fun e he => (hunmoved.tables.entities e).symm.trans (ih e he)

/-- If nothing is refused, every declaration has become an entity. -/
theorem made (h : DefinesEach host fuel c s ds answers s') (hes : answers = es.map .ok) :
    List.Forall₂ (s'.tables.Made c) ds es := by
  induction h generalizing es with
  | nil =>
    obtain rfl := List.map_eq_nil_iff.1 hes.symm
    exact .nil
  | @defined s s₁ s' x d ds answers hrun hadds hx hscope hrest ih =>
    obtain ⟨e, es', rfl, he, htail⟩ := List.map_eq_cons_iff.1 hes.symm
    obtain rfl := Except.ok.inj he
    obtain ⟨kind, hkind, hget⟩ := hadds.tables.made
    exact .cons ⟨kind, hkind, hrest.get?_entities hget⟩ (ih htail.symm)
  | refused =>
    obtain ⟨e, es, -, he, -⟩ := List.map_eq_cons_iff.1 hes.symm
    cases he

/-- What could be defined before the reply can be defined after it. -/
theorem definable (h : DefinesEach host fuel c s ds answers s') (ha : s.tables.Arranged)
    (hd : s.tables.Definable c d) (hne : ∀ d' ∈ ds, (d'.name, d'.params) ≠ (d.name, d.params)) :
    s'.tables.Definable c d := by
  induction h with
  | nil => exact hd
  | @defined s s₁ s' x d' ds answers hrun hadds hx hscope hrest ih =>
    obtain ⟨hne, hnes⟩ := List.forall_mem_cons.1 hne
    refine ih (arranged_of_define ha hrun)
      ⟨hadds.tables.refusal?_eq_none ha.toMatched hd.1, fun x' hx' => ?_⟩ hnes
    obtain rfl := Option.some.inj (hscope.symm.trans hx')
    have hprune : ((x.push d'.name d'.params s.tables.entities.next).prune s.gone).find?
        d.name d.params = (x.push d'.name d'.params s.tables.entities.next).find? d.name d.params :=
      rfl
    rw [hprune, Option.eq_none_iff_forall_ne_some]
    intro e he
    rcases Scope.find?_push_cases he with he | ⟨hname, hparams, -⟩
    · cases (hd.2 x hx).symm.trans he
    · exact hne (Prod.ext hname.symm hparams.symm)
  | @refused s s₁ s' d' f ds answers hrun hunmoved hrest ih =>
    have ha₁ := arranged_of_define ha hrun
    refine ih ha₁ ⟨?_, fun x' hx' => ?_⟩ (List.forall_mem_cons.1 hne).2
    · exact (hunmoved.tables.refusal? d.kind).trans hd.1
    · exact hd.2 x' ((hunmoved.tables.scopes c).symm.trans hx')

end DefinesEach

/-! ## Batches of loaders -/

/-- A batch is defined as far as nothing is refused. What is refused ends it. -/
inductive DefinesUntil (host : Host L T W) (fuel : Nat) (c : ScopeId) (s : Session L T W) :
    List (Declaration L) → List EntityId → Except Failure Unit → Session L T W → Prop
  | all {ds : List (Declaration L)} {es : List EntityId} {s' : Session L T W}
    (h : DefinesEach host fuel c s ds (es.map .ok) s') :
    DefinesUntil host fuel c s ds es (.ok ()) s'
  | stopped {before after : List (Declaration L)} {d : Declaration L} {es : List EntityId}
    {f : Failure} {s₁ s₂ : Session L T W} (h : DefinesEach host fuel c s before (es.map .ok) s₁)
    (hrun : host.perform fuel (.define c d) s₁ = (.ok (.error f), s₂)) (hunmoved : Unmoved s₁ s₂) :
    DefinesUntil host fuel c s (before ++ d :: after) es (.error f)
      (s₂.log (.noted (.unusable d.name f)))

theorem Unmoved.log (h : Unmoved s s') (n : Note) : Unmoved s (s'.log (.noted n)) :=
  ⟨h.tables, h.gone, h.world, h.unheard.log id⟩

/-- What has been defined of a batch is a beginning of it. -/
theorem DefinesUntil.exists_definesEach (h : DefinesUntil host fuel c s ds es answer s') :
    ∃ before s₁, before <+: ds ∧ DefinesEach host fuel c s before (es.map .ok) s₁ ∧
      Unmoved s₁ s' ∧ (s₁.tables.Arranged → s'.tables.Arranged) := by
  cases h with
  | all h => exact ⟨ds, s', List.prefix_refl ds, h, .refl s', id⟩
  | @stopped before after d es f s₁ s₂ h hrun hunmoved =>
    exact ⟨before, s₁, List.prefix_append _ _, h, hunmoved.log _,
      fun ha => (arranged_of_define ha hrun : s₂.tables.Arranged)⟩

/-- The declarations of a batch are defined up to the first that is refused, with whose failure the
batch ends. -/
theorem run_defineAll (ha : s.tables.Arranged) (hx : s.tables.scopes.get? c = some x)
    (host : Host L T W) (fuel : Nat) (ds : List (Declaration L)) :
    ∃ es answer s', (defineAll c ds).run s = (answer.mapError Stop.failure, s') ∧
      DefinesUntil host fuel c s ds es answer s' := by
  induction ds generalizing s x with
  | nil => exact ⟨[], .ok (), s, rfl, .all (.nil s)⟩
  | cons d ds ih =>
    unfold defineAll
    obtain ⟨f, s₁, -, hrun, h₁⟩ | ⟨s₁, -, hrun, h₁, hscope⟩ :=
      perform_define_cases ha hx host fuel d
    · have hattempt : (attempt (define c d)).run s = (.ok (.error f), s₁) := hrun
      have hstopped : DefinesUntil host fuel c s ([] ++ d :: ds) [] (.error f) _ :=
        .stopped (.nil s) hrun h₁
      exact ⟨[], .error f, _, by rw [run_bind_of_ok hattempt]; rfl, hstopped⟩
    · have hattempt : (attempt (define c d)).run s = (.ok (.ok s.tables.entities.next), s₁) := hrun
      obtain ⟨es, answer, s', hrest, hends⟩ := ih (arranged_of_define ha hrun) hscope
      refine ⟨s.tables.entities.next :: es, answer, s', ?_, ?_⟩
      · rw [run_bind_of_ok hattempt]
        exact hrest
      · cases hends with
        | all h => exact .all (.defined hrun h₁ hx hscope h)
        | @stopped before after d' es f s₁ s₂ h hrun' hunmoved =>
          have hstopped : DefinesUntil host fuel c s ((d :: before) ++ d' :: after)
              (s.tables.entities.next :: es) (.error f) _ :=
            .stopped (.defined hrun h₁ hx hscope h) hrun' hunmoved
          exact hstopped

/-- If everything can be defined, and nothing gets in the way of another, the whole batch is. -/
theorem DefinesUntil.of_definable (h : DefinesUntil host fuel c s ds es answer s')
    (ha : s.tables.Arranged) (hx : s.tables.scopes.get? c = some x)
    (hdef : ∀ d ∈ ds, s.tables.Definable c d)
    (hdistinct : ds.Pairwise fun d d' => (d.name, d.params) ≠ (d'.name, d'.params)) :
    answer = .ok () ∧ DefinesEach host fuel c s ds (es.map .ok) s' := by
  cases h with
  | all h => exact ⟨rfl, h⟩
  | @stopped before after d es f s₁ s₂ h hrun =>
    obtain ⟨x₁, hx₁, -⟩ := h.scope hx
    have hd : d ∈ before ++ d :: after := List.mem_append_right _ List.mem_cons_self
    have hne := fun d' hd' => (List.pairwise_append.1 hdistinct).2.2 d' hd' d List.mem_cons_self
    obtain ⟨e, s₃, hok⟩ :=
      (definable_iff (h.arranged ha) hx₁).1 (h.definable ha (hdef d hd) hne)
    cases hrun.symm.trans hok

/-! ## Loaders that only reply -/

/-- Asked for everything, the loader replies without having performed an operation, whatever the
session is : it is left to the world what the reply hangs on. -/
def Says (host : Host L T W) (c : ScopeId) (loader : L) (w : W) (reply : LoadReply L) (loader' : L)
    (w' : W) : Prop :=
  (host.load loader c none).Within (fun _ => False) ∧ ∀ fuel (s : Session L T W), s.world = w →
    ∃ s', host.run fuel (host.load loader c none) s = (.ok (reply, loader'), s') ∧ s'.world = w'

/-- Asked for everything again and again, the loader gives the replies in order, and then says that
it is done. -/
def Recites (host : Host L T W) (c : ScopeId) : List (LoadReply L) → L → W → Prop
  | [], loader, w => ∃ loader' w', Says host c loader w .done loader' w'
  | reply :: replies, loader, w =>
    ∃ loader' w', Says host c loader w reply loader' w' ∧ Recites host c replies loader' w'

/-- A script without operations leaves the tables alone. -/
theorem tables_run_of_within {script : Script L T W α} (h : script.Within fun _ => False)
    (services : Services L T W) (s : Session L T W) :
    ((script.run services).run s).2.tables = s.tables ∧
      ((script.run services).run s).2.gone = s.gone := by
  induction script generalizing s with
  | done a => exact ⟨rfl, rfl⟩
  | fault f => exact ⟨rfl, rfl⟩
  | call op next ih => exact h.1.elim
  | inspect next ih => exact ih _ (h _) s
  | readWorld next ih => exact ih _ (h _) s
  | writeWorld w next ih => exact ih h { s with world := w }
  | remark text next ih => exact ih h (s.log (.remarked text))

/-- The loader is back in its scope, which has moved to a state. -/
structure Replied (c : ScopeId) (loader : L) (state : LoadState) (s s₀ : Session L T W) :
    Prop where
  tables : s₀.tables = (s.mapScope c fun x => { x with state, loader := some loader }).tables
  gone : s₀.gone = s.gone

namespace Replied

variable {state : LoadState}

/-- The scope is there when the loader has replied. -/
theorem here (h : Replied c loader state s s₀) (hx : s.tables.scopes.get? c = some x) :
    s₀.tables.scopes.get? c = some { x with state, loader := some loader } := by
  rw [h.tables]
  exact get?_mapScope hx _

theorem arranged (h : Replied c loader state s s₀) (ha : s.tables.Arranged) :
    s₀.tables.Arranged := by
  have hmove : Move (fun _ => True) s
      (s.mapScope c fun x => { x with state, loader := some loader }) :=
    .loading s c (fun _ => state) fun _ => some loader
  rw [h.tables]
  exact hmove.arranged ha

theorem entities (h : Replied c loader state s s₀) : s₀.tables.entities = s.tables.entities := by
  rw [h.tables]
  rfl

theorem definable (h : Replied c loader state s s₀) (hx : s.tables.scopes.get? c = some x)
    (hd : s.tables.Definable c d) : s₀.tables.Definable c d := by
  refine ⟨?_, fun x' hx' => ?_⟩
  · rw [h.tables]
    exact hd.1
  · obtain rfl := Option.some.inj ((h.here hx).symm.trans hx')
    exact hd.2 x hx

end Replied

/-- The call of a loader that only replies puts the loader back, and changes no other table. -/
theorem run_callLoader_of_says (fuel : Nat) (hx : s.tables.scopes.get? c = some x)
    (h : Says host c loader s.world reply loader' w') :
    ∃ s', (callLoader (host.services (fuel + 1)) c loader none).run s = (.ok reply, s') ∧
      s'.tables = (s.mapScope c fun x => { x with loader := some loader' }).tables ∧
      s'.gone = s.gone ∧ s'.world = w' := by
  obtain ⟨s₁, hscript, hworld⟩ := h.2 fuel (s.log (.loadBegan c none)) rfl
  obtain ⟨htables, hgone⟩ :=
    tables_run_of_within h.1 (host.services fuel) (s.log (.loadBegan c none))
  have hload : ((host.load loader c none).run (host.services fuel)).run
      (s.log (.loadBegan c none)) = (.ok (reply, loader'), s₁) := hscript
  rw [hload] at htables hgone
  have hx₁ : s₁.tables.scopes.get? c = some x := by
    rw [htables]
    exact hx
  refine ⟨(s₁.log (.loadEnded c reply.outcome)).mapScope c fun x =>
    { x with loader := some loader' }, ?_, ?_, hgone, hworld⟩
  · exact run_callLoader (host.services (fuel + 1)) hscript hx₁
  · exact tables_mapScope_congr (s := s₁) htables _

/-- The end of a full load : the scope has its new state, and what the loader wants to have defined
is then defined. -/
theorem run_endFull (hx : s.tables.scopes.get? c = some x) (e : EntityId) (reply : LoadReply L)
    (before : LoadState) :
    ∃ s₀, s₀.tables = (s.mapScope c fun x =>
        { x with state := stateAfter none reply.outcome before }).tables ∧
      s₀.gone = s.gone ∧ s₀.world = s.world ∧
      (endFull c e reply).run s = (defineAll c reply.declarations).run s₀ := by
  cases reply with
  | done =>
    obtain ⟨n, hend⟩ := run_setState_note hx .loaded .loaded e
    exact ⟨(s.mapScope c fun x => { x with state := .loaded }).log (.noted n), rfl, rfl, rfl, hend⟩
  | notReady =>
    obtain ⟨n, hend⟩ := run_setState_note hx .unloaded .notReady e
    exact ⟨(s.mapScope c fun x => { x with state := .unloaded }).log (.noted n), rfl, rfl, rfl,
      hend⟩
  | batch ds => exact ⟨_, rfl, rfl, rfl, run_bind_of_ok (run_setState hx .unloaded) _⟩

/-- A full load comes to this : the loader is back and the scope has its new state, and what the
loader wants to have defined is then defined. -/
theorem run_forceLoad_of_says (fuel : Nat) (hx : s.tables.scopes.get? c = some x)
    (hstate : x.state = .unloaded) (hl : x.loader = some loader)
    (h : Says host c loader s.world reply loader' w') :
    ∃ s₀, Replied c loader' (stateAfter none reply.outcome x.state) s s₀ ∧ s₀.world = w' ∧
      (forceLoad (host.services (fuel + 1)) c).run s = (defineAll c reply.declarations).run s₀ := by
  obtain ⟨n, hload⟩ := run_forceLoad_of_loader (host.services (fuel + 1)) hx hstate hl
  generalize hbegun : (s.mapScope c fun x =>
    { x with loader := none, state := stateDuring none x.state }).log (.noted n) = begun at hload
  have hx₁ : begun.tables.scopes.get? c =
      some { x with loader := none, state := stateDuring none x.state } :=
    hbegun ▸ get?_mapScope hx _
  have hworld : begun.world = s.world := by
    rw [← hbegun]
    rfl
  have hgone : begun.gone = s.gone := by
    rw [← hbegun]
    rfl
  obtain ⟨s₁, hcall, htables₁, hgone₁, hworld₁⟩ :=
    run_callLoader_of_says fuel hx₁ (hworld ▸ h)
  have hback : s₁.tables.scopes.get? c =
      some { x with loader := some loader', state := stateDuring none x.state } := by
    rw [htables₁]
    exact get?_mapScope hx₁ _
  obtain ⟨s₀, htables₀, hgone₀, hworld₀, hend⟩ := run_endFull hback x.entity reply x.state
  refine ⟨s₀, ⟨?_, hgone₀.trans (hgone₁.trans hgone)⟩, hworld₀.trans hworld₁,
    hload.trans ((run_bind_of_ok hcall _).trans hend)⟩
  have htables : begun.tables = (s.mapScope c fun x =>
      { x with loader := none, state := stateDuring none x.state }).tables := by
    rw [← hbegun]
    rfl
  rw [htables₀, tables_mapScope_congr htables₁,
    tables_mapScope_congr (tables_mapScope_congr htables _), mapScope_mapScope, mapScope_mapScope]
  rfl

/-! ## Asking again and again -/

/-- The session after everything has been asked for so many times. -/
def asked (host : Host L T W) (fuel : Nat) (c : ScopeId) (n : Nat) (s : Session L T W) :
    Session L T W :=
  host.after fuel (List.replicate n (.forceLoad c)) s

theorem asked_succ (host : Host L T W) (fuel : Nat) (c : ScopeId) (n : Nat) (s : Session L T W) :
    asked host fuel c (n + 1) s = (host.perform fuel (.forceLoad c) (asked host fuel c n s)).2 := by
  unfold asked Host.after
  rw [List.replicate_succ', List.foldl_append]
  rfl

/-- The scope is unloaded, with a loader that still has these replies to give. -/
structure Reciting (host : Host L T W) (c : ScopeId) (replies : List (LoadReply L))
    (s : Session L T W) (x : Scope L T) : Prop where
  arranged : s.tables.Arranged
  here : s.tables.scopes.get? c = some x
  unloaded : x.state = .unloaded
  recites : ∃ loader, x.loader = some loader ∧ Recites host c replies loader s.world

/-- A full load brings the next reply, and defines as much of it as it can. -/
structure Delivers (host : Host L T W) (fuel : Nat) (c : ScopeId) (reply : LoadReply L)
    (s : Session L T W) (es : List EntityId) (answer : Except Failure Unit) (s' : Session L T W) :
    Prop where
  run : host.perform fuel (.forceLoad c) s = (.ok answer, s')
  defines : ∃ loader s₀, Replied c loader .unloaded s s₀ ∧
    DefinesUntil host fuel c s₀ reply.declarations es answer s'

/-- What a batch leaves : its scope has got what was defined, and has its loader still. -/
theorem DefinesUntil.scope (h : DefinesUntil host fuel c s ds es answer s')
    (ha : s.tables.Arranged) (hx : s.tables.scopes.get? c = some x) :
    s'.tables.Arranged ∧ s'.world = s.world ∧ ∃ x', s'.tables.scopes.get? c = some x' ∧
      x'.state = x.state ∧ x'.loader = x.loader ∧ x'.content.Perm (x.content ++ es) := by
  obtain ⟨before, s₁, -, hends, hunmoved, harranged⟩ := h.exists_definesEach
  obtain ⟨x', hx', hstate, hloader, hcontent⟩ := hends.scope hx
  rw [definitions_map_ok] at hcontent
  exact ⟨harranged (hends.arranged ha), hunmoved.world.trans hends.world_eq, x',
    (hunmoved.tables.scopes c).trans hx', hstate, hloader, hcontent⟩

/-- A loader that has not come to its end stays in its scope, whatever becomes of its reply. -/
theorem Reciting.delivers (h : Reciting host c (reply :: replies) s x) (hreply : reply ≠ .done)
    (fuel : Nat) :
    ∃ es answer s' x', Delivers host (fuel + 1) c reply s es answer s' ∧
      Reciting host c replies s' x' ∧ x'.content.Perm (x.content ++ es) := by
  obtain ⟨loader, hl, loader', w', hsays, hrest⟩ := h.recites
  obtain ⟨s₀, hreplied, hworld, hrun⟩ := run_forceLoad_of_says fuel h.here h.unloaded hl hsays
  have hstate : stateAfter none reply.outcome x.state = .unloaded := by
    cases reply with
    | done => exact absurd rfl hreply
    | notReady => rfl
    | batch ds => rfl
  rw [hstate] at hreplied
  have ha₀ := hreplied.arranged h.arranged
  have hx₀ := hreplied.here h.here
  obtain ⟨es, answer, s', hall, hends⟩ :=
    run_defineAll ha₀ hx₀ host (fuel + 1) reply.declarations
  obtain ⟨ha', hworld', x', hx', hstate', hloader', hcontent⟩ :=
    hends.scope ha₀ hx₀
  refine ⟨es, answer, s', x', ⟨?_, loader', s₀, hreplied, hends⟩,
    ⟨ha', hx', hstate', loader', hloader', ?_⟩, hcontent⟩
  · exact run_attempt_of_mapError (hrun.trans hall)
  · rwa [hworld', hworld]

/-- What the definable declarations of a reply come to : each of them is an entity more, and those
of the other replies can be defined still. -/
theorem Reciting.delivers_all (h : Reciting host c (reply :: replies) s x)
    (hreply : reply ≠ .done)
    (hdef : ∀ d ∈ (reply :: replies).flatMap LoadReply.declarations, s.tables.Definable c d)
    (hdistinct : ((reply :: replies).flatMap LoadReply.declarations).Pairwise fun d d' =>
      (d.name, d.params) ≠ (d'.name, d'.params)) (fuel : Nat) :
    ∃ es s' x', Delivers host (fuel + 1) c reply s es (.ok ()) s' ∧
      Reciting host c replies s' x' ∧ x'.content.Perm (x.content ++ es) ∧
      List.Forall₂ (s'.tables.Made c) reply.declarations es ∧
      (∀ e ∈ es, s.tables.entities.get? e = none) ∧
      (∀ e y, s.tables.entities.get? e = some y → s'.tables.entities.get? e = some y) ∧
      ∀ d ∈ replies.flatMap LoadReply.declarations, s'.tables.Definable c d := by
  obtain ⟨es, answer, s', x', hdelivers, hrest, hcontent⟩ := h.delivers hreply fuel
  obtain ⟨hrun, loader, s₀, hreplied, hends⟩ := hdelivers
  have ha₀ := hreplied.arranged h.arranged
  rw [List.flatMap_cons] at hdef hdistinct
  obtain ⟨hhere, -, hlater⟩ := List.pairwise_append.1 hdistinct
  have hdef₀ := fun d hd => hreplied.definable h.here (hdef d hd)
  obtain ⟨rfl, heach⟩ := hends.of_definable ha₀ (hreplied.here h.here)
    (fun d hd => hdef₀ d (List.mem_append_left _ hd)) hhere
  have hfresh := heach.fresh
  rw [definitions_map_ok, hreplied.entities] at hfresh
  refine ⟨es, s', x', ⟨hrun, loader, s₀, hreplied, hends⟩, hrest, hcontent, heach.made rfl, hfresh,
    fun e y hy => heach.get?_entities (hreplied.entities ▸ hy), fun d hd => ?_⟩
  exact heach.definable ha₀ (hdef₀ d (List.mem_append_right _ hd)) fun d' hd' => hlater d' hd' d hd

/-- At the end of its replies the loader says so, and the scope is loaded. -/
theorem Reciting.forceLoad_done (h : Reciting host c [] s x) (fuel : Nat) :
    ∃ s' x', host.perform (fuel + 1) (.forceLoad c) s = (.ok (.ok ()), s') ∧
      s'.tables.scopes.get? c = some x' ∧ x'.state = .loaded ∧ x'.content = x.content := by
  obtain ⟨loader, hl, loader', w', hsays⟩ := h.recites
  obtain ⟨s₀, hreplied, -, hrun⟩ := run_forceLoad_of_says fuel h.here h.unloaded hl hsays
  exact ⟨s₀, _, run_attempt_of_mapError (r := .ok ()) hrun, hreplied.here h.here, rfl, rfl⟩

/-- A loaded scope is left alone. -/
theorem perform_forceLoad_of_loaded (hx : s.tables.scopes.get? c = some x)
    (hstate : x.state = .loaded) (host : Host L T W) (fuel : Nat) :
    host.perform fuel (.forceLoad c) s = (.ok (.ok ()), s) := by
  exact run_attempt_of_mapError (r := .ok ()) (run_forceLoad_of_loaded _ hx hstate)

/-- As many replies have been given as were asked for. -/
theorem Reciting.asked (h : Reciting host c replies s x) (hopen : ∀ r ∈ replies, r ≠ .done)
    (fuel : Nat) {i : Nat} (hi : i ≤ replies.length) :
    ∃ xᵢ, Reciting host c (replies.drop i) (asked host (fuel + 1) c i s) xᵢ := by
  induction i with
  | zero => exact ⟨x, h⟩
  | succ i ih =>
    obtain ⟨xᵢ, hᵢ⟩ := ih (Nat.le_of_succ_le hi)
    rw [List.drop_eq_getElem_cons hi] at hᵢ
    obtain ⟨es, answer, s', x', hdelivers, hrest, -⟩ :=
      hᵢ.delivers (hopen _ (List.getElem_mem hi)) fuel
    rw [asked_succ, hdelivers.run]
    exact ⟨x', hrest⟩

/-- As long as everything can be defined, what has been delivered is there and the rest can be
defined still. -/
theorem Reciting.asked_all (h : Reciting host c replies s x) (hopen : ∀ r ∈ replies, r ≠ .done)
    (hdef : ∀ d ∈ replies.flatMap LoadReply.declarations, s.tables.Definable c d)
    (hdistinct : (replies.flatMap LoadReply.declarations).Pairwise fun d d' =>
      (d.name, d.params) ≠ (d'.name, d'.params)) (fuel : Nat) {i : Nat}
    (hi : i ≤ replies.length) :
    ∃ xᵢ es, Reciting host c (replies.drop i) (Session.asked host (fuel + 1) c i s) xᵢ ∧
      (∀ j < i, (host.perform (fuel + 1) (.forceLoad c)
        (Session.asked host (fuel + 1) c j s)).1 = .ok (.ok ())) ∧
      xᵢ.content.Perm (x.content ++ es) ∧
      List.Forall₂ ((Session.asked host (fuel + 1) c i s).tables.Made c)
        ((replies.take i).flatMap LoadReply.declarations) es ∧
      (∀ e ∈ es, s.tables.entities.get? e = none) ∧
      (∀ e y, s.tables.entities.get? e = some y →
        (Session.asked host (fuel + 1) c i s).tables.entities.get? e = some y) ∧
      ∀ d ∈ (replies.drop i).flatMap LoadReply.declarations,
        (Session.asked host (fuel + 1) c i s).tables.Definable c d := by
  induction i with
  | zero =>
    exact ⟨x, [], h, nofun, .of_eq (List.append_nil _).symm, .nil, nofun, fun _ _ => id, hdef⟩
  | succ i ih =>
    obtain ⟨xᵢ, es, hᵢ, hanswers, hcontent, hmade, hfresh, hkeeps, hdefᵢ⟩ :=
      ih (Nat.le_of_succ_le hi)
    have hdistinctᵢ := hdistinct
    rw [← List.take_append_drop i replies, List.flatMap_append] at hdistinctᵢ
    replace hdistinctᵢ := (List.pairwise_append.1 hdistinctᵢ).2.1
    rw [List.drop_eq_getElem_cons hi] at hᵢ hdefᵢ hdistinctᵢ
    obtain ⟨es', s', x', hdelivers, hrest, hcontent', hmade', hfresh', hkeeps', hdef'⟩ :=
      hᵢ.delivers_all (hopen _ (List.getElem_mem hi)) hdefᵢ hdistinctᵢ fuel
    rw [asked_succ, hdelivers.run]
    refine ⟨x', es ++ es', hrest, fun j hj => ?_, ?_, ?_, ?_,
      fun e y hy => hkeeps' e y (hkeeps e y hy), hdef'⟩
    · rcases Nat.lt_succ_iff_lt_or_eq.1 hj with hj | rfl
      · exact hanswers j hj
      · rw [hdelivers.run]
    · rw [← List.append_assoc]
      exact hcontent'.trans (hcontent.append_right es')
    · have hstay : List.Forall₂ (s'.tables.Made c)
          ((replies.take i).flatMap LoadReply.declarations) es :=
        hmade.imp fun d e ⟨kind, hkind, he⟩ => ⟨kind, hkind, hkeeps' e _ he⟩
      rw [List.take_succ_eq_append_getElem hi, List.flatMap_append, List.flatMap_singleton]
      exact List.rel_append hstay hmade'
    · intro e he
      rcases List.mem_append.1 he with he | he
      · exact hfresh e he
      · refine Option.eq_none_iff_forall_ne_some.2 fun y hy => ?_
        cases (hfresh' e he).symm.trans (hkeeps e y hy)

/-! ## Every session -/

/-- In a session that hosts can bring about, an unloaded scope has a loader that gives some replies,
one for every time that everything is asked of it, and then is done; it performs no operations.
Asked again and again :
* the next reply is delivered, as far as it can be defined; the scope stays unloaded and has got
  what was defined, and its loader is back with the other replies, also if the load has failed;
* if all declarations of the replies can be defined, and differ in name or signature, no load fails,
  and the scope has got exactly the declarations of the replies so far;
* the load after the last reply leaves the scope loaded;
* from then on a load does nothing at all. -/
theorem deliveries_complete {config : Config} {world : W}
    (h : Reaches (fun _ => True) (start config world) s) (hx : s.tables.scopes.get? c = some x)
    (hstate : x.state = .unloaded) (hl : x.loader = some loader)
    (hrecites : Recites host c replies loader s.world) (hopen : ∀ r ∈ replies, r ≠ .done)
    (fuel : Nat) :
    (∀ i reply, replies[i]? = some reply → ∃ xᵢ es answer x',
      Reciting host c (reply :: replies.drop (i + 1)) (asked host (fuel + 1) c i s) xᵢ ∧
      Delivers host (fuel + 1) c reply (asked host (fuel + 1) c i s) es answer
        (asked host (fuel + 1) c (i + 1) s) ∧
      Reciting host c (replies.drop (i + 1)) (asked host (fuel + 1) c (i + 1) s) x' ∧
      x'.content.Perm (xᵢ.content ++ es)) ∧
    ((∀ d ∈ replies.flatMap LoadReply.declarations, ∃ e s',
        host.perform (fuel + 1) (.define c d) s = (.ok (.ok e), s')) →
      ((replies.flatMap LoadReply.declarations).map fun d => (d.name, d.params)).Nodup →
      ∀ i ≤ replies.length, ∃ xᵢ es,
        (∀ j < i, (host.perform (fuel + 1) (.forceLoad c) (asked host (fuel + 1) c j s)).1 =
          .ok (.ok ())) ∧
        (asked host (fuel + 1) c i s).tables.scopes.get? c = some xᵢ ∧ xᵢ.state = .unloaded ∧
        xᵢ.content.Perm (x.content ++ es) ∧
        List.Forall₂ ((asked host (fuel + 1) c i s).tables.Made c)
          ((replies.take i).flatMap LoadReply.declarations) es ∧
        ∀ e ∈ es, s.tables.entities.get? e = none) ∧
    (∃ y z, (asked host (fuel + 1) c replies.length s).tables.scopes.get? c = some y ∧
      host.perform (fuel + 1) (.forceLoad c) (asked host (fuel + 1) c replies.length s) =
        (.ok (.ok ()), asked host (fuel + 1) c (replies.length + 1) s) ∧
      (asked host (fuel + 1) c (replies.length + 1) s).tables.scopes.get? c = some z ∧
      z.state = .loaded ∧ z.content = y.content) ∧
    ∀ n, replies.length < n → host.perform (fuel + 1) (.forceLoad c)
      (asked host (fuel + 1) c n s) = (.ok (.ok ()), asked host (fuel + 1) c n s) := by
  have ha := h.arranged
  have hreciting : Reciting host c replies s x := ⟨ha, hx, hstate, loader, hl, hrecites⟩
  have hend : ∃ y z, (asked host (fuel + 1) c replies.length s).tables.scopes.get? c = some y ∧
      host.perform (fuel + 1) (.forceLoad c) (asked host (fuel + 1) c replies.length s) =
        (.ok (.ok ()), asked host (fuel + 1) c (replies.length + 1) s) ∧
      (asked host (fuel + 1) c (replies.length + 1) s).tables.scopes.get? c = some z ∧
      z.state = .loaded ∧ z.content = y.content := by
    obtain ⟨y, hy⟩ := hreciting.asked hopen fuel le_rfl
    rw [List.drop_length] at hy
    obtain ⟨s', z, hrun, hz, hloaded, hcontent⟩ := hy.forceLoad_done fuel
    rw [asked_succ, hrun]
    exact ⟨y, z, hy.here, rfl, hz, hloaded, hcontent⟩
  refine ⟨fun i reply hi => ?_, fun hdef hdistinct i hi => ?_, hend, fun n hn => ?_⟩
  · obtain ⟨hlt, rfl⟩ := List.getElem?_eq_some_iff.1 hi
    obtain ⟨xᵢ, hᵢ⟩ := hreciting.asked hopen fuel hlt.le
    rw [List.drop_eq_getElem_cons hlt] at hᵢ
    obtain ⟨es, answer, s', x', hdelivers, hrest, hcontent⟩ :=
      hᵢ.delivers (hopen _ (List.getElem_mem hlt)) fuel
    rw [asked_succ, hdelivers.run]
    exact ⟨xᵢ, es, answer, x', hᵢ, hdelivers, hrest, hcontent⟩
  · obtain ⟨xᵢ, es, hᵢ, hanswers, hcontent, hmade, hfresh, -⟩ :=
      hreciting.asked_all hopen (fun d hd => (definable_iff ha hx).2 (hdef d hd))
        (List.pairwise_map.1 hdistinct) fuel hi
    exact ⟨xᵢ, es, hanswers, hᵢ.here, hᵢ.unloaded, hcontent, hmade, hfresh⟩
  · induction n, hn using Nat.le_induction with
    | base =>
      obtain ⟨y, z, -, -, hz, hloaded, -⟩ := hend
      exact perform_forceLoad_of_loaded hz hloaded host (fuel + 1)
    | succ n hn ih =>
      rw [asked_succ, ih]
      exact ih

/-- A loader that gives two batches, and cannot run in between. -/
def parcels : List (LoadReply Nat) :=
  [.batch [{ name := "open", params := [], kind := .function .void, location := .unknown },
      { name := "Box", params := [], kind := .type none, location := .unknown }],
    .notReady,
    .batch [{ name := "open", params := [.void], kind := .function .void, location := .unknown }]]

/-- A host whose loaders count the parcels that they have delivered. -/
def parcelHost : Host Nat Unit Unit where
  templateName _ := ""
  generate _ _ _ _ := none
  load n _ _ := .done (parcels.getD n .done, n + 1)

/-- A package that the parcels are for. -/
def doorstep : Session Nat Unit Unit :=
  (parcelHost.perform 1 (.define rootScope
    { name := "home", params := [], kind := .package (some 0), location := .unknown })
    (Session.start {} ())).2

/-- The parcels are all delivered by the third time, and the scope is still to be loaded. -/
theorem deliveries_complete_doorstep :
    Recites parcelHost ⟨1, 0⟩ parcels 0 () ∧
    (∃ x es, (asked parcelHost 2 ⟨1, 0⟩ 3 doorstep).tables.scopes.get? ⟨1, 0⟩ = some x ∧
      x.state = .unloaded ∧ x.content.Perm es ∧ List.Forall₂
        ((asked parcelHost 2 ⟨1, 0⟩ 3 doorstep).tables.Made ⟨1, 0⟩)
        (parcels.flatMap LoadReply.declarations) es) ∧
    ∃ z, (asked parcelHost 2 ⟨1, 0⟩ 4 doorstep).tables.scopes.get? ⟨1, 0⟩ = some z ∧
      z.state = .loaded := by
  have hreached : Reaches (fun _ => True) (start {} ()) doorstep :=
    (Reaches.refl _).perform (parcelHost.within_of_forall fun _ => trivial) 1 trivial
  have hx : doorstep.tables.scopes.get? ⟨1, 0⟩ = some { entity := ⟨1, 0⟩, loader := some 0 } := rfl
  have hsays (n : Nat) : Says parcelHost ⟨1, 0⟩ n () (parcels.getD n .done) (n + 1) () :=
    ⟨trivial, fun _ s _ => ⟨s, rfl, rfl⟩⟩
  have hrecites : Recites parcelHost ⟨1, 0⟩ parcels 0 () :=
    ⟨1, (), hsays 0, 2, (), hsays 1, 3, (), hsays 2, 4, (), hsays 3⟩
  have hopen : ∀ r ∈ parcels, r ≠ .done := by
    refine List.forall_mem_cons.2 ⟨nofun, List.forall_mem_cons.2 ⟨nofun, ?_⟩⟩
    exact List.forall_mem_singleton.2 nofun
  have hdef : ∀ d ∈ parcels.flatMap LoadReply.declarations, ∃ e s',
      parcelHost.perform 2 (.define ⟨1, 0⟩ d) doorstep = (.ok (.ok e), s') := by
    refine List.forall_mem_cons.2 ⟨⟨⟨2, 0⟩, _, Prod.ext (by decide +kernel) rfl⟩,
      List.forall_mem_cons.2 ⟨⟨⟨2, 0⟩, _, Prod.ext (by decide +kernel) rfl⟩,
      List.forall_mem_singleton.2 ⟨⟨2, 0⟩, _, Prod.ext (by decide +kernel) rfl⟩⟩⟩
  have hlength : parcels.length = 3 := rfl
  have htake : parcels.take 3 = parcels := rfl
  obtain ⟨-, hall, ⟨-, z, -, -, hz, hloaded, -⟩, -⟩ :=
    deliveries_complete hreached hx rfl rfl hrecites hopen 1
  obtain ⟨x, es, -, hx', hstate, hcontent, hmade, -⟩ := hall hdef (by decide) 3 hlength.ge
  simp only [hlength, Nat.reduceAdd] at hz
  simp only [htake, Nat.reduceAdd] at hx' hmade
  exact ⟨hrecites, ⟨x, es, hx', hstate, hcontent, hmade⟩, z, hz, hloaded⟩

end Session

end NameResolution
