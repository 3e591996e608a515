import NameResolution.Proofs.Session.Atomicity
import NameResolution.Proofs.Session.Observers

/-!
# Batches of definitions

The declarations of a batch are defined one after the other, each in the session that the ones
before it have left (`DefinesEach`). One that is refused leaves what is live as it was, and is
reported; one that is not makes one entity more. So the entities that come back and the diagnostics
add up to the declarations, and the scope has got exactly these entities (`batches_conserve`).
-/

namespace NameResolution

/-- The declaration can be defined in the scope. -/
def Tables.Definable {L T : Type} (t : Tables L T) (c : ScopeId) (d : Declaration L) : Prop :=
  t.refusal? d.kind = none ∧ ∀ x, t.scopes.get? c = some x → x.find? d.name d.params = none

namespace Session

variable {L T W : Type} {host : Host L T W} {fuel : Nat} {s s' s₁ : Session L T W} {c : ScopeId}
  {x : Scope L T} {d : Declaration L} {ds ds' : List (Declaration L)} {e : EntityId} {y : Entity}
  {answers answers' : List (Except Failure EntityId)}

/-! ## Answers -/

/-- The entities that were defined. -/
def definitions (answers : List (Except Failure EntityId)) : List EntityId :=
  answers.filterMap Except.toOption

/-- Why the others were refused. -/
def refusals (answers : List (Except Failure EntityId)) : List Failure :=
  answers.filterMap fun
    | .ok _ => none
    | .error f => some f

/-- An answer is an entity or a failure. -/
theorem length_definitions_add (answers : List (Except Failure EntityId)) :
    (definitions answers).length + (refusals answers).length = answers.length := by
  induction answers with
  | nil => rfl
  | cons answer answers ih =>
    cases answer with
    | ok e =>
      show (definitions answers).length + 1 + (refusals answers).length = answers.length + 1
      omega
    | error f =>
      show (definitions answers).length + ((refusals answers).length + 1) = answers.length + 1
      omega

/-! ## One declaration -/

/-- What a definition answers goes by whether the declaration can be defined. -/
theorem perform_define_cases (ha : s.tables.Arranged) (hx : s.tables.scopes.get? c = some x)
    (host : Host L T W) (fuel : Nat) (d : Declaration L) :
    (∃ f s', ¬s.tables.Definable c d ∧
      host.perform fuel (.define c d) s = (.ok (.error f), s') ∧ Unmoved s s') ∨
    ∃ s', s.tables.Definable c d ∧
      host.perform fuel (.define c d) s = (.ok (.ok s.tables.entities.next), s') ∧
      Adds s s' d (some c) ∧ s'.tables.scopes.get? c =
        some ((x.push d.name d.params s.tables.entities.next).prune s.gone) := by
  have hperform : host.perform fuel (.define c d) s = (attempt (define c d)).run s := rfl
  rw [hperform, run_attempt]
  obtain ⟨f, s', hf, hrun, hs'⟩ | ⟨e, y, s', -, he, -, hrun, hs'⟩ |
    ⟨s', hf, he, hrun, hs', hscope⟩ := define_cases ha hx d
  all_goals rw [hrun]
  · refine Or.inl ⟨f, s', fun hd => ?_, rfl, hs'⟩
    cases hd.1.symm.trans hf
  · refine Or.inl ⟨_, s', fun hd => ?_, rfl, hs'⟩
    cases (hd.2 x hx).symm.trans he
  · refine Or.inr ⟨s', ⟨hf, fun x' hx' => ?_⟩, rfl, hs', hscope⟩
    rwa [← Option.some.inj (hx.symm.trans hx')]

/-- To define keeps tables arranged, also when it fails. -/
theorem arranged_of_define {answer : Except Failure EntityId} (ha : s.tables.Arranged)
    (h : host.perform fuel (.define c d) s = (.ok answer, s')) : s'.tables.Arranged := by
  have hmoves : Moves (fun _ => True) s ((define c d).run s).2 := roams_define c d s ha.toMatched
  have hrun : (attempt (define c d)).run s = (.ok answer, s') := h
  rw [← run_attempt_snd, hrun] at hmoves
  exact hmoves.arranged ha

/-! ## One after the other -/

/-- Declarations are defined in a scope, one after the other. What is refused is noted, and leaves
what is live as it was. -/
inductive DefinesEach (host : Host L T W) (fuel : Nat) (c : ScopeId) : Session L T W →
    List (Declaration L) → List (Except Failure EntityId) → Session L T W → Prop
  | nil (s : Session L T W) : DefinesEach host fuel c s [] [] s
  | defined {s s₁ s' : Session L T W} {x : Scope L T} {d : Declaration L}
    {ds : List (Declaration L)} {answers : List (Except Failure EntityId)}
    (hrun : host.perform fuel (.define c d) s = (.ok (.ok s.tables.entities.next), s₁))
    (hadds : Adds s s₁ d (some c)) (hx : s.tables.scopes.get? c = some x)
    (hscope : s₁.tables.scopes.get? c =
      some ((x.push d.name d.params s.tables.entities.next).prune s.gone))
    (hrest : DefinesEach host fuel c s₁ ds answers s') :
    DefinesEach host fuel c s (d :: ds) (.ok s.tables.entities.next :: answers) s'
  | refused {s s₁ s' : Session L T W} {d : Declaration L} {f : Failure}
    {ds : List (Declaration L)} {answers : List (Except Failure EntityId)}
    (hrun : host.perform fuel (.define c d) s = (.ok (.error f), s₁)) (hunmoved : Unmoved s s₁)
    (hrest : DefinesEach host fuel c (s₁.log (.noted (.reporting f))) ds answers s') :
    DefinesEach host fuel c s (d :: ds) (.error f :: answers) s'

namespace DefinesEach

theorem length_eq (h : DefinesEach host fuel c s ds answers s') : answers.length = ds.length := by
  induction h with
  | nil => rfl
  | defined _ _ _ _ _ ih => rw [List.length_cons, List.length_cons, ih]
  | refused _ _ _ ih => rw [List.length_cons, List.length_cons, ih]

/-- The scope has got the entities that were defined, and its loading is where it was. -/
theorem scope (h : DefinesEach host fuel c s ds answers s')
    (hx : s.tables.scopes.get? c = some x) :
    ∃ x', s'.tables.scopes.get? c = some x' ∧ x'.state = x.state ∧ x'.loader = x.loader ∧
      x'.content.Perm (x.content ++ definitions answers) := by
  induction h generalizing x with
  | nil => exact ⟨x, hx, rfl, rfl, .of_eq (List.append_nil _).symm⟩
  | @defined s s₁ s' y d ds answers hrun hadds hy hscope hrest ih =>
    obtain rfl := Option.some.inj (hx.symm.trans hy)
    obtain ⟨x', hx', hstate, hloader, hcontent⟩ := ih hscope
    refine ⟨x', hx', hstate, hloader, hcontent.trans ?_⟩
    have hpush := (x.content_push d.name d.params s.tables.entities.next).append_right
      (definitions answers)
    rwa [List.append_assoc] at hpush
  | refused hrun hunmoved hrest ih => exact ih ((hunmoved.tables.scopes c).trans hx)

/-- There are as many entities more as were defined. -/
theorem size_entities (h : DefinesEach host fuel c s ds answers s') :
    s'.tables.entities.size = s.tables.entities.size + (definitions answers).length := by
  induction h with
  | nil => rfl
  | @defined s s₁ s' x d ds answers hrun hadds hx hscope hrest ih =>
    rw [ih, hadds.tables.size_entities]
    show _ = _ + ((definitions answers).length + 1)
    omega
  | refused hrun hunmoved hrest ih =>
    exact ih.trans (congrArg (· + _) hunmoved.tables.size_entities)

end DefinesEach

/-- Every declaration of a batch is defined, or is refused and reported. -/
theorem run_defineReporting (ha : s.tables.Arranged) (hx : s.tables.scopes.get? c = some x)
    (host : Host L T W) (fuel : Nat) (ds : List (Declaration L)) :
    ∃ answers s', (defineReporting c ds).run s =
        (.ok (definitions answers, (refusals answers).map Failure.diagnostic), s') ∧
      DefinesEach host fuel c s ds answers s' := by
  induction ds generalizing s x with
  | nil => exact ⟨[], s, rfl, .nil s⟩
  | cons d ds ih =>
    unfold defineReporting
    obtain ⟨f, s₁, -, hrun, h₁⟩ | ⟨s₁, -, hrun, h₁, hscope⟩ :=
      perform_define_cases ha hx host fuel d
    · have hattempt : (attempt (define c d)).run s = (.ok (.error f), s₁) := hrun
      have ha₁ : s₁.tables.Arranged := arranged_of_define ha hrun
      obtain ⟨answers, s', hrest, hends⟩ :=
        ih (s := s₁.log (.noted (.reporting f))) ha₁ ((h₁.tables.scopes c).trans hx)
      refine ⟨.error f :: answers, s', ?_, .refused hrun h₁ hends⟩
      rw [run_bind_of_ok hattempt]
      dsimp only
      rw [run_bind_of_ok (run_note _ _), run_bind_of_ok hrest]
      rfl
    · have hattempt : (attempt (define c d)).run s = (.ok (.ok s.tables.entities.next), s₁) := hrun
      obtain ⟨answers, s', hrest, hends⟩ := ih (arranged_of_define ha hrun) hscope
      refine ⟨_, s', ?_, .defined hrun h₁ hx hscope hends⟩
      rw [run_bind_of_ok hattempt]
      dsimp only
      rw [run_bind_of_ok hrest]
      rfl

/-! ## Every session -/

/-- In every session that hosts can bring about, a batch of declarations for a live scope comes back
with the entities of those that were defined, and with a diagnostic for each of the others, both in
order : together as many as there are declarations. What is refused leaves what is live as it was,
wherever it stands in the batch, and the scope has got the entities that came back and nothing else.
A diagnostic is an error under the code of the failure and at its location; and a name that is
required is found without any diagnostic, or is missed with the one of the failure. -/
theorem batches_conserve {config : Config} {world : W}
    (h : Reaches (fun _ => True) (start config world) s) (host : Host L T W) (fuel : Nat) :
    (∀ c x ds, s.tables.scopes.get? c = some x → ∃ answers s' x',
      host.perform fuel (.defineReporting c ds) s =
        (.ok (definitions answers, (refusals answers).map Failure.diagnostic), s') ∧
      DefinesEach host fuel c s ds answers s' ∧
      (definitions answers).length + ((refusals answers).map Failure.diagnostic).length =
        ds.length ∧
      s'.tables.scopes.get? c = some x' ∧ x'.content.Perm (x.content ++ definitions answers) ∧
      s'.tables.entities.size = s.tables.entities.size + (definitions answers).length) ∧
    (∀ f : Failure, f.diagnostic.severity = .error ∧
      f.diagnostic.code = some (ErrorCode.format f.code) ∧ f.diagnostic.location = f.location) ∧
    ∀ c n location found report s',
      host.perform fuel (.requireReporting c n location) s = (.ok (found, report), s') →
        match found with
        | some e => report = [] ∧ host.perform fuel (.require c n location) s = (.ok (.ok e), s')
        | none => ∃ f, report = [f.diagnostic] ∧
          host.perform fuel (.require c n location) s = (.ok (.error f), s') := by
  refine ⟨fun c x ds hx => ?_,
    fun f => ⟨f.severity_diagnostic, f.code_diagnostic, f.location_diagnostic⟩,
    fun c n location found report s' hrun => ?_⟩
  · obtain ⟨answers, s', hrun, hends⟩ := run_defineReporting h.arranged hx host fuel ds
    obtain ⟨x', hx', -, -, hcontent⟩ := hends.scope hx
    refine ⟨answers, s', x', hrun, hends, ?_, hx', hcontent, hends.size_entities⟩
    rw [List.length_map, length_definitions_add, hends.length_eq]
  · obtain ⟨answer, s₁, hrequire, hrest⟩ := exists_of_run_bind_eq_ok hrun
    cases answer with
    | ok e =>
      cases hrest
      exact ⟨rfl, hrequire⟩
    | error f =>
      cases hrest
      exact ⟨f, rfl, hrequire⟩

/-- A type that is there already, a subtype of it, a type whose supertype is no type, and a
function. -/
def litter : List (Declaration Unit) :=
  [{ name := "Dog", params := [], kind := .type (some ⟨1, 0⟩), location := .unknown },
    { name := "Puppy", params := [], kind := .type (some ⟨2, 1⟩), location := .unknown },
    { name := "Stray", params := [], kind := .type (some ⟨9, 0⟩), location := .unknown },
    { name := "bark", params := [], kind := .function .void, location := .unknown }]

/-- Two of the four are defined, and the others are reported. -/
theorem batches_conserve_litter :
    menagerie.tables.scopes.contains rootScope = true ∧ ∃ x answers s' x',
      menagerie.tables.scopes.get? rootScope = some x ∧
      fillingHost.perform 2 (.defineReporting rootScope litter) menagerie =
        (.ok (definitions answers, (refusals answers).map Failure.diagnostic), s') ∧
      definitions answers = [⟨5, 1⟩, ⟨6, 0⟩] ∧
      ((refusals answers).map Failure.diagnostic).map Diagnostic.code =
        [some "E2201", some "E2101"] ∧
      s'.tables.scopes.get? rootScope = some x' ∧
      x'.content.Perm (x.content ++ definitions answers) := by
  have hreached : Reaches (fun _ => True) (start {} ()) menagerie :=
    (Reaches.refl _).after (fillingHost.within_of_forall fun _ => trivial) 2 fun _ _ => trivial
  have hcontains : menagerie.tables.scopes.contains rootScope = true := by decide +kernel
  have hvalue : (fillingHost.perform 2 (.defineReporting rootScope litter) menagerie).1.map
      (fun r => (r.1, r.2.map Diagnostic.code)) =
        .ok ([⟨5, 1⟩, ⟨6, 0⟩], [some "E2201", some "E2101"]) := by decide +kernel
  obtain ⟨x, hx⟩ := SlotTable.contains_iff.1 hcontains
  obtain ⟨answers, s', x', hrun, -, -, hx', hcontent, -⟩ :=
    (batches_conserve hreached fillingHost 2).1 rootScope x litter hx
  rw [hrun] at hvalue
  obtain ⟨hdefinitions, hreport⟩ := Prod.mk.inj (Except.ok.inj hvalue)
  exact ⟨hcontains, x, answers, s', x', hx, hrun, hdefinitions, hreport, hx', hcontent⟩

end Session

end NameResolution
