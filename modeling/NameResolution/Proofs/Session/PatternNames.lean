import NameResolution.Proofs.Session.Blindness
import NameResolution.Proofs.Session.Failures
import NameResolution.Proofs.Session.Mangling
import NameResolution.Proofs.Session.Resolution

/-!
# Patterns and the parts that they stand for

A pattern part is written as it stands, and the part that it stands for is written with the paths of
its entities, so the paths of well-named entities are written alike as arguments and as parameters
(`mangle_pattern`). Two ways lead from a pattern to an entity : its arguments are looked up from a
scope, or its mangled name is read, which follows them from the root. If looking the arguments up
gives the entities they are the paths of, and leaves the session in the state that it is in, both
ways come to the same (`pattern_names_agree`). When handles have come round, they need not
(`pattern_name_misread`).
-/

namespace NameResolution

open Mangled Tables

variable {L T W : Type}

/-! ## Writing -/

theorem Mangled.writeParts_eq_map (pathText : EntityId → List Char) (ps : List NamePart) :
    writeParts pathText ps = ps.map (writePart pathText) := by
  induction ps with
  | nil => rfl
  | cons p ps ih => rw [writeParts, ih, List.map_cons]

namespace Tables

variable {t : Tables L T} {es : List EntityId}

/-- As arguments, the paths of well-named entities are written as the entities are as parameters. -/
theorem writeArguments_paths (hw : ∀ e ∈ es, t.WellNamed e) :
    writeArguments (t.mangledPath t.reach) (es.map t.path) =
      (es.map Param.value).map (writeParam (t.mangledPath t.reach)) := by
  induction es with
  | nil => rfl
  | cons e es ih =>
    obtain ⟨he, hes⟩ := List.forall_mem_cons.1 hw
    rw [List.map_cons, List.map_cons, List.map_cons, ← ih hes, writeArguments, writeParts_eq_map]
    refine congrArg (· :: _) ?_
    show comma :: writeName (t.mangledPath t.reach) (t.path e) = comma :: t.mangledPath t.reach e
    rw [← he.mangledPath_reach]

/-- A pattern and the part that it stands for have one mangled name. -/
theorem mangle_pattern (hw : ∀ e ∈ es, t.WellNamed e) (text : String) :
    t.mangle [.pattern text (es.map t.path)] = t.mangle [.simple text (es.map Param.value)] := by
  unfold mangle writeName
  rw [List.map_singleton, List.map_singleton, writePart, writePart, writeArguments_paths hw]

end Tables

namespace Session

variable {host : Host L T W} {fuel : Nat} {s s' s₀ : Session L T W} {c : ScopeId}
  {e : EntityId} {es : List EntityId} {x : Scope L T} {name : String} {params : List Param}

/-! ## Looking arguments up -/

/-- From the scope, the path of the entity is looked up, and the session stays in its state. -/
def FoundInPlace (host : Host L T W) (fuel : Nat) (c : ScopeId) (s : Session L T W)
    (e : EntityId) : Prop :=
  ∃ s', host.perform fuel (.lookup c (s.tables.path e)) s = (.ok (.ok (some e)), s') ∧
    SameState s s'

/-- From the root, a well-named entity is found in place. -/
theorem WellNamed.foundInPlace (hs : s.tables.Sound) (hw : s.tables.WellNamed e)
    (host : Host L T W) (fuel : Nat) : FoundInPlace host (fuel + 1) rootScope s e := by
  obtain ⟨hr, -, -, -⟩ := id hw
  refine ⟨s, ?_, .refl s⟩
  have hfind : (findName (host.services (fuel + 1)) (s.tables.path e) rootScope).run s =
      (.ok (some e), s) := by
    rw [hr.path_eq, run_findName hs hr.isChain.1 (scopeOf?_root hs), hr.isChain.2]
  have hlookup : (lookup (host.services (fuel + 1)) rootScope (s.tables.path e)).run s =
      (.ok (some e), s) := run_bind_of_ok hfind _
  exact run_attempt_of_mapError (r := .ok (some e)) hlookup

/-- What a scope holds is found in place if its path is the part that it is held under. -/
theorem foundInPlace_of_find? (hx : s.tables.scopes.get? c = some x)
    (hfind : x.find? name params = some e) (hpath : s.tables.path e = [.simple name params])
    (host : Host L T W) (fuel : Nat) : FoundInPlace host (fuel + 1) c s e := by
  refine ⟨s, ?_, .refl s⟩
  have hname : (findName (host.services (fuel + 1)) [.simple name params] c).run s =
      (.ok (some e), s) := by
    unfold findName
    rw [run_bind_of_ok (run_ask_scope hx), findWith_simple,
      run_bind_of_ok (run_findSimple hx hfind)]
    rfl
  have hlookup : (lookup (host.services (fuel + 1)) c (s.tables.path e)).run s =
      (.ok (some e), s) := hpath ▸ run_bind_of_ok hname _
  exact run_attempt_of_mapError (r := .ok (some e)) hlookup

/-- The arguments of a pattern stand for the entities that they are the paths of. -/
theorem run_argumentParams_of_found (hfound : ∀ e ∈ es, FoundInPlace host fuel c s e)
    (h : SameState s s₀) :
    ∃ s', (argumentParams (host.services fuel) (es.map s.tables.path) c).run s₀ =
        (.ok (some (es.map .value)), s') ∧ SameState s s' := by
  induction es generalizing s₀ with
  | nil => exact ⟨s₀, rfl, h⟩
  | cons e es ih =>
    obtain ⟨⟨s₁, hrun, h₁⟩, hes⟩ := List.forall_mem_cons.1 hfound
    obtain ⟨hanswer, hstate⟩ := sameState_perform h host fuel (.lookup c (s.tables.path e))
    rw [hrun] at hanswer hstate
    have hlookup : host.perform fuel (.lookup c (s.tables.path e)) s₀ =
        (.ok (.ok (some e)), (host.perform fuel (.lookup c (s.tables.path e)) s₀).2) :=
      Prod.ext hanswer rfl
    have hclimb : (climb (findName (host.services fuel) (s.tables.path e))
        (host.services fuel).reach c).run s₀ = (.ok (some e), _) := run_attempt_eq_ok hlookup
    obtain ⟨s', hrest, h'⟩ := ih hes (h₁.trans hstate)
    refine ⟨s', ?_, h'⟩
    rw [List.map_cons]
    unfold argumentParams
    rw [run_bind_of_ok hclimb]
    dsimp only
    rw [run_bind_of_ok hrest]
    rfl

/-- Finding a pattern comes to what finding the part comes to that it stands for. -/
theorem perform_find_pattern (hfound : ∀ e ∈ es, FoundInPlace host fuel c s e) (text : String) :
    ∃ s', host.perform fuel (.find c (.pattern text (es.map s.tables.path))) s =
        ((host.perform fuel (.find c (.simple text (es.map .value))) s).1, s') ∧
      SameState (host.perform fuel (.find c (.simple text (es.map .value))) s).2 s' := by
  obtain ⟨s₁, hrun, h₁⟩ := run_argumentParams_of_found hfound (.refl s)
  have hsignature :
      (signature (host.services fuel) (.pattern text (es.map s.tables.path)) c).run s =
        (.ok (some (text, es.map .value)), s₁) := by
    unfold signature
    rw [run_bind_of_ok hrun]
    rfl
  have hfind : host.perform fuel (.find c (.pattern text (es.map s.tables.path))) s =
      host.perform fuel (.find c (.simple text (es.map .value))) s₁ := by
    show (attempt (find _ c (.pattern _ _))).run s = (attempt (find _ c (.simple _ _))).run s₁
    rw [run_attempt, run_attempt, find_simple]
    unfold find findWith
    rw [run_bind_of_ok hsignature]
  obtain ⟨hanswer, hstate⟩ :=
    sameState_perform h₁ host fuel (.find c (.simple text (es.map .value)))
  refine ⟨(host.perform fuel (.find c (.simple text (es.map .value))) s₁).2, ?_, hstate⟩
  exact hfind.trans (Prod.ext hanswer rfl)

/-! ## Reading mangled names -/

/-- What requiring an entity answers if finding it has answered. -/
def required (n : QualifiedName) : Except Failure (Option EntityId) → Except Failure EntityId
  | .ok (some e) => .ok e
  | .ok none => .error (.unresolved n.render .unknown)
  | .error f => .error f

/-- An entity is required just in case it is found, and what is not found is the failure. Other
failures stay as they are, and so does what breaks off. -/
structure AnswersAlike (n : QualifiedName) (found : Except Stop (Except Failure (Option EntityId)))
    (answer : Except Stop (Except Failure EntityId)) : Prop where
  entity : ∀ e, answer = .ok (.ok e) ↔ found = .ok (.ok (some e))
  missed : ∀ name location, answer = .ok (.error (.unresolved name location)) ↔
    found = .ok (.ok none) ∧ name = n.render ∧ location = .unknown
  failed : ∀ f, found = .ok (.error f) → answer = .ok (.error f)
  broken : ∀ stop, answer = .error stop ↔ found = .error stop

/-- Requiring an answer keeps it, and turns nothing found into a failure that is not of the text. -/
theorem answersAlike_required (n : QualifiedName)
    {found : Except Stop (Except Failure (Option EntityId))}
    (h : ∀ f, found = .ok (.error f) → ¬f.IsOfText) :
    AnswersAlike n found (found.map (required n)) := by
  rcases found with stop | f | _ | e
  · exact ⟨by simp [Except.map], by simp [Except.map], nofun, by simp [Except.map]⟩
  · refine ⟨by simp [Except.map, required], fun name location => ⟨fun heq => ?_, nofun⟩,
      fun f' hf => ?_, by simp [Except.map, required]⟩
    · obtain rfl := Except.error.inj (Except.ok.inj heq)
      exact (h _ rfl trivial).elim
    · obtain rfl := Except.error.inj (Except.ok.inj hf)
      rfl
  · exact ⟨by simp [Except.map, required], by simp [Except.map, required, eq_comm], nofun,
      by simp [Except.map, required]⟩
  · exact ⟨by simp [Except.map, required], by simp [Except.map, required], nofun,
      by simp [Except.map, required]⟩

/-- Finding does not fail because of what is written. -/
theorem not_isOfText_of_find {p : NamePart} {f : Failure}
    (h : (host.perform fuel (.find c p) s).1 = .ok (.error f)) : ¬f.IsOfText := by
  have hperform : host.perform fuel (.find c p) s =
      (.ok (.error f), (host.perform fuel (.find c p) s).2) := Prod.ext h rfl
  have hrun := run_attempt_eq_ok hperform
  exact legible_find (replies_services host fuel) c p s f _ hrun

/-- The entity of a name with a single part is the one that is found for the part. -/
theorem run_findNamed_singleton (hx : s.tables.scopes.get? c = some x)
    (services : Services L T W) (name : String) (params : List Param) :
    (attempt (findNamed services c [.simple name params])).run s =
      (((attempt (find services c (.simple name params))).run s).1.map
          (required [.simple name params]),
        ((attempt (find services c (.simple name params))).run s).2) := by
  rw [run_attempt, run_attempt, find_simple]
  unfold findNamed findName
  simp only [run_bind, run_ask_scope hx, findWith_simple]
  rcases (findSimple services c name params).run s with ⟨(_ | _ | _) | _ | e, s₁⟩
  all_goals rfl

/-- The mangled name of a part whose parameters are well named is read back, and then required. -/
theorem perform_decode_singleton (hs : s.tables.Sound) (hx : s.tables.scopes.get? c = some x)
    (hw : ∀ q ∈ params, ∀ e, q.entity = some e → s.tables.WellNamed e) (hne : params ≠ [])
    (host : Host L T W) (fuel : Nat) (name : String) :
    host.perform fuel (.decode c (s.tables.mangle [.simple name params])) s =
      ((host.perform fuel (.find c (.simple name params)) s).1.map
          (required [.simple name params]),
        (host.perform fuel (.find c (.simple name params)) s).2) := by
  have hlone : [NamePart.simple name params] ≠ [.simple "" []] := by
    rintro ⟨⟩
    exact hne rfl
  have hspelled : Spelled (host.services fuel) s (s.tables.derivation s.tables.reach)
      [.simple name params] := by
    refine List.forall_mem_singleton.2 ⟨name, params, rfl, fun q hq e he => ?_⟩
    exact WellNamed.denotes hs (hw q hq e he)
  have hdecode : (decode (host.services fuel) c (s.tables.mangle [.simple name params])).run s =
      (findNamed (host.services fuel) c [.simple name params]).run s := by
    unfold decode
    rw [run_bind_of_ok (run_readMangled_mangle hlone hspelled)]
  show (attempt (decode _ _ _)).run s = _
  rw [run_attempt, hdecode, ← run_attempt]
  exact run_findNamed_singleton hx (host.services fuel) name params

/-- In every session that a host can bring about, the arguments of a pattern are the paths of some
entities that are well named. From a live scope they are looked up, without the session leaving its
state. Then the pattern has the mangled name of the part that it stands for. In the scope, this name
denotes the entity that is found for the pattern, and if there is none, that is the failure; what
else finding fails with, reading fails with too. Both leave the session in one state. Handles must
not have come round again : after that, the root need not lead to what the scope has found. -/
theorem pattern_names_agree {config : Config} {world : W} (h : Later (Session.start config world) s)
    (hu : s.tables.Unwrapped) (hx : s.tables.scopes.get? c = some x) (hne : es ≠ [])
    (hw : ∀ e ∈ es, s.tables.WellNamed e) (hfound : ∀ e ∈ es, FoundInPlace host fuel c s e)
    (text : String) :
    s.tables.mangle [.pattern text (es.map s.tables.path)] =
      s.tables.mangle [.simple text (es.map .value)] ∧
    ∃ found answer s₁ s₂,
      host.perform fuel (.find c (.pattern text (es.map s.tables.path))) s = (found, s₁) ∧
      host.perform fuel (.decode c (s.tables.mangle [.pattern text (es.map s.tables.path)])) s =
        (answer, s₂) ∧
      AnswersAlike [.simple text (es.map .value)] found answer ∧ SameState s₁ s₂ := by
  have hs := h.sound (.start config) hu
  have hmangle := mangle_pattern hw text
  have hparams : ∀ q ∈ es.map Param.value, ∀ e, q.entity = some e → s.tables.WellNamed e := by
    intro q hq e he
    obtain ⟨e', he', rfl⟩ := List.mem_map.1 hq
    exact Option.some.inj he ▸ hw e' he'
  have hdecode := perform_decode_singleton hs hx hparams
    (fun hnil => hne (List.map_eq_nil_iff.1 hnil)) host fuel text
  obtain ⟨s₁, hfind, hstate⟩ := perform_find_pattern hfound text
  rw [← hmangle] at hdecode
  exact ⟨hmangle, _, _, s₁, _, hfind, hdecode,
    answersAlike_required _ fun f => not_isOfText_of_find, hstate.symm⟩

/-- The library with a box of lists. -/
def boxedLibrary : Session Unit Unit Unit :=
  (quietHost.perform 1 (.define rootScope
    { name := "Box", params := [.value ⟨3, 0⟩], kind := .type none, location := .unknown })
    library).2

/-- The box is found by the path of the lists, and by the mangled name. -/
theorem pattern_names_agree_boxedLibrary :
    boxedLibrary.tables.WellNamed ⟨3, 0⟩ ∧
      FoundInPlace quietHost 2 rootScope boxedLibrary ⟨3, 0⟩ ∧
      boxedLibrary.tables.mangle [.pattern "Box" [boxedLibrary.tables.path ⟨3, 0⟩]] =
        boxedLibrary.tables.mangle [.simple "Box" [.value ⟨3, 0⟩]] ∧
      (quietHost.perform 2 (.find rootScope
        (.pattern "Box" [boxedLibrary.tables.path ⟨3, 0⟩])) boxedLibrary).1 =
          .ok (.ok (some ⟨4, 0⟩)) ∧
      (quietHost.perform 2 (.decode rootScope (boxedLibrary.tables.mangle
        [.pattern "Box" [boxedLibrary.tables.path ⟨3, 0⟩]])) boxedLibrary).1 =
          .ok (.ok ⟨4, 0⟩) := by
  have h' : Later library boxedLibrary := (Later.refl _).perform quietHost 1 _
  have h : Later (Session.start {} ()) boxedLibrary := library_later.trans h'
  have hu : boxedLibrary.tables.Unwrapped := by decide +kernel
  have hs := h.sound (.start {}) hu
  have hkeeps := (h'.keepsRooted (library_later.keepsRooted (Sound.start _).coherent).1).2
  have hw := library_wellNamed.keeps hkeeps
  have hplace : FoundInPlace quietHost 2 rootScope boxedLibrary ⟨3, 0⟩ :=
    WellNamed.foundInPlace hs hw quietHost 1
  have hcontains : boxedLibrary.tables.scopes.contains rootScope = true := by decide +kernel
  obtain ⟨x, hx⟩ := SlotTable.contains_iff.1 hcontains
  have hfound : (quietHost.perform 2 (.find rootScope
      (.pattern "Box" [boxedLibrary.tables.path ⟨3, 0⟩])) boxedLibrary).1 =
        .ok (.ok (some ⟨4, 0⟩)) := by decide +kernel
  generalize boxedLibrary = s at *
  have hwell : ∀ e ∈ [(⟨3, 0⟩ : EntityId)], s.tables.WellNamed e := List.forall_mem_singleton.2 hw
  have hplaces : ∀ e ∈ [(⟨3, 0⟩ : EntityId)], FoundInPlace quietHost 2 rootScope s e :=
    List.forall_mem_singleton.2 hplace
  obtain ⟨hmangle, found, answer, s₁, s₂, hfind, hdecode, halike, -⟩ :=
    pattern_names_agree h hu hx (List.cons_ne_nil _ _) hwell hplaces "Box"
  have hanswer := (halike.entity ⟨4, 0⟩).2 ((congrArg Prod.fst hfind).symm.trans hfound)
  exact ⟨hw, hplace, hmangle, hfound, (congrArg Prod.fst hdecode).trans hanswer⟩

/-- In the scope of the root is a type whose parameter is what the package has left behind. -/
theorem wellNamed_throne_value : throne.tables.WellNamed ⟨3, 0⟩ := by
  have hparams : ∀ x ∈ throne.tables.entities.get? ⟨3, 0⟩, x.params = [.value ⟨2, 0⟩] := by
    decide +kernel
  have hr : throne.tables.Rooted ([] ++ [⟨3, 0⟩]) ⟨3, 0⟩ :=
    Rooted.root.of_above (by decide) (by decide +kernel)
  refine .intro hr (by decide) (by decide +kernel) fun a ha x hx p hp q hq => ?_
  obtain rfl := List.mem_singleton.1 ha
  rw [hparams x hx, List.mem_singleton] at hp
  subst hp
  exact Option.some.inj hq ▸ wellNamed_throne

/-- Once handles have come round, a pattern and its mangled name need not agree : the pattern is
found, and the name cannot be read, since it leads to another entity first. -/
theorem pattern_name_misread :
    ∃ s, Later (start {} ()) s ∧ s.tables.WellNamed ⟨3, 0⟩ ∧
      FoundInPlace usurpingHost 2 rootScope s ⟨3, 0⟩ ∧
      (usurpingHost.perform 2 (.find rootScope
        (.pattern "Box" [s.tables.path ⟨3, 0⟩])) s).1 = .ok (.ok (some ⟨4, 0⟩)) ∧
      (usurpingHost.perform 2 (.decode rootScope (s.tables.mangle
        [.pattern "Box" [s.tables.path ⟨3, 0⟩]])) s).1 =
          .ok (.error (.unresolved "r(#5)" .unknown)) := by
  obtain ⟨s, hrun, hstate⟩ := exists_usurped
  have hpath : throne.tables.path ⟨3, 0⟩ = [.simple "r" [.value ⟨2, 0⟩]] := by decide +kernel
  have hfind : (throne.tables.scopes.get? rootScope).bind (·.find? "r" [.value ⟨2, 0⟩]) =
      some ⟨3, 0⟩ := by decide +kernel
  have hfound : (usurpingHost.perform 2 (.find rootScope
      (.pattern "Box" [throne.tables.path ⟨3, 0⟩])) throne).1 = .ok (.ok (some ⟨4, 0⟩)) := by
    decide +kernel
  have hread : (usurpingHost.perform 2 (.decode rootScope (throne.tables.mangle
      [.pattern "Box" [throne.tables.path ⟨3, 0⟩]])) throne).1 =
        .ok (.error (.unresolved "r(#5)" .unknown)) := by decide +kernel
  rw [← hstate.tables] at hpath hfind hfound hread
  obtain ⟨x, hx, hfind⟩ := Option.bind_eq_some_iff.1 hfind
  refine ⟨s, later_besieged.trans (later_of_perform hrun), ?_,
    foundInPlace_of_find? hx hfind hpath usurpingHost 1, ?_, ?_⟩
  · rw [hstate.tables]
    exact wellNamed_throne_value
  · rw [(sameState_perform hstate usurpingHost 2 _).1, hfound]
  · rw [(sameState_perform hstate usurpingHost 2 _).1, hread]

end Session

end NameResolution
