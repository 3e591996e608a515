import NameResolution.Proofs.Session.Catalogue
import NameResolution.Proofs.Session.Course.Operations
import NameResolution.Proofs.Session.Inheritance
import NameResolution.Proofs.Session.Resolution

/-!
# Laziness does not show

A scope whose loader serves a catalogue is either unloaded, with such a loader, or loaded
with all of the catalogue (`Lazy`). Loading a part or everything keeps it so
(`run_loadPart_lazy`, `run_forceLoad_lazy`), and so does finding a part, which answers by
the catalogue (`run_findSimple_lazy`).

So a sequence of finds answers by the catalogue, whatever has been loaded before
(`forall₂_finds`), and it makes no difference whether single parts are asked for, or
everything at the first miss, or everything beforehand (`laziness_transparent`).
-/

namespace NameResolution

variable {L T W : Type}

namespace Session

open Tables (Filling)

variable {host : Host L T W} {s : Session L T W} {c : ScopeId} {catalogue : List (Declaration L)}
  {loaders : L → Prop} {x : Scope L T} {loader : L} {I : Tables L T → Scope L T → Prop}

/-! ## Loading from a catalogue -/

/-- The scope is unloaded and has a loader that serves the catalogue, or it is loaded and nothing of
the catalogue is missing. -/
def Ready (catalogue : List (Declaration L)) (loaders : L → Prop) (x : Scope L T) : Prop :=
  (x.state = .unloaded ∧ ∃ loader, x.loader = some loader ∧ loaders loader) ∨
    (x.state = .loaded ∧ ∀ d ∈ catalogue, x.find? d.name d.params ≠ none)

/-- A scope that is filled from a catalogue when it is needed. -/
def Lazy (c : ScopeId) (catalogue : List (Declaration L)) (loaders : L → Prop)
    (s : Session L T W) : Prop :=
  ∃ x, Filling c catalogue s.tables x ∧ Ready catalogue loaders x

/-- A serving loader supplies what it is asked for. -/
theorem run_callLoader_serving (fuel : Nat) (request : Option NamePart)
    (hI : Lasts c catalogue I) (hs : Serves host c catalogue loaders) (hl : loaders loader)
    (h : I s.tables x) :
    ∃ s' x' loader', (callLoader (host.services (fuel + 1)) c loader request).run s =
        (.ok .done, s') ∧ I s'.tables x' ∧ x'.state = x.state ∧
      x'.loader = some loader' ∧ loaders loader' ∧
      ∀ d ∈ requested catalogue request, x'.find? d.name d.params ≠ none := by
  obtain ⟨ds, hperm, hload⟩ := hs loader hl request fuel (s.log (.loadBegan c request))
  have h₀ : I (s.log (.loadBegan c request)).tables x := h
  obtain ⟨s₁, x₁, hsupply, h₁, hmore, hall⟩ :=
    run_supply host fuel hI h₀ fun d hd => mem_of_mem_requested (hperm.mem_iff.1 hd)
  obtain ⟨loader', s₂, hl', hrun, htables⟩ := hload s₁ hsupply
  have hx₁ : s₂.tables.scopes.get? c = some x₁ := by rw [htables, hI.here h₁]
  refine ⟨(s₂.log (.loadEnded c .done)).mapScope c fun x => { x with loader := some loader' },
    { x₁ with loader := some loader' }, loader', ?_, ?_, hmore.state, rfl, hl', fun d hd => ?_⟩
  · exact run_callLoader (host.services (fuel + 1)) hrun hx₁
  · have h₂ : I s₂.tables x₁ := htables ▸ h₁
    exact hI.modify h₂ (fun _ => rfl) fun _ => rfl
  · exact hall d (hperm.mem_iff.2 hd)

/-- Asked for one part or for nothing at all, a scope that is unloaded stays so. It has all of the
part then, or nothing has happened. -/
theorem run_loadPart_lazy (fuel : Nat) (hI : Lasts c catalogue I)
    (hs : Serves host c catalogue loaders) (h : I s.tables x) (hstate : x.state = .unloaded)
    (hl : x.loader = some loader) (hserves : loaders loader) (part : NamePart) :
    ∃ s' x' loader', (loadPart (host.services (fuel + 1)) c part).run s = (.ok (), s') ∧
      I s'.tables x' ∧ x'.state = .unloaded ∧ x'.loader = some loader' ∧ loaders loader' ∧
      ((∀ d ∈ requested catalogue (some part), x'.find? d.name d.params ≠ none) ∨
        s' = s ∧ x' = x) := by
  unfold loadPart
  rw [run_bind_of_ok (run_getTables s)]
  split_ifs
  · have htaken : I ((s.mapScope c fun x => { x with loader := none }).log
        (.noted (.targetedLoad part))).tables { x with loader := none } :=
      hI.modify h (f := fun x => { x with loader := none }) (fun _ => rfl) fun _ => rfl
    obtain ⟨s', x', loader', hrun, h', hstate', hl', hserves', hall⟩ :=
      run_callLoader_serving fuel (some part) hI hs hserves htaken
    refine ⟨s', x', loader', ?_, h', hstate'.trans hstate, hl', hserves', Or.inl hall⟩
    rw [run_bind_of_ok (run_takeLoader (hI.here h)), hl]
    dsimp only
    rw [run_bind_of_ok (run_note _ _), run_bind_of_ok hrun]
    rfl
  · exact ⟨s, x, loader, rfl, h, hstate, hl, hserves, Or.inr ⟨rfl, rfl⟩⟩

/-- Asked for everything, the scope has all of the catalogue. -/
theorem run_forceLoad_lazy (fuel : Nat) (hI : Lasts c catalogue I)
    (hs : Serves host c catalogue loaders) (h : I s.tables x) (hr : Ready catalogue loaders x) :
    ∃ s' x', (forceLoad (host.services (fuel + 1)) c).run s = (.ok (), s') ∧
      I s'.tables x' ∧ x'.state = .loaded ∧
      ∀ d ∈ catalogue, x'.find? d.name d.params ≠ none := by
  rcases hr with ⟨hstate, loader, hl, hserves⟩ | ⟨hstate, hall⟩
  · obtain ⟨n, hload⟩ :=
      run_forceLoad_of_loader (host.services (fuel + 1)) (hI.here h) hstate hl
    have htaken : I ((s.mapScope c fun x =>
        { x with loader := none, state := stateDuring none x.state }).log (.noted n)).tables
        { x with loader := none, state := stateDuring none x.state } :=
      hI.modify h (f := fun x => { x with loader := none, state := stateDuring none x.state })
        (fun _ => rfl) fun _ => rfl
    obtain ⟨s₁, x₁, loader', hrun, h₁, -, -, -, hall⟩ :=
      run_callLoader_serving fuel none hI hs hserves htaken
    have h' : I (s₁.mapScope c fun x => { x with state := .loaded }).tables
        { x₁ with state := .loaded } :=
      hI.modify h₁ (f := fun x => { x with state := .loaded }) (fun _ => rfl) fun _ => rfl
    obtain ⟨n', hend⟩ := run_setState_note (hI.here h₁) .loaded .loaded x.entity
    have hrest : (callLoader (host.services (fuel + 1)) c loader none >>= endFull c x.entity).run
        _ = _ := (run_bind_of_ok hrun _).trans hend
    exact ⟨_, { x₁ with state := .loaded }, hload.trans hrest, h', rfl, hall⟩
  · exact ⟨s, x, run_forceLoad_of_loaded _ (hI.here h) hstate, h, hstate, hall⟩

/-! ## Finding from a catalogue -/

/-- What a find answers goes by the catalogue. -/
theorem run_findSimple_lazy (fuel : Nat) (name : String) (params : List Param)
    (hs : Serves host c catalogue loaders) (h : Filling c catalogue s.tables x)
    (hr : Ready catalogue loaders x) :
    ∃ s' x', (findSimple (host.services (fuel + 1)) c name params).run s =
        (.ok (x'.find? name params), s') ∧
      Filling c catalogue s'.tables x' ∧ Ready catalogue loaders x' ∧
      (x'.find? name params = none → ∀ d ∈ catalogue, (d.name, d.params) ≠ (name, params)) := by
  have hall {x : Scope L T} (hall : ∀ d ∈ catalogue, x.find? d.name d.params ≠ none)
      (hnone : x.find? name params = none) (d : Declaration L) (hd : d ∈ catalogue) :
      (d.name, d.params) ≠ (name, params) := by
    rintro heq
    obtain ⟨rfl, rfl⟩ := Prod.mk.inj heq
    exact hall d hd hnone
  have hresolve {s : Session L T W} {x : Scope L T} (h : Filling c catalogue s.tables x) :=
    run_resolveOverload_bare (host.services (fuel + 1)) h.here h.bare name params .unknown
  unfold findSimple
  extract_lets resolve
  rw [run_bind_of_ok (hresolve h)]
  cases hfind : x.find? name params with
  | some e => exact ⟨s, x, by rw [hfind]; rfl, h, hr, by simp [hfind]⟩
  | none =>
    dsimp only
    rw [run_bind_of_ok (run_ask_scope h.here)]
    rcases hr with ⟨hstate, loader, hl, hserves⟩ | ⟨hstate, hfull⟩
    · rw [if_neg (by simp [hstate])]
      obtain ⟨s₁, x₁, loader', hpart, h₁, hstate₁, hl₁, hserves₁, -⟩ :=
        run_loadPart_lazy fuel (lasts_filling c catalogue) hs h hstate hl hserves
          (.simple name params)
      rw [run_bind_of_ok hpart, run_bind_of_ok (hresolve h₁)]
      have hr₁ : Ready catalogue loaders x₁ := Or.inl ⟨hstate₁, loader', hl₁, hserves₁⟩
      cases hfind₁ : x₁.find? name params with
      | some e => exact ⟨s₁, x₁, by rw [hfind₁]; rfl, h₁, hr₁, by simp [hfind₁]⟩
      | none =>
        obtain ⟨s₂, x₂, hforce, h₂, hstate₂, hfull₂⟩ :=
          run_forceLoad_lazy fuel (lasts_filling c catalogue) hs h₁ hr₁
        dsimp only
        rw [run_bind_of_ok hforce]
        exact ⟨s₂, x₂, hresolve h₂, h₂, Or.inr ⟨hstate₂, hfull₂⟩, hall hfull₂⟩
    · rw [if_pos hstate]
      exact ⟨s, x, by rw [hfind]; rfl, h, Or.inr ⟨hstate, hfull⟩, hall hfull⟩

/-! ## Sequences of finds -/

/-- Finds parts in a scope, one after the other : the answers, and the session afterwards. -/
def finds (host : Host L T W) (fuel : Nat) (c : ScopeId) :
    List (String × List Param) → Session L T W →
      List (Except Stop (Except Failure (Option EntityId))) × Session L T W
  | [], s => ([], s)
  | (name, params) :: parts, s =>
    let (answer, s₁) := host.perform fuel (.find c (.simple name params)) s
    let (answers, s') := finds host fuel c parts s₁
    (answer :: answers, s')

theorem later_finds (host : Host L T W) (fuel : Nat) (c : ScopeId)
    (parts : List (String × List Param)) (s : Session L T W) :
    Later s (finds host fuel c parts s).2 := by
  induction parts generalizing s with
  | nil => exact .refl s
  | cons part parts ih =>
    obtain ⟨name, params⟩ := part
    exact ((Later.refl s).perform host fuel (.find c (.simple name params))).trans (ih _)

/-- The answer goes by the catalogue : it is an entity made of the declaration for the part, or
none if there is no such declaration. -/
def AnswersBy (catalogue : List (Declaration L)) (c : ScopeId) (t : Tables L T)
    (part : String × List Param) (answer : Except Stop (Except Failure (Option EntityId))) : Prop :=
  (∃ d ∈ catalogue, (d.name, d.params) = part ∧ ∃ e, answer = .ok (.ok (some e)) ∧ t.Made c d e) ∨
    ((∀ d ∈ catalogue, (d.name, d.params) ≠ part) ∧ answer = .ok (.ok none))

/-- A lazy scope answers a find by its catalogue, and stays lazy. -/
theorem perform_find_lazy (fuel : Nat) (name : String) (params : List Param)
    (hs : Serves host c catalogue loaders) (h : Lazy c catalogue loaders s) :
    ∃ answer s', host.perform (fuel + 1) (.find c (.simple name params)) s = (answer, s') ∧
      Lazy c catalogue loaders s' ∧
      AnswersBy catalogue c s'.tables (name, params) answer := by
  obtain ⟨x, hx, hr⟩ := h
  obtain ⟨s', x', hrun, h', hr', hnone⟩ := run_findSimple_lazy fuel name params hs hx hr
  have hperform : host.perform (fuel + 1) (.find c (.simple name params)) s =
      (.ok (.ok (x'.find? name params)), s') := by
    show (attempt (find (host.services (fuel + 1)) c (.simple name params))).run s = _
    rw [run_attempt, find_simple, hrun]
  refine ⟨_, s', hperform, ⟨x', h', hr'⟩, ?_⟩
  cases hfind : x'.find? name params with
  | none => exact Or.inr ⟨hnone hfind, rfl⟩
  | some e =>
    obtain ⟨d, hd, rfl, rfl, hm⟩ := h'.made name params e hfind
    exact Or.inl ⟨d, hd, rfl, e, rfl, hm⟩

/-- All answers go by the catalogue, and the entities are there at the end. -/
theorem forall₂_finds (fuel : Nat) (hs : Serves host c catalogue loaders)
    (h : Lazy c catalogue loaders s) (parts : List (String × List Param)) :
    List.Forall₂ (AnswersBy catalogue c (finds host (fuel + 1) c parts s).2.tables) parts
      (finds host (fuel + 1) c parts s).1 := by
  induction parts generalizing s with
  | nil => exact .nil
  | cons part parts ih =>
    obtain ⟨name, params⟩ := part
    obtain ⟨answer, s₁, hrun, h₁, hanswer⟩ := perform_find_lazy fuel name params hs h
    unfold finds
    rw [hrun]
    refine .cons ?_ (ih h₁)
    obtain ⟨x₁, hx₁, -⟩ := h₁
    rcases hanswer with ⟨d, hd, hp, e, he, kind, hk, hm⟩ | hnone
    · have hlater := later_finds host (fuel + 1) c parts s₁
      exact Or.inl ⟨d, hd, hp, e, he, kind, hk, hlater.get?_entities hx₁.formed hm (by simp)⟩
    · exact Or.inr hnone

/-! ## Three ways to load -/

/-- The session in which loaders are, or are not, asked for single parts. -/
def targeting (s : Session L T W) (targeted : Bool) : Session L T W :=
  { s with tables := { s.tables with
      config := { s.tables.config with targetedLoads := targeted } } }

theorem Lazy.targeting (h : Lazy c catalogue loaders s) (targeted : Bool) :
    Lazy c catalogue loaders (s.targeting targeted) := by
  obtain ⟨x, hx, hr⟩ := h
  exact ⟨x, hx.of_names rfl rfl ⟨hx.formed.entities, hx.formed.scopes, hx.formed.root⟩ hx.here rfl,
    hr⟩

/-- A new scope whose loader serves a catalogue of declarations that can be defined in it. -/
theorem lazy_of_new {config : Config} {world : W} (fuel : Nat)
    (h : Later (Session.start config world) s) (hx : s.tables.scopes.get? c = some x)
    (hnew : x.names = []) (hstate : x.state = .unloaded) (hl : x.loader = some loader)
    (hserves : loaders loader)
    (hdef : ∀ d ∈ catalogue, ∃ e s', host.perform fuel (.define c d) s = (.ok (.ok e), s')) :
    Lazy c catalogue loaders s := by
  have hf := h.formed (.start config)
  have hsup := h.supported
  refine ⟨x, ⟨hx, hf, hsup, fun d hd => ?_, Scope.bare_of_names hnew, ?_⟩,
    Or.inl ⟨hstate, loader, hl, hserves⟩⟩
  · obtain ⟨e, s', hrun⟩ := hdef d hd
    exact linkable_of_run_define hf hsup (run_attempt_eq_ok hrun)
  · intro name params e he
    rw [Scope.find?, Scope.overloads?, hnew] at he
    cases he

/-- Forcing the load of a lazy scope leaves a lazy scope : it only fills it. -/
theorem perform_forceLoad_lazy (fuel : Nat) (hs : Serves host c catalogue loaders)
    (h : Lazy c catalogue loaders s) :
    ∃ s', host.perform (fuel + 1) (.forceLoad c) s = (.ok (.ok ()), s') ∧
      Lazy c catalogue loaders s' := by
  obtain ⟨x, hx, hr⟩ := h
  obtain ⟨s', x', hrun, h', hstate, hall⟩ :=
    run_forceLoad_lazy fuel (lasts_filling c catalogue) hs hx hr
  refine ⟨s', ?_, x', h', Or.inr ⟨hstate, hall⟩⟩
  show (attempt (forceLoad (host.services (fuel + 1)) c)).run s = _
  rw [run_attempt, hrun]

/-- A new scope without templates has a loader that serves a catalogue, whose declarations have
different names or signatures and can each be defined in the scope. Then any sequence of finds is
answered alike whether the loader is asked for single parts, or for everything at the first miss,
or has been asked for everything beforehand, which succeeds : call by call, all three answer with
an entity made of the same declaration of the catalogue, or all three answer that there is none,
just in case the catalogue has no declaration for the part. -/
theorem laziness_transparent {config : Config} {world : W} (fuel : Nat)
    (h : Later (Session.start config world) s) (hx : s.tables.scopes.get? c = some x)
    (hnew : x.names = []) (hstate : x.state = .unloaded) (hl : x.loader = some loader)
    (hserves : loaders loader) (hs : Serves host c catalogue loaders)
    (hdistinct : (catalogue.map fun d => (d.name, d.params)).Nodup)
    (hdef : ∀ d ∈ catalogue, ∃ e s', host.perform (fuel + 1) (.define c d) s = (.ok (.ok e), s'))
    (targeted : Bool) (parts : List (String × List Param)) :
    ∃ eager, host.perform (fuel + 1) (.forceLoad c) (s.targeting targeted) =
        (.ok (.ok ()), eager) ∧
      ∀ (i : Nat) (part : String × List Param), parts[i]? = some part →
        (∃ d ∈ catalogue, (d.name, d.params) = part ∧
          ∀ s₀ ∈ [s.targeting true, s.targeting false, eager], ∃ e,
            (finds host (fuel + 1) c parts s₀).1[i]? = some (.ok (.ok (some e))) ∧
              (finds host (fuel + 1) c parts s₀).2.tables.Made c d e) ∨
        ((∀ d ∈ catalogue, (d.name, d.params) ≠ part) ∧
          ∀ s₀ ∈ [s.targeting true, s.targeting false, eager],
            (finds host (fuel + 1) c parts s₀).1[i]? = some (.ok (.ok none))) := by
  have hlazy : Lazy c catalogue loaders s :=
    lazy_of_new (fuel + 1) h hx hnew hstate hl hserves hdef
  obtain ⟨eager, hforce, heager⟩ := perform_forceLoad_lazy fuel hs (hlazy.targeting targeted)
  refine ⟨eager, hforce, fun i part hpart => ?_⟩
  have hall : ∀ s₀ ∈ [s.targeting true, s.targeting false, eager], ∃ answer,
      (finds host (fuel + 1) c parts s₀).1[i]? = some answer ∧
        AnswersBy catalogue c (finds host (fuel + 1) c parts s₀).2.tables part answer := by
    intro s₀ hs₀
    have hlazy₀ : Lazy c catalogue loaders s₀ := by
      simp only [List.mem_cons, List.not_mem_nil, or_false] at hs₀
      rcases hs₀ with rfl | rfl | rfl
      · exact hlazy.targeting true
      · exact hlazy.targeting false
      · exact heager
    obtain ⟨hlength, hanswers⟩ := List.forall₂_iff_get.1 (forall₂_finds fuel hs hlazy₀ parts)
    obtain ⟨hi, rfl⟩ := List.getElem?_eq_some_iff.1 hpart
    exact ⟨_, List.getElem?_eq_getElem (hlength ▸ hi), hanswers i hi (hlength ▸ hi)⟩
  by_cases hpart : ∃ d ∈ catalogue, (d.name, d.params) = part
  · obtain ⟨d, hd, hdp⟩ := hpart
    refine Or.inl ⟨d, hd, hdp, fun s₀ hs₀ => ?_⟩
    obtain ⟨answer, hi, ⟨d', hd', hdp', e, rfl, hm⟩ | ⟨hnone, -⟩⟩ := hall s₀ hs₀
    · obtain rfl := List.inj_on_of_nodup_map hdistinct hd' hd (hdp'.trans hdp.symm)
      exact ⟨e, hi, hm⟩
    · exact absurd hdp (hnone d hd)
  · refine Or.inr ⟨fun d hd hdp => hpart ⟨d, hd, hdp⟩, fun s₀ hs₀ => ?_⟩
    obtain ⟨answer, hi, ⟨d, hd, hdp, -⟩ | ⟨-, rfl⟩⟩ := hall s₀ hs₀
    · exact absurd ⟨d, hd, hdp⟩ hpart
    · exact hi

/-- Some declarations, two of them of one name; the type is a subtype of the first entity that is
declared. -/
def shelf : List (Declaration Unit) :=
  [{ name := "area", params := [.void], kind := .function .void, location := .unknown },
    { name := "Shape", params := [], kind := .type (some ⟨1, 0⟩), location := .unknown },
    { name := "area", params := [], kind := .function .void, location := .unknown }]

/-- A host whose loaders supply what is asked for from the shelf. -/
def shelfHost : Host Unit Unit Unit where
  templateName _ := ""
  generate _ _ _ _ := none
  load loader c request := (supply c (requested shelf request)).bind fun _ => .done (.done, loader)

/-- A type, and a package that is to be filled from the shelf. -/
def emptyShelf : Session Unit Unit Unit :=
  (shelfHost.perform 1 (.define rootScope
    { name := "shapes", params := [], kind := .package (some ()), location := .unknown })
    (shelfHost.perform 1 (.define rootScope
      { name := "Any", params := [], kind := .type none, location := .unknown })
      (Session.start {} ())).2).2

/-- `laziness_transparent` on a shelf that is loaded part by part, all at once, or beforehand. -/
theorem laziness_transparent_emptyShelf :
    Serves shelfHost ⟨2, 0⟩ shelf (fun _ => True) ∧
      ∃ eager, shelfHost.perform 2 (.forceLoad ⟨2, 0⟩) (emptyShelf.targeting true) =
          (.ok (.ok ()), eager) ∧
        ∀ s₀ ∈ [emptyShelf.targeting true, emptyShelf.targeting false, eager], ∃ e,
          (finds shelfHost 2 ⟨2, 0⟩ [("area", []), ("Shape", []), ("area", [.void])] s₀).1[2]? =
            some (.ok (.ok (some e))) := by
  have h : Later (Session.start {} ()) emptyShelf :=
    ((Later.refl _).perform shelfHost 1 _).perform shelfHost 1 _
  have hx : emptyShelf.tables.scopes.get? ⟨2, 0⟩ = some { entity := ⟨2, 0⟩, loader := some () } :=
    rfl
  have hs : Serves shelfHost ⟨2, 0⟩ shelf fun _ => True := serves_of_load_eq fun _ _ => rfl
  have hdef : ∀ d ∈ shelf, ∃ e s',
      shelfHost.perform 2 (.define ⟨2, 0⟩ d) emptyShelf = (.ok (.ok e), s') := by
    refine List.forall_mem_cons.2 ⟨⟨⟨3, 0⟩, _, Prod.ext (by decide +kernel) rfl⟩,
      List.forall_mem_cons.2 ⟨⟨⟨3, 0⟩, _, Prod.ext (by decide +kernel) rfl⟩,
      List.forall_mem_singleton.2 ⟨⟨3, 0⟩, _, Prod.ext (by decide +kernel) rfl⟩⟩⟩
  obtain ⟨eager, hforce, hall⟩ := laziness_transparent 1 h hx rfl rfl rfl trivial hs
    (by decide) hdef true [("area", []), ("Shape", []), ("area", [.void])]
  refine ⟨hs, eager, hforce, ?_⟩
  rcases hall 2 _ rfl with ⟨d, -, -, hfound⟩ | ⟨hnone, -⟩
  · intro s₀ hs₀
    obtain ⟨e, he, -⟩ := hfound s₀ hs₀
    exact ⟨e, he⟩
  · exact absurd rfl (hnone _ List.mem_cons_self)

end Session

end NameResolution
