import NameResolution.Proofs.Session.Instances
import NameResolution.Proofs.Session.Laziness
import NameResolution.Proofs.Session.Requests

/-!
# Templates come before the loader

A scope may have templates, and a loader that serves a catalogue. A find asks the templates of
the scope before it asks the loader, so a signature that a template claims is not loaded : the
find is ambiguous, or refused, or answered with an instance, and an instance that is kept takes
the place of the declaration. Every other find of a declaration of the catalogue is answered
from the scope, which has an entity made of the declaration, or an instance that was kept in its
place (`Stocked`, `run_findSimple_stocked`).

So the declarations of the catalogue that a sequence of finds answers with something else are
those that a template claimed at the time, or earlier in the sequence (`found_unless_claimed`).
A template that claims a declaration before it is loaded does make a difference
(`template_preempts_loader`).
-/

namespace NameResolution

variable {L T W : Type}

namespace Session

variable {host : Host L T W} {templates : Templates L T W} {s s' : Session L T W}
  {t t' : Tables L T} {c : ScopeId} {catalogue : List (Declaration L)} {loaders : L → Prop}
  {x x' : Scope L T} {kept kept' : String × List Param → EntityId → Prop} {name : String}
  {params : List Param} {location : Location} {answer : Except Failure (Option EntityId)}
  {loader : L}

/-! ## Scopes with templates that are being filled -/

/-- What the scope has in the place of a declaration of the catalogue has been made of it, or is
kept in its place; and the supertypes of all declarations can be linked. -/
structure Stocked (c : ScopeId) (catalogue : List (Declaration L))
    (kept : String × List Param → EntityId → Prop) (t : Tables L T) (x : Scope L T) : Prop where
  here : t.scopes.get? c = some x
  formed : t.Formed
  supported : t.forest.Supported
  linkable : ∀ d ∈ catalogue, t.Linkable d.kind
  made : ∀ d ∈ catalogue, ∀ e, x.find? d.name d.params = some e →
    t.Made c d e ∨ kept (d.name, d.params) e

/-- What is kept besides the catalogue may grow. -/
theorem Stocked.mono (h : Stocked c catalogue kept t x)
    (hkept : ∀ d ∈ catalogue, ∀ e, kept (d.name, d.params) e → kept' (d.name, d.params) e) :
    Stocked c catalogue kept' t x :=
  { h with made := fun d hd e he => (h.made d hd e he).imp_right (hkept d hd e) }

/-- A scope stays stocked as its tables grow, if what it gains is from the catalogue or kept. -/
theorem Stocked.of_grown (h : Stocked c catalogue kept t x) (hg : t.Grown t') (hf : t'.Formed)
    (hx : t'.scopes.get? c = some x')
    (hmade : ∀ d ∈ catalogue, ∀ e, x'.find? d.name d.params = some e →
      x.find? d.name d.params = some e ∨ t'.Made c d e ∨ kept (d.name, d.params) e) :
    Stocked c catalogue kept t' x' := by
  refine ⟨hx, hf, hg.forest.supported, fun d hd => (h.linkable d hd).grown hg, fun d hd e he => ?_⟩
  rcases hmade d hd e he with he | hnew
  · exact (h.made d hd e he).imp_left fun hm => hm.grown hg
  · exact hnew

/-- So being stocked lasts while a scope is filled, as no two entries of the catalogue share a
signature. -/
theorem lasts_stocked (c : ScopeId)
    (hdistinct : (catalogue.map fun d => (d.name, d.params)).Nodup)
    (kept : String × List Param → EntityId → Prop) :
    Lasts c catalogue (Stocked c catalogue kept : Tables L T → Scope L T → Prop) where
  here h := h.here
  formed h := h.formed
  supported h := h.supported
  linkable h := h.linkable
  defined := by
    intro t t' x d e h hd hnew hdef
    obtain ⟨x', hx', -, hfuller, hfound, hcases⟩ := hdef.fuller hnew
    refine ⟨x', h.of_grown hdef.grown hdef.formed hx' fun d' hd' e' he' => ?_, hfuller, hfound⟩
    rcases hcases d'.name d'.params e' he' with he' | ⟨hn, hp, rfl⟩
    · exact Or.inl he'
    · obtain rfl := List.inj_on_of_nodup_map hdistinct hd' hd (Prod.ext hn hp)
      exact Or.inr (Or.inl hdef.made)
  modify := by
    intro t x f h hentity hnames
    have hedit : Tables.Edit t { t with scopes := t.scopes.modify c f } :=
      .scope t c f fun x => .of_names (hentity x) (hnames x)
    have hx' : (t.scopes.modify c f).get? c = some (f x) := by
      rw [SlotTable.get?_modify, if_pos rfl, h.here]
      rfl
    refine h.of_grown ⟨fun _ _ => id, h.supported.grown_self⟩ (h.formed.edit hedit) hx'
      fun d hd e he => Or.inl ?_
    rwa [(Scope.Alike.of_names (hentity x) (hnames x)).find?_eq] at he

theorem Ready.fuller (h : Ready catalogue loaders x) (hmore : Fuller x x') :
    Ready catalogue loaders x' := by
  rcases h with ⟨hstate, loader, hl, hserves⟩ | ⟨hstate, hall⟩
  · exact Or.inl ⟨hmore.state.trans hstate, loader, hmore.loader.trans hl, hserves⟩
  · exact Or.inr ⟨hmore.state.trans hstate, fun d hd => hmore.find?_ne_none (hall d hd)⟩

/-! ## A single find -/

/-- The entities that are kept after a name and a signature have been resolved. -/
def KeptAfter (templates : Templates L T W) (s : Session L T W) (x : Scope L T) (name : String)
    (params : List Param) (answer : Except Failure (Option EntityId))
    (kept : String × List Param → EntityId → Prop) (part : String × List Param) (e : EntityId) :
    Prop :=
  kept part e ∨ part = (name, params) ∧ Claimed templates s x name params ∧
    s.tables.config.memoizeTemplates = true ∧ answer = .ok (some e)

/-- Resolving an overload keeps a scope stocked : it adds an instance or nothing. -/
theorem Stocked.resolves (h : Stocked c catalogue kept s.tables x)
    (hr : Ready catalogue loaders x) (hm : s.tables.Matched)
    (hres : Resolves templates c x name params location s answer s') :
    ∃ x', Stocked c catalogue (KeptAfter templates s x name params answer kept) s'.tables x' ∧
      Ready catalogue loaders x' ∧ Fuller x x' := by
  obtain ⟨x', hg⟩ := hres.gains h.here hm h.supported
  have hkept : Stocked c catalogue (KeptAfter templates s x name params answer kept) s.tables x :=
    h.mono fun _ _ _ => Or.inl
  refine ⟨x', hkept.of_grown hg.grown hg.formed hg.here fun d hd e he => ?_,
    hr.fuller hg.fuller, hg.fuller⟩
  exact (hg.gained d.name d.params e he).imp_right fun hnew => Or.inr (Or.inr hnew)

/-- Where no template claims a declaration of the catalogue, resolving keeps nothing in the place of
one, and if it does not come to nothing, it finds what the scope has. -/
theorem Stocked.resolves_unclaimed (h : Stocked c catalogue kept s.tables x)
    (hr : Ready catalogue loaders x) (hm : s.tables.Matched)
    (hres : Resolves templates c x name params location s answer s')
    (hsure : ∀ d ∈ catalogue, (d.name, d.params) = (name, params) →
      ¬Claimed templates s x name params ∧ (x.find? name params = none → answer ≠ .ok none)) :
    ∃ x', Stocked c catalogue kept s'.tables x' ∧ Ready catalogue loaders x' ∧
      ∀ d ∈ catalogue, (d.name, d.params) = (name, params) →
        ∃ e, answer = .ok (some e) ∧ x'.find? name params = some e := by
  obtain ⟨x', h', hr', hmore⟩ := h.resolves hr hm hres
  refine ⟨x', h'.mono fun d hd e he => ?_, hr', fun d hd hpart => ?_⟩
  · rcases he with hkept | ⟨hpart, hclaimed, -⟩
    · exact hkept
    · exact ((hsure d hd hpart).1 hclaimed).elim
  · obtain ⟨hno, hne⟩ := hsure d hd hpart
    rcases hres.of_not_claimed hno with ⟨e, he, hanswer, -⟩ | ⟨hnone, hanswer, -⟩
    · exact ⟨e, hanswer, hmore.found name params e he⟩
    · exact (hne hnone hanswer).elim

/-- What a find does after its signature was missed in a scope that is not loaded. -/
def loadAndResolve (services : Services L T W) (c : ScopeId) (name : String)
    (params : List Param) : Run L T W (Option EntityId) := do
  loadPart services c (.simple name params)
  if let some e ← resolveOverload services c name params .unknown then return some e
  forceLoad services c
  resolveOverload services c name params .unknown

/-- Finding a part : the table and the templates, then the loader for that part, then the whole
load. -/
theorem findSimple_eq (services : Services L T W) (c : ScopeId) (name : String)
    (params : List Param) : findSimple services c name params = (do
      if let some e ← resolveOverload services c name params .unknown then return some e
      if (← ask (·.scope c)).state = .loaded then return none
      loadAndResolve services c name params) :=
  rfl

/-- A declaration of the catalogue that was missed and not claimed is loaded, and then found. -/
theorem run_loadAndResolve (fuel : Nat) (hs : Serves host c catalogue loaders)
    (hdistinct : (catalogue.map fun d => (d.name, d.params)).Nodup)
    (h : Stocked c catalogue kept s.tables x) (hm : s.tables.Matched)
    (hstate : x.state = .unloaded) (hl : x.loader = some loader) (hserves : loaders loader)
    (hno : ¬Claimed host.toTemplates s x name params) {r : Except Stop (Option EntityId)}
    (hrun : (loadAndResolve (host.services (fuel + 1)) c name params).run s = (r, s')) :
    ∃ (answer : Except Failure (Option EntityId)) (x' : Scope L T),
      r = answer.mapError Stop.failure ∧ Stocked c catalogue kept s'.tables x' ∧
      Ready catalogue loaders x' ∧ ∀ d ∈ catalogue, (d.name, d.params) = (name, params) →
        ∃ e, answer = .ok (some e) ∧ x'.find? name params = some e := by
  have hroaming : Roaming (fun _ => True) (host.services (fuel + 1)) :=
    roaming_services (host.within_of_forall fun _ => trivial) (fuel + 1)
  obtain ⟨s₁, x₁, loader₁, hpart, h₁, hstate₁, hl₁, hserves₁, hdone⟩ :=
    run_loadPart_lazy fuel (lasts_stocked c hdistinct kept) hs h hstate hl hserves
      (.simple name params)
  have hr₁ : Ready catalogue loaders x₁ := Or.inl ⟨hstate₁, loader₁, hl₁, hserves₁⟩
  have hm₁ := ((loads_roams hroaming).loadPart c (.simple name params)).matched hm hpart
  have hno₁ : ∀ d ∈ catalogue, (d.name, d.params) = (name, params) →
      ¬Claimed host.toTemplates s₁ x₁ name params := by
    intro d hd hd' hclaimed
    obtain ⟨rfl, rfl⟩ := Prod.mk.inj hd'
    rcases hdone with hdone | ⟨rfl, rfl⟩
    · exact hdone d (List.mem_filter.2 ⟨hd, by simp [NamePart.text]⟩) hclaimed.1
    · exact hno hclaimed
  obtain ⟨answer, s₂, hrun₂, hres₂⟩ := resolves_resolveOverload (host.services (fuel + 1))
    h₁.here hm₁ h₁.supported name params .unknown
  unfold loadAndResolve at hrun
  rw [run_bind_of_ok hpart, run_bind, hrun₂] at hrun
  have hanswers (hne : answer ≠ .ok none) :=
    h₁.resolves_unclaimed hr₁ hm₁ hres₂ fun d hd hd' => ⟨hno₁ d hd hd', fun _ => hne⟩
  rcases answer with f | _ | e
  · cases hrun
    obtain ⟨x', hx'⟩ := hanswers (by simp)
    exact ⟨_, x', rfl, hx'⟩
  · -- Nothing has come of it, so everything is loaded.
    obtain ⟨e, -, hsome, -⟩ | ⟨-, -, ht₂, -⟩ := hres₂.of_not_claimed hres₂.not_claimed
    · cases hsome
    obtain ⟨s₃, x₃, hforce, h₃, hstate₃, hall₃⟩ :=
      run_forceLoad_lazy fuel (lasts_stocked c hdistinct kept) hs (ht₂ ▸ h₁) hr₁
    have hm₃ := ((loads_roams hroaming).forceLoad c).matched (ht₂ ▸ hm₁) hforce
    obtain ⟨answer, s₄, hrun₄, hres₄⟩ := resolves_resolveOverload (host.services (fuel + 1))
      h₃.here hm₃ h₃.supported name params .unknown
    dsimp only [Except.mapError] at hrun
    rw [run_bind_of_ok hforce, hrun₄] at hrun
    cases hrun
    have hfound : ∀ d ∈ catalogue, (d.name, d.params) = (name, params) →
        x₃.find? name params ≠ none := by
      rintro d hd ⟨⟩
      exact hall₃ d hd
    obtain ⟨x', hx'⟩ := h₃.resolves_unclaimed (Or.inr ⟨hstate₃, hall₃⟩) hm₃ hres₄
      fun d hd hd' => ⟨fun hclaimed => hfound d hd hd' hclaimed.1,
        fun hnone => (hfound d hd hd' hnone).elim⟩
    exact ⟨answer, x', rfl, hx'⟩
  · cases hrun
    obtain ⟨x', hx'⟩ := hanswers (by simp)
    exact ⟨_, x', rfl, hx'⟩

/-- What a find comes to in a scope that is being filled : a template that claims the signature
decides, and no loader is asked, and else a declaration of the catalogue is found. -/
structure FoundIn (templates : Templates L T W) (c : ScopeId) (catalogue : List (Declaration L))
    (loaders : L → Prop) (kept : String × List Param → EntityId → Prop) (s : Session L T W)
    (x : Scope L T) (name : String) (params : List Param)
    (answer : Except Failure (Option EntityId)) (s' : Session L T W) (x' : Scope L T) : Prop where
  stocked : Stocked c catalogue (KeptAfter templates s x name params answer kept) s'.tables x'
  ready : Ready catalogue loaders x'
  claimed : Claimed templates s x name params →
    Resolves templates c x name params .unknown s answer s' ∧
      ∀ c', requests c' s'.journal = requests c' s.journal
  unclaimed : ¬Claimed templates s x name params → ∀ d ∈ catalogue,
    (d.name, d.params) = (name, params) →
      ∃ e, answer = .ok (some e) ∧ x'.find? name params = some e

/-- One find in a stocked scope, by its three stages. The scope stays stocked, and the answer is the
entry of the catalogue unless a template has claimed the signature. -/
theorem run_findSimple_stocked (fuel : Nat) (hs : Serves host c catalogue loaders)
    (hdistinct : (catalogue.map fun d => (d.name, d.params)).Nodup)
    (h : Stocked c catalogue kept s.tables x) (hr : Ready catalogue loaders x)
    (hm : s.tables.Matched) {r : Except Stop (Option EntityId)}
    (hrun : (findSimple (host.services (fuel + 1)) c name params).run s = (r, s')) :
    ∃ answer x', r = answer.mapError Stop.failure ∧
      FoundIn host.toTemplates c catalogue loaders kept s x name params answer s' x' := by
  obtain ⟨answer, s₁, hrun₁, hres₁⟩ := resolves_resolveOverload (host.services (fuel + 1))
    h.here hm h.supported name params .unknown
  have hsilent (c' : ScopeId) : requests c' s₁.journal = requests c' s.journal := by
    have hsilent : Silent (resolveOverload (host.services (fuel + 1)) c name params .unknown) :=
      silent_resolveOverload c name params .unknown
    rw [← (hsilent s).requests c', hrun₁]
  have hanswers (hne : answer ≠ .ok none) :
      ∃ x', FoundIn host.toTemplates c catalogue loaders kept s x name params answer s₁ x' := by
    obtain ⟨x', h', hr', hmore⟩ := h.resolves hr hm hres₁
    refine ⟨x', h', hr', fun _ => ⟨hres₁, hsilent⟩, fun hno d hd hpart => ?_⟩
    rcases hres₁.of_not_claimed hno with ⟨e, he, hanswer, -⟩ | ⟨-, hanswer, -⟩
    · exact ⟨e, hanswer, hmore.found name params e he⟩
    · exact (hne hanswer).elim
  rw [findSimple_eq, run_bind, hrun₁] at hrun
  rcases answer with f | _ | e
  · cases hrun
    obtain ⟨x', hx'⟩ := hanswers (by simp)
    exact ⟨_, x', rfl, hx'⟩
  · have hno := hres₁.not_claimed
    obtain ⟨e, -, hsome, -⟩ | ⟨hnone, -, ht₁, hw₁⟩ := hres₁.of_not_claimed hno
    · cases hsome
    have hx₁ : s₁.tables.scopes.get? c = some x := ht₁ ▸ h.here
    dsimp only [Except.mapError] at hrun
    rw [run_bind_of_ok (run_ask_scope hx₁)] at hrun
    rcases hr with ⟨hstate, loader, hl, hserves⟩ | ⟨hstate, hall⟩
    · rw [if_neg (by simp [hstate])] at hrun
      obtain ⟨answer, x', hanswer, h', hr', hfound⟩ := run_loadAndResolve fuel hs hdistinct
        (ht₁ ▸ h) (ht₁ ▸ hm) hstate hl hserves
        (fun hclaimed => hno (hclaimed.congr ht₁ hw₁)) hrun
      exact ⟨answer, x', hanswer, h'.mono fun _ _ _ => Or.inl, hr',
        fun hclaimed => (hno hclaimed).elim, fun _ => hfound⟩
    · rw [if_pos hstate] at hrun
      cases hrun
      refine ⟨.ok none, x, rfl, (ht₁ ▸ h.mono fun _ _ _ => Or.inl), Or.inr ⟨hstate, hall⟩,
        fun hclaimed => (hno hclaimed).elim, ?_⟩
      rintro - d hd ⟨⟩
      exact (hall d hd hnone).elim
  · cases hrun
    obtain ⟨x', hx'⟩ := hanswers (by simp)
    exact ⟨_, x', rfl, hx'⟩

/-! ## Sequences of finds -/

theorem finds_cons (host : Host L T W) (fuel : Nat) (c : ScopeId) (part : String × List Param)
    (parts : List (String × List Param)) (s : Session L T W) :
    finds host fuel c (part :: parts) s =
      ((host.perform fuel (.find c (.simple part.1 part.2)) s).1 ::
          (finds host fuel c parts (host.perform fuel (.find c (.simple part.1 part.2)) s).2).1,
        (finds host fuel c parts (host.perform fuel (.find c (.simple part.1 part.2)) s).2).2) :=
  rfl

theorem finds_append (host : Host L T W) (fuel : Nat) (c : ScopeId)
    (parts parts' : List (String × List Param)) (s : Session L T W) :
    finds host fuel c (parts ++ parts') s =
      ((finds host fuel c parts s).1 ++ (finds host fuel c parts' (finds host fuel c parts s).2).1,
        (finds host fuel c parts' (finds host fuel c parts s).2).2) := by
  induction parts generalizing s with
  | nil => rfl
  | cons part parts ih =>
    rw [List.cons_append, finds_cons, ih, finds_cons]
    rfl

/-- The session before the `i`-th of a sequence of finds. -/
def findsBefore (host : Host L T W) (fuel : Nat) (c : ScopeId)
    (parts : List (String × List Param)) (s : Session L T W) (i : Nat) : Session L T W :=
  (finds host fuel c (parts.take i) s).2

section

variable (host : Host L T W) (fuel : Nat) (c : ScopeId) {parts : List (String × List Param)}
  (s : Session L T W) {i : Nat}

/-- What a sequence of finds ends in, seen from any of them. -/
theorem finds_eq_findsBefore (parts : List (String × List Param)) (i : Nat) :
    (finds host fuel c parts s).2 =
      (finds host fuel c (parts.drop i) (findsBefore host fuel c parts s i)).2 := by
  conv_lhs => rw [← List.take_append_drop i parts, finds_append]
  rfl

theorem findsBefore_succ (h : parts[i]? = some (name, params)) :
    findsBefore host fuel c parts s (i + 1) = (host.perform fuel (.find c (.simple name params))
      (findsBefore host fuel c parts s i)).2 := by
  unfold findsBefore
  rw [List.take_add_one, h, finds_append]
  rfl

/-- The answer to one find of a sequence is what it gets in the session before it. -/
theorem getElem?_finds (h : parts[i]? = some (name, params)) :
    (finds host fuel c parts s).1[i]? = some (host.perform fuel (.find c (.simple name params))
      (findsBefore host fuel c parts s i)).1 := by
  induction parts generalizing s i with
  | nil => cases h
  | cons part parts ih =>
    cases i with
    | zero =>
      obtain rfl := Option.some.inj h
      rfl
    | succ i =>
      rw [finds_cons, List.getElem?_cons_succ, ih _ h]
      rfl

theorem moves_finds (parts : List (String × List Param)) (hm : s.tables.Matched) :
    Moves (fun _ => True) s (finds host fuel c parts s).2 := by
  induction parts generalizing s with
  | nil => exact .refl
  | cons part parts ih =>
    have hmoves : Moves (fun _ => True) s
        (host.perform fuel (.find c (.simple part.1 part.2)) s).2 :=
      moves_perform (host.within_of_forall fun _ => trivial) fuel trivial hm
    exact hmoves.trans (ih _ (hmoves.matched hm))

end

/-- A template that claimed the signature has answered the `j`-th of a sequence of finds, with an
instance that was kept. -/
def KeptAt (host : Host L T W) (fuel : Nat) (c : ScopeId) (parts : List (String × List Param))
    (s : Session L T W) (j : Nat) (part : String × List Param) (e : EntityId) : Prop :=
  parts[j]? = some part ∧
    (findsBefore host fuel c parts s j).tables.config.memoizeTemplates = true ∧
    (∃ x, (findsBefore host fuel c parts s j).tables.scopes.get? c = some x ∧
      Claimed host.toTemplates (findsBefore host fuel c parts s j) x part.1 part.2) ∧
    (finds host fuel c parts s).1[j]? = some (.ok (.ok (some e)))

section

variable {fuel : Nat} {parts : List (String × List Param)} {i : Nat} {d : Declaration L}
  (hs : Serves host c catalogue loaders)
  (hdistinct : (catalogue.map fun d => (d.name, d.params)).Nodup) (hm : s.tables.Matched)

include hdistinct hm

section

include hs

/-- One find more. -/
theorem foundIn_findsBefore
    (h : Stocked c catalogue kept (findsBefore host (fuel + 1) c parts s i).tables x)
    (hr : Ready catalogue loaders x) (hi : parts[i]? = some (name, params)) :
    ∃ answer x', (finds host (fuel + 1) c parts s).1[i]? = some (.ok answer) ∧
      FoundIn host.toTemplates c catalogue loaders kept (findsBefore host (fuel + 1) c parts s i) x
        name params answer (findsBefore host (fuel + 1) c parts s (i + 1)) x' := by
  have hm' := (moves_finds host (fuel + 1) c s (parts.take i) hm).matched hm
  have hperform (s : Session L T W) : host.perform (fuel + 1) (.find c (.simple name params)) s =
      (attempt (findSimple (host.services (fuel + 1)) c name params)).run s := by
    rw [← find_simple]
    rfl
  rcases hrun : (findSimple (host.services (fuel + 1)) c name params).run
    (findsBefore host (fuel + 1) c parts s i) with ⟨r, s'⟩
  rw [findsBefore_succ host (fuel + 1) c s hi, hperform, run_attempt_snd, hrun]
  obtain ⟨answer, x', rfl, hfound⟩ := run_findSimple_stocked fuel hs hdistinct h hr hm' hrun
  refine ⟨answer, x', ?_, hfound⟩
  rw [getElem?_finds host (fuel + 1) c s hi, hperform, run_attempt_of_mapError hrun]

/-- Through a sequence of finds, what the scope has in the place of a declaration of the catalogue
has been made of it, or has been kept there by an earlier find. -/
theorem stocked_findsBefore (h : Stocked c catalogue (fun _ _ => False) s.tables x)
    (hr : Ready catalogue loaders x) (hi : i ≤ parts.length) :
    ∃ x, Stocked c catalogue (fun part e => ∃ j < i, KeptAt host (fuel + 1) c parts s j part e)
        (findsBefore host (fuel + 1) c parts s i).tables x ∧ Ready catalogue loaders x := by
  induction i with
  | zero => exact ⟨x, h.mono nofun, hr⟩
  | succ i ih =>
    obtain ⟨x, h, hr⟩ := ih (by omega)
    obtain ⟨answer, x', hanswer, hfound⟩ := foundIn_findsBefore hs hdistinct hm h hr
      (List.getElem?_eq_getElem hi)
    refine ⟨x', hfound.stocked.mono fun d hd e he => ?_, hfound.ready⟩
    rcases he with ⟨j, hj, hkept⟩ | ⟨hpart, hclaimed, hmemo, rfl⟩
    · exact ⟨j, by omega, hkept⟩
    · refine ⟨i, by omega, ?_, hmemo, ⟨x, h.here, ?_⟩, hanswer⟩
      · rw [hpart]
        exact List.getElem?_eq_getElem hi
      · rw [hpart]
        exact hclaimed

/-- A find of a declaration of the catalogue in a sequence : a template that claims it decides, and
else the answer is an entity that has been made of it or kept in its place. -/
theorem answered_findsBefore (h : Stocked c catalogue (fun _ _ => False) s.tables x)
    (hr : Ready catalogue loaders x) (hd : d ∈ catalogue)
    (hi : parts[i]? = some (d.name, d.params)) :
    ∃ (x : Scope L T) (answer : Except Failure (Option EntityId)),
      (findsBefore host (fuel + 1) c parts s i).tables.scopes.get? c = some x ∧
      Ready catalogue loaders x ∧
      (finds host (fuel + 1) c parts s).1[i]? = some (.ok answer) ∧
      (Claimed host.toTemplates (findsBefore host (fuel + 1) c parts s i) x d.name d.params →
        Resolves host.toTemplates c x d.name d.params .unknown
            (findsBefore host (fuel + 1) c parts s i) answer
            (findsBefore host (fuel + 1) c parts s (i + 1)) ∧
          ∀ c', requests c' (findsBefore host (fuel + 1) c parts s (i + 1)).journal =
            requests c' (findsBefore host (fuel + 1) c parts s i).journal) ∧
      (¬Claimed host.toTemplates (findsBefore host (fuel + 1) c parts s i) x d.name d.params →
        ∃ e, answer = .ok (some e) ∧ ((finds host (fuel + 1) c parts s).2.tables.Made c d e ∨
          ∃ j < i, KeptAt host (fuel + 1) c parts s j (d.name, d.params) e)) := by
  obtain ⟨hlt, -⟩ := List.getElem?_eq_some_iff.1 hi
  obtain ⟨x, hx, hr⟩ := stocked_findsBefore hs hdistinct hm h hr hlt.le
  obtain ⟨answer, x', hanswer, hfound⟩ := foundIn_findsBefore hs hdistinct hm hx hr hi
  refine ⟨x, answer, hx.here, hr, hanswer, hfound.claimed, fun hno => ?_⟩
  obtain ⟨e, rfl, he⟩ := hfound.unclaimed hno d hd rfl
  refine ⟨e, rfl, ?_⟩
  rcases hfound.stocked.made d hd e he with ⟨kind, hk, hmade⟩ | hkept | ⟨-, hclaimed, -⟩
  · have hlater := later_finds host (fuel + 1) c (parts.drop (i + 1))
      (findsBefore host (fuel + 1) c parts s (i + 1))
    rw [← finds_eq_findsBefore] at hlater
    exact Or.inl ⟨kind, hk, hlater.get?_entities hfound.stocked.formed hmade (by simp)⟩
  · exact Or.inr hkept
  · exact (hno hclaimed).elim

end

/-- Nothing that the scope has is claimed, so once everything is loaded the declarations are found;
no loader is needed any more. -/
theorem found_when_loaded (h : Stocked c catalogue (fun _ _ => False) s.tables x)
    (hr : Ready catalogue (fun _ => False) x) (hd : d ∈ catalogue)
    (hi : parts[i]? = some (d.name, d.params)) :
    ∃ e, (finds host (fuel + 1) c parts s).1[i]? = some (.ok (.ok (some e))) ∧
      (finds host (fuel + 1) c parts s).2.tables.Made c d e := by
  have hs : Serves host c catalogue fun _ => False := fun _ hno => hno.elim
  have hno (j : Nat) (hj : parts[j]? = some (d.name, d.params)) (y : Scope L T)
      (hy : (findsBefore host (fuel + 1) c parts s j).tables.scopes.get? c = some y) :
      ¬Claimed host.toTemplates (findsBefore host (fuel + 1) c parts s j) y d.name d.params := by
    obtain ⟨z, -, hz, ⟨-, loader, -, hfalse⟩ | ⟨-, hall⟩, -⟩ :=
      answered_findsBefore hs hdistinct hm h hr hd hj
    · exact hfalse.elim
    · obtain rfl := Option.some.inj (hy.symm.trans hz)
      exact fun hclaimed => hall d hd hclaimed.1
  obtain ⟨y, answer, hy, -, hanswer, -, hfound⟩ :=
    answered_findsBefore hs hdistinct hm h hr hd hi
  obtain ⟨e, rfl, hmade | ⟨j, -, hj, -, ⟨z, hz, hclaimed⟩, -⟩⟩ := hfound (hno i hi y hy)
  · exact ⟨e, hanswer, hmade⟩
  · exact (hno j hj z hz hclaimed).elim

end

/-- An unloaded scope, with whatever templates, has a loader that serves a catalogue, whose
declarations have different names or signatures and can each be defined in the scope. Then a find of
one of them comes to an entity made of it, or to an instance that a template made for its signature
in an earlier find and that was kept, unless a template claims the signature at that moment, because
it applies and the scope has no entity of the signature yet. In that case no loader is asked :
the find is ambiguous if several templates apply, and else it is answered with a new instance, or
refused if the instance cannot be declared. Whatever has been found, everything can be loaded
afterwards, and the scope then has an entity of each declaration's signature, which is made of it
unless such an instance was kept. If everything has been loaded beforehand, then all finds of
declarations are answered with the entities made of them. -/
theorem found_unless_claimed {config : Config} {world : W} (fuel : Nat)
    (h : Reaches (fun _ => True) (start config world) s)
    (hx : s.tables.scopes.get? c = some x) (hstate : x.state = .unloaded)
    (hl : x.loader = some loader) (hserves : loaders loader)
    (hs : Serves host c catalogue loaders)
    (hdistinct : (catalogue.map fun d => (d.name, d.params)).Nodup)
    (hdef : ∀ d ∈ catalogue, ∃ e s', host.perform (fuel + 1) (.define c d) s = (.ok (.ok e), s'))
    (parts : List (String × List Param)) :
    (∀ i, ∀ d ∈ catalogue, parts[i]? = some (d.name, d.params) →
      ∃ (x : Scope L T) (answer : Except Failure (Option EntityId)),
        (findsBefore host (fuel + 1) c parts s i).tables.scopes.get? c = some x ∧
        (finds host (fuel + 1) c parts s).1[i]? = some (.ok answer) ∧
        (Claimed host.toTemplates (findsBefore host (fuel + 1) c parts s i) x d.name d.params →
          Resolves host.toTemplates c x d.name d.params .unknown
              (findsBefore host (fuel + 1) c parts s i) answer
              (findsBefore host (fuel + 1) c parts s (i + 1)) ∧
            ∀ c', requests c' (findsBefore host (fuel + 1) c parts s (i + 1)).journal =
              requests c' (findsBefore host (fuel + 1) c parts s i).journal) ∧
        (¬Claimed host.toTemplates (findsBefore host (fuel + 1) c parts s i) x d.name d.params →
          ∃ e, answer = .ok (some e) ∧ ((finds host (fuel + 1) c parts s).2.tables.Made c d e ∨
            ∃ j < i, KeptAt host (fuel + 1) c parts s j (d.name, d.params) e))) ∧
    (∃ full x', host.perform (fuel + 1) (.forceLoad c) (finds host (fuel + 1) c parts s).2 =
        (.ok (.ok ()), full) ∧ full.tables.scopes.get? c = some x' ∧
      ∀ d ∈ catalogue, ∃ e, x'.find? d.name d.params = some e ∧ (full.tables.Made c d e ∨
        ∃ j, KeptAt host (fuel + 1) c parts s j (d.name, d.params) e)) ∧
    ∃ eager : Session L T W, host.perform (fuel + 1) (.forceLoad c) s = (.ok (.ok ()), eager) ∧
      ∀ (i : Nat), ∀ d ∈ catalogue, parts[i]? = some (d.name, d.params) →
        ∃ e, (finds host (fuel + 1) c parts eager).1[i]? = some (.ok (.ok (some e))) ∧
          (finds host (fuel + 1) c parts eager).2.tables.Made c d e := by
  have hm := h.matched (Tables.Matched.start config)
  have hsup := h.supported
  have hformed := hm.coherent.formed
  have hstocked : Stocked c catalogue (fun _ _ => False) s.tables x := by
    refine ⟨hx, hformed, hsup, fun d hd => ?_, fun d hd e he => ?_⟩
    · obtain ⟨e, s', hrun⟩ := hdef d hd
      exact linkable_of_run_define hformed hsup (run_attempt_eq_ok hrun)
    · obtain ⟨e', s', hrun⟩ := hdef d hd
      have hnew := new_of_run_define hformed hsup hx (run_attempt_eq_ok hrun)
      cases hnew.symm.trans he
  have hr : Ready catalogue loaders x := Or.inl ⟨hstate, loader, hl, hserves⟩
  have hforce (s : Session L T W) : host.perform (fuel + 1) (.forceLoad c) s =
      (attempt (forceLoad (host.services (fuel + 1)) c)).run s := rfl
  refine ⟨fun i d hd hi => ?_, ?_, ?_⟩
  · obtain ⟨x, answer, hx, -, hrest⟩ := answered_findsBefore hs hdistinct hm hstocked hr hd hi
    exact ⟨x, answer, hx, hrest⟩
  · obtain ⟨x, hx, hr⟩ := stocked_findsBefore hs hdistinct hm hstocked hr le_rfl
    have hall : findsBefore host (fuel + 1) c parts s parts.length =
        (finds host (fuel + 1) c parts s).2 := by
      unfold findsBefore
      rw [List.take_length]
    rw [hall] at hx
    obtain ⟨full, x', hrun, hx', -, hfound⟩ :=
      run_forceLoad_lazy fuel (lasts_stocked c hdistinct _) hs hx hr
    refine ⟨full, x', by rw [hforce, run_attempt, hrun], hx'.here, fun d hd => ?_⟩
    obtain ⟨e, he⟩ := Option.ne_none_iff_exists'.1 (hfound d hd)
    refine ⟨e, he, (hx'.made d hd e he).imp_right ?_⟩
    rintro ⟨j, -, hkept⟩
    exact ⟨j, hkept⟩
  · obtain ⟨eager, x', hrun, hx', hstate', hfound⟩ :=
      run_forceLoad_lazy fuel (lasts_stocked c hdistinct _) hs hstocked hr
    have hperform : host.perform (fuel + 1) (.forceLoad c) s = (.ok (.ok ()), eager) := by
      rw [hforce, run_attempt, hrun]
    refine ⟨eager, hperform, fun i d hd hi => ?_⟩
    have hroaming : Roaming (fun _ => True) (host.services (fuel + 1)) :=
      roaming_services (host.within_of_forall fun _ => trivial) (fuel + 1)
    have hm' := ((loads_roams hroaming).forceLoad c).matched hm hrun
    exact found_when_loaded hdistinct hm' hx' (Or.inr ⟨hstate', hfound⟩) hd hi

/-- What a stall sells. -/
def stall : List (Declaration Unit) :=
  [{ name := "List", params := [.void], kind := .function .void, location := .unknown },
    { name := "Map", params := [], kind := .function .void, location := .unknown }]

/-- A host whose loaders supply what is asked for from the stall, and whose templates make a
variable for any signature. -/
def stallHost : Host Unit Unit Unit where
  templateName _ := "List"
  generate _ _ _ params :=
    some { name := "List", params, kind := .var .void, location := .unknown }
  load loader c request := (supply c (requested stall request)).bind fun _ => .done (.done, loader)

/-- A package that is to be filled from the stall, with a template. -/
def emptyStall : Session Unit Unit Unit :=
  stallHost.after 2
    [.define rootScope
      { name := "stall", params := [], kind := .package (some ()), location := .unknown },
      .addTemplate ⟨1, 0⟩ ()] (start {} ())

theorem serves_stall : Serves stallHost ⟨1, 0⟩ stall fun _ => True :=
  serves_of_load_eq fun _ _ => rfl

theorem definable_stall : ∀ d ∈ stall, ∃ e s',
    stallHost.perform 2 (.define ⟨1, 0⟩ d) emptyStall = (.ok (.ok e), s') := by
  refine List.forall_mem_cons.2 ⟨⟨⟨2, 0⟩, _, Prod.ext (by decide +kernel) rfl⟩,
    List.forall_mem_singleton.2 ⟨⟨2, 0⟩, _, Prod.ext (by decide +kernel) rfl⟩⟩

/-- What is looked for in the stall : the template is for the second signature. -/
def errands : List (String × List Param) :=
  [("Map", []), ("List", [.void])]

/-- `found_unless_claimed` on a stall whose template claims one of two errands. -/
theorem found_unless_claimed_stall :
    (∃ e, (finds stallHost 2 ⟨1, 0⟩ errands emptyStall).1[0]? = some (.ok (.ok (some e))) ∧
      (finds stallHost 2 ⟨1, 0⟩ errands emptyStall).2.tables.Made ⟨1, 0⟩
        { name := "Map", params := [], kind := .function .void, location := .unknown } e) ∧
    ∃ x answer, Resolves stallHost.toTemplates ⟨1, 0⟩ x "List" [.void] .unknown
      (findsBefore stallHost 2 ⟨1, 0⟩ errands emptyStall 1) answer
      (findsBefore stallHost 2 ⟨1, 0⟩ errands emptyStall 2) := by
  have h : Reaches (fun _ => True) (start {} ()) emptyStall :=
    (Reaches.refl _).after (stallHost.within_of_forall fun _ => trivial) 2 fun _ _ => trivial
  have hlazy : (emptyStall.tables.scopes.get? ⟨1, 0⟩).map (fun x => (x.state, x.loader)) =
      some (.unloaded, some ()) := by decide +kernel
  obtain ⟨x, hx, hlazy⟩ := Option.map_eq_some_iff.1 hlazy
  obtain ⟨hstate, hl⟩ := Prod.mk.inj hlazy
  obtain ⟨hfinds, -⟩ := found_unless_claimed 1 h hx hstate hl trivial serves_stall (by decide)
    definable_stall errands
  simp only [Nat.reduceAdd] at hfinds
  have hoffers : ((findsBefore stallHost 2 ⟨1, 0⟩ errands emptyStall 0).tables.scopes.get?
      ⟨1, 0⟩).map (fun y => (offers stallHost.toTemplates
        (findsBefore stallHost 2 ⟨1, 0⟩ errands emptyStall 0) y "Map" []).length) = some 0 := by
    decide +kernel
  have hclaimed : ((findsBefore stallHost 2 ⟨1, 0⟩ errands emptyStall 1).tables.scopes.get?
      ⟨1, 0⟩).map (fun y => (y.find? "List" [.void], (offers stallHost.toTemplates
        (findsBefore stallHost 2 ⟨1, 0⟩ errands emptyStall 1) y "List" [.void]).length)) =
      some (none, 1) := by
    decide +kernel
  constructor
  · obtain ⟨y, answer, hy, hanswer, -, hfound⟩ := hfinds 0 _ (.tail _ (.head _)) rfl
    obtain ⟨z, hz, hnone⟩ := Option.map_eq_some_iff.1 hoffers
    obtain rfl := Option.some.inj (hy.symm.trans hz)
    obtain ⟨e, rfl, hmade | ⟨j, hj, -⟩⟩ :=
      hfound fun hclaimed => hclaimed.2 (List.length_eq_zero_iff.1 hnone)
    · exact ⟨e, hanswer, hmade⟩
    · exact absurd hj (Nat.not_lt_zero j)
  · obtain ⟨y, answer, hy, -, hresolves, -⟩ := hfinds 1 _ (.head _) rfl
    obtain ⟨z, hz, hsome⟩ := Option.map_eq_some_iff.1 hclaimed
    obtain rfl := Option.some.inj (hy.symm.trans hz)
    obtain ⟨hnone, hone⟩ := Prod.mk.inj hsome
    exact ⟨y, answer, (hresolves ⟨hnone, List.ne_nil_of_length_eq_add_one hone⟩).1⟩

/-- The stall after a list was looked for. -/
def browsedStall : Session Unit Unit Unit :=
  (finds stallHost 2 ⟨1, 0⟩ [("List", [.void])] emptyStall).2

/-- The stall after everything has been loaded. -/
def fullStall : Session Unit Unit Unit :=
  (stallHost.perform 2 (.forceLoad ⟨1, 0⟩) emptyStall).2

/-- The template makes a difference. Looked for in the empty stall, the list is a variable, and it
stays one when everything is loaded afterwards; looked for in the full stall, it is the function of
the catalogue. -/
theorem template_preempts_loader :
    Serves stallHost ⟨1, 0⟩ stall (fun _ => True) ∧
    (stall.map fun d => (d.name, d.params)).Nodup ∧
    (∀ d ∈ stall, ∃ e s', stallHost.perform 2 (.define ⟨1, 0⟩ d) emptyStall = (.ok (.ok e), s')) ∧
    ∃ d ∈ stall, d.name = "List" ∧ d.params = [.void] ∧
      (finds stallHost 2 ⟨1, 0⟩ [("List", [.void])] emptyStall).1 =
        [.ok (.ok (some ⟨2, 0⟩))] ∧
      ¬browsedStall.tables.Made ⟨1, 0⟩ d ⟨2, 0⟩ ∧
      ((stallHost.perform 2 (.forceLoad ⟨1, 0⟩) browsedStall).2.tables.scopes.get? ⟨1, 0⟩).bind
        (·.find? "List" [.void]) = some ⟨2, 0⟩ ∧
      ¬(stallHost.perform 2 (.forceLoad ⟨1, 0⟩) browsedStall).2.tables.Made ⟨1, 0⟩ d ⟨2, 0⟩ ∧
      (finds stallHost 2 ⟨1, 0⟩ [("List", [.void])] fullStall).1 = [.ok (.ok (some ⟨2, 0⟩))] ∧
      (finds stallHost 2 ⟨1, 0⟩ [("List", [.void])] fullStall).2.tables.Made ⟨1, 0⟩ d ⟨2, 0⟩ := by
  have hvariable {t : Tables Unit Unit} {d : Declaration Unit} {result : Param}
      (hd : d.kind = .function result)
      (h : (t.entities.get? ⟨2, 0⟩).map Entity.kind = some (.var .void)) :
      ¬t.Made ⟨1, 0⟩ d ⟨2, 0⟩ := by
    rintro ⟨kind, hk, he⟩
    rw [he, Option.map_some, Option.some_inj] at h
    cases h
    rw [hd] at hk
    exact hk
  refine ⟨serves_stall, by decide, definable_stall, _, .head _, rfl, rfl, by decide +kernel,
    hvariable rfl (by decide +kernel), by decide +kernel, hvariable rfl (by decide +kernel),
    by decide +kernel, .function .void, rfl, by decide +kernel⟩

end Session

end NameResolution
