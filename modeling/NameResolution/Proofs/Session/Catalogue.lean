import NameResolution.Host
import NameResolution.Proofs.Session.Defining

/-!
# Loaders that serve a catalogue

A catalogue is a list of declarations for one scope. A loader serves it if it defines what
is asked for and not yet there (`supply`, `Serves`), in whatever order.

While it does so the scope is being filled (`Filling`) : all it has has been made of the
catalogue, and every declaration of the catalogue can still be linked. Defining a
declaration of the catalogue keeps it so (`Defined.filling`). Whatever lasts while the scope
is filled in this way (`Lasts`), supplying a part of the catalogue succeeds and leaves nothing
of it missing (`run_supply`).
-/

namespace NameResolution

variable {L T W : Type}

/-! ## Scopes that are being filled -/

namespace Tables

/-- All that the scope has has been made of declarations of the catalogue, no template can make
anything else, and the supertypes of all declarations can be linked. -/
structure Filling (c : ScopeId) (catalogue : List (Declaration L)) (t : Tables L T)
    (x : Scope L T) : Prop where
  here : t.scopes.get? c = some x
  formed : t.Formed
  supported : t.forest.Supported
  linkable : ∀ d ∈ catalogue, t.Linkable d.kind
  bare : x.Bare
  made : ∀ name params e, x.find? name params = some e →
    ∃ d ∈ catalogue, d.name = name ∧ d.params = params ∧ t.Made c d e

variable {t t' : Tables L T} {c : ScopeId} {catalogue : List (Declaration L)} {x x' : Scope L T}
  {d : Declaration L} {e : EntityId}

/-- A scope that is being filled from a catalogue is so in tables that have grown, if nothing but
the catalogue has been put into it. -/
theorem Filling.of_grown (h : Filling c catalogue t x) (hg : t.Grown t') (hf : t'.Formed)
    (hx : t'.scopes.get? c = some x') (hbare : x'.Bare)
    (hmade : ∀ name params e, x'.find? name params = some e → x.find? name params = some e ∨
      ∃ d ∈ catalogue, d.name = name ∧ d.params = params ∧ t'.Made c d e) :
    Filling c catalogue t' x' := by
  refine ⟨hx, hf, hg.forest.supported, fun d hd => (h.linkable d hd).grown hg, hbare,
    fun name params e he => ?_⟩
  rcases hmade name params e he with he | hnew
  · obtain ⟨d, hd, hn, hp, hm⟩ := h.made name params e he
    exact ⟨d, hd, hn, hp, hm.grown hg⟩
  · exact hnew

/-- Only the scopes change, and this one keeps what it has. -/
theorem Filling.of_names (h : Filling c catalogue t x) (he : t'.entities = t.entities)
    (hforest : t'.forest = t.forest) (hf : t'.Formed) (hx : t'.scopes.get? c = some x')
    (hn : x'.names = x.names) : Filling c catalogue t' x' := by
  have hover (name : String) : x'.overloads? name = x.overloads? name := by
    unfold Scope.overloads?
    rw [hn]
  refine h.of_grown ⟨fun e y hy => he ▸ hy, hforest ▸ h.supported.grown_self⟩ hf hx
    (fun name overloads ho => h.bare name overloads (hover name ▸ ho))
    fun name params e hfound => ?_
  unfold Scope.find? at hfound ⊢
  exact Or.inl (hover name ▸ hfound)

/-- The scope is changed in its loading or its observers. -/
theorem Filling.modify (h : Filling c catalogue t x) {f : Scope L T → Scope L T}
    (hentity : ∀ x, (f x).entity = x.entity) (hnames : ∀ x, (f x).names = x.names) :
    Filling c catalogue { t with scopes := t.scopes.modify c f } (f x) := by
  have hedit : Edit t { t with scopes := t.scopes.modify c f } :=
    .scope t c f fun x => .of_names (hentity x) (hnames x)
  refine h.of_names rfl rfl (h.formed.edit hedit) ?_ (hnames x)
  show (t.scopes.modify c f).get? c = some (f x)
  rw [SlotTable.get?_modify, if_pos rfl, h.here]
  rfl

end Tables

namespace Session

open Tables (Filling)

variable {host : Host L T W} {fuel : Nat} {s s' : Session L T W} {t t' : Tables L T} {c : ScopeId}
  {catalogue ds : List (Declaration L)} {x x' x'' : Scope L T} {d : Declaration L} {e : EntityId}
  {I : Tables L T → Scope L T → Prop}

/-- The scope has got more, and its loading is where it was. -/
structure Fuller (x x' : Scope L T) : Prop where
  state : x'.state = x.state
  loader : x'.loader = x.loader
  found : ∀ name params e, x.find? name params = some e → x'.find? name params = some e

theorem Fuller.refl (x : Scope L T) : Fuller x x :=
  ⟨rfl, rfl, fun _ _ _ => id⟩

theorem Fuller.trans (h : Fuller x x') (h' : Fuller x' x'') : Fuller x x'' :=
  ⟨h'.state.trans h.state, h'.loader.trans h.loader,
    fun name params e he => h'.found name params e (h.found name params e he)⟩

/-- What is found in a scope is found when it is fuller. -/
theorem Fuller.find?_ne_none {name : String} {params : List Param} (h : Fuller x x')
    (hf : x.find? name params ≠ none) : x'.find? name params ≠ none := by
  obtain ⟨e, he⟩ := Option.ne_none_iff_exists'.1 hf
  rw [h.found name params e he]
  nofun

/-- A scope in which something new has been defined has got just that. -/
theorem Defined.fuller (hdef : Defined c d x e t t') (hnew : x.find? d.name d.params = none) :
    ∃ x', t'.scopes.get? c = some x' ∧ x'.names = (x.push d.name d.params e).names ∧
      Fuller x x' ∧ x'.find? d.name d.params = some e ∧
      ∀ name params e', x'.find? name params = some e' → x.find? name params = some e' ∨
        name = d.name ∧ params = d.params ∧ e' = e := by
  obtain ⟨x', hx', hnames, hstate, hloader⟩ := hdef.scope
  have hfind (name : String) (params : List Param) :
      x'.find? name params = (x.push d.name d.params e).find? name params := by
    unfold Scope.find? Scope.overloads?
    rw [hnames]
  refine ⟨x', hx', hnames, ⟨hstate, hloader, fun name params e' he' => ?_⟩, ?_,
    fun name params e' he' => ?_⟩
  · rw [hfind]
    exact Scope.find?_push_of_find? he'
  · rw [hfind]
    exact Scope.find?_push_self hnew
  · rw [hfind] at he'
    exact Scope.find?_push_cases he'

/-- Defining a declaration of the catalogue goes on filling the scope. -/
theorem Defined.filling (hdef : Defined c d x e t t') (h : Filling c catalogue t x)
    (hd : d ∈ catalogue) (hnew : x.find? d.name d.params = none) :
    ∃ x', Filling c catalogue t' x' ∧ Fuller x x' ∧ x'.find? d.name d.params = some e := by
  obtain ⟨x', hx', hnames, hfuller, hfound, hcases⟩ := hdef.fuller hnew
  refine ⟨x', h.of_grown hdef.grown hdef.formed hx' (fun name overloads ho => ?_)
    fun name params e' he' => ?_, hfuller, hfound⟩
  · unfold Scope.overloads? at ho
    rw [hnames] at ho
    exact h.bare.push d.name d.params e name overloads ho
  · rcases hcases name params e' he' with he' | ⟨rfl, rfl, rfl⟩
    · exact Or.inl he'
    · exact Or.inr ⟨d, hd, rfl, rfl, hdef.made⟩

/-- What holds of the tables and the scope goes on to hold while the scope is filled from the
catalogue. -/
structure Lasts (c : ScopeId) (catalogue : List (Declaration L))
    (I : Tables L T → Scope L T → Prop) : Prop where
  here : ∀ {t x}, I t x → t.scopes.get? c = some x
  formed : ∀ {t x}, I t x → t.Formed
  supported : ∀ {t x}, I t x → t.forest.Supported
  linkable : ∀ {t x}, I t x → ∀ d ∈ catalogue, t.Linkable d.kind
  /-- Declarations of the catalogue are defined. -/
  defined : ∀ {t t' x d e}, I t x → d ∈ catalogue → x.find? d.name d.params = none →
    Defined c d x e t t' → ∃ x', I t' x' ∧ Fuller x x' ∧ x'.find? d.name d.params = some e
  /-- Its loading is changed. -/
  modify : ∀ {t x f}, I t x → (∀ x, (f x).entity = x.entity) → (∀ x, (f x).names = x.names) →
    I { t with scopes := t.scopes.modify c f } (f x)

/-- To define what a catalogue has keeps a scope filled from it alone. -/
theorem lasts_filling (c : ScopeId) (catalogue : List (Declaration L)) :
    Lasts c catalogue (Filling c catalogue : Tables L T → Scope L T → Prop) where
  here h := h.here
  formed h := h.formed
  supported h := h.supported
  linkable h := h.linkable
  defined h hd hnew hdef := hdef.filling h hd hnew
  modify h := h.modify

/-! ## Supplying -/

/-- The declarations of a catalogue that a request asks for. -/
def requested (catalogue : List (Declaration L)) : Option NamePart → List (Declaration L)
  | none => catalogue
  | some part => catalogue.filter (·.name = part.text)

/-- Defines those declarations whose names and signatures a scope does not have yet. -/
def supply (c : ScopeId) : List (Declaration L) → Script L T W Unit
  | [] => .done ()
  | d :: ds => .inspect fun t =>
    match (t.scopes.get? c).bind (·.find? d.name d.params) with
    | some _ => supply c ds
    | none => .call (.define c d) fun _ => supply c ds

/-- Loaders serve a catalogue if a request makes them do to the tables what supplying the
declarations asked for does, in some order, and report that they are done. A loader may be another
one afterwards, which serves the catalogue as well. -/
def Serves (host : Host L T W) (c : ScopeId) (catalogue : List (Declaration L))
    (loaders : L → Prop) : Prop :=
  ∀ loader, loaders loader → ∀ request fuel s, ∃ ds, ds.Perm (requested catalogue request) ∧
    ∀ s₁, host.run fuel (supply c ds) s = (.ok (), s₁) →
      ∃ loader' s', loaders loader' ∧
        host.run fuel (host.load loader c request) s = (.ok (.done, loader'), s') ∧
        s'.tables = s₁.tables

/-- Loaders that supply just what is asked for serve the catalogue. -/
theorem serves_of_load_eq (hload : ∀ loader request, host.load loader c request =
    (supply c (requested catalogue request)).bind fun _ => .done (.done, loader)) :
    Serves host c catalogue fun _ => True := by
  intro loader _ request fuel s
  refine ⟨requested catalogue request, .refl _, fun s₁ hrun => ⟨loader, s₁, trivial, ?_, rfl⟩⟩
  unfold Host.run at hrun ⊢
  rw [hload, run_bind_script, run_bind_of_ok hrun]
  rfl

theorem mem_of_mem_requested {request : Option NamePart} (h : d ∈ requested catalogue request) :
    d ∈ catalogue := by
  cases request with
  | none => exact h
  | some part => exact List.mem_of_mem_filter h

/-- Supplying a part of the catalogue succeeds, and nothing of it is missing then : what has been
dealt with stays found while the rest is supplied. -/
theorem run_supply (host : Host L T W) (fuel : Nat) (hI : Lasts c catalogue I)
    (h : I s.tables x) (hds : ∀ d ∈ ds, d ∈ catalogue) :
    ∃ s' x', host.run fuel (supply c ds) s = (.ok (), s') ∧ I s'.tables x' ∧ Fuller x x' ∧
      ∀ d ∈ ds, x'.find? d.name d.params ≠ none := by
  induction ds generalizing s x with
  | nil => exact ⟨s, x, rfl, h, .refl x, nofun⟩
  | cons d ds ih =>
    obtain ⟨hd, hds⟩ := List.forall_mem_cons.1 hds
    have hrest {s₁ : Session L T W} {x₁ : Scope L T} (h₁ : I s₁.tables x₁)
        (hmore : Fuller x x₁) (hfound : x₁.find? d.name d.params ≠ none) :
        ∃ s' x', host.run fuel (supply c ds) s₁ = (.ok (), s') ∧ I s'.tables x' ∧ Fuller x x' ∧
          ∀ d' ∈ d :: ds, x'.find? d'.name d'.params ≠ none := by
      obtain ⟨s', x', hrun, h', hmore', hall⟩ := ih h₁ hds
      exact ⟨s', x', hrun, h', hmore.trans hmore',
        List.forall_mem_cons.2 ⟨hmore'.find?_ne_none hfound, hall⟩⟩
    have hinspect : host.run fuel (supply c (d :: ds)) s = host.run fuel
        (match (s.tables.scopes.get? c).bind (·.find? d.name d.params) with
          | some _ => supply c ds
          | none => .call (.define c d) fun _ => supply c ds) s := rfl
    rw [hinspect, hI.here h, Option.bind_some]
    cases hfind : x.find? d.name d.params with
    | some e => exact hrest h (.refl x) (by rw [hfind]; nofun)
    | none =>
      obtain ⟨s₁, hdefine, hdef⟩ :=
        run_define (hI.formed h) (hI.supported h) (hI.linkable h d hd) (hI.here h) hfind
      obtain ⟨x₁, h₁, hmore, hfound⟩ := hI.defined h hd hfind hdef
      have hcall : host.run fuel (.call (.define c d) fun _ => supply c ds) s =
          host.run fuel (supply c ds) s₁ := by
        show (attempt (define c d) >>= fun _ =>
          (supply c ds).run (host.services fuel)).run s = _
        rw [run_bind, run_attempt, hdefine]
        rfl
      dsimp only
      rw [hcall]
      exact hrest h₁ hmore (by rw [hfound]; nofun)

end Session

end NameResolution
