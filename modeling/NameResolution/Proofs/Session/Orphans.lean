import NameResolution.Proofs.Session.Finding
import NameResolution.Proofs.Session.Ownership
import NameResolution.Proofs.Session.Progress

/-!
# Entities whose scope is gone

An entity may be released while its scope holds others. The scope goes with it
(`Tables.GivesUp`), but what it held stays, and its owner is a handle to nothing then. No
other edit takes an owner away (`Tables.Paired.owner_gone_cases`), and an owner that is gone
never comes back (`Later.owner_gone`). So an entity loses its owner exactly when the scope
is given up with the entity in it : `orphaned_iff`. From then on nothing lists the entity,
and it cannot be released.

A lookup climbs from a scope to the one around its entity (`Tables.Inside`). A climb that
finds nothing ends at the top, or is broken off by the first scope on the way that is gone
(`run_climb_cases`), and that one is the owner of a live entity.
-/

namespace NameResolution

namespace Tables

variable {L T : Type} {t t' : Tables L T} {c : ScopeId} {e : EntityId} {x : Entity}

/-- The change frees the entity that the scope is the inside of, and the scope with it. -/
def GivesUp (t : Tables L T) (c : ScopeId) (t' : Tables L T) : Prop :=
  ∃ a, t.Loose a ∧ t.scopeOf? a = some c ∧ t' = t.discard a

/-- The entity around the first scope is in the second. -/
def Inside (t : Tables L T) (c c' : ScopeId) : Prop :=
  ∃ s x, t.scopes.get? c = some s ∧ t.entities.get? s.entity = some x ∧ x.owner = some c'

/-! ## One edit -/

/-- An owner that is gone after an edit was gone before, or it is given up by the edit. -/
theorem Paired.owner_gone_cases (hp : t.Paired) (ht : t.Formed) (h : Edit t t')
    (hx : t'.entities.get? e = some x) (hown : x.owner = some c)
    (hc : t'.scopes.get? c = none) :
    t.entities.get? e = some x ∧ (t.scopes.get? c = none ∨ t.GivesUp c t') := by
  have hgone (hkeep : ∀ s, t.scopes.get? c = some s → ∃ s', t'.scopes.get? c = some s') :
      t.scopes.get? c = none := by
    by_contra hlive
    obtain ⟨s, hs⟩ := Option.ne_none_iff_exists'.1 hlive
    obtain ⟨s', hs'⟩ := hkeep s hs
    rw [hc] at hs'
    cases hs'
  cases h with
  | refl => exact ⟨hx, Or.inl hc⟩
  | place d =>
    rcases ht.get?_entities_place hx with hx | ⟨-, kind, rfl, -⟩
    · exact ⟨hx, Or.inl (hgone fun s hs => ⟨s, ht.get?_scopes_place_of_some d hs⟩)⟩
    · cases hown
  | @discard a h =>
    refine ⟨((get?_entities_discard h).1 hx).2, ?_⟩
    cases hs : t.scopes.get? c with
    | none => exact Or.inl rfl
    | some s =>
      obtain rfl : s.entity = a := by
        by_contra hne
        rw [(hp.get?_scopes_discard h).2 ⟨hne, hs⟩] at hc
        cases hc
      obtain ⟨y, hy, hyc⟩ := hp.outside c s hs
      exact Or.inr ⟨s.entity, h, Option.bind_eq_some_iff.2 ⟨y, hy, hyc⟩, rfl⟩
  | attach h =>
    obtain ⟨x₀, s₀, -, -, hs₀, -, hent, hscope⟩ := attach_cases h
    rw [hent] at hx
    split_ifs at hx with he
    · obtain rfl := Option.some.inj hx
      obtain rfl := Option.some.inj hown
      rw [hscope, if_pos rfl] at hc
      cases hc
    · refine ⟨hx, Or.inl (hgone fun s hs => ?_)⟩
      rw [hscope]
      split_ifs
      · exact ⟨_, rfl⟩
      · exact ⟨s, hs⟩
  | forest f => exact ⟨hx, Or.inl hc⟩
  | scope c₀ f h =>
    refine ⟨hx, Or.inl (hgone fun s hs => ?_)⟩
    rw [SlotTable.get?_modify]
    split_ifs with hcc
    · exact ⟨f s, by rw [← hcc, hs]; rfl⟩
    · exact ⟨s, hs⟩

/-- A scope that is given up is never there again. -/
theorem GivesUp.spent (h : t.GivesUp c t') (hp : t.Paired) : t'.scopes.Spent c := by
  obtain ⟨a, -, hac, rfl⟩ := h
  obtain ⟨x, hx, hk⟩ := Option.bind_eq_some_iff.1 hac
  obtain ⟨s, hs, -⟩ := hp.inside a x c hx hk
  rcases (discard_cases hx).2 with ⟨hk', -⟩ | ⟨c', hk', hsc⟩
  · rw [hk] at hk'
    cases hk'
  · rw [hk] at hk'
    obtain rfl := Option.some.inj hk'
    rw [hsc]
    exact SlotTable.spent_erase (SlotTable.contains_of_get? hs)

/-! ## Owners in sound tables -/

/-- An owner that is gone was there once. -/
theorem Sound.spent_of_owner_gone (ht : t.Sound) (hx : t.entities.get? e = some x)
    (hown : x.owner = some c) (hc : t.scopes.get? c = none) : t.scopes.Spent c := by
  rcases ht.owned.issued e x c hx hown with hlive | hspent
  · obtain ⟨s, hs⟩ := SlotTable.contains_iff.1 hlive
    rw [hc] at hs
    cases hs
  · exact hspent

/-- An entity is in its owner, if that is there. -/
theorem Sound.holds_of_owner (ht : t.Sound) (hx : t.entities.get? e = some x)
    (hown : x.owner = some c) (hc : t.scopes.get? c ≠ none) : t.Holds c x.name x.params e := by
  obtain ⟨s, hs⟩ := Option.ne_none_iff_exists'.1 hc
  exact ⟨⟨x, hx, rfl, rfl, hown⟩, s, hs, Scope.find?_of_mem (ht.owned.signatures c s hs x.name)
    (ht.owned.listed e x c s hx hown hs)⟩

/-- What has an owner is listed there or nowhere. -/
theorem Coherent.not_lists_of_owner_gone {c' : ScopeId} {name : String} {params : List Param}
    (ht : t.Coherent) (hx : t.entities.get? e = some x) (hown : x.owner = some c)
    (hc : t.scopes.get? c = none) : ¬t.Lists c' name params e := by
  rintro ⟨s, hs, hf⟩
  obtain ⟨y, hy, -, -, hyc⟩ := ht.held c' s hs name _ (Scope.mem_of_find? hf)
  obtain rfl := Option.some.inj (hx.symm.trans hy)
  obtain rfl := Option.some.inj (hown.symm.trans hyc)
  rw [hc] at hs
  cases hs

end Tables

namespace Session

open Relation (ReflTransGen)

variable {L T W : Type} {s s' : Session L T W} {c : ScopeId} {e : EntityId} {x : Entity}
  {config : Config} {world : W}

/-! ## The history of an owner -/

/-- An owner that is gone stays away, and its entity stays. -/
theorem Later.owner_gone (h : Later s s') (hs : s.tables.Sound) (hu : s'.tables.Unwrapped)
    (hx : s.tables.entities.get? e = some x) (hown : x.owner = some c)
    (hc : s.tables.scopes.get? c = none) :
    s'.tables.entities.get? e = some x ∧ s'.tables.scopes.get? c = none := by
  have hspent := (hs.spent_of_owner_gone hx hown hc).extends (h.extends hs.formed).scopes
  exact ⟨h.get?_entities hs.formed hx (by simp [hown]), SlotTable.get?_of_spent hu.scopes hspent⟩

/-- At some moment the scope was given up, with the entity in it. -/
def Lost (config : Config) (world : W) (s : Session L T W) (c : ScopeId) (x : Entity)
    (e : EntityId) : Prop :=
  ∃ s₁ s₂, Later (Session.start config world) s₁ ∧ Later s₁ s₂ ∧ Later s₂ s ∧
    s₁.tables.Holds c x.name x.params e ∧ s₁.tables.GivesUp c s₂.tables

/-- An owner that is gone was given up. -/
theorem Steps.lost_of_owner_gone (h : Steps (Session.start config world) s)
    (hu : s.tables.Unwrapped) (hx : s.tables.entities.get? e = some x) (hown : x.owner = some c)
    (hc : s.tables.scopes.get? c = none) : Lost config world s c x e := by
  induction h with
  | refl =>
    rw [(Tables.get?_entities_start hx).2.1] at hown
    cases hown
  | @tail s s' h hstep ih =>
    have hlater := Steps.later h
    have hf := hlater.formed (Tables.Formed.start config)
    have hu := (hf.extends_edit hstep.edit).unwrapped hu
    have hs := hlater.sound (Tables.Sound.start config) hu
    obtain ⟨hx, hcases⟩ := hs.paired.owner_gone_cases hf hstep.edit hx hown hc
    by_cases hgone : s.tables.scopes.get? c = none
    · obtain ⟨s₁, s₂, h₁, h₁₂, h₂, hholds, hgives⟩ := ih hu hx hgone
      exact ⟨s₁, s₂, h₁, h₁₂, h₂.step hstep, hholds, hgives⟩
    · exact ⟨s, s', hlater, (Later.refl s).step hstep, .refl s', hs.holds_of_owner hx hown hgone,
        hcases.resolve_left hgone⟩

/-- What was given up is gone. -/
theorem Lost.owner_gone (h : Lost config world s c x e) (hu : s.tables.Unwrapped) :
    s.tables.scopes.get? c = none := by
  obtain ⟨s₁, s₂, h₁, h₁₂, h₂, -, hgives⟩ := h
  have hf₁ := h₁.formed (Tables.Formed.start config)
  have hext₂ := h₂.extends (h₁₂.formed hf₁)
  have hu₁ := (h₁₂.extends hf₁).unwrapped (hext₂.unwrapped hu)
  have hspent := hgives.spent (h₁.sound (Tables.Sound.start config) hu₁).paired
  exact SlotTable.get?_of_spent hu.scopes (hspent.extends hext₂.scopes)

/-! ## Releasing -/

/-- What belongs to a scope is not released, be the scope gone or not. -/
theorem perform_release_of_owner (host : Host L T W) (fuel : Nat)
    (hx : s.tables.entities.get? e = some x) (hown : x.owner = some c) :
    host.perform fuel (.release e) s = (.ok false, s) := by
  have hrel : ¬s.tables.isReleasable e = true := by
    simp [Tables.isReleasable, hx, hown]
  exact (run_release s e).trans (if_neg hrel)

/-- Releasing a type or a package gives its scope up, whatever is in it. -/
theorem givesUp_of_release {host : Host L T W} {fuel : Nat} {a : EntityId}
    (hac : s.tables.scopeOf? a = some c)
    (hr : host.perform fuel (.release a) s = (.ok true, s')) :
    s.tables.GivesUp c s'.tables := by
  replace hr := (run_release s a).symm.trans hr
  split_ifs at hr with ha
  · cases hr
    exact ⟨a, Tables.loose_of_isReleasable ha, hac, rfl⟩
  · cases hr

/-! ## Climbing -/

/-- What is looked for is in none of the scopes; a scope that is gone is a fault. -/
def FindsNothing (look : ScopeId → Run L T W (Option EntityId)) (s : Session L T W) : Prop :=
  ∀ c, (look c).run s = ((fun _ => none) <$> s.tables.scope c, s)

/-- A climb that finds nothing ends at the top, or takes too many steps, or is broken off by a
scope on the way that is gone. -/
theorem run_climb_cases {look : ScopeId → Run L T W (Option EntityId)}
    (hlook : FindsNothing look s) (steps : Nat) (c : ScopeId) :
    (climb look steps c).run s = (.ok none, s) ∨
      (climb look steps c).run s = (.error .outOfFuel, s) ∨
      ∃ c', ReflTransGen s.tables.Inside c c' ∧ s.tables.scopes.get? c' = none ∧
        (climb look steps c).run s = (.error (.fault (.scope c')), s) := by
  induction steps generalizing c with
  | zero => exact Or.inr (Or.inl rfl)
  | succ steps ih =>
    cases hx : s.tables.scopes.get? c with
    | none =>
      refine Or.inr (Or.inr ⟨c, .refl, hx, ?_⟩)
      rw [climb, run_bind, hlook c, Tables.scope, hx]
      rfl
    | some x =>
      have hlive : (look c).run s = (.ok none, s) := by
        rw [hlook c, Tables.scope, hx]
        rfl
      cases hown : (s.tables.entities.get? x.entity).bind Entity.owner with
      | none =>
        refine Or.inl ?_
        rw [climb]
        simp only [run_bind, hlive, run_ask, Tables.scope, hx, run_getTables, hown, run_pure]
      | some owner =>
        have hclimb : (climb look (steps + 1) c).run s = (climb look steps owner).run s := by
          rw [climb]
          simp only [run_bind, hlive, run_ask, Tables.scope, hx, run_getTables, hown]
        obtain ⟨y, hy, hyo⟩ := Option.bind_eq_some_iff.1 hown
        rw [hclimb]
        refine (ih owner).imp_right (Or.imp_right ?_)
        rintro ⟨c', hpath, hc', hrun⟩
        exact ⟨c', .head ⟨x, y, hx, hy, hyo⟩ hpath, hc', hrun⟩

/-- A name that begins with a part of which no scope knows anything is found nowhere, once all is
loaded. -/
theorem findsNothing_findName {services : Services L T W} {name : String}
    (h : ∀ c x, s.tables.scopes.get? c = some x → x.state = .loaded ∧ x.overloads? name = none)
    (params : List Param) (rest : List NamePart) :
    FindsNothing (findName services (.simple name params :: rest)) s := by
  intro c
  rw [findName, run_bind, run_ask]
  cases hx : s.tables.scopes.get? c with
  | none => simp only [Tables.scope, hx, Functor.map, Except.map]
  | some x =>
    obtain ⟨hloaded, hnone⟩ := h c x hx
    have hresolve : (resolveOverload services c name params .unknown).run s = (.ok none, s) := by
      unfold resolveOverload
      simp only [run_bind, run_ask, Tables.scope, hx, hnone, run_pure]
    have hfind : (findSimple services c name params).run s = (.ok none, s) := by
      unfold findSimple
      simp only [run_bind, hresolve, run_ask, Tables.scope, hx, hloaded, if_true, run_pure]
    simp only [Tables.scope, hx, run_bind, findWith_simple, hfind, run_pure, Functor.map,
      Except.map]

/-- What a lookup comes to that finds nothing. -/
theorem perform_lookup_cases {host : Host L T W} {fuel : Nat} {n : QualifiedName}
    (hn : FindsNothing (findName (host.services fuel) n) s) (c : ScopeId) :
    host.perform fuel (.lookup c n) s = (.ok (.ok none), s) ∨
      host.perform fuel (.lookup c n) s = (.error .outOfFuel, s) ∨
      ∃ c', ReflTransGen s.tables.Inside c c' ∧ s.tables.scopes.get? c' = none ∧
        host.perform fuel (.lookup c n) s = (.error (.fault (.scope c')), s) := by
  have hperform : host.perform fuel (.lookup c n) s =
      (attempt (climb (findName (host.services fuel) n) (host.services fuel).reach c)).run s := rfl
  rw [hperform, run_attempt]
  rcases run_climb_cases hn (host.services fuel).reach c with hrun | hrun | ⟨c', hpath, hc', hrun⟩
  · rw [hrun]
    exact Or.inl rfl
  · rw [hrun]
    exact Or.inr (Or.inl rfl)
  · rw [hrun]
    exact Or.inr (Or.inr ⟨c', hpath, hc', rfl⟩)

/-! ## Orphans -/

/-- In every session that a host can bring about, the owner of a live entity is gone exactly if it
was given up with the entity in it, as it is when the type or package around it is released. An
owner that is there lists the entity; once it is gone, the entity stays live, no scope lists it, and
it is not released. So a lookup from a live scope that finds nothing comes to no scope that is gone,
except to the owner of such an entity. -/
theorem orphaned_iff (h : Later (Session.start config world) s) (hu : s.tables.Unwrapped) :
    (∀ e x c, s.tables.entities.get? e = some x → x.owner = some c →
      (s.tables.scopes.get? c = none ↔ Lost config world s c x e) ∧
      (s.tables.scopes.get? c ≠ none → s.tables.Lists c x.name x.params e) ∧
      (s.tables.scopes.get? c = none → ∀ s', Later s s' → s'.tables.Unwrapped →
        s'.tables.entities.get? e = some x ∧ (∀ c' name params, ¬s'.tables.Lists c' name params e) ∧
          ∀ (host : Host L T W) fuel, host.perform fuel (.release e) s' = (.ok false, s'))) ∧
    (∀ (host : Host L T W) fuel a c s', s.tables.scopeOf? a = some c →
      host.perform fuel (.release a) s = (.ok true, s') → s.tables.GivesUp c s'.tables) ∧
    ∀ (host : Host L T W) fuel n c, FindsNothing (findName (host.services fuel) n) s →
      s.tables.scopes.get? c ≠ none →
        host.perform fuel (.lookup c n) s = (.ok (.ok none), s) ∨
          host.perform fuel (.lookup c n) s = (.error .outOfFuel, s) ∨
          ∃ e x c', s.tables.entities.get? e = some x ∧ x.owner = some c' ∧
            s.tables.scopes.get? c' = none ∧
            host.perform fuel (.lookup c n) s = (.error (.fault (.scope c')), s) := by
  have hs := h.sound (Tables.Sound.start config) hu
  have hsteps := h.steps (Tracked.start config world) (Tables.Formed.start config) hu
  refine ⟨fun e x c hx hown => ⟨⟨hsteps.lost_of_owner_gone hu hx hown, (Lost.owner_gone · hu)⟩,
    fun hc => (hs.holds_of_owner hx hown hc).lists, fun hc s' h' hu' => ?_⟩,
    fun _ _ _ _ _ => givesUp_of_release, fun host fuel n c hn hc => ?_⟩
  · obtain ⟨hx', hc'⟩ := h'.owner_gone hs hu' hx hown hc
    exact ⟨hx', fun _ _ _ => (h'.sound hs hu').coherent.not_lists_of_owner_gone hx' hown hc',
      fun host fuel => perform_release_of_owner host fuel hx' hown⟩
  · refine (perform_lookup_cases hn c).imp_right (Or.imp_right ?_)
    rintro ⟨c', hpath, hc', hrun⟩
    rcases hpath.cases_tail with heq | ⟨b, -, y, x, -, hx, hown⟩
    · exact absurd (heq ▸ hc') hc
    · exact ⟨_, x, c', hx, hown, hc', hrun⟩

/-- A package inside of another one that has been released; every scope that is left is loaded. -/
def buriedPackage : Session Unit Unit Unit :=
  let package (name : String) : Declaration Unit :=
    { name, params := [], kind := .package none, location := .unknown }
  let s := (fillingHost.perform 2 (.declare (package "p")) (Session.start {} ())).2
  let s := (fillingHost.perform 2 (.define ⟨1, 0⟩ (package "q")) s).2
  let s := (fillingHost.perform 2 (.release ⟨1, 0⟩) s).2
  let s := (fillingHost.perform 2 (.forceLoad rootScope) s).2
  (fillingHost.perform 2 (.forceLoad ⟨2, 0⟩) s).2

/-- The package is released with its content in it. -/
theorem buriedPackage_later : Later (Session.start {} ()) buriedPackage :=
  (((((Later.refl _).perform fillingHost 2 _).perform fillingHost 2 _).perform fillingHost 2
    _).perform fillingHost 2 _).perform fillingHost 2 _

/-- The name of what is left is found nowhere. -/
theorem findsNothing_buriedPackage :
    FindsNothing (findName (fillingHost.services 2) [.simple "x" []]) buriedPackage := by
  have hslots : ∀ slot ∈ buriedPackage.tables.scopes.slots,
      slot.value.all (fun x => x.state = .loaded && (x.overloads? "x").isNone) = true := by
    decide +kernel
  refine findsNothing_findName (fun c x hx => ?_) [] []
  obtain ⟨slot, hslot, -, hvalue⟩ := SlotTable.get?_eq_some_iff.1 hx
  have h := hslots slot (Array.mem_of_getElem? hslot)
  simpa [hvalue] using h

/-- `orphaned_iff` on the package that is released with its content in it. -/
theorem orphaned_iff_buriedPackage : buriedPackage.tables.Unwrapped ∧
    (∃ x, buriedPackage.tables.entities.get? ⟨2, 0⟩ = some x ∧ x.owner = some ⟨1, 0⟩ ∧
      Lost {} () buriedPackage ⟨1, 0⟩ x ⟨2, 0⟩ ∧
      ∀ c name params, ¬buriedPackage.tables.Lists c name params ⟨2, 0⟩) ∧
    ∃ e x c, buriedPackage.tables.entities.get? e = some x ∧ x.owner = some c ∧
      buriedPackage.tables.scopes.get? c = none ∧
      fillingHost.perform 2 (.lookup ⟨2, 0⟩ [.simple "x" []]) buriedPackage =
        (.error (.fault (.scope c)), buriedPackage) := by
  have hu : buriedPackage.tables.Unwrapped := by decide +kernel
  obtain ⟨howners, -, hlookups⟩ := orphaned_iff buriedPackage_later hu
  obtain ⟨x, hx, hown⟩ : ∃ x, buriedPackage.tables.entities.get? ⟨2, 0⟩ = some x ∧
      x.owner = some ⟨1, 0⟩ := ⟨_, rfl, rfl⟩
  have hc : buriedPackage.tables.scopes.get? ⟨1, 0⟩ = none := rfl
  obtain ⟨hlost, -, hafter⟩ := howners _ x _ hx hown
  refine ⟨hu, ⟨x, hx, hown, hlost.1 hc, (hafter hc _ (.refl _) hu).2.1⟩, ?_⟩
  have hrun : (fillingHost.perform 2 (.lookup ⟨2, 0⟩ [.simple "x" []]) buriedPackage).1 =
      .error (.fault (.scope ⟨1, 0⟩)) := rfl
  rcases hlookups fillingHost 2 _ ⟨2, 0⟩ findsNothing_buriedPackage nofun with h | h | h
  · rw [h] at hrun
    cases hrun
  · rw [h] at hrun
    cases hrun
  · exact h

/-- The inner package is live, but its owner is gone; it cannot be released, and a lookup from its
scope, which is there, is broken off by the scope that is gone. -/
theorem buriedPackage_owner_gone : Later (Session.start {} ()) buriedPackage ∧
    (∃ x, buriedPackage.tables.entities.get? ⟨2, 0⟩ = some x ∧ x.owner = some ⟨1, 0⟩) ∧
    buriedPackage.tables.scopes.get? ⟨1, 0⟩ = none ∧
    (fillingHost.perform 2 (.release ⟨2, 0⟩) buriedPackage).1 = .ok false ∧
    (∃ y, buriedPackage.tables.scopes.get? ⟨2, 0⟩ = some y ∧ y.entity = ⟨2, 0⟩) ∧
    (fillingHost.perform 2 (.lookup ⟨2, 0⟩ [.simple "x" []]) buriedPackage).1 =
      .error (.fault (.scope ⟨1, 0⟩)) :=
  ⟨buriedPackage_later, ⟨_, rfl, rfl⟩, rfl, rfl, ⟨_, rfl, rfl⟩, rfl⟩

end Session

end NameResolution
