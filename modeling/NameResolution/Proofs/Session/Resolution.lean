import NameResolution.Proofs.Session.Finding

/-!
# What is resolved stays resolved

A scope only ever gets more entities, and one that it has under a name and a signature
stands before all templates. So once a name and a signature have been resolved in a scope,
they are resolved at once, to the same entity, whatever happens later, until the scope is
given up (`resolved_once`). The entity that a template makes is put into the scope under
the signature that was asked for, so no second one is ever made.
-/

namespace NameResolution

open Tables

namespace Session

variable {L T W : Type} {s s' s₁ S : Session L T W} {c : ScopeId} {e : EntityId}
  {name : String} {params : List Param}

/-! ## What a scope has -/

/-- What a scope has under a name and a signature it has until it is given up. -/
theorem Later.lists (h : Later s s') (hs : s.tables.Formed)
    (hl : s.tables.Lists c name params e) (hc : s.tables.scopes.StillAt s'.tables.scopes c) :
    s'.tables.Lists c name params e := by
  have hkeep : s.tables.Extends s'.tables ∧
      (s'.tables.scopes.releasesAt c = s.tables.scopes.releasesAt c →
        s'.tables.Lists c name params e) := by
    refine (h.induction_edit (P := fun t => s.tables.Extends t ∧
      (t.scopes.releasesAt c = s.tables.scopes.releasesAt c → t.Lists c name params e))
      ?_ hs ⟨.refl _, fun _ => hl⟩).2
    rintro t t' ht ⟨hext, hlists⟩ he
    have hext' := ht.extends_edit he
    refine ⟨hext.trans hext', fun hr => ?_⟩
    have hle := hext.scopes.releasesAt_le c
    have hle' := hext'.scopes.releasesAt_le c
    exact (hlists (by omega)).edit ht he (by omega)
  exact hkeep.2 hc.2

/-- In every session that a host can bring about, no scope has two entities of one name and
signature. -/
theorem Later.distinct {config : Config} {world : W} (h : Later (Session.start config world) s) :
    s.tables.Distinct :=
  (h.induction_edit (fun ht hd he => hd.edit ht he) (Formed.start config)
    (Sound.start config).owned.signatures).2

/-- A session that memoises its templates does so for ever. -/
theorem Later.keeping {config : Config} {world : W} (h : Later (Session.start config world) s)
    (hm : config.memoizeTemplates = true) : Keeping s.tables :=
  (h.induction_edit (fun _ ht he => Keeping.edit ht he) (Formed.start config)
    ⟨(Sound.start config).coherent, hm⟩).2

/-! ## Resolving -/

/-- A name and a signature are resolved without being looked for any further. -/
def Resolved (s : Session L T W) (c : ScopeId) (name : String) (params : List Param)
    (e : EntityId) : Prop :=
  ∀ (host : Host L T W) fuel,
    host.perform fuel (.find c (.simple name params)) s = (.ok (.ok (some e)), s) ∧
      host.perform fuel (.tryFind c (.simple name params)) s = (.ok (.ok (some e)), s) ∧
      ∀ location, host.perform fuel (.resolveOverload c name params location) s =
        (.ok (.ok (some e)), s)

theorem find_simple (services : Services L T W) (c : ScopeId) (name : String)
    (params : List Param) :
    find services c (.simple name params) = findSimple services c name params :=
  findWith_simple services c name params

theorem tryFind_simple (services : Services L T W) (c : ScopeId) (name : String)
    (params : List Param) :
    tryFind services c (.simple name params) = resolveOverload services c name params .unknown := by
  unfold tryFind signature
  exact pure_bind _ _

theorem resolved_of_lists (h : s.tables.Lists c name params e) : Resolved s c name params e := by
  obtain ⟨x, hx, hf⟩ := h
  refine fun host fuel => ⟨?_, ?_, fun location => ?_⟩
  · show (attempt (find (host.services fuel) c (.simple name params))).run s = _
    rw [run_attempt, find_simple, run_findSimple hx hf]
  · show (attempt (tryFind (host.services fuel) c (.simple name params))).run s = _
    rw [run_attempt, tryFind_simple, run_resolveOverload hx hf]
  · show (attempt (resolveOverload (host.services fuel) c name params location)).run s = _
    rw [run_attempt, run_resolveOverload hx hf]

/-- What has been found is in the scope, under the name and the signature. -/
theorem lists_of_find {host : Host L T W} {fuel : Nat} (hs : Keeping s.tables)
    (h : host.perform fuel (.find c (.simple name params)) s = (.ok (.ok (some e)), s')) :
    s'.tables.Lists c name params e := by
  have hrun := run_attempt_eq_ok h
  rw [find_simple] at hrun
  exact (((follows_findSimple (obeys_services host fuel) hs).of_run_eq_ok hs.1.formed hrun).2
    e rfl).lists

/-- An answered overload is listed afterwards. -/
theorem lists_of_resolveOverload {host : Host L T W} {fuel : Nat} {location : Location}
    (hs : Keeping s.tables)
    (h : host.perform fuel (.resolveOverload c name params location) s =
      (.ok (.ok (some e)), s')) : s'.tables.Lists c name params e :=
  (((follows_resolveOverload hs location).of_run_eq_ok hs.1.formed (run_attempt_eq_ok h)).2
    e rfl).lists

/-- Templates are set to keep what they make. Once a name and a signature have been resolved in a
scope, they are resolved to the same entity at every later moment at which the scope is still
there, and nothing is loaded, consulted or changed for it. Nothing else has ever been in the scope
under that name and signature, so no more than one entity is ever made for them. -/
theorem resolved_once {config : Config} {world : W} {host : Host L T W} {fuel : Nat}
    (h : Later (Session.start config world) s) (hm : config.memoizeTemplates = true)
    (hrun : host.perform fuel (.find c (.simple name params)) s = (.ok (.ok (some e)), s₁) ∨
      ∃ location, host.perform fuel (.resolveOverload c name params location) s =
        (.ok (.ok (some e)), s₁))
    (h' : Later s₁ s') (hc : s₁.tables.scopes.StillAt s'.tables.scopes c) :
    Resolved s' c name params e ∧
      ∀ s₀, Later (Session.start config world) s₀ → Later s₀ s' →
        s₀.tables.scopes.StillAt s'.tables.scopes c → ∀ x, s₀.tables.scopes.get? c = some x →
          ∀ o ∈ x.items name, o.params = params → o.entity = e := by
  have hs := h.keeping hm
  obtain ⟨h₁, hlists⟩ : Later s s₁ ∧ s₁.tables.Lists c name params e := by
    rcases hrun with hrun | ⟨location, hrun⟩
    · exact ⟨later_of_perform hrun, lists_of_find hs hrun⟩
    · exact ⟨later_of_perform hrun, lists_of_resolveOverload hs hrun⟩
  have hs₁ : s₁.tables.Formed := (h.trans h₁).formed (.start config)
  have hlists' := h'.lists hs₁ hlists hc
  refine ⟨resolved_of_lists hlists', fun s₀ h₀ hlater hstill x hx o ho hp => ?_⟩
  have hother : s₀.tables.Lists c name params o.entity :=
    ⟨x, hx, Scope.find?_of_mem (h₀.distinct c x hx name) (hp ▸ ho)⟩
  obtain ⟨y, hy, hfound⟩ := hlater.lists (h₀.formed (.start config)) hother hstill
  obtain ⟨z, hz, hfound'⟩ := hlists'
  rw [hy] at hz
  obtain rfl := Option.some.inj hz
  exact Option.some.inj (hfound.symm.trans hfound')

/-- The workshop after a list of nothing has been looked for in its package. -/
def stockedWorkshop : Session Unit Unit Unit :=
  (workshopHost.perform 2 (.find ⟨1, 0⟩ (.simple "List" [.void])) workshop).2

/-- The workshop with a second template for lists, so that a list of anything else could be made in
two ways. -/
def crowdedWorkshop : Session Unit Unit Unit :=
  (workshopHost.perform 1 (.addTemplate ⟨1, 0⟩ ()) stockedWorkshop).2

/-- `resolved_once` on a workshop that has been filled since. -/
theorem resolved_once_crowdedWorkshop :
    stockedWorkshop.tables.scopes.StillAt crowdedWorkshop.tables.scopes ⟨1, 0⟩ ∧
      Resolved crowdedWorkshop ⟨1, 0⟩ "List" [.void] ⟨2, 0⟩ ∧
      ∀ x, crowdedWorkshop.tables.scopes.get? ⟨1, 0⟩ = some x → ∀ o ∈ x.items "List",
        o.params = [.void] → o.entity = ⟨2, 0⟩ := by
  have h : Later (Session.start {} ()) workshop := (Later.refl _).perform workshopHost 1 _
  have h₁ : Later workshop stockedWorkshop := (Later.refl _).perform workshopHost 2 _
  have h' : Later stockedWorkshop crowdedWorkshop := (Later.refl _).perform workshopHost 1 _
  have hfound : (workshopHost.perform 2 (.find ⟨1, 0⟩ (.simple "List" [.void])) workshop).1 =
      .ok (.ok (some ⟨2, 0⟩)) := by decide +kernel
  have hrun : workshopHost.perform 2 (.find ⟨1, 0⟩ (.simple "List" [.void])) workshop =
      (.ok (.ok (some ⟨2, 0⟩)), stockedWorkshop) := by
    unfold stockedWorkshop
    rw [← hfound]
  have hu : crowdedWorkshop.tables.Unwrapped := by decide +kernel
  have hf : stockedWorkshop.tables.Formed := (h.trans h₁).formed (.start _)
  have hc : stockedWorkshop.tables.scopes.StillAt crowdedWorkshop.tables.scopes ⟨1, 0⟩ :=
    SlotTable.stillAt_of_unwrapped (h'.extends hf).scopes hu.scopes (by decide +kernel)
      (by decide +kernel)
  obtain ⟨hresolved, hone⟩ := resolved_once h rfl (Or.inl hrun) h' hc
  exact ⟨hc, hresolved, hone crowdedWorkshop ((h.trans h₁).trans h') (.refl _)
    ⟨hc.1, rfl⟩⟩

end Session

end NameResolution
