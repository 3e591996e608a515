import NameResolution.Proofs.Session.Catalogue
import NameResolution.Proofs.Session.Correspondence
import NameResolution.Proofs.Session.Finding

/-!
# What templates make

A signature that a scope does not have is offered to the templates of its name, and each that
applies offers a declaration for it (`offers`). A single offer is declared under the name and
the signature asked for. One whose supertype cannot be linked is refused and taken back, which
leaves the tables as they were, but for slots that were used in vain (`run_declare_refused`,
`grown_discard_place`).

In tables that match, resolving a signature comes to one of six ends (`Resolves`,
`resolves_resolveOverload`) : what the scope has not and no template claims (`Claimed`) is
missed. Whichever it is, the tables grow, and the scope gets the instance that is kept in it or
nothing (`Resolves.gains`).
-/

namespace NameResolution

variable {L T W : Type}

namespace Tables

variable {t : Tables L T} {c : ScopeId} {x : Scope L T} {d : Declaration L}

/-! ## A declaration that is taken back -/

/-- Placing a declaration and discarding its entity leaves what was there. -/
theorem grown_discard_place (ht : t.Formed) (hf : t.forest.Supported) (d : Declaration L) :
    t.Grown ((t.place d).2.discard t.entities.next) := by
  have hloose := (ht.declared_place d).loose
  refine ⟨fun e x hx => ?_, ?_⟩
  · exact (get?_entities_discard hloose).2
      ⟨SlotTable.ne_next ht.entities hx, ht.get?_entities_place_of_some d hx⟩
  · obtain ⟨kind, he, hcases⟩ := node_place_cases t d
    have hx : (t.place d).2.entities.get? t.entities.next = some (d.toEntity kind) := by
      rw [he, SlotTable.get?_insert ht.entities, if_pos rfl]
    rcases node_discard_cases hx with ⟨hnode, hforest⟩ | ⟨n, hnode, hforest⟩
    · rw [hforest]
      rcases hcases with ⟨-, hplace⟩ | ⟨hsome, -⟩
      · exact hplace ▸ hf.grown_self
      · cases hnode.symm.trans hsome
    · rw [hforest]
      rcases hcases with ⟨hnone, -⟩ | ⟨hsome, hplace⟩
      · cases hnone.symm.trans hnode
      · obtain rfl := Option.some.inj (hnode.symm.trans hsome)
        rw [hplace]
        exact hf.grown_erase_insert _

/-- It leaves the scopes that were there. -/
theorem Coherent.get?_scopes_discard_place (ht : t.Coherent) (hx : t.scopes.get? c = some x)
    (d : Declaration L) :
    ((t.place d).2.discard t.entities.next).scopes.get? c = some x := by
  have hloose := (ht.formed.declared_place d).loose
  have hplaced := ht.edit (.place t d)
  refine (hplaced.paired.get?_scopes_discard hloose).2
    ⟨?_, ht.formed.get?_scopes_place_of_some d hx⟩
  obtain ⟨y, hy, -⟩ := ht.paired.outside c x hx
  exact SlotTable.ne_next ht.formed.entities hy

theorem config_place (t : Tables L T) (d : Declaration L) :
    (t.place d).2.config = t.config := by
  unfold place
  cases d.kind <;> rfl

end Tables

namespace Session

variable {services : Services L T W} {templates : Templates L T W} {s s' : Session L T W}
  {c : ScopeId} {x : Scope L T} {d : Declaration L} {name : String} {params : List Param}
  {location : Location} {answer : Except Failure (Option EntityId)}

/-! ## Refusals -/

/-- A declaration whose supertype cannot be linked is refused before it is placed, or placed and
taken back. -/
theorem run_declare_refused (hm : s.tables.Matched) (hf : s.tables.forest.Supported)
    (hl : ¬s.tables.Linkable d.kind) :
    ∃ f s', (declare d).run s = (.error (.failure f), s') ∧ (s'.tables = s.tables ∨
      s'.tables = (s.tables.place d).2.discard s.tables.entities.next) := by
  have ht := hm.coherent.formed
  have hno {p : EntityId} {n : NodeId} {change : Option Forest.Change}
      (hd : d.kind = .type (some p)) (hp : s.tables.node? p = some n)
      (h : s.linking d n = .ok change) : False := by
    unfold linking placed at h
    rw [Tables.forest_place_of_type hd] at h
    obtain ⟨hlive, hlen⟩ := hf.of_setParent_next h
    refine hl fun p' hd' => ⟨n, ?_, hlive, hlen⟩
    obtain rfl := Option.some.inj (DeclarationKind.type.inj (hd.symm.trans hd'))
    exact Tables.typeNode_eq_ok.2 (Option.bind_eq_some_iff.1 hp)
  obtain ⟨answer, s', hrun, h⟩ := places_declare ht hm.linked.nodes d
  cases h with
  | notAType hd hp => exact ⟨_, _, hrun, Or.inl rfl⟩
  | refused hd hp h => exact ⟨_, _, hrun, Or.inr rfl⟩
  | stopped hd hp h hstop =>
    obtain ⟨f, rfl⟩ := linking_ne_fault hm hd hp h
    exact (hstop f rfl).elim
  | unlinked hd word => exact (hl fun p hp => (hd p hp).elim).elim
  | linked hd hp h word => exact (hno hd hp h).elim

/-! ## What templates offer -/

/-- The declarations that the templates of a scope offer for a name and a signature. -/
def offers (templates : Templates L T W) (s : Session L T W) (x : Scope L T) (name : String)
    (params : List Param) : List (Declaration L) :=
  (((x.overloads? name).map OverloadSet.templates).getD []).filterMap
    fun template => templates.generate template s.tables s.world params

/-- What resolving a name and a signature in a scope comes to. -/
inductive Resolves (templates : Templates L T W) (c : ScopeId) (x : Scope L T) (name : String)
    (params : List Param) (location : Location) (s : Session L T W) :
    Except Failure (Option EntityId) → Session L T W → Prop
  /-- The scope has an entity of the signature. -/
  | found {e : EntityId} (h : x.find? name params = some e) :
    Resolves templates c x name params location s (.ok (some e)) s
  /-- No template applies. -/
  | missed {s' : Session L T W} (h : x.find? name params = none)
    (ho : offers templates s x name params = []) (ht : s'.tables = s.tables)
    (hw : s'.world = s.world) : Resolves templates c x name params location s (.ok none) s'
  /-- Several templates apply. -/
  | ambiguous {s' : Session L T W} (h : x.find? name params = none)
    (ho : 2 ≤ (offers templates s x name params).length) (ht : s'.tables = s.tables) :
    Resolves templates c x name params location s
      (.error (.ambiguousTemplate name (offers templates s x name params).length location)) s'
  /-- One template applies, and what it offers cannot be declared. -/
  | refused {d : Declaration L} {f : Failure} {s' : Session L T W}
    (h : x.find? name params = none) (ho : offers templates s x name params = [d])
    (hl : ¬s.tables.Linkable d.kind)
    (ht : s'.tables = s.tables ∨ s'.tables =
      (s.tables.place { d with name, params }).2.discard s.tables.entities.next) :
    Resolves templates c x name params location s (.error f) s'
  /-- One template applies, and its instance is put into the scope. -/
  | kept {d : Declaration L} {s' : Session L T W} (h : x.find? name params = none)
    (ho : offers templates s x name params = [d])
    (hl : s.tables.Linkable d.kind) (hmemo : s.tables.config.memoizeTemplates = true)
    (hd : Defined c { d with name, params } x s.tables.entities.next s.tables s'.tables) :
    Resolves templates c x name params location s (.ok (some s.tables.entities.next)) s'
  /-- One template applies, and its instance is left without an owner. -/
  | loose {d : Declaration L} {g : Forest} {s' : Session L T W} (h : x.find? name params = none)
    (ho : offers templates s x name params = [d])
    (hl : s.tables.Linkable d.kind) (hmemo : s.tables.config.memoizeTemplates = false)
    (hg : s.tables.forest.Grown g)
    (ht : s'.tables = { (s.tables.place { d with name, params }).2 with forest := g }) :
    Resolves templates c x name params location s (.ok (some s.tables.entities.next)) s'

/-- A single offer is refused, or declared and put into the scope if it is to be kept. -/
theorem resolves_instantiate (hx : s.tables.scopes.get? c = some x)
    (h : x.find? name params = none) (hm : s.tables.Matched) (hf : s.tables.forest.Supported)
    {ts : List T}
    (hts : offers services.toTemplates s x name params =
      ts.filterMap (services.generate · s.tables s.world params)) :
    ∃ answer s', (instantiate services c ts name params location).run s =
        (answer.mapError Stop.failure, s') ∧
      Resolves services.toTemplates c x name params location s answer s' := by
  unfold instantiate
  rw [run_bind_of_ok (run_consult services params ts s), ← hts]
  generalize (ts.map _).reverse ++ s.journal = journal
  rcases ho : offers services.toTemplates s x name params with _ | ⟨d, _ | ⟨d', ds⟩⟩
  · exact ⟨.ok none, _, rfl, .missed h ho rfl rfl⟩
  · have ht := hm.coherent.formed
    dsimp only
    by_cases hl : s.tables.Linkable d.kind
    · obtain ⟨s₁, g, hdeclare, hg, hs₁⟩ :=
        run_declare (s := { s with journal }) (d := { d with name, params }) ht hf hl
      have hconfig : s₁.tables.config = s.tables.config :=
        (congrArg Tables.config hs₁).trans (Tables.config_place _ _)
      rw [run_bind_of_ok hdeclare, run_bind_of_ok (run_getTables s₁), hconfig]
      cases hmemo : s.tables.config.memoizeTemplates with
      | true =>
        obtain ⟨s', hdefine, hdefined⟩ := run_define (s := { s with journal })
          (d := { d with name, params }) ht hf hl hx h
        obtain ⟨e, s₂, hdeclare', hrest⟩ := exists_of_run_bind_eq_ok hdefine
        obtain ⟨-, rfl⟩ := Prod.mk.inj (hdeclare.symm.trans hdeclare')
        obtain ⟨u, s₃, hadd, hpure⟩ := exists_of_run_bind_eq_ok hrest
        obtain ⟨he, rfl⟩ := Prod.mk.inj hpure
        obtain rfl := Except.ok.inj he
        rw [if_pos rfl]
        exact ⟨.ok (some s.tables.entities.next), _, run_bind_of_ok hadd _,
          .kept h ho hl hmemo hdefined⟩
      | false =>
        exact ⟨.ok (some s.tables.entities.next), _, rfl, .loose h ho hl hmemo hg hs₁⟩
    · obtain ⟨f, s', hrun, hs'⟩ :=
        run_declare_refused (s := { s with journal }) (d := { d with name, params }) hm hf hl
      exact ⟨.error f, s', by rw [run_bind, hrun]; rfl, .refused h ho hl hs'⟩
  · refine ⟨.error _, _, rfl, ?_⟩
    have hlen : (d :: d' :: ds).length = (offers services.toTemplates s x name params).length := by
      rw [ho]
    rw [hlen]
    exact .ambiguous h (by rw [ho]; simp) rfl

/-- In tables that match, every signature is resolved in one of these ways. -/
theorem resolves_resolveOverload (services : Services L T W)
    (hx : s.tables.scopes.get? c = some x) (hm : s.tables.Matched)
    (hf : s.tables.forest.Supported) (name : String)
    (params : List Param) (location : Location) :
    ∃ answer s', (resolveOverload services c name params location).run s =
        (answer.mapError Stop.failure, s') ∧
      Resolves services.toTemplates c x name params location s answer s' := by
  cases hfound : x.find? name params with
  | some e => exact ⟨.ok (some e), s, run_resolveOverload hx hfound location, .found hfound⟩
  | none =>
    rw [run_resolveOverload_of_none hx hfound]
    exact resolves_instantiate hx hfound hm hf rfl

/-! ## What resolving leaves -/

/-- Templates get to say what a name and a signature stand for in a scope : it has no entity of
them, and a template applies. -/
def Claimed (templates : Templates L T W) (s : Session L T W) (x : Scope L T) (name : String)
    (params : List Param) : Prop :=
  x.find? name params = none ∧ offers templates s x name params ≠ []

/-- Whether a signature is claimed depends on the tables and the world only. -/
theorem Claimed.congr (h : Claimed templates s' x name params) (ht : s'.tables = s.tables)
    (hw : s'.world = s.world) : Claimed templates s x name params := by
  unfold Claimed offers at h ⊢
  rwa [ht, hw] at h

/-- What no template claims is in the scope, or nowhere. -/
theorem Resolves.of_not_claimed (h : Resolves templates c x name params location s answer s')
    (hno : ¬Claimed templates s x name params) :
    (∃ e, x.find? name params = some e ∧ answer = .ok (some e) ∧ s' = s) ∨
      x.find? name params = none ∧ answer = .ok none ∧ s'.tables = s.tables ∧
        s'.world = s.world := by
  have hsome {d : Declaration L} (h : x.find? name params = none)
      (ho : offers templates s x name params = [d]) : False :=
    hno ⟨h, by rw [ho]; nofun⟩
  cases h with
  | @found e h => exact Or.inl ⟨e, h, rfl, rfl⟩
  | missed h ho ht hw => exact Or.inr ⟨h, rfl, ht, hw⟩
  | ambiguous h ho ht => exact (hno ⟨h, List.length_pos_iff.1 (by omega)⟩).elim
  | refused h ho hl ht => exact (hsome h ho).elim
  | kept h ho hl hmemo hd => exact (hsome h ho).elim
  | loose h ho hl hmemo hg ht => exact (hsome h ho).elim

/-- What is missed has not been claimed. -/
theorem Resolves.not_claimed (h : Resolves templates c x name params location s (.ok none) s') :
    ¬Claimed templates s x name params := by
  cases h with
  | missed h ho ht hw => exact fun hclaimed => hclaimed.2 ho

/-- The tables have grown, and the scope has got nothing, or the instance that answers for the name
and the signature. -/
structure Gains (templates : Templates L T W) (c : ScopeId) (x : Scope L T) (name : String)
    (params : List Param) (s : Session L T W) (answer : Except Failure (Option EntityId))
    (t : Tables L T) (x' : Scope L T) : Prop where
  here : t.scopes.get? c = some x'
  formed : t.Formed
  grown : s.tables.Grown t
  fuller : Fuller x x'
  gained : ∀ name' params' e, x'.find? name' params' = some e → x.find? name' params' = some e ∨
    (name', params') = (name, params) ∧ Claimed templates s x name params ∧
      s.tables.config.memoizeTemplates = true ∧ answer = .ok (some e)

/-- What resolving an overload adds to a scope is the instance it answers with, if there is one. -/
theorem Resolves.gains (h : Resolves templates c x name params location s answer s')
    (hx : s.tables.scopes.get? c = some x) (hm : s.tables.Matched)
    (hf : s.tables.forest.Supported) :
    ∃ x', Gains templates c x name params s answer s'.tables x' := by
  have ht := hm.coherent.formed
  have hscope {t : Tables L T} (hf' : t.Formed) (hg : s.tables.Grown t)
      (hx' : t.scopes.get? c = some x) :
      ∃ x', Gains templates c x name params s answer t x' :=
    ⟨x, hx', hf', hg, .refl x, fun _ _ _ => Or.inl⟩
  have hsame := hscope ht ⟨fun _ _ => id, hf.grown_self⟩ hx
  cases h with
  | found h => exact hsame
  | missed h ho hs hw => exact hs ▸ hsame
  | ambiguous h ho hs => exact hs ▸ hsame
  | refused h ho hl hs =>
    rcases hs with hs | hs
    · exact hs ▸ hsame
    · rw [hs]
      exact hscope ((ht.place _).discard (ht.declared_place _).loose)
        (Tables.grown_discard_place ht hf _) (hm.coherent.get?_scopes_discard_place hx _)
  | kept h ho hl hmemo hd =>
    obtain ⟨x', hx', -, hfuller, -, hcases⟩ := hd.fuller h
    refine ⟨x', hx', hd.formed, hd.grown, hfuller, fun name' params' e he => ?_⟩
    rcases hcases name' params' e he with he | ⟨rfl, rfl, rfl⟩
    · exact Or.inl he
    · exact Or.inr ⟨rfl, ⟨h, by rw [ho]; nofun⟩, hmemo, rfl⟩
  | @loose d g _ h ho hl hmemo hg hs =>
    rw [hs]
    exact hscope ((ht.place _).edit (.forest _ g)) (Tables.grown_place ht _ hg)
      (ht.get?_scopes_place_of_some _ hx)

end Session

end NameResolution
