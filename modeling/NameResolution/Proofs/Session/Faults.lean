import NameResolution.Proofs.Session.Correspondence
import NameResolution.Proofs.Session.Orphans
import NameResolution.Proofs.Trails

/-!
# What a lookup can come to grief over

A scope is housed if the way out of it and the way out of the root meet (`Tables.Housed`).
Attached scopes are housed, whatever is found in a housed scope has a housed scope, and no
edit changes that, since an entity that was put into a scope stays there. A housed scope that is
gone stands on the way out of the root (`Tables.Housed.transGen_of_gone`).

So there are two things that a lookup from an attached scope can come to grief over: a call
of a loader that does, and a scope around the root that was released (`Blames`). A run is
safe from a scope if it is so whenever the scope is housed (`Safe`); what finding does is put
together from safe steps. `lookups_safe` is the result about operations.
-/

namespace NameResolution

open Relation (ReflTransGen TransGen)

namespace Tables

variable {L T : Type} {t t' : Tables L T} {c c' c'' : ScopeId} {e : EntityId} {x : Entity}

/-! ## The way out of a scope -/

/-- A scope lies directly in one scope at most. -/
theorem Inside.unique (h : t.Inside c c') (h' : t.Inside c c'') : c' = c'' := by
  obtain ⟨s, x, hs, hx, hc⟩ := h
  obtain ⟨s', x', hs', hx', hc'⟩ := h'
  obtain rfl := Option.some.inj (hs.symm.trans hs')
  obtain rfl := Option.some.inj (hx.symm.trans hx')
  exact Option.some.inj (hc.symm.trans hc')

/-- What has been put into a scope stays there, and so does the scope inside of it. -/
theorem Inside.edit (h : t.Inside c c') (ht : t.Coherent) (he : Edit t t') : t'.Inside c c' := by
  obtain ⟨s, x, hs, hx, hc⟩ := h
  have hx' := ht.formed.get?_entities_edit he hx hc
  have hl : ¬t.Loose s.entity := by
    rintro ⟨-, y, hy, hown⟩
    obtain rfl := Option.some.inj (hx.symm.trans hy)
    rw [hc] at hown
    cases hown
  obtain ⟨s', hs', hse⟩ := ht.paired.get?_scopes_edit ht.formed he hs hl
  exact ⟨s', x, hs', hse ▸ hx', hc⟩

/-- The way out of the scope and the way out of the root meet. -/
def Housed (t : Tables L T) (c : ScopeId) : Prop :=
  ∃ u, ReflTransGen t.Inside c u ∧ ReflTransGen t.Inside rootScope u

/-- The root scope lies in nothing that could be gone. -/
theorem housed_rootScope (t : Tables L T) : t.Housed rootScope :=
  ⟨rootScope, .refl, .refl⟩

/-- A housed scope stays so, as nothing that has an owner is ever released. -/
theorem Housed.edit (h : t.Housed c) (ht : t.Coherent) (he : Edit t t') : t'.Housed c := by
  obtain ⟨u, hc, hroot⟩ := h
  have hmono {a : ScopeId} (h : ReflTransGen t.Inside a u) : ReflTransGen t'.Inside a u :=
    ReflTransGen.mono (fun _ _ h => h.edit ht he) _ _ h
  exact ⟨u, hmono hc, hmono hroot⟩

/-- The scope around a housed one is housed. -/
theorem Housed.outer (h : t.Housed c) (hc : t.Inside c c') : t.Housed c' := by
  obtain ⟨u, hu, hroot⟩ := h
  rcases ReflTransGen.cases_head hu with rfl | ⟨c'', hc'', hu⟩
  · exact ⟨c', .refl, hroot.tail hc⟩
  · obtain rfl := hc.unique hc''
    exact ⟨u, hu, hroot⟩

/-- A scope in a housed one is housed. -/
theorem Housed.inner (h : t.Housed c') (hc : t.Inside c c') : t.Housed c := by
  obtain ⟨u, hu, hroot⟩ := h
  exact ⟨u, hu.head hc, hroot⟩

/-- A housed scope that is gone stands on the way out of the root. -/
theorem Housed.transGen_of_gone (h : t.Housed c) (ht : t.Coherent)
    (hc : t.scopes.get? c = none) : TransGen t.Inside rootScope c := by
  obtain ⟨u, hu, hroot⟩ := h
  rcases ReflTransGen.cases_head hu with rfl | ⟨c', ⟨s, -, hs, -⟩, -⟩
  · rcases Relation.reflTransGen_iff_eq_or_transGen.1 hroot with rfl | hroot
    · obtain ⟨s, hs, -⟩ := ht.get?_rootScope
      rw [hc] at hs
      cases hs
    · exact hroot
  · rw [hc] at hs
    cases hs

/-- An entity that is there is kept out of a scope by a fault only if the scope is gone. -/
theorem Coherent.attach_eq_fault (ht : t.Coherent) (hx : t.entities.get? e = some x) {f : Fault}
    (h : t.attach c e = .error (.fault f)) : f = .scope c ∧ t.scopes.get? c = none := by
  unfold attach at h
  simp only [entity, hx, bind, Except.bind] at h
  cases hown : x.owner with
  | some owner => simp [hown, throw, throwThe, MonadExceptOf.throw] at h
  | none =>
    simp only [hown, scope] at h
    cases hs : t.scopes.get? c with
    | none =>
      simp only [hs] at h
      cases h
      exact ⟨rfl, rfl⟩
    | some s =>
      simp only [hs, pure, Except.pure] at h
      cases hf : s.find? x.name x.params with
      | none =>
        rw [hf] at h
        cases h
      | some existing =>
        obtain ⟨y, hy, -⟩ := ht.held c s hs x.name _ (Scope.mem_of_find? hf)
        simp [hf, hy, throw, throwThe, MonadExceptOf.throw] at h

end Tables

namespace Session

variable {L T W α β : Type} {s s' s₁ : Session L T W} {services : Services L T W} {c : ScopeId}
  {e : EntityId}

/-! ## Blame -/

/-- A loader that was called, some moves after the session `s`, ended its call with the fault and
the session `s'`. -/
def LoaderFault (services : Services L T W) (s : Session L T W) (f : Fault)
    (s' : Session L T W) : Prop :=
  ∃ loader c request s₁, Moves (fun _ => True) s s₁ ∧
    s₁.journal.head? = some (.loadBegan c request) ∧
    (services.load loader c request).run s₁ = (.error (.fault f), s')

/-- The fault is the use of a scope around the root that is gone. -/
def Uprooted (f : Fault) (s : Session L T W) : Prop :=
  ∃ c, f = .scope c ∧ TransGen s.tables.Inside rootScope c ∧ s.tables.scopes.get? c = none

/-- Why a run that began with the session `s` ended with the fault `f` and the session `s'`. -/
def Blames (services : Services L T W) (s : Session L T W) (f : Fault) (s' : Session L T W) :
    Prop :=
  LoaderFault services s f s' ∨ Uprooted f s'

/-- Sessions as lookups need them : the tables match, and what templates make is kept. -/
structure Memoizing (s : Session L T W) : Prop where
  matched : s.tables.Matched
  memoizes : s.tables.config.memoizeTemplates = true

/-- Every fault of the run has one of the two reasons. -/
def Guarded (services : Services L T W) (act : Run L T W α) (s : Session L T W) : Prop :=
  ∀ f s', act.run s = (.error (.fault f), s') → Blames services s f s'

/-- The run is guarded wherever the scope is housed. -/
def Safe (services : Services L T W) (c : ScopeId) (act : Run L T W α) : Prop :=
  ∀ s, Memoizing s → s.tables.Housed c → Guarded services act s

/-- What may be blamed after some moves may be blamed before them. -/
theorem Blames.of_moves {f : Fault} (hm : Moves (fun _ => True) s s₁)
    (h : Blames services s₁ f s') : Blames services s f s' :=
  h.imp_left fun ⟨loader, c, request, s₂, hm', h⟩ =>
    ⟨loader, c, request, s₂, hm.trans hm', h⟩

theorem Memoizing.moves (hs : Memoizing s) (h : Moves (fun _ => True) s s') : Memoizing s' := by
  refine ⟨h.matched hs.matched, ?_⟩
  exact h.induction_edit (P := fun t => t.config.memoizeTemplates = true)
    (fun _ ht he => he.config_eq ▸ ht) hs.matched hs.memoizes

theorem housed_moves (h : Moves (fun _ => True) s s') (hs : Memoizing s)
    (hc : s.tables.Housed c) : s'.tables.Housed c :=
  h.induction_edit (P := fun t => t.Housed c) (fun ht hc he => hc.edit ht he) hs.matched hc

/-! ## Putting runs together -/

theorem Guarded.of_ne {act : Run L T W α}
    (h : ∀ f s', act.run s ≠ (.error (.fault f), s')) : Guarded services act s :=
  fun f s' hr => absurd hr (h f s')

/-- A guarded run, then one that is guarded wherever the first ends. -/
theorem Guarded.bind {act : Run L T W α} {k : α → Run L T W β} (h : Guarded services act s)
    (hr : Roams (fun _ => True) act) (hs : Memoizing s)
    (hk : ∀ a s₁, act.run s = (.ok a, s₁) → Moves (fun _ => True) s s₁ → Memoizing s₁ →
      Guarded services (k a) s₁) : Guarded services (act >>= k) s := by
  intro f s' hrun
  rcases exists_of_run_bind_eq_error hrun with hrun | ⟨a, s₁, ha, hrun⟩
  · exact h f s' hrun
  · have hm := hr s hs.matched
    rw [ha] at hm
    exact (hk a s₁ ha hm (hs.moves hm) f s' hrun).of_moves hm

theorem Safe.bind {act : Run L T W α} {k : α → Run L T W β} (h : Safe services c act)
    (hr : Roams (fun _ => True) act) (hk : ∀ a, Safe services c (k a)) :
    Safe services c (act >>= k) :=
  fun s hs hc => (h s hs hc).bind hr hs fun a s₁ _ hm hs₁ => hk a s₁ hs₁ (housed_moves hm hs hc)

theorem Safe.attempt {act : Run L T W α} (h : Safe services c act) :
    Safe services c (Session.attempt act) :=
  fun s hs hc f s' hr => h s hs hc f s' (run_attempt_eq_error hr)

/-- What is safe from the root is safe. -/
theorem Safe.of_rootScope {act : Run L T W α} (h : Safe services rootScope act) :
    Safe services c act :=
  fun s hs _ => h s hs s.tables.housed_rootScope

theorem safe_pure (a : α) : Safe services c (pure a : Run L T W α) :=
  fun _ _ _ => .of_ne fun _ _ h => by cases h

theorem safe_fail (f : Failure) : Safe services c (fail f : Run L T W α) :=
  fun _ _ _ => .of_ne fun _ _ h => by cases h

theorem safe_outOfFuel : Safe services c (throw .outOfFuel : Run L T W α) :=
  fun _ _ _ => .of_ne fun _ _ h => by cases h

theorem safe_get : Safe services c (get : Run L T W (Session L T W)) :=
  fun _ _ _ => .of_ne fun _ _ h => by cases h

theorem safe_getTables : Safe services c (getTables : Run L T W (Tables L T)) :=
  fun _ _ _ => .of_ne fun _ _ h => by cases h

theorem safe_record (event : Event T) : Safe services c (record event : Run L T W Unit) :=
  fun _ _ _ => .of_ne fun _ _ h => by cases h

theorem safe_note (n : Note) : Safe services c (note n : Run L T W Unit) :=
  safe_record _

/-- A housed scope that is gone is a scope around the root. -/
theorem blames_of_gone (hs : Memoizing s) (hc : s.tables.Housed c)
    (hgone : s.tables.scopes.get? c = none) : Blames services s (.scope c) s :=
  Or.inr ⟨c, rfl, hc.transGen_of_gone hs.matched.coherent hgone, hgone⟩

theorem safe_ask_scope (services : Services L T W) (c : ScopeId) :
    Safe services c (ask (·.scope c)) := by
  intro s hs hc f s' hr
  rw [run_ask, Tables.scope] at hr
  cases hx : s.tables.scopes.get? c with
  | some x =>
    rw [hx] at hr
    cases hr
  | none =>
    rw [hx] at hr
    cases hr
    exact blames_of_gone hs hc hx

theorem safe_modifyScope (services : Services L T W) (c : ScopeId)
    (f : Scope L T → Scope L T) : Safe services c (modifyScope c f) := by
  intro s hs hc g s' hr
  cases hx : s.tables.scopes.get? c with
  | some x =>
    rw [run_modifyScope hx] at hr
    cases hr
  | none =>
    rw [run_modifyScope_none hx] at hr
    cases hr
    exact blames_of_gone hs hc hx

/-! ## Declaring -/

/-- What follows a declaration may rely on the entity that was declared. -/
theorem safe_declare_bind {k : EntityId → Run L T W β} (d : Declaration L)
    (hk : ∀ e s, Memoizing s → s.tables.Housed c → s.tables.Declared d.name d.params e →
      Guarded services (k e) s) : Safe services c (declare d >>= k) := by
  intro s hs hc f s' hr
  have h := declares (fun _ => True) d hs.matched
  rw [run_bind] at hr
  generalize (declare d).run s = r at h hr
  cases h with
  | made hm _ hd _ =>
    exact (hk _ _ (hs.moves hm) (housed_moves hm hs hc) hd f s' hr).of_moves hm
  | refused hm _ => cases hr

/-- An entity that is there is put into a scope, or taken back, and the scope may be gone. -/
theorem guarded_undoing_add {name : String} {params : List Param} (hs : Memoizing s)
    (hc : s.tables.Housed c) (he : s.tables.Declared name params e) :
    Guarded services (undoing (discard e) (add c e)) s := by
  intro f s' hr
  obtain ⟨-, x, hx, -⟩ := he
  rw [run_undoing] at hr
  rcases add_cases c e s with ⟨t, y, -, -, hrun⟩ | ⟨stop, hattach, hrun⟩
  · rw [hrun] at hr
    cases hr
  · rw [hrun] at hr
    cases stop with
    | failure g => cases hr
    | outOfFuel => cases hr
    | fault g =>
      cases hr
      obtain ⟨rfl, hgone⟩ := hs.matched.coherent.attach_eq_fault hx hattach
      exact blames_of_gone hs hc hgone

/-- A definition faults only over what is gone. -/
theorem safe_define (services : Services L T W) (c : ScopeId) (d : Declaration L) :
    Safe services c (define c d) := by
  refine safe_declare_bind d fun e s hs hc he f s' hr => ?_
  rcases exists_of_run_bind_eq_error hr with hr | ⟨_, _, _, hr⟩
  · exact guarded_undoing_add hs hc he f s' hr
  · cases hr

theorem safe_defineAll (services : Services L T W) (c : ScopeId) (ds : List (Declaration L)) :
    Safe services c (defineAll c ds) := by
  induction ds with
  | nil => exact safe_pure _
  | cons d ds ih =>
    refine (safe_define services c d).attempt.bind (roams_define c d).attempt fun r => ?_
    cases r with
    | ok e => exact ih
    | error f => exact (safe_note _).bind (roams_note _) fun _ => safe_fail f

/-! ## Loading -/

variable (hroam : Roaming (fun _ => True) services)

theorem safe_takeLoader (services : Services L T W) (c : ScopeId) :
    Safe services c (takeLoader c) :=
  (safe_ask_scope services c).bind (roams_ask _) fun _ =>
    (safe_modifyScope services c _).bind (roams_modifyScope fun s => .loading s c id fun _ => none)
      fun _ => safe_pure _

include hroam

/-- A call of a loader is as safe as the loader. -/
theorem safe_callLoader (c : ScopeId) (loader : L) (request : Option NamePart) :
    Safe services c (callLoader services c loader request) := by
  intro s hs hc
  refine Guarded.bind (.of_ne fun _ _ h => by cases h) (roams_record id) hs ?_
  rintro u s₁ hrun hm hs₁
  have hc₁ := housed_moves hm hs hc
  refine Guarded.bind ?_ (hroam loader c request) hs₁ fun answer s₂ _ hm₂ hs₂ => ?_
  · intro f s' hr
    cases hrun
    exact Or.inl ⟨loader, c, request, _, .refl, rfl, hr⟩
  · refine ((safe_record _).bind (roams_record id) fun _ => ?_) s₂ hs₂ (housed_moves hm₂ hs₁ hc₁)
    exact (safe_modifyScope services c _).bind
      (roams_modifyScope fun s => .loading s c id fun _ => some answer.2) fun _ => safe_pure _

theorem safe_forceLoad (c : ScopeId) : Safe services c (forceLoad services c) := by
  refine (safe_ask_scope services c).bind (roams_ask _) fun x => ?_
  extract_lets path
  have hpath : Safe services c path := safe_getTables.bind roams_getTables fun _ => safe_pure _
  have hroams : Roams (fun _ => True) path := roams_getTables.bind fun _ => roams_pure _
  have hstate (state : LoadState) : Safe services c (setState c state) := safe_modifyScope _ _ _
  split
  · exact safe_pure _
  · exact hpath.bind hroams fun _ => safe_note _
  · refine (safe_takeLoader services c).bind (roams_takeLoader c) fun loader => ?_
    cases loader with
    | none => exact hstate _
    | some loader =>
      refine hpath.bind hroams fun _ => (safe_note _).bind (roams_note _) fun _ =>
        (hstate _).bind (roams_setState c _) fun _ => ?_
      refine (safe_callLoader hroam c loader none).bind (roams_callLoader hroam c loader none)
        fun reply => ?_
      cases reply with
      | done =>
        exact (hstate _).bind (roams_setState c _) fun _ => hpath.bind hroams fun _ => safe_note _
      | notReady =>
        exact (hstate _).bind (roams_setState c _) fun _ => hpath.bind hroams fun _ => safe_note _
      | batch ds =>
        exact (hstate _).bind (roams_setState c _) fun _ => safe_defineAll services c ds

theorem safe_loadPart (c : ScopeId) (part : NamePart) :
    Safe services c (loadPart services c part) := by
  refine safe_getTables.bind roams_getTables fun t => ?_
  split_ifs
  · refine (safe_takeLoader services c).bind (roams_takeLoader c) fun loader => ?_
    cases loader with
    | none => exact safe_pure _
    | some loader =>
      refine (safe_note _).bind (roams_note _) fun _ => ?_
      refine (safe_callLoader hroam c loader _).bind (roams_callLoader hroam c loader _)
        fun reply => ?_
      cases reply with
      | done => exact safe_pure _
      | notReady => exact safe_pure _
      | batch ds => exact safe_defineAll services c ds
  · exact safe_pure _

omit hroam

/-! ## Parts with a signature -/

theorem safe_consult (c : ScopeId) (params : List Param) (ts : List T) :
    Safe services c (consult services params ts) := by
  induction ts with
  | nil => exact safe_pure _
  | cons t ts ih =>
    exact safe_get.bind roams_get fun _ => (safe_record _).bind (roams_record id) fun _ =>
      ih.bind (roams_consult services params ts) fun _ => safe_pure _

/-- Making an instance is safe, as the instance has just been declared. -/
theorem safe_instantiate (services : Services L T W) (c : ScopeId) (ts : List T) (name : String)
    (params : List Param) (location : Location) :
    Safe services c (instantiate services c ts name params location) := by
  refine (safe_consult c params ts).bind (roams_consult services params ts) fun ds => ?_
  split
  · exact safe_pure _
  · refine safe_declare_bind _ fun e s hs hc he => ?_
    intro f s' hr
    rw [run_bind_of_ok (run_getTables s)] at hr
    revert hr
    extract_lets jp
    intro hr
    rw [if_pos hs.memoizes] at hr
    rcases exists_of_run_bind_eq_error hr with hr | ⟨a, s₁, ha, hr⟩
    · exact guarded_undoing_add hs hc he f s' hr
    · cases hr
  · exact safe_fail _

theorem safe_resolveOverload (services : Services L T W) (c : ScopeId) (name : String)
    (params : List Param) (location : Location) :
    Safe services c (resolveOverload services c name params location) := by
  refine (safe_ask_scope services c).bind (roams_ask _) fun x => ?_
  split
  · exact safe_pure _
  · split
    · exact safe_pure _
    · exact safe_instantiate services c _ name params location

include hroam

theorem safe_findSimple (c : ScopeId) (name : String) (params : List Param) :
    Safe services c (findSimple services c name params) := by
  unfold findSimple
  extract_lets resolve
  have hresolve : Safe services c resolve := safe_resolveOverload services c name params _
  have hroams : Roams (fun _ => True) resolve := roams_resolveOverload services c name params _
  refine hresolve.bind hroams fun found => ?_
  split
  · exact safe_pure _
  · refine (safe_ask_scope services c).bind (roams_ask _) fun x => ?_
    split_ifs
    · exact safe_pure _
    · refine (safe_loadPart hroam c _).bind ((loads_roams hroam).loadPart c _) fun _ =>
        hresolve.bind hroams fun found => ?_
      split
      · exact safe_pure _
      · exact (safe_forceLoad hroam c).bind ((loads_roams hroam).forceLoad c) fun _ => hresolve

/-! ## Names -/

omit hroam in
/-- A climb goes from a housed scope to the one around it, which is housed too. -/
theorem safe_climb {look : ScopeId → Run L T W (Option EntityId)}
    (hlook : ∀ c, Safe services c (look c)) (hr : ∀ c, Roams (fun _ => True) (look c))
    (steps : Nat) (c : ScopeId) : Safe services c (climb look steps c) := by
  induction steps generalizing c with
  | zero => exact safe_outOfFuel
  | succ steps ih =>
    refine (hlook c).bind (hr c) fun found => ?_
    split
    · exact safe_pure _
    · intro s hs hc
      refine (safe_ask_scope services c s hs hc).bind (roams_ask _) hs fun x s₁ hask hm hs₁ => ?_
      have hc₁ := housed_moves hm hs hc
      rw [run_ask] at hask
      obtain ⟨hx, rfl⟩ := Prod.mk.inj hask
      have hx := scope_eq_ok hx
      intro f s' hrun
      rw [run_bind_of_ok (run_getTables s)] at hrun
      cases hown : (s.tables.entities.get? x.entity).bind Entity.owner with
      | none =>
        rw [hown] at hrun
        cases hrun
      | some owner =>
        rw [hown] at hrun
        obtain ⟨y, hy, hyo⟩ := Option.bind_eq_some_iff.1 hown
        exact ih owner s hs (hc.outer ⟨x, y, hx, hy, hyo⟩) f s' hrun

/-- Finding a part is safe once its signature is read safely. -/
theorem safe_findWith {c : ScopeId} {signature : Run L T W (Option (String × List Param))}
    (h : Safe services c signature) (hr : Roams (fun _ => True) signature) :
    Safe services c (findWith services c signature) := by
  refine h.bind hr fun found => ?_
  split
  · exact safe_findSimple hroam c _ _
  · exact safe_pure _

omit hroam in
/-- What is found in a scope belongs to it. -/
theorem has_of_findWith (hobeys : Obeys services) (hs : Memoizing s)
    {signature : Run L T W (Option (String × List Param))}
    (hr : Roams (fun _ => True) signature)
    (hrun : (findWith services c signature).run s = (.ok (some e), s')) :
    ∃ name params, s'.tables.Has c name params e := by
  obtain ⟨found, s₁, hsig, hrun⟩ := exists_of_run_bind_eq_ok hrun
  have hm := hr s hs.matched
  rw [hsig] at hm
  have hs₁ := hs.moves hm
  cases found with
  | none => cases hrun
  | some found =>
    obtain ⟨name, params⟩ := found
    have hkeep : Keeping s₁.tables := ⟨hs₁.matched.coherent, hs₁.memoizes⟩
    obtain ⟨-, hfound⟩ := (follows_findSimple hobeys hkeep).of_run_eq_ok hkeep.1.formed hrun
    exact ⟨name, params, (hfound e rfl).has⟩

mutual

theorem safe_signature (hobeys : Obeys services) :
    ∀ (p : NamePart) (c : ScopeId), Safe services c (signature services p c)
  | .simple text params, c => safe_pure _
  | .pattern text arguments, c => by
    unfold signature
    refine (safe_argumentParams hobeys arguments c).bind
      ((closed_roams hroam).argumentParams arguments c) fun found => ?_
    split
    · exact safe_pure _
    · exact safe_pure _

theorem safe_argumentParams (hobeys : Obeys services) :
    ∀ (ns : List (List NamePart)) (c : ScopeId),
      Safe services c (argumentParams services ns c)
  | [], c => safe_pure _
  | n :: ns, c => by
    unfold argumentParams
    have hr := (closed_roams hroam).findName n
    refine (safe_climb (safe_findName hobeys n) hr services.reach c).bind
      (composes_roams.climb hr services.reach c) fun found => ?_
    split
    · exact safe_pure _
    · refine (safe_argumentParams hobeys ns c).bind ((closed_roams hroam).argumentParams ns c)
        fun found => ?_
      split
      · exact safe_pure _
      · exact safe_pure _

theorem safe_findName (hobeys : Obeys services) :
    ∀ (n : List NamePart) (c : ScopeId), Safe services c (findName services n c)
  | [], c => by
    unfold findName
    exact (safe_ask_scope services c).bind (roams_ask _) fun _ => safe_pure _
  | p :: ps, c => by
    unfold findName
    refine (safe_ask_scope services c).bind (roams_ask _) fun _ s hs hc => ?_
    have hsig := (closed_roams hroam).signature p c
    refine (safe_findWith hroam (safe_signature hobeys p c) hsig s hs hc).bind
      ((closed_roams hroam).findWith hsig) hs fun found s₁ hrun hm hs₁ => ?_
    cases found with
    | none => exact .of_ne fun _ _ h => by cases h
    | some e =>
      obtain ⟨name, params, hhas⟩ := has_of_findWith hobeys hs hsig hrun
      exact guarded_findBelow hobeys ps e c name params s₁ hs₁ (housed_moves hm hs hc) hhas

/-- What a name leads to from an entity in a housed scope is in housed scopes. -/
theorem guarded_findBelow (hobeys : Obeys services) :
    ∀ (ps : List NamePart) (e : EntityId) (c : ScopeId) (name : String) (params : List Param)
      (s : Session L T W), Memoizing s → s.tables.Housed c → s.tables.Has c name params e →
      Guarded services (findBelow services ps e) s
  | [], e, c, name, params, s, hs, hc, he => .of_ne fun _ _ h => by
    unfold findBelow at h
    cases h
  | p :: ps, e, c, name, params, s, hs, hc, he => by
    unfold findBelow
    obtain ⟨x, hx, -, -, hown⟩ := he
    have hask : (ask (·.entity e) : Run L T W Entity).run s = (.ok x, s) := by
      rw [run_ask, Tables.entity, hx]
    intro f s' hrun
    rw [run_bind_of_ok hask] at hrun
    revert hrun f s'
    show Guarded services _ s
    cases hk : x.kind.scope? with
    | none => exact .of_ne fun _ _ h => by cases h
    | some c' =>
      obtain ⟨y, hy, rfl⟩ := hs.matched.coherent.paired.inside e x c' hx hk
      have hc' : s.tables.Housed c' := hc.inner ⟨y, x, hy, hx, hown⟩
      have hsig := (closed_roams hroam).signature p c'
      refine (safe_findWith hroam (safe_signature hobeys p c') hsig s hs hc').bind
        ((closed_roams hroam).findWith hsig) hs fun found s₁ hrun hm hs₁ => ?_
      cases found with
      | none => exact .of_ne fun _ _ h => by cases h
      | some e' =>
        obtain ⟨name', params', hhas⟩ := has_of_findWith hobeys hs hsig hrun
        exact guarded_findBelow hobeys ps e' c' name' params' s₁ hs₁ (housed_moves hm hs hc') hhas

end

/-! ## Operations -/

/-- So a lookup is safe, as it climbs from one scope to the next one around it. -/
theorem safe_lookup (hobeys : Obeys services) (c : ScopeId) (n : QualifiedName) :
    Safe services c (lookup services c n) :=
  safe_climb (safe_findName hroam hobeys n) ((closed_roams hroam).findName n) services.reach c

theorem safe_findNamed (hobeys : Obeys services) (c : ScopeId) (n : QualifiedName) :
    Safe services c (findNamed services c n) := by
  refine (safe_findName hroam hobeys n c).bind ((closed_roams hroam).findName n c) fun found => ?_
  split
  · exact safe_pure _
  · exact safe_fail _

/-- The types of parameters are looked up from the root, which is housed. -/
theorem safe_readFrom (hobeys : Obeys services) (c : ScopeId) (text : String) (cs : List Char)
    (offset : Nat) (state : Mangled.State) :
    Safe services c (readFrom services text cs offset state) := by
  induction cs generalizing offset state with
  | nil =>
    unfold readFrom
    split
    · exact safe_pure _
    · exact safe_fail _
  | cons _ cs ih =>
    unfold readFrom
    split
    · exact ih _ _
    · exact (safe_findNamed hroam hobeys rootScope _).of_rootScope.bind
        ((closed_roams hroam).findNamed rootScope _) fun e => ih _ _
    · exact safe_fail _

theorem safe_readMangled (hobeys : Obeys services) (c : ScopeId) (text : String) :
    Safe services c (readMangled services text) := by
  unfold readMangled
  split_ifs
  · exact safe_pure _
  · exact safe_readFrom hroam hobeys c text _ _ _

omit hroam

/-- The operation looks for something from the scope, or loads the scope. -/
inductive Seeks (c : ScopeId) : Operation L T → Prop
  | find (p : NamePart) : Seeks c (.find c p)
  | findName (n : QualifiedName) : Seeks c (.findName c n)
  | lookup (n : QualifiedName) : Seeks c (.lookup c n)
  | require (n : QualifiedName) (location : Location) : Seeks c (.require c n location)
  | forceLoad : Seeks c (.forceLoad c)
  | decode (text : String) : Seeks c (.decode c text)

/-- Every operation that seeks from a scope is safe there. -/
theorem safe_perform (hroam : Roaming (fun _ => True) services) (hobeys : Obeys services)
    {op : Operation L T} (h : Seeks c op) : Safe services c (op.perform services) := by
  cases h with
  | find p =>
    exact (safe_findWith hroam (safe_signature hroam hobeys p c)
      ((closed_roams hroam).signature p c)).attempt
  | findName n => exact (safe_findName hroam hobeys n c).attempt
  | lookup n => exact (safe_lookup hroam hobeys c n).attempt
  | require n location =>
    refine ((safe_lookup hroam hobeys c n).bind ((closed_roams hroam).lookup c n)
      fun found => ?_).attempt
    split
    · exact safe_pure _
    · exact safe_fail _
  | forceLoad => exact (safe_forceLoad hroam c).attempt
  | decode text =>
    exact ((safe_readMangled hroam hobeys c text).bind ((closed_roams hroam).readMangled text)
      fun n => safe_findNamed hroam hobeys c n).attempt

/-- A climb that finds nothing comes to a scope on the way that is gone, if there is one. -/
theorem run_climb_of_gone {look : ScopeId → Run L T W (Option EntityId)}
    (hlook : FindsNothing look s) {c' : ScopeId} (hc : ReflTransGen s.tables.Inside c c')
    (hgone : s.tables.scopes.get? c' = none) (steps : Nat) :
    (climb look steps c).run s = (.error .outOfFuel, s) ∨
      (climb look steps c).run s = (.error (.fault (.scope c')), s) := by
  induction steps generalizing c with
  | zero => exact Or.inl rfl
  | succ steps ih =>
    rcases ReflTransGen.cases_head hc with rfl | ⟨c₁, ⟨x, y, hx, hy, hown⟩, hc⟩
    · refine Or.inr ?_
      rw [climb, run_bind, hlook c, Tables.scope, hgone]
      rfl
    · have hlive : (look c).run s = (.ok none, s) := by
        rw [hlook c, Tables.scope, hx]
        rfl
      have hown : (s.tables.entities.get? x.entity).bind Entity.owner = some c₁ :=
        Option.bind_eq_some_iff.2 ⟨y, hy, hown⟩
      have hclimb : (climb look (steps + 1) c).run s = (climb look steps c₁).run s := by
        rw [climb]
        simp only [run_bind, hlive, run_ask, Tables.scope, hx, run_getTables, hown]
      rw [hclimb]
      exact ih hc

/-- A root that is in no scope has no scope around it. -/
theorem not_uprooted {f : Fault}
    (h : (s.tables.entities.get? rootEntity).bind Entity.owner = none) (hs : Memoizing s) :
    ¬Uprooted f s := by
  rintro ⟨c, -, hpath, -⟩
  obtain ⟨c', ⟨x, y, hx, hy, hown⟩, -⟩ := TransGen.head'_iff.1 hpath
  obtain ⟨x', hx', hroot⟩ := hs.matched.coherent.get?_rootScope
  obtain rfl := Option.some.inj (hx.symm.trans hx')
  rw [← hroot, hy, Option.bind_some, hown] at h
  cases h

/-- In every session that hosts can bring about, with templates set to keep what they make, a lookup
from an attached scope, or a load of it, comes to no fault, whatever the loaders do to the session,
unless the call of a loader that it made ended with this fault, or a scope around the root was
released, for which the root has to be in a scope. If such a scope was released before, then a
lookup that finds nothing does come to grief. -/
theorem lookups_safe {config : Config} {world : W} (hmemo : config.memoizeTemplates = true)
    (h : Reaches (fun _ => True) (start config world) s)
    (hc : ReflTransGen s.tables.Inside c rootScope) :
    (∀ (host : Host L T W) fuel op, Seeks c op → ∀ f s',
      host.perform fuel op s = (.error (.fault f), s') →
        (LoaderFault (host.services fuel) s f s' ∨ Uprooted f s') ∧
        ((s'.tables.entities.get? rootEntity).bind Entity.owner = none →
          LoaderFault (host.services fuel) s f s')) ∧
    ∀ (host : Host L T W) fuel n c', FindsNothing (findName (host.services fuel) n) s →
      TransGen s.tables.Inside rootScope c' → s.tables.scopes.get? c' = none →
        host.perform fuel (.lookup c n) s = (.error .outOfFuel, s) ∨
          host.perform fuel (.lookup c n) s = (.error (.fault (.scope c')), s) := by
  have hstart : Memoizing (start config world : Session L T W) :=
    ⟨Tables.Matched.start config, hmemo⟩
  have hs := hstart.moves (h.moves hstart.matched)
  refine ⟨fun host fuel op hop f s' hrun => ?_, fun host fuel n c' hnothing hc' hgone => ?_⟩
  · have hhost : host.Within fun _ => True := host.within_of_forall fun _ => trivial
    have hmoves : Moves (fun _ => True) s (host.perform fuel op s).2 :=
      moves_perform hhost fuel trivial hs.matched
    have hs' := hs.moves hmoves
    have hblames := safe_perform (roaming_services hhost fuel) (obeys_services host fuel) hop s hs
      ⟨rootScope, hc, .refl⟩ f s' hrun
    rw [hrun] at hs'
    exact ⟨hblames, fun hroot => hblames.resolve_right (not_uprooted hroot hs')⟩
  · have hperform : host.perform fuel (.lookup c n) s =
        (attempt (climb (findName (host.services fuel) n) (host.services fuel).reach c)).run s :=
      rfl
    rw [hperform, run_attempt]
    rcases run_climb_of_gone hnothing (hc.trans hc'.to_reflTransGen) hgone
      (host.services fuel).reach with hrun | hrun
    · rw [hrun]
      exact Or.inl rfl
    · rw [hrun]
      exact Or.inr rfl

/-! ## A root without a way out -/

/-- A package is declared, the root is put into it, and it is released. -/
def uprooting : List (Operation Unit Unit) :=
  [.declare { name := "p", params := [], kind := .package none, location := .unknown },
    .add ⟨1, 0⟩ rootEntity, .release ⟨1, 0⟩]

def uprooted : Session Unit Unit Unit :=
  fillingHost.after 2 uprooting (start {} ())

theorem uprooted_reached : Reaches (fun _ => True) (start {} ()) uprooted :=
  (Reaches.refl _).after (fillingHost.within_of_forall fun _ => trivial) 2 fun _ _ => trivial

/-- `lookups_safe` on the lookup that climbs from the root scope into the released package. -/
theorem lookups_safe_uprooted : ({} : Config).memoizeTemplates = true ∧
    fillingHost.perform 2 (.lookup rootScope [.simple "x" []]) uprooted =
      (.error (.fault (.scope ⟨1, 0⟩)),
        (fillingHost.perform 2 (.lookup rootScope [.simple "x" []]) uprooted).2) ∧
    Blames (fillingHost.services 2) uprooted (.scope ⟨1, 0⟩)
      (fillingHost.perform 2 (.lookup rootScope [.simple "x" []]) uprooted).2 := by
  have hrun : fillingHost.perform 2 (.lookup rootScope [.simple "x" []]) uprooted =
      (.error (.fault (.scope ⟨1, 0⟩)),
        (fillingHost.perform 2 (.lookup rootScope [.simple "x" []]) uprooted).2) := rfl
  have hsafe := (lookups_safe rfl uprooted_reached .refl).1
  exact ⟨rfl, hrun, (hsafe fillingHost 2 _ (.lookup _) _ _ hrun).1⟩

/-- Nothing is ever around itself while the root is put into a package and the package is released,
and no scope has a loader; yet a lookup from the scope of the root is broken off. -/
theorem uprooted_lookup_breaks_off : ({} : Config).memoizeTemplates = true ∧
    Reaches (fun _ => True) (start {} ()) uprooted ∧
    (∀ k ≤ uprooting.length, ∀ e,
      ¬TransGen (fillingHost.after 2 (uprooting.take k) (start {} ())).tables.Above e e) ∧
    (∀ entry ∈ uprooted.tables.scopes.toList, entry.2.loader = none) ∧
    (∃ x, uprooted.tables.scopes.get? rootScope = some x ∧ x.entity = rootEntity) ∧
    (fillingHost.perform 2 (.lookup rootScope [.simple "x" []]) uprooted).1 =
      .error (.fault (.scope ⟨1, 0⟩)) := by
  refine ⟨rfl, uprooted_reached, fun k hk => Tables.not_transGen_above_of_flat ?_,
    by decide +kernel, ⟨_, rfl, rfl⟩, rfl⟩
  revert k
  decide +kernel

end Session

end NameResolution
