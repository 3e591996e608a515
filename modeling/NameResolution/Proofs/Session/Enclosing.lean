import NameResolution.Proofs.Session.Faults
import NameResolution.Proofs.Session.Still
import NameResolution.Proofs.Tables.Ascents

/-!
# Ways up end

A move `Closes` a circle if it puts an entity into its own scope, or into one that lies below it. In
a run without such a move (`Orderly`) nothing ever comes to be around itself (`Orderly.acyclic`),
and a circle that is there once is there for good, so a run is orderly iff there is none at its end
(`Moves.orderly_iff`).

Without circles the way out of a scope ends, like the way up of an entity. A lookup follows it as it
goes along, while loaders and templates may change the tables; but owners are given once, so what it
visits is the way out at the end of the run (`run_climb_eq_lookThrough`). If no loader is asked,
that is the way out at its beginning too (`Tables.Steady.passes_out`). `owner_chains_end` is the
result.
-/

namespace NameResolution

open Relation (ReflTransGen TransGen)

namespace Tables

variable {L T : Type} {t t' : Tables L T} {c c' : ScopeId} {ds : List ScopeId} {es : List EntityId}
  {e : EntityId}

/-! ## The way out -/

/-- The scope that the entity of a scope is in. -/
def out (t : Tables L T) (c : ScopeId) : Option ScopeId :=
  (t.scopes.get? c).bind fun s => (t.entities.get? s.entity).bind Entity.owner

/-- The way out of a scope leads to the scope that it is inside of. -/
theorem out_eq_some_iff : t.out c = some c' ↔ t.Inside c c' := by
  simp [out, Inside, Option.bind_eq_some_iff]

/-- The entity of a scope. -/
def around (t : Tables L T) (c : ScopeId) : EntityId :=
  ((t.scopes.get? c).map Scope.entity).getD rootEntity

/-- If nothing is around itself, no scope is inside of itself : every scope on a circle would be
there, as there is a way out of it. -/
theorem Acyclic.not_transGen_inside (h : t.Acyclic) (c : ScopeId) : ¬TransGen t.Inside c c := by
  intro hcycle
  have hup : TransGen (fun a b => t.Above (t.around a) (t.around b)) c c := by
    refine transGen_of_linked (r := fun a b => t.Inside b a) (fun z a b hz ha => ?_)
      (Relation.transGen_swap.1 hcycle)
    obtain ⟨s, x, hs, hx, ho⟩ := ha
    obtain ⟨s', -, hs', -⟩ := hz
    refine ⟨x, a, s', ?_, ho, hs', by simp [around, hs']⟩
    simpa [around, hs] using hx
  exact h _ (TransGen.lift t.around (fun _ _ => id) _ _ hup)

/-- The way out ends, and passes nothing twice. -/
theorem Acyclic.exists_passes_out (h : t.Acyclic) (c : ScopeId) :
    ∃ ds, Passes t.out c ds ∧ ds.Nodup := by
  have hacyclic (c : ScopeId) : ¬TransGen (fun a b => t.out a = some b) c c := by
    simpa only [out_eq_some_iff] using h.not_transGen_inside c
  have hlive (c c' : ScopeId) (hc : t.out c = some c') : t.scopes.contains c = true := by
    obtain ⟨s, -, hs, -⟩ := out_eq_some_iff.1 hc
    exact SlotTable.contains_of_get? hs
  obtain ⟨ds, hds⟩ := SlotTable.exists_passes hlive hacyclic c
  exact ⟨ds, hds, hds.nodup hacyclic⟩

/-- The way up of a live entity passes live entities. -/
theorem Coherent.contains_of_passes (ht : t.Coherent) (h : Passes t.up e es)
    (he : t.entities.contains e = true) : ∀ a ∈ es, t.entities.contains a = true := by
  induction h with
  | last => simpa using he
  | @step e a es h _ ih =>
    obtain ⟨x, c, s, hx, hc, hs, rfl⟩ := up_eq_some_iff.1 h
    obtain ⟨y, hy, -⟩ := ht.paired.outside c s hs
    exact List.forall_mem_cons.2 ⟨he, ih (SlotTable.contains_of_get? hy)⟩

/-- If what was live stays where it is, so does the way out of a scope. -/
theorem Steady.passes_out (h : t.Steady t') (ht : t.Sound) (hext : t.Extends t')
    (hu : t'.Unwrapped) (hds : Passes t.out c ds)
    (hc : t.scopes.contains c = true ∨ t.scopes.Spent c) : Passes t'.out c ds := by
  have hspent {c : ScopeId} (hc : t.scopes.Spent c) : t'.out c = none := by
    simp [out, SlotTable.get?_of_spent hu.scopes (hc.extends hext.scopes)]
  induction hds with
  | @last c hout =>
    rcases hc with hc | hc
    · obtain ⟨s, hs⟩ := SlotTable.contains_iff.1 hc
      obtain ⟨x, hx, -⟩ := ht.paired.outside c s hs
      obtain ⟨s', hs', hse⟩ := h.scopes c s hs
      refine .last ?_
      rw [out, hs, Option.bind_some, hx] at hout
      rwa [out, hs', Option.bind_some, hse, h.entities _ x hx]
    · exact .last (hspent hc)
  | @step c d ds hout _ ih =>
    obtain ⟨s, x, hs, hx, ho⟩ := out_eq_some_iff.1 hout
    obtain ⟨s', hs', hse⟩ := h.scopes c s hs
    refine .step (b := d) ?_ (ih (ht.owned.issued _ x d hx ho))
    exact out_eq_some_iff.2 ⟨s', x, hs', hse ▸ h.entities _ x hx, ho⟩

end Tables

namespace Session

variable {L T W : Type} {allowed : Operation L T → Prop} {s s' s'' : Session L T W} {c : ScopeId}
  {config : Config} {world : W}

/-! ## Circles in histories -/

/-- An entity is put into a scope whose entity it is itself, or is around. -/
def Closes (s s' : Session L T W) : Prop :=
  ∃ c e t x, s.tables.attach c e = .ok t ∧ s.tables.scopes.get? c = some x ∧
    s' = s.enter c e t x ∧ ReflTransGen s.tables.Above e x.entity

theorem Closes.move (h : Closes s s') : Move (fun _ => True) s s' := by
  obtain ⟨c, e, t, x, ht, hx, rfl, -⟩ := h
  exact .enter ht hx

/-- Moves of which none closes a circle. -/
def Orderly : Session L T W → Session L T W → Prop :=
  ReflTransGen fun s s' => Move (fun _ => True) s s' ∧ ¬Closes s s'

theorem Orderly.moves (h : Orderly s s') : Moves (fun _ => True) s s' :=
  ReflTransGen.mono (fun _ _ => And.left) _ _ h

/-- A move makes no circle unless it closes one. -/
theorem Move.acyclic (h : Move allowed s s') (hs : s.tables.Matched) (ha : s.tables.Acyclic)
    (hc : ¬Closes s s') : s'.tables.Acyclic := by
  cases h with
  | place d => exact ha.place hs.coherent.formed d
  | relink h => exact ha
  | discard h => exact ha.discard (Tables.loose_of_isReleasable h)
  | @enter c e t x h hx =>
    have ht : t.Acyclic := (Tables.acyclic_attach_iff ha h hx).2 fun hup =>
      hc ⟨c, e, t, x, h, hx, rfl, hup⟩
    exact ht.scope c (alike_prune _)
  | template c name template => exact ha.scope c fun x => Scope.alike_addTemplate x name template
  | watch h => exact ha.scope _ fun x => Scope.Alike.of_names rfl rfl
  | unwatch h => exact ha.scope _ fun x => Scope.Alike.of_names rfl rfl
  | drop h => exact ha
  | loading c state loader => exact ha.scope c fun x => Scope.Alike.of_names rfl rfl
  | event h => exact ha
  | world w => exact ha

/-- A circle stays. -/
theorem Moves.not_acyclic (h : Moves allowed s s') (hs : s.tables.Matched)
    (ha : ¬s.tables.Acyclic) : ¬s'.tables.Acyclic :=
  h.induction_edit (P := fun t => ¬t.Acyclic) (fun ht ha he => ht.not_acyclic_edit he ha) hs ha

/-- A step that closes a circle leaves something around itself. -/
theorem Closes.not_acyclic (h : Closes s s') (hs : s.tables.Matched) : ¬s'.tables.Acyclic := by
  obtain ⟨c, e, t, x, h, hx, rfl, hup⟩ := h
  have ht : ¬t.Acyclic := by
    by_cases ha : s.tables.Acyclic
    · exact fun ht => (Tables.acyclic_attach_iff ha h hx).1 ht hup
    · exact hs.coherent.not_acyclic_edit (.attach h) ha
  exact (hs.attach h).coherent.not_acyclic_edit (.scope t c _ (alike_prune _)) ht

/-- In an orderly run nothing comes to be around itself. -/
theorem Orderly.acyclic (h : Orderly s s') (hs : s.tables.Matched) (ha : s.tables.Acyclic) :
    s'.tables.Acyclic := by
  induction h with
  | refl => exact ha
  | tail h hmove ih => exact hmove.1.acyclic (Moves.matched (Orderly.moves h) hs) ih hmove.2

/-- A run is orderly up to its first move that closes a circle, if there is one. -/
theorem Moves.orderly_or (h : Moves (fun _ => True) s s') :
    Orderly s s' ∨ ∃ s₁ s₂, Orderly s s₁ ∧ Closes s₁ s₂ ∧ Moves (fun _ => True) s₂ s' := by
  induction h with
  | refl => exact Or.inl .refl
  | @tail s' s'' _ hmove ih =>
    rcases ih with h | ⟨s₁, s₂, h, hc, h₂⟩
    · by_cases hc : Closes s' s''
      · exact Or.inr ⟨s', s'', h, hc, .refl⟩
      · exact Or.inl (ReflTransGen.tail h ⟨hmove, hc⟩)
    · exact Or.inr ⟨s₁, s₂, h, hc, h₂.tail hmove⟩

/-- A run is orderly iff no circle is there at its end. -/
theorem Moves.orderly_iff (h : Moves (fun _ => True) s s') (hs : s.tables.Matched)
    (ha : s.tables.Acyclic) : Orderly s s' ↔ s'.tables.Acyclic := by
  refine ⟨fun ho => ho.acyclic hs ha, fun ha' => h.orderly_or.resolve_right ?_⟩
  rintro ⟨s₁, s₂, ho, hc, h₂⟩
  have hs₁ := Moves.matched ho.moves hs
  exact h₂.not_acyclic (hc.move.matched hs₁) (hc.not_acyclic hs₁) ha'

/-- Moves keep tables sound, as long as no slot has been emptied too often. -/
theorem Moves.sound (h : Moves allowed s s') (hm : s.tables.Matched) (hs : s.tables.Sound)
    (hu : s'.tables.Unwrapped) : s'.tables.Sound := by
  induction h with
  | refl => exact hs
  | tail h hmove ih =>
    obtain ⟨t, he, he'⟩ := hmove.edits
    have hf := (Moves.matched h hm).coherent.formed
    have hut := ((hf.edit he).extends_edit he').unwrapped hu
    have hu := (hf.extends_edit he).unwrapped hut
    exact ((ih hu).edit hu he).edit hut he'

/-- In the beginning nothing is around itself. -/
theorem acyclic_start (config : Config) : (Tables.start config : Tables L T).Acyclic := by
  refine Tables.not_transGen_above_of_flat fun entry hentry => ?_
  rw [(Tables.get?_entities_start (SlotTable.mem_toList_iff.1 hentry)).2.1]
  rfl

/-! ## Lookups -/

/-- Looks in some scopes, one after the other; a scope that is gone is a fault. If nothing is found
in any of them, it ends with `last`. -/
def lookThrough (look : ScopeId → Run L T W (Option EntityId))
    (last : Run L T W (Option EntityId)) : List ScopeId → Run L T W (Option EntityId)
  | [] => last
  | c :: cs => do
    match ← look c with
    | some e => return some e
    | none =>
      let _ ← ask (·.scope c)
      lookThrough look last cs

/-- How looking in the first of some scopes ends if it finds nothing. -/
def exhausted (steps : Nat) (ds : List ScopeId) : Run L T W (Option EntityId) :=
  if ds.length ≤ steps then return none else throw .outOfFuel

/-- What has been put into a scope stays there. -/
theorem Moves.inside {c' : ScopeId} (h : Moves allowed s s') (hs : s.tables.Matched)
    (hc : s.tables.Inside c c') : s'.tables.Inside c c' :=
  h.induction_edit (P := fun t => t.Inside c c') (fun ht hc he => hc.edit ht he) hs hc

/-- A climb looks in the scopes on the way out, as it is when the climb has ended. -/
theorem run_climb_eq_lookThrough {look : ScopeId → Run L T W (Option EntityId)}
    (hl : ∀ c, Roams (fun _ => True) (look c)) {steps : Nat} {ds : List ScopeId}
    (hs : s.tables.Matched) (hds : Passes ((climb look steps c).run s).2.tables.out c ds) :
    (climb look steps c).run s = (lookThrough look (exhausted steps ds) (ds.take steps)).run s := by
  induction steps generalizing s c ds with
  | zero =>
    have hne : ¬ds.length ≤ 0 := by cases hds <;> simp
    simp [exhausted, hne, climb, lookThrough]
  | succ steps ih =>
    have hmoves := hl c s hs
    obtain ⟨cs, rfl⟩ : ∃ cs, ds = c :: cs := by cases hds <;> exact ⟨_, rfl⟩
    rw [climb] at hds ⊢
    rw [List.take_succ_cons, lookThrough]
    simp only [run_bind] at hds ⊢
    generalize (look c).run s = r at hmoves hds ⊢
    obtain ⟨stop | _ | e, s₁⟩ := r
    · rfl
    · dsimp only at hds ⊢
      simp only [run_bind, run_ask, run_getTables] at hds ⊢
      have hs₁ := hmoves.matched hs
      cases hx : s₁.tables.scopes.get? c with
      | none => simp only [Tables.scope, hx]
      | some x =>
        simp only [Tables.scope, hx] at hds ⊢
        cases hown : (s₁.tables.entities.get? x.entity).bind Entity.owner with
        | none =>
          simp only [hown] at hds ⊢
          have hout : s₁.tables.out c = none := by
            rw [Tables.out, hx, Option.bind_some, hown]
          cases hds with
          | last => simp [lookThrough, exhausted]
          | step h => cases hout.symm.trans h
        | some owner =>
          simp only [hown] at hds ⊢
          have hinside : s₁.tables.Inside c owner := by
            rw [← Tables.out_eq_some_iff, Tables.out, hx, Option.bind_some, hown]
          have hlater := (composes_roams.climb hl steps owner s₁ hs₁).inside hs₁ hinside
          cases hds with
          | last h => cases h.symm.trans (Tables.out_eq_some_iff.2 hlater)
          | step h hcs =>
            obtain rfl := Option.some.inj (h.symm.trans (Tables.out_eq_some_iff.2 hlater))
            rw [ih hs₁ hcs]
            simp [exhausted]
    · rfl

/-- A lookup from a scope that is gone changes nothing. -/
theorem run_climb_snd_of_gone {services : Services L T W} {n : QualifiedName}
    (hc : s.tables.scopes.get? c = none) (steps : Nat) :
    ((climb (findName services n) steps c).run s).2 = s := by
  cases steps with
  | zero => rfl
  | succ steps =>
    rw [climb, run_bind]
    cases n with
    | nil =>
      unfold findName
      simp only [run_bind, run_ask, Tables.scope, hc]
    | cons p ps =>
      unfold findName
      simp only [run_bind, run_ask, Tables.scope, hc]

theorem perform_lookup (host : Host L T W) (fuel : Nat) (c : ScopeId) (n : QualifiedName)
    (s : Session L T W) : host.perform fuel (.lookup c n) s =
      (attempt (climb (findName (host.services fuel) n) fuel c)).run s := by
  have hreach : (host.services fuel).reach = fuel := by cases fuel <;> rfl
  have hperform : host.perform fuel (.lookup c n) s =
      (attempt (climb (findName (host.services fuel) n) (host.services fuel).reach c)).run s := rfl
  rwa [hreach] at hperform

/-- A lookup looks in the scopes on the way out. -/
theorem perform_lookup_eq_lookThrough (hs : s.tables.Matched) (host : Host L T W) (fuel : Nat)
    (n : QualifiedName) {ds : List ScopeId}
    (hds : Passes (host.perform fuel (.lookup c n) s).2.tables.out c ds) :
    host.perform fuel (.lookup c n) s =
      (attempt (lookThrough (findName (host.services fuel) n) (exhausted fuel ds)
        (ds.take fuel))).run s := by
  rw [perform_lookup, run_attempt_snd] at hds
  have hroaming : Roaming (fun _ => True) (host.services fuel) :=
    roaming_services (host.within_of_forall fun _ => trivial) fuel
  rw [perform_lookup, run_attempt, run_attempt,
    run_climb_eq_lookThrough ((closed_roams hroaming).findName n) hs hds]

/-- A lookup that asks no loader leaves the way out as it is. -/
theorem passes_out_of_unasked (ha : s.tables.Arranged) (hs : s.tables.Sound) (host : Host L T W)
    (fuel : Nat) (n : QualifiedName) {ds : List ScopeId} (hds : Passes s.tables.out c ds)
    (hq : Unasked s (host.perform fuel (.lookup c n) s).2)
    (hu : (host.perform fuel (.lookup c n) s).2.tables.Unwrapped) :
    Passes (host.perform fuel (.lookup c n) s).2.tables.out c ds := by
  rw [perform_lookup, run_attempt_snd] at hq hu ⊢
  have hclosed : Closed (host.services fuel) Still :=
    closed_still (roaming_services (host.within_of_forall fun _ => trivial) fuel)
  have hstill := hclosed.climb (hclosed.findName n) fuel c
  cases hc : s.tables.scopes.get? c with
  | none => rwa [run_climb_snd_of_gone hc]
  | some x =>
    have hext := (hstill.roams s ha.toMatched).extends ha.toMatched
    exact (hstill.steady s ha hq).passes_out hs hext hu hds (Or.inl (SlotTable.contains_of_get? hc))

/-! ## Orderly histories -/

/-- In every session that an orderly run from the start can bring about, the way up of an entity
ends, and it passes nothing twice; for a live entity it passes live ones only. Paths are read off
the whole way up, so they are not longer than there are live entities. What a host does to the
session next is orderly again, up to the first entity that it puts into a scope below it. If it is a
lookup, then it looks in the scopes on the way out, in each of them once at most; if no loader is
asked meanwhile, they are the scopes on the way out at its beginning. -/
theorem owner_chains_end (h : Orderly (start config world) s) :
    (∀ e, ∃ es, Passes s.tables.up e es ∧ es.Nodup ∧
      (s.tables.entities.contains e = true →
        (∀ a ∈ es, s.tables.entities.contains a = true) ∧ es.length ≤ s.tables.entities.size) ∧
      (∀ steps, es.length ≤ steps → s.tables.pathFrom steps e [] = s.tables.path e) ∧
      s.tables.path e = ((es.takeWhile s.tables.named).map s.tables.part).reverse ∧
      (s.tables.path e).length ≤ s.tables.entities.size) ∧
    (∀ (host : Host L T W) fuel op, Orderly s (host.perform fuel op s).2 ∨
      ∃ s₁ s₂, Orderly s s₁ ∧ Closes s₁ s₂ ∧
        Moves (fun _ => True) s₂ (host.perform fuel op s).2) ∧
    ∀ (host : Host L T W) fuel c n s', (host.perform fuel (.lookup c n) s).2 = s' → Orderly s s' →
      ∃ ds, Passes s'.tables.out c ds ∧ ds.Nodup ∧
        host.perform fuel (.lookup c n) s =
          (attempt (lookThrough (findName (host.services fuel) n) (exhausted fuel ds)
            (ds.take fuel))).run s ∧
        (Unasked s s' → s'.tables.Unwrapped → Passes s.tables.out c ds) := by
  have hm : s.tables.Matched := Moves.matched h.moves (.start config)
  have hacyclic := h.acyclic (.start config) (acyclic_start config)
  refine ⟨fun e => ?_, fun host fuel op => ?_, ?_⟩
  · obtain ⟨es, hes, hnodup⟩ := hacyclic.exists_passes e
    have hpath := Tables.path_of_passes hes hnodup
    refine ⟨es, hes, hnodup, fun he => ?_, fun steps hsteps => ?_, hpath,
      Tables.length_path_le hes hnodup hm.counted.entities⟩
    · have hlive := hm.coherent.contains_of_passes hes he
      exact ⟨hlive, hm.counted.entities.length_le_size hnodup hlive⟩
    · rw [Tables.pathFrom_of_passes hes hsteps, List.append_nil, hpath]
  · exact (moves_perform (host.within_of_forall fun _ => trivial) fuel trivial hm).orderly_or
  · rintro host fuel c n s' rfl ho
    obtain ⟨ds, hds, hnodup⟩ := (ho.acyclic hm hacyclic).exists_passes_out c
    refine ⟨ds, hds, hnodup, perform_lookup_eq_lookThrough hm host fuel n hds, fun hq hu => ?_⟩
    have ha : s.tables.Arranged :=
      Moves.arranged h.moves ⟨.start config, Forest.supported_empty _, rfl⟩
    have hs := Moves.sound h.moves (.start config) (.start config)
      ((Moves.extends ho.moves hm).unwrapped hu)
    obtain ⟨ds', hds', -⟩ := hacyclic.exists_passes_out c
    rwa [hds.unique (passes_out_of_unasked ha hs host fuel n hds' hq hu)]

/-- If the entities around an entity stand before it in the table, nothing is around itself. -/
theorem acyclic_of_index {t : Tables L T} (h : ∀ entry ∈ t.entities.toList, ∀ a ∈ t.up entry.1,
    a.index < entry.1.index) : t.Acyclic := by
  intro e he
  have hlt {a b : EntityId} (hab : TransGen t.Above a b) : a.index < b.index := by
    have hone {a b : EntityId} (hab : t.Above a b) : a.index < b.index := by
      have hup := Tables.up_eq_some_iff.2 hab
      obtain ⟨x, hx⟩ := SlotTable.contains_iff.1 (Tables.contains_of_up hup)
      exact h (b, x) (SlotTable.mem_toList_iff.2 hx) a hup
    induction hab with
    | single hab => exact hone hab
    | tail _ hbc ih => exact ih.trans (hone hbc)
  exact Nat.lt_irrefl _ (hlt he)

/-- A package in a package, and a third one in there, in the slots of one that was released; another
one is refused. -/
def annex : Session Unit Unit Unit :=
  let package (name : String) : Declaration Unit :=
    { name, params := [], kind := .package none, location := .unknown }
  fillingHost.after 3 [.define rootScope (package "p"), .define ⟨1, 0⟩ (package "q"),
    .declare (package "r"), .release ⟨3, 0⟩, .define ⟨2, 0⟩ (package "r"),
    .define ⟨2, 0⟩ (package "r")] (start {} ())

/-- The session after a name that nobody knows has been looked up from the innermost package. -/
def searchedAnnex : Session Unit Unit Unit :=
  (fillingHost.perform 4 (.lookup ⟨3, 1⟩ [.simple "x" []]) annex).2

/-- The annex is built in order, and searched in order. -/
theorem orderly_annex : Orderly (start {} ()) annex ∧ Orderly annex searchedAnnex := by
  have hwithin : fillingHost.Within fun _ => True := fillingHost.within_of_forall fun _ => trivial
  have hreached : Reaches (fun _ => True) (start {} ()) annex :=
    (Reaches.refl _).after hwithin 3 fun _ _ => trivial
  have hmatched := hreached.matched (.start {})
  have hacyclic : annex.tables.Acyclic := acyclic_of_index (by decide +kernel)
  have hmoves : Moves (fun _ => True) annex searchedAnnex :=
    moves_perform hwithin 4 trivial hmatched
  exact ⟨(Moves.orderly_iff (hreached.moves (.start {})) (.start {}) (acyclic_start {})).2 hacyclic,
    (Moves.orderly_iff hmoves hmatched hacyclic).2 (acyclic_of_index (by decide +kernel))⟩

/-- The innermost package has three parts in its path, and the lookup looks in four scopes. -/
theorem owner_chains_end_annex : Orderly (start {} ()) annex ∧
    annex.tables.path ⟨3, 1⟩ = [.simple "p" [], .simple "q" [], .simple "r" []] ∧
    (annex.tables.path ⟨3, 1⟩).length ≤ annex.tables.entities.size ∧
    Orderly annex searchedAnnex ∧ Unasked annex searchedAnnex ∧ searchedAnnex.tables.Unwrapped ∧
    ∃ ds, Passes annex.tables.out ⟨3, 1⟩ ds ∧ ds.Nodup ∧ ds.length = 4 ∧
      fillingHost.perform 4 (.lookup ⟨3, 1⟩ [.simple "x" []]) annex =
        (attempt (lookThrough (findName (fillingHost.services 4) [.simple "x" []])
          (exhausted 4 ds) (ds.take 4))).run annex := by
  obtain ⟨ho, hlookup⟩ := orderly_annex
  obtain ⟨hup, -, hout⟩ := owner_chains_end ho
  obtain ⟨-, -, -, -, -, -, hlen⟩ := hup ⟨3, 1⟩
  have hunasked : Unasked annex searchedAnnex :=
    fun _ => (requests_eq_nil (by decide +kernel)).trans (requests_eq_nil (by decide +kernel)).symm
  have hu : searchedAnnex.tables.Unwrapped := by decide +kernel
  obtain ⟨ds, -, hnodup, hrun, hkept⟩ :=
    hout fillingHost 4 ⟨3, 1⟩ [.simple "x" []] searchedAnnex rfl hlookup
  have hds := hkept hunasked hu
  have hway : Passes annex.tables.out ⟨3, 1⟩ [⟨3, 1⟩, ⟨2, 0⟩, ⟨1, 0⟩, rootScope] :=
    .step (b := ⟨2, 0⟩) (by decide +kernel) <| .step (b := ⟨1, 0⟩) (by decide +kernel) <|
      .step (b := rootScope) (by decide +kernel) <| .last (by decide +kernel)
  refine ⟨ho, by decide +kernel, hlen, hlookup, hunasked, hu, ds, hds, hnodup, ?_, hrun⟩
  rw [hds.unique hway]
  rfl

end Session

end NameResolution
