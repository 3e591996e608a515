import NameResolution.Proofs.Session.Atomicity
import NameResolution.Proofs.Session.Instances
import NameResolution.Proofs.Session.Orphans

/-!
# Instances of templates

A signature that a scope does not have is offered to the templates of its name. What that comes to
depends on how many of them apply, and on whether the declaration of a single one is refused
(`Instantiates`). An instance that is not kept can be released at once, and leaves the session
unmoved (`perform_release_of_adds`). So it can be borrowed any number of times
(`run_times_borrow`).
-/

namespace NameResolution

/-! ## Borrowing -/

namespace Script

variable {L T W α : Type}

/-- Asks for a signature and releases what is found. Whether it could be released, if there was
something. -/
def borrow (c : ScopeId) (name : String) (params : List Param) (location : Location) :
    Script L T W (Option Bool) := do
  match ← perform (.resolveOverload c name params location) with
  | .ok (some e) => return some (← perform (.release e))
  | _ => return none

/-- The same so many times over. -/
def times (script : Script L T W α) : Nat → Script L T W (List α)
  | 0 => return []
  | n + 1 => do return (← script) :: (← script.times n)

end Script

namespace Session

variable {L T W : Type} {s s' : Session L T W} {c : ScopeId} {e : EntityId} {x : Scope L T}
  {d : Declaration L} {name : String} {params : List Param} {location : Location}
  {ds : List (Declaration L)} {answer : Except Failure (Option EntityId)} {host : Host L T W}
  {fuel : Nat}

/-! ## One signature -/

/-- What asking for a signature that a scope does not have comes to, by what its templates offer for
it. -/
inductive Instantiates (c : ScopeId) (x : Scope L T) (name : String) (params : List Param)
    (location : Location) (s : Session L T W) :
    List (Declaration L) → Except Failure (Option EntityId) → Session L T W → Prop
  /-- No template applies. -/
  | missed {s' : Session L T W} (h : Unmoved s s') :
    Instantiates c x name params location s [] (.ok none) s'
  /-- Several templates apply. -/
  | ambiguous {ds : List (Declaration L)} {s' : Session L T W} (hds : 2 ≤ ds.length)
    (h : Unmoved s s') : Instantiates c x name params location s ds
      (.error (.ambiguousTemplate name ds.length location)) s'
  /-- One template applies, and its declaration is refused. -/
  | refused {d : Declaration L} {f : Failure} {s' : Session L T W}
    (hf : s.tables.refusal? d.kind = some f) (h : Unmoved s s') :
    Instantiates c x name params location s [d] (.error f) s'
  /-- One template applies, and its instance is put into the scope. -/
  | kept {d : Declaration L} {s' : Session L T W} (hf : s.tables.refusal? d.kind = none)
    (hmemo : s.tables.config.memoizeTemplates = true)
    (h : Adds s s' { d with name, params } (some c))
    (hscope : s'.tables.scopes.get? c =
      some ((x.push name params s.tables.entities.next).prune s.gone)) :
    Instantiates c x name params location s [d] (.ok (some s.tables.entities.next)) s'
  /-- One template applies, and its instance is left without an owner. -/
  | loose {d : Declaration L} {s' : Session L T W} (hf : s.tables.refusal? d.kind = none)
    (hmemo : s.tables.config.memoizeTemplates = false)
    (h : Adds s s' { d with name, params } none) (hq : Unheard s s') :
    Instantiates c x name params location s [d] (.ok (some s.tables.entities.next)) s'

/-- Asking templates leaves a session unmoved. -/
theorem unmoved_consult (services : Services L T W) (params : List Param) (ts : List T)
    (s : Session L T W) : Unmoved s ((consult services params ts).run s).2 := by
  have hq := unheard_consult services params ts s
  rw [run_consult] at hq ⊢
  exact ⟨.refl _, rfl, rfl, hq⟩

/-- What templates offer is declared if it is a single offer, and put into the scope if it is to be
kept. The scope has nothing of the signature, so that cannot fail. -/
theorem instantiates_instantiate (ha : s.tables.Arranged) (hx : s.tables.scopes.get? c = some x)
    (hnone : x.find? name params = none) (services : Services L T W) (ts : List T)
    (location : Location) :
    ∃ answer s', (instantiate services c ts name params location).run s =
        (answer.mapError Stop.failure, s') ∧
      Instantiates c x name params location s
        (ts.filterMap (services.generate · s.tables s.world params)) answer s' := by
  have hasked := unmoved_consult services params ts s
  rw [run_consult] at hasked
  unfold instantiate
  rw [run_bind_of_ok (run_consult services params ts s)]
  generalize (ts.map _).reverse ++ s.journal = journal at hasked ⊢
  rcases ts.filterMap _ with _ | ⟨d, _ | ⟨d', ds⟩⟩
  · exact ⟨.ok none, _, rfl, .missed hasked⟩
  · dsimp only
    obtain ⟨f, s', hf, hrun, hs'⟩ | ⟨s₁, hf, hrun, hadds, hq⟩ :=
      declare_cases (s := { s with journal }) ha { d with name, params }
    · exact ⟨.error f, s', by rw [run_bind, hrun]; rfl, .refused hf (hasked.trans hs')⟩
    · have hconfig : s₁.tables.config = s.tables.config := hadds.tables.config
      rw [run_bind_of_ok hrun, run_bind_of_ok (run_getTables s₁), hconfig]
      cases hmemo : s.tables.config.memoizeTemplates with
      | true =>
        obtain ⟨e, y, he, -⟩ | ⟨s', -, hadd, hs', hscope⟩ :=
          add_new_cases (s := { s with journal }) ha.coherent hx hadds
        · cases hnone.symm.trans he
        · rw [if_pos rfl]
          exact ⟨.ok (some s.tables.entities.next), _,
            run_bind_of_ok (run_undoing_of_ok hadd _) _,
            .kept hf hmemo ⟨hs'.tables, hs'.gone, hs'.world⟩ hscope⟩
      | false =>
        exact ⟨.ok (some s.tables.entities.next), _, rfl,
          .loose hf hmemo ⟨hadds.tables, hadds.gone, hadds.world⟩
            ((hasked.unheard.trans hq).log id)⟩
  · exact ⟨.error _, _, rfl, .ambiguous (Nat.le_add_left 2 _) hasked⟩

/-- A signature that a scope does not have is left to the templates of its name. -/
theorem instantiates_resolveOverload (ha : s.tables.Arranged)
    (hx : s.tables.scopes.get? c = some x) (hnone : x.find? name params = none)
    (services : Services L T W) (location : Location) :
    ∃ answer s', (resolveOverload services c name params location).run s =
        (answer.mapError Stop.failure, s') ∧
      Instantiates c x name params location s (offers services.toTemplates s x name params)
        answer s' := by
  rw [run_resolveOverload_of_none hx hnone]
  exact instantiates_instantiate ha hx hnone services _ location

/-! ## Releasing an instance -/

/-- A new entity can be released, and leaves the session unmoved. -/
theorem perform_release_of_adds (h : Adds s s' d none) (hq : Unheard s s')
    (ht : s.tables.Formed) (host : Host L T W) (fuel : Nat) :
    ∃ s'', host.perform fuel (.release s.tables.entities.next) s' = (.ok true, s'') ∧
      Unmoved s s'' :=
  ⟨_, (run_release s' _).trans (if_pos (h.tables.isReleasable ht)), h.unmoved_discard hq ht⟩

/-! ## Running what comes after -/

/-- A script goes on with the answer of its first operation. -/
theorem run_perform_bind {α : Type} {op : Operation L T} {a : op.Answer}
    (h : host.perform fuel op s = (.ok a, s')) (k : op.Answer → Script L T W α) :
    host.run fuel (Script.perform op >>= k) s = host.run fuel (k a) s' := by
  show (op.perform (host.services fuel) >>= fun a => (k a).run (host.services fuel)).run s = _
  rw [run_bind_of_ok h]
  rfl

theorem run_bind_of_run {α β : Type} {script : Script L T W α} {a : α}
    (h : host.run fuel script s = (.ok a, s')) (k : α → Script L T W β) :
    host.run fuel (script >>= k) s = host.run fuel (k a) s' := by
  show ((script.bind k).run (host.services fuel)).run s = _
  rw [run_bind_script, run_bind_of_ok h]
  rfl

/-! ## Borrowing instances -/

/-- An instance that is not kept is released at once. Whatever a signature that the scope does not
have comes to, the session is unmoved. -/
theorem run_borrow_cases (ha : s.tables.Arranged) (hx : s.tables.scopes.get? c = some x)
    (hnone : x.find? name params = none) (hmemo : s.tables.config.memoizeTemplates = false)
    (host : Host L T W) (fuel : Nat) (location : Location) :
    ∃ answer s', host.run fuel (.borrow c name params location) s = (.ok answer, s') ∧
      Unmoved s s' ∧ answer ≠ some false ∧
      ∀ d, offers host.toTemplates s x name params = [d] → s.tables.refusal? d.kind = none →
        answer = some true := by
  obtain ⟨answer, s', hrun, hends⟩ :=
    instantiates_resolveOverload ha hx hnone (host.services fuel) location
  have htemplates : (host.services fuel).toTemplates = host.toTemplates := by
    cases fuel <;> rfl
  have hperform : host.perform fuel (.resolveOverload c name params location) s =
      (.ok answer, s') := run_attempt_of_mapError hrun
  unfold Script.borrow
  rw [run_perform_bind hperform, ← htemplates]
  generalize offers _ _ _ _ _ = ds at hends
  cases hends with
  | missed h => exact ⟨none, s', rfl, h, nofun, nofun⟩
  | ambiguous hds h =>
    refine ⟨none, s', rfl, h, nofun, ?_⟩
    rintro d rfl
    simp at hds
  | refused hf h =>
    refine ⟨none, s', rfl, h, nofun, ?_⟩
    rintro _ ⟨⟩ hf'
    cases hf.symm.trans hf'
  | kept hf hmemo' => cases hmemo.symm.trans hmemo'
  | loose hf hmemo' h hq =>
    obtain ⟨s'', hrelease, hs''⟩ := perform_release_of_adds h hq ha.coherent.formed host fuel
    exact ⟨some true, s'', run_perform_bind hrelease _, hs'', nofun, fun _ _ _ => rfl⟩

/-- Whatever hosts run, tables stay arranged. -/
theorem arranged_run {α : Type} (ha : s.tables.Arranged) (host : Host L T W) (fuel : Nat)
    (script : Script L T W α) : (host.run fuel script s).2.tables.Arranged := by
  have hall (op : Operation L T) : (fun _ => True : Operation L T → Prop) op := trivial
  exact (roams_script (roaming_services (host.within_of_forall hall) fuel)
    (Script.within_of_forall hall script) s ha.toMatched).arranged ha

/-- The templates see nothing of the tables but what is live. -/
def Discerning (templates : Templates L T W) : Prop :=
  ∀ template t t' w params, Tables.Agrees t t' →
    templates.generate template t' w params = templates.generate template t w params

/-- Discerning templates offer the same in sessions whose live parts agree. -/
theorem Unmoved.offers_eq {templates : Templates L T W} (h : Unmoved s s')
    (ht : Discerning templates) (x : Scope L T) (name : String) (params : List Param) :
    offers templates s' x name params = offers templates s x name params := by
  unfold offers
  congr 1
  funext template
  rw [h.world, ht template _ _ _ _ h.tables]

/-- An instance is borrowed any number of times, and the session is unmoved. -/
theorem run_times_borrow (ha : s.tables.Arranged) (hx : s.tables.scopes.get? c = some x)
    (hnone : x.find? name params = none) (hmemo : s.tables.config.memoizeTemplates = false)
    (host : Host L T W) (fuel : Nat) (location : Location) (n : Nat) :
    ∃ answers s', host.run fuel ((Script.borrow c name params location).times n) s =
        (.ok answers, s') ∧
      Unmoved s s' ∧ answers.length = n ∧ some false ∉ answers ∧
      (Discerning host.toTemplates → ∀ d, offers host.toTemplates s x name params = [d] →
        s.tables.refusal? d.kind = none → answers = List.replicate n (some true)) := by
  induction n generalizing s with
  | zero => exact ⟨[], s, rfl, .refl s, rfl, nofun, fun _ _ _ _ => rfl⟩
  | succ n ih =>
    obtain ⟨answer, s₁, hrun, hs₁, hne, htrue⟩ :=
      run_borrow_cases ha hx hnone hmemo host fuel location
    have ha₁ := arranged_run ha host fuel (.borrow c name params location)
    rw [hrun] at ha₁
    obtain ⟨answers, s', hrest, hs', hlen, hnot, hall⟩ :=
      ih ha₁ ((hs₁.tables.scopes c).trans hx) (by rw [hs₁.tables.config, hmemo])
    refine ⟨answer :: answers, s', ?_, hs₁.trans hs', by rw [List.length_cons, hlen], ?_, ?_⟩
    · exact (run_bind_of_run hrun _).trans (run_bind_of_run hrest _)
    · rw [List.mem_cons]
      rintro (h | h)
      · exact hne h.symm
      · exact hnot h
    · intro ht d hd hf
      rw [htrue d hd hf, hall ht d ((hs₁.offers_eq ht x name params).trans hd)
        ((hs₁.tables.refusal? d.kind).trans hf), List.replicate_succ]

/-! ## Every session -/

/-- In every session that hosts can bring about, asking for a signature that a live scope does not
have comes to what the templates of the name offer for it. Nothing is found if none of them applies,
several are a failure that counts them, and a single declaration that is refused fails in the same
way; the session is unmoved by that. Otherwise the answer is a new entity of the name and signature
asked for. The scope gets it if instances are kept. If not, it has no owner, and no scope has
changed; released at once, it leaves the session unmoved, and it can be borrowed so any number of
times. -/
theorem templates_make_instances {config : Config} {world : W}
    (h : Reaches (fun _ => True) (start config world) s) (hx : s.tables.scopes.get? c = some x)
    (hnone : x.find? name params = none) (host : Host L T W) (fuel : Nat) (location : Location) :
    (∃ answer s', host.perform fuel (.resolveOverload c name params location) s =
        (.ok answer, s') ∧
      Instantiates c x name params location s (offers host.toTemplates s x name params) answer
        s' ∧
      (s.tables.config.memoizeTemplates = false → ∀ e, answer = .ok (some e) →
        ∃ s'', host.perform fuel (.release e) s' = (.ok true, s'') ∧ Unmoved s s'')) ∧
    (s.tables.config.memoizeTemplates = false → ∀ n, ∃ answers s',
      host.run fuel ((Script.borrow c name params location).times n) s = (.ok answers, s') ∧
      Unmoved s s' ∧ answers.length = n ∧ some false ∉ answers ∧
      (Discerning host.toTemplates → ∀ d, offers host.toTemplates s x name params = [d] →
        s.tables.refusal? d.kind = none → answers = List.replicate n (some true))) := by
  have ha := h.arranged
  refine ⟨?_, fun hmemo n => run_times_borrow ha hx hnone hmemo host fuel location n⟩
  obtain ⟨answer, s', hrun, hends⟩ :=
    instantiates_resolveOverload ha hx hnone (host.services fuel) location
  have htemplates : (host.services fuel).toTemplates = host.toTemplates := by
    cases fuel <;> rfl
  rw [htemplates] at hends
  refine ⟨answer, s', run_attempt_of_mapError hrun, hends, ?_⟩
  rintro hmemo e rfl
  generalize offers host.toTemplates s x name params = ds at hends
  cases hends with
  | kept hf hmemo' => cases hmemo.symm.trans hmemo'
  | loose hf hmemo' hadds hq =>
    exact perform_release_of_adds hadds hq ha.coherent.formed host fuel

/-- A host whose templates make a subtype of the first type for any signature. -/
def rentalHost : Host Unit Unit Unit where
  templateName _ := "List"
  generate _ _ _ _ := some
    { name := "", params := [], kind := .type (some ⟨1, 0⟩), location := .unknown }
  load loader _ _ := .done (.done, loader)

/-- A session with a type and a template, whose instances are not kept. -/
def rental : Session Unit Unit Unit :=
  rentalHost.after 1
    [.define rootScope
      { name := "Collection", params := [], kind := .type none, location := .unknown },
      .addTemplate rootScope ()] (start { memoizeTemplates := false } ())

/-- Lists are borrowed any number of times, each a new subtype, and the session is unmoved. -/
theorem templates_make_instances_rental :
    (rental.tables.scopes.get? rootScope).map (·.find? "List" [.void]) = some none ∧
      rental.tables.config.memoizeTemplates = false ∧ ∀ n, ∃ s',
        rentalHost.run 1 ((Script.borrow rootScope "List" [.void] .unknown).times n) rental =
          (.ok (List.replicate n (some true)), s') ∧ Unmoved rental s' := by
  have hreached : Reaches (fun _ => True) (start { memoizeTemplates := false } ()) rental :=
    (Reaches.refl _).after (rentalHost.within_of_forall fun _ => trivial) 1 fun _ _ => trivial
  have hnone : (rental.tables.scopes.get? rootScope).map (·.find? "List" [.void]) = some none := by
    decide +kernel
  have hmemo : rental.tables.config.memoizeTemplates = false := by decide +kernel
  have htemplates : (rental.tables.scopes.get? rootScope).map
      (fun x => (x.overloads? "List").map OverloadSet.templates) = some (some [()]) := by
    decide +kernel
  have hrefusal : rental.tables.refusal? (.type (some ⟨1, 0⟩)) = none :=
    Option.isNone_iff_eq_none.1 (by decide +kernel)
  refine ⟨hnone, hmemo, fun n => ?_⟩
  obtain ⟨x, hx, hfind⟩ := Option.map_eq_some_iff.1 hnone
  have hborrow := (templates_make_instances hreached hx hfind rentalHost 1 .unknown).2 hmemo n
  generalize rental = s at *
  rw [hx, Option.map_some, Option.some.injEq] at htemplates
  have hoffers : offers rentalHost.toTemplates s x "List" [.void] =
      [{ name := "", params := [], kind := .type (some ⟨1, 0⟩), location := .unknown }] := by
    rw [offers, htemplates]
    rfl
  obtain ⟨answers, s', hrun, hs', -, -, hall⟩ := hborrow
  rw [hall (fun _ _ _ _ _ _ => rfl) _ hoffers hrefusal] at hrun
  exact ⟨s', hrun, hs'⟩

end Session

end NameResolution
