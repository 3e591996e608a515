import NameResolution.Proofs.Session.Course.Operations
import NameResolution.Proofs.Tables.Ownership

/-!
# The history of a session

A session is later than another one if a host leads from the one to the other, operation
by operation, whatever its loaders do and however the operations end; a moment inside an
operation, as a loader sees it, is reached by single steps (`Later`).

What every edit of the tables keeps is kept over the whole history
(`Later.induction_edit`) : tables stay sound (`Later.sound`), and an entity with an owner
stays as it is (`Later.get?_entities`).
-/

namespace NameResolution

variable {L T W : Type}

namespace Session

/-! ## Calls that are running -/

/-- The request that the running call of a scope's loader answers, by the journal. -/
def pending (c : ScopeId) : List (Event T) → Option (Option NamePart)
  | [] => none
  | .loadBegan c' request :: journal => if c' = c then some request else pending c journal
  | .loadEnded c' _ :: journal => if c' = c then none else pending c journal
  | _ :: journal => pending c journal

/-- By the journal, a scope's loader has reported that it is done with a request for everything. -/
def completed (c : ScopeId) : List (Event T) → Prop
  | [] => False
  | .loadEnded c' outcome :: journal =>
    c' = c ∧ outcome = .done ∧ pending c journal = some none ∨ completed c journal
  | _ :: journal => completed c journal

instance decidableCompleted (c : ScopeId) :
    (journal : List (Event T)) → Decidable (completed c journal)
  | [] => inferInstanceAs (Decidable False)
  | .loadEnded c' outcome :: journal =>
    have := decidableCompleted c journal
    inferInstanceAs (Decidable (c' = c ∧ outcome = .done ∧ pending c journal = some none ∨
      completed c journal))
  | .loadBegan .. :: journal | .consulted .. :: journal | .notified .. :: journal
  | .noted _ :: journal | .remarked _ :: journal => decidableCompleted c journal

/-! ## Steps -/

/-- One step of a session : a change, or the beginning or the end of the call of a loader. -/
inductive Step : Session L T W → Session L T W → Prop
  | change {s s' : Session L T W} (h : Change s s') : Step s s'
  | begins {s s' : Session L T W} {c : ScopeId} {request : Option NamePart}
    (h : Begins c request s s') : Step s s'
  | finishes {s s' : Session L T W} {c : ScopeId} {request : Option NamePart}
    (hp : pending c s.journal = some request) (h : Finishes c request s s') : Step s s'
  /-- The scope is gone when its loader has answered. -/
  | lost {s : Session L T W} {c : ScopeId} {request : Option NamePart}
    (hp : pending c s.journal = some request) (hc : s.tables.scopes.get? c = none)
    (outcome : LoadEnd) : Step s (s.log (.loadEnded c outcome))

/-- What a session can become. -/
inductive Later : Session L T W → Session L T W → Prop
  | refl (s : Session L T W) : Later s s
  | perform {s s' : Session L T W} (h : Later s s') (host : Host L T W) (fuel : Nat)
    (op : Operation L T) : Later s (host.perform fuel op s').2
  | step {s s' s'' : Session L T W} (h : Later s s') (hstep : Step s' s'') : Later s s''

variable {s s' s'' : Session L T W} {e : EntityId} {x : Entity}

theorem Later.trans (h : Later s s') (h' : Later s' s'') : Later s s'' := by
  induction h' with
  | refl => exact h
  | perform _ host fuel op ih => exact ih.perform host fuel op
  | step _ hstep ih => exact ih.step hstep

/-- An operation of the host leads to a later session. -/
theorem later_of_perform {host : Host L T W} {fuel : Nat} {op : Operation L T}
    {r : Except Stop op.Answer} (h : host.perform fuel op s = (r, s')) : Later s s' := by
  have hlater := (Later.refl s).perform host fuel op
  rwa [h] at hlater

/-- A step edits the tables once, or leaves them. -/
theorem Step.edit (h : Step s s') : Tables.Edit s.tables s'.tables := by
  cases h with
  | change h => exact h.edit
  | begins h => exact h.edit
  | finishes hp h => exact h.edit
  | lost hp hc outcome => exact .refl _

/-- What every edit of formed tables keeps is kept over the whole history. -/
theorem Later.induction_edit {P : Tables L T → Prop}
    (hP : ∀ {t t'}, t.Formed → P t → Tables.Edit t t' → P t') (h : Later s s')
    (hf : s.tables.Formed) (hs : P s.tables) : s'.tables.Formed ∧ P s'.tables := by
  have hkeep : ∀ {t t' : Tables L T}, t.Formed ∧ P t → Tables.Edit t t' → t'.Formed ∧ P t' :=
    fun ht he => ⟨ht.1.edit he, hP ht.1 ht.2 he⟩
  induction h with
  | refl => exact ⟨hf, hs⟩
  | perform _ host fuel op ih =>
    obtain ⟨ending, hc⟩ := course_perform host fuel op ih.1
    exact hc.induction_edit hkeep ih
  | step _ hstep ih => exact hkeep ih hstep.edit

theorem Later.formed (h : Later s s') (hs : s.tables.Formed) : s'.tables.Formed :=
  (h.induction_edit (P := fun _ => True) (fun _ _ _ => trivial) hs trivial).1

/-- A later session has handed out at least the handles of the earlier one. -/
theorem Later.extends (h : Later s s') (hs : s.tables.Formed) : s.tables.Extends s'.tables :=
  (h.induction_edit (fun ht hx he => hx.trans (ht.extends_edit he)) hs (.refl _)).2

/-- Tables stay sound, as long as no slot has been emptied too often. -/
theorem Later.sound (h : Later s s') (hs : s.tables.Sound) (hu : s'.tables.Unwrapped) :
    s'.tables.Sound := by
  refine (h.induction_edit (P := fun t => t.Unwrapped → t.Sound) ?_ hs.formed fun _ => hs).2 hu
  intro t t' ht hsound he hu'
  have hu := (ht.extends_edit he).unwrapped hu'
  exact (hsound hu).edit hu he

/-- An entity with an owner stays as it is. -/
theorem Later.get?_entities (h : Later s s') (hs : s.tables.Formed)
    (hx : s.tables.entities.get? e = some x) (ho : x.owner ≠ none) :
    s'.tables.entities.get? e = some x := by
  obtain ⟨c, hc⟩ := Option.ne_none_iff_exists'.1 ho
  exact (h.induction_edit (P := fun t => t.entities.get? e = some x)
    (fun ht hx he => ht.get?_entities_edit he hx hc) hs hx).2

end Session

end NameResolution
