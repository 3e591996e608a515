import NameResolution.Proofs.Session.Adding
import NameResolution.Proofs.Tables.Matching

/-!
# What declaring does

Declaring comes to one of five ends (`Places`, `places_declare`) : the supertype is no live type,
the entity is placed and cannot be linked, which is taken back unless it is a fault, no supertype is
declared, or the entity is linked. What else is said of declaring is read off these.
-/

namespace NameResolution

namespace Session

variable {L T W α : Type} {s s' : Session L T W} {d : Declaration L} {e : EntityId} {n : NodeId}

/-! ## Steps -/

/-- To ask what is no type for its node fails. -/
theorem run_ask_typeNode_of_none (h : s.tables.node? e = none) :
    (ask (·.typeNode e) : Run L T W NodeId).run s = (.error (.failure (.notAType e)), s) := by
  rw [run_ask]
  cases hn : s.tables.typeNode e with
  | ok n =>
    rw [Tables.node?_of_typeNode hn] at h
    cases h
  | error stop => rw [(Tables.typeNode_eq_error hn).2]

/-- To ask a type for its node leaves the session alone. -/
theorem run_ask_typeNode (h : s.tables.node? e = some n) :
    (ask (·.typeNode e) : Run L T W NodeId).run s = (.ok n, s) := by
  rw [run_ask, Tables.typeNode_eq_ok.2 (Option.bind_eq_some_iff.1 h)]

/-- What is left of declaring once the entity is placed and linked. -/
theorem run_announce {x : Entity} (h : s.tables.entities.get? e = some x) :
    (do
      let x ← ask (·.entity e)
      note (.declared x.kind.word e)
      return e : Run L T W EntityId).run s =
      (.ok e, s.log (.noted (.declared x.kind.word e))) := by
  have hask : (ask (·.entity e) : Run L T W Entity).run s = (.ok x, s) := by
    rw [run_ask, Tables.entity, h]
  exact run_bind_of_ok hask _

/-- What fails is taken back, and what comes next is not done. -/
theorem run_undoing_discard_bind {β : Type} {act : Run L T W α} {f : Failure}
    (h : act.run s = (.error (.failure f), s')) (e : EntityId) (rest : α → Run L T W β) :
    (undoing (discard e) act >>= rest).run s =
      (.error (.failure f), ((discard e).run s').2) := by
  rw [run_bind, run_undoing, h]
  rfl

/-- What breaks off is left as it is. -/
theorem run_undoing_bind_of_stop {β : Type} {act : Run L T W α} {stop : Stop}
    (h : act.run s = (.error stop, s')) (hstop : ∀ f, stop ≠ .failure f) (undo : Run L T W Unit)
    (rest : α → Run L T W β) : (undoing undo act >>= rest).run s = (.error stop, s') := by
  rw [run_bind, run_undoing, h]
  cases stop with
  | failure f => exact (hstop f rfl).elim
  | fault f => rfl
  | outOfFuel => rfl

/-! ## The ends of declaring -/

/-- The session after a declaration has been placed. -/
def placed (s : Session L T W) (d : Declaration L) : Session L T W :=
  { s with tables := (s.tables.place d).2 }

/-- What the forest answers when a placed type is to be linked. -/
def linking (s : Session L T W) (d : Declaration L) (n : NodeId) :
    Except Stop (Option Forest.Change) :=
  (s.placed d).tables.forest.setParent s.tables.forest.nodes.next (some n)

/-- What declaring comes to. -/
inductive Places (d : Declaration L) (s : Session L T W) :
    Except Stop EntityId → Session L T W → Prop
  /-- The supertype is no live type. -/
  | notAType {p : EntityId} (hd : d.kind = .type (some p)) (hp : s.tables.node? p = none) :
    Places d s (.error (.failure (.notAType p))) s
  /-- The supertype is refused, and the entity is taken back. -/
  | refused {p : EntityId} {n : NodeId} {f : Failure} (hd : d.kind = .type (some p))
    (hp : s.tables.node? p = some n) (h : s.linking d n = .error (.failure f)) :
    Places d s (.error (.failure f)) ((discard s.tables.entities.next).run (s.placed d)).2
  /-- The run breaks off while the supertype is linked. -/
  | stopped {p : EntityId} {n : NodeId} {stop : Stop} (hd : d.kind = .type (some p))
    (hp : s.tables.node? p = some n) (h : s.linking d n = .error stop)
    (hstop : ∀ f, stop ≠ .failure f) : Places d s (.error stop) (s.placed d)
  /-- There is no supertype to link. -/
  | unlinked (hd : ∀ p, d.kind ≠ .type (some p)) (word : String) :
    Places d s (.ok s.tables.entities.next)
      ((s.placed d).log (.noted (.declared word s.tables.entities.next)))
  /-- The supertype is linked. -/
  | linked {p : EntityId} {n : NodeId} {change : Forest.Change} (hd : d.kind = .type (some p))
    (hp : s.tables.node? p = some n) (h : s.linking d n = .ok (some change)) (word : String) :
    Places d s (.ok s.tables.entities.next)
      (((changeForest change).run (s.placed d)).2.log
        (.noted (.declared word s.tables.entities.next)))

/-- A placed type is linked to its supertype as the forest grants it. It has no supertype yet, so it
is never there already. -/
theorem run_linking_cases (ht : s.tables.Formed) (hw : s.tables.forest.nodes.WellFormed)
    {parent : Option EntityId} (hd : d.kind = .type parent) (n : NodeId) :
    (∃ stop, s.linking d n = .error stop ∧ (do
        let node ← ask (·.typeNode s.tables.entities.next)
        if let some change ← ask (·.forest.setParent node (some n)) then
          changeForest change : Run L T W Unit).run (s.placed d) = (.error stop, s.placed d)) ∨
    ∃ change, s.linking d n = .ok (some change) ∧ (do
        let node ← ask (·.typeNode s.tables.entities.next)
        if let some change ← ask (·.forest.setParent node (some n)) then
          changeForest change : Run L T W Unit).run (s.placed d) =
        (.ok (), ((changeForest change).run (s.placed d)).2) := by
  have hnode : (s.placed d).tables.node? s.tables.entities.next =
      some s.tables.forest.nodes.next := Tables.node?_of_typeNode (Tables.typeNode_place ht hd)
  have hask : (ask (·.forest.setParent s.tables.forest.nodes.next (some n)) :
      Run L T W (Option Forest.Change)).run (s.placed d) = (s.linking d n, s.placed d) :=
    run_ask _ _
  simp only [run_bind_of_ok (run_ask_typeNode hnode)]
  rw [run_bind, hask]
  cases h : s.linking d n with
  | error stop => exact Or.inl ⟨stop, rfl, rfl⟩
  | ok change =>
    cases change with
    | some change =>
      refine Or.inr ⟨change, rfl, ?_⟩
      dsimp only
      rw [run_changeForest]
    | none =>
      have hparent : (s.placed d).tables.forest.parent? s.tables.forest.nodes.next = none := by
        show (s.tables.place d).2.forest.parent? _ = none
        rw [Tables.forest_place_of_type hd, Forest.parent?, Forest.get?_insert hw, if_pos rfl]
        rfl
      cases hparent.symm.trans (Forest.setParent_eq_none h)

/-- In tables that match, the forest answers. -/
theorem linking_ne_fault (hm : s.tables.Matched) {p : EntityId} (hd : d.kind = .type (some p))
    (hp : s.tables.node? p = some n) {stop : Stop} (h : s.linking d n = .error stop) :
    ∃ f, stop = .failure f := by
  unfold linking placed at h
  rw [Tables.forest_place_of_type hd] at h
  exact Forest.setParent_next_ne_fault hm.linked.nodes (hm.contains_node hp) h

/-- Declaring comes to one of its ends. -/
theorem places_declare (ht : s.tables.Formed) (hw : s.tables.forest.nodes.WellFormed)
    (d : Declaration L) : ∃ answer s', (declare d).run s = (answer, s') ∧ Places d s answer s' := by
  obtain ⟨kind, -, hget⟩ := ht.get?_placed d
  have hannounce {s₁ : Session L T W}
      (h : s₁.tables.entities = (s.tables.place d).2.entities) :=
    run_announce (s := s₁) (e := s.tables.entities.next) (by rw [h, hget, if_pos rfl])
  unfold declare
  extract_lets jp
  have hjp (parent : Option NodeId) (hnone : parent = none → ∀ p, d.kind ≠ .type (some p))
      (hsome : ∀ n, parent = some n → ∃ p, d.kind = .type (some p) ∧
        s.tables.node? p = some n) :
      ∃ answer s', (jp parent).run s = (answer, s') ∧ Places d s answer s' := by
    have hset : (setTables (s.tables.place d).2 : Run L T W Unit).run s = (.ok (), s.placed d) :=
      rfl
    unfold jp
    rw [run_bind_of_ok (run_getTables s)]
    dsimp only
    rw [run_bind_of_ok hset, Tables.place_fst]
    cases parent with
    | none => exact ⟨_, _, hannounce rfl, .unlinked (hnone rfl) _⟩
    | some n =>
      obtain ⟨p, hd, hp⟩ := hsome n rfl
      obtain ⟨stop, h, hrun⟩ | ⟨change, h, hrun⟩ := run_linking_cases ht hw hd n
      · by_cases hf : ∃ f, stop = .failure f
        · obtain ⟨f, rfl⟩ := hf
          exact ⟨_, _, run_undoing_discard_bind hrun _ _, .refused hd hp h⟩
        · have hstop := not_exists.1 hf
          exact ⟨_, _, run_undoing_bind_of_stop hrun hstop _ _, .stopped hd hp h hstop⟩
      · exact ⟨_, _, (run_bind_of_ok (run_undoing_of_ok hrun _) _).trans
          (hannounce (by rw [run_changeForest]; rfl)), .linked hd hp h _⟩
  split
  · rename_i p hd
    rw [map_eq_pure_bind, bind_assoc]
    cases hp : s.tables.node? p with
    | none =>
      exact ⟨_, s, by rw [run_bind, run_ask_typeNode_of_none hp], .notAType hd hp⟩
    | some n =>
      rw [run_bind_of_ok (run_ask_typeNode hp), run_bind_of_ok (run_pure _ s)]
      exact hjp (some n) (fun h => by cases h) fun _ h => ⟨p, hd, hp.trans h⟩
  · rename_i hd
    exact hjp none (fun _ => hd) fun _ h => by cases h

end Session

end NameResolution
