import NameResolution.Proofs.Session.Moves.Operations
import NameResolution.Proofs.Session.Ownership
import NameResolution.Proofs.Tables.Questions

/-!
# The tables of every session match

Whatever hosts have done to a session, its three tables match, so nothing is left behind in
one of them (`tables_match`). The forest does what sessions ask of it and nothing else, so it
is flattened as long as no node has been released too often. Hence no question about
inheritance, and no change of it, uses a released value, whatever handles it is given
(`perform_setSuper`, `perform_clearSuper`).
-/

namespace NameResolution

namespace Session

variable {L T W α β : Type} {s s' : Session L T W} {e p : EntityId} {n : NodeId}

/-! ## Changing supertypes -/

/-- The run comes to a value or a failure. -/
def Ends (act : Run L T W α) (s : Session L T W) : Prop :=
  ∀ stop s', act.run s = (.error stop, s') → ∃ f, stop = .failure f

/-- A run that ends has an answer when it is attempted. -/
theorem Ends.exists_answer {act : Run L T W α} (h : Ends act s) :
    ∃ answer s', (attempt act).run s = (.ok answer, s') ∧
      act.run s = (answer.mapError Stop.failure, s') := by
  rw [run_attempt]
  cases hr : act.run s with
  | mk r s' =>
    cases r with
    | ok a => exact ⟨_, _, rfl, rfl⟩
    | error stop =>
      obtain ⟨f, rfl⟩ := h stop s' hr
      exact ⟨_, _, rfl, rfl⟩

/-- Relinking comes to its end if the forest answers. -/
theorem ends_relinking {question : Tables L T → Except Stop (Option Forest.Change)}
    (h : ∀ stop, question s.tables = .error stop → ∃ f, stop = .failure f) :
    Ends (do
      match ← ask question with
      | some change =>
        changeForest change
        return true
      | none => return false : Run L T W Bool) s := by
  intro stop s' hr
  rw [run_bind, run_ask] at hr
  cases hq : question s.tables with
  | error stop' =>
    rw [hq] at hr
    cases hr
    exact h stop hq
  | ok change =>
    rw [hq] at hr
    cases change with
    | none => cases hr
    | some change =>
      dsimp only at hr
      rw [run_bind_of_ok (run_changeForest change s)] at hr
      cases hr

/-- What is no live type is refused; else the forest is asked about the nodes. -/
theorem run_setSuper_cases (e : EntityId) (parent : Option EntityId) (s : Session L T W) :
    (s.tables.node? e = none ∧
      (setSuper e parent).run s = (.error (.failure (.notAType e)), s)) ∨
    (∃ p, parent = some p ∧ s.tables.node? e ≠ none ∧ s.tables.node? p = none ∧
      (setSuper e parent).run s = (.error (.failure (.notAType p)), s)) ∨
    ∃ n q, s.tables.node? e = some n ∧ q = parent.bind s.tables.node? ∧
      (parent.isSome → q.isSome) ∧ (setSuper e parent).run s = (do
        match ← ask (·.forest.setParent n q) with
        | some change =>
          changeForest change
          return true
        | none => return false : Run L T W Bool).run s := by
  unfold setSuper
  cases hn : s.tables.node? e with
  | none => exact Or.inl ⟨rfl, by rw [run_bind, run_ask_typeNode_of_none hn]⟩
  | some n =>
    refine Or.inr ?_
    rw [run_bind_of_ok (run_ask_typeNode hn)]
    cases parent with
    | none => exact Or.inr ⟨n, none, rfl, rfl, id, run_bind_of_ok (run_pure none s) _⟩
    | some p =>
      dsimp only
      cases hp : s.tables.node? p with
      | none =>
        refine Or.inl ⟨p, rfl, nofun, hp, ?_⟩
        rw [map_eq_pure_bind, run_bind, run_bind, run_ask_typeNode_of_none hp]
      | some m =>
        refine Or.inr ⟨n, some m, rfl, hp.symm, fun _ => rfl, ?_⟩
        rw [map_eq_pure_bind]
        refine run_bind_of_ok (a := some m) ?_ _
        rw [run_bind_of_ok (run_ask_typeNode hp), run_pure]

/-- In a flattened forest declaring a supertype has an answer, whatever the handles are; what is
no live type is refused. -/
theorem perform_setSuper (hm : s.tables.Matched) (hf : s.tables.forest.Flattened)
    (host : Host L T W) (fuel : Nat) (e : EntityId) (parent : Option EntityId) :
    ∃ answer s', host.perform fuel (.setSuper e parent) s = (.ok answer, s') ∧
      (s.tables.node? e = none → answer = .error (.notAType e)) ∧
      ∀ p, parent = some p → s.tables.node? e ≠ none → s.tables.node? p = none →
        answer = .error (.notAType p) := by
  have hperform : host.perform fuel (.setSuper e parent) s =
      (attempt (setSuper e parent)).run s := rfl
  rw [hperform, run_attempt]
  rcases run_setSuper_cases e parent s with ⟨hn, hrun⟩ | ⟨p, rfl, hn, hp, hrun⟩ |
    ⟨n, q, hn, hq, hsome, hrun⟩
  · rw [hrun]
    exact ⟨_, _, rfl, fun _ => rfl, fun _ _ h => absurd hn h⟩
  · rw [hrun]
    refine ⟨_, _, rfl, fun h => absurd h hn, ?_⟩
    rintro _ ⟨⟩ - -
    rfl
  · have hends : Ends (setSuper e parent) s := by
      intro stop s' hr
      rw [hrun] at hr
      refine ends_relinking (fun stop h => hf.setParent_ne_fault (hm.contains_node hn) ?_ h) _ _ hr
      intro m hm'
      obtain ⟨p, -, hp⟩ := Option.bind_eq_some_iff.1 (hq.symm.trans hm')
      exact hm.contains_node hp
    obtain ⟨answer, s', hanswer, -⟩ := hends.exists_answer
    rw [run_attempt] at hanswer
    refine ⟨answer, s', hanswer, fun h => ?_, ?_⟩
    · rw [hn] at h
      cases h
    · rintro p rfl - hp
      have := hsome rfl
      rw [hq, Option.bind_some, hp] at this
      cases this

/-- In a flattened forest taking a supertype back has an answer, whatever the handle is. -/
theorem perform_clearSuper (hm : s.tables.Matched) (hf : s.tables.forest.Flattened)
    (host : Host L T W) (fuel : Nat) (e : EntityId) :
    ∃ answer s', host.perform fuel (.clearSuper e) s = (.ok answer, s') ∧
      (s.tables.node? e = none → answer = .error (.notAType e)) := by
  have hperform : host.perform fuel (.clearSuper e) s = (attempt (clearSuper e)).run s := rfl
  rw [hperform]
  have hends : Ends (clearSuper e) s := by
    intro stop s' hr
    unfold clearSuper at hr
    cases hn : s.tables.node? e with
    | none =>
      rw [run_bind, run_ask_typeNode_of_none hn] at hr
      cases hr
      exact ⟨_, rfl⟩
    | some n =>
      rw [run_bind_of_ok (run_ask_typeNode hn)] at hr
      exact ends_relinking
        (fun stop h => absurd h (hf.clearParent_ne_fault (hm.contains_node hn))) _ _ hr
  obtain ⟨answer, s', hanswer, hrun⟩ := hends.exists_answer
  refine ⟨answer, s', hanswer, fun hn => ?_⟩
  unfold clearSuper at hrun
  rw [run_bind, run_ask_typeNode_of_none hn] at hrun
  cases answer with
  | ok b => cases hrun
  | error f =>
    cases hrun
    rfl

/-! ## Every session -/

/-- The forest of a session is supported. -/
theorem Reaches.supported {allowed : Operation L T → Prop} {config : Config} {world : W}
    (h : Reaches allowed (start config world) s) : s.tables.forest.Supported :=
  (h.moves (Tables.Matched.start config)).supported (Forest.supported_empty _)

/-- The forest of a session is flattened, as long as no node has been released too often. -/
theorem Reaches.flattened {allowed : Operation L T → Prop} {config : Config} {world : W}
    (h : Reaches allowed (start config world) s) (hu : s.tables.forest.nodes.Unwrapped) :
    s.tables.forest.Flattened :=
  (h.moves (Tables.Matched.start config)).flattened (Forest.flattened_empty _) hu

/-- In every session that hosts can bring about, whichever of their operations failed, a live type
has a live node and a live scope that belong to it, and a live package has a scope. Every node and
every scope belongs to exactly one entity in this way, so there are as many nodes as types, and as
many scopes as types and packages. If no node has been released too often, then the nodes that a
record or a chain names are live, and every question about the inheritance of any two handles, and
every change of it, has an answer. -/
theorem tables_match {config : Config} {world : W}
    (h : Reaches (fun _ => True) (start config world) s) :
    (∀ e x n c, s.tables.entities.get? e = some x → x.kind = .type n c →
      (∃ k, s.tables.forest.nodes.get? n = some k ∧ k.owner = e) ∧
        ∃ y, s.tables.scopes.get? c = some y ∧ y.entity = e) ∧
    (∀ e x c, s.tables.entities.get? e = some x → x.kind = .package c →
      ∃ y, s.tables.scopes.get? c = some y ∧ y.entity = e) ∧
    (∀ n k, s.tables.forest.nodes.get? n = some k →
      ∀ e, s.tables.node? e = some n ↔ e = k.owner) ∧
    (∀ c y, s.tables.scopes.get? c = some y →
      ∀ e, s.tables.scopeOf? e = some c ↔ e = y.entity) ∧
    s.tables.forest.nodes.size =
      s.tables.entities.toList.countP (fun entry => entry.2.kind matches .type ..) ∧
    s.tables.scopes.size =
      s.tables.entities.toList.countP (fun entry => entry.2.kind matches .type ..) +
        s.tables.entities.toList.countP (fun entry => entry.2.kind matches .package _) ∧
    (s.tables.forest.nodes.Unwrapped →
      (∀ n k, s.tables.forest.nodes.get? n = some k →
        (∀ p, k.parent = some p → s.tables.forest.nodes.contains p = true) ∧
          ∀ p ∈ s.tables.forest.chain n, s.tables.forest.nodes.contains p = true) ∧
      ∀ e other, s.tables.Answers e other ∧ ∀ (host : Host L T W) fuel,
        (∃ answer s', host.perform fuel (.clearSuper e) s = (.ok answer, s') ∧
          (s.tables.node? e = none → answer = .error (.notAType e))) ∧
        ∀ parent, ∃ answer s', host.perform fuel (.setSuper e parent) s = (.ok answer, s') ∧
          (s.tables.node? e = none → answer = .error (.notAType e)) ∧
          ∀ p, parent = some p → s.tables.node? e ≠ none → s.tables.node? p = none →
            answer = .error (.notAType p)) := by
  have hm := h.matched (Tables.Matched.start config)
  have hp := hm.coherent.paired
  have hl := hm.linked
  refine ⟨fun e x n c hx hk => ⟨?_, ?_⟩, fun e x c hx hk => ?_, fun n k hk e => ?_,
    fun c y hy e => ?_, ?_, ?_, fun hu => ⟨fun n k hk => ⟨fun p hpar => ?_, fun p hmem => ?_⟩,
    fun e other => ⟨?_, fun host fuel => ⟨?_, fun parent => ?_⟩⟩⟩⟩
  · exact hl.inside e x n hx (by rw [hk]; rfl)
  · exact hp.inside e x c hx (by rw [hk]; rfl)
  · exact hp.inside e x c hx (by rw [hk]; rfl)
  · constructor
    · intro hn
      obtain ⟨k', hk', rfl⟩ := hm.exists_node hn
      rw [hk] at hk'
      exact congrArg TypeNode.owner (Option.some.inj hk').symm
    · rintro rfl
      exact Option.bind_eq_some_iff.2 (hl.outside n k hk)
  · constructor
    · intro hc
      obtain ⟨x, hx, hxc⟩ := Option.bind_eq_some_iff.1 hc
      obtain ⟨y', hy', rfl⟩ := hp.inside e x c hx hxc
      rw [hy] at hy'
      exact congrArg Scope.entity (Option.some.inj hy').symm
    · rintro rfl
      exact Option.bind_eq_some_iff.2 (hp.outside c y hy)
  · exact hm.size_nodes
  · exact hm.size_scopes
  · exact (h.flattened hu).contains_of_parent? (Forest.parent?_eq_some_iff.2 ⟨k, hk, hpar⟩)
  · exact (h.flattened hu).contains_of_mem_chain (SlotTable.contains_of_get? hk) hmem
  · exact Tables.answers hm (h.flattened hu) e other
  · exact perform_clearSuper hm (h.flattened hu) host fuel e
  · exact perform_setSuper hm (h.flattened hu) host fuel e parent

/-- A session in which some operations were in vain : a type is defined twice, its subtype is made
its supertype, another type is released, and a package is filled by its loader. -/
def menagerie : Session Unit Unit Unit :=
  let type (name : String) (parent : Option EntityId) : Declaration Unit :=
    { name, params := [], kind := .type parent, location := .unknown }
  fillingHost.after 2
    [.define rootScope (type "Animal" none), .define rootScope (type "Animal" none),
      .define rootScope (type "Dog" (some ⟨1, 0⟩)), .setSuper ⟨1, 0⟩ (some ⟨2, 1⟩),
      .declare (type "Stray" (some ⟨1, 0⟩)), .release ⟨3, 0⟩,
      .define rootScope
        { name := "lib", params := [], kind := .package (some ()), location := .unknown },
      .find ⟨3, 1⟩ (.simple "Box" [])] (start {} ())

/-- The second definition of the type has left nothing behind, and its handle is answered as any
other that is no type. -/
theorem tables_match_menagerie :
    menagerie.tables.forest.nodes.Unwrapped ∧ menagerie.tables.forest.nodes.size = 3 ∧
      menagerie.tables.entities.toList.countP (fun entry => entry.2.kind matches .type ..) = 3 ∧
      menagerie.tables.scopes.size = 5 ∧ menagerie.tables.Answers ⟨2, 1⟩ ⟨1, 0⟩ ∧
      ∃ answer s', fillingHost.perform 2 (.setSuper ⟨2, 1⟩ (some ⟨2, 0⟩)) menagerie =
        (.ok answer, s') ∧ answer = .error (.notAType ⟨2, 0⟩) := by
  have hu : menagerie.tables.forest.nodes.Unwrapped := by decide +kernel
  have hreached : Reaches (fun _ => True) (start {} ()) menagerie :=
    (Reaches.refl _).after (fillingHost.within_of_forall fun _ => trivial) 2 fun _ _ => trivial
  obtain ⟨-, -, -, -, hnodes, -, hquestions⟩ := tables_match hreached
  have hsize : menagerie.tables.forest.nodes.size = 3 := by decide +kernel
  obtain ⟨hanswers, hchanges⟩ := (hquestions hu).2 ⟨2, 1⟩ ⟨1, 0⟩
  obtain ⟨answer, s', hrun, -, hrefused⟩ := (hchanges fillingHost 2).2 (some ⟨2, 0⟩)
  exact ⟨hu, hsize, hnodes.symm.trans hsize, by decide +kernel, hanswers, answer, s', hrun,
    hrefused _ rfl (by decide +kernel) (by decide +kernel)⟩

end Session

end NameResolution
