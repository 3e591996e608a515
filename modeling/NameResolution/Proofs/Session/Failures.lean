import NameResolution.Proofs.Session.Closure
import NameResolution.Proofs.Session.Runs

/-!
# What lookups fail with

`FailsWith` says with what a run can fail, if it fails; it is put together along the program
like the run itself. Loaders have no way to fail (`replies_services`), and no lookup reads a
mangled text. So whatever goes wrong while a name is followed, it is not that a text breaks
the grammar (`legible_findNamed`), and only reading says so. Nor is it that a name is not found :
that is an answer, until an entity is required (`legible_find`).
-/

namespace NameResolution

variable {L T W α β : Type}

/-- A mangled text breaks the grammar. -/
def Failure.IsMalformed : Failure → Prop
  | .malformed .. => True
  | _ => False

/-- What is written is to blame : a mangled text breaks the grammar, or a name is not found. -/
def Failure.IsOfText : Failure → Prop
  | .malformed .. => True
  | .unresolved .. => True
  | _ => False

/-- A malformed text is a failure of the text. -/
theorem Failure.IsMalformed.isOfText {f : Failure} (h : f.IsMalformed) : f.IsOfText := by
  cases f with
  | malformed encoded position reason => trivial
  | _ => exact h.elim

namespace Session

/-! ## Failing with a cause -/

/-- Whatever the run fails with has the property. -/
def FailsWith (act : Run L T W α) (P : Failure → Prop) : Prop :=
  ∀ s f s', act.run s = (.error (.failure f), s') → P f

variable {P : Failure → Prop} {act x : Run L T W α} {f : α → Run L T W β}
  {undo : Run L T W Unit}

/-- A run that always succeeds fails with whatever one likes. -/
theorem failsWith_of_ok (h : ∀ s, ∃ a s', act.run s = (.ok a, s')) : FailsWith act P := by
  intro s e s' he
  obtain ⟨a, s₁, ha⟩ := h s
  rw [ha] at he
  cases he

theorem failsWith_pure (a : α) : FailsWith (pure a : Run L T W α) P :=
  failsWith_of_ok fun s => ⟨a, s, rfl⟩

theorem failsWith_record (event : Event T) : FailsWith (record event : Run L T W Unit) P :=
  failsWith_of_ok fun s => ⟨(), s.log event, rfl⟩

theorem failsWith_note (n : Note) : FailsWith (note n : Run L T W Unit) P :=
  failsWith_record _

theorem failsWith_getTables : FailsWith (getTables : Run L T W (Tables L T)) P :=
  failsWith_of_ok fun s => ⟨s.tables, s, rfl⟩

theorem failsWith_setTables (t : Tables L T) : FailsWith (setTables t : Run L T W Unit) P :=
  failsWith_of_ok fun s => ⟨(), { s with tables := t }, rfl⟩

theorem failsWith_get : FailsWith (get : Run L T W (Session L T W)) P :=
  failsWith_of_ok fun s => ⟨s, s, rfl⟩

theorem failsWith_fail {e : Failure} (h : P e) : FailsWith (fail e : Run L T W α) P := by
  intro s f s' hf
  rw [run_fail] at hf
  cases hf
  exact h

theorem failsWith_ask {question : Tables L T → Except Stop α}
    (h : ∀ t e, question t = .error (.failure e) → P e) :
    FailsWith (ask question : Run L T W α) P := by
  intro s e s' he
  rw [run_ask] at he
  exact h s.tables e (congrArg Prod.fst he)

/-- Closure under sequencing : either half may fail, and only with what is allowed. -/
theorem FailsWith.bind (hx : FailsWith x P) (hf : ∀ a, FailsWith (f a) P) :
    FailsWith (x >>= f) P := by
  intro s e s' he
  rcases exists_of_run_bind_eq_error he with he | ⟨a, s₁, -, he⟩
  · exact hx s e s' he
  · exact hf a s₁ e s' he

/-- A run that is attempted does not fail. -/
theorem failsWith_attempt (act : Run L T W α) : FailsWith (attempt act) P := by
  intro s e s' he
  rw [run_attempt] at he
  rcases hr : act.run s with ⟨(_ | _ | _) | a, s₁⟩
  all_goals
    rw [hr] at he
    cases he

/-- What comes after an attempt. -/
theorem FailsWith.attempt_bind {k : Except Failure α → Run L T W β} {Q : Failure → Prop}
    (h : FailsWith act P) (hok : ∀ a, FailsWith (k (.ok a)) Q)
    (herr : ∀ e, P e → FailsWith (k (.error e)) Q) : FailsWith (attempt act >>= k) Q := by
  intro s e s' he
  rw [run_bind, run_attempt] at he
  rcases hr : act.run s with ⟨(e' | _ | _) | a, s₁⟩
  all_goals rw [hr] at he
  · exact herr e' (h s e' s₁ hr) s₁ e s' he
  · cases he
  · cases he
  · exact hok a s₁ e s' he

/-- What is undone after a failure leaves the failure as it is. -/
theorem FailsWith.undoing (hundo : FailsWith undo P) (h : FailsWith act P) :
    FailsWith (undoing undo act) P := by
  intro s e s' he
  rw [run_undoing] at he
  rcases hr : act.run s with ⟨(e' | _ | _) | a, s₁⟩
  all_goals rw [hr] at he
  · exact hundo.bind (fun _ => failsWith_fail (h s e' s₁ hr)) s₁ e s' he
  all_goals cases he

theorem failsWith_ask_scope (c : ScopeId) : FailsWith (ask (·.scope c) : Run L T W (Scope L T)) P :=
  failsWith_ask fun t e he => absurd he (scope_ne_failure t c e)

theorem failsWith_ask_entity (e : EntityId) : FailsWith (ask (·.entity e) : Run L T W Entity) P :=
  failsWith_ask fun t f hf => absurd hf (entity_ne_failure t e f)

theorem failsWith_modifyScope (c : ScopeId) (g : Scope L T → Scope L T) :
    FailsWith (modifyScope c g : Run L T W Unit) P :=
  (failsWith_ask_scope c).bind fun _ => failsWith_getTables.bind fun _ => failsWith_setTables _

theorem failsWith_discard (e : EntityId) : FailsWith (discard e : Run L T W Unit) P :=
  failsWith_getTables.bind fun _ => (failsWith_setTables _).bind fun _ => failsWith_note _

/-! ## Texts -/

/-- The run does not fail because of what is written. -/
def Legible (act : Run L T W α) : Prop :=
  FailsWith act fun f => ¬f.IsOfText

theorem legible_typeNode (e : EntityId) : Legible (ask (·.typeNode e) : Run L T W NodeId) :=
  failsWith_ask fun t f hf => by
    unfold Tables.typeNode at hf
    split at hf
    · cases hf
    · cases hf
      exact id

/-- A failure comes from one of the two steps of an answer. -/
theorem failure_of_bind {a : Except Stop α} {g : α → Except Stop β} {e : Failure}
    (h : (a >>= g) = .error (.failure e)) :
    a = .error (.failure e) ∨ ∃ b, g b = .error (.failure e) := by
  cases a with
  | error stop => exact Or.inl (by cases h; rfl)
  | ok b => exact Or.inr ⟨b, h⟩

theorem node_ne_failure (forest : Forest) (node : NodeId) (e : Failure) :
    forest.node node ≠ .error (.failure e) := by
  unfold Forest.node
  cases forest.nodes.get? node <;> simp

theorem owner_ne_failure (forest : Forest) (node : NodeId) (e : Failure) :
    forest.owner node ≠ .error (.failure e) := by
  intro he
  rcases failure_of_bind he with he | ⟨_, he⟩
  · exact node_ne_failure _ _ e he
  · cases he

theorem isA_ne_failure (forest : Forest) (node other : NodeId) (e : Failure) :
    forest.isA node other ≠ .error (.failure e) := by
  intro he
  rcases failure_of_bind he with he | ⟨_, he⟩
  · exact node_ne_failure _ _ e he
  rcases failure_of_bind he with he | ⟨_, he⟩
  · exact node_ne_failure _ _ e he
  · cases he

/-- A walk that does not end is no refusal. -/
theorem descend_ne_failure (forest : Forest) (node : NodeId) (e : Failure) :
    forest.descend node ≠ .error (.failure e) := by
  intro he
  rcases failure_of_bind he with he | ⟨_, he⟩
  · exact node_ne_failure _ _ e he
  split_ifs at he
  · cases he
  · cases he

/-- A question asked of each entry of a list fails only where it fails of one of them. -/
theorem mapM_ne_failure {F : α → Except Stop β} {e : Failure} {l : List α}
    (h : ∀ x ∈ l, F x ≠ .error (.failure e)) : l.mapM F ≠ .error (.failure e) := by
  induction l with
  | nil => nofun
  | cons x l ih =>
    obtain ⟨hx, hl⟩ := List.forall_mem_cons.1 h
    intro he
    rw [List.mapM_cons] at he
    rcases failure_of_bind he with he | ⟨_, he⟩
    · exact hx he
    rcases failure_of_bind he with he | ⟨_, he⟩
    · exact ih hl he
    · cases he

/-- Measuring a subtree is never refused : it can only fault or go round for ever. -/
theorem subtreeHeight_ne_failure (forest : Forest) (node : NodeId) (e : Failure) :
    forest.subtreeHeight node ≠ .error (.failure e) := by
  intro he
  rcases failure_of_bind he with he | ⟨below, he⟩
  · exact descend_ne_failure _ _ e he
  rcases failure_of_bind he with he | ⟨_, he⟩
  · refine mapM_ne_failure (fun d _ hd => ?_) he
    split_ifs at hd
    cases hd
  · cases he

/-- Neither is the relink itself, which follows the refusals. -/
theorem relink_ne_failure (forest : Forest) (node : NodeId) (parent : Option NodeId)
    (ancestors : Option (List NodeId)) (opening : Note) (e : Failure) :
    forest.relink node parent ancestors opening ≠ .error (.failure e) := by
  intro he
  rcases failure_of_bind he with he | ⟨_, he⟩
  · exact descend_ne_failure _ _ e he
  · cases he

/-- A supertype is refused for the sake of the chains. -/
theorem legible_setParent (node : NodeId) (parent : Option NodeId) :
    Legible (ask (·.forest.setParent node parent) : Run L T W (Option Forest.Change)) := by
  refine failsWith_ask fun t e he => ?_
  rcases failure_of_bind he with he | ⟨n, he⟩
  · exact absurd he (node_ne_failure _ _ e)
  split_ifs at he
  · cases he
  · cases parent with
    | none =>
      rcases failure_of_bind he with he | ⟨_, he⟩
      · exact absurd he (relink_ne_failure _ _ _ _ _ e)
      · cases he
    | some p =>
      rcases failure_of_bind he with he | ⟨below, he⟩
      · exact absurd he (isA_ne_failure _ _ _ e)
      split_ifs at he
      · rcases failure_of_bind he with he | ⟨_, he⟩
        · exact absurd he (owner_ne_failure _ _ e)
        · cases he
          exact id
      · rcases failure_of_bind he with he | ⟨height, he⟩
        · exact absurd he (subtreeHeight_ne_failure _ _ e)
        dsimp only at he
        split_ifs at he
        · cases he
          exact id
        · rcases failure_of_bind he with he | ⟨_, he⟩
          · exact absurd he (relink_ne_failure _ _ _ _ _ e)
          · cases he

theorem legible_attach (c : ScopeId) (e : EntityId) :
    Legible (ask (·.attach c e) : Run L T W (Tables L T)) := by
  refine failsWith_ask fun t f hf => ?_
  rcases failure_of_bind hf with hf | ⟨x, hf⟩
  · exact absurd hf (entity_ne_failure t e f)
  dsimp only at hf
  split at hf
  · cases hf
    exact id
  · rcases failure_of_bind hf with hf | ⟨s, hf⟩
    · exact absurd hf (scope_ne_failure t c f)
    split at hf
    · rename_i existing _
      rcases failure_of_bind hf with hf | ⟨_, hf⟩
      · exact absurd hf (entity_ne_failure t existing f)
      · cases hf
        exact id
    · cases hf

theorem edits_legible : Edits (L := L) (T := T) (W := W) Legible where
  pure := failsWith_pure
  bind := FailsWith.bind
  outOfFuel _ _ _ h := by cases h
  getTables := failsWith_getTables
  scope := failsWith_ask_scope
  entity := failsWith_ask_entity
  session h _ := failsWith_get.bind h
  typeNode := legible_typeNode
  setParent := legible_setParent
  attach := legible_attach
  setTables := failsWith_setTables
  note := failsWith_note
  notified _ _ _ _ := failsWith_record _
  consulted _ _ _ := failsWith_record _
  undoing := FailsWith.undoing
  ambiguous _ _ _ := failsWith_fail id

/-! ## Loading -/

/-- No call of a loader fails. -/
def Replies (services : Services L T W) : Prop :=
  ∀ loader c request, FailsWith (services.load loader c request) fun _ => False

variable {services : Services L T W}

/-- A call of a loader fails over no text, once the replies of the host do not. -/
theorem legible_callLoader (hs : Replies services) (c : ScopeId) (loader : L)
    (request : Option NamePart) : Legible (callLoader services c loader request) := by
  refine (failsWith_record _).bind fun _ => FailsWith.bind ?_ fun reply => ?_
  · exact fun s f s' h => (hs loader c request s f s' h).elim
  · exact (failsWith_record _).bind fun _ => (failsWith_modifyScope c _).bind fun _ =>
      failsWith_pure _

theorem legible_defineAll (c : ScopeId) (ds : List (Declaration L)) :
    Legible (defineAll c ds : Run L T W Unit) := by
  induction ds with
  | nil => exact failsWith_pure ()
  | cons d ds ih =>
    refine (edits_legible.define c d).attempt_bind (fun _ => ih) fun f hf => ?_
    exact (failsWith_note _).bind fun _ => failsWith_fail hf

theorem loads_legible (hs : Replies services) : Loads services Legible :=
  edits_legible.loads (legible_callLoader hs) legible_defineAll

/-! ## Finding -/

/-- To look for a part whose signature is known fails over no text. -/
theorem searches_legible (hs : Replies services) : Searches services Legible where
  toComposes := edits_legible.toComposes
  findSimple c name params :=
    edits_legible.findSimple (edits_legible.resolveOverload services c name params _)
      ((loads_legible hs).loadPart c) ((loads_legible hs).forceLoad c)

/-- A find by a part that is already read fails over no text. -/
theorem legible_find (hs : Replies services) (c : ScopeId) (p : NamePart) :
    Legible (find services c p) :=
  (searches_legible hs).find c p

/-- No lookup of a name fails because a text breaks the grammar. -/
theorem legible_findNamed (hs : Replies services) (c : ScopeId) (n : QualifiedName) :
    FailsWith (findNamed services c n) fun f => ¬f.IsMalformed := by
  have hfind : FailsWith (findName services n c) fun f => ¬f.IsMalformed :=
    fun s f s' hf hm => (searches_legible hs).findName n c s f s' hf hm.isOfText
  refine hfind.bind fun found => ?_
  split
  · exact failsWith_pure _
  · exact failsWith_fail id

/-! ## Hosts -/

/-- An operation that fails answers with the failure. -/
theorem failsWith_perform (services : Services L T W) (op : Operation L T) :
    FailsWith (op.perform services) P := by
  cases op with
  | addTemplate c template => exact failsWith_modifyScope c _
  | watch c observer => exact failsWith_modifyScope c _
  | unwatch c observer => exact failsWith_modifyScope c _
  | drop observer => exact failsWith_of_ok fun s => ⟨(), _, rfl⟩
  | release e =>
    refine failsWith_getTables.bind fun t => ?_
    split_ifs
    · exact (failsWith_discard e).bind fun _ => failsWith_pure true
    · exact failsWith_pure false
  | defineReporting c ds =>
    show FailsWith (defineReporting c ds) P
    induction ds with
    | nil => exact failsWith_pure _
    | cons d ds ih =>
      refine (failsWith_attempt _).bind fun r => ?_
      split
      · exact ih.bind fun _ => failsWith_pure _
      · exact (failsWith_note _).bind fun _ => ih.bind fun _ => failsWith_pure _
  | requireReporting c n location =>
    refine (failsWith_attempt _).bind fun r => ?_
    split
    · exact failsWith_pure _
    · exact failsWith_pure _
  | _ => exact failsWith_attempt _

/-- What every operation of a script may fail with, the script may fail with, and no more. -/
theorem failsWith_script (services : Services L T W) (script : Script L T W α) :
    FailsWith (script.run services) P := by
  induction script with
  | done a => exact failsWith_pure a
  | fault f => exact fun _ _ _ h => by cases h
  | call op next ih => exact (failsWith_perform services op).bind ih
  | inspect next ih => exact failsWith_get.bind fun s => ih s.tables
  | readWorld next ih => exact failsWith_get.bind fun s => ih s.world
  | writeWorld w next ih =>
    exact FailsWith.bind (failsWith_of_ok fun s => ⟨(), { s with world := w }, rfl⟩) fun _ => ih
  | remark text next ih => exact (failsWith_record _).bind fun _ => ih

/-- Loaders are scripts, so their calls do not fail. -/
theorem replies_services (host : Host L T W) (fuel : Nat) : Replies (host.services fuel) := by
  cases fuel with
  | zero => exact fun _ _ _ _ _ _ h => by cases h
  | succ fuel => exact fun loader c request => failsWith_script _ _

end Session

end NameResolution
