import NameResolution.Proofs.Mangled.Acceptance
import NameResolution.Proofs.Session.Signatures

/-!
# What mangling keeps of any name

A path is bounded by the number of slots, and so is the nesting of paths in a mangled name.
Where nothing is around itself and no path mentions its own entity, these bounds are never
met : the path and the mangled path of every entity are the only ones that the paths of its
owner and of the types that it mentions allow (`path_unique`, `mangledPath_unique`).

Any name is written so that the grammar derives it (`derives_mangle`), be its parts
patterns, or the types in it not there. It is never called malformed when it is read, and if
it is read to its end, then every part has the text and the parameters that were written
(`mangled_names_keep_shape`). Which types the parameters have is another matter.
-/

namespace NameResolution

open Mangled Relation

variable {L T W : Type}

/-! ## Shapes -/

namespace NamePart

/-- How the parameters of a part are taken, one after the other. An argument is taken by value. -/
def slots : NamePart → List Bool
  | simple _ params => params.map Param.byReference
  | pattern _ arguments => arguments.map fun _ => false

/-- The second part has the text of the first, and a signature of as many parameters, each taken in
the same way. -/
def KeepsShape (p q : NamePart) : Prop :=
  ∃ params, q = .simple p.text params ∧ params.map Param.byReference = p.slots

end NamePart

namespace Mangled

variable {derivation : EntityId → Option NameTree}

theorem byReference_slotOf (byReference : Bool) (name : Option NameTree) :
    (slotOf byReference name).byReference = byReference := by
  cases name <;> rfl

theorem byReference_argumentSlots (arguments : List (List NamePart)) :
    (argumentSlots derivation arguments).map SlotTree.byReference =
      arguments.map fun _ => false := by
  induction arguments with
  | nil => rfl
  | cons n ns ih => rw [argumentSlots, List.map_cons, List.map_cons, byReference_slotOf, ih]

theorem SlotTree.Fits.byReference {slot : SlotTree} {p : Param} (h : slot.Fits p) :
    p.byReference = slot.byReference := by
  cases slot with
  | void r =>
    obtain rfl : p = ⟨none, r⟩ := h
    rfl
  | named r name => exact h.2

/-- Parameters are by reference where their slots are. -/
theorem byReference_of_fits {slots : List SlotTree} {params : List Param}
    (h : List.Forall₂ SlotTree.Fits slots params) :
    params.map Param.byReference = slots.map SlotTree.byReference := by
  induction h with
  | nil => rfl
  | cons h _ ih => rw [List.map_cons, List.map_cons, h.byReference, ih]

/-- What fits the derivation of a written part has its shape. -/
theorem keepsShape_of_fits {p q : NamePart} (h : (partTree derivation p).Fits q) :
    p.KeepsShape q := by
  cases p with
  | simple text params =>
    obtain ⟨params', rfl, h⟩ := h
    refine ⟨params', by rw [meaning_letters]; rfl, ?_⟩
    rw [byReference_of_fits h, List.map_map]
    exact List.map_congr_left fun p _ => byReference_slotOf _ _
  | pattern text arguments =>
    obtain ⟨params, rfl, h⟩ := h
    refine ⟨params, by rw [meaning_letters]; rfl, ?_⟩
    rw [byReference_of_fits h]
    exact byReference_argumentSlots arguments

/-- What fits the derivation of a written name has its shape. -/
theorem forall₂_keepsShape {n m : QualifiedName} {tree : NameTree}
    (htree : nameTree derivation n = some tree) (h : tree.Fits m) :
    List.Forall₂ NamePart.KeepsShape n m := by
  cases n with
  | nil => cases htree
  | cons p ps =>
    rw [nameTree, List.map_cons, nameOf] at htree
    split at htree
    · cases htree
    · cases htree
      have h : List.Forall₂ PartTree.Fits ((p :: ps).map (partTree derivation)) m := h
      exact (List.forall₂_map_left_iff.1 h).imp fun _ _ => keepsShape_of_fits

end Mangled

/-! ## Paths without a bound -/

namespace Tables

variable {t : Tables L T} {a b e : EntityId}

/-- The path of an entity, made of the path of its owner. -/
def pathStep (t : Tables L T) (path : EntityId → QualifiedName) (e : EntityId) : QualifiedName :=
  if e = rootEntity then []
  else
    match t.entities.get? e with
    | none => []
    | some x =>
      match x.owner.bind t.scopes.get? with
      | none => [x.part]
      | some s => path s.entity ++ [x.part]

/-- What is below an entity is written behind its path. -/
theorem pathFrom_eq_append (steps : Nat) (e : EntityId) (below : QualifiedName) :
    t.pathFrom steps e below = t.pathFrom steps e [] ++ below := by
  induction steps generalizing e below with
  | zero => rfl
  | succ steps ih =>
    rw [pathFrom, pathFrom]
    split_ifs
    · rfl
    · cases t.entities.get? e with
      | none => rfl
      | some x =>
        dsimp only
        cases x.owner.bind t.scopes.get? with
        | none => rfl
        | some s =>
          dsimp only
          rw [ih s.entity (x.part :: below), ih s.entity [x.part], List.append_assoc]
          rfl

theorem pathFrom_succ (steps : Nat) (e : EntityId) :
    t.pathFrom (steps + 1) e [] = t.pathStep (t.pathFrom steps · []) e := by
  rw [pathFrom, pathStep]
  split_ifs
  · rfl
  · cases t.entities.get? e with
    | none => rfl
    | some x =>
      dsimp only
      cases x.owner.bind t.scopes.get? with
      | none => rfl
      | some s => exact pathFrom_eq_append steps s.entity [x.part]

/-- The path of an entity needs that of its owner. -/
theorem recursion_path (h : ∀ e, ¬TransGen t.Above e e) :
    SlotTable.Recursion t.entities (fun _ => True) t.Above t.pathStep where
  closed _ _ := trivial
  live _ hab := by
    obtain ⟨x, c, s, hx, -⟩ := hab
    exact SlotTable.contains_of_get? hx
  reads {e f g} _ hfg := by
    rw [pathStep, pathStep]
    split_ifs
    · rfl
    · cases hx : t.entities.get? e with
      | none => rfl
      | some x =>
        dsimp only
        cases hs : x.owner.bind t.scopes.get? with
        | none => rfl
        | some s =>
          obtain ⟨c, hc, hs⟩ := Option.bind_eq_some_iff.1 hs
          dsimp only
          rw [hfg s.entity ⟨x, c, s, hx, hc, hs, rfl⟩]
  acyclic _ := h _

/-- Where nothing is around itself, the paths are the only ones that owners allow. -/
theorem path_unique (h : ∀ e, ¬TransGen t.Above e e) (path : EntityId → QualifiedName) :
    (∀ e, path e = t.pathStep path e) ↔ path = t.path := by
  have hreach : t.entities.slots.size < t.reach := Nat.lt_succ_self _
  have hr := recursion_path h
  have hsucc : ∀ steps e, t.pathFrom (steps + 1) e [] = t.pathStep (t.pathFrom steps · []) e :=
    pathFrom_succ
  constructor
  · intro hpath
    funext e
    exact hr.eq (F := fun _ => path) (G := (t.pathFrom · · [])) (fun _ => hpath) hsucc trivial
      hreach hreach
  · rintro rfl e
    exact (hr.eq (F := (t.pathFrom · · [])) (G := (t.pathFrom · · [])) hsucc hsucc trivial hreach
      (Nat.lt_succ_of_lt hreach)).trans (hsucc t.reach e)

/-- The first entity is the type of a parameter in the path of the second. -/
def Mentions (t : Tables L T) (q e : EntityId) : Prop :=
  ∃ p ∈ t.path e, ∃ r ∈ p.params, r.entity = some q

/-- The mangled path of an entity needs those of the types that its path mentions. -/
theorem recursion_mangledPath (h : ∀ e, ¬TransGen t.Mentions e e) :
    SlotTable.Recursion t.entities (fun _ => True) t.Mentions
      fun pathText e => writeName pathText (t.path e) where
  closed _ _ := trivial
  live {_ e} _ hmem := by
    obtain ⟨p, hp, -⟩ := hmem
    rw [SlotTable.contains_iff, ← Option.ne_none_iff_exists']
    intro hnone
    rw [path_eq_nil_iff.2 (Or.inr hnone)] at hp
    cases hp
  reads _ hfg := writeName_congr (t.plain_path _) fun p hp r hr q hq => hfg q ⟨p, hp, r, hr, hq⟩
  acyclic _ := h _

/-- What paths mention has paths without parameters, so nothing is mentioned in its own path. -/
theorem not_transGen_mentions_of_flat (h : ∀ entry ∈ t.entities.toList, ∀ p ∈ t.path entry.1,
    ∀ r ∈ p.params, ∀ q ∈ r.entity, ∀ p ∈ t.path q, p.params = []) (e : EntityId) :
    ¬TransGen t.Mentions e e := by
  refine not_transGen_of_flat (fun a b c hab hbc => ?_) e
  obtain ⟨p, hp, r, hr, hb⟩ := hbc
  obtain ⟨p', hp', r', hr', -⟩ := hab
  cases hx : t.entities.get? c with
  | none =>
    rw [path_eq_nil_iff.2 (Or.inr hx)] at hp
    cases hp
  | some x =>
    rw [h (c, x) (SlotTable.mem_toList_iff.2 hx) p hp r hr b hb p' hp'] at hr'
    cases hr'

/-- Where no path mentions its own entity, not even through the paths of others, the mangled paths
are the only ones that paths allow. -/
theorem mangledPath_unique (h : ∀ e, ¬TransGen t.Mentions e e) (pathText : EntityId → List Char) :
    (∀ e, pathText e = writeName pathText (t.path e)) ↔ pathText = t.mangledPath t.reach := by
  have hreach : t.entities.slots.size < t.reach := Nat.lt_succ_self _
  have hr := recursion_mangledPath h
  have hsucc (d : Nat) (e : EntityId) :
      t.mangledPath (d + 1) e = writeName (t.mangledPath d) (t.path e) := rfl
  constructor
  · intro hpath
    funext e
    exact hr.eq (F := fun _ => pathText) (fun _ => hpath) hsucc trivial hreach hreach
  · rintro rfl e
    exact (hr.eq hsucc hsucc trivial hreach (Nat.lt_succ_of_lt hreach)).trans (hsucc t.reach e)

/-! ## Written names -/

/-- Every mangled name is derived, unless nothing is written at all. -/
theorem derives_mangle (t : Tables L T) (n : QualifiedName) :
    (t.mangle n = "" ∧ (n = [] ∨ n = [.simple "" []] ∨ n = [.pattern "" []])) ∨
      ∃ tree, nameTree (t.derivation t.reach) n = some tree ∧ tree.IsParameter ∧
        t.mangle n = String.ofList tree.written := by
  rw [mangle_eq]
  cases htree : nameTree (t.derivation t.reach) n with
  | none => exact Or.inl ⟨rfl, nameTree_eq_none.1 htree⟩
  | some tree =>
    exact Or.inr ⟨tree, rfl, isParameter_nameTree (t.isParameter_derivation _) n tree htree, rfl⟩

end Tables

namespace Session

/-- Where nothing is around itself and no path mentions its own entity, paths and mangled names are
as their parts demand, without a bound; and any name at all is mangled to a text that the grammar
derives. In whatever session the text is read, it is not called malformed. Unless the name is a lone
empty text, what comes out of it has the same number of parts, with the same texts, and as many
parameters in each as it had parameters or arguments, each taken in the same way. -/
theorem mangled_names_keep_shape {t : Tables L T} (howners : ∀ e, ¬TransGen t.Above e e)
    (hmentions : ∀ e, ¬TransGen t.Mentions e e) (n : QualifiedName) :
    (∀ path : EntityId → QualifiedName, (∀ e, path e = t.pathStep path e) ↔ path = t.path) ∧
    (∃ pathText : EntityId → List Char, t.mangle n = String.ofList (writeName pathText n) ∧
      ∀ other : EntityId → List Char,
        (∀ e, other e = writeName other (t.path e)) ↔ other = pathText) ∧
    (∃ tree : NameTree, tree.Derives (t.mangle n)) ∧
    ∀ (host : Host L T W) fuel s,
      (∀ f s', host.perform fuel (.readMangled (t.mangle n)) s = (.ok (.error f), s') →
        ¬f.IsMalformed) ∧
      (n ≠ [.simple "" []] → n ≠ [.pattern "" []] → ∀ m s',
        host.perform fuel (.readMangled (t.mangle n)) s = (.ok (.ok m), s') →
          List.Forall₂ NamePart.KeepsShape n m) := by
  refine ⟨Tables.path_unique howners, ⟨_, rfl, Tables.mangledPath_unique hmentions⟩, ?_, ?_⟩
  · rcases t.derives_mangle n with ⟨htext, -⟩ | ⟨tree, -, htree, htext⟩
    · exact ⟨.mk (.mk [] []) [], ⟨trivial, trivial⟩, by rw [htext]; rfl⟩
    · exact ⟨tree, htree.1, by rw [htext, String.toList_ofList]⟩
  · intro host fuel s
    simp only [perform_readMangled]
    rcases t.derives_mangle n with ⟨htext, hn⟩ | ⟨tree, hname, ⟨hproper, hne⟩, htext⟩
    · rw [htext]
      refine ⟨nofun, fun hlone hlone' m s' hrun => ?_⟩
      cases hrun
      obtain rfl := (hn.resolve_right (not_or.2 ⟨hlone, hlone'⟩))
      exact .nil
    · rw [htext, readMangled_written _ hproper hne]
      refine ⟨fun f s' hrun => ?_, fun _ _ m s' hrun => ?_⟩
      · exact (tree.lookupStops (run_attempt_eq_ok hrun)).not_isMalformed
          (replies_services host fuel)
      · exact forall₂_keepsShape hname (tree.fits_resolve _ _ _ _ (run_attempt_eq_ok hrun))

/-- A part whose parameters are a type, a released one, void and the root, and a pattern whose
second argument is the name of the root. -/
def patchwork : QualifiedName :=
  [.simple "f" [.value ⟨1, 0⟩, .reference ⟨2, 0⟩, .void, .reference rootEntity],
    .pattern "g\x01" [[.simple "Int" []], []]]

/-- The parameters that cannot be found again are read as void. -/
theorem patchwork_reads :
    (quietHost.perform 1 (.readMangled (forgetful.tables.mangle patchwork)) forgetful).1 =
      .ok (.ok [.simple "f" [.value ⟨1, 0⟩, ⟨none, true⟩, .void, ⟨none, true⟩],
        .simple "g\x01" [.value ⟨1, 0⟩, .void]]) := by
  decide +kernel

/-- The name has a derivation, and what is read from it has its shape, though with other
parameters. -/
theorem mangled_names_keep_shape_patchwork :
    (∃ tree : NameTree, tree.Derives (forgetful.tables.mangle patchwork)) ∧
      ∃ m, (quietHost.perform 1 (.readMangled (forgetful.tables.mangle patchwork)) forgetful).1 =
          .ok (.ok m) ∧ List.Forall₂ NamePart.KeepsShape patchwork m ∧
        m = [.simple "f" [.value ⟨1, 0⟩, ⟨none, true⟩, .void, ⟨none, true⟩],
          .simple "g\x01" [.value ⟨1, 0⟩, .void]] := by
  have howners : ∀ e, ¬TransGen forgetful.tables.Above e e :=
    Tables.not_transGen_above_of_flat (by decide +kernel)
  have hmentions : ∀ e, ¬TransGen forgetful.tables.Mentions e e :=
    Tables.not_transGen_mentions_of_flat (by decide +kernel)
  obtain ⟨-, -, hderives, hread⟩ := mangled_names_keep_shape howners hmentions patchwork
  refine ⟨hderives, _, patchwork_reads, ?_, rfl⟩
  have hrun : quietHost.perform 1 (.readMangled (forgetful.tables.mangle patchwork)) forgetful =
      (.ok (.ok [.simple "f" [.value ⟨1, 0⟩, ⟨none, true⟩, .void, ⟨none, true⟩],
          .simple "g\x01" [.value ⟨1, 0⟩, .void]]),
        (quietHost.perform 1 (.readMangled (forgetful.tables.mangle patchwork)) forgetful).2) := by
    rw [← patchwork_reads]
  exact (hread quietHost 1 forgetful).2 nofun nofun _ _ hrun

end Session

end NameResolution
