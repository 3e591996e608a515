import Mathlib.Tactic.Common
import NameResolution.Mangled.Writer
import NameResolution.Proofs.Mangled.Grammar

/-!
# What is written is derived

A written name is derived by the grammar, whatever its parts and the types of its
parameters are : texts are escaped, a group is never empty, and a type whose path is
written as nothing takes the place of void (`paramSlot`). `Tables.derivation` is the
derivation of the mangled path of an entity; an entity whose path is written as nothing has
none.
-/

namespace NameResolution

namespace Mangled

/-! ## Names whose types are derived -/

/-- The letters of a text, its sentinels escaped. -/
def letters (text : String) : List Letter :=
  text.toList.map fun c =>
    if h : isSentinel c = true then .escaped c else .plain c (by simpa using h)

/-- The letters of a text write it with its escapes. -/
theorem written_letters (text : String) :
    (letters text).flatMap Letter.written = writeText text := by
  rw [letters, writeText, List.flatMap_map]
  congr 1
  funext c
  by_cases h : isSentinel c = true <;> simp [h, Letter.written]

theorem meaning_letters (text : String) : meaning (letters text) = text := by
  have hmeaning : Letter.meaning ∘ (fun c => if h : isSentinel c = true then Letter.escaped c
      else .plain c (by simpa using h)) = id := by
    funext c
    by_cases h : isSentinel c = true <;> simp [h, Letter.meaning]
  rw [meaning, letters, List.map_map, hmeaning, List.map_id, String.ofList_toList]

/-- The text of a derivation; nothing is written where there is none. -/
def textOf : Option NameTree → List Char
  | none => []
  | some tree => tree.written

/-- The slot of a name; where there is none, it is void. -/
def slotOf (byReference : Bool) : Option NameTree → SlotTree
  | none => .void byReference
  | some name => .named byReference name

/-- The name with these parts, unless nothing is written for it. -/
def nameOf : List PartTree → Option NameTree
  | [] => none
  | first :: rest =>
    if (NameTree.mk first rest).written = [] then none else some (.mk first rest)

/-- The slot of a parameter, with the derivation of its type. -/
def paramSlot (derivation : EntityId → Option NameTree) (p : Param) : SlotTree :=
  slotOf p.byReference (p.entity.bind derivation)

mutual

/-- The part that is written, with the derivations of the types of its parameters. -/
def partTree (derivation : EntityId → Option NameTree) : NamePart → PartTree
  | .simple text params => .mk (letters text) (params.map (paramSlot derivation))
  | .pattern text arguments => .mk (letters text) (argumentSlots derivation arguments)

/-- The parts that are written. -/
def partTrees (derivation : EntityId → Option NameTree) : List NamePart → List PartTree
  | [] => []
  | p :: ps => partTree derivation p :: partTrees derivation ps

/-- The slots of arguments, each taken by value. -/
def argumentSlots (derivation : EntityId → Option NameTree) : List (List NamePart) → List SlotTree
  | [] => []
  | n :: ns => slotOf false (nameOf (partTrees derivation n)) :: argumentSlots derivation ns

end

/-- The derivation of a written name. -/
def nameTree (derivation : EntityId → Option NameTree) (n : QualifiedName) : Option NameTree :=
  nameOf (n.map (partTree derivation))

theorem written_slotOf (byReference : Bool) (name : Option NameTree) :
    (slotOf byReference name).written = separator byReference :: textOf name := by
  cases name <;> rfl

theorem textOf_nameOf (parts : List PartTree) :
    textOf (nameOf parts) = List.intercalate [dot] (parts.map PartTree.written) := by
  cases parts with
  | nil => rfl
  | cons first rest =>
    have hrest (first : List Char) : first ++ restText rest =
        List.intercalate [dot] (first :: rest.map PartTree.written) := by
      induction rest generalizing first with
      | nil => simp [restText]
      | cons p ps ih => simp [restText, ← ih, List.intercalate_cons_cons]
    rw [nameOf]
    split
    · rename_i h
      rw [List.map_cons, ← hrest]
      exact h.symm
    · exact hrest _

theorem group_slotsText_eq (slots : List SlotTree) :
    group (slotsText slots) = writeGroup (slots.map SlotTree.written) := by
  cases slots with
  | nil => rfl
  | cons slot slots =>
    rw [group_slotsText, slotsText_eq_flatMap, List.flatMap_def]
    rfl

section

variable {derivation : EntityId → Option NameTree} {pathText : EntityId → List Char}

/-- The slot of a parameter is written as the parameter is. -/
theorem written_paramSlot (hd : ∀ e, pathText e = textOf (derivation e)) (p : Param) :
    (paramSlot derivation p).written = writeParam pathText p := by
  rw [paramSlot, written_slotOf, writeParam]
  cases p.entity with
  | none => rfl
  | some e => exact congrArg _ (hd e).symm

mutual

/-- The derivation of a part is written as the part is. -/
theorem written_partTree (hd : ∀ e, pathText e = textOf (derivation e)) :
    ∀ p : NamePart, (partTree derivation p).written = writePart pathText p
  | .simple text params => by
    rw [partTree, PartTree.written, written_letters, group_slotsText_eq, List.map_map, writePart]
    congr 2
    exact List.map_congr_left fun p _ => written_paramSlot hd p
  | .pattern text arguments => by
    rw [partTree, PartTree.written, written_letters, group_slotsText_eq, writePart,
      written_argumentSlots hd arguments]

theorem written_partTrees (hd : ∀ e, pathText e = textOf (derivation e)) :
    ∀ ps : List NamePart, (partTrees derivation ps).map PartTree.written = writeParts pathText ps
  | [] => rfl
  | p :: ps => by
    rw [partTrees, List.map_cons, written_partTree hd p, written_partTrees hd ps, writeParts]

theorem written_argumentSlots (hd : ∀ e, pathText e = textOf (derivation e)) :
    ∀ ns : List (List NamePart),
      (argumentSlots derivation ns).map SlotTree.written = writeArguments pathText ns
  | [] => rfl
  | n :: ns => by
    rw [argumentSlots, List.map_cons, written_slotOf, textOf_nameOf, written_partTrees hd n,
      written_argumentSlots hd ns, writeArguments]
    rfl

end

/-- The derivation of a name is written as the name is. -/
theorem textOf_nameTree (hd : ∀ e, pathText e = textOf (derivation e)) (n : QualifiedName) :
    textOf (nameTree derivation n) = writeName pathText n := by
  rw [nameTree, textOf_nameOf, List.map_map, writeName]
  congr 1
  exact List.map_congr_left fun p _ => written_partTree hd p

/-! ## Properness -/

/-- The derivation of a name that a parameter can have. -/
def NameTree.IsParameter (tree : NameTree) : Prop :=
  tree.Proper ∧ tree.written ≠ []

/-- The text of a parameter has one derivation at most. -/
theorem textOf_injective {a b : Option NameTree} (ha : ∀ tree ∈ a, tree.IsParameter)
    (hb : ∀ tree ∈ b, tree.IsParameter) (h : textOf a = textOf b) : a = b := by
  cases a with
  | none =>
    cases b with
    | none => rfl
    | some tree => exact absurd h.symm (hb tree rfl).2
  | some tree =>
    cases b with
    | none => exact absurd h (ha tree rfl).2
    | some tree' => rw [NameTree.written_injective (ha tree rfl).1 (hb tree' rfl).1 h]

theorem isParameter_nameOf {parts : List PartTree} (hp : ∀ p ∈ parts, p.Proper) :
    ∀ tree ∈ nameOf parts, tree.IsParameter := by
  intro tree htree
  cases parts with
  | nil => cases htree
  | cons first rest =>
    rw [List.forall_mem_cons] at hp
    rw [nameOf] at htree
    split at htree
    · cases htree
    · rename_i hne
      cases htree
      exact ⟨⟨hp.1, properRest_iff.2 hp.2⟩, hne⟩

theorem proper_slotOf {byReference : Bool} {name : Option NameTree}
    (h : ∀ tree ∈ name, tree.IsParameter) : (slotOf byReference name).Proper := by
  cases name with
  | none => trivial
  | some tree => exact h tree rfl

mutual

theorem proper_partTree (hd : ∀ e, ∀ tree ∈ derivation e, tree.IsParameter) :
    ∀ p : NamePart, (partTree derivation p).Proper
  | .simple text params => by
    refine properSlots_iff.2 fun slot hslot => ?_
    obtain ⟨p, -, rfl⟩ := List.mem_map.1 hslot
    refine proper_slotOf fun tree htree => ?_
    obtain ⟨e, -, he⟩ := Option.bind_eq_some_iff.1 htree
    exact hd e tree he
  | .pattern text arguments => properSlots_iff.2 (proper_argumentSlots hd arguments)

theorem proper_partTrees (hd : ∀ e, ∀ tree ∈ derivation e, tree.IsParameter) :
    ∀ ps : List NamePart, ∀ p ∈ partTrees derivation ps, p.Proper
  | [] => by simp [partTrees]
  | p :: ps => by
    rw [partTrees, List.forall_mem_cons]
    exact ⟨proper_partTree hd p, proper_partTrees hd ps⟩

theorem proper_argumentSlots (hd : ∀ e, ∀ tree ∈ derivation e, tree.IsParameter) :
    ∀ ns : List (List NamePart), ∀ s ∈ argumentSlots derivation ns, s.Proper
  | [] => by simp [argumentSlots]
  | n :: ns => by
    rw [argumentSlots, List.forall_mem_cons]
    exact ⟨proper_slotOf (isParameter_nameOf (proper_partTrees hd n)), proper_argumentSlots hd ns⟩

end

/-- The derivation of a name can stand for a parameter. -/
theorem isParameter_nameTree (hd : ∀ e, ∀ tree ∈ derivation e, tree.IsParameter)
    (n : QualifiedName) : ∀ tree ∈ nameTree derivation n, tree.IsParameter := by
  refine isParameter_nameOf fun p hp => ?_
  obtain ⟨q, -, rfl⟩ := List.mem_map.1 hp
  exact proper_partTree hd q

theorem written_eq_nil {text : List Letter} {slots : List SlotTree} {rest : List PartTree} :
    (NameTree.mk (.mk text slots) rest).written = [] ↔ text = [] ∧ slots = [] ∧ rest = [] := by
  constructor
  · intro h
    cases text with
    | cons l ls => cases l <;> cases h
    | nil =>
      cases slots with
      | cons slot slots =>
        rw [NameTree.written, PartTree.written, group_slotsText] at h
        cases h
      | nil =>
        cases rest with
        | cons p ps => cases h
        | nil => exact ⟨rfl, rfl, rfl⟩
  · rintro ⟨rfl, rfl, rfl⟩
    rfl

theorem letters_eq_nil {text : String} : letters text = [] ↔ text = "" := by
  rw [letters, List.map_eq_nil_iff, String.toList_eq_nil_iff]

/-- Only the root's name and a lone empty text are written as nothing. -/
theorem nameTree_eq_none {n : QualifiedName} :
    nameTree derivation n = none ↔ n = [] ∨ n = [.simple "" []] ∨ n = [.pattern "" []] := by
  rcases n with _ | ⟨p, ps⟩
  · simp [nameTree, nameOf]
  · rw [nameTree, List.map_cons, nameOf]
    rcases p with ⟨text, params⟩ | ⟨text, arguments⟩
    · simp [partTree, written_eq_nil, letters_eq_nil, and_assoc]
    · have harguments : argumentSlots derivation arguments = [] ↔ arguments = [] := by
        cases arguments <;> simp [argumentSlots]
      simp [partTree, written_eq_nil, letters_eq_nil, harguments, and_assoc]

/-- Only the empty name and that of a lone empty text have no derivation. -/
theorem nameTree_eq_none_of_plain {n : QualifiedName} (hn : n.Plain) :
    nameTree derivation n = none ↔ n = [] ∨ n = [.simple "" []] := by
  have hpattern : n ≠ [.pattern "" []] := by
    rintro rfl
    obtain ⟨text, params, hp⟩ := hn _ (List.mem_singleton_self _)
    cases hp
  simp [nameTree_eq_none, hpattern]

end

end Mangled

namespace Tables

variable {L T : Type}

/-- The derivation of the mangled path of an entity, its parameters nested at most so deep. -/
def derivation (t : Tables L T) : Nat → EntityId → Option Mangled.NameTree
  | 0, _ => none
  | depth + 1, e => Mangled.nameTree (t.derivation depth) (t.path e)

/-- The mangled path of an entity is the text of its derivation. -/
theorem mangledPath_eq (t : Tables L T) (depth : Nat) (e : EntityId) :
    t.mangledPath depth e = Mangled.textOf (t.derivation depth e) := by
  induction depth generalizing e with
  | zero => rfl
  | succ depth ih => rw [mangledPath, derivation, Mangled.textOf_nameTree ih]

theorem isParameter_derivation (t : Tables L T) (depth : Nat) (e : EntityId) :
    ∀ tree ∈ t.derivation depth e, tree.IsParameter := by
  induction depth generalizing e with
  | zero => exact fun _ => nofun
  | succ depth ih => exact Mangled.isParameter_nameTree ih (t.path e)

/-- The mangled name is derived. -/
theorem mangle_eq (t : Tables L T) (n : QualifiedName) :
    t.mangle n = String.ofList (Mangled.textOf (Mangled.nameTree (t.derivation t.reach) n)) := by
  rw [mangle, Mangled.textOf_nameTree (t.mangledPath_eq t.reach)]

end Tables

end NameResolution
