import NameResolution.Param

/-!
# Qualified names

A qualified name is a list of parts, and the empty list names the root. A simple part has a text
and a signature that picks one of the overloads of the text. A pattern part has a text and
arguments that are names themselves; the names become a signature when the part is looked up.

The text of a name is written over lists of characters (`NamePart.spell`), part by part;
`spellParts_eq_map` says that a name is spelled part for part.
-/

namespace NameResolution

/-- One part of a qualified name. -/
inductive NamePart where
  /-- A text with a signature. -/
  | simple (text : String) (params : List Param)
  /-- A text with arguments that are still names. -/
  | pattern (text : String) (arguments : List (List NamePart))

/-- A path of parts; the empty one names the root. -/
abbrev QualifiedName := List NamePart

/-! ## Equality -/

mutual

/-- Equality of parts is decided part by part. -/
def NamePart.decEq : (a b : NamePart) → Decidable (a = b)
  | .simple t ps, .simple u qs => decidable_of_iff (t = u ∧ ps = qs) (by simp)
  | .pattern t ns, .pattern u ms =>
    match NamePart.decEqNames ns ms with
    | isTrue h => decidable_of_iff (t = u) (by simp [h])
    | isFalse h => isFalse (by simp [h])
  | .simple .., .pattern .. => isFalse (by simp)
  | .pattern .., .simple .. => isFalse (by simp)

/-- Equality of names. -/
def NamePart.decEqParts : (a b : List NamePart) → Decidable (a = b)
  | [], [] => isTrue rfl
  | p :: ps, q :: qs =>
    match NamePart.decEq p q, NamePart.decEqParts ps qs with
    | isTrue h, isTrue k => isTrue (by simp [h, k])
    | isFalse h, _ => isFalse (by simp [h])
    | _, isFalse k => isFalse (by simp [k])
  | [], _ :: _ => isFalse (by simp)
  | _ :: _, [] => isFalse (by simp)

/-- Equality of lists of names. -/
def NamePart.decEqNames : (a b : List (List NamePart)) → Decidable (a = b)
  | [], [] => isTrue rfl
  | n :: ns, m :: ms =>
    match NamePart.decEqParts n m, NamePart.decEqNames ns ms with
    | isTrue h, isTrue k => isTrue (by simp [h, k])
    | isFalse h, _ => isFalse (by simp [h])
    | _, isFalse k => isFalse (by simp [k])
  | [], _ :: _ => isFalse (by simp)
  | _ :: _, [] => isFalse (by simp)

end

/-- Equality of parts is decidable. -/
instance : DecidableEq NamePart := NamePart.decEq

namespace NamePart

/-! ## Parts -/

/-- The text of a part. -/
def text : NamePart → String
  | simple text _ => text
  | pattern text _ => text

/-- The signature of a part; a pattern part has none yet. -/
def params : NamePart → List Param
  | simple _ params => params
  | pattern _ _ => []

/-! ## Spelling -/

/-- Pieces with `separator` between them. -/
def join (separator : String) (pieces : List (List Char)) : List Char :=
  List.intercalate separator.toList pieces

/-- Spelled parts with dots between them; no part at all is the root. -/
def joinParts : List (List Char) → List Char
  | [] => "<root>".toList
  | pieces => join "." pieces

mutual

/-- The spelling of a part. An empty signature is not written, an empty argument list is. -/
def spell : NamePart → List Char
  | simple text [] => text.toList
  | simple text params => text.toList ++ ['('] ++ join ", " (params.map Param.spell) ++ [')']
  | pattern text arguments => text.toList ++ ['('] ++ join ", " (spellNames arguments) ++ [')']

/-- The spellings of the parts of a name. -/
def spellParts : List NamePart → List (List Char)
  | [] => []
  | p :: ps => spell p :: spellParts ps

/-- The spellings of names. -/
def spellNames : List (List NamePart) → List (List Char)
  | [] => []
  | n :: ns => joinParts (spellParts n) :: spellNames ns

end

/-- A name is spelled part for part. -/
theorem spellParts_eq_map (n : List NamePart) : spellParts n = n.map spell := by
  induction n with
  | nil => rfl
  | cons p ps ih => simp [spellParts, ih]

/-- Names are spelled one by one. -/
theorem spellNames_eq_map (ns : List (List NamePart)) :
    spellNames ns = ns.map fun n => joinParts (n.map spell) := by
  induction ns with
  | nil => rfl
  | cons n ns ih => simp [spellNames, spellParts_eq_map, ih]

/-- The text of a part in messages. -/
def render (p : NamePart) : String :=
  String.ofList (spell p)

end NamePart

namespace QualifiedName

/-- The name of the root. -/
def root : QualifiedName := []

/-- Every part of the name has its signature already. -/
def Plain (n : QualifiedName) : Prop :=
  ∀ p ∈ n, ∃ text params, p = .simple text params

/-- The name without its last part; the root is its own parent. -/
def parent (n : QualifiedName) : QualifiedName :=
  n.dropLast

/-- The name without its first `k` parts. -/
def suffixFrom (n : QualifiedName) (k : Nat) : QualifiedName :=
  n.drop k

/-- The spelling of a name. -/
def spell (n : QualifiedName) : List Char :=
  NamePart.joinParts (n.map NamePart.spell)

/-- The text of a name in messages. -/
def render (n : QualifiedName) : String :=
  String.ofList (spell n)

end QualifiedName

end NameResolution
