import NameResolution.Name
import NameResolution.Text.Blank

/-!
# Patterns

The richer written form of a name. A part may carry a group of arguments in parentheses, separated
by commas, and every argument is such a name again, with blanks around it that do not count:
`Rule(Expr, lang.Token).alt`. A group may be blank, an argument may not; a closed group is followed
by a dot or by the end.

`splitGroup` finds where the group that has just been opened is closed, and `splitTopLevel` cuts
what is inside it at the commas that belong to it. What both yield is shorter than what they are
given (`length_splitGroup`, `length_of_mem_splitTopLevel`), so reading ends.
-/

namespace NameResolution.Pattern

/-! ## Groups -/

/-- Splits the text after an opening parenthesis at the parenthesis that closes it, which is left
out. The counter is the number of groups opened since then and still open. -/
def splitGroup (depth : Nat) : List Char → Option (List Char × List Char)
  | [] => none
  | c :: rest =>
    if c = ')' then
      match depth with
      | 0 => some ([], rest)
      | depth + 1 => (splitGroup depth rest).map fun s => (c :: s.1, s.2)
    else if c = '(' then (splitGroup (depth + 1) rest).map fun s => (c :: s.1, s.2)
    else (splitGroup depth rest).map fun s => (c :: s.1, s.2)

/-- The number of open groups after one more character. -/
def depthAfter (depth : Nat) (c : Char) : Nat :=
  if c = '(' then depth + 1 else if c = ')' then depth - 1 else depth

/-- Cuts a text at the commas outside groups. -/
def splitTopLevel (depth : Nat) : List Char → List (List Char)
  | [] => [[]]
  | c :: rest =>
    if c = ',' ∧ depth = 0 then [] :: splitTopLevel depth rest
    else
      match splitTopLevel (depthAfter depth c) rest with
      | [] => [[c]]
      | p :: ps => (c :: p) :: ps

/-- A group and what follows it make up the text but for the closing parenthesis. -/
theorem length_splitGroup {depth : Nat} {text inside after : List Char}
    (h : splitGroup depth text = some (inside, after)) :
    inside.length + after.length + 1 = text.length := by
  fun_induction splitGroup depth text generalizing inside with
  | case1 => simp at h
  | case2 rest => simp_all
  | case3 depth rest ih =>
    obtain ⟨s, hs, he⟩ := Option.map_eq_some_iff.1 h
    obtain ⟨rfl, rfl⟩ := Prod.mk.inj he
    have := ih hs
    simp only [List.length_cons]
    omega
  | case4 depth rest hc ih =>
    obtain ⟨s, hs, he⟩ := Option.map_eq_some_iff.1 h
    obtain ⟨rfl, rfl⟩ := Prod.mk.inj he
    have := ih hs
    simp only [List.length_cons]
    omega
  | case5 depth c rest hc hc' ih =>
    obtain ⟨s, hs, he⟩ := Option.map_eq_some_iff.1 h
    obtain ⟨rfl, rfl⟩ := Prod.mk.inj he
    have := ih hs
    simp only [List.length_cons]
    omega

/-- No piece is longer than the text it is cut from. -/
theorem length_of_mem_splitTopLevel {depth : Nat} {text piece : List Char}
    (h : piece ∈ splitTopLevel depth text) : piece.length ≤ text.length := by
  fun_induction splitTopLevel depth text generalizing piece with
  | case1 => simp_all
  | case2 depth c rest hc ih =>
    rcases List.mem_cons.1 h with rfl | h
    · simp
    · exact Nat.le_succ_of_le (ih h)
  | case3 depth c rest hc heq ih => simp_all
  | case4 depth c rest hc p ps heq ih =>
    rw [heq] at ih
    rcases List.mem_cons.1 h with rfl | h
    · simpa using ih (List.mem_cons_self)
    · exact Nat.le_succ_of_le (ih (List.mem_cons_of_mem _ h))

/-! ## Reading -/

/-- Whether a character belongs to the text of a part wherever it stands outside a group. -/
def isPlain (c : Char) : Bool :=
  c != '.' && c != '(' && c != ')'

/-- Reads the parts of a name; the empty text is a part of its own. -/
def readParts (source : List Char) : Option QualifiedName :=
  let text := String.ofList (source.takeWhile isPlain)
  match _hr : source.dropWhile isPlain with
  | [] => some [.simple text []]
  | c :: rest =>
    if c = '.' then
      (readParts rest).map (.simple text [] :: ·)
    else if c = '(' then
      match _hg : splitGroup 0 rest with
      | none => none
      | some (inside, after) =>
        let arguments :=
          if (Text.trim inside).isEmpty then some []
          else (splitTopLevel 0 inside).attach.mapM fun ⟨piece, _⟩ =>
            if (Text.trim piece).isEmpty then none else readParts (Text.trim piece)
        match arguments, after with
        | some arguments, [] => some [.pattern text arguments]
        | some arguments, c :: after =>
          if c = '.' then (readParts after).map (.pattern text arguments :: ·) else none
        | none, _ => none
    else none
termination_by source.length
decreasing_by
  all_goals
    have hd := (List.dropWhile_suffix isPlain (l := source)).length_le
    rw [_hr, List.length_cons] at hd
  · omega
  · have hp := length_of_mem_splitTopLevel ‹piece ∈ _›
    have ht := Text.length_trim_le piece
    have hs := length_splitGroup _hg
    omega
  · have hs := length_splitGroup _hg
    simp only [List.length_cons] at hs
    omega

/-- Reads a name; the empty text is the root. -/
def read (source : List Char) : Option QualifiedName :=
  if source = [] then some QualifiedName.root else readParts source

end NameResolution.Pattern
