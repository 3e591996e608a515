import Mathlib.Tactic.Common
import NameResolution.Name.Pattern

/-!
# Balanced texts

Two counters follow the parentheses of a pattern: one looks for the end of a group, and one looks
for the commas between arguments. `depthThrough` is the counter that both stand for. It has no
value after a parenthesis that closes nothing, so where it has one no counter has gone below zero.

A group ends where the text read so far is balanced (`splitGroup_append`, `splitGroup_eq_some`),
and does not end if the count stays defined to the end (`splitGroup_eq_none_iff`). In a balanced
text the second counter, which would stop at zero, counts the same (`foldl_depthAfter`), and the
commas at which it cuts are those outside of balanced pieces (`splitTopLevel_of_uncut`,
`splitTopLevel_append`, `uncut_or_cut`).
-/

namespace NameResolution.Pattern

variable {d j k : Nat} {a b text inside after : List Char}

/-! ## The counter -/

/-- The number of open groups after a text that begins inside `depth` of them, unless the text
closes one more than are open. -/
def depthThrough (depth : Nat) : List Char → Option Nat
  | [] => some depth
  | c :: rest =>
    if c = ')' then
      match depth with
      | 0 => none
      | depth + 1 => depthThrough depth rest
    else if c = '(' then depthThrough (depth + 1) rest
    else depthThrough depth rest

/-- The depth after a text goes on from the depth after its beginning. -/
theorem depthThrough_append :
    depthThrough d (a ++ b) = (depthThrough d a).bind fun k => depthThrough k b := by
  fun_induction depthThrough d a with
  | case1 => simp
  | case2 rest => simp [depthThrough]
  | case3 rest depth ih => simp [depthThrough, ih]
  | case4 depth rest hc ih => simp [depthThrough, ih]
  | case5 depth c rest hc hc' ih => simp [depthThrough, hc, hc', ih]

/-- More groups open before are as many more open after. -/
theorem depthThrough_add (h : depthThrough d a = some k) :
    depthThrough (d + j) a = some (k + j) := by
  fun_induction depthThrough d a with
  | case1 => simp_all [depthThrough]
  | case2 rest => simp at h
  | case3 rest depth ih =>
    rw [Nat.succ_add]
    simpa [depthThrough] using ih h
  | case4 depth rest hc ih =>
    rw [Nat.succ_add] at ih
    simpa [depthThrough] using ih h
  | case5 depth c rest hc hc' ih => simpa [depthThrough, hc, hc'] using ih h

/-- A counter that would stop at zero counts the same. -/
theorem foldl_depthAfter (h : depthThrough d a = some k) : a.foldl depthAfter d = k := by
  fun_induction depthThrough d a with
  | case1 => simpa using h
  | case2 rest => simp at h
  | case3 rest depth ih => simpa [depthAfter] using ih h
  | case4 depth rest hc ih => simpa [depthAfter] using ih h
  | case5 depth c rest hc hc' ih => simpa [depthAfter, hc, hc'] using ih h

/-- The count is defined all along a text at whose end it is. -/
theorem exists_depthThrough_left (h : depthThrough d (a ++ b) = some k) :
    ∃ j, depthThrough d a = some j ∧ depthThrough j b = some k := by
  rw [depthThrough_append] at h
  exact Option.bind_eq_some_iff.1 h

/-- A text without parentheses does not change the count. -/
theorem depthThrough_of_forall (h : ∀ c ∈ a, c ≠ '(' ∧ c ≠ ')') : depthThrough d a = some d := by
  induction a with
  | nil => rfl
  | cons c rest ih =>
    obtain ⟨hopen, hclose⟩ := h c List.mem_cons_self
    have := ih fun c hc => h c (List.mem_cons_of_mem _ hc)
    simpa [depthThrough, hopen, hclose] using this

/-- All groups that the text opens it closes, and no others. -/
def Balanced (text : List Char) : Prop :=
  depthThrough 0 text = some 0

/-- A balanced text leaves the depth as it was. -/
theorem Balanced.depthThrough (h : Balanced a) : depthThrough d a = some d := by
  simpa using depthThrough_add (j := d) h

theorem Balanced.append (ha : Balanced a) (hb : Balanced b) : Balanced (a ++ b) := by
  rw [Balanced, depthThrough_append, ha.depthThrough]
  exact hb

/-- A group around a balanced text is balanced. -/
theorem Balanced.group (h : Balanced a) : Balanced ('(' :: a ++ [')']) := by
  have hopen : Pattern.depthThrough 0 ('(' :: (a ++ [')'])) =
      Pattern.depthThrough 1 (a ++ [')']) := rfl
  rw [Balanced, List.cons_append, hopen, depthThrough_append, h.depthThrough]
  rfl

/-! ## The end of a group -/

/-- A group is closed after a balanced text. -/
theorem splitGroup_append (h : depthThrough d inside = some 0) :
    splitGroup d (inside ++ ')' :: after) = some (inside, after) := by
  fun_induction depthThrough d inside with
  | case1 => simp_all [splitGroup]
  | case2 rest => simp at h
  | case3 rest depth ih => simp [splitGroup, ih h]
  | case4 depth rest hc ih => simp [splitGroup, ih h]
  | case5 depth c rest hc hc' ih => simp [splitGroup, hc, hc', ih h]

/-- What is found in a group is balanced. -/
theorem splitGroup_eq_some (h : splitGroup d text = some (inside, after)) :
    text = inside ++ ')' :: after ∧ depthThrough d inside = some 0 := by
  fun_induction splitGroup d text generalizing inside with
  | case1 => simp at h
  | case2 rest =>
    obtain ⟨rfl, rfl⟩ := Prod.mk.inj (Option.some.inj h)
    exact ⟨rfl, rfl⟩
  | case3 rest depth ih | case4 depth rest hc ih =>
    obtain ⟨s, hs, he⟩ := Option.map_eq_some_iff.1 h
    obtain ⟨rfl, rfl⟩ := Prod.mk.inj he
    obtain ⟨htext, hinside⟩ := ih hs
    exact ⟨by rw [htext, List.cons_append], by simpa [depthThrough] using hinside⟩
  | case5 depth c rest hc hc' ih =>
    obtain ⟨s, hs, he⟩ := Option.map_eq_some_iff.1 h
    obtain ⟨rfl, rfl⟩ := Prod.mk.inj he
    obtain ⟨htext, hinside⟩ := ih hs
    exact ⟨by rw [htext, List.cons_append], by simpa [depthThrough, hc, hc'] using hinside⟩

/-- A group is not closed if the count is defined to the end of the text. -/
theorem splitGroup_eq_none_iff : splitGroup d text = none ↔ ∃ k, depthThrough d text = some k := by
  fun_induction splitGroup d text with
  | case1 => simp [depthThrough]
  | case2 rest => simp [depthThrough]
  | case3 rest depth ih => simpa [depthThrough] using ih
  | case4 depth rest hc ih => simpa [depthThrough] using ih
  | case5 depth c rest hc hc' ih => simpa [depthThrough, hc, hc'] using ih

/-! ## Commas outside groups -/

/-- No comma of a text that begins inside `depth` groups stands outside groups. -/
def Uncut (depth : Nat) : List Char → Prop
  | [] => True
  | c :: rest => ¬(c = ',' ∧ depth = 0) ∧ Uncut (depthAfter depth c) rest

/-- A text is uncut if its beginning is, and the rest is from the depth that the beginning leads
to. -/
theorem uncut_append : Uncut d (a ++ b) ↔ Uncut d a ∧ Uncut (a.foldl depthAfter d) b := by
  induction a generalizing d with
  | nil => simp [Uncut]
  | cons c rest ih => simp [Uncut, ih, and_assoc]

/-- A text without commas has none outside groups. -/
theorem uncut_of_not_mem (h : ',' ∉ a) : Uncut d a := by
  induction a generalizing d with
  | nil => trivial
  | cons c rest ih =>
    obtain ⟨hc, hrest⟩ := not_or.1 (List.mem_cons.not.1 h)
    exact ⟨fun h => hc h.1.symm, ih hrest⟩

/-- Inside a group that the text does not close no comma is outside groups. -/
theorem uncut_of_depthThrough (h : depthThrough d a = some k) : Uncut (d + 1) a := by
  fun_induction depthThrough d a with
  | case1 => trivial
  | case2 rest => simp at h
  | case3 rest depth ih => exact ⟨by simp, by simpa [depthAfter] using ih h⟩
  | case4 depth rest hc ih => exact ⟨by simp, by simpa [depthAfter] using ih h⟩
  | case5 depth c rest hc hc' ih => exact ⟨by simp, by simpa [depthAfter, hc, hc'] using ih h⟩

/-- The commas of a group around a balanced text are inside of it. -/
theorem Balanced.uncut_group (h : Balanced a) : Uncut 0 ('(' :: a ++ [')']) := by
  refine ⟨by simp, uncut_append.2 ⟨uncut_of_depthThrough h, ?_⟩⟩
  exact uncut_of_not_mem (by simp)

theorem Balanced.uncut_append (h : Balanced a) : Uncut 0 (a ++ b) ↔ Uncut 0 a ∧ Uncut 0 b := by
  rw [Pattern.uncut_append, foldl_depthAfter h]

/-- A text without commas outside groups is one piece. -/
theorem splitTopLevel_of_uncut (h : Uncut d a) : splitTopLevel d a = [a] := by
  induction a generalizing d with
  | nil => rfl
  | cons c rest ih => rw [splitTopLevel, if_neg h.1, ih h.2]

/-- The first comma outside groups ends the first piece. -/
theorem splitTopLevel_append (h : Uncut d a) (hd : a.foldl depthAfter d = 0) :
    splitTopLevel d (a ++ ',' :: b) = a :: splitTopLevel 0 b := by
  induction a generalizing d with
  | nil =>
    rw [List.foldl_nil] at hd
    rw [hd, List.nil_append, splitTopLevel, if_pos ⟨rfl, rfl⟩]
  | cons c rest ih =>
    rw [List.cons_append, splitTopLevel, if_neg h.1, ih h.2 hd]

theorem splitTopLevel_ne_nil : splitTopLevel d text ≠ [] := by
  fun_cases splitTopLevel d text <;> simp

/-- A text has a first comma outside groups, with balanced texts around it, or none. -/
theorem uncut_or_cut (h : depthThrough d text = some 0) : Uncut d text ∨
    ∃ a b, text = a ++ ',' :: b ∧ Uncut d a ∧ depthThrough d a = some 0 ∧ Balanced b := by
  fun_induction depthThrough d text with
  | case1 => exact Or.inl trivial
  | case2 rest => simp at h
  | case3 rest depth ih =>
    rcases ih h with h | ⟨a, b, rfl, ha, hd, hb⟩
    · exact Or.inl ⟨by simp, by simpa [depthAfter] using h⟩
    · exact Or.inr ⟨')' :: a, b, rfl, ⟨by simp, by simpa [depthAfter] using ha⟩, hd, hb⟩
  | case4 depth rest hc ih =>
    rcases ih h with h | ⟨a, b, rfl, ha, hd, hb⟩
    · exact Or.inl ⟨by simp, by simpa [depthAfter] using h⟩
    · exact Or.inr ⟨'(' :: a, b, rfl, ⟨by simp, by simpa [depthAfter] using ha⟩, hd, hb⟩
  | case5 depth c rest hc hc' ih =>
    by_cases hcut : c = ',' ∧ depth = 0
    · obtain ⟨rfl, rfl⟩ := hcut
      exact Or.inr ⟨[], rest, rfl, trivial, rfl, h⟩
    rcases ih h with h | ⟨a, b, rfl, ha, hd, hb⟩
    · exact Or.inl ⟨hcut, by simpa [depthAfter, hc, hc'] using h⟩
    · exact Or.inr ⟨c :: a, b, rfl, ⟨hcut, by simpa [depthAfter, hc, hc'] using ha⟩,
        by simpa [depthThrough, hc, hc'] using hd, hb⟩

end NameResolution.Pattern
