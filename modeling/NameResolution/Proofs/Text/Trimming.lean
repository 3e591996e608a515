import Mathlib.Data.List.TakeWhile
import Mathlib.Tactic.Common
import NameResolution.Text.Blank

/-!
# Trimmed texts

A text is trimmed if it neither begins nor ends with a blank. Trimming a text cuts blanks off
both ends and leaves a trimmed one (`exists_trim`), and it is the only trimmed text that
blanks can be cut off to leave, unless it is empty (`trim_append`, `trimmed_unique`).
-/

namespace NameResolution.Text

variable {text left middle right left' middle' right' : List Char}

/-- All characters are blank. -/
def Blank (text : List Char) : Prop :=
  ∀ c ∈ text, isBlank c = true

instance (text : List Char) : Decidable (Blank text) :=
  List.decidableBAll (isBlank · = true) text

/-- The text neither begins nor ends with a blank. -/
structure Trimmed (text : List Char) : Prop where
  head : ∀ c, text.head? = some c → isBlank c = false
  last : ∀ c, text.getLast? = some c → isBlank c = false

theorem blank_nil : Blank [] :=
  fun _ hc => absurd hc List.not_mem_nil

theorem trimmed_nil : Trimmed [] :=
  ⟨fun _ hc => absurd hc (by simp), fun _ hc => absurd hc (by simp)⟩

theorem Blank.reverse (h : Blank text) : Blank text.reverse :=
  fun c hc => h c (List.mem_reverse.1 hc)

theorem Trimmed.reverse (h : Trimmed text) : Trimmed text.reverse :=
  ⟨fun c hc => h.last c (by rwa [List.head?_reverse] at hc),
    fun c hc => h.head c (by rwa [List.getLast?_reverse] at hc)⟩

/-- What is left after the first blanks does not begin with one. -/
theorem dropWhile_isBlank_eq_self (h : ∀ c, text.head? = some c → isBlank c = false) :
    text.dropWhile isBlank = text := by
  cases text with
  | nil => rfl
  | cons c rest => simp [h c rfl]

theorem head?_dropWhile_isBlank {c : Char} (h : (text.dropWhile isBlank).head? = some c) :
    isBlank c = false := by
  have := List.head?_dropWhile_not isBlank text
  rw [h] at this
  simpa using this

/-- Trimming leaves a trimmed text between blanks. -/
theorem exists_trim (text : List Char) : ∃ left right, text = left ++ trim text ++ right ∧
    Blank left ∧ Blank right ∧ Trimmed (trim text) := by
  have hsplit (text : List Char) :
      text = text.takeWhile isBlank ++ text.dropWhile isBlank ∧
        Blank (text.takeWhile isBlank) :=
    ⟨List.takeWhile_append_dropWhile.symm, fun c hc => List.mem_takeWhile_imp hc⟩
  obtain ⟨hfirst, hleft⟩ := hsplit text
  obtain ⟨hsecond, hright⟩ := hsplit (text.dropWhile isBlank).reverse
  have hrest : text.dropWhile isBlank =
      trim text ++ ((text.dropWhile isBlank).reverse.takeWhile isBlank).reverse := by
    conv_lhs => rw [← List.reverse_reverse (text.dropWhile isBlank), hsecond]
    rw [List.reverse_append, trim]
  refine ⟨_, _, ?_, hleft, hright.reverse, ⟨fun c hc => ?_, fun c hc => ?_⟩⟩
  · rw [List.append_assoc, ← hrest]
    exact hfirst
  · -- The first character was the first one after the blanks already.
    have hfirst : (text.dropWhile isBlank).head? = some c := by
      rw [hrest, List.head?_append, hc, Option.some_or]
    exact head?_dropWhile_isBlank hfirst
  · rw [trim, List.getLast?_reverse] at hc
    exact head?_dropWhile_isBlank hc

/-- Trimming takes blanks away from around a trimmed text. -/
theorem trim_append (hleft : Blank left) (hm : Trimmed middle) (hright : Blank right) :
    trim (left ++ middle ++ right) = middle := by
  have hdrop {blanks rest : List Char} (hb : Blank blanks) :
      (blanks ++ rest).dropWhile isBlank = rest.dropWhile isBlank :=
    List.dropWhile_append_of_pos hb
  cases hmiddle : middle with
  | nil =>
    have hnil : (right.dropWhile isBlank) = [] := List.dropWhile_eq_nil_iff.2 hright
    rw [List.append_nil, trim, hdrop hleft, hnil]
    rfl
  | cons c rest =>
    rw [← hmiddle]
    have hmr : (middle ++ right).dropWhile isBlank = middle ++ right := by
      refine dropWhile_isBlank_eq_self fun d hd => hm.head d ?_
      rw [hmiddle] at hd ⊢
      exact hd
    rw [trim, List.append_assoc, hdrop hleft, hmr, List.reverse_append, hdrop hright.reverse,
      dropWhile_isBlank_eq_self hm.reverse.head, List.reverse_reverse]

theorem trim_eq_nil_iff : trim text = [] ↔ Blank text := by
  constructor
  · intro h
    obtain ⟨left, right, htext, hleft, hright, -⟩ := exists_trim text
    rw [h, List.append_nil] at htext
    intro c hc
    rw [htext, List.mem_append] at hc
    exact hc.elim (hleft c) (hright c)
  · intro h
    have := trim_append h trimmed_nil blank_nil
    rwa [List.append_nil, List.append_nil] at this

/-- Blanks around a trimmed text that is not empty are where they are. -/
theorem trimmed_unique (hleft : Blank left) (hleft' : Blank left') (hm : Trimmed middle)
    (hm' : Trimmed middle') (hright : Blank right) (hright' : Blank right') (hne : middle ≠ [])
    (h : left ++ middle ++ right = left' ++ middle' ++ right') :
    left = left' ∧ middle = middle' ∧ right = right' := by
  have hmiddle : middle = middle' := by
    rw [← trim_append hleft hm hright, h, trim_append hleft' hm' hright']
  subst hmiddle
  have htake {blanks rest : List Char} (hb : Blank blanks) :
      (blanks ++ middle ++ rest).takeWhile isBlank = blanks := by
    obtain ⟨c, cs, hc⟩ := List.exists_cons_of_ne_nil hne
    rw [List.append_assoc, List.takeWhile_append_of_pos hb, hc, List.cons_append,
      List.takeWhile_cons_of_neg (by simp [hm.head c (by rw [hc]; rfl)]), List.append_nil]
  have hl : left = left' := by rw [← htake hleft, h, htake hleft']
  subst hl
  rw [List.append_assoc, List.append_assoc, List.append_cancel_left_eq,
    List.append_cancel_left_eq] at h
  exact ⟨rfl, rfl, h⟩

end NameResolution.Text
