import Mathlib.Data.List.Induction
import NameResolution.Proofs.Pattern.Balance

/-!
# Counting parentheses

A group is closed by the first parenthesis at which a text has closed as many as it opened, and an
argument ends at a comma before which that is so. Both say how often two characters occur; the
counters of `splitGroup` and `splitTopLevel` are read against these numbers.

A count is defined at the end of a text iff no prefix closes more than it opens, and it is the
difference of the two (`depthThrough_eq_some_iff`). After an opening parenthesis the two numbers
meet for the first time where one more is closed than opened, since a character changes one of them
by one (`forall_not_level_cons_iff`). So the group that `splitGroup` finds is `Closing`, and the
text inside is balanced.

In a balanced text the counter of `splitTopLevel` is the difference at every prefix, and pieces
joined by commas are the text (`intercalate_splitTopLevel`). A comma before which the numbers are
equal is a cut (`splitTopLevel_cut`); before any other cut there are balanced pieces, so the numbers
are equal there (`Balanced.intercalate`).

* `search` : the search for the end of a group with a subtraction that can fail, and byte offsets;
* `search_eq` : it finds the end that `splitGroup` finds, and the subtraction does not fail;
* `groups_close` : what a found group is, and how the text inside of it is cut.
-/

namespace NameResolution.Pattern

variable {d k : Nat} {a b p text inside after rest : List Char}

/-! ## The numbers of parentheses -/

/-- A text closes as many parentheses as it opens. -/
def Level (text : List Char) : Prop :=
  text.count '(' = text.count ')'

instance (text : List Char) : Decidable (Level text) :=
  inferInstanceAs (Decidable (text.count '(' = text.count ')'))

/-- The count is what is opened less what is closed. -/
theorem count_of_depthThrough (h : depthThrough d text = some k) :
    d + text.count '(' = k + text.count ')' := by
  fun_induction depthThrough d text with
  | case1 depth => simpa using h
  | case2 rest => simp at h
  | case3 rest depth ih =>
    have := ih h
    simp only [List.count_cons_self, List.count_cons_of_ne (show ')' ≠ '(' by decide)]
    omega
  | case4 depth rest hc ih =>
    have := ih h
    simp only [List.count_cons_self, List.count_cons_of_ne (show '(' ≠ ')' by decide)]
    omega
  | case5 depth c rest hc hc' ih =>
    rw [List.count_cons_of_ne hc, List.count_cons_of_ne hc']
    exact ih h

/-- The count is defined if no prefix closes more than is open. -/
theorem exists_depthThrough (h : ∀ p, p <+: text → p.count ')' ≤ d + p.count '(') :
    ∃ k, depthThrough d text = some k := by
  fun_induction depthThrough d text with
  | case1 depth => exact ⟨depth, rfl⟩
  | case2 rest => simpa using h [')'] (by simp)
  | case3 rest depth ih =>
    refine ih fun p hp => ?_
    have := h (')' :: p) (by simpa using hp)
    simp only [List.count_cons_self, List.count_cons_of_ne (show ')' ≠ '(' by decide)] at this
    omega
  | case4 depth rest hc ih =>
    refine ih fun p hp => ?_
    have := h ('(' :: p) (by simpa using hp)
    simp only [List.count_cons_self, List.count_cons_of_ne (show '(' ≠ ')' by decide)] at this
    omega
  | case5 depth c rest hc hc' ih =>
    refine ih fun p hp => ?_
    have := h (c :: p) (by simpa using hp)
    rwa [List.count_cons_of_ne hc, List.count_cons_of_ne hc'] at this

/-- There is a depth after a text if no beginning closes more than is open, and it is what is left
open. -/
theorem depthThrough_eq_some_iff :
    depthThrough d text = some k ↔
      (∀ p, p <+: text → p.count ')' ≤ d + p.count '(') ∧
        d + text.count '(' = k + text.count ')' := by
  constructor
  · intro h
    refine ⟨?_, count_of_depthThrough h⟩
    rintro p ⟨q, rfl⟩
    obtain ⟨j, hj, -⟩ := exists_depthThrough_left h
    have := count_of_depthThrough hj
    omega
  · rintro ⟨hp, hk⟩
    obtain ⟨j, hj⟩ := exists_depthThrough hp
    have := count_of_depthThrough hj
    rw [hj, show j = k by omega]

/-- A text is balanced if no beginning closes more than it opens, and the whole opens what it
closes. -/
theorem balanced_iff :
    Balanced text ↔ (∀ p, p <+: text → p.count ')' ≤ p.count '(') ∧ Level text := by
  simp [Balanced, depthThrough_eq_some_iff, Level]

theorem Balanced.level (h : Balanced text) : Level text :=
  (balanced_iff.1 h).2

/-- After an opening parenthesis the numbers are equal again iff one more is closed than opened. -/
theorem forall_not_level_cons_iff :
    (∀ p, p <+: '(' :: text → p ≠ [] → ¬Level p) ↔
      ∀ p, p <+: text → p.count ')' ≤ p.count '(' := by
  constructor
  · intro h p
    induction p using List.reverseRecOn with
    | nil => simp
    | append_singleton p c ih =>
      intro hp
      have hp' := ih ((List.prefix_append p [c]).trans hp)
      have hc := h ('(' :: (p ++ [c])) (by simpa using hp) (by simp)
      have hone : [c].count ')' ≤ 1 := List.count_le_length
      simp only [Level, List.count_cons_self, List.count_cons_of_ne (show '(' ≠ ')' by decide),
        List.count_append] at hc hp' ⊢
      omega
  · intro h p hp hne hlevel
    obtain ⟨q, rfl, hq⟩ : ∃ q, p = '(' :: q ∧ q <+: text := by
      rcases List.prefix_cons_iff.1 hp with rfl | h
      · exact absurd rfl hne
      · exact h
    have := h q hq
    simp only [Level, List.count_cons_self, List.count_cons_of_ne (show '(' ≠ ')' by decide)]
      at hlevel
    omega

/-! ## The end of a group -/

/-- The group opened before `rest` is closed by the first parenthesis with which the text is
level. -/
structure Closing (rest inside after : List Char) : Prop where
  text : rest = inside ++ ')' :: after
  level : Level ('(' :: inside ++ [')'])
  first : ∀ p, p <+: '(' :: inside → p ≠ [] → ¬Level p

/-- A group is closed as soon as the text is level iff the text inside is balanced. -/
theorem closing_iff :
    Closing rest inside after ↔ rest = inside ++ ')' :: after ∧ Balanced inside := by
  have hlevel : Level ('(' :: inside ++ [')']) ↔ Level inside := by
    simp [Level, List.count_append]
  rw [balanced_iff, ← forall_not_level_cons_iff, ← hlevel]
  exact ⟨fun h => ⟨h.text, h.first, h.level⟩, fun h => ⟨h.1, h.2.2, h.2.1⟩⟩

/-- A group is split off where the parentheses balance first. -/
theorem splitGroup_eq_some_iff :
    splitGroup 0 rest = some (inside, after) ↔ Closing rest inside after := by
  rw [closing_iff]
  refine ⟨splitGroup_eq_some, ?_⟩
  rintro ⟨rfl, h⟩
  exact splitGroup_append h

/-- No group is split off just in case the parentheses never balance. -/
theorem splitGroup_eq_none_iff_level :
    splitGroup 0 rest = none ↔ ∀ p, p <+: '(' :: rest → p ≠ [] → ¬Level p := by
  rw [splitGroup_eq_none_iff, forall_not_level_cons_iff]
  constructor
  · rintro ⟨k, hk⟩
    simpa using (depthThrough_eq_some_iff.1 hk).1
  · intro h
    exact exists_depthThrough (by simpa using h)

/-- How the search for the end of a group ends. -/
inductive Search
  | underflow
  | unmatched
  | found (offset : Nat)
  deriving DecidableEq, Repr

/-- Searches the end of the outermost open group, and counts the bytes on the way. The counter is
the number of all groups that are open; to close a group while none is open is an underflow. -/
def search (depth offset : Nat) : List Char → Search
  | [] => .unmatched
  | c :: rest =>
    if c = ')' then
      match depth with
      | 0 => .underflow
      | 1 => .found offset
      | depth + 2 => search (depth + 1) (offset + c.utf8Size) rest
    else if c = '(' then search (depth + 1) (offset + c.utf8Size) rest
    else search depth (offset + c.utf8Size) rest

/-- The offset at which a group ends that was opened before `offset`. -/
def Search.ofSplit (offset : Nat) : Option (List Char × List Char) → Search
  | none => .unmatched
  | some (inside, _) => .found (offset + (String.ofList inside).utf8ByteSize)

theorem Search.ofSplit_map (offset : Nat) (c : Char) (split : Option (List Char × List Char)) :
    ofSplit offset (split.map fun s => (c :: s.1, s.2)) = ofSplit (offset + c.utf8Size) split := by
  cases split with
  | none => rfl
  | some s => simp [ofSplit, String.ofList_cons, Nat.add_assoc]

/-- Inside a group the search goes the way of `splitGroup`, whose counter is less by one. -/
theorem search_eq (offset : Nat) :
    search (d + 1) offset rest = Search.ofSplit offset (splitGroup d rest) := by
  fun_induction splitGroup d rest generalizing offset with
  | case1 => rfl
  | case2 rest => simp [search, Search.ofSplit]
  | case3 rest depth ih => simp [search, ih, Search.ofSplit_map]
  | case4 depth rest hc ih => simp [search, ih, Search.ofSplit_map]
  | case5 depth c rest hc hc' ih => simp [search, hc, hc', ih, Search.ofSplit_map]

/-! ## Commas outside groups -/

/-- No comma of a text is outside groups iff the counter is not zero before any. -/
theorem uncut_iff : Uncut d text ↔ ∀ a b, text = a ++ ',' :: b → a.foldl depthAfter d ≠ 0 := by
  induction text generalizing d with
  | nil => simp [Uncut]
  | cons c rest ih =>
    simp only [Uncut, ih]
    constructor
    · rintro ⟨hc, hrest⟩ a b h
      rcases List.cons_eq_append_iff.1 h with ⟨rfl, h⟩ | ⟨a, rfl, h⟩
      · obtain ⟨rfl, -⟩ := List.cons.inj h
        exact fun hd => hc ⟨rfl, hd⟩
      · exact hrest a b (List.cons.inj h).2
    · intro h
      refine ⟨?_, fun a b hrest => h (c :: a) b (by rw [hrest, List.cons_append])⟩
      rintro ⟨rfl, hd⟩
      exact h [] rest rfl hd

/-- The pieces with the commas between them are the text. -/
theorem intercalate_splitTopLevel : List.intercalate [','] (splitTopLevel d text) = text := by
  fun_induction splitTopLevel d text with
  | case1 => rfl
  | case2 depth c rest hc ih =>
    obtain ⟨rfl, rfl⟩ := hc
    rw [List.intercalate_cons_of_ne_nil splitTopLevel_ne_nil, ih]
    rfl
  | case3 depth c rest hc heq ih => exact absurd heq splitTopLevel_ne_nil
  | case4 depth c rest hc p ps heq ih =>
    rw [heq] at ih
    cases ps with
    | nil => simpa using ih
    | cons q ps =>
      rw [List.intercalate_cons_of_ne_nil (by simp)] at ih ⊢
      rw [← ih]
      rfl

/-- A comma before which no group is open is a cut. -/
theorem splitTopLevel_cut (h : a.foldl depthAfter d = 0) :
    splitTopLevel d (a ++ ',' :: b) = splitTopLevel d a ++ splitTopLevel 0 b := by
  induction a generalizing d with
  | nil =>
    rw [List.foldl_nil] at h
    subst h
    simp [splitTopLevel]
  | cons c rest ih =>
    by_cases hc : c = ',' ∧ d = 0
    · obtain ⟨rfl, rfl⟩ := hc
      have hrest : splitTopLevel 0 (rest ++ ',' :: b) = splitTopLevel 0 rest ++ splitTopLevel 0 b :=
        ih h
      simp [splitTopLevel, hrest]
    · obtain ⟨p, ps, hrest⟩ : ∃ p ps, splitTopLevel (depthAfter d c) rest = p :: ps :=
        List.exists_cons_of_ne_nil splitTopLevel_ne_nil
      simp only [List.cons_append, splitTopLevel, if_neg hc, ih h, hrest]

/-- The pieces of a balanced text are balanced and uncut. -/
theorem Balanced.of_mem_splitTopLevel {text piece : List Char} (h : Balanced text)
    (hp : piece ∈ splitTopLevel 0 text) : Balanced piece ∧ Uncut 0 piece := by
  rcases uncut_or_cut h with hu | ⟨a, b, htext, hu, ha, hb⟩
  · rw [splitTopLevel_of_uncut hu, List.mem_singleton] at hp
    exact hp ▸ ⟨h, hu⟩
  · rw [htext, splitTopLevel_append hu (foldl_depthAfter ha)] at hp
    have hlt : b.length < text.length := by
      rw [htext, List.length_append, List.length_cons]
      omega
    rcases List.mem_cons.1 hp with hp | hp
    · exact hp ▸ ⟨ha, hu⟩
    · exact Balanced.of_mem_splitTopLevel hb hp
termination_by text.length

/-- Balanced pieces are balanced when commas are put between them. -/
theorem Balanced.intercalate {pieces : List (List Char)} (h : ∀ piece ∈ pieces, Balanced piece) :
    Balanced (List.intercalate [','] pieces) := by
  have hcomma : Balanced [','] := rfl
  induction pieces with
  | nil => rfl
  | cons piece pieces ih =>
    have hpiece := h piece List.mem_cons_self
    have hpieces := ih fun q hq => h q (List.mem_cons_of_mem _ hq)
    cases pieces with
    | nil => simpa using hpiece
    | cons q pieces =>
      rw [List.intercalate_cons_of_ne_nil (by simp)]
      exact (hpiece.append hcomma).append hpieces

/-- In a balanced text the counter is the difference of the numbers. -/
theorem Balanced.counter (h : Balanced (a ++ b)) :
    a.foldl depthAfter 0 + a.count ')' = a.count '(' := by
  obtain ⟨j, ha, -⟩ := exists_depthThrough_left h
  have := count_of_depthThrough ha
  rw [foldl_depthAfter ha]
  omega

theorem Balanced.counter_eq_zero_iff (h : Balanced (a ++ b)) :
    a.foldl depthAfter 0 = 0 ↔ Level a := by
  have := h.counter
  unfold Level
  omega

/-- How a text is cut into pieces at the commas outside groups : the counter goes down only where a
group is open, and it is the difference of the numbers of parentheses; the commas at which the text
is cut are those before which it is level. -/
structure Cuts (text : List Char) : Prop where
  unsaturated : ∀ a b, text = a ++ ')' :: b → 0 < a.foldl depthAfter 0
  counter : ∀ a, a <+: text → a.foldl depthAfter 0 + a.count ')' = a.count '('
  joined : List.intercalate [','] (splitTopLevel 0 text) = text
  level : ∀ piece ∈ splitTopLevel 0 text, Level piece
  opened : ∀ piece ∈ splitTopLevel 0 text, ∀ p, p <+: piece → p.count ')' ≤ p.count '('
  uncut : ∀ piece ∈ splitTopLevel 0 text, ∀ a b, piece = a ++ ',' :: b → ¬Level a
  cut : ∀ a b, text = a ++ ',' :: b →
    (Level a ↔ ∃ ps qs, ps ≠ [] ∧ qs ≠ [] ∧ splitTopLevel 0 text = ps ++ qs ∧
      a = List.intercalate [','] ps ∧ b = List.intercalate [','] qs)

/-- A balanced text is cut at its outer commas. -/
theorem Balanced.cuts (h : Balanced text) : Cuts text := by
  constructor
  case unsaturated =>
    rintro a b rfl
    have hopen := (balanced_iff.1 h).1 (a ++ [')']) (by simp)
    have := h.counter
    simp only [List.count_append, List.count_cons_self, List.count_nil,
      List.count_cons_of_ne (show ')' ≠ '(' by decide)] at hopen
    omega
  case counter =>
    rintro a ⟨b, rfl⟩
    exact h.counter
  case joined => exact intercalate_splitTopLevel
  case level => exact fun piece hp => (h.of_mem_splitTopLevel hp).1.level
  case opened => exact fun piece hp => (balanced_iff.1 (h.of_mem_splitTopLevel hp).1).1
  case uncut =>
    rintro piece hp a b rfl hlevel
    obtain ⟨hpiece, hu⟩ := h.of_mem_splitTopLevel hp
    exact uncut_iff.1 hu a b rfl (hpiece.counter_eq_zero_iff.2 hlevel)
  case cut =>
    rintro a b rfl
    constructor
    · intro hlevel
      exact ⟨splitTopLevel 0 a, splitTopLevel 0 b, splitTopLevel_ne_nil, splitTopLevel_ne_nil,
        splitTopLevel_cut (h.counter_eq_zero_iff.2 hlevel), intercalate_splitTopLevel.symm,
        intercalate_splitTopLevel.symm⟩
    · rintro ⟨ps, qs, -, -, hsplit, rfl, -⟩
      refine (Balanced.intercalate fun piece hp => ?_).level
      exact (h.of_mem_splitTopLevel (hsplit ▸ List.mem_append_left qs hp)).1

/-- The two counters agree on every text that begins with an opening parenthesis. The search for its
end does not underflow and finds the first parenthesis at which the text is level, or nothing iff
there is none; what is inside of the group is cut at its commas outside groups, and only there. -/
theorem groups_close (rest : List Char) :
    search 0 0 ('(' :: rest) = Search.ofSplit 1 (splitGroup 0 rest) ∧
      (splitGroup 0 rest = none ↔ ∀ p, p <+: '(' :: rest → p ≠ [] → ¬Level p) ∧
      ∀ inside after, (splitGroup 0 rest = some (inside, after) ↔ Closing rest inside after) ∧
        (Closing rest inside after → Cuts inside) := by
  refine ⟨search_eq 1, splitGroup_eq_none_iff_level, fun inside after => ?_⟩
  exact ⟨splitGroup_eq_some_iff, fun h => (closing_iff.1 h).2.cuts⟩

/-- The group of `(f(a,b),g)(h` holds two arguments, one of which holds two of its own. -/
theorem groups_close_nested :
    splitGroup 0 "f(a,b),g)(h".toList = some ("f(a,b),g".toList, "(h".toList) ∧
      splitTopLevel 0 "f(a,b),g".toList = ["f(a,b)".toList, "g".toList] ∧
      Cuts "f(a,b),g".toList := by
  have hgroup : splitGroup 0 "f(a,b),g)(h".toList = some ("f(a,b),g".toList, "(h".toList) := by
    decide
  have hclose := (groups_close "f(a,b),g)(h".toList).2.2 "f(a,b),g".toList "(h".toList
  exact ⟨hgroup, by decide, hclose.2 (hclose.1.1 hgroup)⟩

end NameResolution.Pattern
