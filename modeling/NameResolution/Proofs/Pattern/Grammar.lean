import NameResolution.Proofs.Pattern.Balance
import NameResolution.Proofs.Text.Trimming

/-!
# The grammar of patterns

    name     := part ('.' part)*
    part     := text | text '(' blanks ')' | text '(' argument (',' argument)* ')'
    argument := blanks name blanks
    text     := characters other than '.', '(' and ')', and than ',' inside an argument

The name of an argument is not empty, and neither begins nor ends with a blank. A derivation is a
tree with a node for every production (`NameTree`), from which the text at its leaves can be read
off (`NameTree.written`) and the name that it stands for (`NameTree.meaning`). What the shape of a
tree leaves open, which characters the leaves may have, is `NameTree.Proper`.

No text has two derivations (`NameTree.written_injective`). A name is one inside an argument if it
is one at all and its commas stand in groups of its own (`NameTree.proper_true_iff`), for what is
derived is balanced (`NameTree.balanced`).
-/

namespace NameResolution.Pattern

open Text (Blank Trimmed)

/-! ## Derivations -/

mutual

/-- A text, perhaps with a group, which is blank or has arguments. -/
inductive PartTree where
  | plain (text : List Char)
  | blank (text blanks : List Char)
  | group (text : List Char) (arguments : GroupTree)

/-- Arguments with commas between them. -/
inductive GroupTree where
  | last (argument : ArgumentTree)
  | comma (argument : ArgumentTree) (rest : GroupTree)

/-- A name between blanks. -/
inductive ArgumentTree where
  | mk (left : List Char) (name : NameTree) (right : List Char)

/-- Parts with dots between them. -/
inductive NameTree where
  | last (part : PartTree)
  | dot (part : PartTree) (rest : NameTree)

end

mutual

/-- The text of a part. -/
def PartTree.written : PartTree → List Char
  | .plain text => text
  | .blank text blanks => text ++ ('(' :: blanks ++ [')'])
  | .group text arguments => text ++ ('(' :: arguments.written ++ [')'])

/-- The text of arguments. -/
def GroupTree.written : GroupTree → List Char
  | .last argument => argument.written
  | .comma argument rest => argument.written ++ ',' :: rest.written

/-- The text of an argument. -/
def ArgumentTree.written : ArgumentTree → List Char
  | .mk left name right => left ++ name.written ++ right

/-- The text of a name. -/
def NameTree.written : NameTree → List Char
  | .last part => part.written
  | .dot part rest => part.written ++ '.' :: rest.written

end

mutual

/-- The part that is derived. -/
def PartTree.meaning : PartTree → NamePart
  | .plain text => .simple (String.ofList text) []
  | .blank text _ => .pattern (String.ofList text) []
  | .group text arguments => .pattern (String.ofList text) arguments.meaning

/-- The arguments that are derived. -/
def GroupTree.meaning : GroupTree → List QualifiedName
  | .last argument => [argument.meaning]
  | .comma argument rest => argument.meaning :: rest.meaning

/-- The argument that is derived. -/
def ArgumentTree.meaning : ArgumentTree → QualifiedName
  | .mk _ name _ => name.meaning

/-- The name that is derived. -/
def NameTree.meaning : NameTree → QualifiedName
  | .last part => [part.meaning]
  | .dot part rest => part.meaning :: rest.meaning

end

/-- The characters may be those of a text, which inside an argument has no commas. -/
def IsText (inside : Bool) (text : List Char) : Prop :=
  ∀ c ∈ text, isPlain c = true ∧ (inside = true → c ≠ ',')

instance (inside : Bool) (text : List Char) : Decidable (IsText inside text) :=
  List.decidableBAll (fun c => isPlain c = true ∧ (inside = true → c ≠ ',')) text

mutual

/-- The leaves of the part are what the grammar allows. -/
def PartTree.Proper (inside : Bool) : PartTree → Prop
  | .plain text => IsText inside text
  | .blank text blanks => IsText inside text ∧ Blank blanks
  | .group text arguments => IsText inside text ∧ arguments.Proper

/-- The leaves of the arguments are what the grammar allows. -/
def GroupTree.Proper : GroupTree → Prop
  | .last argument => argument.Proper
  | .comma argument rest => argument.Proper ∧ rest.Proper

/-- The leaves of the argument are what the grammar allows. -/
def ArgumentTree.Proper : ArgumentTree → Prop
  | .mk left name right =>
    Blank left ∧ (name.Proper true ∧ name.written ≠ [] ∧ Trimmed name.written) ∧ Blank right

/-- The leaves of the name are what the grammar allows. -/
def NameTree.Proper (inside : Bool) : NameTree → Prop
  | .last part => part.Proper inside
  | .dot part rest => part.Proper inside ∧ rest.Proper inside

end

/-- The name is derived from the text. -/
def NameTree.Derives (tree : NameTree) (source : List Char) : Prop :=
  tree.Proper false ∧ tree.written = source

variable {inside inside' : Bool} {leaf after after' : List Char}

/-! ## Texts -/

theorem isPlain_iff {c : Char} : isPlain c = true ↔ c ≠ '.' ∧ c ≠ '(' ∧ c ≠ ')' := by
  simp [isPlain, and_assoc]

theorem Blank.ne_paren {blanks : List Char} (h : Blank blanks) :
    ∀ c ∈ blanks, c ≠ '(' ∧ c ≠ ')' := by
  intro c hc
  have := h c hc
  constructor <;> rintro rfl <;> revert this <;> decide

theorem Blank.balanced {blanks : List Char} (h : Blank blanks) : Balanced blanks :=
  depthThrough_of_forall (Blank.ne_paren h)

theorem IsText.balanced (h : IsText inside leaf) : Balanced leaf :=
  depthThrough_of_forall fun c hc => (isPlain_iff.1 (h c hc).1).2

theorem IsText.takeWhile_append (h : IsText inside leaf)
    (hafter : ∀ c, after.head? = some c → isPlain c = false) :
    (leaf ++ after).takeWhile isPlain = leaf ∧ (leaf ++ after).dropWhile isPlain = after := by
  have hplain : ∀ c ∈ leaf, isPlain c = true := fun c hc => (h c hc).1
  rw [List.takeWhile_append_of_pos hplain, List.dropWhile_append_of_pos hplain]
  cases after with
  | nil => simp
  | cons c rest => simp [hafter c rfl]

/-- A text without commas outside groups has none at all. -/
theorem isText_true_iff : IsText true leaf ↔ IsText false leaf ∧ Uncut 0 leaf := by
  induction leaf with
  | nil => simp [IsText, Uncut]
  | cons c rest ih =>
    have hdepth (h : isPlain c = true) : depthAfter 0 c = 0 := by
      have := isPlain_iff.1 h
      simp [depthAfter, this.2.1, this.2.2]
    simp only [IsText, List.forall_mem_cons, Uncut] at ih ⊢
    constructor
    · rintro ⟨⟨hc, hcomma⟩, hrest⟩
      obtain ⟨hf, hu⟩ := ih.1 hrest
      exact ⟨⟨⟨hc, fun h => absurd h Bool.false_ne_true⟩, hf⟩, by simpa using hcomma,
        by rwa [hdepth hc]⟩
    · rintro ⟨⟨⟨hc, -⟩, hf⟩, hcomma, hu⟩
      rw [hdepth hc] at hu
      exact ⟨⟨hc, by simpa using hcomma⟩, ih.2 ⟨hf, hu⟩⟩

/-! ## What is derived is balanced -/

mutual

/-- A part is written with balanced parentheses. -/
theorem PartTree.balanced : (p : PartTree) → {inside : Bool} → p.Proper inside → Balanced p.written
  | .plain _, _, h => IsText.balanced h
  | .blank _ _, _, ⟨ht, hb⟩ =>
    ht.balanced.append (Balanced.group (Blank.balanced hb))
  | .group _ arguments, _, ⟨ht, hg⟩ => ht.balanced.append (arguments.balanced hg).group

theorem GroupTree.balanced : (g : GroupTree) → g.Proper → Balanced g.written
  | .last argument, h => argument.balanced h
  | .comma argument rest, ⟨ha, hr⟩ =>
    (argument.balanced ha).append (Balanced.append (a := [',']) rfl (rest.balanced hr))

theorem ArgumentTree.balanced : (a : ArgumentTree) → a.Proper → Balanced a.written
  | .mk _ name _, ⟨hl, hn, hr⟩ =>
    (Balanced.append (Blank.balanced hl) (name.balanced hn.1)).append
      (Blank.balanced hr)

/-- A name is written with balanced parentheses. -/
theorem NameTree.balanced : (n : NameTree) → {inside : Bool} → n.Proper inside → Balanced n.written
  | .last part, _, h => part.balanced h
  | .dot part rest, _, ⟨hp, hr⟩ =>
    (part.balanced hp).append (Balanced.append (a := ['.']) rfl (rest.balanced hr))

end

/-! ## Names inside an argument -/

/-- A part is proper inside a group if it is proper outside, and nothing in it would be taken for a
separator. -/
theorem PartTree.proper_true_iff {p : PartTree} :
    p.Proper true ↔ p.Proper false ∧ Uncut 0 p.written := by
  cases p with
  | plain text => exact isText_true_iff
  | blank text blanks =>
    simp only [Proper, written, isText_true_iff]
    constructor
    · rintro ⟨⟨ht, hu⟩, hb⟩
      exact ⟨⟨ht, hb⟩, ht.balanced.uncut_append.2 ⟨hu, (Blank.balanced hb).uncut_group⟩⟩
    · rintro ⟨⟨ht, hb⟩, hu⟩
      exact ⟨⟨ht, (ht.balanced.uncut_append.1 hu).1⟩, hb⟩
  | group text arguments =>
    simp only [Proper, written, isText_true_iff]
    constructor
    · rintro ⟨⟨ht, hu⟩, hg⟩
      exact ⟨⟨ht, hg⟩, ht.balanced.uncut_append.2 ⟨hu, (arguments.balanced hg).uncut_group⟩⟩
    · rintro ⟨⟨ht, hg⟩, hu⟩
      exact ⟨⟨ht, (ht.balanced.uncut_append.1 hu).1⟩, hg⟩

/-- A name is one inside an argument if all of its commas are in groups. -/
theorem NameTree.proper_true_iff : (n : NameTree) →
    (n.Proper true ↔ n.Proper false ∧ Uncut 0 n.written)
  | .last part => PartTree.proper_true_iff
  | .dot part rest => by
    have hdot : Uncut 0 ('.' :: rest.written) ↔ Uncut 0 rest.written := by simp [Uncut, depthAfter]
    simp only [Proper, written, PartTree.proper_true_iff, rest.proper_true_iff]
    constructor
    · rintro ⟨⟨hp, hu⟩, hr, hv⟩
      exact ⟨⟨hp, hr⟩, (part.balanced hp).uncut_append.2 ⟨hu, hdot.2 hv⟩⟩
    · rintro ⟨⟨hp, hr⟩, hu⟩
      obtain ⟨hu, hv⟩ := (part.balanced hp).uncut_append.1 hu
      exact ⟨⟨hp, hu⟩, hr, hdot.1 hv⟩

/-- An argument has no comma outside of its own groups. -/
theorem ArgumentTree.uncut {a : ArgumentTree} (h : a.Proper) : Uncut 0 a.written := by
  obtain ⟨left, name, right⟩ := a
  obtain ⟨hl, ⟨hn, -, -⟩, hr⟩ := h
  have hblank {blanks : List Char} (hb : Blank blanks) : Uncut 0 blanks :=
    uncut_of_not_mem fun hc => absurd (hb _ hc) (by decide)
  have hleft := Blank.balanced hl
  rw [written, (hleft.append (name.balanced hn)).uncut_append, hleft.uncut_append]
  exact ⟨⟨hblank hl, (name.proper_true_iff.1 hn).2⟩, hblank hr⟩

/-- The arguments of a group are where its text is cut. -/
theorem GroupTree.splitTopLevel_written {argument : ArgumentTree} {rest : GroupTree}
    (h : argument.Proper) : splitTopLevel 0 (GroupTree.comma argument rest).written =
      argument.written :: splitTopLevel 0 rest.written :=
  splitTopLevel_append (ArgumentTree.uncut h) (foldl_depthAfter (argument.balanced h))

/-- An argument is not blank. -/
theorem ArgumentTree.trim_written {left right : List Char} {name : NameTree}
    (h : (ArgumentTree.mk left name right).Proper) :
    Text.trim (ArgumentTree.mk left name right).written = name.written :=
  Text.trim_append h.1 h.2.1.2.2 h.2.2

theorem ArgumentTree.not_blank {a : ArgumentTree} (h : a.Proper) : ¬Blank a.written := by
  obtain ⟨left, name, right⟩ := a
  rw [← Text.trim_eq_nil_iff, trim_written h]
  exact h.2.1.2.1

theorem GroupTree.not_blank {g : GroupTree} (h : g.Proper) : ¬Blank g.written := by
  cases g with
  | last argument => exact ArgumentTree.not_blank h
  | comma argument rest =>
    exact fun hb => ArgumentTree.not_blank h.1 fun c hc => hb c (List.mem_append_left _ hc)

/-! ## Every text has one derivation at most -/

/-- A part ends here : nothing follows, or a dot. -/
def EndsPart (after : List Char) : Prop :=
  after = [] ∨ ∃ rest, after = '.' :: rest

theorem endsPart_nil : EndsPart [] :=
  Or.inl rfl

theorem endsPart_dot {rest : List Char} : EndsPart ('.' :: rest) :=
  Or.inr ⟨rest, rfl⟩

/-- The text of a part before its group. -/
def PartTree.text : PartTree → List Char
  | .plain text => text
  | .blank text _ => text
  | .group text _ => text

/-- What stands in the group of a part that has one. -/
def PartTree.inner : PartTree → Option (List Char)
  | .plain _ => none
  | .blank _ blanks => some blanks
  | .group _ arguments => some arguments.written

/-- What is written after the text of a part, with what follows the part. -/
def groupThen (after : List Char) : Option (List Char) → List Char
  | none => after
  | some inner => '(' :: (inner ++ ')' :: after)

/-- A part is its text, then perhaps a group, then what follows. -/
theorem PartTree.written_append (p : PartTree) :
    p.written ++ after = p.text ++ groupThen after p.inner := by
  cases p <;> simp [written, text, inner, groupThen]

theorem PartTree.isText {p : PartTree} (h : p.Proper inside) : IsText inside p.text := by
  cases p with
  | plain text => exact h
  | blank text blanks => exact h.1
  | group text arguments => exact h.1

theorem PartTree.balanced_inner {p : PartTree} {inner : List Char} (h : p.Proper inside)
    (hi : p.inner = some inner) : Balanced inner := by
  cases p with
  | plain text => cases hi
  | blank text blanks =>
    obtain rfl := Option.some.inj hi
    exact Blank.balanced h.2
  | group text arguments =>
    obtain rfl := Option.some.inj hi
    exact arguments.balanced h.2

theorem isPlain_head_groupThen (inner : Option (List Char)) (h : EndsPart after) :
    ∀ c, (groupThen after inner).head? = some c → isPlain c = false := by
  intro c hc
  cases inner with
  | some inner =>
    obtain rfl : '(' = c := Option.some.inj hc
    decide
  | none =>
    rcases h with rfl | ⟨rest, rfl⟩
    · cases hc
    · obtain rfl : '.' = c := Option.some.inj hc
      decide

/-- Where a part ends can be seen in what is written : what follows a part without a group does not
begin with a parenthesis. -/
theorem PartTree.written_append_inj {p p' : PartTree} (hp : p.Proper inside)
    (hp' : p'.Proper inside') (hafter : EndsPart after) (hafter' : EndsPart after')
    (h : p.written ++ after = p'.written ++ after') :
    p.text = p'.text ∧ p.inner = p'.inner ∧ after = after' := by
  rw [written_append, written_append] at h
  obtain ⟨htext, hrest⟩ := (isText hp).takeWhile_append
    (isPlain_head_groupThen p.inner hafter)
  obtain ⟨htext', hrest'⟩ := (isText hp').takeWhile_append
    (isPlain_head_groupThen p'.inner hafter')
  rw [h] at htext hrest
  refine ⟨htext.symm.trans htext', ?_⟩
  have hgroup : groupThen after p.inner = groupThen after' p'.inner := hrest.symm.trans hrest'
  cases hi : p.inner with
  | none =>
    cases hi' : p'.inner with
    | none => rw [hi, hi'] at hgroup; exact ⟨rfl, hgroup⟩
    | some inner' =>
      rw [hi, hi'] at hgroup
      rcases hafter with rfl | ⟨rest, rfl⟩ <;> simp [groupThen] at hgroup
  | some inner =>
    cases hi' : p'.inner with
    | none =>
      rw [hi, hi'] at hgroup
      rcases hafter' with rfl | ⟨rest, rfl⟩ <;> simp [groupThen] at hgroup
    | some inner' =>
      rw [hi, hi'] at hgroup
      have hsplit : some (inner, after) = some (inner', after') := by
        rw [← splitGroup_append (balanced_inner hp hi),
          ← splitGroup_append (balanced_inner hp' hi'), (List.cons.inj hgroup).2]
      obtain ⟨rfl, rfl⟩ := Prod.mk.inj (Option.some.inj hsplit)
      exact ⟨rfl, rfl⟩

mutual

/-- Parts with the same text and the same inside are the same. -/
theorem PartTree.eq_of_inner : (p p' : PartTree) → {inside : Bool} → p.Proper inside →
    p'.Proper inside →
    p.text = p'.text → p.inner = p'.inner → p = p'
  | .plain _, .plain _, _, _, _, ht, _ => congrArg PartTree.plain ht
  | .blank _ _, .blank _ _, _, _, _, ht, hi =>
    congrArg₂ PartTree.blank ht (Option.some.inj hi)
  | .group _ arguments, .group _ arguments', _, ⟨_, hg⟩, ⟨_, hg'⟩, ht, hi =>
    congrArg₂ PartTree.group ht (arguments.written_injective arguments' hg hg' (Option.some.inj hi))
  | .blank _ _, .group _ _, _, ⟨_, hb⟩, ⟨_, hg⟩, _, hi =>
    absurd (Option.some.inj hi ▸ hb) (GroupTree.not_blank hg)
  | .group _ _, .blank _ _, _, ⟨_, hg⟩, ⟨_, hb⟩, _, hi =>
    absurd (Option.some.inj hi ▸ hb) (GroupTree.not_blank hg)

/-- What is written between parentheses has one derivation. -/
theorem GroupTree.written_injective : (g g' : GroupTree) → g.Proper → g'.Proper →
    g.written = g'.written → g = g'
  | .last a, .last a', h, h', he => by rw [a.written_injective a' h h' he]
  | .comma a rest, .comma a' rest', ⟨ha, hr⟩, ⟨ha', hr'⟩, he => by
    have hsplit := congrArg (splitTopLevel 0) he
    rw [GroupTree.splitTopLevel_written ha, GroupTree.splitTopLevel_written ha'] at hsplit
    have hwritten := (List.cons.inj hsplit).1
    rw [GroupTree.written, GroupTree.written, hwritten, List.append_cancel_left_eq] at he
    rw [a.written_injective a' ha ha' hwritten,
      rest.written_injective rest' hr hr' (List.cons.inj he).2]
  | .last a, .comma a' rest', h, ⟨ha', _⟩, he => by
    have hsplit := congrArg (splitTopLevel 0) he
    rw [GroupTree.splitTopLevel_written ha', GroupTree.written,
      splitTopLevel_of_uncut (ArgumentTree.uncut h)] at hsplit
    exact absurd (List.cons.inj hsplit).2.symm splitTopLevel_ne_nil
  | .comma a rest, .last a', ⟨ha, _⟩, h', he => by
    have hsplit := congrArg (splitTopLevel 0) he
    rw [GroupTree.splitTopLevel_written ha, GroupTree.written,
      splitTopLevel_of_uncut (ArgumentTree.uncut h')] at hsplit
    exact absurd (List.cons.inj hsplit).2 splitTopLevel_ne_nil

/-- What is written for an argument has one derivation. -/
theorem ArgumentTree.written_injective : (a a' : ArgumentTree) → a.Proper → a'.Proper →
    a.written = a'.written → a = a'
  | .mk _ name _, .mk _ name' _, ⟨hl, ⟨hn, hne, ht⟩, hr⟩, ⟨hl', ⟨hn', _, ht'⟩, hr'⟩, he => by
    obtain ⟨rfl, hname, rfl⟩ := Text.trimmed_unique hl hl' ht ht' hr hr' hne he
    rw [name.written_injective name' hn hn' hname]

/-- Two derivations of one text are the same. -/
theorem NameTree.written_injective : (n n' : NameTree) → {inside : Bool} → n.Proper inside →
    n'.Proper inside → n.written = n'.written → n = n'
  | .last p, .last p', _, h, h', he => by
    have he : p.written ++ [] = p'.written ++ [] := by
      simpa [NameTree.written] using he
    obtain ⟨ht, hi, -⟩ := PartTree.written_append_inj h h' endsPart_nil endsPart_nil he
    rw [p.eq_of_inner p' h h' ht hi]
  | .dot p rest, .dot p' rest', _, ⟨hp, hr⟩, ⟨hp', hr'⟩, he => by
    obtain ⟨ht, hi, hrest⟩ := PartTree.written_append_inj hp hp' endsPart_dot endsPart_dot he
    rw [p.eq_of_inner p' hp hp' ht hi, rest.written_injective rest' hr hr' (List.cons.inj hrest).2]
  | .last p, .dot p' rest', _, h, ⟨hp', _⟩, he => by
    have he : p.written ++ [] = p'.written ++ '.' :: rest'.written := by
      simpa [NameTree.written] using he
    exact absurd (PartTree.written_append_inj h hp' endsPart_nil endsPart_dot he).2.2 (by simp)
  | .dot p rest, .last p', _, ⟨hp, _⟩, h', he => by
    have he : p.written ++ '.' :: rest.written = p'.written ++ [] := by
      simpa [NameTree.written] using he
    exact absurd (PartTree.written_append_inj hp h' endsPart_dot endsPart_nil he).2.2 (by simp)

end

theorem NameTree.Derives.unique {tree tree' : NameTree} {source : List Char}
    (h : tree.Derives source) (h' : tree'.Derives source) : tree = tree' :=
  tree.written_injective tree' h.1 h'.1 (h.2.trans h'.2.symm)

end NameResolution.Pattern
