import NameResolution.Proofs.Pattern.Reading

/-!
# Rendering undoes reading

A name that was read is rendered as a normal form of what it was read from: the derivation is the
same, but no blanks are left in a group except for one after each comma (`NameTree.normal`,
`NameTree.written_normal`). The normal form is derived like the text itself
(`NameTree.proper_normal`), because a name begins and ends with the characters that it began and
ended with before (`NameTree.head?_normal`, `NameTree.getLast?_normal`): it is no more empty than it
was, and no blank comes to stand at an end of it.
-/

namespace NameResolution.Pattern

open Text (Blank Trimmed)

variable {inside : Bool} {text : List Char} {n : QualifiedName}

/-! ## Normal forms -/

mutual

/-- The part with normal blanks. -/
def PartTree.normal : PartTree → PartTree
  | .plain text => .plain text
  | .blank text _ => .blank text []
  | .group text arguments => .group text (arguments.normal [])

/-- The arguments with normal blanks, which are none at all but for one after each comma; before the
first argument there is what is given. -/
def GroupTree.normal (left : List Char) : GroupTree → GroupTree
  | .last argument => .last (argument.normal left)
  | .comma argument rest => .comma (argument.normal left) (rest.normal [' '])

/-- The argument with these blanks before it. -/
def ArgumentTree.normal (left : List Char) : ArgumentTree → ArgumentTree
  | .mk _ name _ => .mk left name.normal []

/-- The name with normal blanks. -/
def NameTree.normal : NameTree → NameTree
  | .last part => .last part.normal
  | .dot part rest => .dot part.normal rest.normal

end

mutual

/-- The normal form of a part means what the part means. -/
theorem PartTree.meaning_normal : (p : PartTree) → p.normal.meaning = p.meaning
  | .plain _ => rfl
  | .blank _ _ => rfl
  | .group text arguments =>
    congrArg (NamePart.pattern (String.ofList text)) (arguments.meaning_normal [])

theorem GroupTree.meaning_normal : (g : GroupTree) → (left : List Char) →
    (g.normal left).meaning = g.meaning
  | .last argument, left => congrArg (fun n => [n]) (argument.meaning_normal left)
  | .comma argument rest, left =>
    congrArg₂ (· :: ·) (argument.meaning_normal left) (rest.meaning_normal [' '])

theorem ArgumentTree.meaning_normal : (a : ArgumentTree) → (left : List Char) →
    (a.normal left).meaning = a.meaning
  | .mk _ name _, _ => name.meaning_normal

/-- The normal form means what the name does. -/
theorem NameTree.meaning_normal : (n : NameTree) → n.normal.meaning = n.meaning
  | .last part => congrArg (fun p => [p]) part.meaning_normal
  | .dot part rest => congrArg₂ (· :: ·) part.meaning_normal rest.meaning_normal

end

/-! ## Normal forms are derived -/

/-- A part begins as its normal form does: with its text, or with the parenthesis of its group. -/
theorem PartTree.head?_normal (p : PartTree) : p.normal.written.head? = p.written.head? := by
  cases p <;> simp [normal, written, List.head?_append]

theorem getLast?_group (inner : List Char) :
    (text ++ ('(' :: inner ++ [')'])).getLast? = some ')' := by
  rw [← List.append_assoc]
  exact List.getLast?_concat

/-- A part ends as its normal form does: with its text, or with the parenthesis of its group. -/
theorem PartTree.getLast?_normal (p : PartTree) :
    p.normal.written.getLast? = p.written.getLast? := by
  cases p with
  | plain text => rfl
  | blank text blanks => rw [normal, written, written, getLast?_group, getLast?_group]
  | group text arguments => rw [normal, written, written, getLast?_group, getLast?_group]

theorem NameTree.head?_normal (n : NameTree) : n.normal.written.head? = n.written.head? := by
  cases n <;> simp [normal, written, List.head?_append, PartTree.head?_normal]

theorem NameTree.getLast?_normal : (n : NameTree) →
    n.normal.written.getLast? = n.written.getLast?
  | .last part => part.getLast?_normal
  | .dot part rest => by
    have hdot (text : List Char) : ('.' :: text).getLast? = some (text.getLast?.getD '.') := by
      cases text with
      | nil => rfl
      | cons c text => simp [List.getLast?_cons]
    simp only [normal, written, List.getLast?_append, hdot, rest.getLast?_normal, Option.some_or]

theorem NameTree.written_normal_ne_nil {n : NameTree} (h : n.written ≠ []) :
    n.normal.written ≠ [] := by
  rw [ne_eq, ← List.head?_eq_none_iff, head?_normal, List.head?_eq_none_iff]
  exact h

/-- The normal form has no blanks around it where the name has none. -/
theorem NameTree.trimmed_normal {n : NameTree} (h : Trimmed n.written) :
    Trimmed n.normal.written :=
  ⟨fun c hc => h.head c (n.head?_normal ▸ hc), fun c hc => h.last c (n.getLast?_normal ▸ hc)⟩

mutual

theorem PartTree.proper_normal : (p : PartTree) → {inside : Bool} → p.Proper inside →
    p.normal.Proper inside
  | .plain _, _, h => h
  | .blank _ _, _, ⟨ht, _⟩ => ⟨ht, Text.blank_nil⟩
  | .group _ arguments, _, ⟨ht, hg⟩ => ⟨ht, arguments.proper_normal Text.blank_nil hg⟩

theorem GroupTree.proper_normal : (g : GroupTree) → {left : List Char} → Blank left → g.Proper →
    (g.normal left).Proper
  | .last argument, _, hl, h => argument.proper_normal hl h
  | .comma argument rest, _, hl, ⟨ha, hr⟩ =>
    ⟨argument.proper_normal hl ha, rest.proper_normal (by decide) hr⟩

theorem ArgumentTree.proper_normal : (a : ArgumentTree) → {left : List Char} → Blank left →
    a.Proper → (a.normal left).Proper
  | .mk _ name _, _, hl, ⟨_, ⟨hn, hne, ht⟩, _⟩ =>
    ⟨hl, ⟨name.proper_normal hn, NameTree.written_normal_ne_nil hne, NameTree.trimmed_normal ht⟩,
      Text.blank_nil⟩

/-- The leaves of a normal form are what the grammar allows. -/
theorem NameTree.proper_normal : (n : NameTree) → {inside : Bool} → n.Proper inside →
    n.normal.Proper inside
  | .last part, _, h => part.proper_normal h
  | .dot part rest, _, ⟨hp, hr⟩ => ⟨part.proper_normal hp, rest.proper_normal hr⟩

end

/-! ## Rendering -/

theorem joinParts_of_ne_nil {pieces : List (List Char)} (h : pieces ≠ []) :
    NamePart.joinParts pieces = List.intercalate ['.'] pieces := by
  cases pieces with
  | nil => exact absurd rfl h
  | cons first rest => rfl

theorem spell_cons (p : NamePart) {ps : QualifiedName} (h : ps ≠ []) :
    QualifiedName.spell (p :: ps) = p.spell ++ '.' :: QualifiedName.spell ps := by
  obtain ⟨q, qs, rfl⟩ := List.exists_cons_of_ne_nil h
  rw [QualifiedName.spell, QualifiedName.spell, joinParts_of_ne_nil (by simp),
    joinParts_of_ne_nil (by simp), List.map_cons, List.map_cons, List.intercalate_cons_cons,
    List.append_assoc]
  rfl

theorem spellNames_eq (ns : List QualifiedName) :
    NamePart.spellNames ns = ns.map QualifiedName.spell :=
  NamePart.spellNames_eq_map ns

/-- A pattern is spelled as its text and its arguments, with a comma and a blank between them. -/
theorem spell_pattern (title : String) (ns : List QualifiedName) :
    NamePart.spell (.pattern title ns) =
      title.toList ++
        ('(' :: List.intercalate [',', ' '] (ns.map QualifiedName.spell) ++ [')']) := by
  rw [NamePart.spell, spellNames_eq]
  simp [NamePart.join]

theorem NameTree.meaning_ne_nil (n : NameTree) : n.meaning ≠ [] := by
  cases n <;> simp [meaning]

theorem GroupTree.meaning_ne_nil (g : GroupTree) : g.meaning ≠ [] := by
  cases g <;> simp [meaning]

mutual

/-- The normal form of a part is its rendering. -/
theorem PartTree.written_normal : (p : PartTree) → p.normal.written = p.meaning.spell
  | .plain _ => String.toList_ofList.symm
  | .blank text _ => by
    rw [PartTree.meaning, spell_pattern, String.toList_ofList]
    rfl
  | .group text arguments => by
    rw [PartTree.meaning, spell_pattern, String.toList_ofList, PartTree.normal, PartTree.written,
      arguments.written_normal, List.nil_append]

/-- The normal form of arguments is what is rendered between the parentheses. -/
theorem GroupTree.written_normal : (g : GroupTree) → (left : List Char) →
    (g.normal left).written =
      left ++ List.intercalate [',', ' '] (g.meaning.map QualifiedName.spell)
  | .last argument, left => by
    rw [GroupTree.normal, GroupTree.written, argument.written_normal, GroupTree.meaning,
      List.map_singleton, List.intercalate_singleton]
  | .comma argument rest, left => by
    obtain ⟨n, ns, hrest⟩ := List.exists_cons_of_ne_nil rest.meaning_ne_nil
    have hwritten := rest.written_normal [' ']
    rw [hrest] at hwritten
    rw [GroupTree.normal, GroupTree.written, argument.written_normal, hwritten, GroupTree.meaning,
      hrest]
    simp only [List.map_cons, List.intercalate_cons_cons]
    simp

/-- The normal form of an argument is written as the argument is spelled. -/
theorem ArgumentTree.written_normal : (a : ArgumentTree) → (left : List Char) →
    (a.normal left).written = left ++ QualifiedName.spell a.meaning
  | .mk _ name _, left => by
    rw [ArgumentTree.normal, ArgumentTree.written, name.written_normal, List.append_nil,
      ArgumentTree.meaning]

/-- The normal form of a name is its rendering. -/
theorem NameTree.written_normal : (n : NameTree) →
    n.normal.written = QualifiedName.spell n.meaning
  | .last part => by
    rw [NameTree.normal, NameTree.written, part.written_normal, NameTree.meaning,
      QualifiedName.spell, List.map_singleton, joinParts_of_ne_nil (by simp),
      List.intercalate_singleton]
  | .dot part rest => by
    rw [NameTree.normal, NameTree.written, part.written_normal, rest.written_normal,
      NameTree.meaning, spell_cons _ rest.meaning_ne_nil]

end

/-- The rendering of what a tree derives is derived by its normal form. -/
theorem NameTree.Derives.normal {tree : NameTree} (h : tree.Derives text) :
    tree.normal.Derives (QualifiedName.spell tree.meaning) :=
  ⟨tree.proper_normal h.1, tree.written_normal⟩

/-- A dotted name is rendered as it was written. -/
theorem spell_ofDotted (h : text ≠ []) :
    QualifiedName.spell (QualifiedName.ofDotted text) = text := by
  have hspell : NamePart.spell ∘ (fun piece : List Char => .simple (String.ofList piece) []) = id :=
    funext fun piece => String.toList_ofList
  rw [QualifiedName.ofDotted, if_neg h, QualifiedName.spell, List.map_map, hspell, List.map_id,
    joinParts_of_ne_nil pieces_ne_nil, intercalate_pieces]

/-- What is read is read again from its rendering, which is derived as the text is but for the
blanks in groups, and rendered again it stays as it is. A dotted name is rendered as it was
written. -/
theorem rendering_undoes_reading (source : String) (h : source ≠ "") :
    (∀ n, read source.toList = some n →
      read (QualifiedName.render n).toList = some n ∧
        (read (QualifiedName.render n).toList).map QualifiedName.render =
          some (QualifiedName.render n) ∧
        ∃ tree : NameTree, tree.Derives source.toList ∧ tree.meaning = n ∧
          tree.normal.Derives (QualifiedName.render n).toList ∧ tree.normal.meaning = n) ∧
    QualifiedName.render (QualifiedName.ofDotted source.toList) = source := by
  have hne : source.toList ≠ [] := by simpa using h
  refine ⟨fun n hn => ?_, ?_⟩
  · obtain ⟨tree, htree, rfl⟩ := (read_eq_some_iff_derives hne).1 hn
    have hnormal := htree.normal
    have hwritten : QualifiedName.spell tree.meaning ≠ [] := by
      rw [← hnormal.2]
      exact NameTree.written_normal_ne_nil (htree.2 ▸ hne)
    have hread : read (QualifiedName.spell tree.meaning) = some tree.meaning :=
      (read_eq_some_iff_derives hwritten).2 ⟨tree.normal, hnormal, tree.meaning_normal⟩
    rw [QualifiedName.render, String.toList_ofList, hread]
    exact ⟨rfl, rfl, tree, htree, rfl, hnormal, tree.meaning_normal⟩
  · rw [QualifiedName.render, spell_ofDotted hne, String.ofList_toList]

/-- The rule is rendered without its blank, and read back from that. -/
theorem rendering_undoes_reading_rule : "f( a.b)" ≠ "" ∧
    read "f( a.b)".toList = some ruleTree.meaning ∧
      QualifiedName.render ruleTree.meaning = "f(a.b)" ∧
        read "f(a.b)".toList = some ruleTree.meaning := by
  have hne : "f( a.b)" ≠ "" := by decide
  have hread : read "f( a.b)".toList = some ruleTree.meaning :=
    (read_eq_some_iff_derives (by decide)).2 ⟨ruleTree, derives_ruleTree, rfl⟩
  have hrender : QualifiedName.render ruleTree.meaning = "f(a.b)" := by decide
  have hagain := ((rendering_undoes_reading "f( a.b)" hne).1 _ hread).1
  rw [hrender] at hagain
  exact ⟨hne, hread, hrender, hagain⟩

end NameResolution.Pattern
