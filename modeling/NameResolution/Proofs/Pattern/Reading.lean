import NameResolution.Name.Dotted
import NameResolution.Proofs.Pattern.Grammar

/-!
# Reading accepts the grammar

Reading is taken apart along the grammar: a text that no group follows (`readParts_plain`), a group
(`readParts_group`) with its arguments (`readArguments`), and what follows a part (`readAfter`). So
what a tree derives is read as its meaning (`NameTree.read`), by induction on the tree, and what is
read is derived (`exists_tree`), by induction on the length of the text. `read_accepts_grammar` puts
both together.

The counters that reading keeps stay above zero: while a group is searched for its end the group
itself is open, and what is in a group closes no more groups than it opens.
-/

namespace NameResolution.Pattern

open Text (Blank Trimmed)

variable {text inside after rest source : List Char} {n : QualifiedName}

/-! ## Reading along the grammar -/

/-- Reads an argument, which is not blank. -/
def readArgument (piece : List Char) : Option QualifiedName :=
  if Text.trim piece = [] then none else readParts (Text.trim piece)

/-- Reads what is inside a group. -/
def readArguments (inside : List Char) : Option (List QualifiedName) :=
  if Text.trim inside = [] then some [] else (splitTopLevel 0 inside).mapM readArgument

/-- Reads what follows a part: nothing, or a dot and more parts. -/
def readAfter (part : NamePart) : List Char → Option QualifiedName
  | [] => some [part]
  | c :: rest => if c = '.' then (readParts rest).map (part :: ·) else none

/-- After a part comes the end, or a dot and the rest of the name. -/
theorem readAfter_of_endsPart {part : NamePart} (h : readAfter part after = some n) :
    (after = [] ∧ n = [part]) ∨
      ∃ rest m, after = '.' :: rest ∧ readParts rest = some m ∧ n = part :: m := by
  cases after with
  | nil => exact Or.inl ⟨rfl, (Option.some.inj h).symm⟩
  | cons c rest =>
    rw [readAfter] at h
    split at h
    · obtain ⟨m, hm, hn⟩ := Option.map_eq_some_iff.1 h
      rename_i hc
      exact Or.inr ⟨rest, m, by rw [hc], hm, hn.symm⟩
    · cases h

/-- A text that no group follows is a part of its own. -/
theorem readParts_plain (h : (source.dropWhile isPlain).head? ≠ some '(') :
    readParts source = readAfter (.simple (String.ofList (source.takeWhile isPlain)) [])
      (source.dropWhile isPlain) := by
  rw [readParts]
  split
  · rename_i hrest
    rw [hrest, readAfter]
  · rename_i c rest hrest
    rw [hrest] at h ⊢
    rw [readAfter, if_neg (show c ≠ '(' by simpa using h)]

/-- A group is read, and what follows it. -/
theorem readParts_group (h : source.dropWhile isPlain = '(' :: rest) :
    readParts source = (splitGroup 0 rest).bind fun s => (readArguments s.1).bind fun arguments =>
      readAfter (.pattern (String.ofList (source.takeWhile isPlain)) arguments) s.2 := by
  rw [readParts]
  split
  · rename_i hnil
    rw [hnil] at h
    cases h
  · rename_i c rest' hrest
    obtain ⟨rfl, rfl⟩ := List.cons.inj (hrest.symm.trans h)
    rw [if_neg (by decide), if_pos rfl]
    split
    · rename_i hg
      rw [hg]
      rfl
    · rename_i inside after hg
      have hmap (f : {piece // piece ∈ splitTopLevel 0 inside} → Option QualifiedName)
          (hf : ∀ piece h, f ⟨piece, h⟩ = readArgument piece) :
          (splitTopLevel 0 inside).attach.mapM f = (splitTopLevel 0 inside).mapM readArgument := by
        rw [List.mapM_subtype hf, List.unattach_attach]
      have hread : (if (Text.trim inside).isEmpty then some []
          else (splitTopLevel 0 inside).mapM readArgument) = readArguments inside := by
        simp only [readArguments, List.isEmpty_iff]
      rw [hmap]
      case hf => exact fun piece _ => by simp only [readArgument, List.isEmpty_iff]
      simp only [hread, hg, Option.bind_some]
      cases readArguments inside with
      | none => rfl
      | some arguments => cases after <;> rfl

/-! ## What is derived is read -/

mutual

/-- The text of a part is read as the part. -/
theorem PartTree.read : (p : PartTree) → {inside : Bool} → {after : List Char} →
    p.Proper inside → EndsPart after →
      readParts (p.written ++ after) = readAfter p.meaning after
  | .plain _, _, after, h, hafter => by
    obtain ⟨htake, hdrop⟩ := IsText.takeWhile_append h (isPlain_head_groupThen none hafter)
    have hhead : (groupThen after none).head? ≠ some '(' := by
      rcases hafter with rfl | ⟨rest, rfl⟩ <;> simp [groupThen]
    rw [← hdrop] at hhead
    have hread := readParts_plain hhead
    rwa [htake, hdrop] at hread
  | .blank text blanks, _, _, ⟨ht, hb⟩, hafter => by
    obtain ⟨htake, hdrop⟩ := ht.takeWhile_append (isPlain_head_groupThen (some blanks) hafter)
    have hblanks : readArguments blanks = some [] := by
      rw [readArguments, if_pos (Text.trim_eq_nil_iff.2 hb)]
    have hread := readParts_group hdrop
    rw [htake, splitGroup_append (Blank.balanced hb)] at hread
    rw [PartTree.written_append]
    refine hread.trans ?_
    simp only [Option.bind_some, hblanks, PartTree.meaning]
  | .group text arguments, _, _, ⟨ht, hg⟩, hafter => by
    obtain ⟨htake, hdrop⟩ := ht.takeWhile_append
      (isPlain_head_groupThen (some arguments.written) hafter)
    have harguments : readArguments arguments.written = some arguments.meaning := by
      rw [readArguments, if_neg (Text.trim_eq_nil_iff.not.2 (GroupTree.not_blank hg)),
        arguments.read hg]
    have hread := readParts_group hdrop
    rw [htake, splitGroup_append (arguments.balanced hg)] at hread
    rw [PartTree.written_append]
    refine hread.trans ?_
    simp only [Option.bind_some, harguments, PartTree.meaning]

/-- The texts of arguments are read as the arguments. -/
theorem GroupTree.read : (g : GroupTree) → g.Proper →
    (splitTopLevel 0 g.written).mapM readArgument = some g.meaning
  | .last argument, h => by
    rw [GroupTree.written, splitTopLevel_of_uncut (ArgumentTree.uncut h), List.mapM_cons,
      argument.read h]
    rfl
  | .comma argument rest, ⟨ha, hr⟩ => by
    rw [GroupTree.splitTopLevel_written ha, List.mapM_cons, argument.read ha, rest.read hr]
    rfl

/-- The text of an argument is read as the argument. -/
theorem ArgumentTree.read : (a : ArgumentTree) → a.Proper → readArgument a.written = some a.meaning
  | .mk left name right, h => by
    rw [readArgument, ArgumentTree.trim_written h, if_neg h.2.1.2.1, name.read h.2.1.1]
    rfl

/-- What a tree derives is read as its meaning. -/
theorem NameTree.read : (n : NameTree) → {inside : Bool} → n.Proper inside →
    readParts n.written = some n.meaning
  | .last part, _, h => by
    have hread := part.read h endsPart_nil
    rwa [List.append_nil] at hread
  | .dot part rest, _, ⟨hp, hr⟩ => by
    rw [NameTree.written, part.read hp endsPart_dot, readAfter, if_pos rfl, rest.read hr]
    rfl

end

/-! ## What is read is derived -/

theorem isText_takeWhile : IsText false (source.takeWhile isPlain) :=
  fun _ hc => ⟨List.mem_takeWhile_imp hc, nofun⟩

/-- An argument that is read is derived, if what is read as a name is. The blanks around it close no
groups, so its commas are those of the text. -/
theorem exists_argument (ih : ∀ m, readParts (Text.trim text) = some m →
      ∃ tree : NameTree, tree.Derives (Text.trim text) ∧ tree.meaning = m)
    (hu : Uncut 0 text) (h : readArgument text = some n) :
    ∃ tree : ArgumentTree, tree.Proper ∧ tree.written = text ∧ tree.meaning = n := by
  rw [readArgument] at h
  split at h
  · cases h
  rename_i hne
  obtain ⟨tree, ⟨hproper, hwritten⟩, rfl⟩ := ih n h
  obtain ⟨left, right, htext, hleft, hright, ht⟩ := Text.exists_trim text
  rw [htext, List.append_assoc, (Blank.balanced hleft).uncut_append, ← hwritten,
    (tree.balanced hproper).uncut_append] at hu
  refine ⟨.mk left tree right, ⟨hleft, ⟨tree.proper_true_iff.2 ⟨hproper, hu.2.1⟩, ?_, ?_⟩, hright⟩,
    ?_, rfl⟩
  · rwa [hwritten]
  · rwa [hwritten]
  · rw [ArgumentTree.written, hwritten, ← htext]

/-- Arguments that are read are derived, if what is read as a name is; by induction on the text,
from comma to comma. -/
theorem exists_arguments (text : List Char) (ih : ∀ source : List Char,
      source.length ≤ text.length → ∀ m, readParts source = some m →
        ∃ tree : NameTree, tree.Derives source ∧ tree.meaning = m)
    (hb : Balanced text) {names : List QualifiedName}
    (h : (splitTopLevel 0 text).mapM readArgument = some names) :
    ∃ tree : GroupTree, tree.Proper ∧ tree.written = text ∧ tree.meaning = names := by
  rcases uncut_or_cut hb with hu | ⟨first, rest, htext, hu, hfirst, hrest⟩
  · rw [splitTopLevel_of_uncut hu, List.mapM_cons] at h
    obtain ⟨n, hn, h⟩ := Option.bind_eq_some_iff.1 h
    obtain ⟨tree, hproper, hwritten, rfl⟩ :=
      exists_argument (ih _ (Text.length_trim_le text)) hu hn
    exact ⟨.last tree, hproper, hwritten, Option.some.inj h⟩
  · have hlength : text.length = first.length + rest.length + 1 := by
      rw [htext, List.length_append, List.length_cons, Nat.add_assoc]
    have htrim := Text.length_trim_le first
    rw [htext, splitTopLevel_append hu (foldl_depthAfter hfirst), List.mapM_cons] at h
    obtain ⟨n, hn, h⟩ := Option.bind_eq_some_iff.1 h
    obtain ⟨ns, hns, h⟩ := Option.bind_eq_some_iff.1 h
    obtain ⟨tree, hproper, hwritten, rfl⟩ := exists_argument (ih _ (by omega)) hu hn
    obtain ⟨trees, hpropers, hwrittens, rfl⟩ :=
      exists_arguments rest (fun source hs => ih source (by omega)) hrest hns
    refine ⟨.comma tree trees, ⟨hproper, hpropers⟩, ?_, Option.some.inj h⟩
    rw [GroupTree.written, hwritten, hwrittens, htext]
termination_by text.length

/-- A part that is read is derived, if what is read as a name in its group is. -/
theorem exists_group (ih : ∀ source : List Char, source.length ≤ inside.length → ∀ m,
      readParts source = some m → ∃ tree : NameTree, tree.Derives source ∧ tree.meaning = m)
    (ht : IsText false text) (hb : Balanced inside) {names : List QualifiedName}
    (h : readArguments inside = some names) : ∃ tree : PartTree, tree.Proper false ∧
      tree.written = text ++ ('(' :: inside ++ [')']) ∧
        tree.meaning = .pattern (String.ofList text) names := by
  rw [readArguments] at h
  split at h
  · rename_i hblank
    exact ⟨.blank text inside, ⟨ht, Text.trim_eq_nil_iff.1 hblank⟩, rfl,
      by rw [PartTree.meaning, Option.some.inj h]⟩
  · obtain ⟨tree, hproper, rfl, rfl⟩ := exists_arguments inside ih hb h
    exact ⟨.group text tree, ⟨ht, hproper⟩, rfl, rfl⟩

/-- What is read after a part extends its derivation, if what is read as a name is derived. -/
theorem exists_after {part : PartTree} (ih : ∀ rest : List Char, rest.length < after.length → ∀ m,
      readParts rest = some m → ∃ tree : NameTree, tree.Derives rest ∧ tree.meaning = m)
    (hp : part.Proper false) (h : readAfter part.meaning after = some n) :
    ∃ tree : NameTree, tree.Derives (part.written ++ after) ∧ tree.meaning = n := by
  rcases readAfter_of_endsPart h with ⟨rfl, rfl⟩ | ⟨rest, m, rfl, hm, rfl⟩
  · exact ⟨.last part, ⟨hp, (List.append_nil _).symm⟩, rfl⟩
  · obtain ⟨tree, ⟨hproper, rfl⟩, rfl⟩ := ih rest (by simp) m hm
    exact ⟨.dot part tree, ⟨⟨hp, hproper⟩, rfl⟩, rfl⟩

/-- What is read is derived. -/
theorem exists_tree (source : List Char) (n : QualifiedName) (h : readParts source = some n) :
    ∃ tree : NameTree, tree.Derives source ∧ tree.meaning = n := by
  have hsource : source.takeWhile isPlain ++ source.dropWhile isPlain = source :=
    List.takeWhile_append_dropWhile
  have hlength : (source.dropWhile isPlain).length ≤ source.length :=
    (List.dropWhile_suffix isPlain).length_le
  by_cases hhead : (source.dropWhile isPlain).head? = some '('
  · obtain ⟨rest, hrest⟩ := List.head?_eq_some_iff.1 hhead
    rw [readParts_group hrest] at h
    obtain ⟨⟨inside, after⟩, hg, h⟩ := Option.bind_eq_some_iff.1 h
    obtain ⟨names, hnames, h⟩ := Option.bind_eq_some_iff.1 h
    obtain ⟨htext, hb⟩ := splitGroup_eq_some hg
    have hshorter := length_splitGroup hg
    rw [hrest, List.length_cons] at hlength
    obtain ⟨part, hp, hwritten, hmeaning⟩ :=
      exists_group (fun source _ m hm => exists_tree source m hm) isText_takeWhile hb hnames
    rw [← hmeaning] at h
    obtain ⟨tree, htree, rfl⟩ := exists_after (fun rest _ m hm => exists_tree rest m hm) hp h
    refine ⟨tree, ?_, rfl⟩
    rw [hrest, htext] at hsource
    simpa [hwritten, hsource] using htree
  · rw [readParts_plain hhead] at h
    have hp : (PartTree.plain (source.takeWhile isPlain)).Proper false := isText_takeWhile
    obtain ⟨tree, htree, rfl⟩ := exists_after (fun rest _ m hm => exists_tree rest m hm) hp h
    rw [PartTree.written, hsource] at htree
    exact ⟨tree, htree, rfl⟩
termination_by source.length
decreasing_by all_goals simp_all; omega

/-! ## Names without groups -/

/-- The derivation of texts with dots between them. -/
def ofTexts : List (List Char) → NameTree
  | [] => .last (.plain [])
  | [text] => .last (.plain text)
  | text :: texts => .dot (.plain text) (ofTexts texts)

/-- Texts that are put together to a name are written with dots between them. -/
theorem written_ofTexts (texts : List (List Char)) :
    (ofTexts texts).written = List.intercalate ['.'] texts := by
  fun_induction ofTexts texts with
  | case1 => rfl
  | case2 text => rw [List.intercalate_singleton]; rfl
  | case3 text texts hne ih =>
    obtain ⟨first, rest, rfl⟩ := List.exists_cons_of_ne_nil hne
    rw [NameTree.written, ih, List.intercalate_cons_cons, List.append_assoc]
    rfl

/-- Texts that are put together to a name mean simple parts. -/
theorem meaning_ofTexts {texts : List (List Char)} (h : texts ≠ []) :
    (ofTexts texts).meaning = texts.map fun text => .simple (String.ofList text) [] := by
  fun_induction ofTexts texts with
  | case1 => exact absurd rfl h
  | case2 text => rfl
  | case3 text texts hne ih => rw [NameTree.meaning, ih hne]; rfl

theorem proper_ofTexts {texts : List (List Char)} (h : ∀ text ∈ texts, IsText false text) :
    (ofTexts texts).Proper false := by
  fun_induction ofTexts texts with
  | case1 => exact fun _ hc => absurd hc List.not_mem_nil
  | case2 text => exact h text List.mem_cons_self
  | case3 text texts hne ih =>
    exact ⟨h text List.mem_cons_self, ih fun text ht => h text (List.mem_cons_of_mem _ ht)⟩

theorem pieces_ne_nil {separator : Char} : pieces separator source ≠ [] := by
  fun_cases pieces separator source <;> simp

/-- The pieces of a text with their separators are the text. -/
theorem intercalate_pieces (separator : Char) (source : List Char) :
    List.intercalate [separator] (pieces separator source) = source := by
  fun_induction pieces separator source with
  | case1 => rfl
  | case2 rest ih =>
    have hne : pieces separator rest ≠ [] := pieces_ne_nil
    obtain ⟨p, ps, hp⟩ := List.exists_cons_of_ne_nil hne
    rw [hp] at ih ⊢
    rw [List.intercalate_cons_cons, ih]
    rfl
  | case3 c rest hc hnil ih => exact absurd hnil pieces_ne_nil
  | case4 c rest hc p ps hp ih =>
    rw [hp] at ih
    cases ps with
    | nil => rw [List.intercalate_singleton] at ih ⊢; rw [ih]
    | cons q qs =>
      rw [List.intercalate_cons_cons] at ih ⊢
      rw [← ih]
      rfl

/-- A piece is made of characters of the text other than the separator. -/
theorem of_mem_pieces {separator c : Char} {piece : List Char} (h : piece ∈ pieces separator source)
    (hc : c ∈ piece) : c ∈ source ∧ c ≠ separator := by
  fun_induction pieces separator source generalizing piece with
  | case1 => simp_all
  | case2 rest ih =>
    rcases List.mem_cons.1 h with rfl | h
    · exact absurd hc List.not_mem_nil
    · exact (ih h hc).imp (List.mem_cons_of_mem _) id
  | case3 d rest hd hnil ih => exact absurd hnil pieces_ne_nil
  | case4 d rest hd p ps hp ih =>
    rw [hp] at ih
    rcases List.mem_cons.1 h with rfl | h
    · rcases List.mem_cons.1 hc with rfl | hc
      · exact ⟨List.mem_cons_self, hd⟩
      · exact (ih List.mem_cons_self hc).imp (List.mem_cons_of_mem _) id
    · exact (ih (List.mem_cons_of_mem _ h) hc).imp (List.mem_cons_of_mem _) id

/-- A text without parentheses is derived as a dotted one. -/
theorem derives_ofTexts (h : ∀ c ∈ source, c ≠ '(' ∧ c ≠ ')') :
    (ofTexts (pieces '.' source)).Derives source := by
  refine ⟨proper_ofTexts fun piece hp c hc => ?_, ?_⟩
  · obtain ⟨hsource, hdot⟩ := of_mem_pieces hp hc
    exact ⟨isPlain_iff.2 ⟨hdot, h c hsource⟩, nofun⟩
  · rw [written_ofTexts, intercalate_pieces]

/-! ## The main theorem -/

theorem read_of_ne_nil (h : source ≠ []) : read source = readParts source :=
  if_neg h

/-- A name is read from a text exactly if the grammar derives it. -/
theorem read_eq_some_iff_derives (h : source ≠ []) :
    read source = some n ↔ ∃ tree : NameTree, tree.Derives source ∧ tree.meaning = n := by
  rw [read_of_ne_nil h]
  constructor
  · exact exists_tree source n
  · rintro ⟨tree, ⟨hproper, rfl⟩, rfl⟩
    exact tree.read hproper

/-- Reading accepts the empty text, as the root, and what the grammar derives, as the name of its
one derivation. A text without parentheses is read as a dotted one. What is read again, inside a
group or after it, is shorter. A group that is searched for its end is open itself, so at every
character that the search reads the count is above zero, and in what it finds a counter that would
stop at zero does not have to. -/
theorem read_accepts_grammar (source : List Char) :
    (∀ n, read source = some n ↔ (source = [] ∧ n = QualifiedName.root) ∨
      (source ≠ [] ∧ ∃ tree : NameTree, tree.Derives source ∧
        (∀ other : NameTree, other.Derives source → other = tree) ∧ tree.meaning = n)) ∧
    ((∀ c ∈ source, c ≠ '(' ∧ c ≠ ')') → read source = some (QualifiedName.ofDotted source)) ∧
    (∀ inside after, splitGroup 0 source = some (inside, after) →
      after.length < source.length ∧
        ∀ piece ∈ splitTopLevel 0 inside, (Text.trim piece).length < source.length) ∧
    (∀ before c rest, source = before ++ c :: rest → splitGroup 0 before = none →
      ∃ k, depthThrough 1 before = some (k + 1)) ∧
    ∀ inside after, splitGroup 0 source = some (inside, after) →
      ∀ before rest, inside = before ++ rest →
        depthThrough 0 before = some (before.foldl depthAfter 0) := by
  refine ⟨fun n => ?_, fun h => ?_, fun inside after h => ?_, fun before c rest _ h => ?_,
    fun inside after h before rest hinside => ?_⟩
  · by_cases hne : source = []
    · subst hne
      simp [read, eq_comm]
    rw [read_eq_some_iff_derives hne]
    constructor
    · rintro ⟨tree, htree, rfl⟩
      exact Or.inr ⟨hne, tree, htree, fun other hother => hother.unique htree, rfl⟩
    · rintro (⟨h, -⟩ | ⟨-, tree, htree, -, rfl⟩)
      · exact absurd h hne
      · exact ⟨tree, htree, rfl⟩
  · by_cases hne : source = []
    · rw [read, QualifiedName.ofDotted, if_pos hne, if_pos hne]
    · rw [QualifiedName.ofDotted, if_neg hne, ← meaning_ofTexts pieces_ne_nil]
      exact (read_eq_some_iff_derives hne).2 ⟨_, derives_ofTexts h, rfl⟩
  · have hlength := length_splitGroup h
    refine ⟨by omega, fun piece hpiece => ?_⟩
    have hpiece := length_of_mem_splitTopLevel hpiece
    have htrim := Text.length_trim_le piece
    omega
  · obtain ⟨k, hk⟩ := splitGroup_eq_none_iff.1 h
    exact ⟨k, by simpa using depthThrough_add (j := 1) hk⟩
  · have hbalanced := (splitGroup_eq_some h).2
    rw [hinside] at hbalanced
    obtain ⟨k, hk, -⟩ := exists_depthThrough_left hbalanced
    rw [hk, foldl_depthAfter hk]

/-- The derivation of a part whose argument is a dotted name after a blank. -/
def ruleTree : NameTree :=
  .last (.group ['f'] (.last (.mk [' '] (.dot (.plain ['a']) (.last (.plain ['b']))) [])))

/-- The rule derives its text, with the blank. -/
theorem derives_ruleTree : ruleTree.Derives "f( a.b)".toList := by
  have htext (c : Char) (h : IsText true [c]) : (PartTree.plain [c]).Proper true := h
  have hname : (NameTree.dot (.plain ['a']) (.last (.plain ['b']))).Proper true :=
    ⟨htext 'a' (by decide), htext 'b' (by decide)⟩
  have htrimmed : Trimmed "a.b".toList := by
    constructor <;> rintro c ⟨⟩ <;> decide
  have hblanks : IsText false ['f'] ∧ Blank [' '] ∧ Blank [] := by decide
  exact ⟨⟨hblanks.1, hblanks.2.1, ⟨hname, by decide, htrimmed⟩, hblanks.2.2⟩, rfl⟩

/-- The rule is read with its argument, and what has no parentheses is read as a dotted name. -/
theorem read_accepts_grammar_rule :
    read "f( a.b)".toList = some [.pattern "f" [[.simple "a" [], .simple "b" []]]] ∧
      read "a.b".toList = some (QualifiedName.ofDotted "a.b".toList) := by
  refine ⟨((read_accepts_grammar _).1 _).2
    (Or.inr ⟨by decide, ruleTree, derives_ruleTree, ?_, rfl⟩),
    (read_accepts_grammar _).2.1 (by simp)⟩
  exact fun other hother => hother.unique derives_ruleTree

end NameResolution.Pattern
