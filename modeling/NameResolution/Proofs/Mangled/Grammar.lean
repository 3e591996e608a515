import NameResolution.Mangled.Reader

/-!
# The grammar of mangled names

    name  := part (dot part)*
    part  := text [open (separator parameter)+ close]
    separator := comma | referenceComma
    parameter := nothing, for void | name that is not empty
    text  := (character other than a sentinel | escape character)*

A derivation is a tree with a node for every production (`NameTree`), and what it derives is
the text written at its leaves (`NameTree.written`). The trees leave one thing open, that
the name of a parameter is not empty, which is `NameTree.Proper`.

No text has two derivations (`NameTree.written_injective`). Where a name, a part or a text
comes to its end can be seen at the next character : `EndsName`, `EndsPart` and `EndsText`
say of what follows that it begins with a character that the production cannot go on with.
-/

namespace NameResolution.Mangled

/-! ## Derivations -/

/-- A character of a text : one that carries no structure, or any one after an escape. -/
inductive Letter where
  | plain (c : Char) (h : isSentinel c = false)
  | escaped (c : Char)

mutual

/-- `part := text [open (separator parameter)+ close]`. Without a parameter there is no group. -/
inductive PartTree where
  | mk (text : List Letter) (slots : List SlotTree)

/-- `separator parameter`, where the separator tells how the parameter is taken. -/
inductive SlotTree where
  | void (byReference : Bool)
  | named (byReference : Bool) (name : NameTree)

/-- `name := part (dot part)*`. -/
inductive NameTree where
  | mk (first : PartTree) (rest : List PartTree)

end

/-! ## What is derived -/

/-- The written characters of a letter. -/
def Letter.written : Letter → List Char
  | plain c _ => [c]
  | escaped c => [escape, c]

/-- The character that a letter stands for. -/
def Letter.meaning : Letter → Char
  | plain c _ => c
  | escaped c => c

/-- The sentinel before a parameter. -/
def separator (byReference : Bool) : Char :=
  if byReference then referenceComma else comma

/-- Slots as a group; there is no empty group. -/
def group : List Char → List Char
  | [] => []
  | slots => opening :: slots ++ [closing]

mutual

/-- The text of a part. -/
def PartTree.written : PartTree → List Char
  | .mk text slots => text.flatMap Letter.written ++ group (slotsText slots)

/-- The texts of slots, one after the other. -/
def slotsText : List SlotTree → List Char
  | [] => []
  | slot :: slots => slot.written ++ slotsText slots

/-- The text of a slot. -/
def SlotTree.written : SlotTree → List Char
  | .void byReference => [separator byReference]
  | .named byReference name => separator byReference :: name.written

/-- The text of a name. -/
def NameTree.written : NameTree → List Char
  | .mk first rest => first.written ++ restText rest

/-- The texts of parts, each after a dot. -/
def restText : List PartTree → List Char
  | [] => []
  | part :: parts => dot :: part.written ++ restText parts

end

mutual

/-- No parameter of the part has an empty name. -/
def PartTree.Proper : PartTree → Prop
  | .mk _ slots => ProperSlots slots

/-- No parameter of the slots has an empty name. -/
def ProperSlots : List SlotTree → Prop
  | [] => True
  | slot :: slots => slot.Proper ∧ ProperSlots slots

/-- The name in the slot, if there is one, is not empty, and none in it is. -/
def SlotTree.Proper : SlotTree → Prop
  | .void _ => True
  | .named _ name => name.Proper ∧ name.written ≠ []

/-- No parameter of the name has an empty name. -/
def NameTree.Proper : NameTree → Prop
  | .mk first rest => first.Proper ∧ ProperRest rest

/-- No parameter of the parts has an empty name. -/
def ProperRest : List PartTree → Prop
  | [] => True
  | part :: parts => part.Proper ∧ ProperRest parts

end

/-- How the parameter in a slot is taken. -/
def SlotTree.byReference : SlotTree → Bool
  | .void r => r
  | .named r _ => r

/-- The text of a slot after its separator. -/
def SlotTree.inner : SlotTree → List Char
  | .void _ => []
  | .named _ name => name.written

theorem SlotTree.written_eq (slot : SlotTree) :
    slot.written = separator slot.byReference :: slot.inner := by
  cases slot <;> rfl

/-- A part without a group is its text. -/
theorem PartTree.written_mk_nil (text : List Letter) :
    (PartTree.mk text []).written = text.flatMap Letter.written := by
  simp [PartTree.written, slotsText, group]

theorem slotsText_eq_flatMap (slots : List SlotTree) :
    slotsText slots = slots.flatMap SlotTree.written := by
  induction slots with
  | nil => rfl
  | cons slot slots ih => rw [slotsText, ih, List.flatMap_cons]

theorem restText_eq_flatMap (parts : List PartTree) :
    restText parts = parts.flatMap fun p => dot :: p.written := by
  induction parts with
  | nil => rfl
  | cons part parts ih => rw [restText, ih, List.flatMap_cons]

theorem properSlots_iff {slots : List SlotTree} :
    ProperSlots slots ↔ ∀ s ∈ slots, s.Proper := by
  induction slots with
  | nil => simp [ProperSlots]
  | cons slot slots ih => rw [ProperSlots, ih, List.forall_mem_cons]

theorem properRest_iff {parts : List PartTree} :
    ProperRest parts ↔ ∀ p ∈ parts, p.Proper := by
  induction parts with
  | nil => simp [ProperRest]
  | cons part parts ih => rw [ProperRest, ih, List.forall_mem_cons]

/-- The text of a list of letters, as it is meant. -/
def meaning (text : List Letter) : String :=
  String.ofList (text.map Letter.meaning)

/-! ## Ends -/

/-- A text cannot go on with these characters. -/
def EndsText (cs : List Char) : Prop :=
  ∀ c, cs.head? = some c → isSentinel c = true ∧ c ≠ escape

/-- A part cannot go on with these characters. -/
def EndsPart (cs : List Char) : Prop :=
  ∀ c, cs.head? = some c → State.isPartEnd c = true

/-- A name in a group cannot go on with these characters. -/
def EndsName (cs : List Char) : Prop :=
  ∀ c, cs.head? = some c → c = closing ∨ c = comma ∨ c = referenceComma

theorem EndsName.endsPart {cs : List Char} (h : EndsName cs) : EndsPart cs := by
  intro c hc
  rcases h c hc with rfl | rfl | rfl <;> rfl

theorem EndsPart.endsText {cs : List Char} (h : EndsPart cs) : EndsText cs := by
  intro c hc
  have hend := h c hc
  simp only [State.isPartEnd, Bool.or_eq_true, decide_eq_true_eq] at hend
  rcases hend with ((rfl | rfl) | rfl) | rfl <;> decide

theorem separator_cases (byReference : Bool) :
    separator byReference = comma ∨ separator byReference = referenceComma := by
  cases byReference
  · exact Or.inl rfl
  · exact Or.inr rfl

theorem exists_separator {c : Char} (h : c = comma ∨ c = referenceComma) :
    ∃ byReference, c = separator byReference := by
  rcases h with rfl | rfl
  · exact ⟨false, rfl⟩
  · exact ⟨true, rfl⟩

/-- The separator tells whether a parameter is by reference. -/
theorem separator_injective {r r' : Bool} (h : separator r = separator r') : r = r' := by
  revert h
  cases r <;> cases r' <;> decide

theorem endsName_nil : EndsName [] :=
  fun _ => nofun

theorem endsName_closing (cs : List Char) : EndsName (closing :: cs) := by
  rintro c ⟨⟩
  exact Or.inl rfl

theorem endsName_separator (byReference : Bool) (cs : List Char) :
    EndsName (separator byReference :: cs) := by
  rintro c ⟨⟩
  exact Or.inr (separator_cases byReference)

/-- What follows a parameter ends its name. -/
theorem endsName_slotsText (slots : List SlotTree) (cs : List Char) :
    EndsName (slotsText slots ++ closing :: cs) := by
  cases slots with
  | nil => exact endsName_closing cs
  | cons slot slots => cases slot <;> exact endsName_separator _ _

/-- What follows a part in a name ends it. -/
theorem endsPart_restText (parts : List PartTree) {cs : List Char} (h : EndsPart cs) :
    EndsPart (restText parts ++ cs) := by
  cases parts with
  | nil => exact h
  | cons part parts =>
    rintro c ⟨⟩
    rfl

theorem separator_ne_closing (byReference : Bool) : separator byReference ≠ closing := by
  cases byReference <;> decide

theorem group_slotsText (slot : SlotTree) (slots : List SlotTree) :
    group (slotsText (slot :: slots)) = opening :: slotsText (slot :: slots) ++ [closing] := by
  cases slot <;> rfl

/-- A group, or what follows a part without one, ends the text of the part. -/
theorem endsText_group (slots : List SlotTree) {cs : List Char} (h : EndsPart cs) :
    EndsText (group (slotsText slots) ++ cs) := by
  cases slots with
  | nil => exact h.endsText
  | cons slot slots =>
    rw [group_slotsText]
    rintro c ⟨⟩
    decide

/-! ## One derivation only -/

theorem Letter.not_endsText (l : Letter) (cs : List Char) : ¬EndsText (l.written ++ cs) := by
  intro h
  cases l with
  | plain c hc =>
    have := (h c rfl).1
    rw [hc] at this
    cases this
  | escaped c => exact (h escape rfl).2 rfl

/-- What is written tells which letter it begins with : an escape is a sentinel, and so it is no
plain letter. -/
theorem Letter.written_injective {l m : Letter} {cs ds : List Char}
    (h : l.written ++ cs = m.written ++ ds) : l = m ∧ cs = ds := by
  have hne {c : Char} (hc : isSentinel c = false) : c ≠ escape := by
    rintro rfl
    cases hc
  cases l with
  | plain c hc =>
    cases m with
    | plain d hd =>
      obtain ⟨rfl, rfl⟩ := List.cons.inj h
      exact ⟨rfl, rfl⟩
    | escaped d => exact absurd (List.cons.inj h).1 (hne hc)
  | escaped c =>
    cases m with
    | plain d hd => exact absurd (List.cons.inj h).1.symm (hne hd)
    | escaped d =>
      obtain ⟨rfl, rfl⟩ := List.cons.inj (List.cons.inj h).2
      exact ⟨rfl, rfl⟩

/-- What is written tells which letters it begins with, up to where a text can end. -/
theorem letters_unique {ls ms : List Letter} {cs ds : List Char} (hc : EndsText cs)
    (hd : EndsText ds) (h : ls.flatMap Letter.written ++ cs = ms.flatMap Letter.written ++ ds) :
    ls = ms ∧ cs = ds := by
  induction ls generalizing ms with
  | nil =>
    cases ms with
    | nil => exact ⟨rfl, h⟩
    | cons m ms =>
      rw [List.flatMap_nil, List.nil_append, List.flatMap_cons, List.append_assoc] at h
      exact absurd (h ▸ hc) (m.not_endsText _)
  | cons l ls ih =>
    cases ms with
    | nil =>
      rw [List.flatMap_nil, List.nil_append, List.flatMap_cons, List.append_assoc] at h
      exact absurd (h ▸ hd) (l.not_endsText _)
    | cons m ms =>
      rw [List.flatMap_cons, List.flatMap_cons, List.append_assoc, List.append_assoc] at h
      obtain ⟨rfl, hrest⟩ := Letter.written_injective h
      obtain ⟨rfl, rfl⟩ := ih hrest
      exact ⟨rfl, rfl⟩

/-- A name that is not empty does not begin like the end of a name. -/
theorem NameTree.not_endsName (n : NameTree) (hne : n.written ≠ []) (cs : List Char) :
    ¬EndsName (n.written ++ cs) := by
  obtain ⟨⟨text, slots⟩, rest⟩ := n
  intro h
  cases text with
  | cons l ls =>
    simp only [NameTree.written, PartTree.written, List.flatMap_cons, List.append_assoc] at h
    exact l.not_endsText _ h.endsPart.endsText
  | nil =>
    cases slots with
    | cons slot slots =>
      simp only [NameTree.written, PartTree.written, group_slotsText] at h
      rcases h opening rfl with h | h | h <;> cases h
    | nil =>
      cases rest with
      | nil => exact hne rfl
      | cons part parts => rcases h dot rfl with h | h | h <;> cases h

mutual

/-- What is written tells which part it begins with. -/
theorem PartTree.unique : ∀ {p q : PartTree} {cs ds : List Char}, p.Proper → q.Proper →
    EndsPart cs → EndsPart ds → p.written ++ cs = q.written ++ ds → p = q ∧ cs = ds
  | .mk text slots, .mk text' slots', cs, ds, hp, hq, hc, hd, h => by
    simp only [PartTree.written, List.append_assoc] at h
    obtain ⟨rfl, hg⟩ := letters_unique (endsText_group slots hc) (endsText_group slots' hd) h
    cases slots with
    | nil =>
      cases slots' with
      | nil => exact ⟨rfl, hg⟩
      | cons slot' slots' =>
        rw [group_slotsText] at hg
        cases hc opening (congrArg List.head? hg)
    | cons slot slots =>
      cases slots' with
      | nil =>
        rw [group_slotsText] at hg
        cases hd opening (congrArg List.head? hg.symm)
      | cons slot' slots' =>
        simp only [group_slotsText, List.cons_append, List.append_assoc, List.cons.injEq,
          true_and, List.nil_append] at hg
        obtain ⟨hs, rfl⟩ := slots_unique hp hq hg
        exact ⟨by rw [hs], rfl⟩

theorem slots_unique : ∀ {ss ts : List SlotTree} {cs ds : List Char}, ProperSlots ss →
    ProperSlots ts → slotsText ss ++ closing :: cs = slotsText ts ++ closing :: ds →
    ss = ts ∧ cs = ds
  | [], [], _, _, _, _, h => ⟨rfl, (List.cons.inj h).2⟩
  | [], t :: ts, _, _, _, _, h => by
    rw [slotsText, slotsText, t.written_eq] at h
    exact absurd (List.cons.inj h).1.symm (separator_ne_closing _)
  | s :: ss, [], _, _, _, _, h => by
    rw [slotsText, slotsText, s.written_eq] at h
    exact absurd (List.cons.inj h).1 (separator_ne_closing _)
  | .void r :: ss, .void r' :: ts, _, _, hs, ht, h => by
    simp only [slotsText, SlotTree.written, List.cons_append, List.nil_append,
      List.cons.injEq] at h
    obtain ⟨rfl, rfl⟩ := slots_unique hs.2 ht.2 h.2
    exact ⟨by rw [separator_injective h.1], rfl⟩
  | .void r :: ss, .named r' n :: ts, cs, _, _, ht, h => by
    simp only [slotsText, SlotTree.written, List.cons_append, List.nil_append,
      List.append_assoc, List.cons.injEq] at h
    exact absurd (h.2 ▸ endsName_slotsText ss cs) (n.not_endsName ht.1.2 _)
  | .named r n :: ss, .void r' :: ts, _, ds, hs, _, h => by
    simp only [slotsText, SlotTree.written, List.cons_append, List.nil_append,
      List.append_assoc, List.cons.injEq] at h
    exact absurd (h.2 ▸ endsName_slotsText ts ds) (n.not_endsName hs.1.2 _)
  | .named r n :: ss, .named r' m :: ts, cs, ds, hs, ht, h => by
    simp only [slotsText, SlotTree.written, List.cons_append, List.append_assoc,
      List.cons.injEq] at h
    obtain ⟨rfl, hrest⟩ := NameTree.unique hs.1.1 ht.1.1 (endsName_slotsText ss cs)
      (endsName_slotsText ts ds) h.2
    obtain ⟨rfl, rfl⟩ := slots_unique hs.2 ht.2 hrest
    exact ⟨by rw [separator_injective h.1], rfl⟩

/-- What is written tells which name it begins with. -/
theorem NameTree.unique : ∀ {n m : NameTree} {cs ds : List Char}, n.Proper → m.Proper →
    EndsName cs → EndsName ds → n.written ++ cs = m.written ++ ds → n = m ∧ cs = ds
  | .mk first rest, .mk first' rest', cs, ds, hn, hm, hc, hd, h => by
    simp only [NameTree.written, List.append_assoc] at h
    obtain ⟨rfl, hrest⟩ := PartTree.unique hn.1 hm.1 (endsPart_restText rest hc.endsPart)
      (endsPart_restText rest' hd.endsPart) h
    obtain ⟨rfl, rfl⟩ := rest_unique hn.2 hm.2 hc hd hrest
    exact ⟨rfl, rfl⟩

theorem rest_unique : ∀ {ps qs : List PartTree} {cs ds : List Char}, ProperRest ps →
    ProperRest qs → EndsName cs → EndsName ds → restText ps ++ cs = restText qs ++ ds →
    ps = qs ∧ cs = ds
  | [], [], _, _, _, _, _, _, h => ⟨rfl, h⟩
  | [], q :: qs, _, _, _, _, hc, _, h => by
    rcases hc dot (congrArg List.head? h) with h | h | h <;> cases h
  | p :: ps, [], _, _, _, _, _, hd, h => by
    rcases hd dot (congrArg List.head? h.symm) with h | h | h <;> cases h
  | p :: ps, q :: qs, _, _, hp, hq, hc, hd, h => by
    simp only [restText, List.cons_append, List.append_assoc, List.cons.injEq, true_and] at h
    obtain ⟨rfl, hrest⟩ := PartTree.unique hp.1 hq.1 (endsPart_restText ps hc.endsPart)
      (endsPart_restText qs hd.endsPart) h
    obtain ⟨rfl, rfl⟩ := rest_unique hp.2 hq.2 hc hd hrest
    exact ⟨rfl, rfl⟩

end

/-- A text has one derivation at most. -/
theorem NameTree.written_injective {n m : NameTree} (hn : n.Proper) (hm : m.Proper)
    (h : n.written = m.written) : n = m := by
  refine (NameTree.unique hn hm endsName_nil endsName_nil ?_).1
  rw [h]

end NameResolution.Mangled
