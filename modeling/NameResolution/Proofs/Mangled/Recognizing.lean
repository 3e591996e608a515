import Mathlib.Tactic.SplitIfs
import NameResolution.Proofs.Mangled.Grammar

/-!
# Only the grammar is read to its end

What has been read of a text is the beginning of a derivation : closed parts, each with its
dot, open groups, each with its closed slots, and a part that is being read
(`State.Reads`). One character more leads to a state that has read the beginning with this
character (`State.Reads.step`), whatever entity a parameter's name turns out to denote. So
what is read to its end is derived (`State.Reads.finish`).
-/

namespace NameResolution.Mangled

/-! ## Names from their parts -/

/-- Closed parts, each with its dot. -/
def dotted (parts : List PartTree) : List Char :=
  parts.flatMap fun p => p.written ++ [dot]

theorem dotted_concat (parts : List PartTree) (p : PartTree) :
    dotted (parts ++ [p]) = dotted parts ++ p.written ++ [dot] := by
  simp [dotted]

/-- The name with these parts and a last one. -/
def NameTree.ofParts : List PartTree → PartTree → NameTree
  | [], last => .mk last []
  | first :: parts, last => .mk first (parts ++ [last])

/-- Parts that are put together to a name are written with dots between them. -/
theorem NameTree.written_ofParts (parts : List PartTree) (last : PartTree) :
    (NameTree.ofParts parts last).written = dotted parts ++ last.written := by
  cases parts with
  | nil => simp [ofParts, NameTree.written, restText, dotted]
  | cons first parts =>
    have hrest : restText parts ++ [dot] = dot :: dotted parts := by
      induction parts with
      | nil => rfl
      | cons p ps ih => simp [restText, ih, dotted]
    calc first.written ++ restText (parts ++ [last])
        = first.written ++ (restText parts ++ [dot]) ++ last.written := by
          simp [restText_eq_flatMap]
      _ = dotted (first :: parts) ++ last.written := by rw [hrest]; simp [dotted]

theorem NameTree.proper_ofParts {parts : List PartTree} {last : PartTree}
    (hparts : ∀ p ∈ parts, p.Proper) (hlast : last.Proper) :
    (NameTree.ofParts parts last).Proper := by
  cases parts with
  | nil => exact ⟨hlast, trivial⟩
  | cons first parts =>
    rw [List.forall_mem_cons] at hparts
    refine ⟨hparts.1, properRest_iff.2 ?_⟩
    rw [List.forall_mem_append]
    exact ⟨hparts.2, List.forall_mem_singleton.2 hlast⟩

/-- The characters between two separators make one slot : void if there are none. -/
theorem SlotTree.exists_ofParts {parts : List PartTree} {last : PartTree}
    (hparts : ∀ p ∈ parts, p.Proper) (hlast : last.Proper) (byReference : Bool) :
    ∃ slot : SlotTree, slot.Proper ∧
      slot.written = separator byReference :: (dotted parts ++ last.written) := by
  rw [← NameTree.written_ofParts]
  by_cases hne : (NameTree.ofParts parts last).written = []
  · exact ⟨.void byReference, trivial, by rw [hne]; rfl⟩
  · exact ⟨.named byReference (.ofParts parts last),
      ⟨NameTree.proper_ofParts hparts hlast, hne⟩, rfl⟩

/-- One slot more, in the form that `SlotTree.exists_ofParts` gives it. -/
theorem slotsText_concat (slots : List SlotTree) {slot : SlotTree} {byReference : Bool}
    {inner : List Char} (h : slot.written = separator byReference :: inner) :
    slotsText (slots ++ [slot]) = slotsText slots ++ separator byReference :: inner := by
  rw [slotsText_eq_flatMap, List.flatMap_append, ← slotsText_eq_flatMap, List.flatMap_singleton, h]

/-- A part with a slot has a group. -/
theorem PartTree.written_mk_concat (text : List Letter) (slots : List SlotTree) (slot : SlotTree) :
    (PartTree.mk text (slots ++ [slot])).written =
      text.flatMap Letter.written ++ (opening :: slotsText (slots ++ [slot]) ++ [closing]) := by
  rw [PartTree.written]
  cases slots <;> exact congrArg _ (group_slotsText _ _)

/-! ## Beginnings of derivations -/

/-- The characters of the part that is being read. -/
inductive Mode.Reads : Mode → List Char → Prop
  | text (read : String) (ls : List Letter) : Reads (.text read) (ls.flatMap Letter.written)
  | escaped (read : String) (offset : Nat) (ls : List Letter) :
    Reads (.escaped read offset) (ls.flatMap Letter.written ++ [escape])
  | opened (text : String) (ls : List Letter) :
    Reads (.opened text) (ls.flatMap Letter.written ++ [opening])
  | closed (part : NamePart) {tree : PartTree} (h : tree.Proper) :
    Reads (.closed part) tree.written

/-- The characters of the groups that are open, each up to the separator of the parameter that is
being read. -/
inductive FramesRead : List Frame → List Char → Prop
  | nil : FramesRead [] []
  | cons (frame : Frame) {frames : List Frame} {cs : List Char} (h : FramesRead frames cs)
    {before : List PartTree} (hbefore : ∀ p ∈ before, p.Proper) (ls : List Letter)
    {slots : List SlotTree} (hslots : ∀ s ∈ slots, s.Proper) (byReference : Bool) :
    FramesRead (frame :: frames) (cs ++ dotted before ++ ls.flatMap Letter.written ++
      opening :: slotsText slots ++ [separator byReference])

/-- The characters that lead to a state. -/
def State.Reads (s : State) (cs : List Char) : Prop :=
  ∃ outer parts inner, cs = outer ++ dotted parts ++ inner ∧ FramesRead s.frames outer ∧
    (∀ p ∈ parts, p.Proper) ∧ s.mode.Reads inner

/-- The reader begins without having read anything. -/
theorem State.reads_initial : State.Reads {} [] :=
  ⟨[], [], [], rfl, .nil, by simp, .text "" []⟩

/-! ## One character more -/

/-- Every state that a step can lead to has the property. -/
def Step.Leads (P : State → Prop) : Step → Prop
  | .go next => P next
  | .ask _ next => ∀ e, P (next e)
  | .stop .. => True

variable {s : State} {cs outer : List Char} {parts : List PartTree} {part : PartTree} {c : Char}

theorem leads_endParam {P : State → Prop} {next : Frame → State} (h : ∀ frame, P (next frame))
    (frame : Frame) (name : Option QualifiedName) : (State.endParam frame name next).Leads P := by
  cases name with
  | none => exact h _
  | some n => exact fun e => h _

/-- A part is over, and so is the parameter that it ends. -/
theorem leads_afterPart (houter : FramesRead s.frames outer) (hparts : ∀ p ∈ parts, p.Proper)
    (hpart : part.Proper) (last : NamePart) (offset : Nat) :
    (s.afterPart last offset c).Leads (·.Reads (outer ++ dotted parts ++ part.written ++ [c])) := by
  unfold State.afterPart
  by_cases hdot : c = dot
  · rw [if_pos hdot]
    refine ⟨outer, parts ++ [part], [], ?_, houter, ?_, .text "" []⟩
    · rw [dotted_concat, hdot]
      simp
    · rw [List.forall_mem_append]
      exact ⟨hparts, List.forall_mem_singleton.2 hpart⟩
  rw [if_neg hdot]
  by_cases hend : c = closing ∨ c = comma ∨ c = referenceComma
  · rw [if_pos hend]
    obtain ⟨frames, sparts, mode⟩ := s
    cases houter with
    | nil =>
      dsimp only
      split_ifs <;> trivial
    | @cons frame frames cs houter before hbefore ls slots hslots byReference =>
      obtain ⟨slot, hslot, hwritten⟩ := SlotTree.exists_ofParts hparts hpart byReference
      have hslots' : ∀ s ∈ slots ++ [slot], s.Proper := by
        rw [List.forall_mem_append]
        exact ⟨hslots, List.forall_mem_singleton.2 hslot⟩
      have htext := slotsText_concat slots hwritten
      refine leads_endParam (fun frame => ?_) frame _
      split_ifs with hclose
      · have hpart' : (PartTree.mk ls (slots ++ [slot])).Proper := properSlots_iff.2 hslots'
        refine ⟨cs, before, _, ?_, houter, hbefore, .closed _ hpart'⟩
        rw [PartTree.written_mk_concat, htext, hclose]
        simp
      · obtain ⟨r, rfl⟩ := exists_separator (hend.resolve_left hclose)
        refine ⟨_, [], [], ?_, .cons _ houter hbefore ls hslots' r, by simp, .text "" []⟩
        rw [htext]
        simp [dotted]
  · rw [if_neg hend]
    trivial

/-- One character more is read from the beginning of a derivation. -/
theorem State.Reads.step (h : s.Reads cs) (offset : Nat) :
    (s.step offset c).Leads (·.Reads (cs ++ [c])) := by
  obtain ⟨outer, parts, inner, rfl, houter, hparts, hmode⟩ := h
  obtain ⟨frames, sparts, mode⟩ := s
  unfold State.step
  cases hmode with
  | text read ls =>
    dsimp only
    split_ifs with hescape hopening hend
    · exact ⟨outer, parts, _, by rw [List.append_assoc, hescape], houter, hparts,
        .escaped read offset ls⟩
    · exact ⟨outer, parts, _, by rw [List.append_assoc, hopening], houter, hparts, .opened read ls⟩
    · have hpart : (PartTree.mk ls []).Proper := trivial
      rw [← PartTree.written_mk_nil]
      exact leads_afterPart houter hparts hpart _ offset
    · have hplain : isSentinel c = false := by
        simp only [isPartEnd, Bool.or_eq_true, decide_eq_true_eq, not_or] at hend
        simp [isSentinel, sentinels, hescape, hopening, hend]
      refine ⟨outer, parts, _, ?_, houter, hparts, .text _ (ls ++ [.plain c hplain])⟩
      simp [Letter.written]
  | escaped read start ls =>
    refine ⟨outer, parts, _, ?_, houter, hparts, .text _ (ls ++ [.escaped c])⟩
    simp [Letter.written]
  | opened text ls =>
    dsimp only
    split_ifs with hsep hclose
    · obtain ⟨r, rfl⟩ := exists_separator hsep
      have hslots : ∀ s ∈ ([] : List SlotTree), s.Proper := by simp
      refine ⟨_, [], [], ?_, .cons _ houter hparts ls hslots r, by simp, .text "" []⟩
      simp [dotted, slotsText]
    · trivial
    · trivial
  | closed part hp =>
    dsimp only
    split_ifs with hend
    · exact leads_afterPart houter hparts hp _ offset
    · trivial

/-- What is read to its end is derived. -/
theorem State.Reads.finish (h : s.Reads cs) {offset : Nat} {n : QualifiedName}
    (hn : s.finish offset = .ok n) : ∃ tree : NameTree, tree.Proper ∧ tree.written = cs := by
  obtain ⟨outer, parts, inner, rfl, houter, hparts, hmode⟩ := h
  obtain ⟨frames, sparts, mode⟩ := s
  have hof {last : PartTree} (hlast : last.Proper) :
      ∃ tree : NameTree, tree.Proper ∧ tree.written = [] ++ dotted parts ++ last.written :=
    ⟨.ofParts parts last, NameTree.proper_ofParts hparts hlast, NameTree.written_ofParts parts last⟩
  unfold State.finish at hn
  cases houter with
  | cons => cases hmode <;> cases hn
  | nil =>
    cases hmode with
    | text read ls =>
      have hlast : (PartTree.mk ls []).Proper := trivial
      rw [← PartTree.written_mk_nil]
      exact hof hlast
    | escaped => cases hn
    | opened => cases hn
    | closed part hp => exact hof hp

end NameResolution.Mangled
