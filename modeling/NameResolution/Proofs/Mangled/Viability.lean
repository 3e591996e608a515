import NameResolution.Proofs.Mangled.Acceptance

/-!
# Where a fault is seen

A text that is not derived is left at a character, and the offset of the fault says at which.
This is the first one that no derivation can go on with (`faults_located`).

That the characters before it can go on is seen from the state they lead to : whatever has been
read is the beginning of a derivation, and it is completed by closing the groups that are open
(`State.Reads.viable`). That they cannot go on with the character at the offset is seen from the
reader. A derivation that begins with them would be read like the text (`Arrives.run_readFrom`),
so it would be left at the same character, but a derived text is never called malformed
(`Arrives.not_derived`). No argument about the grammar is needed for this, and the complaint need
not be looked at.

An escape at the end of a text is blamed at its own offset, although any character may follow it.
-/

namespace NameResolution

open Mangled Session

variable {L T W : Type}

namespace Mangled

/-! ## Beginnings that can go on -/

/-- The grammar derives a text that begins with this one. -/
def Viable (text : String) : Prop :=
  ∃ (rest : String) (tree : NameTree), tree.Derives (text ++ rest)

variable {state : State} {outer inner cs : List Char} {parts : List PartTree} {last : PartTree}
  {c : Char} {offset position : Nat} {reason : String}

/-- The groups that are open can be closed after any part. -/
theorem FramesRead.completed {frames : List Frame} (h : FramesRead frames outer)
    (hparts : ∀ p ∈ parts, p.Proper) (hlast : last.Proper) :
    ∃ (rest : List Char) (tree : NameTree), tree.Proper ∧
      tree.written = outer ++ dotted parts ++ last.written ++ rest := by
  induction h generalizing parts last with
  | nil =>
    refine ⟨[], .ofParts parts last, NameTree.proper_ofParts hparts hlast, ?_⟩
    simp [NameTree.written_ofParts]
  | @cons frame frames outer _ before hbefore ls slots hslots byReference ih =>
    obtain ⟨slot, hslot, hwritten⟩ := SlotTree.exists_ofParts hparts hlast byReference
    have hslots' : ∀ s ∈ slots ++ [slot], s.Proper := by
      rw [List.forall_mem_append]
      exact ⟨hslots, List.forall_mem_singleton.2 hslot⟩
    have hpart : (PartTree.mk ls (slots ++ [slot])).Proper := properSlots_iff.2 hslots'
    obtain ⟨rest, tree, htree, htext⟩ := ih hbefore hpart
    refine ⟨closing :: rest, tree, htree, ?_⟩
    rw [htext, PartTree.written_mk_concat, slotsText_concat slots hwritten]
    simp

/-- The part that is being read can be completed. -/
theorem Mode.Reads.completed {mode : Mode} (h : mode.Reads inner) :
    ∃ (rest : List Char) (last : PartTree), last.Proper ∧ last.written = inner ++ rest := by
  cases h with
  | text read ls => exact ⟨[], .mk ls [], trivial, by simp [PartTree.written_mk_nil]⟩
  | escaped read start ls =>
    refine ⟨[escape], .mk (ls ++ [.escaped escape]) [], trivial, ?_⟩
    simp [PartTree.written_mk_nil, Letter.written]
  | opened text ls =>
    have hslots : ∀ s ∈ [SlotTree.void false], s.Proper :=
      List.forall_mem_singleton.2 trivial
    refine ⟨[separator false, closing], .mk ls [.void false], properSlots_iff.2 hslots, ?_⟩
    simp [PartTree.written, slotsText, SlotTree.written, group]
  | closed part htree => exact ⟨[], _, htree, (List.append_nil _).symm⟩

/-- Whatever has been read can go on. -/
theorem State.Reads.viable (h : state.Reads cs) : Viable (String.ofList cs) := by
  obtain ⟨outer, parts, inner, rfl, houter, hparts, hmode⟩ := h
  obtain ⟨more, last, hlast, hinner⟩ := hmode.completed
  obtain ⟨rest, tree, htree, htext⟩ := houter.completed hparts hlast
  refine ⟨String.ofList (more ++ rest), tree, htree, ?_⟩
  rw [htext, hinner]
  simp

/-- After an escape, any character can be read. -/
theorem State.Reads.viable_escaped {read : String} (h : state.Reads cs)
    (hmode : state.mode = .escaped read position) (c : Char) :
    Viable ((String.ofList cs).push c) := by
  have hstep := h.step (c := c) 0
  unfold State.step at hstep
  rw [hmode] at hstep
  simpa using State.Reads.viable hstep

/-- What ends with an escape could be read before it. -/
theorem State.Reads.exists_escape {read : String} (h : state.Reads cs)
    (hmode : state.mode = .escaped read position) :
    ∃ before, cs = before ++ [escape] ∧ Viable (String.ofList before) := by
  obtain ⟨outer, parts, inner, rfl, houter, hparts, hinner⟩ := h
  rw [hmode] at hinner
  cases hinner with
  | escaped _ _ ls =>
    refine ⟨outer ++ dotted parts ++ ls.flatMap Letter.written, (List.append_assoc ..).symm, ?_⟩
    have hbefore : State.Reads { state with mode := .text read }
        (outer ++ dotted parts ++ ls.flatMap Letter.written) :=
      ⟨outer, parts, _, rfl, houter, hparts, .text read ls⟩
    exact hbefore.viable

/-! ## Where a state is left -/

/-- The escape that was read last stands right before the offset. -/
def State.Dated (state : State) (offset : Nat) : Prop :=
  ∀ read start, state.mode = .escaped read start → start + escape.utf8Size = offset

theorem State.dated_of_ne (h : ∀ read start, state.mode ≠ .escaped read start) :
    state.Dated offset :=
  fun read start hmode => absurd hmode (h read start)

theorem leads_dated_afterPart (last : NamePart) :
    (state.afterPart last offset c).Leads (·.Dated position) := by
  unfold State.afterPart
  by_cases hdot : c = dot
  · rw [if_pos hdot]
    exact State.dated_of_ne nofun
  rw [if_neg hdot]
  by_cases hend : c = closing ∨ c = comma ∨ c = referenceComma
  · rw [if_pos hend]
    cases state.frames with
    | nil =>
      dsimp only
      split_ifs <;> trivial
    | cons frame frames =>
      refine leads_endParam (fun frame => State.dated_of_ne ?_) frame _
      split_ifs <;> nofun
  · rw [if_neg hend]
    trivial

/-- Only the escape itself leads to a state after an escape. -/
theorem State.leads_dated (state : State) :
    (state.step offset c).Leads (·.Dated (offset + c.utf8Size)) := by
  unfold State.step
  cases state.mode with
  | text read =>
    dsimp only
    split_ifs with hescape
    · rintro _ _ ⟨⟩
      rw [hescape]
    · exact State.dated_of_ne nofun
    · exact leads_dated_afterPart _
    · exact State.dated_of_ne nofun
  | escaped read start => exact State.dated_of_ne nofun
  | opened text =>
    dsimp only
    split_ifs
    · exact State.dated_of_ne nofun
    · trivial
    · trivial
  | closed part =>
    dsimp only
    split_ifs
    · exact leads_dated_afterPart _
    · trivial

/-- Reading ends in this state, before this character or at the end of the text, and this is
blamed. -/
def State.Stops (state : State) (offset : Nat) (next : Option Char) (position : Nat)
    (reason : String) : Prop :=
  match next with
  | none => state.finish offset = .error (position, reason)
  | some c => state.step offset c = .stop position reason

/-- The complaint about a text that ends after an escape. -/
def dangling : String := "escape at end of input"

/-- A stop after a part is at the character that is read, and no escape dangles there. -/
theorem afterPart_eq_stop {last : NamePart}
    (h : state.afterPart last offset c = .stop position reason) :
    position = offset ∧ reason ≠ dangling := by
  unfold State.afterPart at h
  by_cases hdot : c = dot
  · rw [if_pos hdot] at h
    cases h
  rw [if_neg hdot] at h
  by_cases hend : c = closing ∨ c = comma ∨ c = referenceComma
  · rw [if_pos hend] at h
    cases hframes : state.frames with
    | nil =>
      rw [hframes] at h
      dsimp only at h
      split_ifs at h
      all_goals
        cases h
        exact ⟨rfl, by decide⟩
    | cons frame frames =>
      rw [hframes] at h
      exact absurd h (State.endParam_ne_stop _ _ _ _)
  · rw [if_neg hend] at h
    cases h
    exact ⟨rfl, by decide⟩

/-- A character is blamed where it stands. -/
theorem State.step_eq_stop (h : state.step offset c = .stop position reason) :
    position = offset ∧ reason ≠ dangling := by
  unfold State.step at h
  cases hmode : state.mode with
  | text read =>
    rw [hmode] at h
    dsimp only at h
    split_ifs at h
    exact afterPart_eq_stop h
  | escaped read start =>
    rw [hmode] at h
    cases h
  | opened text =>
    rw [hmode] at h
    dsimp only at h
    split_ifs at h
    all_goals
      cases h
      exact ⟨rfl, by decide⟩
  | closed part =>
    rw [hmode] at h
    dsimp only at h
    split_ifs at h
    · exact afterPart_eq_stop h
    · cases h
      exact ⟨rfl, by decide⟩

/-- The end of a text is blamed at its offset, unless an escape stands before it. -/
theorem State.finish_eq_error (h : state.finish offset = .error (position, reason)) :
    (position = offset ∧ reason ≠ dangling) ∨
      reason = dangling ∧ ∃ read, state.mode = .escaped read position := by
  obtain ⟨frames, parts, mode⟩ := state
  unfold State.finish at h
  cases mode with
  | escaped read start =>
    cases h
    exact Or.inr ⟨rfl, read, rfl⟩
  | opened text =>
    cases h
    exact Or.inl ⟨rfl, by decide⟩
  | text read =>
    cases frames <;> cases h
    exact Or.inl ⟨rfl, by decide⟩
  | closed part =>
    cases frames <;> cases h
    exact Or.inl ⟨rfl, by decide⟩

/-- The reader stops at the character that it reads, or at the escape that dangles at the end of the
text. -/
theorem State.Stops.cases {next : Option Char} (h : state.Stops offset next position reason) :
    (position = offset ∧ reason ≠ dangling) ∨
      next = none ∧ reason = dangling ∧ ∃ read, state.mode = .escaped read position := by
  cases next with
  | none => exact (State.finish_eq_error h).imp id fun h => ⟨rfl, h⟩
  | some c => exact Or.inl (State.step_eq_stop h)

end Mangled

/-! ## Arriving at a state -/

/-- Reading the characters in this state, at this offset and in this session leads to that state
and session, whatever comes after them. -/
inductive Arrives (services : Services L T W) :
    State → Nat → Session L T W → List Char → State → Session L T W → Prop
  | nil (state : State) (offset : Nat) (s : Session L T W) :
    Arrives services state offset s [] state s
  | go {state next last : State} {offset : Nat} {s s' : Session L T W} {c : Char} {cs : List Char}
    (hstep : state.step offset c = .go next)
    (hrest : Arrives services next (offset + c.utf8Size) s cs last s') :
    Arrives services state offset s (c :: cs) last s'
  | ask {state last : State} {next : EntityId → State} {n : QualifiedName} {e : EntityId}
    {offset : Nat} {s s₁ s' : Session L T W} {c : Char} {cs : List Char}
    (hstep : state.step offset c = .ask n next)
    (hfound : (findNamed services rootScope n).run s = (.ok e, s₁))
    (hrest : Arrives services (next e) (offset + c.utf8Size) s₁ cs last s') :
    Arrives services state offset s (c :: cs) last s'

variable {services : Services L T W} {state last : State} {offset position : Nat}
  {s s₁ s' : Session L T W} {cs before after : List Char} {source encoded reason : String}

/-- What every step keeps holds in the state that is arrived at. -/
theorem Arrives.keeps (h : Arrives services state offset s cs last s')
    {P : List Char → Nat → State → Prop} (read : List Char) (hP : P read offset state)
    (hstep : ∀ read offset state c, P read offset state →
      (state.step offset c).Leads (P (read ++ [c]) (offset + c.utf8Size))) :
    P (read ++ cs) (offset + width cs) last := by
  induction h generalizing read with
  | nil state offset s => rwa [List.append_nil]
  | @go state next last offset s s' c cs hgo hrest ih =>
    have hnext := hstep read offset state c hP
    rw [hgo] at hnext
    rw [List.append_cons, width, ← Nat.add_assoc]
    exact ih _ hnext
  | @ask state last next n e offset s s₁ s' c cs hask hfound hrest ih =>
    have hnext := hstep read offset state c hP
    rw [hask] at hnext
    rw [List.append_cons, width, ← Nat.add_assoc]
    exact ih _ (hnext e)

/-- A state that the reader arrives at tells what it has read. -/
theorem Arrives.reads (h : Arrives services {} 0 s cs last s') : last.Reads cs :=
  h.keeps (P := fun read _ state => state.Reads read) [] State.reads_initial
    fun _ offset _ _ hreads => hreads.step offset

/-- The states of the reader carry the offsets at which things began. -/
theorem Arrives.dated (h : Arrives services {} 0 s cs last s') : last.Dated (width cs) := by
  have hinitial : State.Dated {} 0 := State.dated_of_ne nofun
  have hdated := h.keeps (P := fun _ offset state => state.Dated offset) [] hinitial
    fun _ _ state _ _ => state.leads_dated
  rwa [Nat.zero_add] at hdated

/-- Reading goes on from the state that is arrived at. -/
theorem Arrives.run_readFrom (h : Arrives services state offset s cs last s') (source : String)
    (rest : List Char) :
    (readFrom services source (cs ++ rest) offset state).run s =
      (readFrom services source rest (offset + width cs) last).run s' := by
  induction h with
  | nil state offset s => rfl
  | go hgo hrest ih =>
    rw [List.cons_append, readFrom, hgo, width, ← Nat.add_assoc]
    exact ih
  | ask hask hfound hrest ih =>
    rw [List.cons_append, readFrom, hask, width, ← Nat.add_assoc]
    exact (run_bind_of_ok hfound _).trans ih

/-- Where the reader stops, reading fails with the position and the reason. -/
theorem run_readFrom_of_stops (h : state.Stops offset cs.head? position reason)
    (source : String) :
    (readFrom services source cs offset state).run s =
      (.error (.failure (.malformed source position reason)), s) := by
  cases cs with
  | nil =>
    rw [readFrom, show state.finish offset = _ from h]
    rfl
  | cons c cs =>
    rw [readFrom, show state.step offset c = _ from h]
    rfl

/-- A text is malformed where reading arrives at a state that is left. -/
theorem exists_arrives_of_malformed (hs : Replies services)
    (h : (readFrom services source cs offset state).run s =
      (.error (.failure (.malformed encoded position reason)), s')) :
    encoded = source ∧ ∃ before after last s₁, cs = before ++ after ∧
      Arrives services state offset s before last s₁ ∧
      last.Stops (offset + width before) after.head? position reason := by
  induction cs generalizing offset state s with
  | nil =>
    rw [readFrom] at h
    rcases hfinish : state.finish offset with ⟨position', reason'⟩ | n
    all_goals
      rw [hfinish] at h
      cases h
    exact ⟨rfl, [], [], state, s', rfl, .nil state offset s', hfinish⟩
  | cons c cs ih =>
    rw [readFrom] at h
    cases hstep : state.step offset c with
    | go next =>
      rw [hstep] at h
      obtain ⟨hsource, before, after, last, s₁, rfl, harrives, hstops⟩ := ih h
      rw [Nat.add_assoc] at hstops
      exact ⟨hsource, c :: before, after, last, s₁, rfl, .go hstep harrives, hstops⟩
    | ask n next =>
      rw [hstep] at h
      rcases exists_of_run_bind_eq_error h with h | ⟨e, s₂, hfound, h⟩
      · exact absurd trivial (legible_findNamed hs rootScope n _ _ _ h)
      · obtain ⟨hsource, before, after, last, s₁, rfl, harrives, hstops⟩ := ih h
        rw [Nat.add_assoc] at hstops
        exact ⟨hsource, c :: before, after, last, s₁, rfl, .ask hstep hfound harrives, hstops⟩
    | stop position' reason' =>
      rw [hstep] at h
      cases h
      exact ⟨rfl, [], c :: cs, state, s', rfl, .nil state offset s', hstep⟩

/-- Nothing that begins like this and goes on with the same character is derived : reading it would
end in the same state. -/
theorem Arrives.not_derived (hs : Replies services)
    (h : Arrives services {} 0 s before last s₁)
    (hstops : last.Stops (width before) after.head? position reason) {tree : NameTree}
    (htree : tree.Proper) : tree.written ≠ before ++ after := by
  intro hwritten
  have hne : tree.written ≠ [] := by
    intro hempty
    obtain ⟨rfl, rfl⟩ := List.append_eq_nil_iff.1 (hwritten.symm.trans hempty)
    cases h
    cases hstops
  have hread := readMangled_written services htree hne
  have hempty : ¬(String.ofList tree.written).isEmpty = true := by simpa using hne
  rw [readMangled, if_neg hempty, String.toList_ofList] at hread
  have hrun := h.run_readFrom (String.ofList tree.written) after
  rw [← hwritten, hread, Nat.zero_add, run_readFrom_of_stops hstops] at hrun
  exact (tree.lookupStops hrun).not_isMalformed hs trivial

/-- Before a character that it is left at, the text cannot go on with it, and before the end it is
not derived. -/
theorem Arrives.not_viable (hs : Replies services) (h : Arrives services {} 0 s before last s₁)
    (hstops : last.Stops (width before) after.head? position reason) :
    (∀ c rest, String.ofList after = String.singleton c ++ rest →
      ¬Viable ((String.ofList before).push c)) ∧
    (String.ofList after = "" → ∀ tree : NameTree, ¬tree.Derives (String.ofList before)) := by
  constructor
  · rintro c rest hc ⟨more, tree, htree, hwritten⟩
    have hafter : after = c :: rest.toList := by simpa using congrArg String.toList hc
    have hhead : after.head? = (c :: more.toList).head? := by rw [hafter]; rfl
    exact h.not_derived hs (hhead ▸ hstops) htree (by simpa using hwritten)
  · rintro hempty tree ⟨htree, hwritten⟩
    obtain rfl : after = [] := by simpa using hempty
    exact h.not_derived hs hstops htree (by simpa using hwritten)

/-! ## The first fault -/

namespace Mangled

theorem utf8ByteSize_ofList (cs : List Char) : (String.ofList cs).utf8ByteSize = width cs := by
  induction cs with
  | nil => rfl
  | cons c cs ih =>
    rw [String.ofList_cons, String.utf8ByteSize_append, ih, width, String.utf8ByteSize_singleton]

end Mangled

namespace Session

/-- The offset of a fault is the first one that no derivation gets past, in every session and for
every text. Some derivation begins with the characters before it, none with these and the one that
stands there, and if the text ends there, it is not derived. Only an escape at the end of a text is
different : it is blamed itself, and any character may follow it. -/
theorem faults_located (host : Host L T W) (fuel : Nat) (s s' : Session L T W)
    (text encoded reason : String) (position : Nat)
    (h : host.perform fuel (.readMangled text) s =
      (.ok (.error (.malformed encoded position reason)), s')) :
    encoded = text ∧ position ≤ text.utf8ByteSize ∧
    ∃ before after, text = before ++ after ∧ before.utf8ByteSize = position ∧ Viable before ∧
      (reason ≠ dangling →
        (∀ c rest, after = String.singleton c ++ rest → ¬Viable (before.push c)) ∧
        (after = "" → ∀ tree : NameTree, ¬tree.Derives text)) ∧
      (reason = dangling → after = String.singleton escape ∧ ∀ c, Viable (text.push c)) := by
  have hs := replies_services host fuel
  rw [perform_readMangled] at h
  replace h := run_attempt_eq_ok h
  rw [readMangled] at h
  split_ifs at h with hempty
  · cases h
  obtain ⟨rfl, before, after, last, s₁, hsplit, harrives, hstops⟩ :=
    exists_arrives_of_malformed hs h
  rw [Nat.zero_add] at hstops
  refine ⟨rfl, ?_⟩
  obtain rfl : encoded = String.ofList (before ++ after) := by
    rw [← hsplit, String.ofList_toList]
  rcases hstops.cases with ⟨rfl, hreason⟩ | ⟨hafter, hreason, read, hmode⟩
  · have hsize := utf8ByteSize_ofList before
    have hnot := harrives.not_viable hs hstops
    refine ⟨?_, _, _, String.ofList_append, hsize, harrives.reads.viable,
      fun _ => ⟨hnot.1, fun hend => ?_⟩, fun h => absurd h hreason⟩
    · rw [utf8ByteSize_ofList, width_append]
      exact Nat.le_add_right _ _
    · rw [String.ofList_append, hend, String.append_empty]
      exact hnot.2 hend
  · obtain rfl : after = [] := List.head?_eq_none_iff.1 hafter
    rw [List.append_nil]
    obtain ⟨begun, rfl, hviable⟩ := harrives.reads.exists_escape hmode
    have hwidth : width (begun ++ [escape]) = width begun + escape.utf8Size := by
      simp [width_append, width]
    obtain rfl : position = width begun := by
      have hdated := harrives.dated read position hmode
      omega
    refine ⟨?_, _, _, String.ofList_append, utf8ByteSize_ofList begun, hviable,
      fun h => absurd hreason h, fun _ => ⟨rfl, harrives.reads.viable_escaped hmode⟩⟩
    rw [utf8ByteSize_ofList, hwidth]
    exact Nat.le_add_right _ _

/-- After a character of two bytes, a group without a parameter inside a group, and an escape. -/
theorem faults_located_twoBytes :
    (∀ (host : Host Unit Unit Unit) fuel s,
      host.perform fuel (.readMangled "é\x02\x04g\x02\x03") s =
          (.ok (.error (.malformed "é\x02\x04g\x02\x03" 6 "empty parameter group")), s) ∧
        ∃ before after, "é\x02\x04g\x02\x03" = before ++ after ∧ before.utf8ByteSize = 6 ∧
          Viable before ∧ ∀ c rest, after = String.singleton c ++ rest → ¬Viable (before.push c)) ∧
    ∀ (host : Host Unit Unit Unit) fuel s,
      host.perform fuel (.readMangled "é\x10") s =
          (.ok (.error (.malformed "é\x10" 2 dangling)), s) ∧
        ∃ before, "é\x10" = before ++ String.singleton escape ∧ before.utf8ByteSize = 2 := by
  constructor
  · intro host fuel s
    have h : host.perform fuel (.readMangled "é\x02\x04g\x02\x03") s =
        (.ok (.error (.malformed "é\x02\x04g\x02\x03" 6 "empty parameter group")), s) := rfl
    obtain ⟨-, -, before, after, htext, hsize, hviable, hnot, -⟩ :=
      faults_located host fuel s s _ _ _ _ h
    exact ⟨h, before, after, htext, hsize, hviable, (hnot (by decide)).1⟩
  · intro host fuel s
    have h : host.perform fuel (.readMangled "é\x10") s =
        (.ok (.error (.malformed "é\x10" 2 dangling)), s) := rfl
    obtain ⟨-, -, before, after, htext, hsize, -, -, hescape⟩ :=
      faults_located host fuel s s _ _ _ _ h
    exact ⟨h, before, (hescape rfl).1 ▸ htext, hsize⟩

end Session

end NameResolution
