import NameResolution.Proofs.Mangled.Reading
import NameResolution.Proofs.Session.Failures

/-!
# What is accepted

The reader accepts what the grammar derives, and nothing else (`accepts_grammar`). A name
that comes out is that of the one derivation of its text. A text that has a derivation is
never called malformed : reading it ends otherwise only when the name of a parameter cannot
be found (`NameTree.lookupStops`), and no lookup reads a mangled text
(`legible_findNamed`).

One of the reader's complaints is never heard. A part ends at the end of the text, before a
sentinel that may follow it, or with the group that is checked by itself; no other character
is ever found after a part (`State.step_ne_stop_unexpected`).
-/

namespace NameResolution

open Mangled Session

variable {L T W : Type}

/-! ## Derivations of texts -/

namespace Mangled

/-- The grammar derives the text in this way. -/
def NameTree.Derives (tree : NameTree) (text : String) : Prop :=
  tree.Proper ∧ tree.written = text.toList

theorem NameTree.Derives.unique {tree other : NameTree} {text : String} (h : tree.Derives text)
    (h' : other.Derives text) : other = tree :=
  NameTree.written_injective h'.1 h.1 (h'.2.trans h.2.symm)

mutual

/-- The names of the parameters of a part, those in them before them. -/
def PartTree.names : PartTree → List NameTree
  | .mk _ slots => slotsNames slots

/-- The names of the parameters in slots. -/
def slotsNames : List SlotTree → List NameTree
  | [] => []
  | slot :: slots => slot.names ++ slotsNames slots

/-- The names of the parameters in a slot, the last of which is its own. -/
def SlotTree.names : SlotTree → List NameTree
  | .void _ => []
  | .named _ name => name.names ++ [name]

/-- The names of the parameters of a name. -/
def NameTree.names : NameTree → List NameTree
  | .mk first rest => first.names ++ restNames rest

/-- The names of the parameters of parts. -/
def restNames : List PartTree → List NameTree
  | [] => []
  | part :: parts => part.names ++ restNames parts

end

end Mangled

/-! ## Lookups that stop -/

/-- A stop comes from looking one of these names up from the root, once it had been resolved. -/
def LookupStops (services : Services L T W) (names : List NameTree) (stop : Stop)
    (s' : Session L T W) : Prop :=
  ∃ tree ∈ names, ∃ n s s₁, (tree.resolve services).run s = (.ok n, s₁) ∧
    (findNamed services rootScope n).run s₁ = (.error stop, s')

variable {services : Services L T W} {names more : List NameTree} {stop : Stop}
  {s s' : Session L T W}

/-- A lookup that stops among some names stops among more of them. -/
theorem LookupStops.append_left (h : LookupStops services names stop s') (more : List NameTree) :
    LookupStops services (names ++ more) stop s' := by
  obtain ⟨tree, hmem, h⟩ := h
  exact ⟨tree, List.mem_append_left more hmem, h⟩

/-- Names that are looked up before do not matter. -/
theorem LookupStops.append_right (names : List NameTree) (h : LookupStops services more stop s') :
    LookupStops services (names ++ more) stop s' := by
  obtain ⟨tree, hmem, h⟩ := h
  exact ⟨tree, List.mem_append_right names hmem, h⟩

namespace Mangled

mutual

/-- Resolving a part stops where looking one of its names up does. -/
theorem PartTree.lookupStops : ∀ (p : PartTree) {s s' : Session L T W},
    (p.resolve services).run s = (.error stop, s') → LookupStops services p.names stop s'
  | .mk text slots, s, s', h => by
    rcases exists_of_run_bind_eq_error h with h | ⟨params, s₁, -, h⟩
    · exact slotsNames_lookupStops slots h
    · cases h

theorem slotsNames_lookupStops : ∀ (slots : List SlotTree) {s s' : Session L T W},
    (resolveSlots services slots).run s = (.error stop, s') →
      LookupStops services (slotsNames slots) stop s'
  | [], s, s', h => by cases h
  | slot :: slots, s, s', h => by
    rcases exists_of_run_bind_eq_error h with h | ⟨p, s₁, -, h⟩
    · exact (slot.lookupStops h).append_left _
    · rcases exists_of_run_bind_eq_error h with h | ⟨ps, s₂, -, h⟩
      · exact (slotsNames_lookupStops slots h).append_right _
      · cases h

theorem SlotTree.lookupStops : ∀ (slot : SlotTree) {s s' : Session L T W},
    (slot.resolve services).run s = (.error stop, s') → LookupStops services slot.names stop s'
  | .void _, s, s', h => by cases h
  | .named _ name, s, s', h => by
    rcases exists_of_run_bind_eq_error h with h | ⟨n, s₁, hn, h⟩
    · exact (name.lookupStops h).append_left _
    · rcases exists_of_run_bind_eq_error h with h | ⟨e, s₂, -, h⟩
      · exact LookupStops.append_right _ ⟨name, List.mem_singleton_self name, n, s, s₁, hn, h⟩
      · cases h

/-- Resolving a name stops where looking one of its names up does. -/
theorem NameTree.lookupStops : ∀ (tree : NameTree) {s s' : Session L T W},
    (tree.resolve services).run s = (.error stop, s') → LookupStops services tree.names stop s'
  | .mk first rest, s, s', h => by
    rcases exists_of_run_bind_eq_error h with h | ⟨p, s₁, -, h⟩
    · exact (first.lookupStops h).append_left _
    · rcases exists_of_run_bind_eq_error h with h | ⟨ps, s₂, -, h⟩
      · exact (restNames_lookupStops rest h).append_right _
      · cases h

theorem restNames_lookupStops : ∀ (parts : List PartTree) {s s' : Session L T W},
    (resolveRest services parts).run s = (.error stop, s') →
      LookupStops services (restNames parts) stop s'
  | [], s, s', h => by cases h
  | part :: parts, s, s', h => by
    rcases exists_of_run_bind_eq_error h with h | ⟨p, s₁, -, h⟩
    · exact (part.lookupStops h).append_left _
    · rcases exists_of_run_bind_eq_error h with h | ⟨ps, s₂, -, h⟩
      · exact (restNames_lookupStops parts h).append_right _
      · cases h

end

end Mangled

/-- A lookup does not stop because a text breaks the grammar. -/
theorem LookupStops.not_isMalformed (hs : Replies services) {f : Failure}
    (h : LookupStops services names (.failure f) s') : ¬f.IsMalformed := by
  obtain ⟨tree, -, n, s, s₁, -, h⟩ := h
  exact legible_findNamed hs rootScope n s₁ f s' h

/-! ## The complaint that is never made -/

/-- The failure is that a text breaks the grammar for this reason. -/
def Failure.Blames (reason : String) (f : Failure) : Prop :=
  ∃ text position, f = .malformed text position reason

theorem Failure.Blames.isMalformed {reason : String} {f : Failure} (h : f.Blames reason) :
    f.IsMalformed := by
  obtain ⟨text, position, rfl⟩ := h
  trivial

namespace Mangled

variable {state : State} {c : Char} {offset position : Nat}

theorem State.endParam_ne_stop (frame : Frame) (name : Option QualifiedName)
    (next : Frame → State) (reason : String) :
    State.endParam frame name next ≠ .stop position reason := by
  cases name <;> nofun

/-- Characters that may follow a part are told from each other. -/
theorem State.afterPart_ne_stop_unexpected (hc : State.isPartEnd c = true) (last : NamePart) :
    state.afterPart last offset c ≠ .stop position "unexpected character after a part" := by
  simp only [State.isPartEnd, Bool.or_eq_true, decide_eq_true_eq, or_assoc] at hc
  unfold State.afterPart
  by_cases hdot : c = dot
  · simp [hdot]
  · rw [if_neg hdot, if_pos (hc.resolve_left hdot)]
    cases state.frames with
    | nil =>
      dsimp only
      split_ifs <;> simp
    | cons frame frames => exact State.endParam_ne_stop frame _ _ _

/-- No state is left because of the character after a part. -/
theorem State.step_ne_stop_unexpected (state : State) :
    state.step offset c ≠ .stop position "unexpected character after a part" := by
  unfold State.step
  cases state.mode with
  | text read =>
    dsimp only
    split_ifs with _ _ hend
    · nofun
    · nofun
    · exact State.afterPart_ne_stop_unexpected hend _
    · nofun
  | escaped read start => nofun
  | opened text =>
    dsimp only
    split_ifs <;> simp
  | closed part =>
    dsimp only
    split_ifs with hend
    · exact State.afterPart_ne_stop_unexpected hend _
    · simp

/-- At the end of the text, no character is unexpected. -/
theorem State.finish_ne_unexpected (state : State) :
    state.finish offset ≠ .error (position, "unexpected character after a part") := by
  obtain ⟨frames, parts, mode⟩ := state
  unfold State.finish
  cases mode <;> cases frames <;> simp

end Mangled

/-- Reading does not fail because of the character after a part. -/
theorem failsWith_readFrom (hs : Replies services) (text : String) (cs : List Char) (offset : Nat)
    (state : State) : FailsWith (readFrom services text cs offset state)
      fun f => ¬f.Blames "unexpected character after a part" := by
  induction cs generalizing offset state with
  | nil =>
    unfold readFrom
    rcases h : state.finish offset with ⟨position, reason⟩ | n
    · refine failsWith_fail ?_
      rintro ⟨_, _, he⟩
      obtain ⟨-, -, rfl⟩ := Failure.malformed.inj he
      exact state.finish_ne_unexpected h
    · exact failsWith_pure n
  | cons c cs ih =>
    unfold readFrom
    cases h : state.step offset c with
    | go next => exact ih _ next
    | ask n next =>
      refine FailsWith.bind ?_ fun e => ih _ (next e)
      exact fun s f s' hf hb => legible_findNamed hs rootScope n s f s' hf hb.isMalformed
    | stop position reason =>
      refine failsWith_fail ?_
      rintro ⟨_, _, he⟩
      obtain ⟨-, -, rfl⟩ := Failure.malformed.inj he
      exact state.step_ne_stop_unexpected h

/-- Reading never blames an unexpected character : whatever comes after a part continues or ends
something. -/
theorem failsWith_readMangled (hs : Replies services) (text : String) :
    FailsWith (readMangled services text)
      fun f => ¬f.Blames "unexpected character after a part" := by
  unfold readMangled
  split_ifs
  · exact failsWith_pure _
  · exact failsWith_readFrom hs text _ _ _

/-! ## Answers -/

namespace Session

theorem perform_readMangled (host : Host L T W) (fuel : Nat) (text : String) :
    host.perform fuel (.readMangled text) s =
      (attempt (readMangled (host.services fuel) text)).run s :=
  rfl

/-- Reading accepts the grammar, in every session and for every text. The empty text is the name of
the root. Any other text that is read to its end has one derivation, whose shape the name has, and
the types of its parameters were found one after the other. A text that is derived is read like
that; if this comes to a failure or breaks off, then where one of its parameters' names is looked up
from the root, and the text is not called malformed. In no case is the character after a part
blamed. -/
theorem accepts_grammar (host : Host L T W) (fuel : Nat) (s : Session L T W) (text : String) :
    (text = "" →
      host.perform fuel (.readMangled text) s = (.ok (.ok QualifiedName.root), s)) ∧
    (text ≠ "" → ∀ n s', host.perform fuel (.readMangled text) s = (.ok (.ok n), s') →
      ∃ tree : NameTree, tree.Derives text ∧ (∀ other, other.Derives text → other = tree) ∧
        tree.Fits n ∧ (tree.resolve (host.services fuel)).run s = (.ok n, s')) ∧
    (text ≠ "" → ∀ tree : NameTree, tree.Derives text →
      host.perform fuel (.readMangled text) s =
          (attempt (tree.resolve (host.services fuel))).run s ∧
        (∀ f s', host.perform fuel (.readMangled text) s = (.ok (.error f), s') →
          ¬f.IsMalformed ∧ LookupStops (host.services fuel) tree.names (.failure f) s') ∧
        ∀ stop s', host.perform fuel (.readMangled text) s = (.error stop, s') →
          LookupStops (host.services fuel) tree.names stop s') ∧
    ∀ f s', host.perform fuel (.readMangled text) s = (.ok (.error f), s') →
      ¬f.Blames "unexpected character after a part" := by
  simp only [perform_readMangled]
  have hread (tree : NameTree) (hne : text ≠ "") (h : tree.Derives text) :
      readMangled (host.services fuel) text = tree.resolve (host.services fuel) := by
    have hwritten : tree.written ≠ [] := by simpa [h.2] using hne
    rw [← readMangled_written _ h.1 hwritten, h.2, String.ofList_toList]
  refine ⟨?_, fun hne n s' h => ?_, fun hne tree htree => ?_, fun f s' h => ?_⟩
  · rintro rfl
    rfl
  · have h := run_attempt_eq_ok h
    obtain ⟨tree, htree⟩ := exists_derivation_of_readMangled _ hne h
    rw [hread tree hne htree] at h
    exact ⟨tree, htree, fun other hother => NameTree.Derives.unique htree hother,
      tree.fits_resolve _ s n s' h, h⟩
  · rw [hread tree hne htree]
    refine ⟨rfl, fun f s' h => ?_, fun stop s' h => tree.lookupStops (run_attempt_eq_error h)⟩
    have hstops := tree.lookupStops (run_attempt_eq_ok h)
    exact ⟨hstops.not_isMalformed (replies_services host fuel), hstops⟩
  · exact failsWith_readMangled (replies_services host fuel) text s f s' (run_attempt_eq_ok h)

/-- The derivation of a part with one parameter, void by reference. -/
def voidTree : NameTree :=
  .mk (.mk [.plain 'f' rfl] [.void true]) []

/-- The text of a part with void by reference is read as that part. -/
theorem accepts_grammar_voidTree :
    voidTree.Derives "f\x02\x05\x03" ∧ ∀ (host : Host Unit Unit Unit) fuel s,
      host.perform fuel (.readMangled "f\x02\x05\x03") s =
        (.ok (.ok [.simple "f" [⟨none, true⟩]]), s) := by
  have h : voidTree.Derives "f\x02\x05\x03" := ⟨⟨⟨trivial, trivial⟩, trivial⟩, by decide⟩
  refine ⟨h, fun host fuel s => ?_⟩
  exact ((accepts_grammar host fuel s _).2.2.1 (by decide) voidTree h).1

end Session

end NameResolution
