import NameResolution.Proofs.Mangled.Derivations
import NameResolution.Proofs.Mangled.Recognizing
import NameResolution.Proofs.Session.Runs

/-!
# Reading follows the derivation

A derivation says what is to be done about a text : the entities of its parameters are
asked for, one after the other, and each as soon as its name is complete
(`NameTree.resolve`). Reading the text does exactly this (`readMangled_written`), in every
session and whatever the lookups do to it; and what is read to its end has a derivation
(`exists_derivation_of_readMangled`).

The name that comes out has the shape of the derivation (`NameTree.Fits`) : its texts, and
a parameter for every slot, void where the slot is. Where the types of parameters denote
their entities, a name that was written is read back (`run_readMangled`).
-/

namespace NameResolution

open Mangled

variable {L T W α β : Type}

/-! ## Resolving a derivation -/

namespace Mangled

variable (services : Services L T W)

mutual

/-- The part, the types of its parameters found one after the other. -/
def PartTree.resolve : PartTree → Run L T W NamePart
  | .mk text slots => do return .simple (meaning text) (← resolveSlots slots)

/-- The parameters in slots, their types found one after the other. -/
def resolveSlots : List SlotTree → Run L T W (List Param)
  | [] => return []
  | slot :: slots => do
    let p ← slot.resolve
    return p :: (← resolveSlots slots)

/-- The parameter in a slot : void, or the entity that its name denotes from the root. -/
def SlotTree.resolve : SlotTree → Run L T W Param
  | .void byReference => return ⟨none, byReference⟩
  | .named byReference name => do
    let e ← Session.findNamed services rootScope (← name.resolve)
    return ⟨some e, byReference⟩

/-- The name, the types of its parameters found one after the other. -/
def NameTree.resolve : NameTree → Run L T W QualifiedName
  | .mk first rest => do
    let p ← first.resolve
    return p :: (← resolveRest rest)

/-- The parts of a name, the types of their parameters found one after the other. -/
def resolveRest : List PartTree → Run L T W (List NamePart)
  | [] => return []
  | part :: parts => do
    let p ← part.resolve
    return p :: (← resolveRest parts)

end

end Mangled

namespace Session

/-! ## What runs yield -/

/-- Whatever the run returns has the property. -/
def Yields (act : Run L T W α) (P : α → Prop) : Prop :=
  ∀ s a s', act.run s = (.ok a, s') → P a

theorem yields_pure {P : α → Prop} {a : α} (h : P a) : Yields (pure a : Run L T W α) P := by
  intro s b s' hb
  rw [run_pure] at hb
  cases hb
  exact h

/-- What a run yields, the run that goes on with it may rely on. -/
theorem Yields.bind {act : Run L T W α} {f : α → Run L T W β} {P : α → Prop} {Q : β → Prop}
    (h : Yields act P) (hf : ∀ a, P a → Yields (f a) Q) : Yields (act >>= f) Q := by
  intro s b s' hb
  obtain ⟨a, s₁, ha, hb⟩ := exists_of_run_bind_eq_ok hb
  exact hf a (h s a s₁ ha) s₁ b s' hb

/-- What comes after a run need only agree on what the run yields. -/
theorem Yields.bind_congr {act : Run L T W α} {f g : α → Run L T W β} {P : α → Prop}
    (h : Yields act P) (hfg : ∀ a, P a → f a = g a) : act >>= f = act >>= g := by
  funext s
  show (act >>= f).run s = (act >>= g).run s
  rw [run_bind, run_bind]
  rcases hr : act.run s with ⟨stop | a, s'⟩
  · rfl
  · dsimp only
    rw [hfg _ (h s _ _ hr)]

end Session

/-! ## The shape of what is resolved -/

namespace Mangled

/-- The parameter is void where the slot is, and is taken as the separator says. -/
def SlotTree.Fits : SlotTree → Param → Prop
  | .void r, p => p = ⟨none, r⟩
  | .named r _, p => p.entity ≠ none ∧ p.byReference = r

/-- The part has the meaning of the derived text, and a parameter for every slot. -/
def PartTree.Fits : PartTree → NamePart → Prop
  | .mk text slots, p => ∃ params, p = .simple (meaning text) params ∧
    List.Forall₂ SlotTree.Fits slots params

/-- The name has a part for every derived part. -/
def NameTree.Fits : NameTree → QualifiedName → Prop
  | .mk first rest, n => List.Forall₂ PartTree.Fits (first :: rest) n

theorem meaning_eq_empty {text : List Letter} : meaning text = "" ↔ text = [] := by
  rw [← String.toList_inj]
  simp [meaning]

/-- Only what is written as nothing has the shape of a lone empty text. -/
theorem NameTree.Fits.ne_lone {tree : NameTree} {n : QualifiedName} (h : tree.Fits n)
    (hne : tree.written ≠ []) : n ≠ [.simple "" []] := by
  obtain ⟨⟨text, slots⟩, rest⟩ := tree
  rintro rfl
  obtain ⟨⟨params, hp, hslots⟩, hrest⟩ := List.forall₂_cons.1 h
  obtain ⟨htext, rfl⟩ := NamePart.simple.inj hp
  obtain rfl := meaning_eq_empty.1 htext.symm
  cases hslots
  cases hrest
  exact hne rfl

theorem NameTree.Fits.ne_nil {tree : NameTree} {n : QualifiedName} (h : tree.Fits n) : n ≠ [] := by
  rintro rfl
  cases tree
  cases h

variable (services : Services L T W)

mutual

theorem PartTree.fits_resolve : ∀ p : PartTree, Session.Yields (p.resolve services) p.Fits
  | .mk text slots => by
    unfold PartTree.resolve
    refine (fits_resolveSlots slots).bind fun params hparams => Session.yields_pure ?_
    exact ⟨params, rfl, hparams⟩

theorem fits_resolveSlots : ∀ slots : List SlotTree,
    Session.Yields (resolveSlots services slots) (List.Forall₂ SlotTree.Fits slots)
  | [] => Session.yields_pure .nil
  | slot :: slots => by
    unfold resolveSlots
    refine slot.fits_resolve.bind fun p hp => (fits_resolveSlots slots).bind fun ps hps => ?_
    exact Session.yields_pure (.cons hp hps)

theorem SlotTree.fits_resolve : ∀ s : SlotTree, Session.Yields (s.resolve services) s.Fits
  | .void r => Session.yields_pure rfl
  | .named r name => by
    unfold SlotTree.resolve
    refine name.fits_resolve.bind fun n _ => ?_
    exact Session.Yields.bind (P := fun _ => True) (fun _ _ _ _ => trivial) fun e _ =>
      Session.yields_pure ⟨nofun, rfl⟩

theorem NameTree.fits_resolve : ∀ n : NameTree, Session.Yields (n.resolve services) n.Fits
  | .mk first rest => by
    unfold NameTree.resolve
    refine first.fits_resolve.bind fun p hp => (fits_resolveRest rest).bind fun ps hps => ?_
    exact Session.yields_pure (.cons hp hps)

theorem fits_resolveRest : ∀ parts : List PartTree,
    Session.Yields (resolveRest services parts) (List.Forall₂ PartTree.Fits parts)
  | [] => Session.yields_pure .nil
  | part :: parts => by
    unfold resolveRest
    refine part.fits_resolve.bind fun p hp => (fits_resolveRest parts).bind fun ps hps => ?_
    exact Session.yields_pure (.cons hp hps)

end

end Mangled

/-! ## Following the reader -/

namespace Mangled

/-- What is being read when a part is complete. -/
def endMode : NamePart → Mode
  | .simple text [] => .text text
  | part => .closed part

/-- The state after the end of a parameter that is part of the frame already : the group is closed,
or the next parameter begins. -/
def afterParam (frame : Frame) (frames : List Frame) (c : Char) : State :=
  if c = closing then
    { frames, parts := frame.before, mode := .closed (.simple frame.text frame.params) }
  else
    { frames := { frame with byReference := c = referenceComma } :: frames
      parts := []
      mode := .text "" }

/-- The state after a name, whose last part may go on. -/
def afterName (frames : List Frame) (parts : QualifiedName) (n : QualifiedName) : State :=
  { frames, parts := parts ++ n.dropLast, mode := endMode (n.getLastD (.simple "" [])) }

theorem afterName_singleton (frames : List Frame) (parts : QualifiedName) (p : NamePart) :
    afterName frames parts [p] = { frames, parts, mode := endMode p } := by
  simp [afterName]

theorem afterName_cons_cons (frames : List Frame) (parts : QualifiedName) (p q : NamePart)
    (n : QualifiedName) :
    afterName frames parts (p :: q :: n) = afterName frames (parts ++ [p]) (q :: n) := by
  simp [afterName]

/-- A sentinel after a complete part ends it. -/
theorem step_endMode {c : Char} (hc : State.isPartEnd c = true) (frames : List Frame)
    (parts : QualifiedName) (last : NamePart) (offset : Nat) :
    State.step { frames, parts, mode := endMode last } offset c =
      State.afterPart { frames, parts, mode := endMode last } last offset c := by
  have hne : c ≠ escape ∧ c ≠ opening := by
    simp only [State.isPartEnd, Bool.or_eq_true, decide_eq_true_eq] at hc
    rcases hc with ((rfl | rfl) | rfl) | rfl <;> decide
  cases last with
  | pattern text arguments => simp [State.step, endMode, hc]
  | simple text params =>
    cases params with
    | nil => simp [State.step, endMode, hne.1, hne.2, hc]
    | cons p ps => simp [State.step, endMode, hc]

/-- The next parameter is taken as its separator says. -/
theorem afterParam_separator (frame : Frame) (frames : List Frame) (byReference : Bool) :
    afterParam frame frames (separator byReference) =
      { frames := { frame with byReference } :: frames, parts := [], mode := .text "" } := by
  unfold afterParam separator
  cases byReference <;> rfl

/-- The bytes that characters take. -/
def width : List Char → Nat
  | [] => 0
  | c :: cs => c.utf8Size + width cs

theorem width_append (cs ds : List Char) : width (cs ++ ds) = width cs + width ds := by
  induction cs with
  | nil => simp [width]
  | cons c cs ih => simp [width, ih, Nat.add_assoc]

end Mangled

namespace Session

variable (services : Services L T W) (source : String)

/-- The letters of a text are read one after the other. -/
theorem readFrom_letters (ls : List Letter) (rest : List Char) (offset : Nat)
    (frames : List Frame) (parts : QualifiedName) (read : String) :
    readFrom services source (ls.flatMap Letter.written ++ rest) offset
        { frames, parts, mode := .text read } =
      readFrom services source rest (offset + width (ls.flatMap Letter.written))
        { frames, parts, mode := .text (read ++ meaning ls) } := by
  induction ls generalizing read offset with
  | nil => simp [width, meaning]
  | cons l ls ih =>
    have hpush : read.push l.meaning ++ meaning ls = read ++ meaning (l :: ls) := by
      rw [← String.toList_inj]
      simp [meaning]
    rw [List.flatMap_cons, List.append_assoc, ← hpush, width_append, ← Nat.add_assoc]
    refine Eq.trans ?_ (ih (offset + width l.written) (read.push l.meaning))
    cases l with
    | plain c hc =>
      have hne : c ≠ escape ∧ c ≠ opening ∧ State.isPartEnd c = false := by
        simp [isSentinel, sentinels] at hc
        simp [State.isPartEnd, hc]
      simp [Letter.written, Letter.meaning, readFrom, State.step, hne, width]
    | escaped c =>
      simp [Letter.written, Letter.meaning, readFrom, State.step, width, ← Nat.add_assoc]

variable {frames : List Frame} {c : Char}

/-- The beginning of a group. -/
theorem readFrom_open (byReference : Bool) (rest : List Char) (offset : Nat)
    (parts : QualifiedName) (text : String) :
    readFrom services source (opening :: separator byReference :: rest) offset
        { frames, parts, mode := .text text } =
      readFrom services source rest (offset + opening.utf8Size + (separator byReference).utf8Size)
        { frames := { before := parts, text, byReference } :: frames, parts := [],
          mode := .text "" } := by
  cases byReference <;> rfl

/-- The end of a parameter that is void. -/
theorem readFrom_endVoid (frame : Frame) (hc : c = closing ∨ c = comma ∨ c = referenceComma)
    (rest : List Char) (offset : Nat) :
    readFrom services source (c :: rest) offset
        { frames := frame :: frames, parts := [], mode := .text "" } =
      readFrom services source rest (offset + c.utf8Size)
        (afterParam { frame with params := frame.params ++ [⟨none, frame.byReference⟩] }
          frames c) := by
  have hend : State.isPartEnd c = true ∧ c ≠ dot := by
    rcases hc with rfl | rfl | rfl <;> decide
  rw [readFrom, show Mode.text "" = endMode (.simple "" []) from rfl, step_endMode hend.1]
  simp only [State.afterPart, if_neg hend.2, if_pos hc, State.endParam, State.name?]
  rfl

/-- The end of a parameter that has a name. -/
theorem readFrom_endName (frame : Frame) (hc : c = closing ∨ c = comma ∨ c = referenceComma)
    {n : QualifiedName} (hn : n ≠ []) (hlone : n ≠ [.simple "" []]) (rest : List Char)
    (offset : Nat) :
    readFrom services source (c :: rest) offset (afterName (frame :: frames) [] n) = (do
      let e ← findNamed services rootScope n
      readFrom services source rest (offset + c.utf8Size)
        (afterParam { frame with params := frame.params ++ [⟨some e, frame.byReference⟩] }
          frames c)) := by
  have hend : State.isPartEnd c = true ∧ c ≠ dot := by
    rcases hc with rfl | rfl | rfl <;> decide
  obtain ⟨before, last, rfl⟩ := (List.eq_nil_or_concat' n).resolve_left hn
  have hname : ¬(before = [] ∧ last = .simple "" []) := by
    rintro ⟨rfl, rfl⟩
    exact hlone rfl
  have hafter : afterName (frame :: frames) [] (before ++ [last]) =
      { frames := frame :: frames, parts := before, mode := endMode last } := by
    simp [afterName]
  rw [hafter, readFrom, step_endMode hend.1]
  simp only [State.afterPart, if_neg hend.2, if_pos hc, State.endParam, State.name?, if_neg hname]
  rfl

mutual

/-- To read a part is to resolve its derivation. -/
theorem readFrom_part : ∀ (p : PartTree) (_ : p.Proper) (rest : List Char) (offset : Nat)
    (frames : List Frame) (parts : QualifiedName),
    readFrom services source (p.written ++ rest) offset { frames, parts, mode := .text "" } =
      p.resolve services >>= fun q =>
        readFrom services source rest (offset + width p.written)
          { frames, parts, mode := endMode q }
  | .mk text [], _, rest, offset, frames, parts => by
    rw [PartTree.written_mk_nil, readFrom_letters]
    simp [PartTree.resolve, resolveSlots, endMode]
  | .mk text (slot :: slots), hp, rest, offset, frames, parts => by
    have hwritten : (PartTree.mk text (slot :: slots)).written =
        text.flatMap Letter.written ++ (opening :: separator slot.byReference ::
          ((slotsText (slot :: slots)).tail ++ [closing])) := by
      rw [PartTree.written, group_slotsText]
      simp [slotsText, slot.written_eq]
    rw [hwritten, List.append_assoc, readFrom_letters]
    simp only [List.cons_append, List.append_assoc, List.nil_append]
    rw [readFrom_open, readFrom_slots (slot :: slots) hp (by simp), PartTree.resolve, bind_assoc]
    · refine (fits_resolveSlots services _).bind_congr fun params hparams => ?_
      cases hparams
      simp only [pure_bind, endMode, width_append, width, Nat.add_assoc, String.empty_append,
        List.nil_append]
    · rintro s ⟨⟩
      rfl

/-- To read the slots of a group is to resolve them, one after the other. -/
theorem readFrom_slots : ∀ (ss : List SlotTree) (_ : ProperSlots ss) (_ : ss ≠ []) (frame : Frame)
    (_ : ∀ s ∈ ss.head?, s.byReference = frame.byReference) (frames : List Frame)
    (rest : List Char) (offset : Nat),
    readFrom services source ((slotsText ss).tail ++ closing :: rest) offset
        { frames := frame :: frames, parts := [], mode := .text "" } =
      resolveSlots services ss >>= fun ps =>
        readFrom services source rest (offset + width ((slotsText ss).tail ++ [closing]))
          { frames, parts := frame.before,
            mode := .closed (.simple frame.text (frame.params ++ ps)) }
  | [], _, hne, _, _, _, _, _ => absurd rfl hne
  | slot :: slots, hp, _, frame, hr, frames, rest, offset => by
    replace hr : slot.byReference = frame.byReference := hr slot rfl
    cases slots with
    | nil =>
      have hslot := readFrom_slot slot hp.1 frame hr frames (Or.inl rfl) rest offset
      have htail : (slotsText [slot]).tail = slot.inner := by
        simp [slotsText, slot.written_eq]
      rw [htail, hslot]
      simp [resolveSlots, width_append, width, afterParam]
    | cons next slots =>
      have hslot := readFrom_slot slot hp.1 frame hr frames
        (Or.inr (separator_cases next.byReference))
        ((slotsText (next :: slots)).tail ++ closing :: rest) offset
      have htail : (slotsText (slot :: next :: slots)).tail =
          slot.inner ++ separator next.byReference :: (slotsText (next :: slots)).tail := by
        simp [slotsText, slot.written_eq, next.written_eq]
      rw [htail, List.append_assoc, List.cons_append, hslot, resolveSlots, bind_assoc]
      congr 1
      funext p
      rw [afterParam_separator, readFrom_slots (next :: slots) hp.2 (by simp), bind_assoc]
      · simp [width_append, width, Nat.add_assoc]
      · rintro s ⟨⟩
        rfl

theorem readFrom_slot : ∀ (slot : SlotTree) (_ : slot.Proper) (frame : Frame)
    (_ : slot.byReference = frame.byReference) (frames : List Frame) {c : Char}
    (_ : c = closing ∨ c = comma ∨ c = referenceComma) (rest : List Char) (offset : Nat),
    readFrom services source (slot.inner ++ c :: rest) offset
        { frames := frame :: frames, parts := [], mode := .text "" } =
      slot.resolve services >>= fun p =>
        readFrom services source rest (offset + width (slot.inner ++ [c]))
          (afterParam { frame with params := frame.params ++ [p] } frames c)
  | .void r, _, frame, hr, frames, c, hc, rest, offset => by
    obtain rfl : r = frame.byReference := hr
    rw [SlotTree.resolve, pure_bind]
    exact (readFrom_endVoid services source frame hc rest offset).trans
      (by simp [SlotTree.inner, width])
  | .named r name, hp, frame, hr, frames, c, hc, rest, offset => by
    obtain rfl : r = frame.byReference := hr
    rw [SlotTree.resolve, SlotTree.inner, readFrom_name name hp.1, bind_assoc]
    refine (name.fits_resolve services).bind_congr fun n hn => ?_
    rw [readFrom_endName services source frame hc hn.ne_nil (hn.ne_lone hp.2), bind_assoc]
    simp only [pure_bind, width_append, width, Nat.add_zero, Nat.add_assoc]

/-- To read a name is to resolve its derivation. -/
theorem readFrom_name : ∀ (n : NameTree) (_ : n.Proper) (rest : List Char) (offset : Nat)
    (frames : List Frame) (parts : QualifiedName),
    readFrom services source (n.written ++ rest) offset { frames, parts, mode := .text "" } =
      n.resolve services >>= fun q =>
        readFrom services source rest (offset + width n.written) (afterName frames parts q)
  | .mk first parts', hp, rest, offset, frames, parts => by
    rw [NameTree.resolve, NameTree.written, List.append_assoc, readFrom_part first hp.1, bind_assoc]
    congr 1
    funext p
    rw [readFrom_rest parts' hp.2, bind_assoc, width_append, Nat.add_assoc]
    simp only [pure_bind]

/-- To read the parts that follow is to resolve their derivations. -/
theorem readFrom_rest : ∀ (ps : List PartTree) (_ : ProperRest ps) (rest : List Char)
    (offset : Nat) (frames : List Frame) (parts : QualifiedName) (last : NamePart),
    readFrom services source (restText ps ++ rest) offset { frames, parts, mode := endMode last } =
      resolveRest services ps >>= fun qs =>
        readFrom services source rest (offset + width (restText ps))
          (afterName frames parts (last :: qs))
  | [], _, rest, offset, frames, parts, last => by
    simp [restText, resolveRest, afterName_singleton, width]
  | p :: ps, hp, rest, offset, frames, parts, last => by
    have hdot : readFrom services source (restText (p :: ps) ++ rest) offset
        { frames, parts, mode := endMode last } =
        readFrom services source (p.written ++ (restText ps ++ rest)) (offset + dot.utf8Size)
          { frames, parts := parts ++ [last], mode := .text "" } := by
      rw [restText, List.cons_append, List.cons_append, readFrom, step_endMode rfl,
        List.append_assoc]
      rfl
    rw [hdot, readFrom_part p hp.1, resolveRest, bind_assoc]
    congr 1
    funext q
    rw [readFrom_rest ps hp.2, bind_assoc]
    simp only [pure_bind, afterName_cons_cons, restText, width, width_append,
      List.cons_append, Nat.add_assoc]

end

/-! ## Whole names -/

/-- A derived text that is not empty is read as the derivation says. -/
theorem readMangled_written {n : NameTree} (hn : n.Proper) (hne : n.written ≠ []) :
    readMangled services (String.ofList n.written) = n.resolve services := by
  have hempty : ¬(String.ofList n.written).isEmpty = true := by simpa using hne
  have hread := readFrom_name services (String.ofList n.written) n hn [] 0 [] []
  rw [List.append_nil] at hread
  rw [readMangled, if_neg hempty, String.toList_ofList]
  refine hread.trans ?_
  conv_rhs => rw [← bind_pure (n.resolve services)]
  refine (n.fits_resolve services).bind_congr fun q hq => ?_
  obtain ⟨before, last, rfl⟩ := (List.eq_nil_or_concat' q).resolve_left hq.ne_nil
  cases last with
  | pattern text arguments => simp [afterName, endMode, readFrom, State.finish]
  | simple text params => cases params <;> simp [afterName, endMode, readFrom, State.finish]

variable {S S' : Session L T W} {cs pre : List Char} {s : State} {n : QualifiedName}

/-- A text that is read to its end is derived. -/
theorem exists_derivation_of_readFrom (h : s.Reads pre) {offset : Nat}
    (hr : (readFrom services source cs offset s).run S = (.ok n, S')) :
    ∃ tree : NameTree, tree.Proper ∧ tree.written = pre ++ cs := by
  induction cs generalizing s pre offset S with
  | nil =>
    rw [readFrom] at hr
    split at hr
    · rename_i q hq
      rw [List.append_nil]
      exact h.finish hq
    · cases hr
  | cons c cs ih =>
    have hstep := h.step (c := c) offset
    rw [List.append_cons]
    rw [readFrom] at hr
    cases hc : s.step offset c with
    | go next =>
      rw [hc] at hstep hr
      exact ih hstep hr
    | ask name next =>
      rw [hc] at hstep hr
      dsimp only at hr
      obtain ⟨e, S₁, -, hr⟩ := exists_of_run_bind_eq_ok hr
      exact ih (hstep e) hr
    | stop position reason =>
      rw [hc] at hr
      cases hr

theorem exists_derivation_of_readMangled {text : String} (hne : text ≠ "")
    (hr : (readMangled services text).run S = (.ok n, S')) :
    ∃ tree : NameTree, tree.Proper ∧ tree.written = text.toList := by
  have hempty : ¬text.isEmpty = true := by simpa using hne
  rw [readMangled, if_neg hempty] at hr
  exact exists_derivation_of_readFrom services text State.reads_initial hr

/-! ## Reading what was written -/

variable {services} {derivation : EntityId → Option NameTree} {e : EntityId} {p : Param}

/-- The derivation is that of a name which is found, without further ado, and denotes the
entity. -/
def Denotes (services : Services L T W) (S : Session L T W) (tree : Option NameTree)
    (e : EntityId) : Prop :=
  ∃ name n, tree = some name ∧ (name.resolve services).run S = (.ok n, S) ∧
    (findNamed services rootScope n).run S = (.ok e, S)

/-- The slot of a parameter resolves to the parameter, if the path of its type denotes the type. -/
theorem run_resolve_paramSlot
    (hp : ∀ e, p.entity = some e → Denotes services S (derivation e) e) :
    ((paramSlot derivation p).resolve services).run S = (.ok p, S) := by
  obtain ⟨entity, byReference⟩ := p
  cases entity with
  | none => rfl
  | some e =>
    obtain ⟨name, n, htree, hname, hfound⟩ := hp e rfl
    have hslot : paramSlot derivation ⟨some e, byReference⟩ = .named byReference name := by
      simp [paramSlot, htree, slotOf]
    rw [hslot, SlotTree.resolve]
    simp only [run_bind, hname, hfound, run_pure]

theorem run_resolveSlots {params : List Param}
    (hp : ∀ p ∈ params, ∀ e, p.entity = some e → Denotes services S (derivation e) e) :
    (resolveSlots services (params.map (paramSlot derivation))).run S = (.ok params, S) := by
  induction params with
  | nil => rfl
  | cons p ps ih =>
    rw [List.forall_mem_cons] at hp
    rw [List.map_cons, resolveSlots]
    simp only [run_bind, run_resolve_paramSlot hp.1, ih hp.2, run_pure]

/-- The types of all parameters of a name denote their entities. -/
def Spelled (services : Services L T W) (S : Session L T W)
    (derivation : EntityId → Option NameTree) (n : QualifiedName) : Prop :=
  ∀ p ∈ n, ∃ txt params, p = .simple txt params ∧
    ∀ q ∈ params, ∀ e, q.entity = some e → Denotes services S (derivation e) e

/-- A name that is spelled has simple parts alone. -/
theorem Spelled.plain (hn : Spelled services S derivation n) : n.Plain := by
  intro p hp
  obtain ⟨text, params, rfl, -⟩ := hn p hp
  exact ⟨text, params, rfl⟩

theorem run_resolve_partTree {p : NamePart} (hp : Spelled services S derivation [p]) :
    ((partTree derivation p).resolve services).run S = (.ok p, S) := by
  obtain ⟨text, params, rfl, hparams⟩ := hp p (List.mem_singleton_self p)
  rw [partTree, PartTree.resolve, meaning_letters]
  simp only [run_bind, run_resolveSlots hparams, run_pure]

theorem run_resolveRest (hn : Spelled services S derivation n) :
    (resolveRest services (n.map (partTree derivation))).run S = (.ok n, S) := by
  induction n with
  | nil => rfl
  | cons p ps ih =>
    rw [Spelled, List.forall_mem_cons] at hn
    rw [List.map_cons, resolveRest]
    simp only [run_bind, run_resolve_partTree (List.forall_mem_singleton.2 hn.1), ih hn.2,
      run_pure]

/-- The derivation of a name is resolved part by part. -/
theorem resolve_nameTree (services : Services L T W) {tree : NameTree}
    (htree : nameTree derivation n = some tree) :
    tree.resolve services = resolveRest services (n.map (partTree derivation)) := by
  cases n with
  | nil => cases htree
  | cons p ps =>
    rw [nameTree, List.map_cons, nameOf] at htree
    split at htree
    · cases htree
    · cases htree
      rfl

/-- A written name is read part by part; the root's as well, for it has none. -/
theorem readMangled_textOf (services : Services L T W)
    (hd : ∀ e, ∀ tree ∈ derivation e, tree.IsParameter) (hn : n.Plain)
    (hlone : n ≠ [.simple "" []]) :
    readMangled services (String.ofList (textOf (nameTree derivation n))) =
      resolveRest services (n.map (partTree derivation)) := by
  cases htree : nameTree derivation n with
  | none =>
    obtain rfl : n = [] := ((nameTree_eq_none_of_plain hn).1 htree).resolve_right hlone
    rfl
  | some tree =>
    obtain ⟨hproper, hne⟩ := isParameter_nameTree hd n tree htree
    rw [textOf, readMangled_written services hproper hne, resolve_nameTree services htree]

/-- A name is read back. -/
theorem run_readMangled (hd : ∀ e, ∀ tree ∈ derivation e, tree.IsParameter)
    (hlone : n ≠ [.simple "" []]) (hn : Spelled services S derivation n) :
    (readMangled services (String.ofList (textOf (nameTree derivation n)))).run S =
      (.ok n, S) := by
  rw [readMangled_textOf services hd hn.plain hlone]
  exact run_resolveRest hn

end Session

end NameResolution
