import Mathlib.Algebra.Group.Nat.Defs
import Mathlib.Data.List.Induction
import NameResolution.Proofs.Entries

/-!
# The lives of handles

A table is filled, changed and emptied by accesses (`Access`), and every access that has an
effect adds an event to a log : a handle has been issued, a value has been written through
it, or the value has been taken out (`Event`).

The events of one handle tell its life (`Life`) : it is issued once, then written through any
number of times, and then taken at most once, for good. Slots are filled again, but never
under a handle that was in use before, as long as there have been fewer than `2 ^ 32`
accesses. So a table reads at a handle what the log has about that handle alone
(`Sound.life`), and `handles_never_alias` reads off the log what a table answers.
-/

namespace NameResolution

namespace SlotTable

variable {kind : Kind} {α : Type} {t : SlotTable kind α} {h k : Handle kind} {a b : α} {n : Nat}

/-! ## Accesses and events -/

/-- What can be done with a table. A value that is put in may depend on its handle. -/
inductive Access (kind : Kind) (α : Type) where
  | insert (make : Handle kind → α)
  | modify (h : Handle kind) (f : α → α)
  | erase (h : Handle kind)

/-- What has been done under a handle, and with which value. -/
inductive Event (kind : Kind) (α : Type) where
  | issued (h : Handle kind) (a : α)
  | written (h : Handle kind) (a : α)
  | taken (h : Handle kind) (a : α)

namespace Event

def handle : Event kind α → Handle kind
  | issued h _ => h
  | written h _ => h
  | taken h _ => h

/-- The handle that has been issued. -/
def issued? : Event kind α → Option (Handle kind)
  | issued h _ => some h
  | _ => none

/-- The handle whose value has been taken out. -/
def taken? : Event kind α → Option (Handle kind)
  | taken h _ => some h
  | _ => none

/-- The value that has been written through a handle. -/
def written? (h : Handle kind) : Event kind α → Option α
  | written k a => if k = h then some a else none
  | _ => none

theorem handle_of_issued? {e : Event kind α} (he : e.issued? = some h) : e.handle = h := by
  cases e with
  | issued k a => exact Option.some.inj he
  | written k a => cases he
  | taken k a => cases he

end Event

/-- The table after an access. -/
def after (t : SlotTable kind α) : Access kind α → SlotTable kind α
  | .insert make => t.insert (make t.next)
  | .modify h f => t.modify h f
  | .erase h => t.erase h

/-- What an access does. Through a handle that is not live, it does nothing. -/
def event? (t : SlotTable kind α) : Access kind α → Option (Event kind α)
  | .insert make => some (.issued t.next (make t.next))
  | .modify h f => (t.get? h).map fun a => .written h (f a)
  | .erase h => (t.get? h).map (.taken h)

/-- A table, and the log of what has been done with it. -/
structure Logged (kind : Kind) (α : Type) where
  table : SlotTable kind α := {}
  log : List (Event kind α) := []

/-- A table with its log after an access. -/
def Logged.access (s : Logged kind α) (x : Access kind α) : Logged kind α :=
  ⟨s.table.after x, s.log ++ (s.table.event? x).toList⟩

/-- The empty table after some accesses. -/
def logged (xs : List (Access kind α)) : Logged kind α :=
  xs.foldl Logged.access {}

/-- To take out what is not there changes nothing. -/
theorem erase_eq_self (hh : t.get? h = none) : t.erase h = t := by
  rw [erase, if_neg (by simp [contains, hh])]

/-! ## Lives -/

/-- The events of a handle, and what is read at it in the end. -/
inductive Life (h : Handle kind) : List (Event kind α) → Option α → Prop
  | unissued : Life h [] none
  | held (a : α) (writes : List α) :
    Life h (.issued h a :: writes.map (.written h)) (some (writes.getLast?.getD a))
  | ended (a : α) (writes : List α) :
    Life h (.issued h a :: (writes.map (.written h) ++ [.taken h (writes.getLast?.getD a)])) none

namespace Life

variable {l l' : List (Event kind α)} {o : Option α}

theorem write (hl : Life h l (some a)) (b : α) : Life h (l ++ [.written h b]) (some b) := by
  cases hl with
  | held a writes => simpa using Life.held a (writes ++ [b])

theorem take (hl : Life h l (some a)) : Life h (l ++ [.taken h a]) none := by
  cases hl with
  | held a writes => exact .ended a writes

/-- A handle that is read has been issued, and not taken. -/
theorem of_some (hl : Life h l (some a)) :
    ∃ (b : α) (writes : List α),
      l = .issued h b :: writes.map (.written h) ∧ a = writes.getLast?.getD b := by
  cases hl with
  | held b writes => exact ⟨b, writes, rfl, rfl⟩

/-- Before it is issued, nothing is done under a handle. -/
theorem of_issued (hl : Life h (l ++ .issued h a :: l') o) :
    l = [] ∧ ∃ writes : List α,
      l' = writes.map (.written h) ∧ o = some (writes.getLast?.getD a) ∨
      l' = writes.map (.written h) ++ [.taken h (writes.getLast?.getD a)] ∧ o = none := by
  generalize hm : l ++ .issued h a :: l' = m at hl
  cases l with
  | nil =>
    refine ⟨rfl, ?_⟩
    cases hl with
    | unissued => cases hm
    | held b writes =>
      obtain ⟨heq, rfl⟩ := List.cons.inj hm
      cases heq
      exact ⟨writes, Or.inl ⟨rfl, rfl⟩⟩
    | ended b writes =>
      obtain ⟨heq, rfl⟩ := List.cons.inj hm
      cases heq
      exact ⟨writes, Or.inr ⟨rfl, rfl⟩⟩
  | cons e l =>
    exfalso
    cases hl with
    | unissued => cases hm
    | held b writes =>
      have hmem : Event.issued h a ∈ writes.map (Event.written h) := by
        rw [← (List.cons.inj hm).2]
        simp
      simp at hmem
    | ended b writes =>
      have hmem : Event.issued h a ∈
          writes.map (Event.written h) ++ [.taken h (writes.getLast?.getD b)] := by
        rw [← (List.cons.inj hm).2]
        simp
      simp at hmem

/-- Once its value has been taken out, a handle is not read any more. -/
theorem of_mem_taken (hl : Life h l o) (ha : .taken h a ∈ l) :
    o = none ∧ ∃ b, .issued h b ∈ l := by
  cases hl with
  | unissued => cases ha
  | held b writes => simp at ha
  | ended b writes => exact ⟨rfl, b, by simp⟩

end Life

/-! ## How often slots are filled and emptied -/

/-- The table has at most so many slots, and has emptied each at most so often. -/
def Within (n : Nat) (t : SlotTable kind α) : Prop :=
  t.slots.size ≤ n ∧ ∀ (i : Nat) (x : Slot α), t.slots[i]? = some x → x.releases ≤ n

theorem within_empty : Within 0 ({} : SlotTable kind α) :=
  ⟨le_rfl, by simp⟩

/-- Fewer releases than there are generations leave no slot emptied too often. -/
theorem Within.unwrapped (hw : Within n t) (hn : n < UInt32.size) : t.Unwrapped := by
  intro x hx
  obtain ⟨i, hi⟩ := Array.mem_iff_getElem?.1 hx
  exact Nat.lt_of_le_of_lt (hw.2 i x hi) hn

/-- Putting a value in makes a release possible. -/
theorem Within.insert (hw : Within n t) (a : α) : Within (n + 1) (t.insert a) := by
  obtain ⟨hsize, hrel⟩ := hw
  unfold SlotTable.insert
  split
  · refine ⟨by simpa using Nat.le_succ_of_le hsize, fun i x hx => ?_⟩
    simp only [Array.getElem?_modify] at hx
    split_ifs at hx
    · obtain ⟨y, hy, rfl⟩ := Option.map_eq_some_iff.1 hx
      exact Nat.le_succ_of_le (hrel i y hy)
    · exact Nat.le_succ_of_le (hrel i x hx)
  · refine ⟨by simpa using hsize, fun i x hx => ?_⟩
    simp only [Array.getElem?_push] at hx
    split_ifs at hx
    · obtain rfl := Option.some.inj hx
      exact Nat.zero_le _
    · exact Nat.le_succ_of_le (hrel i x hx)

theorem Within.modify (hw : Within n t) (h : Handle kind) (f : α → α) :
    Within n (t.modify h f) := by
  obtain ⟨hsize, hrel⟩ := hw
  refine ⟨by simpa using hsize, ?_⟩
  unfold SlotTable.modify
  split_ifs
  · intro i x hx
    simp only [Array.getElem?_modify] at hx
    split_ifs at hx
    · obtain ⟨y, hy, rfl⟩ := Option.map_eq_some_iff.1 hx
      exact hrel i y hy
    · exact hrel i x hx
  · exact hrel

theorem Within.erase (hw : Within n t) (h : Handle kind) : Within (n + 1) (t.erase h) := by
  obtain ⟨hsize, hrel⟩ := hw
  unfold SlotTable.erase
  split_ifs
  · refine ⟨by simpa using Nat.le_succ_of_le hsize, fun i x hx => ?_⟩
    simp only [Array.getElem?_modify] at hx
    split_ifs at hx
    · obtain ⟨y, hy, rfl⟩ := Option.map_eq_some_iff.1 hx
      exact Nat.succ_le_succ (hrel i y hy)
    · exact Nat.le_succ_of_le (hrel i x hx)
  · exact ⟨Nat.le_succ_of_le hsize, fun i x hx => Nat.le_succ_of_le (hrel i x hx)⟩

theorem Within.mono {m : Nat} (hw : Within n t) (hle : n ≤ m) : Within m t :=
  ⟨Nat.le_trans hw.1 hle, fun i x hx => Nat.le_trans (hw.2 i x hx) hle⟩

/-! ## What a table and its log keep -/

namespace Logged

variable {s : Logged kind α}

/-- A table agrees with its log about every handle. -/
structure Sound (s : Logged kind α) : Prop where
  wellFormed : s.table.WellFormed
  counted : s.table.Counted
  within : Within s.log.length s.table
  issued : ∀ e ∈ s.log, s.table.Issued e.handle
  nodup_issued : (s.log.filterMap Event.issued?).Nodup
  nodup_taken : (s.log.filterMap Event.taken?).Nodup
  life : ∀ h, Life h (s.log.filter (·.handle = h)) (s.table.get? h)

theorem sound_empty : Sound ({} : Logged kind α) where
  wellFormed := wellFormed_empty
  counted := counted_empty
  within := within_empty
  issued := by simp
  nodup_issued := .nil
  nodup_taken := .nil
  life := fun h => by simpa [get?, slot?] using Life.unissued

/-- A handle whose value has been taken out was issued and is not read. -/
theorem Sound.of_taken (hs : s.Sound) (hh : h ∈ s.log.filterMap Event.taken?) :
    s.table.get? h = none ∧ h ∈ s.log.filterMap Event.issued? := by
  obtain ⟨e, he, hh⟩ := List.mem_filterMap.1 hh
  cases e with
  | issued k a => cases hh
  | written k a => cases hh
  | taken k a =>
    obtain rfl := Option.some.inj hh
    have hmem : Event.taken k a ∈ s.log.filter (·.handle = k) := by simp [he, Event.handle]
    obtain ⟨hnone, b, hb⟩ := (hs.life k).of_mem_taken hmem
    exact ⟨hnone, List.mem_filterMap.2 ⟨_, (List.mem_filter.1 hb).1, rfl⟩⟩

/-- Handles noted in a log stay different if one is added that was not noted. -/
theorem nodup_filterMap_append {β γ : Type} {g : β → Option γ} {l : List β} {e : β}
    (hl : (l.filterMap g).Nodup) (he : ∀ c, g e = some c → c ∉ l.filterMap g) :
    ((l ++ [e]).filterMap g).Nodup := by
  rw [List.filterMap_append, List.filterMap_cons, List.filterMap_nil]
  cases hc : g e with
  | none => simpa using hl
  | some c => exact List.nodup_append_comm.1 (List.nodup_cons.2 ⟨he c hc, hl⟩)

/-- An event is logged rightly if it continues the life of its own handle and leaves what is
read at the others. -/
theorem Sound.append (hs : s.Sound) {u : SlotTable kind α} {e : Event kind α}
    (hwell : u.WellFormed) (hcount : u.Counted) (hin : Within (s.log.length + 1) u)
    (hext : s.table.Extends u) (hissued : u.Issued e.handle)
    (hnew : ∀ h, e.issued? = some h → h ∉ s.log.filterMap Event.issued?)
    (hlive : ∀ h, e.taken? = some h → h ∉ s.log.filterMap Event.taken?)
    (hother : ∀ h, h ≠ e.handle → u.get? h = s.table.get? h)
    (hself : Life e.handle (s.log.filter (·.handle = e.handle) ++ [e]) (u.get? e.handle)) :
    Sound ⟨u, s.log ++ [e]⟩ := by
  refine ⟨hwell, hcount, by simpa using hin, fun x hx => ?_,
    nodup_filterMap_append hs.nodup_issued hnew, nodup_filterMap_append hs.nodup_taken hlive,
    fun h => ?_⟩
  · rcases List.mem_append.1 hx with hx | hx
    · exact hext.issued _ (hs.issued x hx)
    · rw [List.mem_singleton.1 hx]
      exact hissued
  · show Life h ((s.log ++ [e]).filter (·.handle = h)) (u.get? h)
    rw [List.filter_append]
    by_cases hh : h = e.handle
    · subst hh
      simpa using hself
    · rw [hother h hh]
      simpa [Ne.symm hh] using hs.life h

/-- Putting a value in begins the life of a handle, which no event of the log is about. -/
theorem Sound.insert (hs : s.Sound) (hlen : s.log.length < UInt32.size)
    (make : Handle kind → α) : (s.access (.insert make)).Sound := by
  have hw := hs.wellFormed
  have hget := fun h => get?_insert hw (make s.table.next) h
  have hfresh : ∀ e ∈ s.log, e.handle ≠ s.table.next := by
    intro e he heq
    exact not_issued_next hw (hs.within.unwrapped hlen) (heq ▸ hs.issued e he)
  have hfilter : s.log.filter (·.handle = s.table.next) = [] := by
    simpa [List.filter_eq_nil_iff] using hfresh
  have hself : (s.table.insert (make s.table.next)).get? s.table.next =
      some (make s.table.next) := by
    rw [hget, if_pos rfl]
  refine hs.append (e := .issued s.table.next (make s.table.next)) (hw.insert _)
    (hs.counted.insert hw _) (hs.within.insert _) (extends_insert hw _) (issued_of_get? hself)
    ?_ nofun (fun h hh => (hget h).trans (if_neg hh)) ?_
  · rintro _ ⟨⟩ hmem
    obtain ⟨e, he, hissued⟩ := List.mem_filterMap.1 hmem
    exact hfresh e he (Event.handle_of_issued? hissued)
  · rw [Event.handle, hfilter, after, hself]
    exact .held _ []

/-- Writing through a handle continues its life, if it is live. -/
theorem Sound.modify (hs : s.Sound) (h : Handle kind) (f : α → α) :
    (s.access (.modify h f)).Sound := by
  have haccess : s.access (.modify h f) = ⟨s.table.modify h f,
      s.log ++ ((s.table.get? h).map fun a => Event.written h (f a)).toList⟩ := rfl
  rw [haccess]
  cases ha : s.table.get? h with
  | none =>
    have hsame : s.table.modify h f = s.table := modify_eq_self (by simp [ha])
    rw [hsame]
    simpa using hs
  | some a =>
    have hget := fun k => get?_modify (t := s.table) h f k
    have hself : (s.table.modify h f).get? h = some (f a) := by rw [hget, if_pos rfl, ha]; rfl
    refine hs.append (e := .written h (f a)) (hs.wellFormed.modify h f) (hs.counted.modify h f)
      ((hs.within.modify h f).mono (Nat.le_succ _)) (extends_modify h f) (issued_of_get? hself)
      nofun nofun (fun k hk => (hget k).trans (if_neg hk)) ?_
    rw [Event.handle, hself]
    exact (ha ▸ hs.life h).write _

/-- Taking a value out ends the life of its handle. -/
theorem Sound.erase (hs : s.Sound) (h : Handle kind) : (s.access (.erase h)).Sound := by
  have haccess : s.access (.erase h) = ⟨s.table.erase h,
      s.log ++ ((s.table.get? h).map (Event.taken h)).toList⟩ := rfl
  rw [haccess]
  cases ha : s.table.get? h with
  | none =>
    rw [erase_eq_self ha]
    simpa using hs
  | some a =>
    have hget := fun k => get?_erase (t := s.table) h k
    refine hs.append (e := .taken h a) (hs.wellFormed.erase h) (hs.counted.erase h)
      (hs.within.erase h) (extends_erase h) (Or.inr (spent_erase (contains_of_get? ha))) nofun
      ?_ (fun k hk => (hget k).trans (if_neg hk)) ?_
    · rintro _ ⟨⟩ hmem
      rw [(hs.of_taken hmem).1] at ha
      cases ha
    · rw [Event.handle, hget, if_pos rfl]
      exact (ha ▸ hs.life h).take

/-- Every access is logged rightly. -/
theorem Sound.access (hs : s.Sound) (hlen : s.log.length < UInt32.size) (x : Access kind α) :
    (s.access x).Sound := by
  cases x with
  | insert make => exact hs.insert hlen make
  | modify h f => exact hs.modify h f
  | erase h => exact hs.erase h

theorem length_log_access (s : Logged kind α) (x : Access kind α) :
    (s.access x).log.length ≤ s.log.length + 1 := by
  rw [Logged.access, List.length_append]
  cases s.table.event? x <;> simp

end Logged

/-- No more is logged than is done. -/
theorem length_log_logged (xs : List (Access kind α)) : (logged xs).log.length ≤ xs.length := by
  induction xs using List.reverseRecOn with
  | nil => exact Nat.le_refl 0
  | append_singleton xs x ih =>
    rw [logged, List.foldl_append, List.length_append]
    exact Nat.le_trans (Logged.length_log_access _ x) (Nat.succ_le_succ ih)

/-- After fewer accesses than there are generations, the log of a table is sound. -/
theorem sound_logged {xs : List (Access kind α)} (hlen : xs.length < UInt32.size) :
    (logged xs).Sound := by
  induction xs using List.reverseRecOn with
  | nil => exact Logged.sound_empty
  | append_singleton xs x ih =>
    rw [List.length_append, List.length_singleton] at hlen
    rw [logged, List.foldl_append]
    have hlog := length_log_logged xs
    exact (ih (by omega)).access (Nat.lt_of_le_of_lt hlog (by omega)) x

/-! ## Reading the log -/

theorem filterMap_written? (h : Handle kind) (l : List (Event kind α)) :
    (l.filter (·.handle = h)).filterMap (Event.written? h) = l.filterMap (Event.written? h) := by
  rw [List.filterMap_filter]
  refine List.filterMap_congr fun e _ => ?_
  cases e with
  | issued k a => exact ite_self _
  | taken k a => exact ite_self _
  | written k a =>
    show (if decide (k = h) = true then (if k = h then some a else none) else none) = _
    by_cases hk : k = h <;> simp [Event.written?, hk]

theorem filterMap_written?_map (h : Handle kind) (writes : List α) :
    (writes.map (Event.written h)).filterMap (Event.written? h) = writes := by
  simp [List.filterMap_map, Function.comp_def, Event.written?]

namespace Logged

variable {s : Logged kind α} (hs : s.Sound)

include hs

/-- What is read at a handle is what was last written through it since it was issued. -/
theorem Sound.get?_eq_some_iff :
    s.table.get? h = some a ↔ ∃ before b after, s.log = before ++ .issued h b :: after ∧
      (∀ c, .taken h c ∉ after) ∧
      a = (after.filterMap (Event.written? h)).getLast?.getD b := by
  have hlife := hs.life h
  constructor
  · intro ha
    rw [ha] at hlife
    obtain ⟨b, writes, hlog, hval⟩ := hlife.of_some
    obtain ⟨before, after, hsplit, -, -, hafter⟩ := List.filter_eq_cons_iff.1 hlog
    refine ⟨before, b, after, hsplit, fun c hc => ?_, ?_⟩
    · have hmem : Event.taken h c ∈ after.filter (·.handle = h) := by simp [hc, Event.handle]
      rw [hafter] at hmem
      simp at hmem
    · rw [← filterMap_written?, hafter, filterMap_written?_map]
      exact hval
  · rintro ⟨before, b, after, hlog, hnot, rfl⟩
    rw [hlog, List.filter_append, List.filter_cons_of_pos (by simp [Event.handle])] at hlife
    obtain ⟨-, writes, ⟨hafter, hval⟩ | ⟨hafter, -⟩⟩ := hlife.of_issued
    · rw [hval, ← filterMap_written?, hafter, filterMap_written?_map]
    · have hmem : Event.taken h (writes.getLast?.getD b) ∈ after.filter (·.handle = h) := by
        rw [hafter]
        simp
      exact absurd (List.mem_filter.1 hmem).1 (hnot _)

/-- The live handles are those that were issued and not taken. -/
theorem Sound.contains_iff :
    s.table.contains h = true ↔
      h ∈ s.log.filterMap Event.issued? ∧ h ∉ s.log.filterMap Event.taken? := by
  constructor
  · intro hc
    obtain ⟨a, ha⟩ := SlotTable.contains_iff.1 hc
    obtain ⟨before, b, after, hlog, -⟩ := hs.get?_eq_some_iff.1 ha
    refine ⟨List.mem_filterMap.2 ⟨.issued h b, by simp [hlog], rfl⟩, fun htaken => ?_⟩
    rw [(hs.of_taken htaken).1] at ha
    cases ha
  · rintro ⟨hissued, hnot⟩
    obtain ⟨e, he, hh⟩ := List.mem_filterMap.1 hissued
    obtain ⟨before, after, hlog⟩ := List.append_of_mem he
    cases e with
    | written k b => cases hh
    | taken k b => cases hh
    | issued k b =>
      obtain rfl := Option.some.inj hh
      refine contains_of_get? (hs.get?_eq_some_iff.2 ⟨before, b, after, hlog, fun c hc => ?_, rfl⟩)
      exact hnot (List.mem_filterMap.2 ⟨.taken k c, by simp [hlog, hc], rfl⟩)

end Logged

/-- After fewer than `2 ^ 32` accesses to the empty table, no handle has been issued twice,
and the table is a finite map : it reads at a handle what was last written through it, if it
has been issued and not taken since. A value is taken out once for every handle, namely the
first time after it was issued; every other handle reads as absent, and taking out or
changing anything through it leaves the table as it is. The size is the number of live
handles, and the entries are these handles with their values, each once, by position. The
free list names the empty slots, each once, and there are fewer than `2 ^ 32` slots, none of
them emptied so often that its generation has come round. -/
theorem handles_never_alias (xs : List (Access kind α)) (hlen : xs.length < 2 ^ 32) :
    let t := (logged xs).table
    let log := (logged xs).log
    let issued := log.filterMap Event.issued?
    let taken := log.filterMap Event.taken?
    issued.Nodup ∧
    (∀ h a, t.get? h = some a ↔ ∃ before b after, log = before ++ .issued h b :: after ∧
      (∀ c, .taken h c ∉ after) ∧
      a = (after.filterMap (Event.written? h)).getLast?.getD b) ∧
    (taken.Nodup ∧ (∀ h ∈ taken, h ∈ issued) ∧
      ∀ h, (∃ a, t.event? (.erase h) = some (.taken h a)) ↔ h ∈ issued ∧ h ∉ taken) ∧
    (∀ h, h ∉ issued ∨ h ∈ taken →
      t.get? h = none ∧ t.erase h = t ∧ ∀ f, t.modify h f = t) ∧
    (t.size = t.toList.length ∧ (∀ h a, (h, a) ∈ t.toList ↔ t.get? h = some a) ∧
      (t.toList.map Prod.fst).Nodup ∧
      (t.toList.map Prod.fst).Pairwise fun h k => h.index < k.index) ∧
    (t.free.Nodup ∧ ∀ i, i ∈ t.free ↔ ∃ s, t.slots[i]? = some s ∧ s.value = none) ∧
    t.slots.size < 2 ^ 32 ∧ t.Unwrapped := by
  intro t log issued taken
  have hs : (logged xs).Sound := sound_logged hlen
  have hlog : log.length < 2 ^ 32 := Nat.lt_of_le_of_lt (length_log_logged xs) hlen
  refine ⟨hs.nodup_issued, fun h a => hs.get?_eq_some_iff,
    ⟨hs.nodup_taken, fun h hh => (hs.of_taken hh).2, fun h => ?_⟩, fun h hh => ?_,
    ⟨hs.counted.length_toList.symm, fun h a => mem_toList_iff, nodup_handles t,
      pairwise_index_entriesFrom _ 0⟩,
    ⟨hs.wellFormed.nodup, hs.wellFormed.mem_free⟩,
    Nat.lt_of_le_of_lt hs.within.1 hlog, hs.within.unwrapped hlog⟩
  · rw [← hs.contains_iff, SlotTable.contains_iff]
    simp [event?, t]
  · have hnone : t.get? h = none := by
      refine get?_eq_none_of_contains fun hc => ?_
      obtain ⟨hissued, hnot⟩ := hs.contains_iff.1 hc
      exact hh.elim (fun h' => h' hissued) hnot
    exact ⟨hnone, erase_eq_self hnone, fun f => modify_eq_self (by simp [hnone])⟩

/-- A slot is used three times; the second value is changed before it is taken out. -/
def reuse : List (Access .entity Nat) :=
  [.insert fun _ => 10, .insert fun h => h.index, .erase ⟨0, 0⟩, .insert fun _ => 20,
    .modify ⟨0, 1⟩ (· + 1), .erase ⟨0, 0⟩, .erase ⟨0, 1⟩, .insert fun _ => 30]

/-- The slot is in its third generation, and the handle of the second one is stale. -/
theorem handles_never_alias_reuse :
    reuse.length < 2 ^ 32 ∧
      (∃ a, (logged reuse).table.event? (.erase ⟨0, 2⟩) = some (.taken ⟨0, 2⟩ a)) ∧
      (logged reuse).table.get? ⟨0, 1⟩ = none := by
  have hlen : reuse.length < 2 ^ 32 := by decide
  obtain ⟨-, -, ⟨-, -, htake⟩, hstale, -⟩ := handles_never_alias reuse hlen
  exact ⟨hlen, (htake ⟨0, 2⟩).2 (by decide), (hstale ⟨0, 1⟩ (by decide)).1⟩

end SlotTable

end NameResolution
