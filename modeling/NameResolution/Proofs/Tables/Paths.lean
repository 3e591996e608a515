import Mathlib.Data.List.Chain
import Mathlib.Logic.Relation
import NameResolution.Path
import NameResolution.Proofs.Session.History

/-!
# Paths from the root

An entity is rooted if its owners, one inside the other, lead up to the root through
scopes that are there (`Rooted`, with the entities from the root down to it). There is one
way only (`Rooted.unique`), and no entity lies on it twice (`Rooted.nodup`), so there are
slots enough for a walk up to the root : the path of a rooted entity names what lies on the
way, part by part (`Rooted.path_eq`).

What lies on the way is owned, and its scopes are not loose, so the way stays as it is over
the whole history (`Later.keepsRooted`).
-/

namespace NameResolution

namespace Tables

variable {L T W : Type} {t t' : Tables L T} {c : ScopeId} {e a b : EntityId} {x : Entity}
  {es fs : List EntityId} {s : Scope L T}

/-! ## The way down from the root -/

/-- The entities on the way from the root down to an entity : each is in the scope of the one
before. The root itself is not listed. -/
inductive Rooted (t : Tables L T) : List EntityId → EntityId → Prop
  | root : Rooted t [] rootEntity
  | member {es : List EntityId} {e : EntityId} {x : Entity} {c : ScopeId} {s : Scope L T}
    (h : Rooted t es s.entity) (he : e ≠ rootEntity) (hx : t.entities.get? e = some x)
    (hc : x.owner = some c) (hs : t.scopes.get? c = some s) : Rooted t (es ++ [e]) e

/-- The part under which an entity is found in its owner. -/
def part (t : Tables L T) (e : EntityId) : NamePart :=
  ((t.entities.get? e).map Entity.part).getD (.simple "" [])

theorem part_eq (hx : t.entities.get? e = some x) : t.part e = .simple x.name x.params := by
  unfold part
  rw [hx]
  rfl

/-- There is one way down from the root to an entity. -/
theorem Rooted.unique (h : Rooted t es e) (h' : Rooted t fs e) : es = fs := by
  induction h generalizing fs with
  | root =>
    cases h' with
    | root => rfl
    | member _ he => exact absurd rfl he
  | member _ he hx hc hs ih =>
    cases h' with
    | root => exact absurd rfl he
    | member h' _ hx' hc' hs' =>
      rw [hx] at hx'
      obtain rfl := Option.some.inj hx'
      rw [hc] at hc'
      obtain rfl := Option.some.inj hc'
      rw [hs] at hs'
      obtain rfl := Option.some.inj hs'
      rw [ih h']

theorem Rooted.owned (h : Rooted t es e) (ha : a ∈ es) :
    a ≠ rootEntity ∧ ∃ x, t.entities.get? a = some x ∧ x.owner ≠ none := by
  induction h with
  | root => cases ha
  | member _ he hx hc _ ih =>
    rcases List.mem_append.1 ha with ha | ha
    · exact ih ha
    · obtain rfl := List.mem_singleton.1 ha
      exact ⟨he, _, hx, by simp [hc]⟩

/-- The way to an entity on the way is its beginning. -/
theorem Rooted.upto (h : Rooted t es e) (ha : a ∈ es) :
    ∃ fs gs, es = fs ++ a :: gs ∧ Rooted t (fs ++ [a]) a := by
  induction h with
  | root => cases ha
  | @member es e x c s h he hx hc hs ih =>
    rcases List.mem_append.1 ha with ha | ha
    · obtain ⟨fs, gs, rfl, hr⟩ := ih ha
      exact ⟨fs, gs ++ [e], by simp, hr⟩
    · obtain rfl := List.mem_singleton.1 ha
      exact ⟨es, [], rfl, .member h he hx hc hs⟩

/-- No entity occurs twice on the way down, as otherwise there would be two ways to it. -/
theorem Rooted.nodup (h : Rooted t es e) : es.Nodup := by
  induction h with
  | root => exact List.nodup_nil
  | @member es e x c s h he hx hc hs ih =>
    refine List.nodup_append.2 ⟨ih, List.nodup_singleton e, ?_⟩
    rintro a ha _ hae rfl
    obtain rfl := List.mem_singleton.1 hae
    obtain ⟨fs, gs, rfl, hr⟩ := h.upto ha
    have := congrArg List.length (hr.unique (.member h he hx hc hs))
    simp at this

/-- So the way down is no longer than the table. -/
theorem Rooted.length_le (h : Rooted t es e) : es.length ≤ t.entities.slots.size := by
  refine SlotTable.length_le_of_nodup h.nodup fun a ha => ?_
  obtain ⟨-, x, hx, -⟩ := h.owned ha
  exact SlotTable.contains_of_get? hx

/-- The bounded recursion reads the whole way, once the bound is no shorter than it. -/
theorem Rooted.pathFrom_eq (h : Rooted t es e) {steps : Nat} (hsteps : es.length ≤ steps)
    (below : QualifiedName) : t.pathFrom steps e below = es.map t.part ++ below := by
  induction h generalizing steps below with
  | root => cases steps <;> simp [pathFrom]
  | @member es e x c s h he hx hc hs ih =>
    rw [List.length_append, List.length_singleton] at hsteps
    obtain ⟨steps, rfl⟩ : ∃ n, steps = n + 1 := ⟨steps - 1, by omega⟩
    rw [pathFrom, if_neg he, hx]
    simp only [hc, Option.bind_some, hs]
    rw [ih (by omega), List.map_append, List.append_assoc, List.map_singleton, part_eq hx]
    rfl

/-- The path of a rooted entity names what lies on the way to it. -/
theorem Rooted.path_eq (h : Rooted t es e) : t.path e = es.map t.part := by
  have hle := h.length_le
  rw [path, h.pathFrom_eq (by unfold reach; omega), List.append_nil]

theorem Rooted.ne_nil (h : Rooted t es e) (he : e ≠ rootEntity) : es ≠ [] := by
  cases h with
  | root => exact absurd rfl he
  | member => simp

theorem plain_pathFrom (t : Tables L T) (steps : Nat) (e : EntityId) {below : QualifiedName}
    (h : below.Plain) : (t.pathFrom steps e below).Plain := by
  induction steps generalizing e below with
  | zero => exact h
  | succ steps ih =>
    rw [pathFrom]
    have hpart (x : Entity) : QualifiedName.Plain (x.part :: below) :=
      List.forall_mem_cons.2 ⟨⟨x.name, x.params, rfl⟩, h⟩
    split_ifs
    · exact h
    · split
      · exact h
      · split
        · exact hpart _
        · exact ih _ (hpart _)

/-- A path is made of signatures, whether it comes from the root or not. -/
theorem plain_path (t : Tables L T) (e : EntityId) : (t.path e).Plain :=
  t.plain_pathFrom _ e fun _ h => by cases h

theorem suffix_pathFrom (t : Tables L T) (steps : Nat) (e : EntityId) (below : QualifiedName) :
    below <:+ t.pathFrom steps e below := by
  induction steps generalizing e below with
  | zero => exact List.suffix_refl below
  | succ steps ih =>
    rw [pathFrom]
    split_ifs
    · exact List.suffix_refl below
    · split
      · exact List.suffix_refl below
      · split
        · exact List.suffix_cons _ below
        · exact (List.suffix_cons _ below).trans (ih _ _)

/-- The root has the empty path, and so has what is not there. -/
theorem path_eq_nil_iff : t.path e = [] ↔ e = rootEntity ∨ t.entities.get? e = none := by
  rw [path, reach, pathFrom]
  split_ifs with he
  · simp [he]
  · cases hx : t.entities.get? e with
    | none => simp
    | some x =>
      simp only [he, false_or, reduceCtorEq, iff_false]
      split
      · exact List.cons_ne_nil _ _
      · rename_i s _
        intro h
        have hsuffix := t.suffix_pathFrom t.entities.slots.size s.entity [x.part]
        rw [h] at hsuffix
        cases List.suffix_nil.1 hsuffix

/-- An entity is in the scope of another one. -/
def Above (t : Tables L T) (a b : EntityId) : Prop :=
  ∃ x c s, t.entities.get? b = some x ∧ x.owner = some c ∧ t.scopes.get? c = some s ∧
    s.entity = a

/-- The entity above another, as a chain of lookups. -/
theorem above_iff : t.Above a b ↔
    (((t.entities.get? b).bind Entity.owner).bind t.scopes.get?).map Scope.entity = some a := by
  constructor
  · rintro ⟨x, c, s, hx, hc, hs, rfl⟩
    simp [hx, hc, hs]
  · simp only [Option.map_eq_some_iff, Option.bind_eq_some_iff]
    rintro ⟨s, ⟨c, ⟨x, hx, hc⟩, hs⟩, hentity⟩
    exact ⟨x, c, s, hx, hc, hs, hentity⟩

instance : Decidable (t.Above a b) :=
  decidable_of_iff _ above_iff.symm

theorem Rooted.of_above (h : Rooted t es a) (hb : b ≠ rootEntity) (hab : t.Above a b) :
    Rooted t (es ++ [b]) b := by
  obtain ⟨x, c, s, hx, hc, hs, rfl⟩ := hab
  exact .member h hb hx hc hs

/-- What is in the root's scope is rooted. -/
theorem Coherent.rooted_of_owner (ht : t.Coherent) (he : e ≠ rootEntity)
    (ho : (t.entities.get? e).bind Entity.owner = some rootScope) : Rooted t [e] e := by
  obtain ⟨x, hx, hc⟩ := Option.bind_eq_some_iff.1 ho
  obtain ⟨s, hs, hse⟩ := ht.get?_rootScope
  exact Rooted.root.of_above he ⟨x, _, s, hx, hc, hs, hse⟩

/-- On the way, every entity is in the scope of the one before. -/
theorem Rooted.isChain (h : Rooted t es e) :
    (rootEntity :: es).IsChain t.Above ∧ (rootEntity :: es).getLast? = some e := by
  induction h with
  | root => exact ⟨List.isChain_singleton _, rfl⟩
  | @member es e x c s h he hx hc hs ih =>
    refine ⟨?_, by simp [List.getLast?_cons]⟩
    rw [← List.cons_append, List.isChain_append]
    refine ⟨ih.1, List.isChain_singleton e, fun a ha b hb => ?_⟩
    rw [ih.2] at ha
    obtain rfl := Option.some.inj ha
    rw [List.head?_cons] at hb
    obtain rfl := Option.some.inj hb
    exact ⟨x, c, s, hx, hc, hs, rfl⟩

/-- A way further down is followed to its end, unless it leads through the root. -/
theorem Rooted.append (h : Rooted t es a) (hfs : (a :: fs).IsChain t.Above)
    (hroot : rootEntity ∉ fs) (he : (a :: fs).getLast? = some e) : Rooted t (es ++ fs) e := by
  induction fs generalizing es a with
  | nil =>
    rw [List.getLast?_singleton] at he
    obtain rfl := Option.some.inj he
    rwa [List.append_nil]
  | cons b fs ih =>
    rw [List.isChain_cons_cons] at hfs
    rw [List.mem_cons, not_or] at hroot
    rw [List.getLast?_cons_cons] at he
    rw [List.append_cons]
    exact ih (h.of_above (Ne.symm hroot.1) hfs.1) hfs.2 hroot.2 he

/-- What comes later in a chain is below its head. -/
theorem transGen_of_isChain (h : (a :: es).IsChain t.Above) (hb : b ∈ es) :
    Relation.TransGen t.Above a b :=
  (h.imp fun _ _ => Relation.TransGen.single).rel_cons hb

/-- Nothing is above an entity without an owner. -/
theorem not_transGen_above (hb : (t.entities.get? b).bind Entity.owner = none) :
    ¬Relation.TransGen t.Above a b := by
  have hnot (a : EntityId) : ¬t.Above a b := by
    rintro ⟨x, c, s, hx, hc, -⟩
    rw [hx, Option.bind_some, hc] at hb
    cases hb
  intro h
  cases h with
  | single h => exact hnot a h
  | tail _ h => exact hnot _ h

/-- The root lies on no way down, unless it has been put into a scope below it. -/
theorem Rooted.root_notMem (h : Rooted t es a) (hfs : (a :: fs).IsChain t.Above)
    (hroot : ¬Relation.TransGen t.Above rootEntity rootEntity) : rootEntity ∉ fs := by
  intro hmem
  have hup := transGen_of_isChain hfs hmem
  have hdown := h.isChain.1
  cases h with
  | root => exact hroot hup
  | member => exact hroot ((transGen_of_isChain hdown (by simp)).trans hup)

/-! ## The way stays -/

/-- What is rooted is rooted later, in the same way, and nothing on the way has changed. -/
def KeepsRooted (t t' : Tables L T) : Prop :=
  ∀ es e, Rooted t es e →
    Rooted t' es e ∧ ∀ a ∈ es, t'.entities.get? a = t.entities.get? a

theorem KeepsRooted.refl (t : Tables L T) : KeepsRooted t t :=
  fun _ _ h => ⟨h, fun _ _ => rfl⟩

theorem KeepsRooted.trans {t'' : Tables L T} (h : KeepsRooted t t') (h' : KeepsRooted t' t'') :
    KeepsRooted t t'' := by
  intro es e hr
  obtain ⟨hr', hsame⟩ := h es e hr
  obtain ⟨hr'', hsame'⟩ := h' es e hr'
  exact ⟨hr'', fun a ha => (hsame' a ha).trans (hsame a ha)⟩

/-- The path of a rooted entity stays what it is. -/
theorem KeepsRooted.path_eq (hk : KeepsRooted t t') (h : Rooted t es e) :
    t'.path e = t.path e := by
  obtain ⟨h', hsame⟩ := hk es e h
  rw [h'.path_eq, h.path_eq]
  refine List.map_congr_left fun a ha => ?_
  rw [part, part, hsame a ha]

/-- The entity is the root or in a scope, so that it is never freed. -/
def Anchored (t : Tables L T) (a : EntityId) : Prop :=
  a = rootEntity ∨ ∃ x c, t.entities.get? a = some x ∧ x.owner = some c

theorem Anchored.not_loose (h : t.Anchored a) : ¬t.Loose a := by
  rintro ⟨hne, x, hx, hown⟩
  rcases h with rfl | ⟨y, c, hy, hc⟩
  · exact hne rfl
  · exact ne_of_owned hy hc hx hown rfl

theorem Anchored.edit (h : t.Anchored a) (ht : t.Formed) (he : Edit t t') : t'.Anchored a := by
  rcases h with rfl | ⟨x, c, hx, hc⟩
  · exact Or.inl rfl
  · exact Or.inr ⟨x, c, ht.get?_entities_edit he hx hc, hc⟩

theorem Has.anchored {name : String} {params : List Param} (h : t.Has c name params a) :
    t.Anchored a := by
  obtain ⟨x, hx, -, -, hc⟩ := h
  exact Or.inr ⟨x, c, hx, hc⟩

theorem Rooted.anchored (h : Rooted t es e) : t.Anchored e := by
  cases h with
  | root => exact Or.inl rfl
  | member _ _ hx hc => exact Or.inr ⟨_, _, hx, hc⟩

/-- The scope is the inside of the entity, which is never freed. -/
def Encloses (t : Tables L T) (a : EntityId) (c : ScopeId) : Prop :=
  t.Anchored a ∧ ∃ s, t.scopes.get? c = some s ∧ s.entity = a

theorem Encloses.edit (h : t.Encloses a c) (ht : t.Coherent) (he : Edit t t') :
    t'.Encloses a c := by
  obtain ⟨ha, s, hs, rfl⟩ := h
  exact ⟨ha.edit ht.formed he, ht.paired.get?_scopes_edit ht.formed he hs ha.not_loose⟩

/-- What belongs to the inside of an entity is below it. -/
theorem Encloses.above {name : String} {params : List Param} (h : t.Encloses a c)
    (hb : t.Has c name params b) : t.Above a b ∧ t.part b = .simple name params := by
  obtain ⟨-, s, hs, rfl⟩ := h
  obtain ⟨x, hx, rfl, rfl, hc⟩ := hb
  exact ⟨⟨x, c, s, hx, hc, hs, rfl⟩, part_eq hx⟩

/-- So every way down stays as it is, edit by edit. -/
theorem Coherent.keepsRooted (ht : t.Coherent) (h : Edit t t') : KeepsRooted t t' := by
  intro es e hr
  have hsame (a : EntityId) (ha : a ∈ es) : t'.entities.get? a = t.entities.get? a := by
    obtain ⟨-, x, hx, hown⟩ := hr.owned ha
    obtain ⟨c, hc⟩ := Option.ne_none_iff_exists'.1 hown
    rw [hx, ht.formed.get?_entities_edit h hx hc]
  refine ⟨?_, hsame⟩
  clear hsame
  induction hr with
  | root => exact .root
  | @member es e x c s hr he hx hc hs ih =>
    obtain ⟨s', hs', hse⟩ := ht.paired.get?_scopes_edit ht.formed h hs hr.anchored.not_loose
    exact .member (hse ▸ ih) he (ht.formed.get?_entities_edit h hx hc) hc hs'

theorem Coherent.keepsRooted_edit {u : Tables L T} (ht : t.Coherent ∧ KeepsRooted u t)
    (h : Edit t t') : t'.Coherent ∧ KeepsRooted u t' :=
  ⟨ht.1.edit h, ht.2.trans (ht.1.keepsRooted h)⟩

end Tables

namespace Session

variable {L T W : Type} {s s' : Session L T W} {ending : Ending}

theorem Course.keepsRooted (h : Course s ending s') (hs : s.tables.Coherent) :
    s'.tables.Coherent ∧ Tables.KeepsRooted s.tables s'.tables :=
  h.induction_edit Tables.Coherent.keepsRooted_edit ⟨hs, .refl _⟩

theorem Later.keepsRooted (h : Later s s') (hs : s.tables.Coherent) :
    s'.tables.Coherent ∧ Tables.KeepsRooted s.tables s'.tables :=
  (h.induction_edit (fun _ => Tables.Coherent.keepsRooted_edit) hs.formed ⟨hs, .refl _⟩).2

end Session

end NameResolution
