import NameResolution.Mangled.Writer
import NameResolution.Proofs.Mangled.Derivations
import NameResolution.Proofs.Trails

/-!
# How deep mangled names are nested

A mangled path contains the mangled paths of its parameters' types, and so on. A well-named
entity (`WellNamed`) is one where this comes to an end : the types of the parameters on the
way to it are well-named before it is, so none of them needs the name of an entity that it
is needed for (`WellNamed.acc`). So writing to a depth of as many paths as there are slots
writes everything (`WellNamed.mangledPath_eq`), and the text at the depth that is used is
made of the texts of its parameters at the same depth (`WellNamed.mangledPath_reach`).

Where the ways to entities stay, their names stay (`WellNamed.mangleEntity_keeps`).
-/

namespace NameResolution

namespace Tables

variable {L T : Type} {t t' : Tables L T} {e q : EntityId} {es : List EntityId}

/-! ## Well-named entities -/

/-- An entity other than the root can be named if the way to it leads down from the root, its name
is not that of a lone empty text, which cannot be told from the root's, and the types of the
parameters on the way can be named. -/
inductive WellNamed (t : Tables L T) : EntityId → Prop
  | intro {es : List EntityId} {e : EntityId} (h : Rooted t es e) (he : e ≠ rootEntity)
    (hp : t.path e ≠ [.simple "" []])
    (hparams : ∀ a ∈ es, ∀ x, t.entities.get? a = some x → ∀ p ∈ x.params, ∀ q,
      p.entity = some q → WellNamed t q) : WellNamed t e

/-- The first entity is the type of a parameter on the way to the second. -/
def Needs (t : Tables L T) (q e : EntityId) : Prop :=
  ∃ es, Rooted t es e ∧ ∃ a ∈ es, ∃ x, t.entities.get? a = some x ∧
    ∃ p ∈ x.params, p.entity = some q

/-- The types that a well-named entity needs are well named. -/
theorem WellNamed.of_needs (hw : t.WellNamed e) (hq : t.Needs q e) : t.WellNamed q := by
  obtain ⟨h, -, -, hparams⟩ := hw
  obtain ⟨es, h', a, ha, x, hx, p, hp, hpq⟩ := hq
  exact hparams a (h'.unique h ▸ ha) x hx p hp q hpq

/-- Names are needed along a well-founded order. -/
theorem WellNamed.acc (hw : t.WellNamed e) : Acc t.Needs e := by
  induction hw with
  | intro h _ _ _ ih =>
    refine Acc.intro _ fun q ⟨es', h', a, ha, x, hx, p, hp, hpq⟩ => ?_
    exact ih a (h'.unique h ▸ ha) x hx p hp q hpq

/-- No entity needs its own name. -/
theorem WellNamed.not_needs_self (hw : t.WellNamed e) : ¬Relation.TransGen t.Needs e e := by
  induction hw.acc.transGen with
  | intro e _ ih => exact fun h => ih e h hw h

theorem WellNamed.contains (hw : t.WellNamed e) : t.entities.contains e = true := by
  obtain ⟨h, he, -, -⟩ := hw
  cases h with
  | root => exact absurd rfl he
  | member _ _ hx => exact SlotTable.contains_of_get? hx

/-! ## The depth of nesting -/

/-- The text of a signature depends on the texts of the types in it. -/
theorem writeName_congr {n : QualifiedName} (hn : n.Plain) {f g : EntityId → List Char}
    (h : ∀ p ∈ n, ∀ r ∈ p.params, ∀ q, r.entity = some q → f q = g q) :
    Mangled.writeName f n = Mangled.writeName g n := by
  unfold Mangled.writeName
  congr 1
  refine List.map_congr_left fun p hp => ?_
  obtain ⟨text, params, rfl⟩ := hn p hp
  rw [Mangled.writePart, Mangled.writePart]
  congr 2
  refine List.map_congr_left fun r hr => ?_
  unfold Mangled.writeParam
  cases hq : r.entity with
  | none => rfl
  | some q => exact congrArg _ (h _ hp r hr q hq)

/-- The text of a path depends on the texts of the types that it needs alone. -/
theorem Rooted.writeName_congr (h : Rooted t es e) {f g : EntityId → List Char}
    (hfg : ∀ q, t.Needs q e → f q = g q) :
    Mangled.writeName f (t.path e) = Mangled.writeName g (t.path e) := by
  refine Tables.writeName_congr (t.plain_path e) fun p hp r hr q hq => hfg q ?_
  rw [h.path_eq] at hp
  obtain ⟨a, ha, rfl⟩ := List.mem_map.1 hp
  obtain ⟨-, x, hx, -⟩ := h.owned ha
  rw [part_eq hx] at hr
  exact ⟨es, h, a, ha, x, hx, r, hr, hq⟩

/-- The mangled path of a well-named entity needs those of the types on the way to it. -/
theorem recursion_wellNamed (t : Tables L T) :
    SlotTable.Recursion t.entities t.WellNamed t.Needs
      fun pathText e => Mangled.writeName pathText (t.path e) where
  closed := WellNamed.of_needs
  live hw _ := hw.contains
  reads hw hfg := by
    obtain ⟨h, -, -, -⟩ := hw
    exact h.writeName_congr hfg
  acyclic := WellNamed.not_needs_self

/-- Beyond the depth that is used, nothing more is written. -/
theorem WellNamed.mangledPath_eq (hw : t.WellNamed e) {d : Nat} (hd : t.reach ≤ d) :
    t.mangledPath d e = t.mangledPath t.reach e :=
  t.recursion_wellNamed.eq (fun _ _ => rfl) (fun _ _ => rfl) hw hd (Nat.lt_succ_self _)

/-- The mangled path of an entity is made of those of its parameters' types. -/
theorem WellNamed.mangledPath_reach (hw : t.WellNamed e) :
    t.mangledPath t.reach e = Mangled.writeName (t.mangledPath t.reach) (t.path e) := by
  rw [← hw.mangledPath_eq (Nat.le_succ _)]
  rfl

/-- The derivation of the mangled path is made of those of its parameters' types : both have the
same text. -/
theorem WellNamed.derivation_reach (hw : t.WellNamed e) :
    t.derivation t.reach e = Mangled.nameTree (t.derivation t.reach) (t.path e) := by
  refine Mangled.textOf_injective (t.isParameter_derivation _ e)
    (Mangled.isParameter_nameTree (t.isParameter_derivation _) _) ?_
  rw [← t.mangledPath_eq, hw.mangledPath_reach, Mangled.textOf_nameTree (t.mangledPath_eq _)]

/-! ## Names stay -/

/-- Where the ways to entities stay, the well-named ones stay so. -/
theorem WellNamed.keeps (hw : t.WellNamed e) (hk : KeepsRooted t t') : t'.WellNamed e := by
  induction hw with
  | @intro es e h he hp hparams ih =>
    obtain ⟨h', hsame⟩ := hk es e h
    refine .intro h' he (hk.path_eq h ▸ hp) fun a ha x hx => ?_
    exact ih a ha x (hsame a ha ▸ hx)

/-- Where the ways to entities stay, so do the mangled paths of the well-named ones. -/
theorem WellNamed.mangledPath_keeps (hw : t.WellNamed e) (hk : KeepsRooted t t') (d : Nat) :
    t'.mangledPath d e = t.mangledPath d e := by
  induction hw generalizing d with
  | @intro es e h he hp hparams ih =>
    cases d with
    | zero => rfl
    | succ d =>
      rw [mangledPath, mangledPath, hk.path_eq h]
      refine h.writeName_congr fun q hq => ?_
      obtain ⟨es', h', a, ha, x, hx, p, hp, hpq⟩ := hq
      exact ih a (h'.unique h ▸ ha) x hx p hp q hpq d

/-- The name of an entity keeps its derivation. -/
theorem WellNamed.derivation_keeps (hw : t.WellNamed e) (hk : KeepsRooted t t')
    (hr : t.reach ≤ t'.reach) : t'.derivation t'.reach e = t.derivation t.reach e := by
  refine Mangled.textOf_injective (t'.isParameter_derivation _ e) (t.isParameter_derivation _ e) ?_
  rw [← t'.mangledPath_eq, ← t.mangledPath_eq, hw.mangledPath_keeps hk, hw.mangledPath_eq hr]

/-- An entity keeps its mangled name. -/
theorem WellNamed.mangleEntity_keeps (hw : t.WellNamed e) (hk : KeepsRooted t t')
    (hr : t.reach ≤ t'.reach) : t'.mangleEntity e = t.mangleEntity e := by
  have hw' := hw.keeps hk
  unfold mangleEntity mangle
  rw [← hw'.mangledPath_reach, ← hw.mangledPath_reach, hw.mangledPath_keeps hk,
    hw.mangledPath_eq hr]

end Tables

end NameResolution
