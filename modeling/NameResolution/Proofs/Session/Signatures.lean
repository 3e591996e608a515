import NameResolution.Proofs.Session.Mangling

/-!
# What becomes of signatures

A mangled name says of the type of a parameter what the type's path says, at the time of
writing. A well-named type is found again by it, even if the lookups of other parameters
have changed the session in between (`Succeeds`). But a type need not be well named. Of the
root and of an entity that has been released the path is empty, and nothing is written for
them; so they are read back as void (`forgetful_reads_another`). Of an entity that is in no
scope the path is its own part, under which another entity may be found from the root.

`signatures_read_back` says what is certain whenever the mangled name of a rooted entity is
read : the texts, the number of parameters and how each is taken; which parameters become
void; and that well-named types stay what they are.
-/

namespace NameResolution

open Mangled Tables

variable {L T W : Type}

/-! ## Types of parameters, written and read -/

namespace Tables

variable {t u t' : Tables L T} {e : EntityId} {q r : Param}

/-- Nothing is written for the entity when it is the type of a parameter : it is the root or not
there, or its path is a lone empty text. -/
def Silent (t : Tables L T) (e : EntityId) : Prop :=
  e = rootEntity ∨ t.entities.get? e = none ∨ t.path e = [.simple "" []]

/-- Exactly the silent entities are written as nothing. -/
theorem derivation_eq_none : t.derivation t.reach e = none ↔ t.Silent e := by
  rw [reach, derivation, nameTree_eq_none_of_plain (t.plain_path e), path_eq_nil_iff, or_assoc,
    Silent]

/-- What the second parameter, read back, has in common with the first, as it was written. -/
structure ReadsAs (t : Tables L T) (q r : Param) : Prop where
  byReference : r.byReference = q.byReference
  void : r.entity = none ↔ ∀ e, q.entity = some e → t.Silent e
  same : ∀ e, q.entity = some e → t.WellNamed e → r.entity = some e

/-- A parameter whose type is well named, or that is void, is read back as it was. -/
theorem ReadsAs.eq (h : t.ReadsAs q r) (hq : ∀ e, q.entity = some e → t.WellNamed e) : r = q := by
  obtain ⟨entity, byReference⟩ := q
  obtain ⟨entity', byReference'⟩ := r
  obtain rfl : byReference' = byReference := h.byReference
  cases entity with
  | none =>
    obtain rfl : entity' = none := h.void.2 fun _ => nofun
    rfl
  | some e =>
    obtain rfl : entity' = some e := h.same e rfl (hq e rfl)
    rfl

/-- A part and how it is read back. -/
def PartReadsAs (t : Tables L T) (p p' : NamePart) : Prop :=
  ∃ text params params', p = .simple text params ∧ p' = .simple text params' ∧
    List.Forall₂ t.ReadsAs params params'

/-- A part whose parameters are well named is read as itself. -/
theorem PartReadsAs.eq {p p' : NamePart} (h : t.PartReadsAs p p')
    (hp : ∀ q ∈ p.params, ∀ e, q.entity = some e → t.WellNamed e) : p' = p := by
  obtain ⟨text, params, params', rfl, rfl, h⟩ := h
  congr 1
  induction h with
  | nil => rfl
  | cons hq _ ih =>
    obtain ⟨hp, hps⟩ := List.forall_mem_cons.1 hp
    rw [hq.eq hp, ih hps]

/-! ## Later tables -/

/-- Later tables : nothing on the way to a rooted entity has changed, and the records agree, as long
as no slot has been emptied too often. -/
structure Succeeds (u t : Tables L T) : Prop where
  coherent : t.Coherent
  sound : t.Unwrapped → t.Sound
  keeps : KeepsRooted u t
  reach : u.reach ≤ t.reach

/-- Later tables succeed the earlier ones through every edit. -/
theorem Succeeds.edit (h : Succeeds u t) (he : Edit t t') : Succeeds u t' := by
  have hext := h.coherent.formed.extends_edit he
  refine ⟨h.coherent.edit he, fun hu => ?_, h.keeps.trans (h.coherent.keepsRooted he),
    h.reach.trans (Nat.succ_le_succ hext.entities.size_le)⟩
  have hu := hext.unwrapped hu
  exact (h.sound hu).edit hu he

end Tables

namespace Session

variable {services : Services L T W} {u : Tables L T} {s s' s₁ s₂ : Session L T W}

/-! ## Resolving is a course -/

mutual

theorem covered_resolve_part (hs : Obeys services) :
    ∀ p : PartTree, Covered (p.resolve services)
  | .mk text slots => by
    unfold PartTree.resolve
    exact (covered_resolveSlots hs slots).bind fun _ => covered_pure _

theorem covered_resolveSlots (hs : Obeys services) :
    ∀ slots : List SlotTree, Covered (resolveSlots services slots)
  | [] => covered_pure _
  | slot :: slots => by
    unfold resolveSlots
    exact (covered_resolve_slot hs slot).bind fun _ =>
      (covered_resolveSlots hs slots).bind fun _ => covered_pure _

theorem covered_resolve_slot (hs : Obeys services) :
    ∀ slot : SlotTree, Covered (slot.resolve services)
  | .void _ => covered_pure _
  | .named _ name => by
    unfold SlotTree.resolve
    exact (covered_resolve_name hs name).bind fun n =>
      ((closed_covered hs).findNamed rootScope n).bind fun _ => covered_pure _

theorem covered_resolve_name (hs : Obeys services) :
    ∀ tree : NameTree, Covered (tree.resolve services)
  | .mk first rest => by
    unfold NameTree.resolve
    exact (covered_resolve_part hs first).bind fun _ =>
      (covered_resolveRest hs rest).bind fun _ => covered_pure _

theorem covered_resolveRest (hs : Obeys services) :
    ∀ parts : List PartTree, Covered (resolveRest services parts)
  | [] => covered_pure _
  | part :: parts => by
    unfold resolveRest
    exact (covered_resolve_part hs part).bind fun _ =>
      (covered_resolveRest hs parts).bind fun _ => covered_pure _

end

/-! ## Reading back -/

/-- A parameter that was written in earlier tables is read back as they say. -/
theorem readsAs_of_resolve {q r : Param} (hs : Succeeds u s₁.tables) (hu : s₁.tables.Unwrapped)
    (hr : ((paramSlot (u.derivation u.reach) q).resolve services).run s₁ = (.ok r, s₂)) :
    u.ReadsAs q r := by
  have hfits := SlotTree.fits_resolve services _ _ _ _ hr
  have hvoid : q.entity.bind (u.derivation u.reach) = none ↔
      ∀ e, q.entity = some e → u.Silent e := by
    rw [Option.bind_eq_none_iff]
    exact forall₂_congr fun e _ => derivation_eq_none
  have hshape : r.byReference = q.byReference ∧
      (r.entity = none ↔ ∀ e, q.entity = some e → u.Silent e) := by
    rw [← hvoid]
    rw [paramSlot] at hfits
    cases hq : q.entity.bind (u.derivation u.reach) with
    | none =>
      rw [hq] at hfits
      obtain rfl : r = ⟨none, q.byReference⟩ := hfits
      exact ⟨rfl, by simp⟩
    | some tree =>
      rw [hq] at hfits
      exact ⟨hfits.2, iff_of_false hfits.1 (by simp)⟩
  refine ⟨hshape.1, hshape.2, fun e he hw => ?_⟩
  have hrun : ((paramSlot (u.derivation u.reach) q).resolve services).run s₁ = (.ok q, s₁) := by
    refine run_resolve_paramSlot fun e' he' => ?_
    obtain rfl : e = e' := Option.some.inj (he.symm.trans he')
    rw [← hw.derivation_keeps hs.keeps hs.reach]
    exact WellNamed.denotes (hs.sound hu) (hw.keeps hs.keeps)
  rw [hrun] at hr
  cases hr
  exact he

/-- The parameters that are read back, one by one. -/
theorem readsAs_of_resolveSlots (hobeys : Obeys services) {params params' : List Param}
    (hs : Succeeds u s₁.tables) (hu : s₂.tables.Unwrapped)
    (hr : (resolveSlots services (params.map (paramSlot (u.derivation u.reach)))).run s₁ =
      (.ok params', s₂)) : List.Forall₂ u.ReadsAs params params' := by
  induction params generalizing s₁ params' with
  | nil =>
    cases hr
    exact .nil
  | cons q qs ih =>
    obtain ⟨r, s', hq, hr⟩ := exists_of_run_bind_eq_ok hr
    obtain ⟨rs, s'', hqs, hr⟩ := exists_of_run_bind_eq_ok hr
    cases hr
    have hc := ((covered_resolve_slot hobeys _ _).of_run_eq_ok hs.coherent.formed hq).1
    have hs' := hc.induction_edit Succeeds.edit hs
    have hc' := ((covered_resolveSlots hobeys _ _).of_run_eq_ok hs'.coherent.formed hqs).1
    have hu' := (hc'.extends hs'.coherent.formed).unwrapped hu
    have hu₁ := (hc.extends hs.coherent.formed).unwrapped hu'
    exact .cons (readsAs_of_resolve hs hu₁ hq) (ih hs' hqs)

theorem partReadsAs_of_resolveRest (hobeys : Obeys services) {n m : QualifiedName} (hn : n.Plain)
    (hs : Succeeds u s₁.tables) (hu : s₂.tables.Unwrapped)
    (hr : (resolveRest services (n.map (partTree (u.derivation u.reach)))).run s₁ = (.ok m, s₂)) :
    List.Forall₂ u.PartReadsAs n m := by
  induction n generalizing s₁ m with
  | nil =>
    cases hr
    exact .nil
  | cons p ps ih =>
    obtain ⟨⟨text, params, rfl⟩, hps⟩ := List.forall_mem_cons.1 hn
    obtain ⟨p', s', hp, hr⟩ := exists_of_run_bind_eq_ok hr
    obtain ⟨m', s'', hrest, hr⟩ := exists_of_run_bind_eq_ok hr
    cases hr
    have hc := ((covered_resolve_part hobeys _ _).of_run_eq_ok hs.coherent.formed hp).1
    have hs' := hc.induction_edit Succeeds.edit hs
    have hc' := ((covered_resolveRest hobeys _ _).of_run_eq_ok hs'.coherent.formed hrest).1
    have hu' := (hc'.extends hs'.coherent.formed).unwrapped hu
    rw [partTree, PartTree.resolve, meaning_letters] at hp
    obtain ⟨params', s''', hparams, hp⟩ := exists_of_run_bind_eq_ok hp
    cases hp
    exact .cons ⟨text, params, params', rfl, rfl, readsAs_of_resolveSlots hobeys hs hu' hparams⟩
      (ih hps hs' hrest)

/-- What reads back well-named types alone is the name itself. -/
theorem eq_of_forall₂_partReadsAs {n m : QualifiedName} (h : List.Forall₂ u.PartReadsAs n m)
    (hn : ∀ p ∈ n, ∀ q ∈ p.params, ∀ e, q.entity = some e → u.WellNamed e) : m = n := by
  induction h with
  | nil => rfl
  | cons hp _ ih =>
    obtain ⟨hq, hqs⟩ := List.forall_mem_cons.1 hn
    rw [hp.eq hq, ih hqs]

/-- In every session that a host can bring about, if the mangled name of an entity is read to its
end, then the parts have the texts of the entity's path, and as many parameters, each taken in the
same way. A parameter is void if it was, and besides only if nothing was written for its type; and a
well-named type stays what it is. So the path comes out, unless a type on it is not well named. -/
theorem signatures_read_back {config : Config} {world : W} {s s' : Session L T W} {e : EntityId}
    {host : Host L T W} {fuel : Nat} {n : QualifiedName}
    (h : Later (Session.start config world) s) (hlone : s.tables.path e ≠ [.simple "" []])
    (hrun : host.perform fuel (.readMangled (s.tables.mangleEntity e)) s = (.ok (.ok n), s'))
    (hu : s'.tables.Unwrapped) :
    List.Forall₂ s.tables.PartReadsAs (s.tables.path e) n ∧
      ((∀ p ∈ s.tables.path e, ∀ q ∈ p.params, ∀ t, q.entity = some t → s.tables.WellNamed t) →
        n = s.tables.path e) := by
  have hs : Succeeds s.tables s.tables :=
    ⟨(h.keepsRooted (Sound.start config).coherent).1, h.sound (.start config), .refl _, le_rfl⟩
  have hplain := s.tables.plain_path e
  have hread := run_attempt_eq_ok hrun
  rw [mangleEntity, mangle_eq,
    readMangled_textOf _ (s.tables.isParameter_derivation _) hplain hlone] at hread
  have hparts := partReadsAs_of_resolveRest (obeys_services host fuel) hplain hs hu hread
  exact ⟨hparts, eq_of_forall₂_partReadsAs hparts⟩

/-- Two functions of the same name : the first takes a type that has been released since, and where
it does, the second takes void. -/
def forgetful : Session Unit Unit Unit :=
  let type (name : String) : Declaration Unit :=
    { name, params := [], kind := .type none, location := .unknown }
  let function (params : List Param) : Declaration Unit :=
    { name := "f", params, kind := .function .void, location := .unknown }
  let s := (quietHost.perform 1 (.define rootScope (type "Int")) (Session.start {} ())).2
  let s := (quietHost.perform 1 (.declare (type "Gone")) s).2
  let s := (quietHost.perform 1 (.define rootScope (function [.value ⟨1, 0⟩, .value ⟨2, 0⟩])) s).2
  let s := (quietHost.perform 1 (.define rootScope (function [.value ⟨1, 0⟩, .void])) s).2
  (quietHost.perform 1 (.release ⟨2, 0⟩) s).2

/-- The library that has forgotten a type is a later session. -/
theorem forgetful_later : Later (Session.start {} ()) forgetful :=
  (((((Later.refl _).perform quietHost 1 _).perform quietHost 1 _).perform quietHost 1 _).perform
    quietHost 1 _).perform quietHost 1 _

/-- It reads the overload for the forgotten type as the one for nothing. -/
theorem forgetful_reads :
    (quietHost.perform 1 (.readMangled (forgetful.tables.mangleEntity ⟨3, 0⟩)) forgetful).1 =
      .ok (.ok [.simple "f" [.value ⟨1, 0⟩, .void]]) := by
  decide +kernel

/-- `signatures_read_back` on that library : the path and what is read agree in all else. -/
theorem signatures_read_back_forgetful :
    forgetful.tables.path ⟨3, 0⟩ ≠ [.simple "" []] ∧
      List.Forall₂ forgetful.tables.PartReadsAs (forgetful.tables.path ⟨3, 0⟩)
        [.simple "f" [.value ⟨1, 0⟩, .void]] := by
  have hlone : forgetful.tables.path ⟨3, 0⟩ ≠ [.simple "" []] := by decide +kernel
  have hrun : quietHost.perform 1 (.readMangled (forgetful.tables.mangleEntity ⟨3, 0⟩)) forgetful =
      (.ok (.ok [.simple "f" [.value ⟨1, 0⟩, .void]]), (quietHost.perform 1
        (.readMangled (forgetful.tables.mangleEntity ⟨3, 0⟩)) forgetful).2) := by
    rw [← forgetful_reads]
  have hu : (quietHost.perform 1 (.readMangled (forgetful.tables.mangleEntity ⟨3, 0⟩))
      forgetful).2.tables.Unwrapped := by decide +kernel
  exact ⟨hlone, (signatures_read_back forgetful_later hlone hrun hu).1⟩

/-- The mangled name of the first function is read back as the path of the second, and so it denotes
the second. -/
theorem forgetful_reads_another :
    Later (Session.start {} ()) forgetful ∧ forgetful.tables.Rooted [⟨3, 0⟩] ⟨3, 0⟩ ∧
      (quietHost.perform 1 (.readMangled (forgetful.tables.mangleEntity ⟨3, 0⟩)) forgetful).1 =
        .ok (.ok (forgetful.tables.path ⟨4, 0⟩)) ∧
      forgetful.tables.path ⟨4, 0⟩ ≠ forgetful.tables.path ⟨3, 0⟩ ∧
      (quietHost.perform 1 (.decode rootScope (forgetful.tables.mangleEntity ⟨3, 0⟩)) forgetful).1 =
        .ok (.ok ⟨4, 0⟩) := by
  have hco := (forgetful_later.keepsRooted (Sound.start _).coherent).1
  have hr : forgetful.tables.Rooted [⟨3, 0⟩] ⟨3, 0⟩ :=
    hco.rooted_of_owner (by decide) (by decide +kernel)
  have hpath : [.simple "f" [.value ⟨1, 0⟩, .void]] = forgetful.tables.path ⟨4, 0⟩ := by
    decide +kernel
  exact ⟨forgetful_later, hr, hpath ▸ forgetful_reads, by decide +kernel, by decide +kernel⟩

end Session

end NameResolution
