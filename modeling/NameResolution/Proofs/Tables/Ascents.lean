import NameResolution.Proofs.Tables.Ownership
import NameResolution.Proofs.Trails

/-!
# The way up

Both loops that follow owners go from something to the one thing that is around it, until there is
none. `Passes` says what such a loop passes. If nothing comes back to itself, then a loop passes
nothing twice (`Passes.nodup`), and it ends, since it passes only what is live
(`SlotTable.exists_passes`). In tables where nothing is around itself (`Acyclic`), a path is what
the way up of its entity passes, down from the root (`path_of_passes`), and it is not longer than
there are live entities (`length_path_le`).

A change of the tables can make a circle in one way only, as nothing is around what is new : an
entity is put into a scope whose entity it is itself, or is around (`acyclic_attach_iff`). The
entities of a circle are all in scopes, so a circle is never broken (`Coherent.not_acyclic_edit`).
-/

namespace NameResolution

open Relation (ReflTransGen TransGen)

/-! ## Following links -/

section

variable {α : Type} {next : α → Option α} {r r' : α → α → Prop} {a b p q : α} {l l' : List α}

/-- Following links from `a` passes these, in this order, and ends. -/
inductive Passes (next : α → Option α) : α → List α → Prop
  | last {a : α} (h : next a = none) : Passes next a [a]
  | step {a b : α} {l : List α} (h : next a = some b) (hl : Passes next b l) :
    Passes next a (a :: l)

namespace Passes

/-- What is passed on the way up is fixed by where it starts. -/
theorem unique (h : Passes next a l) (h' : Passes next a l') : l = l' := by
  induction h generalizing l' with
  | last h =>
    cases h' with
    | last => rfl
    | step h' => cases h.symm.trans h'
  | step h _ ih =>
    cases h' with
    | last h' => cases h.symm.trans h'
    | step h' hl' =>
      obtain rfl := Option.some.inj (h.symm.trans h')
      rw [ih hl']

/-- What is passed is what links lead to. -/
theorem mem_iff (h : Passes next a l) :
    b ∈ l ↔ ReflTransGen (fun a b => next a = some b) a b := by
  induction h with
  | @last a h =>
    rw [List.mem_singleton, ReflTransGen.cases_head_iff, h]
    simp [eq_comm]
  | @step a c l h _ ih =>
    rw [List.mem_cons, ih]
    constructor
    · rintro (rfl | hb)
      · exact .refl
      · exact hb.head h
    · intro hb
      rcases ReflTransGen.cases_head hb with rfl | ⟨d, hd, hb⟩
      · exact Or.inl rfl
      · obtain rfl := Option.some.inj (h.symm.trans hd)
        exact Or.inr hb

/-- If nothing comes back to itself, nothing is passed twice. -/
theorem nodup (h : Passes next a l) (hacyclic : ∀ b, ¬TransGen (fun a b => next a = some b) b b) :
    l.Nodup := by
  induction h with
  | last => exact List.nodup_singleton _
  | step h hl ih =>
    refine List.nodup_cons.2 ⟨fun hmem => ?_, ih⟩
    exact hacyclic _ (TransGen.head' h (hl.mem_iff.1 hmem))

/-- From everything that is passed but the last, there is a link. -/
theorem ne_none_of_mem (h : Passes next a l) (hb : b ∈ l.dropLast) : next b ≠ none := by
  induction h with
  | last => cases hb
  | @step a c l h hl ih =>
    have hne : l ≠ [] := by cases hl <;> exact List.cons_ne_nil _ _
    rw [List.dropLast_cons_of_ne_nil hne] at hb
    rcases List.mem_cons.1 hb with rfl | hb
    · simp [h]
    · exact ih hb

end Passes

/-- Everything on a circle comes after something, so only such links count. -/
theorem transGen_of_linked (h : ∀ z a b, r z a → r a b → r' a b) (ha : TransGen r a a) :
    TransGen r' a a := by
  obtain ⟨z, -, hz⟩ := TransGen.tail'_iff.1 ha
  have hall {b : α} (hb : TransGen r a b) : TransGen r' a b := by
    induction hb with
    | single hb => exact .single (h z a _ hz hb)
    | tail hb hc ih =>
      obtain ⟨y, -, hy⟩ := TransGen.tail'_iff.1 hb
      exact ih.tail (h y _ _ hy hc)
  exact hall ha

/-- With one link more there is a way as before, or one through the new link. -/
theorem transGen_with_link (h : TransGen (fun a b => r a b ∨ a = p ∧ b = q) a b) :
    TransGen r a b ∨ ReflTransGen r a p ∧ ReflTransGen r q b := by
  induction h with
  | single h =>
    rcases h with h | ⟨rfl, rfl⟩
    · exact Or.inl (.single h)
    · exact Or.inr ⟨.refl, .refl⟩
  | tail _ h ih =>
    rcases h with h | ⟨rfl, rfl⟩
    · exact ih.imp (·.tail h) (And.imp_right (·.tail h))
    · exact Or.inr ⟨ih.elim TransGen.to_reflTransGen And.left, .refl⟩

end

namespace SlotTable

variable {kind : Kind} {α : Type} {t : SlotTable kind α} {h : Handle kind}
  {l : List (Handle kind)} {next : Handle kind → Option (Handle kind)}

/-- There are no more different live handles than entries. -/
theorem Counted.length_le_size (ht : t.Counted) (hl : l.Nodup)
    (hlive : ∀ h ∈ l, t.contains h = true) : l.length ≤ t.size := by
  rw [← ht.length_toList, ← List.length_map Prod.fst]
  refine (hl.subperm fun h hh => ?_).length_le
  obtain ⟨a, ha⟩ := contains_iff.1 (hlive h hh)
  exact List.mem_map.2 ⟨(h, a), mem_toList_iff.2 ha, rfl⟩

section

variable (hlive : ∀ h k, next h = some k → t.contains h = true)
  (hacyclic : ∀ h, ¬TransGen (fun h k => next h = some k) h h)

include hlive hacyclic

/-- Every handle of the trail leads to `h`, so a link from there leads on to a longer trail. -/
theorem exists_passes_of_trail (trail : List (Handle kind)) (h : Handle kind)
    (hnodup : trail.Nodup)
    (htrail : ∀ k ∈ trail, t.contains k = true ∧ TransGen (fun h k => next h = some k) k h) :
    ∃ l, Passes next h l := by
  cases hk : next h with
  | none => exact ⟨[h], .last hk⟩
  | some k =>
    have hnew : h ∉ trail := fun hmem => hacyclic h (htrail h hmem).2
    have hnodup' : (h :: trail).Nodup := List.nodup_cons.2 ⟨hnew, hnodup⟩
    have hle : (h :: trail).length ≤ t.slots.size :=
      length_le_of_nodup hnodup'
        (List.forall_mem_cons.2 ⟨hlive h k hk, fun j hj => (htrail j hj).1⟩)
    have hlt : t.slots.size - (h :: trail).length < t.slots.size - trail.length := by
      rw [List.length_cons] at hle ⊢
      omega
    obtain ⟨l, hl⟩ := exists_passes_of_trail (h :: trail) k hnodup'
      (List.forall_mem_cons.2 ⟨⟨hlive h k hk, .single hk⟩, fun j hj =>
        ⟨(htrail j hj).1, (htrail j hj).2.tail hk⟩⟩)
    exact ⟨h :: l, .step hk hl⟩
termination_by t.slots.size - trail.length

/-- Links from live handles that do not come back end somewhere. -/
theorem exists_passes (h : Handle kind) : ∃ l, Passes next h l :=
  exists_passes_of_trail hlive hacyclic [] h List.nodup_nil (by simp)

end

end SlotTable

namespace Tables

variable {L T : Type} {t t' : Tables L T} {c : ScopeId} {e a b z : EntityId} {s : Scope L T}
  {es : List EntityId}

/-! ## The way up -/

/-- The entity that an entity is in the scope of. -/
def up (t : Tables L T) (e : EntityId) : Option EntityId :=
  (((t.entities.get? e).bind Entity.owner).bind t.scopes.get?).map Scope.entity

/-- One step up goes to the entity directly above. -/
theorem up_eq_some_iff : t.up b = some a ↔ t.Above a b := by
  unfold up Above
  simp only [Option.map_eq_some_iff, Option.bind_eq_some_iff]
  grind

theorem contains_of_up (h : t.up b = some a) : t.entities.contains b = true := by
  obtain ⟨x, c, s, hx, -⟩ := up_eq_some_iff.1 h
  exact SlotTable.contains_of_get? hx

/-- Nothing is around itself. -/
def Acyclic (t : Tables L T) : Prop :=
  ∀ e, ¬TransGen t.Above e e

theorem transGen_up_iff :
    TransGen (fun a b => t.up a = some b) a b ↔ TransGen t.Above b a := by
  simp only [up_eq_some_iff]
  exact Relation.transGen_swap

/-- The way up ends, and passes nothing twice. -/
theorem Acyclic.exists_passes (h : t.Acyclic) (e : EntityId) :
    ∃ es, Passes t.up e es ∧ es.Nodup := by
  have hacyclic (e : EntityId) : ¬TransGen (fun a b => t.up a = some b) e e :=
    fun hcycle => h e (transGen_up_iff.1 hcycle)
  obtain ⟨es, hes⟩ := SlotTable.exists_passes (fun _ _ => contains_of_up) hacyclic e
  exact ⟨es, hes, hes.nodup hacyclic⟩

/-! ## Paths -/

/-- Whether an entity has a part in paths : it is there, and is not the root. -/
def named (t : Tables L T) (e : EntityId) : Bool :=
  decide (e ≠ rootEntity) && t.entities.contains e

/-- A path lists the named entities that are passed, from the top. -/
theorem pathFrom_of_passes (h : Passes t.up e es) {steps : Nat} (hsteps : es.length ≤ steps)
    (below : QualifiedName) :
    t.pathFrom steps e below = ((es.takeWhile t.named).map t.part).reverse ++ below := by
  induction h generalizing steps below with
  | @last e h =>
    obtain ⟨steps, rfl⟩ : ∃ n, steps = n + 1 := ⟨steps - 1, by simp at hsteps; omega⟩
    rw [pathFrom]
    split_ifs with he
    · simp [named, he]
    · cases hx : t.entities.get? e with
      | none => simp [named, SlotTable.contains, hx]
      | some x =>
        have hnone : x.owner.bind t.scopes.get? = none := by simpa [up, hx] using h
        simp [named, he, SlotTable.contains, hx, hnone, part]
  | @step e a es h hes ih =>
    obtain ⟨steps, rfl⟩ : ∃ n, steps = n + 1 := ⟨steps - 1, by simp at hsteps; omega⟩
    obtain ⟨x, c, s, hx, hc, hs, rfl⟩ := up_eq_some_iff.1 h
    rw [pathFrom]
    split_ifs with he
    · simp [named, he]
    · rw [hx]
      simp only [hc, Option.bind_some, hs]
      rw [ih (by simpa using hsteps)]
      simp [named, he, SlotTable.contains, hx, part]

/-- There are steps enough in a path for the whole way up. -/
theorem length_le_reach (h : Passes t.up e es) (hnodup : es.Nodup) : es.length ≤ t.reach := by
  have hle : es.dropLast.length ≤ t.entities.slots.size := by
    refine SlotTable.length_le_of_nodup (hnodup.sublist (List.dropLast_sublist es)) fun a ha => ?_
    obtain ⟨b, hb⟩ := Option.ne_none_iff_exists'.1 (h.ne_none_of_mem ha)
    exact contains_of_up hb
  rw [List.length_dropLast] at hle
  unfold reach
  omega

/-- A path is what the way up passes, as far as it is below the root. -/
theorem path_of_passes (h : Passes t.up e es) (hnodup : es.Nodup) :
    t.path e = ((es.takeWhile t.named).map t.part).reverse := by
  rw [path, pathFrom_of_passes h (length_le_reach h hnodup), List.append_nil]

/-- A path is not longer than there are live entities. -/
theorem length_path_le (h : Passes t.up e es) (hnodup : es.Nodup) (ht : t.entities.Counted) :
    (t.path e).length ≤ t.entities.size := by
  rw [path_of_passes h hnodup, List.length_reverse, List.length_map]
  refine ht.length_le_size (hnodup.sublist (List.takeWhile_sublist t.named)) fun a ha => ?_
  have hnamed := List.all_eq_true.1 List.all_takeWhile a ha
  unfold named at hnamed
  exact (Bool.and_eq_true_iff.1 hnamed).2

/-! ## Circles -/

/-- No circle is made if what is above something else was so before, unless nothing is above it. -/
theorem Acyclic.of_linked (h : t.Acyclic)
    (hlink : ∀ z a b, t'.Above z a → t'.Above a b → t.Above a b) : t'.Acyclic :=
  fun e he => h e (transGen_of_linked hlink he)

/-- Nothing is above what is new. -/
theorem Acyclic.place (h : t.Acyclic) (ht : t.Formed) (d : Declaration L) :
    (t.place d).2.Acyclic := by
  have hold {e : EntityId} {x : Entity} {c : ScopeId}
      (hx : (t.place d).2.entities.get? e = some x) (hc : x.owner = some c) :
      t.entities.get? e = some x := by
    rcases ht.get?_entities_place hx with hx | ⟨-, kind, rfl, -⟩
    · exact hx
    · cases hc
  rintro e he
  refine h.of_linked (fun z a b hz hb => ?_) e he
  obtain ⟨x, c, s, hx, hc, hs, rfl⟩ := hb
  rcases ht.get?_scopes_place hs with hs | ⟨-, ⟨loader, rfl⟩, -⟩
  · exact ⟨x, c, s, hold hx hc, hc, hs, rfl⟩
  · -- The scope is the new one, and its entity has no owner.
    obtain ⟨y, c', s', hy, hc', -⟩ := hz
    cases (SlotTable.get?_next ht.entities).symm.trans (hold hy hc')

/-- Releasing an entity that nothing holds closes no circle. -/
theorem Acyclic.discard (h : t.Acyclic) (he : t.Loose e) : (t.discard e).Acyclic := by
  refine h.of_linked fun z a b _ hb => ?_
  obtain ⟨x, c, s, hx, hc, hs, rfl⟩ := hb
  obtain ⟨-, y, hy, -⟩ := id he
  exact ⟨x, c, s, ((get?_entities_discard he).1 hx).2, hc, get?_scopes_of_discard hy hs, rfl⟩

theorem Acyclic.scope (h : t.Acyclic) (c : ScopeId) {f : Scope L T → Scope L T}
    (hf : ∀ s : Scope L T, s.Alike (f s)) : Acyclic { t with scopes := t.scopes.modify c f } := by
  refine h.of_linked fun z a b _ hb => ?_
  obtain ⟨x, c', s, hx, hc, hs, rfl⟩ := hb
  obtain ⟨s₀, hs₀, halike⟩ := get?_scopes_modify hf hs
  exact ⟨x, c', s₀, hx, hc, hs₀, halike.entity.symm⟩

/-- Putting an entity into a scope places it below the entity of that scope. -/
theorem above_attach (h : t.attach c e = .ok t') (hs : t.scopes.get? c = some s) :
    t'.Above a b ↔ t.Above a b ∨ a = s.entity ∧ b = e := by
  obtain ⟨x₀, s₀, hx₀, hown, hs₀, -, hent, hscope⟩ := attach_cases h
  obtain rfl := Option.some.inj (hs.symm.trans hs₀)
  have hkeep (c' : ScopeId) : (∃ s', t'.scopes.get? c' = some s' ∧ s'.entity = a) ↔
      ∃ s', t.scopes.get? c' = some s' ∧ s'.entity = a := by
    rw [hscope]
    split_ifs with hc
    · simp [hc, hs, Scope.push]
    · rfl
  constructor
  · rintro ⟨x, c', s', hx, hc, hs'⟩
    rw [hent] at hx
    obtain ⟨s₁, hs₁⟩ := (hkeep c').1 ⟨s', hs'⟩
    split_ifs at hx with hb
    · obtain rfl := Option.some.inj hx
      obtain rfl := Option.some.inj hc
      rw [hs] at hs₁
      exact Or.inr ⟨(Option.some.inj hs₁.1 ▸ hs₁.2).symm, hb⟩
    · exact Or.inl ⟨x, c', s₁, hx, hc, hs₁⟩
  · rintro (⟨x, c', s', hx, hc, hs'⟩ | ⟨rfl, rfl⟩)
    · obtain ⟨s₁, hs₁⟩ := (hkeep c').2 ⟨s', hs'⟩
      refine ⟨x, c', s₁, ?_, hc, hs₁⟩
      rw [hent, if_neg (ne_of_owned hx hc hx₀ hown), hx]
    · obtain ⟨s₁, hs₁⟩ := (hkeep c).2 ⟨s, hs, rfl⟩
      exact ⟨_, c, s₁, by rw [hent, if_pos rfl], rfl, hs₁⟩

/-- Putting an entity into a scope makes a circle iff it is the entity of that scope or around
it. -/
theorem acyclic_attach_iff (ht : t.Acyclic) (h : t.attach c e = .ok t')
    (hs : t.scopes.get? c = some s) : t'.Acyclic ↔ ¬ReflTransGen t.Above e s.entity := by
  have habove : t'.Above = fun a b => t.Above a b ∨ a = s.entity ∧ b = e := by
    funext a b
    exact propext (above_attach h hs)
  unfold Acyclic
  rw [habove]
  constructor
  · intro h' hup
    refine h' e (TransGen.tail' (ReflTransGen.mono (fun _ _ => Or.inl) _ _ hup) ?_)
    exact Or.inr ⟨rfl, rfl⟩
  · intro hup a ha
    rcases transGen_with_link ha with ha | ⟨hap, hqa⟩
    · exact ht a ha
    · exact hup (hqa.trans hap)

/-- What is in a scope and around something stays both. -/
theorem Coherent.above_edit (ht : t.Coherent) (he : Edit t t') (hz : t.Above z a)
    (hb : t.Above a b) : t'.Above a b := by
  obtain ⟨x, c, s, hx, hc, hs, rfl⟩ := hb
  obtain ⟨y, c', -, hy, hc', -⟩ := hz
  obtain ⟨s', hs', hse⟩ :=
    ht.paired.get?_scopes_edit ht.formed he hs (Anchored.not_loose (Or.inr ⟨y, c', hy, hc'⟩))
  exact ⟨x, c, s', ht.formed.get?_entities_edit he hx hc, hc, hs', hse⟩

/-- A circle is never broken. -/
theorem Coherent.not_acyclic_edit (ht : t.Coherent) (he : Edit t t') (h : ¬t.Acyclic) :
    ¬t'.Acyclic := by
  intro h'
  exact h fun e hcycle => h' e (transGen_of_linked (fun _ _ _ => ht.above_edit he) hcycle)

end Tables

end NameResolution
