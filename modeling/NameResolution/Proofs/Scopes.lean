import Mathlib.Data.List.Nodup
import Mathlib.Tactic.Common
import NameResolution.Scope

/-!
# What a scope holds

`Scope.items` are the entities of a name with their signatures, and none for a name that
the scope does not know. Putting an entity in adds one item (`items_push`) and hides
none (`find?_push_of_find?`), and every other change of a scope leaves the items alone
(`Alike`). If no name is listed twice, the content is made of the items
(`mem_content_iff`), and repeats nothing as long as no entity stands under two names or
signatures (`nodup_content`).
-/

namespace NameResolution

namespace Scope

variable {L T : Type} {s s' s'' : Scope L T} {name other : String} {params : List Param}
  {e : EntityId}

/-! ## Items -/

/-- The entities of a name, with their signatures. -/
def items (s : Scope L T) (name : String) : List Overload :=
  ((s.overloads? name).getD {}).items

/-- The names, in order. -/
def keys (s : Scope L T) : List String :=
  s.names.map Prod.fst

theorem find?_eq (s : Scope L T) (name : String) (params : List Param) :
    s.find? name params = ((s.items name).find? (·.params = params)).map Overload.entity := by
  unfold find? items
  cases s.overloads? name <;> rfl

/-- Nothing is found just in case no overload of the name has the signature. -/
theorem find?_eq_none_iff :
    s.find? name params = none ↔ ∀ o ∈ s.items name, o.params ≠ params := by
  simp [find?_eq]

/-- The item of a signature is the one that is found. -/
theorem find?_of_mem (hs : ((s.items name).map Overload.params).Nodup)
    (he : ⟨params, e⟩ ∈ s.items name) : s.find? name params = some e := by
  cases hf : (s.items name).find? (·.params = params) with
  | none =>
    have := List.find?_eq_none.1 hf _ he
    simp at this
  | some o =>
    have hp : o.params = params := by simpa using List.find?_some hf
    have ho := List.inj_on_of_nodup_map hs (List.mem_of_find?_eq_some hf) he hp
    rw [find?_eq, hf, ho]
    rfl

/-- What is found is among the overloads of its name. -/
theorem mem_of_find? (h : s.find? name params = some e) : ⟨params, e⟩ ∈ s.items name := by
  rw [find?_eq, Option.map_eq_some_iff] at h
  obtain ⟨o, ho, rfl⟩ := h
  have hp : o.params = params := by simpa using List.find?_some ho
  exact hp ▸ List.mem_of_find?_eq_some ho

/-! ## Changes -/

theorem keys_alter (f : OverloadSet T → OverloadSet T) (names : List (String × OverloadSet T)) :
    (alter name f names).map Prod.fst =
      if name ∈ names.map Prod.fst then names.map Prod.fst
      else names.map Prod.fst ++ [name] := by
  induction names with
  | nil => simp [alter]
  | cons entry rest ih =>
    by_cases h : entry.1 = name
    · simp [alter, h]
    · simp only [alter, h, if_false, List.map_cons, List.mem_cons, Ne.symm h, false_or, ih]
      split_ifs <;> rfl

/-- Altering an entry leaves the names distinct. -/
theorem nodup_keys_alter (f : OverloadSet T → OverloadSet T)
    {names : List (String × OverloadSet T)} (h : (names.map Prod.fst).Nodup) :
    ((alter name f names).map Prod.fst).Nodup := by
  rw [keys_alter]
  split_ifs with hm
  · exact h
  · exact List.nodup_append.2 ⟨h, by simp, fun a ha b hb hab =>
      hm (List.mem_singleton.1 hb ▸ hab ▸ ha)⟩

/-- An entity that is put in comes last among the overloads of its name. -/
theorem items_push (s : Scope L T) (name : String) (params : List Param) (e : EntityId)
    (other : String) : (s.push name params e).items other =
      if other = name then s.items name ++ [⟨params, e⟩] else s.items other := by
  unfold items overloads? push
  split_ifs with h
  · subst h
    rw [lookup_alter_self]
    rfl
  · rw [lookup_alter_of_ne h]

theorem mem_items_push {o : Overload} : o ∈ (s.push name params e).items other ↔
    o ∈ s.items other ∨ other = name ∧ o = ⟨params, e⟩ := by
  rw [items_push]
  split_ifs with h
  · simp [h]
  · simp [h]

/-- What is put in is found, if nothing was found before. -/
theorem find?_push_self (hnew : s.find? name params = none) :
    (s.push name params e).find? name params = some e := by
  rw [find?_eq, Option.map_eq_none_iff] at hnew
  rw [find?_eq, items_push, if_pos rfl, List.find?_append, hnew]
  simp

/-- What is found stays found when something is put in. -/
theorem find?_push_of_find? {name' : String} {params' : List Param} {e' : EntityId}
    (h : s.find? name params = some e) :
    (s.push name' params' e').find? name params = some e := by
  rw [find?_eq] at h
  obtain ⟨o, ho, rfl⟩ := Option.map_eq_some_iff.1 h
  rw [find?_eq, items_push]
  split_ifs with hn
  · subst hn
    rw [List.find?_append, ho]
    rfl
  · rw [ho]
    rfl

/-- What is found after something was put in was found before, or is that. -/
theorem find?_push_cases {name' : String} {params' : List Param} {e' : EntityId}
    (h : (s.push name' params' e').find? name params = some e) :
    s.find? name params = some e ∨ name = name' ∧ params = params' ∧ e = e' := by
  cases hs : s.find? name params with
  | some e₀ => exact Or.inl ((find?_push_of_find? hs).symm.trans h)
  | none =>
    rcases mem_items_push.1 (mem_of_find? h) with ho | ⟨hn, ho⟩
    · exact absurd rfl (find?_eq_none_iff.1 hs _ ho)
    · obtain ⟨hp, he⟩ := Overload.mk.inj ho
      exact Or.inr ⟨hn, hp, he⟩

/-- Signatures stay different when one is put in that was not found. -/
theorem nodup_params_push (hs : ((s.items other).map Overload.params).Nodup)
    (hnew : s.find? name params = none) :
    (((s.push name params e).items other).map Overload.params).Nodup := by
  rw [items_push]
  split_ifs with h
  · subst h
    rw [List.map_append, List.nodup_append]
    refine ⟨hs, List.nodup_singleton _, fun a ha b hb => ?_⟩
    obtain ⟨o, ho, rfl⟩ := List.mem_map.1 ha
    obtain rfl := List.mem_singleton.1 hb
    exact find?_eq_none_iff.1 hnew o ho
  · exact hs

/-- The scope has no templates. -/
def Bare (s : Scope L T) : Prop :=
  ∀ name overloads, s.overloads? name = some overloads → overloads.templates = []

theorem bare_of_forall (h : ∀ entry ∈ s.names, entry.2.templates = []) : s.Bare := by
  intro name overloads ho
  obtain ⟨before, after, hn, -⟩ := List.lookup_eq_some_iff.1 ho
  exact h (name, overloads) (by simp [hn])

theorem bare_of_names (hn : s.names = []) : s.Bare :=
  bare_of_forall (by simp [hn])

/-- Putting an entity in adds no template. -/
theorem Bare.push (hs : s.Bare) (name : String) (params : List Param) (e : EntityId) :
    (s.push name params e).Bare := by
  intro other overloads h
  unfold overloads? Scope.push at h
  by_cases hn : other = name
  · subst hn
    rw [lookup_alter_self] at h
    obtain rfl := Option.some.inj h
    cases ho : s.names.lookup other with
    | none => rfl
    | some before => exact hs other before ho
  · rw [lookup_alter_of_ne hn] at h
    exact hs other overloads h

/-- The scopes hold the same items for the same entity. -/
structure Alike (s s' : Scope L T) : Prop where
  entity : s'.entity = s.entity
  keys : s.keys.Nodup → s'.keys.Nodup
  items : ∀ name, s'.items name = s.items name

theorem Alike.refl (s : Scope L T) : s.Alike s :=
  ⟨rfl, id, fun _ => rfl⟩

theorem Alike.find?_eq (h : s.Alike s') (name : String) (params : List Param) :
    s'.find? name params = s.find? name params := by
  rw [Scope.find?_eq, Scope.find?_eq, h.items name]

/-- What a scope holds depends on its entity and its names alone. -/
theorem Alike.of_names (he : s'.entity = s.entity) (hn : s'.names = s.names) : s.Alike s' := by
  refine ⟨he, ?_, fun name => ?_⟩
  · unfold Scope.keys
    rw [hn]
    exact id
  · unfold Scope.items overloads?
    rw [hn]

/-- A template changes nothing of what a scope holds. -/
theorem alike_addTemplate (s : Scope L T) (name : String) (template : T) :
    s.Alike (s.addTemplate name template) := by
  refine ⟨rfl, nodup_keys_alter _, fun other => ?_⟩
  unfold items overloads? addTemplate
  by_cases h : other = name
  · subst h
    rw [lookup_alter_self]
    rfl
  · rw [lookup_alter_of_ne h]

/-! ## Content -/

theorem overloads?_of_mem (hk : s.keys.Nodup) {entry : String × OverloadSet T}
    (h : entry ∈ s.names) : s.overloads? entry.1 = some entry.2 := by
  obtain ⟨before, after, hn⟩ := List.append_of_mem h
  refine List.lookup_eq_some_iff.2 ⟨before, after, hn, fun other ho => ?_⟩
  rw [keys, hn, List.map_append, List.map_cons] at hk
  have hne := (List.nodup_append.1 hk).2.2 other.1 (List.mem_map_of_mem ho) entry.1
    List.mem_cons_self
  simpa using Ne.symm hne

theorem items_of_mem (hk : s.keys.Nodup) {entry : String × OverloadSet T} (h : entry ∈ s.names) :
    s.items entry.1 = entry.2.items := by
  rw [items, overloads?_of_mem hk h]
  rfl

/-- The content of a scope is what it has under some name. -/
theorem mem_content_iff (hk : s.keys.Nodup) :
    e ∈ s.content ↔ ∃ name, ∃ o ∈ s.items name, o.entity = e := by
  simp only [content, List.mem_flatMap, OverloadSet.entities, List.mem_map]
  constructor
  · rintro ⟨entry, hm, o, ho, rfl⟩
    exact ⟨entry.1, o, by rwa [items_of_mem hk hm], rfl⟩
  · rintro ⟨name, o, ho, rfl⟩
    unfold items at ho
    cases hs : s.overloads? name with
    | none => simp [hs] at ho
    | some set =>
      rw [hs] at ho
      obtain ⟨before, after, hn, -⟩ := List.lookup_eq_some_iff.1 hs
      exact ⟨(name, set), by simp [hn], o, ho, rfl⟩

/-- If an entity stands under one name and one signature only, it is listed once. -/
theorem nodup_content (hk : s.keys.Nodup)
    (hs : ∀ name, ((s.items name).map Overload.params).Nodup)
    (hone : ∀ name other, ∀ o ∈ s.items name, ∀ p ∈ s.items other, o.entity = p.entity →
      name = other ∧ o.params = p.params) : s.content.Nodup := by
  refine List.nodup_flatMap.2 ⟨fun entry hm => ?_, ?_⟩
  · rw [OverloadSet.entities, ← items_of_mem hk hm]
    refine (List.nodup_map_iff_inj_on (hs entry.1).of_map).2 fun o ho p hp he => ?_
    exact List.inj_on_of_nodup_map (hs entry.1) ho hp (hone _ _ o ho p hp he).2
  · have hp := List.Pairwise.and_mem.1 (List.pairwise_map.1 hk)
    refine hp.imp ?_
    rintro entry other ⟨hm, hm', hne⟩ e he he'
    obtain ⟨o, ho, rfl⟩ := List.mem_map.1 he
    obtain ⟨p, hp, heq⟩ := List.mem_map.1 he'
    rw [← items_of_mem hk hm] at ho
    rw [← items_of_mem hk hm'] at hp
    exact hne (hone _ _ o ho p hp heq.symm).1

end Scope

end NameResolution
