import NameResolution.Proofs.Forest.Queries
import NameResolution.Proofs.Tables.Ownership
import NameResolution.Proofs.Tables.Questions

/-!
# What a type has from its supertypes

The lineage of a type is the chain of its node, with the types in place of their nodes. Read from
its end it gives the type itself, then the type at distance one, then the one at distance two, and
so on (`exists_lineage`). So the first type there that declares a member of some name and signature
is the nearest one that does (`findSome?_member?_eq_some_iff`), and if none does, then no type that
the first one inherits from does (`findSome?_member?_eq_none_iff`). As distances count links, the
nearest declaration is that of the type itself, or else the one that is nearest to its supertype
(`nearest_iff`).
-/

namespace NameResolution

namespace Tables

variable {L T : Type} {t : Tables L T} {e a m : EntityId} {n : NodeId} {d : Nat}
  {name : String} {params : List Param} {l : List EntityId}

/-! ## Lineages -/

/-- A type has a lineage, which is its chain. -/
theorem Matched.exists_lineage (hm : t.Matched) (hf : t.forest.Threaded)
    (hn : t.node? e = some n) :
    ∃ l, t.lineage e = .ok l ∧ l.map t.node? = (t.forest.chain n).map some := by
  obtain ⟨k, hk, -⟩ := hm.exists_node hn
  have htype : t.typeNode e = .ok n := typeNode_eq_ok.2 (Option.bind_eq_some_iff.1 hn)
  have hchain : t.forest.chain n = k.ancestors.getD [n] := by
    rw [Forest.chain, hk, Option.bind_some]
  unfold lineage
  simp only [htype, bind, Except.bind, Forest.node_eq_ok_iff.2 hk]
  cases ha : k.ancestors with
  | none => exact ⟨[e], rfl, by rw [hchain, ha, List.map_singleton, hn]; rfl⟩
  | some ns =>
    rw [ha, Option.getD_some] at hchain
    rw [hchain]
    refine hm.exists_mapM_owner fun x hx => ?_
    exact hf.contains_of_mem_chain (SlotTable.contains_of_get? hk) (hchain ▸ hx)

/-- The distance of two types is that of their nodes. -/
theorem distance_eq_some_iff : t.distance e a = .ok (some d) ↔
    ∃ n k, t.node? e = some n ∧ t.node? a = some k ∧
      t.forest.distance n k = .ok (some d) := by
  unfold distance
  cases t.node? e with
  | none => simp [pure, Except.pure]
  | some n => cases t.node? a <;> simp [pure, Except.pure]

/-- There is a distance from a type to those that it inherits from. -/
theorem exists_distance_iff : (∃ d, t.distance e a = .ok (some d)) ↔ t.isA e a = .ok true := by
  unfold distance isA
  cases t.node? e with
  | none => simp [pure, Except.pure]
  | some n =>
    cases t.node? a with
    | none => simp [pure, Except.pure]
    | some k => exact Forest.exists_distance_iff

theorem isA_trans (hf : t.forest.Threaded) (hab : t.isA e a = .ok true)
    (hbc : t.isA a m = .ok true) : t.isA e m = .ok true := by
  obtain ⟨d, hd⟩ := exists_distance_iff.2 hab
  obtain ⟨d', hd'⟩ := exists_distance_iff.2 hbc
  obtain ⟨n, k, hn, hk, hnk⟩ := distance_eq_some_iff.1 hd
  obtain ⟨k', j, hk', hj, hkj⟩ := distance_eq_some_iff.1 hd'
  obtain rfl := Option.some.inj (hk.symm.trans hk')
  exact exists_distance_iff.1
    ⟨_, distance_eq_some_iff.2 ⟨n, j, hn, hj, hf.distance_add hnk hkj⟩⟩

/-- The distance counts the links between the nodes of two types. -/
theorem distance_iff_ascend (hm : t.Matched) (hf : t.forest.Threaded) :
    t.distance e a = .ok (some d) ↔
      ∃ n k, t.node? e = some n ∧ t.node? a = some k ∧ t.forest.ascend d n = some k := by
  rw [distance_eq_some_iff]
  refine exists_congr fun n => exists_congr fun k => and_congr_right fun hn => ?_
  refine and_congr_right fun hk => ?_
  exact hf.distance_eq_some_iff (hm.contains_node hn) (hm.contains_node hk)

/-- Two types with one node are the same. -/
theorem Matched.eq_of_node? (hm : t.Matched) {b : EntityId} (ha : t.node? a = some n)
    (hb : t.node? b = some n) : a = b := by
  obtain ⟨k, hk, rfl⟩ := hm.exists_node ha
  exact (hm.node?_eq_some_iff hk).1 hb

theorem distance_eq_zero_iff (hm : t.Matched) (hf : t.forest.Threaded) (he : t.node? e ≠ none) :
    t.distance e a = .ok (some 0) ↔ a = e := by
  obtain ⟨n, hn⟩ := Option.ne_none_iff_exists'.1 he
  rw [distance_iff_ascend hm hf]
  constructor
  · rintro ⟨n', k, hn', hk, ⟨⟩⟩
    exact hm.eq_of_node? hk hn'
  · rintro rfl
    exact ⟨n, n, hn, hn, rfl⟩

/-- What is above a type at some distance is above its supertype by one step less. -/
theorem distance_eq_succ_iff (hm : t.Matched) (hf : t.forest.Threaded) {parent : Option EntityId}
    (hp : t.superType e = .ok parent) :
    t.distance e a = .ok (some (d + 1)) ↔
      ∃ p, parent = some p ∧ t.distance p a = .ok (some d) := by
  rw [distance_iff_ascend hm hf]
  simp only [distance_iff_ascend hm hf, Forest.ascend, Option.bind_eq_some_iff]
  constructor
  · rintro ⟨n, k, hn, hk, j, hj, hjk⟩
    cases parent with
    | none =>
      obtain ⟨n', hn', hnone⟩ := (superType_eq_none_iff hm).1 hp
      obtain rfl := Option.some.inj (hn.symm.trans hn')
      rw [hj] at hnone
      cases hnone
    | some p =>
      obtain ⟨n', j', hn', hj', hlink⟩ := (superType_eq_some_iff hm).1 hp
      obtain rfl := Option.some.inj (hn.symm.trans hn')
      obtain rfl := Option.some.inj (hj.symm.trans hlink)
      exact ⟨p, rfl, j, k, hj', hk, hjk⟩
  · rintro ⟨p, rfl, j, k, hj, hk, hjk⟩
    obtain ⟨n, j', hn, hj', hlink⟩ := (superType_eq_some_iff hm).1 hp
    obtain rfl := Option.some.inj (hj.symm.trans hj')
    exact ⟨n, k, hn, hk, j, hlink, hjk⟩

/-- Read from its end, a lineage gives the type at each distance. -/
theorem exists_lineage (hm : t.Matched) (hf : t.forest.Threaded) (he : t.node? e ≠ none) :
    ∃ l, t.lineage e = .ok l ∧
      ∀ d a, l.reverse[d]? = some a ↔ t.distance e a = .ok (some d) := by
  obtain ⟨n, hn⟩ := Option.ne_none_iff_exists'.1 he
  obtain ⟨l, hl, hnodes⟩ := hm.exists_lineage hf hn
  have hascend (d : Nat) :
      (l.reverse[d]?).map t.node? = (t.forest.ascend d n).map some := by
    rw [← hf.getElem?_reverse_chain, ← List.getElem?_map, ← List.getElem?_map, List.map_reverse,
      List.map_reverse, hnodes]
  refine ⟨l, hl, fun d a => ?_⟩
  have hd := hascend d
  rw [distance_iff_ascend hm hf]
  constructor
  · intro ha
    rw [ha, Option.map_some, eq_comm, Option.map_eq_some_iff] at hd
    obtain ⟨k, hk, hak⟩ := hd
    exact ⟨n, k, hn, hak.symm, hk⟩
  · rintro ⟨n', k, hn', hak, hk⟩
    obtain rfl := Option.some.inj (hn.symm.trans hn')
    rw [hk, Option.map_some, Option.map_eq_some_iff] at hd
    obtain ⟨b, hb, hbk⟩ := hd
    rw [hb, hm.eq_of_node? hak hbk]

/-! ## Members -/

/-- The member of a name and signature that a type has in its own scope. -/
def member? (t : Tables L T) (name : String) (params : List Param) (a : EntityId) :
    Option EntityId :=
  ((t.scopeOf? a).bind t.scopes.get?).bind (·.find? name params)

/-- The entity has the name and the signature, and belongs to the scope inside the type. -/
def Declares (t : Tables L T) (a : EntityId) (name : String) (params : List Param)
    (m : EntityId) : Prop :=
  ∃ c, t.scopeOf? a = some c ∧ t.Has c name params m

/-- What a type lists under a signature is what it declares. -/
theorem member?_eq_some_iff (hs : t.Sound) :
    t.member? name params a = some m ↔ t.Declares a name params m := by
  unfold member? Declares
  cases hc : t.scopeOf? a with
  | none => simp
  | some c =>
    obtain ⟨y, hy, hyc⟩ := Option.bind_eq_some_iff.1 hc
    obtain ⟨x, hx, -⟩ := hs.paired.inside a y c hy hyc
    simp only [Option.bind_some, hx, Option.some.injEq, exists_eq_left']
    constructor
    · intro hfind
      exact hs.owned.held c x hx name _ (Scope.mem_of_find? hfind)
    · rintro ⟨z, hz, rfl, rfl, hown⟩
      exact Scope.find?_of_mem (hs.owned.signatures c x hx z.name)
        (hs.owned.listed m z c x hz hown hx)

theorem member?_eq_none_iff (hs : t.Sound) :
    t.member? name params a = none ↔ ∀ m, ¬t.Declares a name params m := by
  simp only [Option.eq_none_iff_forall_ne_some, ne_eq, member?_eq_some_iff hs]

/-- The type inherits from one that declares the member, and from none that is nearer and declares
one of this name and signature. -/
def Nearest (t : Tables L T) (e : EntityId) (name : String) (params : List Param)
    (m : EntityId) : Prop :=
  ∃ a d, t.Declares a name params m ∧ t.distance e a = .ok (some d) ∧
    ∀ a' m' d', t.Declares a' name params m' → t.distance e a' = .ok (some d') → d ≤ d'

/-- The nearest declaration is that of the type itself, or else that of its supertype. -/
theorem nearest_iff (hm : t.Matched) (hf : t.forest.Threaded) {parent : Option EntityId}
    (hp : t.superType e = .ok parent) :
    t.Nearest e name params m ↔
      t.Declares e name params m ∨
        (∀ m', ¬t.Declares e name params m') ∧
          ∃ p, parent = some p ∧ t.Nearest p name params m := by
  have he : t.node? e ≠ none := by
    intro hnone
    rw [superType_of_node?_eq_none hnone] at hp
    cases hp
  have hself : t.distance e e = .ok (some 0) := (distance_eq_zero_iff hm hf he).2 rfl
  have hstep {d : Nat} {a : EntityId} := distance_eq_succ_iff (d := d) (a := a) hm hf hp
  constructor
  · rintro ⟨a, d, ha, hd, hnear⟩
    cases d with
    | zero =>
      rw [distance_eq_zero_iff hm hf he] at hd
      exact Or.inl (hd ▸ ha)
    | succ d =>
      obtain ⟨p, rfl, hd⟩ := hstep.1 hd
      refine Or.inr ⟨fun m' hm' => ?_, p, rfl, a, d, ha, hd, fun a' m' d' ha' hd' => ?_⟩
      · exact absurd (hnear e m' 0 hm' hself) (Nat.not_succ_le_zero d)
      · exact Nat.le_of_succ_le_succ (hnear a' m' (d' + 1) ha' (hstep.2 ⟨p, rfl, hd'⟩))
  · rintro (hown | ⟨hnone, p, rfl, a, d, ha, hd, hnear⟩)
    · exact ⟨e, 0, hown, hself, fun _ _ d' _ _ => Nat.zero_le d'⟩
    · refine ⟨a, d + 1, ha, hstep.2 ⟨p, rfl, hd⟩, fun a' m' d' ha' hd' => ?_⟩
      cases d' with
      | zero =>
        rw [distance_eq_zero_iff hm hf he] at hd'
        exact absurd (hd' ▸ ha') (hnone m')
      | succ d' =>
        obtain ⟨_, ⟨⟩, hd'⟩ := hstep.1 hd'
        exact Nat.succ_le_succ (hnear a' m' d' ha' hd')

/-- The first type of a lineage, read from its end, that declares a member is the nearest one. -/
theorem findSome?_member?_eq_some_iff (hs : t.Sound)
    (hl : ∀ d a, l[d]? = some a ↔ t.distance e a = .ok (some d)) :
    l.findSome? (t.member? name params) = some m ↔ t.Nearest e name params m := by
  rw [List.findSome?_eq_some_iff]
  constructor
  · rintro ⟨before, a, after, rfl, ha, hbefore⟩
    refine ⟨a, before.length, (member?_eq_some_iff hs).1 ha, ?_, fun a' m' d' ha' hd' => ?_⟩
    · exact (hl _ a).1 (by simp)
    · by_contra hlt
      rw [← hl, List.getElem?_append_left (by omega)] at hd'
      exact (member?_eq_none_iff hs).1 (hbefore a' (List.mem_of_getElem? hd')) m' ha'
  · rintro ⟨a, d, ha, hd, hnear⟩
    obtain ⟨hlt, hget⟩ := List.getElem?_eq_some_iff.1 ((hl d a).2 hd)
    refine ⟨l.take d, a, l.drop (d + 1), ?_, (member?_eq_some_iff hs).2 ha, fun a' ha' => ?_⟩
    · rw [← hget, ← List.drop_eq_getElem_cons hlt, List.take_append_drop]
    · obtain ⟨d', hlt', hd'⟩ := List.mem_take_iff_getElem.1 ha'
      refine (member?_eq_none_iff hs).2 fun m' hm' => ?_
      have := hnear a' m' d' hm' ((hl d' a').1 (List.getElem?_eq_some_iff.2 ⟨by omega, hd'⟩))
      omega

/-- A search up the lineage finds nothing exactly if no ancestor declares the member. -/
theorem findSome?_member?_eq_none_iff (hs : t.Sound)
    (hl : ∀ d a, l[d]? = some a ↔ t.distance e a = .ok (some d)) :
    l.findSome? (t.member? name params) = none ↔
      ∀ a m, t.isA e a = .ok true → ¬t.Declares a name params m := by
  rw [List.findSome?_eq_none_iff]
  have hmem (a : EntityId) : a ∈ l ↔ t.isA e a = .ok true := by
    simp only [List.mem_iff_getElem?, hl, exists_distance_iff]
  constructor
  · exact fun h a m ha => (member?_eq_none_iff hs).1 (h a ((hmem a).2 ha)) m
  · exact fun h a ha => (member?_eq_none_iff hs).2 fun m => h a m ((hmem a).1 ha)

end Tables

end NameResolution
