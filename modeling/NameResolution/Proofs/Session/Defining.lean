import NameResolution.Proofs.Session.Course.Declaring
import NameResolution.Proofs.Session.Declaring
import NameResolution.Proofs.Tables.Growth

/-!
# When defining succeeds

A declaration is defined if its supertype can be linked and the scope has nothing of its
name and signature (`run_define`), and only then (`linkable_of_run_define`,
`new_of_run_define`). What was there is left as it is, and the scope has one item
more (`Defined`).
-/

namespace NameResolution

namespace Session

variable {L T W α : Type} {s s' : Session L T W} {c : ScopeId} {e : EntityId} {x : Scope L T}
  {d : Declaration L}

/-! ## Declaring -/

/-- A declaration whose supertype can be linked is declared. -/
theorem run_declare (hf : s.tables.Formed) (hfl : s.tables.forest.Supported)
    (hl : s.tables.Linkable d.kind) :
    ∃ s' g, (declare d).run s = (.ok s.tables.entities.next, s') ∧ s.tables.forest.Grown g ∧
      s'.tables = { (s.tables.place d).2 with forest := g } := by
  have hlink {p : EntityId} {n : NodeId} (hd : d.kind = .type (some p))
      (hp : s.tables.node? p = some n) :
      ∃ change, s.linking d n = .ok (some change) ∧ s.tables.forest.Grown change.forest := by
    obtain ⟨n', hn, hlive, hlen⟩ := hl p hd
    obtain rfl := Option.some.inj ((Tables.node?_of_typeNode hn).symm.trans hp)
    obtain ⟨change, hchange, hg⟩ := hfl.setParent_next hlive hlen s.tables.entities.next
    refine ⟨change, ?_, hg⟩
    rw [← hchange, ← Tables.forest_place_of_type hd]
    rfl
  obtain ⟨answer, s', hrun, h⟩ := places_declare hf hfl.wellFormed d
  cases h with
  | notAType hd hp =>
    obtain ⟨n, hn, -⟩ := hl _ hd
    cases (Tables.node?_of_typeNode hn).symm.trans hp
  | refused hd hp h =>
    obtain ⟨change, hchange, -⟩ := hlink hd hp
    cases hchange.symm.trans h
  | stopped hd hp h =>
    obtain ⟨change, hchange, -⟩ := hlink hd hp
    cases hchange.symm.trans h
  | unlinked hd word => exact ⟨_, _, hrun, Tables.grown_forest_place hfl d, rfl⟩
  | linked hd hp h word =>
    obtain ⟨change, hchange, hg⟩ := hlink hd hp
    obtain rfl := Option.some.inj (Except.ok.inj (hchange.symm.trans h))
    exact ⟨_, _, hrun, hg, by rw [run_changeForest]; rfl⟩

/-! ## Defining -/

/-- A declaration has been defined in a scope; what was there is there still. -/
structure Defined (c : ScopeId) (d : Declaration L) (x : Scope L T) (e : EntityId)
    (t t' : Tables L T) : Prop where
  formed : t'.Formed
  grown : t.Grown t'
  made : t'.Made c d e
  scope : ∃ x', t'.scopes.get? c = some x' ∧ x'.names = (x.push d.name d.params e).names ∧
    x'.state = x.state ∧ x'.loader = x.loader

/-- A declaration is defined if its supertype can be linked and nothing has its name and signature
in the scope. -/
theorem run_define (hf : s.tables.Formed) (hfl : s.tables.forest.Supported)
    (hl : s.tables.Linkable d.kind) (hx : s.tables.scopes.get? c = some x)
    (hnew : x.find? d.name d.params = none) :
    ∃ s', (define c d).run s = (.ok s.tables.entities.next, s') ∧
      Defined c d x s.tables.entities.next s.tables s'.tables := by
  obtain ⟨s₁, g, hdeclare, hg, hs₁⟩ := run_declare hf hfl hl
  obtain ⟨t', hattach, hf', hgrown, hmade, hx'⟩ := hf.attach_placed hg hx hnew
  rw [← hs₁] at hattach
  obtain ⟨-, x₁, -, -, hx₁, -⟩ := Tables.attach_cases hattach
  have hadd := run_add hattach hx₁
  refine ⟨s₁.enter c s.tables.entities.next t' x₁, ?_, ?_⟩
  · unfold define
    rw [run_bind_of_ok hdeclare, run_bind_of_ok (run_undoing_of_ok hadd _)]
    rfl
  · have hedit : Tables.Edit t' (mapScope { s₁ with tables := t' } c (·.prune s₁.gone)).tables :=
      .scope _ c _ fun _ => .of_names rfl rfl
    exact ⟨hf'.edit hedit, ⟨hgrown.entities, hgrown.forest⟩, hmade, _,
      get?_mapScope (s := { s₁ with tables := t' }) hx' _, rfl, rfl, rfl⟩

/-- Only a declaration whose supertype can be linked is defined. -/
theorem linkable_of_run_define (hf : s.tables.Formed) (hfl : s.tables.forest.Supported)
    (h : (define c d).run s = (.ok e, s')) :
    s.tables.Linkable d.kind := by
  intro p hd
  obtain ⟨e', s₁, hdeclare, -⟩ := exists_of_run_bind_eq_ok h
  obtain ⟨answer, s₂, hrun, hends⟩ := places_declare hf hfl.wellFormed d
  obtain ⟨rfl, rfl⟩ := Prod.mk.inj (hrun.symm.trans hdeclare)
  cases hends with
  | unlinked hno word => exact (hno p hd).elim
  | linked hd' hp h word =>
    obtain rfl : p = _ := Option.some.inj (DeclarationKind.type.inj (hd.symm.trans hd'))
    have hset := h
    unfold linking placed at hset
    rw [Tables.forest_place_of_type hd] at hset
    obtain ⟨hlive, hlen⟩ := hfl.of_setParent_next hset
    exact ⟨_, Tables.typeNode_eq_ok.2 (Option.bind_eq_some_iff.1 hp), hlive, hlen⟩

/-- Nothing is defined under a name and a signature that the scope has already. -/
theorem new_of_run_define (hf : s.tables.Formed) (hfl : s.tables.forest.Supported)
    (hx : s.tables.scopes.get? c = some x)
    (h : (define c d).run s = (.ok e, s')) : x.find? d.name d.params = none := by
  obtain ⟨s₁, g, hdeclare, -, hs₁⟩ := run_declare hf hfl (linkable_of_run_define hf hfl h)
  obtain ⟨e₁, s₂, hdeclare', hrest⟩ := exists_of_run_bind_eq_ok h
  obtain ⟨he, rfl⟩ := Prod.mk.inj (hdeclare.symm.trans hdeclare')
  obtain rfl := Except.ok.inj he
  obtain ⟨u, s₃, hadd, -⟩ := exists_of_run_bind_eq_ok hrest
  obtain ⟨t, y, hattach, -⟩ | ⟨stop, -, hstop⟩ := add_cases c s.tables.entities.next s₁
  · obtain ⟨kind, -, hget⟩ := hf.get?_placed d
    obtain ⟨z, y, hz, -, hy, hnew, -⟩ := Tables.attach_cases hattach
    rw [hs₁] at hz hy
    obtain rfl := Option.some.inj (hz.symm.trans ((hget _).trans (if_pos rfl)))
    obtain rfl := Option.some.inj (hy.symm.trans (hf.get?_scopes_place_of_some d hx))
    exact hnew
  · cases hstop.symm.trans (run_undoing_eq_ok hadd)

end Session

end NameResolution
