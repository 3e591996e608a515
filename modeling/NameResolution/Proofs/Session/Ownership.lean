import NameResolution.Proofs.Session.History

/-!
# Contents and owners over a history

`contents_match_owners` : whatever a host has done to a session, the content of a scope is
made of the live entities that it owns, each once and under its own name and signature;
and what has an owner keeps it, with its name and signature, for ever.
-/

namespace NameResolution

namespace Session

variable {L T W : Type}

/-- In every session that a host can bring about, scopes and entities agree about who owns what,
and an entity that has an owner never changes again. -/
theorem contents_match_owners {config : Config} {world : W} {s : Session L T W}
    (h : Later (Session.start config world) s) (hu : s.tables.Unwrapped) :
    (∀ c x, s.tables.scopes.get? c = some x →
      (∀ entry ∈ x.names, (entry.2.items.map Overload.params).Nodup) ∧
      (∀ entry ∈ x.names, ∀ o ∈ entry.2.items, ∃ y,
        s.tables.entities.get? o.entity = some y ∧ y.name = entry.1 ∧ y.params = o.params ∧
          y.owner = some c) ∧
      ∃ es, s.tables.content c = .ok es ∧ es.Nodup ∧
        ∀ e, e ∈ es ↔ ∃ y, s.tables.entities.get? e = some y ∧ y.owner = some c) ∧
    ∀ s', Later s s' → ∀ e y, s.tables.entities.get? e = some y → y.owner ≠ none →
      s'.tables.entities.get? e = some y := by
  have hs := h.sound (Tables.Sound.start config) hu
  refine ⟨fun c x hx => ?_, fun s' h' e y hy hown => h'.get?_entities hs.formed hy hown⟩
  have hkeys := hs.owned.keys c x hx
  have hheld := hs.owned.held c x hx
  refine ⟨fun entry he => ?_, fun entry he o ho => ?_, x.content, ?_, ?_, fun e => ?_⟩
  · exact Scope.items_of_mem hkeys he ▸ hs.owned.signatures c x hx entry.1
  · exact hheld entry.1 o (Scope.items_of_mem hkeys he ▸ ho)
  · unfold Tables.content Tables.scope
    rw [hx]
    rfl
  · refine Scope.nodup_content hkeys (hs.owned.signatures c x hx) ?_
    intro name other o ho p hp heq
    obtain ⟨y, hy, hname, hparams, -⟩ := hheld name o ho
    obtain ⟨z, hz, hname', hparams', -⟩ := hheld other p hp
    rw [heq, hz] at hy
    obtain rfl := Option.some.inj hy
    exact ⟨hname.symm.trans hname', hparams.symm.trans hparams'⟩
  · rw [Scope.mem_content_iff hkeys]
    constructor
    · rintro ⟨name, o, ho, rfl⟩
      obtain ⟨y, hy, -, -, hown⟩ := hheld name o ho
      exact ⟨y, hy, hown⟩
    · rintro ⟨y, hy, hown⟩
      exact ⟨y.name, _, hs.owned.listed e y c x hy hown hx, rfl⟩

/-- Loaders that define a type in the scope that they are asked to fill. -/
def fillingHost : Host Unit Unit Unit where
  templateName _ := ""
  generate _ _ _ _ := none
  load loader c _ :=
    .call (.define c { name := "Box", params := [], kind := .type none, location := .unknown })
      fun _ => .done (.done, loader)

/-- A package that such a loader fills, after a type in it has been looked for. -/
def filledPackage : Session Unit Unit Unit :=
  let s := Session.start {} ()
  let s := (fillingHost.perform 2 (.define rootScope
    { name := "lib", params := [], kind := .package (some ()), location := .unknown }) s).2
  (fillingHost.perform 2 (.find ⟨1, 0⟩ (.simple "Box" [])) s).2

/-- `contents_match_owners` on a package with one entry. -/
theorem contents_match_owners_filledPackage :
    filledPackage.tables.Unwrapped ∧
      (∃ es, filledPackage.tables.content ⟨1, 0⟩ = .ok es ∧ es.Nodup ∧
        ∀ e, e ∈ es ↔ ∃ y, filledPackage.tables.entities.get? e = some y ∧
          y.owner = some ⟨1, 0⟩) ∧
      (filledPackage.tables.content ⟨1, 0⟩).toOption = some [⟨2, 0⟩] := by
  have hu : filledPackage.tables.Unwrapped := by decide +kernel
  have h : Later (Session.start {} ()) filledPackage :=
    ((Later.refl _).perform fillingHost 2 _).perform fillingHost 2 _
  have hx : (filledPackage.tables.scopes.get? ⟨1, 0⟩).isSome = true := by decide +kernel
  obtain ⟨x, hx⟩ := Option.isSome_iff_exists.1 hx
  exact ⟨hu, ((contents_match_owners h hu).1 _ x hx).2.2, by decide +kernel⟩

end Session

end NameResolution
