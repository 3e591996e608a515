import NameResolution.Proofs.Mangled.Nesting
import NameResolution.Proofs.Mangled.Reading
import NameResolution.Proofs.Session.Finding
import NameResolution.Proofs.Session.Turning

/-!
# Mangled names resolve for ever

The path of an entity finds it, and nothing is loaded or made (`run_findNamed`). So the
text of a well-named entity reads as its path, each parameter in it being found the same
way (`WellNamed.denotes`), and any rest of the path resolves from the scope in which it
begins (`WellNamed.run_decode`).

Ways to entities stay, and so do their names : `mangled_names_resolve`. And a name need not
be that of an entity to be read as it was written, as long as the types in it are well
named : `mangled_names_read_back`. When handles have come round, it may be read as another
name (`name_read_as_another`).
-/

namespace NameResolution

open Mangled Tables

namespace Session

variable {L T W : Type} {services : Services L T W} {S S' : Session L T W} {c : ScopeId}
  {a b e : EntityId} {es : List EntityId} {x : Scope L T}

/-! ## Reading names of entities -/

/-- The parts on the way to a rooted entity can be read if the types of their parameters can. -/
theorem Rooted.spelled (h : S.tables.Rooted es e) {derivation : EntityId → Option NameTree}
    (hq : ∀ q, S.tables.Needs q e → Denotes services S (derivation q) q) {n : QualifiedName}
    (hn : n ⊆ es.map S.tables.part) : Spelled services S derivation n := by
  intro p hp
  obtain ⟨a, ha, rfl⟩ := List.mem_map.1 (hn hp)
  obtain ⟨-, x, hx, -⟩ := h.owned ha
  exact ⟨x.name, x.params, part_eq hx, fun r hr q hrq =>
    hq q ⟨es, h, a, ha, x, hx, r, hr, hrq⟩⟩

/-- The mangled path of a well-named entity denotes it. -/
theorem WellNamed.denotes (hs : S.tables.Sound) (hw : S.tables.WellNamed e) :
    Denotes services S (S.tables.derivation S.tables.reach e) e := by
  induction hw with
  | @intro es e h he hp hparams ih =>
    have hneeds (q : EntityId) (hq : S.tables.Needs q e) :
        Denotes services S (S.tables.derivation S.tables.reach q) q := by
      obtain ⟨es', h', a, ha, x, hx, p, hp, hpq⟩ := hq
      exact ih a (h'.unique h ▸ ha) x hx p hp q hpq
    have hspelled := Rooted.spelled h hneeds (List.Subset.refl _)
    have hfound : (findNamed services rootScope (es.map S.tables.part)).run S = (.ok e, S) :=
      run_findNamed hs h.isChain.1 h.isChain.2 (scopeOf?_root hs)
    rw [(WellNamed.intro h he hp hparams).derivation_reach]
    rw [h.path_eq] at hp ⊢
    cases htree : nameTree (S.tables.derivation S.tables.reach) (es.map S.tables.part) with
    | some tree =>
      refine ⟨tree, _, rfl, ?_, hfound⟩
      rw [resolve_nameTree services htree]
      exact run_resolveRest hspelled
    | none =>
      rcases (nameTree_eq_none_of_plain hspelled.plain).1 htree with h' | h'
      · exact absurd (List.map_eq_nil_iff.1 h') (h.ne_nil he)
      · exact absurd h' hp

/-- A name is read back if the types of its parameters are well named. -/
theorem run_readMangled_mangle {n : QualifiedName}
    (hlone : n ≠ [.simple "" []])
    (hn : Spelled services S (S.tables.derivation S.tables.reach) n) :
    (readMangled services (S.tables.mangle n)).run S = (.ok n, S) := by
  rw [mangle_eq]
  exact run_readMangled (S.tables.isParameter_derivation _) hlone hn

/-- The rest of the path of a well-named entity, mangled, denotes it from the scope in which the
rest begins. -/
theorem WellNamed.run_decode (hs : S.tables.Sound) (hw : S.tables.WellNamed e)
    (h : S.tables.Rooted es e) {k : Nat} (ha : (rootEntity :: es)[k]? = some a)
    (hc : S.tables.scopeOf? a = some c)
    (hn : (S.tables.path e).suffixFrom k ≠ [.simple "" []]) :
    (decode services c (S.tables.mangle ((S.tables.path e).suffixFrom k))).run S =
      (.ok e, S) := by
  have hdrop : (rootEntity :: es).drop k = a :: es.drop k := by
    obtain ⟨hk, rfl⟩ := List.getElem?_eq_some_iff.1 ha
    exact List.drop_eq_getElem_cons hk
  have hchain : (a :: es.drop k).IsChain S.tables.Above := hdrop ▸ h.isChain.1.drop k
  have hlast : (a :: es.drop k).getLast? = some e := by
    rw [← hdrop, List.getLast?_drop, if_neg, h.isChain.2]
    have := (List.getElem?_eq_some_iff.1 ha).1
    omega
  have hsuffix : (S.tables.path e).suffixFrom k = (es.drop k).map S.tables.part := by
    rw [h.path_eq, QualifiedName.suffixFrom, List.map_drop]
  rw [hsuffix] at hn ⊢
  have hspelled : Spelled services S (S.tables.derivation S.tables.reach)
      ((es.drop k).map S.tables.part) :=
    Rooted.spelled h (fun q hq => WellNamed.denotes hs (hw.of_needs hq))
      (List.map_subset _ (List.drop_subset k es))
  have hread := run_readMangled_mangle hn hspelled
  unfold decode
  rw [run_bind_of_ok hread]
  exact run_findNamed hs hchain hlast hc

/-- In every session that a host can bring about, and in every later one, an entity that is well
named keeps its path and its mangled name. From the root, the name denotes the entity; and so does
every rest of the path from the scope in which it begins. Nothing is loaded, made or changed to find
out. -/
theorem mangled_names_resolve {config : Config} {world : W} {s s' : Session L T W} {e : EntityId}
    (h : Later (Session.start config world) s) (hw : s.tables.WellNamed e) (h' : Later s s')
    (hu : s'.tables.Unwrapped) :
    s'.tables.path e = s.tables.path e ∧ s'.tables.mangleEntity e = s.tables.mangleEntity e ∧
      (∀ (host : Host L T W) fuel,
        host.perform fuel (.decode rootScope (s'.tables.mangleEntity e)) s' = (.ok (.ok e), s')) ∧
      ∃ es, s'.tables.Rooted es e ∧ ∀ k a c, (rootEntity :: es)[k]? = some a →
        s'.tables.scopeOf? a = some c →
        (s'.tables.path e).suffixFrom k ≠ [.simple "" []] →
        ∀ (host : Host L T W) fuel,
          host.perform fuel (.decode c (s'.tables.mangle ((s'.tables.path e).suffixFrom k))) s' =
            (.ok (.ok e), s') := by
  have hu₀ := (h'.extends (h.formed (.start config))).unwrapped hu
  have hs := h.sound (.start config) hu₀
  have hs' := h'.sound hs hu
  have hk := (h'.keepsRooted hs.coherent).2
  have hsize := (h'.extends hs.formed).entities.size_le
  have hw' := hw.keeps hk
  have hdecode (host : Host L T W) (fuel : Nat) {c : ScopeId} {text : String}
      (hrun : (decode (host.services fuel) c text).run s' = (.ok e, s')) :
      host.perform fuel (.decode c text) s' = (.ok (.ok e), s') := by
    show (attempt (decode (host.services fuel) c text)).run s' = _
    rw [run_attempt, hrun]
  obtain ⟨hr, hne, hlone, -⟩ := id hw
  obtain ⟨hr', -⟩ := hk _ _ hr
  refine ⟨hk.path_eq hr, hw.mangleEntity_keeps hk (Nat.succ_le_succ hsize), fun host fuel => ?_,
    _, hr', fun k a c ha hc hn host fuel => ?_⟩
  · exact hdecode host fuel (WellNamed.run_decode (k := 0) hs' hw' hr' rfl (scopeOf?_root hs')
      (hk.path_eq hr ▸ hlone))
  · exact hdecode host fuel (WellNamed.run_decode hs' hw' hr' ha hc hn)

/-- A host whose loaders and templates have nothing to give. -/
def quietHost : Host Unit Unit Unit where
  templateName _ := ""
  generate _ _ _ _ := none
  load loader _ _ := .done (.done, loader)

/-- A type, and a package with a type that has the first one as a parameter. -/
def library : Session Unit Unit Unit :=
  let type (name : String) (params : List Param) : Declaration Unit :=
    { name, params, kind := .type none, location := .unknown }
  let s := (quietHost.perform 1 (.define rootScope (type "Int" [])) (Session.start {} ())).2
  let s := (quietHost.perform 1 (.define rootScope
    { name := "std", params := [], kind := .package none, location := .unknown }) s).2
  (quietHost.perform 1 (.define ⟨2, 0⟩ (type "List" [.value ⟨1, 0⟩])) s).2

/-- The library after a declaration was made and taken back. -/
def usedLibrary : Session Unit Unit Unit :=
  let s := (quietHost.perform 1 (.declare
    { name := "main", params := [], kind := .thread, location := .unknown }) library).2
  (quietHost.perform 1 (.release ⟨4, 0⟩) s).2

theorem library_later : Later (Session.start {} ()) library :=
  (((Later.refl _).perform quietHost 1 _).perform quietHost 1 _).perform quietHost 1 _

/-- The overload that stands in the library is well named. -/
theorem library_wellNamed : library.tables.WellNamed ⟨3, 0⟩ := by
  have hint : library.tables.Rooted ([] ++ [⟨1, 0⟩]) ⟨1, 0⟩ :=
    Rooted.root.of_above (by decide) ⟨_, _, _, rfl, rfl, rfl, rfl⟩
  have hstd : library.tables.Rooted ([] ++ [⟨2, 0⟩]) ⟨2, 0⟩ :=
    Rooted.root.of_above (by decide) ⟨_, _, _, rfl, rfl, rfl, rfl⟩
  have hlist : library.tables.Rooted ([] ++ [⟨2, 0⟩] ++ [⟨3, 0⟩]) ⟨3, 0⟩ :=
    hstd.of_above (by decide) ⟨_, _, _, rfl, rfl, rfl, rfl⟩
  have hparams (a : EntityId) (ha : a ∈ [⟨1, 0⟩, ⟨2, 0⟩, ⟨3, 0⟩]) (x : Entity)
      (hx : library.tables.entities.get? a = some x) (p : Param) (hp : p ∈ x.params) :
      a = ⟨3, 0⟩ ∧ p.entity = some ⟨1, 0⟩ := by
    have hall : ∀ a ∈ [⟨1, 0⟩, ⟨2, 0⟩, ⟨3, 0⟩], ∀ x ∈ library.tables.entities.get? a,
        ∀ p ∈ x.params, a = ⟨3, 0⟩ ∧ p.entity = some ⟨1, 0⟩ := by decide +kernel
    exact hall a ha x hx p hp
  have hwint : library.tables.WellNamed ⟨1, 0⟩ := by
    refine .intro hint (by decide) (by decide +kernel) fun a ha x hx p hp => ?_
    obtain rfl := List.mem_singleton.1 ha
    cases (hparams _ (by simp) x hx p hp).1
  refine .intro hlist (by decide) (by decide +kernel) fun a ha x hx p hp q hq => ?_
  have hp := hparams a (List.mem_cons_of_mem _ ha) x hx p hp
  rw [hp.2] at hq
  exact Option.some.inj hq ▸ hwint

/-- `mangled_names_resolve` on the library after it has been used further. -/
theorem mangled_names_resolve_usedLibrary :
    library.tables.WellNamed ⟨3, 0⟩ ∧ usedLibrary.tables.Unwrapped ∧
      usedLibrary.tables.path ⟨3, 0⟩ = library.tables.path ⟨3, 0⟩ ∧
      ∀ (host : Host Unit Unit Unit) fuel,
        host.perform fuel (.decode rootScope (usedLibrary.tables.mangleEntity ⟨3, 0⟩))
          usedLibrary = (.ok (.ok ⟨3, 0⟩), usedLibrary) := by
  have h' : Later library usedLibrary :=
    ((Later.refl _).perform quietHost 1 _).perform quietHost 1 _
  have hu : usedLibrary.tables.Unwrapped := by decide +kernel
  obtain ⟨hpath, -, hdecode, -⟩ :=
    mangled_names_resolve library_later library_wellNamed h' hu
  exact ⟨library_wellNamed, hu, hpath, hdecode⟩

/-! ## Names as they are written -/

/-- In every session that a host can bring about, a name is read back as it was written : whatever
its texts are, and however many parameters its parts have, as long as their types are well named.
Only the lone empty text is written like another name, that of the root. Nothing is loaded, made or
changed to read. Handles must not have come round again : after that, the owner of an entity may be
a scope that does not hold it. -/
theorem mangled_names_read_back {config : Config} {world : W} {s : Session L T W}
    {n : QualifiedName} (h : Later (Session.start config world) s) (hu : s.tables.Unwrapped)
    (hn : ∀ p ∈ n, ∃ text params, p = .simple text params ∧
      ∀ q ∈ params, ∀ e, q.entity = some e → s.tables.WellNamed e)
    (hlone : n ≠ [.simple "" []]) (host : Host L T W) (fuel : Nat) :
    host.perform fuel (.readMangled (s.tables.mangle n)) s = (.ok (.ok n), s) := by
  have hs := h.sound (.start config) hu
  have hspelled : Spelled (host.services fuel) s (s.tables.derivation s.tables.reach) n := by
    intro p hp
    obtain ⟨text, params, rfl, hparams⟩ := hn p hp
    exact ⟨text, params, rfl, fun q hq e he => WellNamed.denotes hs (hparams q hq e he)⟩
  show (attempt (readMangled (host.services fuel) (s.tables.mangle n))).run s = _
  rw [run_attempt, run_readMangled_mangle hlone hspelled]

/-- A part whose text is made of sentinels, with a type, void and void by reference, and a part
without any text. -/
def awkwardName : QualifiedName :=
  [.simple (String.ofList sentinels) [.reference ⟨3, 0⟩, .void, ⟨none, true⟩], .simple "" []]

/-- `mangled_names_read_back` on that name. -/
theorem mangled_names_read_back_awkwardName :
    library.tables.Unwrapped ∧ awkwardName ≠ [.simple "" []] ∧
      ∀ (host : Host Unit Unit Unit) fuel,
        host.perform fuel (.readMangled (library.tables.mangle awkwardName)) library =
          (.ok (.ok awkwardName), library) := by
  have hu : library.tables.Unwrapped := by decide +kernel
  have hlone : awkwardName ≠ [.simple "" []] := by decide
  refine ⟨hu, hlone, mangled_names_read_back library_later hu (fun p hp => ?_) hlone⟩
  have htypes : ∀ p ∈ awkwardName, ∀ q ∈ p.params, ∀ e, q.entity = some e → e = ⟨3, 0⟩ := by decide
  have hsimple : ∀ p ∈ awkwardName, p = .simple p.text p.params := by decide
  refine ⟨p.text, p.params, hsimple p hp, fun q hq e he => ?_⟩
  exact htypes p hp q hq e he ▸ library_wellNamed

/-- The type that the package had is well named there, and leads to the root through the new
type. -/
theorem wellNamed_throne : throne.tables.WellNamed ⟨2, 0⟩ := by
  have hparams : ∀ a ∈ [(⟨1, 0⟩ : EntityId), ⟨2, 0⟩], ∀ x ∈ throne.tables.entities.get? a,
      x.params = [] := by decide +kernel
  refine .intro rooted_throne (by decide) (by decide +kernel) fun a ha x hx p hp => ?_
  rw [hparams a ha x hx] at hp
  cases hp

/-- Once handles have come round, a name need not be read back as it was written : the path of its
parameter leads to another entity. -/
theorem name_read_as_another :
    ∃ s, Later (start {} ()) s ∧ s.tables.WellNamed ⟨2, 0⟩ ∧
      (usurpingHost.perform 2
        (.readMangled (s.tables.mangle [.simple "f" [.value ⟨2, 0⟩]])) s).1 =
          .ok (.ok [.simple "f" [.value ⟨5, 0⟩]]) := by
  obtain ⟨s, hrun, hstate⟩ := exists_usurped
  have hread : (usurpingHost.perform 2
      (.readMangled (throne.tables.mangle [.simple "f" [.value ⟨2, 0⟩]])) throne).1 =
        .ok (.ok [.simple "f" [.value ⟨5, 0⟩]]) := by decide +kernel
  refine ⟨s, later_besieged.trans (later_of_perform hrun), ?_, ?_⟩
  · rw [hstate.tables]
    exact wellNamed_throne
  · rw [hstate.tables, (sameState_perform hstate usurpingHost 2 _).1, hread]

end Session

end NameResolution
