import NameResolution.Proofs.Session.Turning
import NameResolution.Proofs.Tables.Paths

/-!
# What a name finds

A way down is found by the names that lie on it, part by part, and nothing is loaded or
made (`run_findName`). The other way round, where a name leads is below where it starts, in
scopes that are called like its parts (`follows_findBelow`), whatever is loaded and made
on the way : an item of a scope belongs to it, what a template makes gets the name and the
signature that were asked for and is put into the scope, and nothing that is in a scope is
ever taken out again.

So finding by name and reading off paths undo each other : `names_follow_paths`. When handles
have come round, a way down may go through a scope that does not hold what is below it
(`path_finds_another`).
-/

namespace NameResolution

open Tables

namespace Session

variable {L T W : Type} {services : Services L T W} {s s' S : Session L T W} {c : ScopeId}
  {a b e : EntityId} {es : List EntityId} {x : Scope L T} {name : String} {params : List Param}

/-! ## Finding what is there -/

/-- A signature in the table is found there, and nothing else is done. -/
theorem run_resolveOverload (hx : S.tables.scopes.get? c = some x)
    (hf : x.find? name params = some e) (location : Location) :
    (resolveOverload services c name params location).run S = (.ok (some e), S) := by
  unfold Scope.find? at hf
  obtain ⟨overloads, ho, hf⟩ := Option.bind_eq_some_iff.1 hf
  unfold resolveOverload
  simp only [run_bind, run_ask, Tables.scope, hx, ho, hf, run_pure]

/-- A signature that a scope does not have is left to the templates of its name. -/
theorem run_resolveOverload_of_none (hx : S.tables.scopes.get? c = some x)
    (hf : x.find? name params = none) (services : Services L T W) (location : Location) :
    (resolveOverload services c name params location).run S =
      (instantiate services c (((x.overloads? name).map OverloadSet.templates).getD []) name params
        location).run S := by
  unfold Scope.find? at hf
  unfold resolveOverload
  cases ho : x.overloads? name with
  | none =>
    simp only [run_bind, run_ask, Tables.scope, hx, ho]
    rfl
  | some overloads =>
    rw [ho] at hf
    have hnone : overloads.find? params = none := hf
    simp only [run_bind, run_ask, Tables.scope, hx, ho, hnone]
    rfl

/-- Without templates, resolving is looking. -/
theorem run_resolveOverload_bare (services : Services L T W)
    (hx : S.tables.scopes.get? c = some x) (hbare : x.Bare) (name : String) (params : List Param)
    (location : Location) :
    (resolveOverload services c name params location).run S = (.ok (x.find? name params), S) := by
  cases hf : x.find? name params with
  | some e => exact run_resolveOverload hx hf location
  | none =>
    rw [run_resolveOverload_of_none hx hf]
    cases ho : x.overloads? name with
    | none => rfl
    | some overloads =>
      rw [Option.map_some, Option.getD_some, hbare name overloads ho]
      rfl

/-- A part whose signature is in the table is found without loading. -/
theorem run_findSimple (hx : S.tables.scopes.get? c = some x)
    (hf : x.find? name params = some e) :
    (findSimple services c name params).run S = (.ok (some e), S) := by
  unfold findSimple
  simp only [run_bind, run_resolveOverload hx hf, run_pure]

/-- A simple part has its signature already. -/
theorem findWith_simple (services : Services L T W) (c : ScopeId) (name : String)
    (params : List Param) :
    findWith services c (signature services (.simple name params) c) =
      findSimple services c name params := by
  unfold findWith signature
  exact pure_bind _ _

/-- What is in the scope of an entity is found there. -/
theorem Above.find? (hs : S.tables.Sound) (h : S.tables.Above a b) :
    ∃ c x name params, S.tables.scopeOf? a = some c ∧ S.tables.scopes.get? c = some x ∧
      S.tables.part b = .simple name params ∧ x.find? name params = some b := by
  obtain ⟨y, c, x, hy, hc, hx, rfl⟩ := h
  obtain ⟨z, hz, hzc⟩ := hs.paired.outside c x hx
  refine ⟨c, x, y.name, y.params, ?_, hx, part_eq hy, ?_⟩
  · unfold scopeOf?
    rw [hz]
    exact hzc
  · exact Scope.find?_of_mem (hs.owned.signatures c x hx y.name) (hs.owned.listed b y c x hy hc hx)

/-- The parts below an entity lead down the owners to the last of them. -/
theorem run_findBelow (hs : S.tables.Sound) (h : (a :: es).IsChain S.tables.Above) :
    (findBelow services (es.map S.tables.part) a).run S = (.ok (a :: es).getLast?, S) := by
  induction es generalizing a with
  | nil => rfl
  | cons b es ih =>
    rw [List.isChain_cons_cons] at h
    obtain ⟨c, x, name, params, hc, hx, hpart, hf⟩ := Above.find? hs h.1
    unfold scopeOf? at hc
    obtain ⟨y, hy, hyc⟩ := Option.bind_eq_some_iff.1 hc
    rw [List.map_cons, hpart, findBelow]
    simp only [run_bind, run_ask, Tables.entity, hy, hyc, findWith_simple, run_findSimple hx hf]
    rw [ih h.2, List.getLast?_cons_cons]

/-- Following a name from a scope is following it from the entity around it. -/
theorem run_findName_eq (hp : S.tables.Paired) (hx : S.tables.scopes.get? c = some x)
    (n : QualifiedName) :
    (findName services n c).run S = (findBelow services n x.entity).run S := by
  obtain ⟨y, hy, hyc⟩ := hp.outside c x hx
  cases n with
  | nil =>
    rw [findName, findBelow]
    simp only [run_bind, run_ask, Tables.scope, hx, run_pure]
  | cons p ps =>
    rw [findName, findBelow]
    simp only [run_bind, run_ask, Tables.scope, hx, Tables.entity, hy, hyc]

/-- The parts of a path, read from the scope at its head, lead to its entity. -/
theorem run_findName (hs : S.tables.Sound) (h : (a :: es).IsChain S.tables.Above)
    (hc : S.tables.scopeOf? a = some c) :
    (findName services (es.map S.tables.part) c).run S = (.ok (a :: es).getLast?, S) := by
  unfold scopeOf? at hc
  obtain ⟨y, hy, hyc⟩ := Option.bind_eq_some_iff.1 hc
  obtain ⟨x, hx, rfl⟩ := hs.paired.inside a y c hy hyc
  rw [run_findName_eq hs.paired hx, run_findBelow hs h]

/-- A way down is followed from the scope in which it begins. -/
theorem run_findNamed (hs : S.tables.Sound) (h : (a :: es).IsChain S.tables.Above)
    (he : (a :: es).getLast? = some e) (hc : S.tables.scopeOf? a = some c) :
    (findNamed services c (es.map S.tables.part)).run S = (.ok e, S) := by
  have hfind : (findName services (es.map S.tables.part) c).run S = (.ok (some e), S) := by
    rw [run_findName hs h hc, he]
  unfold findNamed
  rw [run_bind_of_ok hfind]
  rfl

/-- The scope of the root. -/
theorem scopeOf?_root (hs : S.tables.Sound) : S.tables.scopeOf? rootEntity = some rootScope := by
  obtain ⟨x, hx, hk⟩ := hs.formed.root
  unfold scopeOf?
  rw [hx, Option.bind_some, hk]
  rfl

/-! ## What is found -/

/-- Tables as lookups need them : coherent, and set to keep what templates make. -/
def Keeping (t : Tables L T) : Prop :=
  t.Coherent ∧ t.config.memoizeTemplates = true

/-- An edit of the tables does not touch the configuration. -/
theorem Keeping.edit {t t' : Tables L T} (h : Keeping t) (he : Tables.Edit t t') : Keeping t' :=
  ⟨h.1.edit he, he.config_eq ▸ h.2⟩

/-- Whatever answers an overload is in the table afterwards. -/
theorem follows_resolveOverload (hs : Keeping s.tables) (location : Location) :
    Follows (resolveOverload services c name params location) s fun r s' =>
      ∀ e, r = .ok (some e) → s'.tables.Holds c name params e := by
  refine Follows.ask_bind (fun x hx => ?_) fun _ _ _ => nofun
  have hx := scope_eq_ok hx
  cases ho : x.overloads? name with
  | none => exact follows_pure fun _ => nofun
  | some overloads =>
    dsimp only
    cases hf : overloads.find? params with
    | none => exact (follows_instantiate _ _ _ _ _ _ _).mono fun r s' h => h hs.2
    | some e =>
      refine follows_pure ?_
      rintro _ ⟨⟩
      have hfound : x.find? name params = some e := by
        unfold Scope.find?
        rw [ho, Option.bind_some, hf]
      exact ⟨hs.1.held c x hx name _ (Scope.mem_of_find? hfound), x, hx, hfound⟩

/-- What is found for a name and a signature is in the scope, under just these. -/
theorem follows_findSimple (hobeys : Obeys services) (hs : Keeping s.tables) :
    Follows (findSimple services c name params) s fun r s' =>
      ∀ e, r = .ok (some e) → s'.tables.Holds c name params e := by
  unfold findSimple
  extract_lets resolve
  have hresolve (s : Session L T W) (hs : Keeping s.tables) :
      Follows resolve s fun r s' =>
        (∀ e, r = .ok (some e) → s'.tables.Holds c name params e) ∧ Keeping s'.tables :=
    (follows_resolveOverload hs _).keeping Keeping.edit hs
  refine (hresolve s hs).bind ?_ fun _ _ _ _ => nofun
  rintro found s₁ ⟨hfound, h₁⟩
  split
  · refine follows_pure ?_
    rintro _ ⟨⟩
    exact hfound _ rfl
  · refine Follows.ask_bind (fun x hx => ?_) fun _ _ _ => nofun
    split_ifs with hstate
    · exact follows_pure fun _ => nofun
    · refine ((follows_loadPart hobeys _ ?_).keeping Keeping.edit h₁).bind ?_ fun _ _ _ _ => nofun
      · intro y hy
        rw [scope_eq_ok hx] at hy
        exact Option.some.inj hy ▸ hstate
      rintro - s₂ ⟨-, h₂⟩
      refine (hresolve s₂ h₂).bind ?_ fun _ _ _ _ => nofun
      rintro found s₃ ⟨hfound, h₃⟩
      split
      · refine follows_pure ?_
        rintro _ ⟨⟩
        exact hfound _ rfl
      · refine ((covered_forceLoad hobeys c s₃).keeping Keeping.edit h₃).bind ?_
          fun _ _ _ _ => nofun
        rintro - s₄ ⟨-, h₄⟩
        exact (hresolve s₄ h₄).mono fun _ _ h => h.1

/-- Where a name leads is below where it starts, and every step is into a scope that has the next
part. -/
theorem follows_findBelow (hobeys : Obeys services) {n : QualifiedName} (hn : n.Plain)
    (hs : Keeping s.tables) (ha : s.tables.Anchored a) :
    Follows (findBelow services n a) s fun r s' => ∀ e, r = .ok (some e) →
      ∃ es, (a :: es).IsChain s'.tables.Above ∧ (a :: es).getLast? = some e ∧
        es.map s'.tables.part = n := by
  induction n generalizing s a with
  | nil =>
    rw [findBelow]
    refine follows_pure ?_
    rintro _ ⟨⟩
    exact ⟨[], List.isChain_singleton a, rfl, rfl⟩
  | cons p ps ih =>
    obtain ⟨⟨text, params, rfl⟩, hps⟩ := List.forall_mem_cons.1 hn
    rw [findBelow]
    refine Follows.ask_bind (fun x hx => ?_) fun _ _ _ h => by cases h
    cases hc : x.kind.scope? with
    | none => exact follows_pure fun _ h => by cases h
    | some c =>
      have hin : Keeping s.tables ∧ s.tables.Encloses a c :=
        ⟨hs, ha, hs.1.paired.inside a x c (entity_eq_ok hx) hc⟩
      have hinside {t t' : Tables L T} (h : Keeping t ∧ t.Encloses a c) (he : Tables.Edit t t') :
          Keeping t' ∧ t'.Encloses a c :=
        ⟨h.1.edit he, h.2.edit h.1.1 he⟩
      dsimp only
      rw [findWith_simple]
      refine ((follows_findSimple hobeys hs).keeping hinside hin).bind ?_
        fun _ _ _ _ h => by cases h
      rintro found s₁ ⟨hfound, h₁⟩
      cases found with
      | none => exact follows_pure fun _ h => by cases h
      | some b =>
        have hb := (hfound b rfl).has
        have hstay {t t' : Tables L T}
            (h : (Keeping t ∧ t.Encloses a c) ∧ t.Has c text params b) (he : Tables.Edit t t') :
            (Keeping t' ∧ t'.Encloses a c) ∧ t'.Has c text params b :=
          ⟨hinside h.1 he, h.2.edit h.1.1.1.formed he⟩
        refine ((ih hps h₁.1 hb.anchored).keeping hstay ⟨h₁, hb⟩).mono ?_
        rintro r s' ⟨hrest, ⟨-, hac⟩, hb⟩ e he
        obtain ⟨es, hes, hlast, hpath⟩ := hrest e he
        obtain ⟨habove, hpart⟩ := hac.above hb
        refine ⟨b :: es, List.isChain_cons_cons.2 ⟨habove, hes⟩, ?_, ?_⟩
        · rw [List.getLast?_cons_cons, hlast]
        · rw [List.map_cons, hpart, hpath]

/-! ## Names and paths -/

/-- In every session that a host can bring about, with templates set to keep what they make, names
and paths undo each other. Where a name leads from a scope whose entity is rooted, whatever is
loaded and made on the way, there is an entity which is rooted as well, and its path is that of the
scope's entity with the name behind it, unless the root has been put into a scope below it. And the
path of a rooted entity finds the entity, unless handles have come round again; nothing is loaded,
made or changed to find it. -/
theorem names_follow_paths {config : Config} {world : W} {s : Session L T W}
    (h : Later (Session.start config world) s) (hm : config.memoizeTemplates = true) :
    (∀ c x es n, s.tables.scopes.get? c = some x → s.tables.Rooted es x.entity → n.Plain →
      ∀ (host : Host L T W) fuel e s',
        host.perform fuel (.findName c n) s = (.ok (.ok (some e)), s') →
        ¬Relation.TransGen s'.tables.Above rootEntity rootEntity →
        s'.tables.path x.entity = s.tables.path x.entity ∧
          ∃ fs, s'.tables.Rooted fs e ∧ s'.tables.path e = s'.tables.path x.entity ++ n) ∧
    (s.tables.Unwrapped → ∀ es e, s.tables.Rooted es e → ∀ (host : Host L T W) fuel,
      host.perform fuel (.findName rootScope (s.tables.path e)) s =
        (.ok (.ok (some e)), s)) := by
  have hstart : (Session.start config world : Session L T W).tables.Coherent :=
    (Sound.start config).coherent
  have hs : Keeping s.tables := by
    refine (h.induction_edit (fun _ ht he => Keeping.edit ht he) hstart.formed ⟨hstart, hm⟩).2
  refine ⟨fun c x es n hx hr hn host fuel e s' hrun hroot => ?_, fun hu es e hr host fuel => ?_⟩
  · have hobeys := obeys_services host fuel
    have hfind := run_attempt_eq_ok hrun
    rw [run_findName_eq hs.1.paired hx] at hfind
    obtain ⟨hcourse, hfound⟩ :=
      (follows_findBelow hobeys hn hs hr.anchored).of_run_eq_ok hs.1.formed hfind
    obtain ⟨fs, hfs, hlast, hpath⟩ := hfound e rfl
    have hkeep := (hcourse.keepsRooted hs.1).2
    obtain ⟨hr', -⟩ := hkeep es x.entity hr
    have hre := hr'.append hfs (hr'.root_notMem hfs hroot) hlast
    refine ⟨hkeep.path_eq hr, es ++ fs, hre, ?_⟩
    rw [hre.path_eq, hr'.path_eq, List.map_append, hpath]
  · have hsound := h.sound (Sound.start config) hu
    show (attempt (findName (host.services fuel) (s.tables.path e) rootScope)).run s = _
    rw [run_attempt, hr.path_eq, run_findName hsound hr.isChain.1 (scopeOf?_root hsound),
      hr.isChain.2]

/-- A host whose loaders put a template into the scope that they are asked to fill. -/
def workshopHost : Host Unit Unit Unit where
  templateName _ := "List"
  generate _ _ _ params := some { name := "", params, kind := .type none, location := .unknown }
  load loader c _ := .call (.addTemplate c ()) fun _ => .done (.done, loader)

/-- A package that is still to be loaded. -/
def workshop : Session Unit Unit Unit :=
  (workshopHost.perform 1 (.define rootScope
    { name := "std", params := [], kind := .package (some ()), location := .unknown })
    (Session.start {} ())).2

/-- What the workshop has become after a list of nothing has been asked for. -/
def usedWorkshop : Session Unit Unit Unit :=
  (workshopHost.perform 2 (.findName rootScope [.simple "std" [], .simple "List" [.void]])
    workshop).2

/-- `names_follow_paths` on an instance that a template has made in a package. -/
theorem names_follow_paths_usedWorkshop :
    (∃ fs, usedWorkshop.tables.Rooted fs ⟨2, 0⟩ ∧
      usedWorkshop.tables.path ⟨2, 0⟩ = [.simple "std" [], .simple "List" [.void]]) ∧
      ∀ (host : Host Unit Unit Unit) fuel,
        host.perform fuel (.findName rootScope (usedWorkshop.tables.path ⟨2, 0⟩)) usedWorkshop =
          (.ok (.ok (some ⟨2, 0⟩)), usedWorkshop) := by
  have h : Later (Session.start {} ()) workshop := (Later.refl _).perform workshopHost 1 _
  have h' : Later (Session.start {} ()) usedWorkshop := h.perform workshopHost 2 _
  obtain ⟨x, hx, he⟩ := (h.keepsRooted (Sound.start _).coherent).1.get?_rootScope
  have hplain : QualifiedName.Plain [.simple "std" [], .simple "List" [.void]] := by
    simp [QualifiedName.Plain]
  have hfound : (workshopHost.perform 2
      (.findName rootScope [.simple "std" [], .simple "List" [.void]]) workshop).1 =
        .ok (.ok (some ⟨2, 0⟩)) := by decide +kernel
  have hrun : workshopHost.perform 2
      (.findName rootScope [.simple "std" [], .simple "List" [.void]]) workshop =
        (.ok (.ok (some ⟨2, 0⟩)), usedWorkshop) := by
    unfold usedWorkshop
    rw [← hfound]
  have hroot : (usedWorkshop.tables.entities.get? rootEntity).bind Entity.owner = none := by
    decide +kernel
  obtain ⟨-, fs, hr, hpath⟩ := (names_follow_paths h rfl).1 rootScope x [] _ hx (he ▸ .root) hplain
    workshopHost 2 ⟨2, 0⟩ usedWorkshop hrun (not_transGen_above hroot)
  rw [he, (Rooted.root (t := usedWorkshop.tables)).path_eq] at hpath
  have hu : usedWorkshop.tables.Unwrapped := by decide +kernel
  exact ⟨⟨fs, hr, hpath⟩, (names_follow_paths h' rfl).2 hu fs _ hr⟩

/-- A type that the released package has left behind has its way through the type that has taken
the handles of the package. -/
theorem rooted_throne : throne.tables.Rooted ([] ++ [⟨1, 0⟩] ++ [⟨2, 0⟩]) ⟨2, 0⟩ :=
  (Rooted.root.of_above (by decide) (by decide +kernel)).of_above (by decide) (by decide +kernel)

/-- Once handles have come round, the path of a rooted entity need not lead to it : the scope on its
way does not hold it, and something else is loaded there. -/
theorem path_finds_another :
    ∃ s, Later (start {} ()) s ∧ s.tables.Rooted [⟨1, 0⟩, ⟨2, 0⟩] ⟨2, 0⟩ ∧
      (usurpingHost.perform 2 (.findName rootScope (s.tables.path ⟨2, 0⟩)) s).1 =
        .ok (.ok (some ⟨5, 0⟩)) := by
  obtain ⟨s, hrun, hstate⟩ := exists_usurped
  have hfound :
      (usurpingHost.perform 2 (.findName rootScope (throne.tables.path ⟨2, 0⟩)) throne).1 =
        .ok (.ok (some ⟨5, 0⟩)) := by decide +kernel
  refine ⟨s, later_besieged.trans (later_of_perform hrun), ?_, ?_⟩
  · rw [hstate.tables]
    exact rooted_throne
  · rw [hstate.tables, (sameState_perform hstate usurpingHost 2 _).1, hfound]

end Session

end NameResolution
