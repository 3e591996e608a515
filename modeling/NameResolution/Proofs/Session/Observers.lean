import NameResolution.Proofs.Session.Correspondence

/-!
# What observers hear

The journal says what an observer was told about a scope, in order (`news`). An observer that
began to watch an empty scope, and was left alone since, has heard of exactly what is in the
scope (`Hears`) : an entity enters a scope together with the news of it, no other move brings
anything into a scope or tells anybody, and an entity that has entered a scope never enters
another one. Loaders, templates and calls of operations inside of operations are moves as any
other, so `additions_heard` holds whatever puts entities into the scope, and at every moment.
-/

namespace NameResolution

variable {L T W α : Type}

namespace Scope

variable {s : Scope L T} {name : String} {params : List Param} {e : EntityId}

/-- Changing one overload set adds to the entities of all what it adds to the entities of the
set. -/
theorem flatMap_entities_alter (name : String) {f : OverloadSet T → OverloadSet T}
    {es : List EntityId} (hf : ∀ set : OverloadSet T, (f set).entities = set.entities ++ es)
    (names : List (String × OverloadSet T)) :
    ((alter name f names).flatMap fun entry => entry.2.entities).Perm
      ((names.flatMap fun entry => entry.2.entities) ++ es) := by
  induction names with
  | nil => exact .of_eq (by simpa [alter, OverloadSet.entities] using hf {})
  | cons entry rest ih =>
    obtain ⟨key, set⟩ := entry
    unfold alter
    split_ifs with hkey
    · simp only [List.flatMap_cons, hf, List.append_assoc]
      exact List.Perm.append_left _ List.perm_append_comm
    · simp only [List.flatMap_cons, List.append_assoc]
      exact List.Perm.append_left _ ih

/-- A new overload adds its entity to what a scope holds. -/
theorem content_push (s : Scope L T) (name : String) (params : List Param) (e : EntityId) :
    (s.push name params e).content.Perm (s.content ++ [e]) :=
  flatMap_entities_alter name (fun set => by simp [OverloadSet.entities, OverloadSet.push]) s.names

/-- A scope without content has nothing under any name. -/
theorem items_eq_nil (h : s.content = []) (name : String) : s.items name = [] := by
  rw [items]
  cases hs : s.overloads? name with
  | none => rfl
  | some overloads =>
    obtain ⟨before, after, hn, -⟩ := List.lookup_eq_some_iff.1 hs
    have hmem : (name, overloads) ∈ s.names := by simp [hn]
    exact List.map_eq_nil_iff.1 (List.flatMap_eq_nil_iff.1 h _ hmem)

theorem content_addTemplate (s : Scope L T) (name : String) (template : T) :
    (s.addTemplate name template).content.Perm s.content := by
  have hset (set : OverloadSet T) : (set.addTemplate template).entities = set.entities ++ [] := by
    simp [OverloadSet.entities, OverloadSet.addTemplate]
  have h := flatMap_entities_alter name hset s.names
  rwa [List.append_nil] at h

end Scope

/-! ## News -/

/-- The entity that an event tells an observer about, in a scope. -/
def Event.newsFor (o : ObserverId) (c : ScopeId) : Event T → Option EntityId
  | .notified o' c' e _ => if o' = o ∧ c' = c then some e else none
  | _ => none

namespace Session

variable {allowed : Operation L T → Prop} {s s' s₀ s₁ : Session L T W} {c c' : ScopeId}
  {e : EntityId} {o : ObserverId} {os : List ObserverId} {journal base later : List (Event T)}
  {x : Scope L T}

/-- The entities that an observer was told about in a scope, in order. -/
def news (o : ObserverId) (c : ScopeId) (journal : List (Event T)) : List EntityId :=
  (journal.filterMap (Event.newsFor o c)).reverse

/-- The news of a longer journal is the news of its parts. -/
theorem news_append (o : ObserverId) (c : ScopeId) (later journal : List (Event T)) :
    news o c (later ++ journal) = news o c journal ++ news o c later := by
  simp [news]

theorem news_cons_of_not_isNotice {event : Event T} (h : ¬event.IsNotice) :
    news o c (event :: journal) = news o c journal := by
  cases event with
  | notified => exact absurd trivial h
  | _ => rfl

/-- Who is among those told once hears of an entity once. -/
theorem news_told (h : os.count o = 1) : news o c (told c e os : List (Event T)) = [e] := by
  have hcount (os : List ObserverId) :
      (os.map fun o' => (.notified o' c e (some c) : Event T)).filterMap (Event.newsFor o c) =
        List.replicate (os.count o) e := by
    induction os with
    | nil => rfl
    | cons o' os ih =>
      rw [List.map_cons, List.filterMap_cons, ih, List.count_cons]
      by_cases ho : o' = o
      · simp [Event.newsFor, ho, List.replicate_succ]
      · simp [Event.newsFor, ho]
  rw [news, told, List.filterMap_reverse, List.reverse_reverse, hcount, h]
  rfl

/-- News of another scope is no news of this one. -/
theorem news_told_of_ne (h : c' ≠ c) : news o c (told c' e os : List (Event T)) = [] := by
  rw [news, told, List.filterMap_reverse, List.reverse_reverse, List.filterMap_map,
    List.filterMap_eq_nil_iff]
  intro o' _
  simp [Event.newsFor, h]

/-! ## Hearing of everything -/

/-- The operation neither makes the observer watch the scope nor keeps it from doing so. -/
def LeavesAlone (c : ScopeId) (o : ObserverId) (op : Operation L T) : Prop :=
  op ≠ .watch c o ∧ op ≠ .unwatch c o ∧ op ≠ .drop o

/-- By the events since the journal was `base`, the observer has heard of exactly what is in the
scope `x`, and it goes on watching. -/
structure Hears (c : ScopeId) (o : ObserverId) (base : List (Event T)) (s : Session L T W)
    (x : Scope L T) (later : List (Event T)) : Prop where
  scope : s.tables.scopes.get? c = some x
  journal : s.journal = later ++ base
  watching : x.observers.count o = 1
  held : o ∉ s.gone
  heard : (news o c later).Perm x.content
  once : (news o c later).Nodup
  /-- What the observer has heard of has been in the scope ever since. -/
  owned : ∀ e ∈ news o c later, ∃ y, s.tables.entities.get? e = some y ∧ y.owner = some c
  /-- Overload sets list their entities in the order of the news. -/
  ordered : ∀ name, ((x.items name).map Overload.entity).Sublist (news o c later)

/-- A change that leaves the content of the scope alone. -/
theorem Hears.of_alike {x' : Scope L T} (h : Hears c o base s x later) (hm : s.tables.Matched)
    (hedit : Tables.Edit s.tables s'.tables) (hx' : s'.tables.scopes.get? c = some x')
    (hj : s'.journal = s.journal) (hcontent : x'.content.Perm x.content)
    (hitems : ∀ name, x'.items name = x.items name) (hcount : x'.observers.count o = 1)
    (hgone : o ∉ s'.gone) : Hears c o base s' x' later := by
  refine ⟨hx', hj.trans h.journal, hcount, hgone, h.heard.trans hcontent.symm, h.once,
    fun e he => ?_, fun name => hitems name ▸ h.ordered name⟩
  obtain ⟨y, hy, hown⟩ := h.owned e he
  exact ⟨y, hm.coherent.formed.get?_entities_edit hedit hy hown, hown⟩

/-- A change of any scope that leaves its content alone, and of this one its observer. -/
theorem Hears.mapScope (h : Hears c o base s x later) (hm : s.tables.Matched) (c' : ScopeId)
    {f : Scope L T → Scope L T} (hf : ∀ x : Scope L T, x.Alike (f x))
    (hcontent : ∀ x, (f x).content.Perm x.content)
    (hcount : c' = c → (f x).observers.count o = 1) :
    ∃ x', Hears c o base (s.mapScope c' f) x' later := by
  have hedit : Tables.Edit s.tables (s.mapScope c' f).tables := .scope _ c' f hf
  by_cases hc : c' = c
  · subst hc
    exact ⟨f x, h.of_alike hm hedit (get?_mapScope h.scope f) rfl (hcontent x) (hf x).items
      (hcount rfl) h.held⟩
  · refine ⟨x, h.of_alike hm hedit ?_ rfl (.refl _) (fun _ => rfl) h.watching h.held⟩
    exact (SlotTable.get?_modify ..).trans ((if_neg (Ne.symm hc)).trans h.scope)

/-- Pruning the observers that are gone leaves the one that listens in place, once. -/
theorem Hears.count_prune (h : Hears c o base s x later) :
    (x.prune s.gone).observers.count o = 1 :=
  (List.count_filter (by simpa using h.held)).trans h.watching

/-- What enters the scope is news, and new to the observer. -/
theorem Hears.enter (h : Hears c o base s x later) {t : Tables L T}
    (ht : s.tables.attach c e = .ok t) :
    ∃ x', Hears c o base (s.enter c e t x) x' (told c e (x.prune s.gone).observers ++ later) := by
  obtain ⟨y, x₀, hy, hown, hx₀, -, hent, hscope⟩ := Tables.attach_cases ht
  obtain rfl := Option.some.inj (h.scope.symm.trans hx₀)
  have hnews : news o c (told c e (x.prune s.gone).observers ++ later) = news o c later ++ [e] := by
    rw [news_append, news_told h.count_prune]
  have hnew : e ∉ news o c later := by
    intro hmem
    obtain ⟨y', hy', hown'⟩ := h.owned e hmem
    rw [Option.some.inj (hy.symm.trans hy'), hown'] at hown
    cases hown
  refine ⟨(x.push y.name y.params e).prune s.gone, ?_, ?_, h.count_prune, h.held, ?_, ?_, ?_, ?_⟩
  · exact (SlotTable.get?_modify ..).trans (by rw [if_pos rfl, hscope, if_pos rfl]; rfl)
  · rw [Session.enter, h.journal, List.append_assoc]
  · rw [hnews]
    exact (h.heard.append_right [e]).trans (x.content_push y.name y.params e).symm
  · rw [hnews]
    exact List.nodup_append.2 ⟨h.once, List.nodup_singleton e, fun a ha b hb hab =>
      hnew (List.mem_singleton.1 hb ▸ hab ▸ ha)⟩
  · intro e' he'
    change ∃ y, t.entities.get? e' = some y ∧ y.owner = some c
    rw [hent]
    split_ifs with hee
    · exact ⟨_, rfl, rfl⟩
    · rw [hnews] at he'
      exact h.owned e' ((List.mem_append.1 he').resolve_right fun hmem =>
        hee (List.mem_singleton.1 hmem))
  · intro name
    change (((x.push y.name y.params e).items name).map Overload.entity).Sublist _
    rw [hnews, Scope.items_push]
    split_ifs with hname
    · subst hname
      rw [List.map_append]
      exact (h.ordered _).append (.refl _)
    · exact (h.ordered name).trans (List.sublist_append_left ..)

/-- What enters another scope is no news of this one. -/
theorem Hears.enter_of_ne (h : Hears c o base s x later) (hm : s.tables.Matched) (hc : c' ≠ c)
    {t : Tables L T} {x' : Scope L T} (ht : s.tables.attach c' e = .ok t) :
    Hears c o base (s.enter c' e t x') x (told c' e (x'.prune s.gone).observers ++ later) := by
  have hnews : news o c (told c' e (x'.prune s.gone).observers ++ later) = news o c later := by
    rw [news_append, news_told_of_ne hc, List.append_nil]
  obtain ⟨y, x₀, -, -, -, -, -, hscope⟩ := Tables.attach_cases ht
  refine ⟨?_, ?_, h.watching, h.held, hnews ▸ h.heard, hnews ▸ h.once, ?_, hnews ▸ h.ordered⟩
  · exact (SlotTable.get?_modify ..).trans (by
      rw [if_neg (Ne.symm hc), hscope, if_neg (Ne.symm hc), h.scope])
  · rw [Session.enter, h.journal, List.append_assoc]
  · rw [hnews]
    intro e' he'
    obtain ⟨y', hy', hown'⟩ := h.owned e' he'
    have hy' : t.entities.get? e' = some y' :=
      hm.coherent.formed.get?_entities_edit (.attach ht) hy' hown'
    exact ⟨y', hy', hown'⟩

/-- Every move that leaves the observer alone, and the scope where it is, tells the observer of
exactly what it brings into the scope. -/
theorem Move.hears (hmove : Move (LeavesAlone c o) s s') (hm : s.tables.Matched)
    (hr : s'.tables.scopes.releasesAt c = s.tables.scopes.releasesAt c)
    (h : Hears c o base s x later) : ∃ x' more, Hears c o base s' x' (more ++ later) := by
  have hsame {s' : Session L T W} (h : ∃ x', Hears c o base s' x' later) :
      ∃ x' more, Hears c o base s' x' (more ++ later) :=
    h.imp fun _ h => ⟨[], h⟩
  have hidle {s' : Session L T W} (hedit : Tables.Edit s.tables s'.tables)
      (hx : s'.tables.scopes.get? c = some x) (hj : s'.journal = s.journal) (hg : o ∉ s'.gone) :
      ∃ x' more, Hears c o base s' x' (more ++ later) :=
    ⟨x, [], h.of_alike hm hedit hx hj (.refl _) (fun _ => rfl) h.watching hg⟩
  cases hmove with
  | place d =>
    exact hidle (.place _ d) (hm.coherent.formed.get?_scopes_place_of_some d h.scope) rfl h.held
  | relink => exact hidle (.forest _ _) h.scope rfl h.held
  | @discard e he =>
    have hloose := Tables.loose_of_isReleasable he
    obtain ⟨y, hy, -⟩ := hloose.2
    exact hidle (.discard hloose) (Tables.get?_scopes_discard_of_releasesAt hy h.scope hr) rfl
      h.held
  | @enter c' e t x₀ ht hx₀ =>
    by_cases hc : c' = c
    · subst hc
      obtain rfl := Option.some.inj (h.scope.symm.trans hx₀)
      exact (h.enter ht).imp fun _ h => ⟨_, h⟩
    · exact ⟨x, _, h.enter_of_ne hm hc ht⟩
  | template c' name template =>
    exact hsame (h.mapScope hm c' (fun x => Scope.alike_addTemplate x name template)
      (fun x => x.content_addTemplate name template) fun _ => h.watching)
  | @watch c' o' hop =>
    refine hsame (h.mapScope hm c' (fun x => .of_names rfl rfl) (fun x => .refl _) ?_)
    rintro rfl
    have ho : o' ≠ o := by rintro rfl; exact hop.1 rfl
    simpa [Scope.watch, ho] using h.watching
  | @unwatch c' o' hop =>
    refine hsame (h.mapScope hm c' (fun x => .of_names rfl rfl) (fun x => .refl _) ?_)
    rintro rfl
    have ho : o ≠ o' := by rintro rfl; exact hop.2.1 rfl
    exact (List.count_filter (by simpa using ho)).trans h.watching
  | @drop o' hop =>
    have ho : o ≠ o' := by rintro rfl; exact hop.2.2 rfl
    exact hidle (.refl _) h.scope rfl (by simpa using ⟨ho, h.held⟩)
  | loading c' state loader =>
    exact hsame (h.mapScope hm c' (fun x => .of_names rfl rfl) (fun x => .refl _)
      fun _ => h.watching)
  | @event event hevent =>
    have hnews : news o c ([event] ++ later) = news o c later := news_cons_of_not_isNotice hevent
    exact ⟨x, [event], h.scope, congrArg (event :: ·) h.journal, h.watching, h.held,
      hnews ▸ h.heard, hnews ▸ h.once, hnews ▸ h.owned, hnews ▸ h.ordered⟩
  | world w => exact hidle (.refl _) h.scope rfl h.held

/-- As long as the scope is not released, the observer hears of everything that is put into it. -/
theorem Moves.hears (h : Moves (LeavesAlone c o) s s') (hm : s.tables.Matched)
    (hr : s'.tables.scopes.releasesAt c = s.tables.scopes.releasesAt c)
    (hs : Hears c o base s x later) : ∃ x' more, Hears c o base s' x' (more ++ later) := by
  induction h with
  | refl => exact ⟨x, [], hs⟩
  | @tail u s' h hmove ih =>
    have hmu := Moves.matched h hm
    have hle := (Moves.extends h hm).scopes.releasesAt_le c
    have hle' := (Moves.extends (.single hmove) hmu).scopes.releasesAt_le c
    obtain ⟨x₁, more, hu⟩ := ih (by omega)
    obtain ⟨x₂, more', hs'⟩ := hmove.hears hmu (by omega) hu
    exact ⟨x₂, more' ++ more, by rwa [List.append_assoc]⟩

/-- The scope has gained what the observer has heard of in between. -/
theorem Hears.content_perm {x' : Scope L T} {more : List (Event T)}
    (h : Hears c o base s x later) (h' : Hears c o base s' x' (more ++ later)) :
    x'.content.Perm (x.content ++ news o c more) := by
  have hheard := h'.heard
  rw [news_append] at hheard
  exact hheard.symm.trans (h.heard.append_right _)

/-- An observer that has just begun to watch an empty scope has heard of everything in it. -/
theorem hears_watch (hx : s.tables.scopes.get? c = some x) (hempty : x.content = [])
    (ho : o ∉ x.observers) (hgone : o ∉ s.gone) :
    Hears c o s.journal (s.mapScope c (·.watch o)) (x.watch o) [] := by
  refine ⟨get?_mapScope hx _, rfl, ?_, hgone, .of_eq hempty.symm, List.nodup_nil, nofun,
    fun name => ?_⟩
  · rw [Scope.watch, List.count_append, List.count_eq_zero_of_not_mem ho, List.count_singleton_self]
  · have hitems : (x.watch o).items name = x.items name := rfl
    rw [hitems, Scope.items_eq_nil hempty]
    exact .slnil

/-! ## Who is told what -/

/-- The owner that an observer is told of is the scope that the entity is in. -/
theorem Moves.owner_notified (h : Moves allowed s s')
    (hs : ∀ o c e owner, .notified o c e owner ∈ s.journal → owner = some c) :
    ∀ o c e owner, .notified o c e owner ∈ s'.journal → owner = some c := by
  induction h with
  | refl => exact hs
  | tail _ hmove ih =>
    intro o c e owner hmem
    cases hmove with
    | @enter c' e' t x h hx =>
      rcases List.mem_append.1 hmem with hmem | hmem
      · obtain ⟨o', -, heq⟩ := List.mem_map.1 (List.mem_reverse.1 hmem)
        cases heq
        rfl
      · exact ih o c e owner hmem
    | @event event hevent =>
      rcases List.mem_cons.1 hmem with rfl | hmem
      · exact absurd trivial hevent
      · exact ih o c e owner hmem
    | _ => exact ih o c e owner hmem

/-- A definition that comes to nothing is told to nobody. -/
theorem unheard_define {d : Declaration L} {stop : Stop} (hm : s.tables.Matched)
    (h : (define c d).run s = (.error stop, s')) : Unheard s s' := by
  have hdeclares := declares (fun _ => True) d hm
  unfold define at h
  rw [run_bind] at h
  generalize (declare d).run s = r at hdeclares h
  cases hdeclares with
  | refused _ hq =>
    cases h
    exact hq
  | @made e s₁ _ hq _ _ =>
    rcases exists_of_run_bind_eq_error h with h | ⟨_, _, -, h⟩
    · rw [run_undoing] at h
      rcases add_cases c e s₁ with ⟨t, x, -, -, hadd⟩ | ⟨stop', -, hadd⟩
      · rw [hadd] at h
        cases h
      · rw [hadd] at h
        cases stop' with
        | failure f =>
          cases h
          exact hq.trans (unheard_discard e s₁)
        | fault f =>
          cases h
          exact hq
        | outOfFuel =>
          cases h
          exact hq
    · cases h

/-- An entity that a template makes and that is not kept is told to nobody. -/
theorem unheard_instantiate {services : Services L T W} {ts : List T} {name : String}
    {params : List Param} {location : Location} (hm : s.tables.Matched)
    (hmemo : s.tables.config.memoizeTemplates = false) :
    Unheard s ((instantiate services c ts name params location).run s).2 := by
  have hq := unheard_consult services params ts s
  rw [run_consult] at hq
  unfold instantiate
  rw [run_bind_of_ok (run_consult services params ts s)]
  generalize (ts.map _).reverse ++ s.journal = journal at hq ⊢
  rcases ts.filterMap _ with _ | ⟨d, _ | ⟨d', ds⟩⟩
  · exact hq
  · have hdeclares := declares (fun _ => True) { d with name, params }
      (s := { s with journal }) hm
    dsimp only
    rw [run_bind]
    generalize (declare { d with name, params }).run { s with journal } = r at hdeclares
    cases hdeclares with
    | refused _ hq' => exact hq.trans hq'
    | @made e s₁ hmoves hq' _ _ =>
      have hmemo₁ : s₁.tables.config.memoizeTemplates = false :=
        hmoves.induction_edit (P := fun t => t.config.memoizeTemplates = false)
          (fun _ ht he => he.config_eq ▸ ht) hm hmemo
      dsimp only
      rw [run_bind_of_ok (run_getTables s₁), hmemo₁]
      exact hq.trans (hq'.log id)
  · exact hq

/-- An observer begins to watch a scope while the scope is empty, and is neither taken off it nor
let go of afterwards, whatever hosts do to the session and to other observers. As long as the scope
is not released, the entities that the observer was told about since are exactly those in the scope,
each once, and the overload sets list theirs in the same order. From any moment to a later one the
scope gains what the observer is told about in between, and with an entity that is put into it just
this one. Whoever is told about an entity is told that it belongs to the scope already. An addition
in vain changes nothing, and a definition in vain, or an entity of a template that is not kept, is
told to nobody. -/
theorem additions_heard {config : Config} {world : W} {host : Host L T W} {fuel : Nat}
    (hreached : Reaches (fun _ => True) (start config world) s₀)
    (hx : s₀.tables.scopes.get? c = some x) (hempty : x.content = []) (ho : o ∉ x.observers)
    (hgone : o ∉ s₀.gone) (hwatch : host.perform fuel (.watch c o) s₀ = (.ok (), s₁))
    (h : Reaches (LeavesAlone c o) s₁ s) (hstill : s₁.tables.scopes.StillAt s.tables.scopes c) :
    (∃ since y, s.journal = since ++ s₁.journal ∧ s.tables.scopes.get? c = some y ∧
      (news o c since).Nodup ∧ (news o c since).Perm y.content ∧
      (∀ name, ((y.items name).map Overload.entity).Sublist (news o c since)) ∧
      (∀ s', Reaches (LeavesAlone c o) s s' → s.tables.scopes.StillAt s'.tables.scopes c →
        ∃ later y', s'.journal = later ++ s.journal ∧ s'.tables.scopes.get? c = some y' ∧
          y'.content.Perm (y.content ++ news o c later)) ∧
      ∀ e s', (add c e).run s = (.ok (), s') →
        ∃ later y', s'.journal = later ++ s.journal ∧ s'.tables.scopes.get? c = some y' ∧
          y'.content.Perm (y.content ++ [e]) ∧ news o c later = [e]) ∧
    (∀ o' c' e owner, .notified o' c' e owner ∈ s.journal → owner = some c') ∧
    (∀ c' e stop s', (add c' e).run s = (.error stop, s') → s' = s) ∧
    (∀ c' d stop s', (define c' d).run s = (.error stop, s') → Unheard s s') ∧
    (s.tables.config.memoizeTemplates = false →
      ∀ (services : Services L T W) c' ts name params location,
        Unheard s ((instantiate services c' ts name params location).run s).2) := by
  have hm₀ := hreached.matched (Tables.Matched.start config)
  have hrun : host.perform fuel (.watch c o) s₀ = (.ok (), s₀.mapScope c (·.watch o)) :=
    run_modifyScope hx _
  obtain rfl : s₀.mapScope c (·.watch o) = s₁ := congrArg Prod.snd (hrun.symm.trans hwatch)
  have hmove : Move (fun _ => True) s₀ (s₀.mapScope c (·.watch o)) := .watch s₀ trivial
  have hm := h.matched (hmove.matched hm₀)
  obtain ⟨y, since, hs⟩ := (h.moves (hmove.matched hm₀)).hears (hmove.matched hm₀) hstill.2
    (hears_watch hx hempty ho hgone)
  rw [List.append_nil] at hs
  refine ⟨⟨since, y, hs.journal, hs.scope, hs.once, hs.heard, hs.ordered,
    fun s' h' hstill' => ?_, fun e s' hadd => ?_⟩, ?_, fun c' e stop s' hadd => ?_,
    fun c' d stop s' => unheard_define hm,
    fun hmemo services c' ts name params location => unheard_instantiate hm hmemo⟩
  · obtain ⟨y', later, hs'⟩ := (h'.moves hm).hears hm hstill'.2 hs
    refine ⟨later, y', ?_, hs'.scope, hs.content_perm hs'⟩
    rw [hs'.journal, hs.journal, List.append_assoc]
  · rcases add_cases c e s with ⟨t, y₀, ht, hy₀, hrun⟩ | ⟨stop, -, hrun⟩
    · rw [hrun] at hadd
      cases hadd
      obtain rfl := Option.some.inj (hs.scope.symm.trans hy₀)
      have hnews : news o c (told c e (y.prune s.gone).observers : List (Event T)) = [e] :=
        news_told hs.count_prune
      obtain ⟨y', hs'⟩ := hs.enter ht
      exact ⟨_, y', rfl, hs'.scope, hnews ▸ hs.content_perm hs', hnews⟩
    · rw [hrun] at hadd
      cases hadd
  · have hmoves := (hreached.moves (Tables.Matched.start config)).tail hmove
    have hstart : ∀ o c e owner, .notified o c e owner ∈
        (start config world : Session L T W).journal → owner = some c := nofun
    exact (h.moves (hmove.matched hm₀)).owner_notified (Moves.owner_notified hmoves hstart)
  · rcases add_cases c' e s with ⟨t, y', -, -, hrun⟩ | ⟨stop', -, hrun⟩
    · rw [hrun] at hadd
      cases hadd
    · rw [hrun] at hadd
      exact (congrArg Prod.snd hadd).symm

/-! ## A package that is listened to -/

/-- Templates that make threads, and loaders that define a type and report another one back. -/
def busyHost : Host Unit Unit Unit where
  templateName _ := "task"
  generate _ _ _ params := some { name := "task", params, kind := .thread, location := .unknown }
  load loader c _ :=
    .call (.define c { name := "Box", params := [], kind := .type none, location := .unknown })
      fun _ => .done
        (.batch [{ name := "Lid", params := [], kind := .type none, location := .unknown }], loader)

/-- A package that such a loader can fill. -/
def quietPackage : Session Unit Unit Unit :=
  busyHost.after 2 [.define rootScope
    { name := "lib", params := [], kind := .package (some ()), location := .unknown }] (start {} ())

/-- The package with an observer. -/
def watchedPackage : Session Unit Unit Unit :=
  (busyHost.perform 2 (.watch ⟨1, 0⟩ 7) quietPackage).2

/-- Then another observer comes and goes, the package is filled, a definition in it is in vain, and
a template makes an entity of it. -/
def toldPackage : Session Unit Unit Unit :=
  busyHost.after 2
    [.watch ⟨1, 0⟩ 8, .find ⟨1, 0⟩ (.simple "Box" []), .drop 8,
      .define ⟨1, 0⟩ { name := "Box", params := [], kind := .thread, location := .unknown },
      .addTemplate ⟨1, 0⟩ (), .resolveOverload ⟨1, 0⟩ "task" [.void] .unknown] watchedPackage

/-- `additions_heard` on the package that is filled through every route. -/
theorem additions_heard_toldPackage :
    ∃ since y, toldPackage.journal = since ++ watchedPackage.journal ∧
      toldPackage.tables.scopes.get? ⟨1, 0⟩ = some y ∧ (news 7 ⟨1, 0⟩ since).Nodup ∧
      (news 7 ⟨1, 0⟩ since).Perm y.content ∧ y.content = [⟨2, 0⟩, ⟨3, 0⟩, ⟨4, 1⟩] := by
  have hempty : (quietPackage.tables.scopes.get? ⟨1, 0⟩).map
      (fun x => (x.content, x.observers)) = some ([], []) := by decide +kernel
  obtain ⟨x, hx, hxs⟩ := Option.map_eq_some_iff.1 hempty
  obtain ⟨hcontent, hobservers⟩ := Prod.mk.inj hxs
  have hfull : (toldPackage.tables.scopes.get? ⟨1, 0⟩).map Scope.content =
      some [⟨2, 0⟩, ⟨3, 0⟩, ⟨4, 1⟩] := by decide +kernel
  obtain ⟨y', hy', hcontent'⟩ := Option.map_eq_some_iff.1 hfull
  have hquiet : Reaches (fun _ => True) (start {} ()) quietPackage :=
    (Reaches.refl _).after (busyHost.within_of_forall fun _ => trivial) 2 fun _ _ => trivial
  have hbusy : busyHost.Within (LeavesAlone ⟨1, 0⟩ 7) :=
    fun _ _ _ => ⟨⟨nofun, nofun, nofun⟩, fun _ => trivial⟩
  have htold : Reaches (LeavesAlone ⟨1, 0⟩ 7) watchedPackage toldPackage :=
    (Reaches.refl _).after hbusy 2 (by simp [LeavesAlone])
  have hstill : watchedPackage.tables.scopes.StillAt toldPackage.tables.scopes ⟨1, 0⟩ :=
    ⟨by decide +kernel, by decide +kernel⟩
  have hwatch : busyHost.perform 2 (.watch ⟨1, 0⟩ 7) quietPackage = (.ok (), watchedPackage) := rfl
  obtain ⟨⟨since, y, hj, hy, honce, hheard, -⟩, -⟩ := additions_heard hquiet hx hcontent
    (by simp [hobservers]) (by decide +kernel) hwatch htold hstill
  obtain rfl := Option.some.inj (hy.symm.trans hy')
  exact ⟨since, y, hj, hy, honce, hheard, hcontent'⟩

end Session

end NameResolution
