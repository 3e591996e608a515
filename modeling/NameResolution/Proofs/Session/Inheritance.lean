import NameResolution.Proofs.Forest.Support
import NameResolution.Proofs.Session.History

/-!
# The forest of a session

Whatever is done to a session, its forest only ever answers requests : a type that is
declared creates a node, supertypes are set and taken back, and what is discarded is
released (`Change.served`). So the forest of every session that a host can bring about
has been grown from the empty one by requests (`Later.served`), and is supported
(`Later.supported`).
-/

namespace NameResolution

namespace Forest

/-- The one forest has become the other by answering requests. -/
def Served (f g : Forest) : Prop :=
  ∃ rs : List Request, g = rs.foldl serve f

variable {f g u : Forest}

theorem Served.refl (f : Forest) : f.Served f :=
  ⟨[], rfl⟩

theorem Served.trans (h : f.Served g) (h' : g.Served u) : f.Served u := by
  obtain ⟨rs, rfl⟩ := h
  obtain ⟨rs', rfl⟩ := h'
  exact ⟨rs ++ rs', List.foldl_append.symm⟩

theorem served_serve (f : Forest) (r : Request) : f.Served (f.serve r) :=
  ⟨[r], rfl⟩

/-- A change that is granted serves requests, or none. -/
theorem Grants.served {change : Change} (h : f.Grants change) : f.Served change.forest := by
  rcases h with ⟨node, parent, h⟩ | ⟨node, h⟩
  · have hserve := f.served_serve (.setParent node parent)
    rwa [serve, h] at hserve
  · have hserve := f.served_serve (.clearParent node)
    rwa [serve, h] at hserve

end Forest

variable {L T W : Type}

namespace Tables

variable {t : Tables L T}

theorem served_place (t : Tables L T) (d : Declaration L) :
    t.forest.Served (t.place d).2.forest := by
  unfold place
  cases d.kind with
  | type parent => exact t.forest.served_serve (.create _)
  | _ => exact .refl _

theorem served_discard (t : Tables L T) (e : EntityId) :
    t.forest.Served (t.discard e).forest := by
  unfold discard
  split
  · exact t.forest.served_serve (.release _)
  all_goals exact .refl _

end Tables

namespace Session

variable {s s' : Session L T W} {c : ScopeId} {request : Option NamePart} {ending : Ending}

/-- What one change does to the forest is to serve requests. -/
theorem Change.served (h : Change s s') : s.tables.forest.Served s'.tables.forest := by
  cases h with
  | place d => exact s.tables.served_place d
  | relink h => exact h.served
  | discard h => exact s.tables.served_discard _
  | attach h =>
    obtain ⟨x, y, -, -, -, -, rfl⟩ := Tables.attach_eq_ok.1 h
    exact .refl _
  | _ => exact .refl _

theorem Begins.forest_eq (h : Begins c request s s') : s'.tables.forest = s.tables.forest := by
  cases h with
  | intro n hx hl hs hr => rfl

theorem Finishes.forest_eq (h : Finishes c request s s') : s'.tables.forest = s.tables.forest := by
  cases h with
  | intro loader outcome hx => rfl

/-- All that a course does to the forest is to serve requests, calls of loaders included. -/
theorem Course.served (h : Course s ending s') : s.tables.forest.Served s'.tables.forest := by
  induction h with
  | refl s => exact .refl _
  | stop s => exact .refl _
  | change h => exact h.served
  | call hb _ hf ih => rwa [hf.forest_eq, ← hb.forest_eq]
  | callBroken hb _ ih => rwa [← hb.forest_eq]
  | callLost hb _ _ _ ih => rwa [← hb.forest_eq]
  | trans _ _ ih ih' => exact ih.trans ih'

theorem Step.served (h : Step s s') : s.tables.forest.Served s'.tables.forest := by
  cases h with
  | change h => exact h.served
  | begins h => exact h.forest_eq ▸ .refl _
  | finishes hp h => exact h.forest_eq ▸ .refl _
  | lost hp hc outcome => exact .refl _

/-- The forest of a later session comes from the earlier one by requests alone. -/
theorem Later.served (h : Later s s') (hs : s.tables.Formed) :
    s.tables.forest.Served s'.tables.forest := by
  induction h with
  | refl => exact .refl _
  | perform h host fuel op ih =>
    obtain ⟨ending, hc⟩ := course_perform host fuel op (h.formed hs)
    exact ih.trans hc.served
  | step _ hstep ih => exact ih.trans hstep.served

/-- The forest of a session is supported. -/
theorem Later.supported {config : Config} {world : W}
    (h : Later (Session.start config world) s) : s.tables.forest.Supported := by
  obtain ⟨rs, hrs⟩ := h.served (.start config)
  rw [hrs]
  exact (Forest.supported_empty config.maxDepth).foldl_serve rs

end Session

end NameResolution
