import Mathlib.Tactic.Common
import NameResolution.Session.Decoding

/-!
# What runs are made of

Declaring, putting into scopes and making instances are made of a few changes of the tables and
notes about them (`Edits`), and loading is made of a few steps (`Loads`). The functions on names
call each other along the structure of names, and all that they do besides is to look for parts
whose signature is known (`Searches`), to ask the tables, and to fail (`Closed`). So whatever holds
of these runs, and of a run made of two if it holds of both (`Composes`), holds of every run that
puts something into a scope (`Edits.define`), loads (`Loads.forceLoad`), looks names up
(`Searches.lookup`) or reads mangled ones (`Closed.decode`).
-/

namespace NameResolution

namespace Session

variable {L T W : Type} {services : Services L T W}

/-- A property of runs that holds of what is made of such runs, and of asking for what is there. -/
structure Composes (P : ∀ {α : Type}, Run L T W α → Prop) : Prop where
  pure : ∀ {α : Type} (a : α), P (pure a : Run L T W α)
  bind : ∀ {α β : Type} {act : Run L T W α} {f : α → Run L T W β}, P act → (∀ a, P (f a)) →
    P (act >>= f)
  outOfFuel : ∀ {α : Type}, P (throw .outOfFuel : Run L T W α)
  getTables : P (getTables : Run L T W (Tables L T))
  scope : ∀ c, P (ask (·.scope c) : Run L T W (Scope L T))
  entity : ∀ e, P (ask (·.entity e) : Run L T W Entity)

/-- It holds of changing the tables, of writing the journal, which is not read, and of changing
back. -/
structure Edits (P : ∀ {α : Type}, Run L T W α → Prop) : Prop extends Composes P where
  session : ∀ {α : Type} {f : Session L T W → Run L T W α}, (∀ s, P (f s)) →
    (∀ s journal, f { s with journal } = f s) → P (get >>= f)
  typeNode : ∀ e, P (ask (·.typeNode e) : Run L T W NodeId)
  setParent : ∀ node parent,
    P (ask (·.forest.setParent node parent) : Run L T W (Option Forest.Change))
  attach : ∀ c e, P (ask (·.attach c e) : Run L T W (Tables L T))
  setTables : ∀ t, P (setTables t : Run L T W Unit)
  note : ∀ n, P (note n : Run L T W Unit)
  notified : ∀ o c e owner, P (record (.notified o c e owner) : Run L T W Unit)
  consulted : ∀ t params applies, P (record (.consulted t params applies) : Run L T W Unit)
  undoing : ∀ {α : Type} {undo : Run L T W Unit} {act : Run L T W α}, P undo → P act →
    P (undoing undo act)
  ambiguous : ∀ name count location,
    P (fail (.ambiguousTemplate name count location) : Run L T W (Option EntityId))

/-- It holds of the steps that loading is made of. -/
structure Loads (services : Services L T W) (P : ∀ {α : Type}, Run L T W α → Prop) : Prop
    extends Composes P where
  note : ∀ n, P (note n : Run L T W Unit)
  setState : ∀ c state, P (setState c state : Run L T W Unit)
  takeLoader : ∀ c, P (takeLoader c : Run L T W (Option L))
  callLoader : ∀ c loader request, P (callLoader services c loader request)
  defineAll : ∀ c ds, P (defineAll c ds : Run L T W Unit)

/-- It holds of looking for a part whose signature is known. -/
structure Searches (services : Services L T W) (P : ∀ {α : Type}, Run L T W α → Prop) : Prop
    extends Composes P where
  findSimple : ∀ c name params, P (findSimple services c name params)

/-- It holds of what templates make, and of failing. -/
structure Closed (services : Services L T W) (P : ∀ {α : Type}, Run L T W α → Prop) : Prop
    extends Searches services P where
  fail : ∀ {α : Type} (f : Failure), P (fail f : Run L T W α)
  resolveOverload : ∀ c name params location, P (resolveOverload services c name params location)

variable {P : ∀ {α : Type}, Run L T W α → Prop}

/-- To resolve a signature takes a look into the scope, and perhaps an instance. -/
theorem Composes.resolveOverload (h : Composes P) {c : ScopeId} {name : String}
    {params : List Param} {location : Location}
    (hi : ∀ ts, P (instantiate services c ts name params location)) :
    P (resolveOverload services c name params location) := by
  refine h.bind (h.scope c) fun x => ?_
  split
  · exact h.pure _
  · split
    · exact h.pure _
    · exact hi _

/-! ## Declaring -/

namespace Edits

variable (h : Edits P)

include h

theorem forM {α : Type} {event : α → Event T} (hevent : ∀ a, P (record (event a) : Run L T W Unit))
    (as : List α) : P (as.forM fun a => record (event a) : Run L T W Unit) := by
  induction as with
  | nil => exact h.pure _
  | cons a as ih => exact h.bind (hevent a) fun _ => ih

/-- To change a scope is to ask for it and to put other tables in place. -/
theorem modifyScope (c : ScopeId) (f : Scope L T → Scope L T) :
    P (modifyScope c f : Run L T W Unit) :=
  h.bind (h.scope c) fun _ => h.bind h.getTables fun _ => h.setTables _

theorem changeForest (change : Forest.Change) : P (changeForest change : Run L T W Unit) :=
  h.bind h.getTables fun _ => h.bind (h.setTables _) fun _ => h.forM h.note change.notes

theorem discard (e : EntityId) : P (discard e : Run L T W Unit) :=
  h.bind h.getTables fun _ => h.bind (h.setTables _) fun _ => h.note _

theorem release (e : EntityId) : P (release e : Run L T W Bool) := by
  refine h.bind h.getTables fun t => ?_
  split_ifs
  · exact h.bind (h.discard e) fun _ => h.pure true
  · exact h.pure false

/-- To declare is made of questions, tables and notes. -/
theorem declare (d : Declaration L) : P (declare d : Run L T W EntityId) := by
  unfold Session.declare
  extract_lets jp
  have hjp (parent : Option NodeId) : P (jp parent) := by
    refine h.bind h.getTables fun t => h.bind (h.setTables _) fun _ => ?_
    extract_lets jp'
    have hjp' : P (jp' ()) :=
      h.bind (h.entity _) fun x => h.bind (h.note _) fun _ => h.pure _
    cases parent with
    | none => exact hjp'
    | some parent =>
      refine h.bind (h.undoing (h.discard _) ?_) fun _ => hjp'
      refine h.bind (h.typeNode _) fun node => h.bind (h.setParent _ _) fun change => ?_
      split
      · exact h.changeForest _
      · exact h.pure _
  split
  · rw [map_eq_pure_bind]
    exact h.bind (h.bind (h.typeNode _) fun _ => h.pure _) hjp
  · exact hjp none

theorem notifyAdded (c : ScopeId) (e : EntityId) : P (notifyAdded c e : Run L T W Unit) := by
  refine h.session (fun s => ?_) fun s journal => rfl
  exact h.bind (h.modifyScope c _) fun _ => h.bind h.getTables fun _ => h.bind (h.scope c) fun x =>
    h.forM (fun _ => h.notified _ _ _ _) x.observers

theorem add (c : ScopeId) (e : EntityId) : P (add c e : Run L T W Unit) :=
  h.bind (h.attach c e) fun _ => h.bind (h.setTables _) fun _ => h.notifyAdded c e

theorem define (c : ScopeId) (d : Declaration L) : P (define c d : Run L T W EntityId) :=
  h.bind (h.declare d) fun e => h.bind (h.undoing (h.discard e) (h.add c e)) fun _ => h.pure e

/-! ## Instances -/

theorem consult (services : Services L T W) (params : List Param) (ts : List T) :
    P (consult services params ts) := by
  induction ts with
  | nil => exact h.pure _
  | cons t ts ih =>
    refine h.session (fun s => ?_) fun s journal => rfl
    exact h.bind (h.consulted _ _ _) fun _ => h.bind ih fun _ => h.pure _

/-- To make an instance is to consult the templates, to declare and perhaps to add. -/
theorem instantiate (services : Services L T W) (c : ScopeId) (ts : List T) (name : String)
    (params : List Param) (location : Location) :
    P (instantiate services c ts name params location) := by
  refine h.bind (h.consult services params ts) fun ds => ?_
  split
  · exact h.pure _
  · refine h.bind (h.declare _) fun e => h.bind h.getTables fun t => ?_
    extract_lets jp
    have hjp : P (jp ()) :=
      h.bind h.getTables fun _ => h.bind (h.note _) fun _ => h.pure _
    split_ifs
    · exact h.bind (h.undoing (h.discard e) (h.add c e)) fun _ => hjp
    · exact hjp
  · exact h.ambiguous _ _ _

theorem resolveOverload (services : Services L T W) (c : ScopeId) (name : String)
    (params : List Param) (location : Location) :
    P (resolveOverload services c name params location) :=
  h.toComposes.resolveOverload fun ts => h.instantiate services c ts name params location

/-! ## Loading -/

theorem takeLoader (c : ScopeId) : P (takeLoader c : Run L T W (Option L)) :=
  h.bind (h.scope c) fun _ => h.bind (h.modifyScope c _) fun _ => h.pure _

/-- To load is to edit, to call loaders and to define what they return. -/
theorem loads (hcall : ∀ c loader request, P (callLoader services c loader request))
    (hdefine : ∀ c ds, P (defineAll c ds : Run L T W Unit)) : Loads services P where
  toComposes := h.toComposes
  note := h.note
  setState c _ := h.modifyScope c _
  takeLoader := h.takeLoader
  callLoader := hcall
  defineAll := hdefine

end Edits

theorem Loads.loadPart (h : Loads services P) (c : ScopeId) (part : NamePart) :
    P (loadPart services c part) := by
  refine h.bind h.getTables fun t => ?_
  split_ifs
  · refine h.bind (h.takeLoader c) fun loader => ?_
    cases loader with
    | none => exact h.pure _
    | some loader =>
      refine h.bind (h.note _) fun _ => h.bind (h.callLoader c loader _) fun reply => ?_
      cases reply with
      | done => exact h.pure _
      | notReady => exact h.pure _
      | batch ds => exact h.defineAll c ds
  · exact h.pure _

theorem Loads.forceLoad (h : Loads services P) (c : ScopeId) : P (forceLoad services c) := by
  refine h.bind (h.scope c) fun x => ?_
  extract_lets path
  have hpath : P path := h.bind h.getTables fun _ => h.pure _
  have hend (state : LoadState) (n : String → Note) :
      P (do Session.setState c state; Session.note (n (← path)) : Run L T W Unit) :=
    h.bind (h.setState c state) fun _ => h.bind hpath fun _ => h.note _
  split
  · exact h.pure _
  · exact h.bind hpath fun _ => h.note _
  · refine h.bind (h.takeLoader c) fun loader => ?_
    cases loader with
    | none => exact h.setState c _
    | some loader =>
      refine h.bind hpath fun _ => h.bind (h.note _) fun _ => h.bind (h.setState c _) fun _ =>
        h.bind (h.callLoader c loader none) fun reply => ?_
      cases reply with
      | done => exact hend _ _
      | notReady => exact hend _ _
      | batch ds => exact h.bind (h.setState c _) fun _ => h.defineAll c ds

/-- To find a part is to resolve it between loads. -/
theorem Composes.findSimple (h : Composes P) {c : ScopeId} {name : String} {params : List Param}
    (hr : P (Session.resolveOverload services c name params .unknown))
    (hp : ∀ part, P (loadPart services c part)) (hf : P (forceLoad services c)) :
    P (findSimple services c name params) := by
  refine h.bind hr fun found => ?_
  split
  · exact h.pure _
  · refine h.bind (h.scope c) fun x => ?_
    split_ifs
    · exact h.pure _
    · refine h.bind (hp _) fun _ => h.bind hr fun found => ?_
      split
      · exact h.pure _
      · exact h.bind hf fun _ => hr

/-! ## Names -/

theorem Composes.climb (h : Composes P) {look : ScopeId → Run L T W (Option EntityId)}
    (hl : ∀ c, P (look c)) (steps : Nat) (c : ScopeId) : P (climb look steps c) := by
  induction steps generalizing c with
  | zero => exact h.outOfFuel
  | succ steps ih =>
    refine h.bind (hl c) fun found => ?_
    split
    · exact h.pure _
    · refine h.bind (h.scope c) fun x => h.bind h.getTables fun t => ?_
      split
      · exact ih _
      · exact h.pure _

namespace Searches

variable (h : Searches services P)

include h

theorem findWith {c : ScopeId} {signature : Run L T W (Option (String × List Param))}
    (hs : P signature) : P (findWith services c signature) := by
  refine h.bind hs fun found => ?_
  split
  · exact h.findSimple c _ _
  · exact h.pure _

mutual

/-- The signature of a part is found along the structure of names. -/
theorem signature : ∀ (p : NamePart) (c : ScopeId), P (signature services p c)
  | .simple text params, c => h.pure _
  | .pattern text arguments, c => by
    unfold Session.signature
    refine h.bind (argumentParams arguments c) fun found => ?_
    split
    · exact h.pure _
    · exact h.pure _

theorem argumentParams :
    ∀ (ns : List (List NamePart)) (c : ScopeId), P (argumentParams services ns c)
  | [], c => h.pure _
  | n :: ns, c => by
    unfold Session.argumentParams
    refine h.bind (h.climb (findName n) services.reach c) fun found => ?_
    split
    · exact h.pure _
    · refine h.bind (argumentParams ns c) fun found => ?_
      split
      · exact h.pure _
      · exact h.pure _

/-- A name is followed along the structure of names. -/
theorem findName : ∀ (n : List NamePart) (c : ScopeId), P (findName services n c)
  | [], c => by
    unfold Session.findName
    exact h.bind (h.scope c) fun _ => h.pure _
  | p :: ps, c => by
    unfold Session.findName
    refine h.bind (h.scope c) fun _ => h.bind (h.findWith (signature p c)) fun found => ?_
    split
    · exact findBelow ps _
    · exact h.pure _

theorem findBelow : ∀ (ps : List NamePart) (e : EntityId), P (findBelow services ps e)
  | [], e => h.pure _
  | p :: ps, e => by
    unfold Session.findBelow
    refine h.bind (h.entity e) fun x => ?_
    split
    · exact h.pure _
    · refine h.bind (h.findWith (signature p _)) fun found => ?_
      split
      · exact findBelow ps _
      · exact h.pure _

end

theorem find (c : ScopeId) (p : NamePart) : P (find services c p) :=
  h.findWith (h.signature p c)

theorem lookup (c : ScopeId) (n : QualifiedName) : P (lookup services c n) :=
  h.climb (h.findName n) services.reach c

theorem findInFirst (p : NamePart) (es : List EntityId) : P (findInFirst services p es) := by
  induction es with
  | nil => exact h.pure _
  | cons e es ih =>
    refine h.bind h.getTables fun t => ?_
    split
    · exact ih
    · refine h.bind (h.find _ p) fun found => ?_
      split
      · exact h.pure _
      · exact ih

end Searches

/-! ## Names to be found -/

namespace Closed

variable (h : Closed services P)

include h

theorem tryFind (c : ScopeId) (p : NamePart) : P (tryFind services c p) := by
  refine h.bind (h.signature p c) fun found => ?_
  split
  · exact h.resolveOverload c _ _ _
  · exact h.pure _

theorem require (c : ScopeId) (n : QualifiedName) (location : Location) :
    P (require services c n location) := by
  refine h.bind (h.lookup c n) fun found => ?_
  split
  · exact h.pure _
  · exact h.fail _

/-! ## Mangled names -/

theorem findNamed (c : ScopeId) (n : QualifiedName) : P (findNamed services c n) := by
  refine h.bind (h.findName n c) fun found => ?_
  split
  · exact h.pure _
  · exact h.fail _

/-- To read a mangled name is to look up the paths of its parameters. -/
theorem readFrom (text : String) (cs : List Char) (offset : Nat) (state : Mangled.State) :
    P (readFrom services text cs offset state) := by
  induction cs generalizing offset state with
  | nil =>
    unfold Session.readFrom
    split
    · exact h.pure _
    · exact h.fail _
  | cons c cs ih =>
    unfold Session.readFrom
    split
    · exact ih _ _
    · exact h.bind (h.findNamed rootScope _) fun e => ih _ _
    · exact h.fail _

theorem readMangled (text : String) : P (readMangled services text) := by
  unfold Session.readMangled
  split_ifs
  · exact h.pure _
  · exact h.readFrom text _ _ _

/-- To decode a name is to read it and to require it. -/
theorem decode (c : ScopeId) (text : String) : P (decode services c text) :=
  h.bind (h.readMangled text) fun n => h.findNamed c n

end Closed

end Session

end NameResolution
