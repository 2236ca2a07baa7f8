import Crest.Runs
import Mathlib.Data.Nat.Basic
import Mathlib.Order.Basic

/-!
# The renderer's cache of stored objects

Each object has a cache entry with an atom that five writers set: update
events compare versions, primed values compare them the other way, and the two
kinds of responses do not compare at all.  The server is a version that grows
by one with each write and may end in a deletion; a response carries the state
of some moment since its request, and events come in any order and more than
once.

`Inv` relates an entry to the server and to the events delivered so far.  A
step is `Timely` when what it would write is not older than what the entry
holds; with such steps alone the cache never goes back.
-/

namespace WaveObjectStore

variable {δ : Type*}

/-- A stored object: its version and the rest of it. -/
structure WaveObj (δ : Type*) where
  version : Nat
  data : δ

structure DataItem (δ : Type*) where
  value : Option (WaveObj δ)
  loading : Bool

/-- A cache entry; a promise is known by the number of its request. -/
structure WaveObjectValue (δ : Type*) where
  pendingPromise : Option Nat
  dataAtom : DataItem δ

/-- A `GetObject` under way, with the server's state when it was sent. -/
structure Request where
  id : Nat
  creation : Bool
  version : Nat
  deleted : Bool
deriving DecidableEq

inductive WaveObjUpdate where
  | update (version : Nat)
  | delete

/-- One object: the server's side, the cache's entry and what is under way.
`delivered` lists the events the cache has been given. -/
structure System (δ : Type*) where
  first : Nat
  data : Nat → δ
  version : Nat
  deleted : Bool
  entry : Option (WaveObjectValue δ)
  requests : List Request
  nextRequest : Nat
  delivered : List WaveObjUpdate

namespace System

/-- The object as the server has it at a version. -/
def written (s : System δ) (version : Nat) : WaveObj δ := ⟨version, s.data version⟩

/-- The server's state, `none` after the deletion. -/
def latest (s : System δ) : Option (WaveObj δ) :=
  if s.deleted then none else some (s.written s.version)

/-- `globalStore.set(wov.dataAtom, { value, loading: false })`. -/
def setAtom (value : Option (WaveObj δ)) (s : System δ) : System δ :=
  { s with entry := s.entry.map fun wov => { wov with dataAtom := ⟨value, false⟩ } }

def getObject (creation : Bool) (s : System δ) : System δ :=
  { s with
    requests := ⟨s.nextRequest, creation, s.version, s.deleted⟩ :: s.requests
    nextRequest := s.nextRequest + 1 }

/-- `createWaveValueObject`, with the entry put into the cache. -/
def createWaveValueObject (shouldFetch : Bool) (s : System δ) : System δ :=
  let wov : WaveObjectValue δ :=
    ⟨if shouldFetch then some s.nextRequest else none, ⟨none, true⟩⟩
  { (if shouldFetch then s.getObject true else s) with entry := some wov }

def getOrCreateWaveObjectValue (shouldFetch : Bool) (s : System δ) : System δ :=
  if s.entry.isSome then s else s.createWaveValueObject shouldFetch

def reloadWaveObject (s : System δ) : System δ :=
  if s.entry.isSome then s.getObject false else s.createWaveValueObject true

/-- What the atom shows, when there is an entry. -/
def view (s : System δ) : Option (DataItem δ) := s.entry.map (·.dataAtom)

/-- The version the atom holds. -/
def held (s : System δ) : Option Nat := (s.view.bind (·.value)).map (·.version)

def updateWaveObject (update : WaveObjUpdate) (s : System δ) : System δ :=
  let s := s.getOrCreateWaveObjectValue true
  match update with
  | .delete => s.setAtom none
  | .update version =>
    -- `isValidWaveObj` asks for a version that is not blank
    if version = 0 then s
    else if s.held.any (version ≤ ·) then s
    else s.setAtom (some (s.written version))

def primeWaveObject (version : Nat) (s : System δ) : System δ :=
  let s := s.getOrCreateWaveObjectValue false
  if s.held.any (version < ·) then s else s.setAtom (some (s.written version))

/-- The callbacks of the two kinds of `GetObject`. -/
def resolve (request : Request) (value : Option (WaveObj δ)) (s : System δ) : System δ :=
  if request.creation then
    if s.entry.bind (·.pendingPromise) ≠ some request.id then s
    else
      setAtom value
        { s with entry := s.entry.map fun wov => { wov with pendingPromise := none } }
  else s.setAtom value

end System

inductive Event where
  | write
  | delete
  | create (shouldFetch : Bool)
  | reload
  | prime (version : Nat)
  | deliver (update : WaveObjUpdate)
  /-- A response with the state at a version, or with the deletion. -/
  | respond (request : Request) (version : Option Nat)

/-- The updates an event delivers. -/
def Event.updates : Event → List WaveObjUpdate
  | .deliver update => [update]
  | _ => []

namespace System

/-- What the surroundings may do: values and events are of versions the server
has had, and a response is of a moment since its request. -/
def Enabled (s : System δ) : Event → Prop
  | .write | .delete => s.deleted = false
  | .create _ | .reload => True
  | .prime version => s.first ≤ version ∧ version ≤ s.version
  | .deliver (.update version) => s.first ≤ version ∧ version ≤ s.version
  | .deliver .delete => s.deleted = true
  | .respond request (some version) =>
    request ∈ s.requests ∧ request.deleted = false ∧
      request.version ≤ version ∧ version ≤ s.version
  | .respond request none => request ∈ s.requests ∧ s.deleted = true

def step (s : System δ) : Event → System δ
  | .write => { s with version := s.version + 1 }
  | .delete => { s with deleted := true }
  | .create shouldFetch => s.getOrCreateWaveObjectValue shouldFetch
  | .reload => s.reloadWaveObject
  | .prime version => s.primeWaveObject version
  | .deliver update =>
    { s.updateWaveObject update with delivered := update :: s.delivered }
  | .respond request version =>
    resolve request (version.map s.written)
      { s with requests := s.requests.filter (·.id ≠ request.id) }

/-- The entry holds nothing, and knows that there is nothing. -/
def KnownDeleted (s : System δ) : Prop := s.view = some ⟨none, false⟩

/-- What the step would write is not older than what the entry holds. -/
def Timely (s : System δ) : Event → Prop
  | .prime _ | .deliver (.update _) => ¬ s.KnownDeleted
  | .respond _ (some version) => ¬ s.KnownDeleted ∧ ∀ held ∈ s.held, held ≤ version
  | _ => True

/-! ## What a step writes -/

@[simp] theorem view_setAtom (value : Option (WaveObj δ)) (s : System δ) :
    (s.setAtom value).view = s.view.map fun _ => ⟨value, false⟩ := by
  simp [view, setAtom, Function.comp_def]

@[simp] theorem view_getOrCreate (shouldFetch : Bool) (s : System δ) :
    (s.getOrCreateWaveObjectValue shouldFetch).view = some (s.view.getD ⟨none, true⟩) := by
  rw [getOrCreateWaveObjectValue]
  cases hentry : s.entry <;> simp [view, hentry, createWaveValueObject]

/-- The five ways in which a timely step changes what the atom shows. -/
inductive Effect (s : System δ) : Option (DataItem δ) → Prop
  | same : Effect s s.view
  | created (hnone : s.view = none) : Effect s (some ⟨none, true⟩)
  | stored {version : Nat} (hfirst : s.first ≤ version) (hle : version ≤ s.version)
      (halive : ¬ s.KnownDeleted) (hheld : ∀ held ∈ s.held, held ≤ version) :
      Effect s (some ⟨some (s.written version), false⟩)
  | removed (hdeleted : s.deleted = true) : Effect s (some ⟨none, false⟩)

theorem effect_getOrCreate (s : System δ) : Effect s (some (s.view.getD ⟨none, true⟩)) := by
  cases hview : s.view with
  | none => exact .created hview
  | some item =>
    rw [Option.getD_some, ← hview]
    exact .same

theorem effect_compared
    {s t : System δ} {version : Nat} {skip : Nat → Bool}
    (hview : t.view = some (s.view.getD ⟨none, true⟩)) (hwritten : t.written = s.written)
    (hskip : ∀ held, skip held = false → held ≤ version)
    (hfirst : s.first ≤ version) (hle : version ≤ s.version) (halive : ¬ s.KnownDeleted) :
    Effect s (if t.held.any skip then t else t.setAtom (some (t.written version))).view := by
  have hheld : t.held = s.held := by
    rw [held, held, hview]
    cases s.view <;> rfl
  split
  · rw [hview]
    exact effect_getOrCreate s
  · next hnot =>
    rw [view_setAtom, hview, hwritten]
    refine .stored hfirst hle halive fun held hmem => hskip held ?_
    rw [hheld, Option.mem_def.mp hmem] at hnot
    simpa using hnot

variable {s : System δ}

theorem written_getOrCreate (shouldFetch : Bool) :
    (s.getOrCreateWaveObjectValue shouldFetch).written = s.written := by
  rw [getOrCreateWaveObjectValue, createWaveValueObject]
  split_ifs <;> rfl

theorem view_resolve (request : Request) (value : Option (WaveObj δ)) :
    (resolve request value s).view = s.view ∨
      (resolve request value s).view = s.view.map fun _ => ⟨value, false⟩ := by
  rw [resolve]
  split
  · split
    · exact .inl rfl
    · refine .inr ?_
      simp [view, setAtom, Function.comp_def]
  · exact .inr (view_setAtom value s)

theorem effect_resolve
    {t : System δ} {request : Request} {value : Option (WaveObj δ)}
    (hview : t.view = s.view) (hset : Effect s (some ⟨value, false⟩)) :
    Effect s (resolve request value t).view := by
  rcases @view_resolve δ t request value with hsame | hmap
  · rw [hsame, hview]
    exact .same
  · rw [hmap, hview]
    cases hnone : s.view with
    | none =>
      have hsame := @Effect.same δ s
      rwa [hnone] at hsame
    | some item => exact hset

theorem known_of_delete : (s.step (.deliver .delete)).KnownDeleted := by
  change (setAtom none (s.getOrCreateWaveObjectValue true)).view = _
  rw [view_setAtom, view_getOrCreate, Option.map_some]

/-- **What a timely step does to the atom.** -/
theorem effect_step
    {e : Event} (hfirst : 0 < s.first) (hrequests : ∀ r ∈ s.requests, s.first ≤ r.version)
    (henabled : s.Enabled e) (htimely : s.Timely e) :
    Effect s (s.step e).view := by
  cases e with
  | write | delete => exact .same
  | create shouldFetch =>
    rw [step, view_getOrCreate]
    exact effect_getOrCreate s
  | reload =>
    rw [step, reloadWaveObject]
    split
    · exact .same
    · next hnone =>
      rw [Option.not_isSome_iff_eq_none] at hnone
      exact .created (by rw [view, hnone, Option.map_none])
  | prime version =>
    exact effect_compared (view_getOrCreate false s) (written_getOrCreate false)
      (fun held hskip => by simpa using hskip) henabled.1 henabled.2 htimely
  | deliver update =>
    cases update with
    | delete =>
      rw [known_of_delete]
      exact .removed henabled
    | update version =>
      have hsome : version ≠ 0 := fun hzero => by
        have := henabled.1
        omega
      change Effect s (updateWaveObject (.update version) s).view
      simp only [updateWaveObject, if_neg hsome]
      exact effect_compared (view_getOrCreate true s) (written_getOrCreate true)
        (fun held hskip => by simp at hskip; omega) henabled.1 henabled.2 htimely
  | respond request version =>
    rw [step]
    cases version with
    | none => exact effect_resolve rfl (.removed henabled.2)
    | some version =>
      obtain ⟨hmem, -, hsince, hle⟩ := henabled
      exact effect_resolve rfl
        (.stored (Nat.le_trans (hrequests request hmem) hsince) hle htimely.1 htimely.2)

/-! ## The invariant -/

/-- The entry against the server and the events delivered so far. -/
structure Inv (s : System δ) : Prop where
  first : 0 < s.first
  range : s.first ≤ s.version
  requests : ∀ r ∈ s.requests, s.first ≤ r.version
  value : ∀ item ∈ s.view, ∀ obj ∈ item.value,
    obj = s.written obj.version ∧ s.first ≤ obj.version ∧ obj.version ≤ s.version
  gone : s.KnownDeleted → s.deleted = true
  null : ∀ item ∈ s.view, item.value = none → item.loading = true ∨ s.KnownDeleted
  seen : ∀ version, .update version ∈ s.delivered →
    s.KnownDeleted ∨ ∃ held ∈ s.held, version ≤ held
  seenDelete : .delete ∈ s.delivered → s.KnownDeleted

/-- The cache does not go back: the version held does not decrease unless the
object is gone, and what is known to be gone stays so. -/
structure Forward (s t : System δ) : Prop where
  held : ∀ held ∈ s.held, t.KnownDeleted ∨ ∃ held' ∈ t.held, held ≤ held'
  gone : s.KnownDeleted → t.KnownDeleted

theorem Effect.forward
    {t : System δ} (heffect : Effect s t.view) : Forward s t := by
  generalize hview : t.view = view at heffect
  cases heffect with
  | same =>
    refine ⟨fun held hheld => .inr ⟨held, ?_, Nat.le_refl _⟩, hview.trans⟩
    rwa [System.held, hview]
  | created hnone =>
    constructor
    · intro held hheld
      simp [System.held, hnone] at hheld
    · intro hgone
      rw [KnownDeleted, hnone] at hgone
      cases hgone
  | @stored version hfirst hle halive hheld =>
    refine ⟨fun held hmem => .inr ⟨version, ?_, hheld held hmem⟩, fun hgone => absurd hgone halive⟩
    rw [System.held, hview]
    rfl
  | removed hdeleted => exact ⟨fun _ _ => .inl hview, fun _ => hview⟩

/-- What a step leaves alone: the server only moves on, new requests are of
now, and `extra` is what was delivered. -/
structure Frame (extra : List WaveObjUpdate) (s t : System δ) : Prop where
  first : t.first = s.first
  data : t.data = s.data
  version : s.version ≤ t.version
  deleted : s.deleted = true → t.deleted = true
  requests : ∀ r ∈ t.requests, r ∈ s.requests ∨ r.version = s.version
  delivered : ∀ update ∈ t.delivered, update ∈ s.delivered ∨ update ∈ extra

theorem frame_create (shouldFetch : Bool) : Frame [] s (s.createWaveValueObject shouldFetch) := by
  cases shouldFetch with
  | false => exact ⟨rfl, rfl, Nat.le_refl _, id, fun _ => .inl, fun _ => .inl⟩
  | true =>
    refine ⟨rfl, rfl, Nat.le_refl _, id, fun r hr => ?_, fun _ => .inl⟩
    rcases List.mem_cons.mp hr with rfl | hr
    · exact .inr rfl
    · exact .inl hr

theorem frame_getOrCreate (shouldFetch : Bool) :
    Frame [] s (s.getOrCreateWaveObjectValue shouldFetch) := by
  rw [getOrCreateWaveObjectValue]
  split
  · exact ⟨rfl, rfl, Nat.le_refl _, id, fun _ => .inl, fun _ => .inl⟩
  · exact frame_create shouldFetch

theorem Frame.setAtom
    {t : System δ} {extra : List WaveObjUpdate} (h : Frame extra s t)
    (value : Option (WaveObj δ)) : Frame extra s (t.setAtom value) :=
  ⟨h.first, h.data, h.version, h.deleted, h.requests, h.delivered⟩

theorem frame_step (e : Event) : Frame e.updates s (s.step e) := by
  cases e with
  | write => exact ⟨rfl, rfl, Nat.le_succ _, id, fun _ => .inl, fun _ => .inl⟩
  | delete => exact ⟨rfl, rfl, Nat.le_refl _, fun _ => rfl, fun _ => .inl, fun _ => .inl⟩
  | create shouldFetch => exact frame_getOrCreate shouldFetch
  | reload =>
    rw [step, reloadWaveObject]
    split
    · refine ⟨rfl, rfl, Nat.le_refl _, id, fun r hr => ?_, fun _ => .inl⟩
      rcases List.mem_cons.mp hr with rfl | hr
      · exact .inr rfl
      · exact .inl hr
    · exact frame_create true
  | prime version =>
    simp only [step, primeWaveObject]
    split
    · exact frame_getOrCreate false
    · exact (frame_getOrCreate false).setAtom _
  | deliver update =>
    have h : Frame [] s (s.updateWaveObject update) := by
      have hget := @frame_getOrCreate δ s true
      cases update with
      | delete => exact hget.setAtom none
      | update version =>
        simp only [updateWaveObject]
        split
        · exact hget
        · split
          · exact hget
          · exact hget.setAtom _
    refine ⟨h.first, h.data, h.version, h.deleted, h.requests, fun other hother => ?_⟩
    rcases List.mem_cons.mp hother with rfl | hother
    · exact .inr (List.mem_singleton.mpr rfl)
    · exact .inl hother
  | respond request version =>
    have h : Frame [] s { s with requests := s.requests.filter (·.id ≠ request.id) } :=
      ⟨rfl, rfl, Nat.le_refl _, id, fun _ hr => .inl (List.mem_of_mem_filter hr), fun _ => .inl⟩
    rw [step, resolve]
    split
    · split
      · exact h
      · exact ⟨h.first, h.data, h.version, h.deleted, h.requests, h.delivered⟩
    · exact h.setAtom _

theorem held_of_update
    {version : Nat} (hsome : version ≠ 0) :
    ∃ held ∈ (s.step (.deliver (.update version))).held, version ≤ held := by
  change ∃ held ∈ (updateWaveObject (.update version) s).held, version ≤ held
  simp only [updateWaveObject, if_neg hsome]
  split
  · next hheld => simpa [Option.any_eq_true] using hheld
  · refine ⟨version, ?_, Nat.le_refl _⟩
    rw [held, view_setAtom, view_getOrCreate]
    rfl

/-- **A timely step keeps the invariant.** -/
theorem Inv.step
    {e : Event} (h : Inv s) (henabled : s.Enabled e) (htimely : s.Timely e) :
    Inv (s.step e) := by
  have heffect := effect_step h.first h.requests henabled htimely
  have hforward := heffect.forward
  have hframe := @frame_step δ s e
  have hwritten : (s.step e).written = s.written := by
    funext version
    rw [System.written, System.written, hframe.data]
  have hold : ∀ update, update ∈ (s.step e).delivered →
      update ∈ s.delivered ∨ e = .deliver update := by
    intro update hmem
    refine (hframe.delivered update hmem).imp_right fun hextra => ?_
    cases e with
    | deliver other => rw [List.mem_singleton.mp hextra]
    | _ => cases hextra
  refine ⟨hframe.first ▸ h.first, hframe.first ▸ h.range.trans hframe.version, ?_, ?_, ?_, ?_, ?_,
    ?_⟩
  · intro r hr
    rw [hframe.first]
    rcases hframe.requests r hr with hr | hr
    · exact h.requests r hr
    · exact hr ▸ h.range
  · rw [hwritten, hframe.first]
    have hversion := hframe.version
    generalize (s.step e).view = view at heffect
    intro item hitem obj hobj
    cases heffect with
    | same =>
      obtain ⟨heq, hfirst, hle⟩ := h.value item hitem obj hobj
      exact ⟨heq, hfirst, hle.trans hversion⟩
    | created | removed => cases hitem; cases hobj
    | stored hfirst hle =>
      cases hitem
      cases hobj
      exact ⟨rfl, hfirst, hle.trans hversion⟩
  · intro hgone
    refine hframe.deleted ?_
    rw [KnownDeleted] at hgone
    rw [hgone] at heffect
    generalize hview : (some ⟨none, false⟩ : Option (DataItem δ)) = view at heffect
    cases heffect with
    | same => exact h.gone hview.symm
    | created | stored => cases hview
    | removed hdeleted => exact hdeleted
  · intro item hitem hnull
    generalize hview : (s.step e).view = view at heffect hitem
    cases heffect with
    | same => exact (h.null item hitem hnull).imp_right hforward.gone
    | created => cases hitem; exact .inl rfl
    | stored => cases hitem; cases hnull
    | removed => exact .inr hview
  · intro version hmem
    rcases hold _ hmem with hmem | rfl
    · rcases h.seen version hmem with hgone | ⟨held, hheld, hle⟩
      · exact .inl (hforward.gone hgone)
      · exact (hforward.held held hheld).imp_right fun ⟨held', hheld', hle'⟩ =>
          ⟨held', hheld', hle.trans hle'⟩
    · have hfirst := h.first
      have hle := henabled.1
      exact .inr (held_of_update (by omega))
  · intro hmem
    rcases hold _ hmem with hmem | rfl
    · exact hforward.gone (h.seenDelete hmem)
    · exact known_of_delete

end System

/-! ## Runs over many objects -/

/-- A new window: the server has a version of the object, the cache nothing. -/
def start (firstVersion : Nat) (data : Nat → δ) : System δ where
  first := firstVersion + 1
  data
  version := firstVersion + 1
  deleted := false
  entry := none
  requests := []
  nextRequest := 0
  delivered := []

variable {ι : Type*} [DecidableEq ι]

/-- One step at one object. -/
def stepAt (objects : ι → System δ) (event : ι × Event) : ι → System δ :=
  Function.update objects event.1 ((objects event.1).step event.2)

/-- What is promised of an object's entry: no step goes back, and once every
event was delivered the entry shows the server's state, when a value has
arrived at all. -/
structure InOrder (s : System δ) : Prop where
  forward : ∀ e, s.Enabled e → s.Timely e → s.Forward (s.step e)
  settled : (∀ version, s.first < version → version ≤ s.version →
      .update version ∈ s.delivered) →
    (s.deleted = true → .delete ∈ s.delivered) →
    ∀ wov, s.entry = some wov → wov.dataAtom.loading = false → wov.dataAtom.value = s.latest

theorem System.Inv.inOrder
    {s : System δ} (h : s.Inv) : InOrder s := by
  refine ⟨fun e henabled htimely => (System.effect_step h.first h.requests henabled
    htimely).forward, fun hall hdelete wov hentry hloaded => ?_⟩
  have hview : s.view = some wov.dataAtom := by rw [System.view, hentry, Option.map_some]
  have hitem : wov.dataAtom ∈ s.view := hview
  by_cases hdeleted : s.deleted = true
  · have hgone := h.seenDelete (hdelete hdeleted)
    rw [System.KnownDeleted, hview, Option.some.injEq] at hgone
    rw [System.latest, if_pos hdeleted, hgone]
  · rw [System.latest, if_neg hdeleted]
    have halive : ¬ s.KnownDeleted := fun hgone => hdeleted (h.gone hgone)
    cases hvalue : wov.dataAtom.value with
    | none =>
      rcases h.null _ hitem hvalue with hloading | hgone
      · rw [hloaded] at hloading
        cases hloading
      · exact absurd hgone halive
    | some obj =>
      obtain ⟨heq, hfirst, hle⟩ := h.value _ hitem obj hvalue
      have hlast : s.version ≤ obj.version := by
        rcases Nat.lt_or_ge s.first s.version with hmore | hnone
        · obtain ⟨held, hheld, hle⟩ :=
            (h.seen s.version (hall s.version hmore (le_refl _))).resolve_left halive
          rw [System.held, hview, Option.bind_some, hvalue] at hheld
          cases hheld
          exact hle
        · exact hnone.trans hfirst
      rw [heq, le_antisymm hle hlast]

end WaveObjectStore
