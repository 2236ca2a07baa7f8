import Crest.ChangeFeed

/-!
# What a complete drain stands for

The reference reads only the history: which subscription was requested last, what the
watcher has delivered for it since the last complete drain, and whether everything that was
delivered for it could be kept.  The invariant says that the feed's set of paths is that of
the reference for as long as no reason for a gap is noted.
-/

namespace WorkspaceChangeFeed

open JsString

/-! ## The reference -/

/-- The path that an event adds: not the workspace root, not the repository's own directory,
and a path below the workspace. -/
def changedPath (workspaceRoot : JsString) (event : WorkspaceChangeEvent) : Option JsString :=
  if event.path = workspaceRoot ∧ event.type ≠ .delete then none
  else
    match normalizeEventPath workspaceRoot event.path with
    | none => none
    | some path => if isGitPath path then none else some path

/-- An event that no path can be made of.  The deletion of the workspace root is one. -/
def Unsafe (workspaceRoot : JsString) (event : WorkspaceChangeEvent) : Prop :=
  ¬ (event.path = workspaceRoot ∧ event.type ≠ .delete) ∧
    normalizeEventPath workspaceRoot event.path = none

/-- The subscription that was requested last. -/
def current : List Happening → Option Nat
  | [] => none
  | .requested generation :: _ => some generation
  | _ :: before => current before

/-- Whether the start of a generation has succeeded since the last request. -/
def succeeded (generation : Nat) : List Happening → Bool
  | [] => false
  | .requested _ :: _ => false
  | .started other :: before => other = generation || succeeded generation before
  | _ :: before => succeeded generation before

/-- The events of a generation since the last complete drain, or since the last request. -/
def window (generation : Nat) : List Happening → List WorkspaceChangeEvent
  | [] => []
  | .requested _ :: _ => []
  | .drained (.complete _) :: _ => []
  | .delivered other _ events :: before =>
    if other = generation then window generation before ++ events else window generation before
  | _ :: before => window generation before

/-- No more different paths than the feed can keep. -/
def Fits (o : Options) (events : List WorkspaceChangeEvent) : Prop :=
  ∀ paths : List JsString, paths.Nodup →
    (∀ path ∈ paths, ∃ event ∈ events, changedPath o.workspaceRoot event = some path) →
    paths.length ≤ o.callbackPathCapacity

/-- Since the last request, nothing that was delivered for the generation was an error, none
of its events was unsafe, and there were never too many paths. -/
def Flawless (o : Options) (generation : Nat) : List Happening → Prop
  | [] => True
  | .requested _ :: _ => True
  | .delivered other error events :: before =>
    Flawless o generation before ∧
      (other = generation → error = false ∧
        (∀ event ∈ events, ¬ Unsafe o.workspaceRoot event) ∧
        Fits o (window generation before ++ events))
  | _ :: before => Flawless o generation before

/-- What a complete drain is to say: exactly the paths of the events that the current
subscription has delivered since the previous complete drain, or since it was requested;
and its start has succeeded, and nothing has gone wrong with it. -/
structure Exact (o : Options) (before : List Happening) (changedPaths : List JsString)
    (generation : Nat) : Prop where
  current : current before = some generation
  succeeded : succeeded generation before = true
  flawless : Flawless o generation before
  nodup : changedPaths.Nodup
  paths : ∀ path, path ∈ changedPaths ↔
    ∃ event ∈ window generation before, changedPath o.workspaceRoot event = some path

/-! ## Events added -/

/-- The set of paths is that of the events: what `Set` keeps of them. -/
structure Tracks (o : Options) (callbackPaths : List JsString)
    (events : List WorkspaceChangeEvent) : Prop where
  nodup : callbackPaths.Nodup
  fits : callbackPaths.length ≤ o.callbackPathCapacity
  paths : ∀ path, path ∈ callbackPaths ↔
    ∃ event ∈ events, changedPath o.workspaceRoot event = some path

variable {callbackPaths : List JsString} {events : List WorkspaceChangeEvent} {o : Options}

theorem Tracks.fits_events (h : Tracks o callbackPaths events) :
    Fits o events := by
  intro paths hnodup hpaths
  have hsub : paths ⊆ callbackPaths := fun path hpath => (h.paths path).mpr (hpaths path hpath)
  exact ((List.subperm_of_subset hnodup hsub).length_le).trans h.fits

theorem Tracks.nil (o : Options) : Tracks o [] [] := by
  refine ⟨List.nodup_nil, Nat.zero_le _, fun path => ⟨fun h => (List.not_mem_nil h).elim, ?_⟩⟩
  intro h
  obtain ⟨event, hevent, -⟩ := h
  cases hevent

theorem Tracks.skip (h : Tracks o callbackPaths events) {event : WorkspaceChangeEvent}
    (hevent : ∀ path, changedPath o.workspaceRoot event = some path → path ∈ callbackPaths) :
    Tracks o callbackPaths (events ++ [event]) := by
  refine ⟨h.nodup, h.fits, fun path => ?_⟩
  rw [h.paths path]
  constructor
  · intro hold
    obtain ⟨old, hmem, hpath⟩ := hold
    exact ⟨old, List.mem_append_left _ hmem, hpath⟩
  · intro hnew
    obtain ⟨other, hmem, hpath⟩ := hnew
    rcases List.mem_append.mp hmem with hmem | hmem
    · exact ⟨other, hmem, hpath⟩
    · rw [List.mem_singleton.mp hmem] at hpath
      exact (h.paths path).mp (hevent path hpath)

theorem Tracks.add (h : Tracks o callbackPaths events) {event : WorkspaceChangeEvent}
    {path : JsString} (hevent : changedPath o.workspaceRoot event = some path)
    (hnew : path ∉ callbackPaths) (hroom : ¬ o.callbackPathCapacity ≤ callbackPaths.length) :
    Tracks o (callbackPaths ++ [path]) (events ++ [event]) := by
  refine ⟨?_, ?_, fun other => ?_⟩
  · exact List.nodup_append.mpr ⟨h.nodup, List.nodup_singleton _, fun a ha b hb => by
      rw [List.mem_singleton.mp hb]
      rintro rfl
      exact hnew ha⟩
  · rw [List.length_append, List.length_singleton]
    omega
  · rw [List.mem_append, List.mem_singleton, h.paths other]
    constructor
    · intro hor
      rcases hor with ⟨old, hmem, hpath⟩ | rfl
      · exact ⟨old, List.mem_append_left _ hmem, hpath⟩
      · exact ⟨event, List.mem_append_right _ (List.mem_singleton_self _), hevent⟩
    · intro hsome
      obtain ⟨old, hmem, hpath⟩ := hsome
      rcases List.mem_append.mp hmem with hmem | hmem
      · exact Or.inl ⟨old, hmem, hpath⟩
      · rw [List.mem_singleton.mp hmem, hevent] at hpath
        exact Or.inr (Option.some.inj hpath).symm

/-- What adding events comes to: trust is lost, or the set keeps track of them and none of
them is unsafe. -/
theorem addEach_spec (o : Options) (events : List WorkspaceChangeEvent) :
    ∀ s : FeedState, (∃ reason, FeedState.addEach o events s = s.loseTrust reason) ∨
      ∃ callbackPaths, FeedState.addEach o events s = { s with callbackPaths := callbackPaths } ∧
        ∀ before, Tracks o s.callbackPaths before → Tracks o callbackPaths (before ++ events) ∧
          ∀ event ∈ events, ¬ Unsafe o.workspaceRoot event := by
  induction events with
  | nil =>
    intro s
    refine Or.inr ⟨s.callbackPaths, rfl, fun before h => ⟨?_, nofun⟩⟩
    rw [List.append_nil]
    exact h
  | cons event rest ih =>
    intro s
    -- the event is safe and the set after it is `paths`: the rest goes on from there
    have hnext : ∀ paths, ¬ Unsafe o.workspaceRoot event →
        (∀ before, Tracks o s.callbackPaths before → Tracks o paths (before ++ [event])) →
        (∃ reason, FeedState.addEach o rest { s with callbackPaths := paths } =
          s.loseTrust reason) ∨
        ∃ callbackPaths, FeedState.addEach o rest { s with callbackPaths := paths } =
            { s with callbackPaths := callbackPaths } ∧
          ∀ before, Tracks o s.callbackPaths before →
            Tracks o callbackPaths (before ++ event :: rest) ∧
              ∀ other ∈ event :: rest, ¬ Unsafe o.workspaceRoot other := by
      intro paths hsafe htracks
      rcases ih { s with callbackPaths := paths } with ⟨reason, hlost⟩ | ⟨kept, hkept, hall⟩
      · exact Or.inl ⟨reason, hlost⟩
      · refine Or.inr ⟨kept, hkept, fun before h => ?_⟩
        obtain ⟨htrack, hrest⟩ := hall (before ++ [event]) (htracks before h)
        rw [List.append_assoc] at htrack
        refine ⟨htrack, fun other hother => ?_⟩
        rcases List.mem_cons.mp hother with rfl | hother
        · exact hsafe
        · exact hrest other hother
    rw [FeedState.addEach]
    by_cases hroot : event.path = o.workspaceRoot ∧ event.type ≠ .delete
    · rw [if_pos hroot]
      refine hnext s.callbackPaths (fun hrefused => hrefused.1 hroot) fun before h => h.skip ?_
      intro path hpath
      rw [changedPath, if_pos hroot] at hpath
      cases hpath
    · rw [if_neg hroot]
      cases hnormal : normalizeEventPath o.workspaceRoot event.path with
      | none => exact Or.inl ⟨.unsafePath, rfl⟩
      | some path =>
        have hsafe : ¬ Unsafe o.workspaceRoot event := by
          intro hrefused
          rw [hrefused.2] at hnormal
          cases hnormal
        have hchanged : changedPath o.workspaceRoot event =
            if isGitPath path then none else some path := by
          rw [changedPath, if_neg hroot, hnormal]
        by_cases hgit : isGitPath path = true
        · simp only [hgit, if_true] at hchanged ⊢
          refine hnext s.callbackPaths hsafe fun before h => h.skip ?_
          intro other hother
          rw [hchanged] at hother
          cases hother
        · simp only [hgit, if_false, Bool.false_eq_true] at hchanged ⊢
          by_cases hmem : path ∈ s.callbackPaths
          · simp only [hmem, if_true]
            refine hnext s.callbackPaths hsafe fun before h => h.skip ?_
            intro other hother
            rw [hchanged] at hother
            cases hother
            exact hmem
          · simp only [hmem, if_false]
            by_cases hroom : o.callbackPathCapacity ≤ s.callbackPaths.length
            · rw [if_pos hroom]
              exact Or.inl ⟨.overflow, rfl⟩
            · rw [if_neg hroom]
              exact hnext _ hsafe fun before h => h.add hchanged hmem hroom

/-! ## The invariant -/

/-- No subscription was requested in the generation, and the feed has not been started. -/
structure Idle (s : FeedState) : Prop where
  started : s.started = false
  trusted : s.trusted = false
  fresh : .requested s.generation ∉ s.history

/-- The subscription of the generation is the current one, and while no reason for a gap is
noted, the set of paths keeps track of its events. -/
structure Watching (o : Options) (s : FeedState) : Prop where
  current : current s.history = some s.generation
  tracks : s.gapReason = none → Flawless o s.generation s.history ∧
    Tracks o s.callbackPaths (window s.generation s.history)

/-- The feed has been started, and it is trusted while no reason for a gap is noted. -/
structure Listening (o : Options) (s : FeedState) : Prop where
  started : s.started = true
  trusted : s.trusted = s.gapReason.isNone
  watching : Watching o s
  succeeded : s.trusted = true → succeeded s.generation s.history = true

/-- Where the operation under way stands. -/
def Stands (o : Options) (s : FeedState) : Option Waiting → Prop
  | some (.unsubscribing _ generation) =>
    generation = s.generation ∧ Idle s ∧ s.callbackPaths = [] ∧ s.gapReason = none
  | some (.subscribing generation) =>
    generation = s.generation ∧ s.started = false ∧ s.trusted = false ∧ Watching o s
  | _ => Idle s ∨ Listening o s

/-- What holds of every reachable state. -/
structure Inv (o : Options) (s : FeedState) : Prop where
  answers : ∀ later before paths, s.history = later ++ .drained (.complete paths) :: before →
    ∃ generation, Exact o before paths generation
  requests : ∀ generation, .requested generation ∈ s.history → generation ≤ s.generation
  queued : .dispose ∈ s.queue → s.disposed = true
  stands : s.disposed = false → Stands o s s.waiting

theorem inv_initial (o : Options) : Inv o .initial := by
  refine ⟨?_, nofun, nofun, fun _ => Or.inl ⟨rfl, rfl, nofun⟩⟩
  intro later before paths h
  have hlength := congrArg List.length h
  rw [List.length_append, List.length_cons] at hlength
  exact absurd hlength (by simp [FeedState.initial])

theorem answers_cons {history : List Happening} {happening : Happening}
    (h : ∀ later before paths, history = later ++ .drained (.complete paths) :: before →
      ∃ generation, Exact o before paths generation)
    (hnew : ∀ paths, happening = .drained (.complete paths) →
      ∃ generation, Exact o history paths generation) :
    ∀ later before paths,
      happening :: history = later ++ .drained (.complete paths) :: before →
        ∃ generation, Exact o before paths generation := by
  intro later before paths heq
  cases later with
  | nil =>
    obtain ⟨hhead, htail⟩ := List.cons.inj heq
    rw [← htail]
    exact hnew paths hhead
  | cons first later =>
    obtain ⟨-, htail⟩ := List.cons.inj heq
    exact h later before paths htail

section Steps

variable {o : Options} {s : FeedState}

theorem Watching.deliver_other (h : Watching o s) {generation : Nat}
    (hother : generation ≠ s.generation) (error : Bool) (events : List WorkspaceChangeEvent) :
    Watching o { s with history := .delivered generation error events :: s.history } := by
  refine ⟨h.current, fun hgap => ?_⟩
  obtain ⟨hflawless, htracks⟩ := h.tracks hgap
  refine ⟨⟨hflawless, fun heq => absurd heq hother⟩, ?_⟩
  show Tracks o s.callbackPaths (if generation = s.generation then _ else _)
  rw [if_neg hother]
  exact htracks

/-- What a callback changes besides the set of paths. -/
structure Noted (s s' : FeedState) (happening : Happening) : Prop where
  history : s'.history = happening :: s.history
  generation : s'.generation = s.generation
  waiting : s'.waiting = s.waiting
  queue : s'.queue = s.queue
  disposed : s'.disposed = s.disposed
  started : s'.started = s.started
  trust : s'.trusted = s.trusted ∧ s'.gapReason = s.gapReason ∨
    s'.trusted = false ∧ s'.gapReason ≠ none

/-- The callback of a subscription, with the note of it. -/
def FeedState.deliver (o : Options) (generation : Nat) (error : Bool)
    (events : List WorkspaceChangeEvent) (s : FeedState) : FeedState :=
  { s with history := .delivered generation error events :: s.history }.callback o generation
    error events

theorem noted_deliver (o : Options) (generation : Nat) (error : Bool)
    (events : List WorkspaceChangeEvent) (s : FeedState) :
    Noted s (s.deliver o generation error events) (.delivered generation error events) := by
  rw [FeedState.deliver, FeedState.callback]
  split_ifs with hignored herror
  · exact ⟨rfl, rfl, rfl, rfl, rfl, rfl, Or.inl ⟨rfl, rfl⟩⟩
  · exact ⟨rfl, rfl, rfl, rfl, rfl, rfl, Or.inr ⟨rfl, nofun⟩⟩
  · rw [FeedState.addEvents]
    split_ifs with hlost
    · exact ⟨rfl, rfl, rfl, rfl, rfl, rfl, Or.inl ⟨rfl, rfl⟩⟩
    · rcases addEach_spec o events
        { s with history := .delivered generation error events :: s.history } with
        ⟨reason, hreason⟩ | ⟨paths, hpaths, -⟩
      · rw [hreason]
        exact ⟨rfl, rfl, rfl, rfl, rfl, rfl, Or.inr ⟨rfl, nofun⟩⟩
      · rw [hpaths]
        exact ⟨rfl, rfl, rfl, rfl, rfl, rfl, Or.inl ⟨rfl, rfl⟩⟩

/-- **A callback of the current generation is kept track of, or trust is lost.** -/
theorem Watching.deliver (h : Watching o s) (hlive : s.disposed = false)
    (hgap : s.trusted = false → s.started = true → s.gapReason ≠ none) (error : Bool)
    (events : List WorkspaceChangeEvent) :
    Watching o (s.deliver o s.generation error events) := by
  have hignored : ¬ (s.disposed = true ∨ s.generation ≠ s.generation) := by
    rw [hlive]
    simp
  rw [FeedState.deliver, FeedState.callback, if_neg hignored]
  split_ifs with herror
  · exact ⟨h.current, nofun⟩
  · rw [FeedState.addEvents]
    split_ifs with hlost
    · exact ⟨h.current, fun hnone => absurd hnone (hgap hlost.1 hlost.2)⟩
    · rcases addEach_spec o events
        { s with history := .delivered s.generation error events :: s.history } with
        ⟨reason, hreason⟩ | ⟨paths, hpaths, hall⟩
      · rw [hreason]
        exact ⟨h.current, nofun⟩
      · rw [hpaths]
        refine ⟨h.current, fun hnone => ?_⟩
        obtain ⟨hflawless, htracks⟩ := h.tracks hnone
        obtain ⟨htracks', hsafe⟩ := hall _ htracks
        refine ⟨⟨hflawless, fun _ => ⟨by simpa using herror, hsafe, htracks'.fits_events⟩⟩, ?_⟩
        show Tracks o paths (if s.generation = s.generation then _ else _)
        rw [if_pos rfl]
        exact htracks'

/-- **A callback keeps the invariant.** -/
theorem Inv.deliver (h : Inv o s) {generation : Nat}
    (hrequested : .requested generation ∈ s.history) (error : Bool)
    (events : List WorkspaceChangeEvent) :
    Inv o (s.deliver o generation error events) := by
  have hnoted := noted_deliver o generation error events s
  refine ⟨?_, ?_, ?_, ?_⟩
  · rw [hnoted.history]
    exact answers_cons h.answers nofun
  · intro other hother
    rw [hnoted.history, List.mem_cons] at hother
    rw [hnoted.generation]
    rcases hother with heq | hother
    · cases heq
    · exact h.requests other hother
  · rw [hnoted.queue, hnoted.disposed]
    exact h.queued
  · intro hlive
    rw [hnoted.disposed] at hlive
    have hstands := h.stands hlive
    rw [hnoted.waiting]
    -- without a subscription of its own, the feed only notes the callback
    have hidle : Idle s → generation ≠ s.generation ∧
        Idle (s.deliver o generation error events) := by
      intro hidle
      have hother : generation ≠ s.generation := by
        rintro rfl
        exact hidle.fresh hrequested
      have hignored : s.disposed = true ∨ generation ≠ s.generation := Or.inr hother
      rw [FeedState.deliver, FeedState.callback, if_pos hignored]
      refine ⟨hother, hidle.started, hidle.trusted, ?_⟩
      intro hmem
      rcases List.mem_cons.mp hmem with heq | hmem
      · cases heq
      · exact hidle.fresh hmem
    have hwatching : Watching o s → (s.trusted = false → s.started = true → s.gapReason ≠ none) →
        Watching o (s.deliver o generation error events) := by
      intro hwatching hgap
      by_cases hother : generation = s.generation
      · rw [hother]
        exact hwatching.deliver hlive hgap error events
      · rw [FeedState.deliver, FeedState.callback, if_pos (Or.inr hother)]
        exact hwatching.deliver_other hother error events
    have hlistening : Idle s ∨ Listening o s →
        Idle (s.deliver o generation error events) ∨
          Listening o (s.deliver o generation error events) := by
      intro hor
      rcases hor with hor | hlistening
      · exact Or.inl (hidle hor).2
      · have htrusted := hlistening.trusted
        refine Or.inr ⟨hnoted.started.trans hlistening.started, ?_,
          hwatching hlistening.watching ?_, ?_⟩
        · rcases hnoted.trust with ⟨heq, heq'⟩ | ⟨hlost, hsome⟩
          · rw [heq, heq', htrusted]
          · rw [hlost]
            cases hreason : (s.deliver o generation error events).gapReason with
            | none => exact absurd hreason hsome
            | some reason => rfl
        · intro hlost _ hnone
          rw [htrusted, hnone] at hlost
          cases hlost
        · intro htrust
          rw [hnoted.history, hnoted.generation]
          refine hlistening.succeeded ?_
          rcases hnoted.trust with ⟨heq, -⟩ | ⟨hlost, -⟩
          · rw [← heq, htrust]
          · rw [hlost] at htrust
            cases htrust
    cases hwaiting : s.waiting with
    | none =>
      rw [hwaiting] at hstands
      exact hlistening hstands
    | some waiting =>
      rw [hwaiting] at hstands
      cases waiting with
      | unsubscribing previous g =>
        obtain ⟨hgeneration, hfresh, hempty, hnone⟩ := hstands
        obtain ⟨hother, hfresh'⟩ := hidle hfresh
        refine ⟨hgeneration.trans hnoted.generation.symm, hfresh', ?_, ?_⟩
        · rw [FeedState.deliver, FeedState.callback, if_pos (Or.inr hother)]
          exact hempty
        · rw [FeedState.deliver, FeedState.callback, if_pos (Or.inr hother)]
          exact hnone
      | subscribing g =>
        obtain ⟨hgeneration, hstarted, htrusted, hw⟩ := hstands
        refine ⟨hgeneration.trans hnoted.generation.symm, hnoted.started.trans hstarted, ?_,
          hwatching hw fun _ hyes => ?_⟩
        · rcases hnoted.trust with ⟨heq, -⟩ | ⟨hlost, -⟩
          · rw [heq, htrusted]
          · exact hlost
        · rw [hstarted] at hyes
          cases hyes
      | givingUp | disposing => exact hlistening hstands

theorem watching_request (hempty : s.callbackPaths = []) {waiting : Option Waiting} :
    Watching o { s with
      waiting := waiting
      history := .requested s.generation :: s.history } := by
  refine ⟨rfl, fun _ => ⟨trivial, ?_⟩⟩
  show Tracks o s.callbackPaths []
  rw [hempty]
  exact Tracks.nil o

theorem Listening.exact (h : Listening o s) (htrusted : s.trusted = true) :
    Exact o s.history (s.callbackPaths.insertionSort fun left right => utf8 left ≤ utf8 right)
      s.generation := by
  have hnone : s.gapReason = none := by
    have := h.trusted
    rw [htrusted] at this
    exact Option.isNone_iff_eq_none.mp this.symm
  obtain ⟨hflawless, htracks⟩ := h.watching.tracks hnone
  refine ⟨h.watching.current, h.succeeded htrusted, hflawless, ?_, fun path => ?_⟩
  · exact (List.perm_insertionSort _ _).nodup_iff.mpr htracks.nodup
  · rw [List.mem_insertionSort]
    exact htracks.paths path

theorem answer_cases (s : FeedState) :
    (s.answer = .complete
        (s.callbackPaths.insertionSort fun left right => utf8 left ≤ utf8 right) ∧
      s.disposed = false ∧ s.started = true ∧ s.trusted = true) ∨
    ∃ reason, s.answer = .unavailable reason := by
  rw [FeedState.answer]
  split_ifs with hdisposed hstarted htrusted
  · exact Or.inr ⟨_, rfl⟩
  · exact Or.inr ⟨_, rfl⟩
  · exact Or.inr ⟨_, rfl⟩
  · refine Or.inl ⟨rfl, ?_, ?_, ?_⟩
    · simpa using hdisposed
    · simpa using hstarted
    · simpa using htrusted

variable (h : Inv o s)
include h

/-- **A drain keeps the invariant, and a complete one is exact.** -/
theorem Inv.drain (hfree : s.waiting = none) :
    Inv o s.drainState := by
  have hrequests : ∀ generation, .requested generation ∈ s.drainState.history →
      generation ≤ s.generation := by
    intro generation hmem
    rcases List.mem_cons.mp hmem with heq | hmem
    · cases heq
    · exact h.requests generation hmem
  have hidle : Idle s → Idle s.drainState := by
    intro hidle
    refine ⟨hidle.started, hidle.trusted, fun hmem => ?_⟩
    rcases List.mem_cons.mp hmem with heq | hmem
    · cases heq
    · exact hidle.fresh hmem
  rcases answer_cases s with ⟨hanswer, hlive, hstarted, htrusted⟩ | ⟨reason, hanswer⟩
  · have hlistening : Listening o s := by
      have hstands := h.stands hlive
      rw [hfree] at hstands
      rcases hstands with hidle | hlistening
      · rw [hidle.started] at hstarted
        cases hstarted
      · exact hlistening
    refine ⟨answers_cons h.answers ?_, hrequests, h.queued, fun _ => ?_⟩
    · intro paths heq
      rw [hanswer] at heq
      cases heq
      exact ⟨s.generation, hlistening.exact htrusted⟩
    · have hwaiting : s.drainState.waiting = none := hfree
      rw [hwaiting]
      have hpaths : s.drainState.callbackPaths = [] := by
        rw [FeedState.drainState, hanswer]
      have hhistory : s.drainState.history = .drained (.complete
          (s.callbackPaths.insertionSort fun left right => utf8 left ≤ utf8 right)) ::
            s.history := by
        rw [FeedState.drainState, hanswer]
      refine Or.inr ⟨hlistening.started, hlistening.trusted, ⟨?_, fun hnone => ?_⟩, ?_⟩
      · rw [hhistory]
        exact hlistening.watching.current
      · obtain ⟨hflawless, -⟩ := hlistening.watching.tracks hnone
        rw [hpaths, hhistory]
        exact ⟨hflawless, Tracks.nil o⟩
      · rw [hhistory]
        exact hlistening.succeeded
  · have hdrained : s.drainState =
        { s with history := .drained (.unavailable reason) :: s.history } := by
      rw [FeedState.drainState, hanswer]
    rw [hdrained] at hrequests hidle ⊢
    refine ⟨answers_cons h.answers nofun, hrequests, h.queued, fun hlive => ?_⟩
    have hstands := h.stands hlive
    rw [hfree] at hstands
    show Stands o _ s.waiting
    rw [hfree]
    rcases hstands with hstands | hlistening
    · have hidle' := hidle hstands
      exact Or.inl ⟨hidle'.started, hidle'.trusted, hidle'.fresh⟩
    · exact Or.inr ⟨hlistening.started, hlistening.trusted,
        ⟨hlistening.watching.current, hlistening.watching.tracks⟩, hlistening.succeeded⟩

theorem Inv.dequeue {rest : List Transition} (hrest : .dispose ∈ rest → s.disposed = true) :
    Inv o { s with queue := rest } := by
  refine ⟨h.answers, h.requests, hrest, fun hlive => ?_⟩
  have hstands := h.stands hlive
  show Stands o _ s.waiting
  cases hwaiting : s.waiting with
  | none =>
    rw [hwaiting] at hstands
    exact hstands.imp (fun h => ⟨h.started, h.trusted, h.fresh⟩) fun h =>
      ⟨h.started, h.trusted, ⟨h.watching.current, h.watching.tracks⟩, h.succeeded⟩
  | some waiting =>
    rw [hwaiting] at hstands
    cases waiting with
    | unsubscribing previous g =>
      obtain ⟨hg, hidle, hempty, hnone⟩ := hstands
      exact ⟨hg, ⟨hidle.started, hidle.trusted, hidle.fresh⟩, hempty, hnone⟩
    | subscribing g =>
      obtain ⟨hg, hstarted, htrusted, hw⟩ := hstands
      exact ⟨hg, hstarted, htrusted, hw.current, hw.tracks⟩
    | givingUp | disposing =>
      exact hstands.imp (fun h => ⟨h.started, h.trusted, h.fresh⟩) fun h =>
        ⟨h.started, h.trusted, ⟨h.watching.current, h.watching.tracks⟩, h.succeeded⟩

theorem Inv.start :
    Inv o s.startState := by
  rw [FeedState.startState]
  split_ifs with hdisposed
  · exact h
  · refine ⟨h.answers, fun generation hmem => ?_, h.queued, fun _ => ?_⟩
    · exact (h.requests generation hmem).trans (Nat.le_succ _)
    · refine ⟨rfl, ⟨rfl, rfl, fun hmem => ?_⟩, rfl, rfl⟩
      exact absurd (h.requests _ hmem) (Nat.not_succ_le_self _)

/-- **The beginning of an operation keeps the invariant.** -/
theorem Inv.begin :
    Inv o s.begin := by
  rw [FeedState.begin]
  split_ifs with hbusy
  · exact h
  · have hfree : s.waiting = none := by simpa using hbusy
    have hrest : ∀ {first : Transition} {rest : List Transition}, s.queue = first :: rest →
        .dispose ∈ rest → s.disposed = true := by
      intro first rest hqueue hmem
      exact h.queued (hqueue ▸ List.mem_cons_of_mem _ hmem)
    cases hqueue : s.queue with
    | nil => exact h
    | cons first rest =>
      have hdequeued := h.dequeue (hrest hqueue)
      cases first with
      | start => exact hdequeued.start
      | drain => exact hdequeued.drain hfree
      | dispose =>
        refine ⟨h.answers, h.requests, hrest hqueue, fun hlive => ?_⟩
        rw [show s.disposed = true from h.queued (hqueue ▸ List.mem_cons_self)] at hlive
        cases hlive

/-- **The end of a wait keeps the invariant.** -/
theorem Inv.settle (ok : Bool) :
    Inv o (s.settle ok) := by
  -- an operation that ends without more leaves the feed as it stands
  have hends : (∀ hlive : s.disposed = false, Idle s ∨ Listening o s) →
      Inv o { s with waiting := none } := by
    intro hstands
    refine ⟨h.answers, h.requests, h.queued, fun hlive => ?_⟩
    rcases hstands hlive with hidle | hlistening
    · exact Or.inl ⟨hidle.started, hidle.trusted, hidle.fresh⟩
    · exact Or.inr ⟨hlistening.started, hlistening.trusted,
        ⟨hlistening.watching.current, hlistening.watching.tracks⟩, hlistening.succeeded⟩
  cases hwaiting : s.waiting with
  | none =>
    rw [FeedState.settle, hwaiting]
    exact h
  | some waiting =>
    have hstands := h.stands
    rw [hwaiting] at hstands
    cases waiting with
    | unsubscribing previous g =>
      simp only [FeedState.settle, hwaiting]
      split_ifs with hstop
      · exact hends fun hlive => Or.inl (hstands hlive).2.1
      · rw [not_or, not_or] at hstop
        have hg : g = s.generation := Classical.not_not.mp hstop.2.2
        have hlive : s.disposed = false := by simpa using hstop.2.1
        obtain ⟨-, hidle, hempty, -⟩ := hstands hlive
        refine ⟨answers_cons h.answers nofun, fun generation hmem => ?_, h.queued, fun _ => ?_⟩
        · rcases List.mem_cons.mp hmem with heq | hmem
          · cases heq
            exact hg.le
          · exact h.requests generation hmem
        · rw [hg]
          exact ⟨rfl, hidle.started, hidle.trusted, watching_request hempty⟩
    | subscribing g =>
      simp only [FeedState.settle, hwaiting]
      split_ifs with hfailed hstop
      · refine ⟨h.answers, h.requests, h.queued, fun hlive => Or.inr ?_⟩
        obtain ⟨-, -, -, hwatching⟩ := hstands hlive
        exact ⟨rfl, rfl, ⟨hwatching.current, nofun⟩, nofun⟩
      · refine ⟨h.answers, h.requests, h.queued, fun hlive => ?_⟩
        rcases hstop with hdisposed | hother
        · rw [show s.disposed = false from hlive] at hdisposed
          cases hdisposed
        · exact absurd (hstands hlive).1 hother
      · rw [not_or] at hstop
        have hlive : s.disposed = false := by simpa using hstop.1
        obtain ⟨hg, -, -, hwatching⟩ := hstands hlive
        refine ⟨answers_cons h.answers nofun, fun generation hmem => ?_, h.queued,
          fun _ => Or.inr ⟨rfl, rfl, ⟨hwatching.current, hwatching.tracks⟩, fun _ => ?_⟩⟩
        · rcases List.mem_cons.mp hmem with heq | hmem
          · cases heq
          · exact h.requests generation hmem
        · show (decide (g = s.generation) || _) = true
          rw [decide_eq_true hg, Bool.true_or]
    | givingUp | disposing =>
      simp only [FeedState.settle, hwaiting]
      exact hends hstands

/-- **Every step keeps the invariant.** -/
theorem Inv.step (event : Event) :
    Inv o (s.step o event) := by
  cases event with
  | start | drain =>
    refine h.dequeue fun hmem => h.queued ?_
    simpa using hmem
  | dispose =>
    show Inv o s.dispose
    rw [FeedState.dispose]
    split_ifs with hdisposed
    · exact h
    · refine ⟨h.answers, fun generation hmem => ?_, fun _ => rfl, nofun⟩
      exact (h.requests generation hmem).trans (Nat.le_succ _)
  | begin => exact h.begin
  | settle ok => exact h.settle ok
  | callback generation error events =>
    show Inv o (if .requested generation ∈ s.history then _ else s)
    split_ifs with hrequested
    · exact h.deliver hrequested error events
    · exact h

end Steps

/-! ## Every run -/

/-- The state after a run from a new feed. -/
def runFeed (o : Options) (events : List Event) : FeedState :=
  Runs.run (FeedState.step o) .initial events

/-- **Every complete drain of every run is exact.**  It reports the paths that the current
subscription has delivered since the previous complete drain or since its request, and
since that request its start has succeeded, and no error, no unsafe path, no deletion of
the root and no overflow has come from it. -/
theorem drain_exact (o : Options) (events : List Event) {later before : List Happening}
    {changedPaths : List JsString}
    (h : (runFeed o events).history = later ++ .drained (.complete changedPaths) :: before) :
    ∃ generation, Exact o before changedPaths generation :=
  (Runs.run_invariant _ (Inv o) (fun _ event hs => hs.step event) (inv_initial o) events).answers
    later before changedPaths h

/-- A feed over a workspace, for a small run. -/
def smallOptions : Options where
  workspaceRoot := js "/w"
  callbackPathCapacity := 2
  absolute := by decide +kernel
  canonical := by decide +kernel
  positive := by decide

/-- A feed is started, the watcher reports the root and a file, and the feed is drained. -/
theorem drain_exact_small :
    ∃ generation, Exact smallOptions
      [.delivered 1 false [⟨js "/w", .update⟩, ⟨js "/w/a", .create⟩], .started 1, .requested 1]
      [js "a"] generation :=
  @drain_exact smallOptions
    [.start, .begin, .settle true, .settle true,
      .callback 1 false [⟨js "/w", .update⟩, ⟨js "/w/a", .create⟩], .drain, .begin]
    [] _ _ (by decide +kernel)

theorem normalizeEventPath_valid {workspaceRoot input path : JsString}
    (h : normalizeEventPath workspaceRoot input = some path) :
    Workspace.validateWorkspaceRelativePath path = true := by
  rw [normalizeEventPath] at h
  split at h
  · cases h
  · split at h
    · dsimp only at h
      split at h
      · cases h
      · split at h
        · rename_i hvalid
          cases h
          exact hvalid
        · cases h
    · split at h
      · rename_i hvalid
        cases h
        exact hvalid
      · cases h

/-- **What a complete drain reports are paths below the workspace, outside the repository's
own directory.** -/
theorem drained_paths_valid (o : Options) (events : List Event)
    {later before : List Happening} {changedPaths : List JsString}
    (h : (runFeed o events).history = later ++ .drained (.complete changedPaths) :: before) :
    ∀ path ∈ changedPaths,
      Workspace.validateWorkspaceRelativePath path = true ∧ isGitPath path = false := by
  intro path hpath
  have hinv : Inv o (runFeed o events) :=
    Runs.run_invariant _ (Inv o) (fun _ event hs => hs.step event) (inv_initial o) events
  obtain ⟨generation, hexact⟩ := hinv.answers later before changedPaths h
  obtain ⟨event, -, hchanged⟩ := (hexact.paths path).mp hpath
  rw [changedPath] at hchanged
  split at hchanged
  · cases hchanged
  · split at hchanged
    · cases hchanged
    · rename_i found hfound
      split at hchanged
      · cases hchanged
      · rename_i hgit
        cases hchanged
        exact ⟨normalizeEventPath_valid hfound, by simpa using hgit⟩

theorem drained_paths_valid_small :
    Workspace.validateWorkspaceRelativePath (js "a") = true ∧ isGitPath (js "a") = false :=
  @drained_paths_valid smallOptions
    [.start, .begin, .settle true, .settle true,
      .callback 1 false [⟨js "/w", .update⟩, ⟨js "/w/a", .create⟩], .drain, .begin]
    [] [.delivered 1 false [⟨js "/w", .update⟩, ⟨js "/w/a", .create⟩], .started 1, .requested 1]
    [js "a"] (by decide +kernel) (js "a") List.mem_cons_self

end WorkspaceChangeFeed
