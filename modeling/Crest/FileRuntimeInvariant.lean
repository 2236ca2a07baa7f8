import Crest.FileRuntime

/-!
# What holds of an open file

The text that counts as saved is the text of the file as long as it is recorded: from the
moment it was read or written until a write changes the file.  A runtime that is ready and
clean is accounted for: its text is recorded, or the last write has failed, or a save or a
load of its path is still to come.

An event meets its condition when it does not make the runtime clean for nothing: a text that
a clean runtime takes from a read is still the text of the file, and what the user typed is
replaced only where it is recorded or a reload asked for it; and a runtime becomes clean, or
ready again after a failed rename, only where that is accounted for.
-/

namespace FileRuntime

/-- The save generations of a waiting mutation. -/
def Mutation.saves : Mutation → List Nat
  | .save _ _ saveGeneration => [saveGeneration]
  | .rename .. => []

/-- The save generations of the running mutation. -/
def Running.saves : Running → List Nat
  | .save _ _ _ saveGeneration _ => [saveGeneration]
  | _ => []

namespace State

/-- The saves that have not ended, in the order in which they run. -/
def saves (s : State) : List Nat :=
  s.running.elim [] Running.saves ++ s.queue.flatMap Mutation.saves

/-- Where the file of the runtime is. -/
def place (s : State) : JsString :=
  match s.running with
  | some (.rename _ newPath _ _ _ _ true) => newPath
  | _ => s.path

/-- Why a clean runtime may be ready. -/
def Accounted (s : State) : Prop :=
  s.recorded = true ∨ s.lastWriteFailed = true ∨ s.saves ≠ [] ∨ ∃ l ∈ s.loads, l.path = s.path

instance (s : State) : Decidable s.Accounted :=
  inferInstanceAs (Decidable (_ ∨ _ ∨ _ ∨ _))

/-- Setting the value to this text makes the runtime clean only where that is accounted
for. -/
def Regains (s : State) (value : JsString) : Prop :=
  value ≠ s.value → value = s.savedValue → s.Accounted

instance (s : State) (value : JsString) : Decidable (s.Regains value) :=
  inferInstanceAs (Decidable (_ → _ → _))

/-- A clean runtime may take the text that the load at this place has read. -/
def Applies (s : State) (load : Load) (read : Read) : ReadAnswer → Prop
  | .failed _ => True
  | .done .. =>
    s.path = load.path → s.dirty = false →
      read.stale = false ∧ s.place = s.path ∧
        (s.typed = true → s.recorded = true ∨ load.explicit = true)

instance (s : State) (load : Load) (read : Read) (answer : ReadAnswer) :
    Decidable (s.Applies load read answer) :=
  match answer with
  | .failed _ => inferInstanceAs (Decidable True)
  | .done .. => inferInstanceAs (Decidable (_ → _ → _ ∧ _ ∧ (_ → _ ∨ _)))

/-- A rename that fails puts the status ready back only where that is accounted for. -/
def Restores (s : State) : Option Running → MutateAnswer → Prop
  | some (.rename _ _ true .ready _ _ moved), .failed _ =>
    s.dirty = false → { s with running := none, recorded := s.recorded && !moved }.Accounted
  | _, _ => True

instance (s : State) (running : Option Running) (answer : MutateAnswer) :
    Decidable (s.Restores running answer) := by
  unfold Restores
  split <;> infer_instance

end State

/-- The condition of an event. -/
def Ok (s : State) : Event → Prop
  | .setValue value => s.Regains value
  | .discard => s.Regains s.savedValue
  | .continueLoad k => ∀ waiting ∈ s.settled k, s.Applies waiting.1 waiting.2.1 waiting.2.2
  | .finishMutate answer => s.Restores s.running answer
  | _ => True

instance (s : State) (event : Event) : Decidable (Ok s event) := by
  cases event <;> unfold Ok <;> infer_instance

/-- What a read has seen is what the file contains, unless the read is stale; and what it
answers is what it has seen. -/
structure Read.Sound (disk : JsString → JsString) (read : Read) : Prop where
  seen : ∀ text, read.seen = some text → read.stale = false → text = disk read.path
  answered : ∀ text readonly, read.answer = some (.done text readonly) → read.seen = some text

/-- What holds of a runtime, its registry and the disk at every moment, also amid a step. -/
structure Consistent (s : State) : Prop where
  dirty : s.dirty = decide (s.value ≠ s.savedValue)
  recorded : s.recorded = true → s.savedValue = s.disk s.place
  reads : ∀ read ∈ s.reads, read.Sound s.disk
  saves : ∀ g, s.saves.getLast? = some g → g = s.saveGeneration
  writing : ∀ path value valueGeneration saveGeneration written,
    s.running = some (.save path value valueGeneration saveGeneration written) →
      path = s.path ∧ (written = true → s.disk path = value)
  relocating : ∀ oldPath newPath batch status operation error moved,
    s.running = some (.rename oldPath newPath batch status operation error moved) →
      oldPath = s.path ∧ oldPath ≠ newPath
  reloading : ∀ l ∈ s.loads, l.renames = true → s.running = some .reload ∧ l.path = s.path
  single : s.loads.Pairwise fun l l' => l.renames = false ∨ l'.renames = false
  shared : ∀ path i, s.readsByPath.get path = some i → (s.reads.map Read.path)[i]? = some path
  awaited : ∀ l ∈ s.loads, (s.reads.map Read.path)[l.read]? = some l.path

/-- What holds between two events: a runtime that is ready and clean is accounted for. -/
structure Invariant (s : State) : Prop extends Consistent s where
  ready : s.status = .ready → s.dirty = false → s.Accounted

/-- Two states with the same file and the same things going on. -/
structure SameFile (s t : State) : Prop where
  disk : t.disk = s.disk
  path : t.path = s.path
  savedValue : t.savedValue = s.savedValue
  recorded : t.recorded = s.recorded
  lastWriteFailed : t.lastWriteFailed = s.lastWriteFailed
  saveGeneration : t.saveGeneration = s.saveGeneration
  reads : t.reads = s.reads
  readsByPath : t.readsByPath = s.readsByPath
  queue : t.queue = s.queue
  running : t.running = s.running

namespace SameFile

variable {s t : State}

theorem saves (same : SameFile s t) : t.saves = s.saves := by
  rw [State.saves, State.saves, same.running, same.queue]

theorem place (same : SameFile s t) : t.place = s.place := by
  rw [State.place, State.place, same.running, same.path]

theorem accounted (same : SameFile s t)
    (hloads : ∀ l ∈ s.loads, ∃ l' ∈ t.loads, l'.path = l.path) (h : s.Accounted) :
    t.Accounted := by
  rcases h with h | h | h | ⟨l, hl, hpath⟩
  · exact .inl (same.recorded.trans h)
  · exact .inr (.inl (same.lastWriteFailed.trans h))
  · exact .inr (.inr (.inl (same.saves ▸ h)))
  · obtain ⟨l', hl', heq⟩ := hloads l hl
    exact .inr (.inr (.inr ⟨l', hl', heq.trans (hpath.trans same.path.symm)⟩))

theorem keeps (same : SameFile s t) (h : Invariant s)
    (hdirty : t.dirty = decide (t.value ≠ t.savedValue))
    (hready : t.status = .ready → t.dirty = false → t.Accounted)
    (hreloading : ∀ l ∈ t.loads, l.renames = true → t.running = some .reload ∧ l.path = t.path)
    (hsingle : t.loads.Pairwise fun l l' => l.renames = false ∨ l'.renames = false)
    (hawaited : ∀ l ∈ t.loads, (s.reads.map Read.path)[l.read]? = some l.path) :
    Invariant t where
  dirty := hdirty
  recorded hrecorded := by
    rw [same.savedValue, same.disk, same.place]
    exact h.recorded (same.recorded ▸ hrecorded)
  reads := by
    rw [same.reads, same.disk]
    exact h.reads
  saves := by
    rw [same.saves, same.saveGeneration]
    exact h.saves
  ready := hready
  writing := by
    rw [same.running, same.path, same.disk]
    exact h.writing
  relocating := by
    rw [same.running, same.path]
    exact h.relocating
  reloading := hreloading
  single := hsingle
  shared := by
    rw [same.readsByPath, same.reads]
    exact h.shared
  awaited := by
    rw [same.reads]
    exact hawaited

end SameFile

end FileRuntime
