import Crest.JournalPublicationInvariant

/-!
# The readers of a journal publication

One call of a reader keeps what is known of the reader, or ends it with a result that is as
it should be.  What any reader knows and what an undisturbed one knows are followed
separately.
-/

namespace JournalPublication

variable {maximumEntryBytes : Nat} {s : System}

section States

variable {history : List Bytes} {d : Directory}

section

variable (h : DirectoryOk maximumEntryBytes history d)
include h

theorem lstatDestination_ok {state : Stat} (hstate : d.lstatDestination = some state) :
    state.size ≤ maximumEntryBytes ∧ (state.nlink = 1 ∨ state.nlink = 2) := by
  obtain ⟨i, hi, rfl⟩ := Option.map_eq_some_iff.mp hstate
  refine ⟨(h.complete i hi).2, ?_⟩
  cases htemporary : d.temporary with
  | none => exact Or.inl (h.alone i hi htemporary)
  | some j => exact Or.inr (h.pair i j hi htemporary).2

theorem lstatTemporary_ok {state : Stat} (hstate : d.lstatTemporary = some state) :
    state.size ≤ maximumEntryBytes ∧
      (state.nlink = 1 ∨ state.nlink = 2 ∧ d.destination.isSome = true) := by
  obtain ⟨i, hi, rfl⟩ := Option.map_eq_some_iff.mp hstate
  cases hdestination : d.destination with
  | none =>
    obtain ⟨hone, hsize⟩ := h.temporary i hdestination hi
    exact ⟨hsize, Or.inl hone⟩
  | some j =>
    obtain ⟨rfl, htwo⟩ := h.pair j i hdestination hi
    exact ⟨(h.complete i hdestination).2, Or.inr ⟨htwo, rfl⟩⟩

theorem observed_lstat {i : Nat} (hi : d.destination = some i) :
    Observed d i (d.stat i) := by
  refine ⟨rfl, rfl, ?_⟩
  cases htemporary : d.temporary with
  | none => exact Or.inl ⟨h.alone i hi htemporary, rfl, rfl⟩
  | some j => exact Or.inr ⟨(h.pair i j hi htemporary).2, fun _ => rfl⟩

end

theorem sealed_destination (h : Invariant maximumEntryBytes s) {i : Nat}
    (hi : s.directory.destination = some i) :
    Sealed s i := by
  refine ⟨h.directory.fresh i (Or.inl hi), (h.directory.complete i hi).1, ?_⟩
  have hwriter := h.writer
  intro hwritten
  unfold System.beingWritten at hwritten
  split at hwritten
  case h_1 bytes hstage =>
    rw [hstage] at hwriter
    rw [hwriter.2.1] at hi
    cases hi
  case h_2 _ => cases hwritten

end States

section AnyReader

/-- What a call of any reader may come to. -/
def WeakProgress (maximumEntryBytes : Nat) (s : System) : Progress ReaderStage → Prop
  | .more stage => Weak maximumEntryBytes s stage
  | .done .nothing => True
  | .done (.entry bytes) => bytes ∈ s.history
  | .done (.threw failure) => failure ≠ .unsafeEntry

theorem weak_tryAgain (attempt : Nat) :
    WeakProgress maximumEntryBytes s (tryAgain attempt) := by
  unfold tryAgain
  split
  · trivial
  · exact fun h => by cases h

theorem weak_entry (h : Invariant maximumEntryBytes s) {stage : EntryStage}
    (hstage : EntryWeak s stage) :
    WeakProgress maximumEntryBytes s (ofEntry (stage.step s.directory)) := by
  cases stage with
  | openEntry expected =>
    simp only [EntryStage.step]
    split
    case h_1 _ => exact fun h => by cases h
    case h_2 ino hino => exact sealed_destination h hino
  | statHandle expected handle =>
    simp only [EntryStage.step]
    split
    case isTrue _ => exact hstage
    case isFalse _ => exact fun h => by cases h
  | readFile expected handle => exact Sealed.content hstage
  | statAfter expected handle bytes => exact hstage
  | lstatNamed expected after bytes =>
    simp only [EntryStage.step]
    split
    case h_1 _ => exact fun h => by cases h
    case h_2 named _ =>
      split
      case isTrue _ => exact hstage
      case isFalse _ => exact fun h => by cases h

/-- **A call of any reader leaves it with complete bytes and safe states.** -/
theorem weak_step (h : Invariant maximumEntryBytes s) {stage : ReaderStage}
    (hstage : Weak maximumEntryBytes s stage) :
    WeakProgress maximumEntryBytes s (stage.step maximumEntryBytes s.directory) := by
  cases stage with
  | lstatDestination attempt => exact fun state hstate => lstatDestination_ok h.directory hstate
  | lstatTemporary attempt destination =>
    simp only [ReaderStage.step, judgePair]
    split
    case h_1 _ _ => trivial
    case h_2 temporary htemporary =>
      obtain ⟨hsize, hlinks⟩ := lstatTemporary_ok h.directory htemporary
      split
      case isTrue _ => trivial
      case isFalse hone =>
        split
        case isTrue _ => exact weak_tryAgain attempt
        case isFalse htwo =>
          simp only [safePrivateRegular, hsize, Bool.and_eq_true, decide_eq_true_eq,
            and_true] at hone htwo
          rcases hlinks with hlinks | ⟨hlinks, -⟩
          · exact absurd hlinks hone
          · exact absurd hlinks htwo
    case h_3 destination _ =>
      obtain ⟨hsize, hlinks⟩ := hstage destination rfl
      split
      case isTrue _ => exact weak_tryAgain attempt
      case isFalse htwo =>
        simp only [safePrivateRegular, hsize, Bool.and_eq_true, decide_eq_true_eq,
          and_true] at htwo
        have hone := hlinks.resolve_right htwo
        simp only [readEntryWithState, safePrivateRegular, hone, hsize, decide_true,
          Bool.and_self, if_true]
        trivial
    case h_4 destination temporary _ =>
      split
      case isTrue _ => exact fun h => by cases h
      case isFalse _ =>
        split
        case isTrue _ => exact weak_tryAgain attempt
        case isFalse _ => trivial
  | openLinked attempt destination =>
    simp only [ReaderStage.step]
    split
    case h_1 _ => exact fun h => by cases h
    case h_2 ino hino => exact sealed_destination h hino
  | statLinked attempt destination handle =>
    simp only [ReaderStage.step]
    split
    case isTrue _ => exact hstage
    case isFalse _ => exact weak_tryAgain attempt
  | readLinked attempt destination handle => exact Sealed.content hstage
  | statLinkedAfter attempt destination handle bytes => exact hstage
  | lstatLinkedDestination attempt destination after bytes =>
    simp only [ReaderStage.step]
    split
    case h_1 _ => exact fun h => by cases h
    case h_2 _ _ => exact hstage
  | lstatLinkedTemporary attempt destination after named bytes =>
    simp only [ReaderStage.step, judgeLinked]
    split
    case isTrue _ => exact weak_tryAgain attempt
    case isFalse _ =>
      split
      case h_1 _ _ =>
        split
        case isTrue _ => exact weak_tryAgain attempt
        case isFalse _ => exact hstage
      case h_2 _ =>
        split
        case isTrue _ => exact weak_tryAgain attempt
        case isFalse _ => exact hstage
  | entry stage => exact weak_entry h hstage

end AnyReader

section UndisturbedReader

/-- What a call of an undisturbed reader may come to. -/
def SteadyProgress (d : Directory) (due : Option Bytes) : Progress ReaderStage → Prop
  | .more stage => Steady d due stage
  | .done .nothing => due = none
  | .done (.entry bytes) => d.entry = some bytes
  | .done (.threw _) => False

variable {history : List Bytes} {d : Directory} {due : Option Bytes}

theorem steady_tryAgain_of_entry {attempt i : Nat} (hattempt : attempt ≤ 1)
    (hi : d.destination = some i) (halone : attempt = 0 ∨ d.temporary = none) :
    SteadyProgress d due (tryAgain attempt) := by
  unfold tryAgain
  rw [if_pos (by omega)]
  have hsome : d.destination.isSome = true := Option.isSome_of_mem hi
  rcases Nat.le_one_iff_eq_zero_or_eq_one.mp hattempt with rfl | rfl
  · exact Or.inr (Or.inl ⟨rfl, hsome⟩)
  · exact Or.inr (Or.inr ⟨rfl, hsome, halone.resolve_left (by decide)⟩)

theorem entrySteady_step {i : Nat} (hi : d.destination = some i) {stage : EntryStage}
    (hstage : EntrySteady d i stage) :
    (∃ next, stage.step d = .more next ∧ EntrySteady d i next) ∨
      stage.step d = .done (.entry (d.inodes i).content) := by
  cases stage with
  | openEntry expected =>
    refine Or.inl ⟨.statHandle expected i, ?_, hstage, rfl⟩
    simp [EntryStage.step, hi]
  | statHandle expected handle =>
    obtain ⟨rfl, rfl⟩ := hstage
    exact Or.inl ⟨.readFile (d.stat handle) handle, by simp [EntryStage.step], rfl, rfl⟩
  | readFile expected handle =>
    obtain ⟨rfl, rfl⟩ := hstage
    exact Or.inl ⟨.statAfter (d.stat handle) handle (d.inodes handle).content, rfl, rfl, rfl, rfl⟩
  | statAfter expected handle bytes =>
    obtain ⟨rfl, rfl, rfl⟩ := hstage
    exact Or.inl ⟨.lstatNamed (d.stat handle) (d.stat handle) (d.inodes handle).content, rfl,
      rfl, rfl, rfl⟩
  | lstatNamed expected after bytes =>
    obtain ⟨rfl, rfl, rfl⟩ := hstage
    right
    simp [EntryStage.step, Directory.lstatDestination, hi]

theorem steady_entry {i : Nat} (hi : d.destination = some i) (halone : d.temporary = none)
    {stage : EntryStage} (hstage : EntrySteady d i stage) :
    SteadyProgress d due (ofEntry (stage.step d)) := by
  rcases entrySteady_step hi hstage with ⟨next, hnext, hsteady⟩ | hdone
  · rw [hnext]
    exact ⟨i, hi, halone, hsteady⟩
  · rw [hdone]
    show d.entry = some _
    rw [Directory.entry, hi, Option.map_some]

/-- **A call of an undisturbed reader brings it on.** -/
theorem steady_step (h : DirectoryOk maximumEntryBytes history d)
    (hdue : ∀ bytes, due = some bytes → d.entry = some bytes) {stage : ReaderStage}
    (hstage : Steady d due stage) :
    SteadyProgress d due (stage.step maximumEntryBytes d) := by
  cases stage with
  | lstatDestination attempt =>
    show Steady d due (.lstatTemporary attempt d.lstatDestination)
    cases hdestination : d.destination with
    | none =>
      have hnone : d.lstatDestination = none := by
        rw [Directory.lstatDestination, hdestination, Option.map_none]
      rw [hnone]
      refine ⟨?_, ?_⟩
      · rcases hstage with hzero | ⟨-, hsome⟩ | ⟨-, hsome, -⟩
        · exact hzero
        all_goals rw [hdestination] at hsome; cases hsome
      · cases hbytes : due with
        | none => rfl
        | some bytes =>
          have hentry := hdue bytes hbytes
          rw [Directory.entry, hdestination] at hentry
          cases hentry
    | some i =>
      have hsome : d.lstatDestination = some (d.stat i) := by
        rw [Directory.lstatDestination, hdestination, Option.map_some]
      rw [hsome]
      refine ⟨i, hdestination, observed_lstat h hdestination, fun htwo => ?_⟩
      rcases hstage with rfl | ⟨rfl, -⟩ | ⟨rfl, -, halone⟩
      · exact Nat.zero_le 1
      · exact Nat.le_refl 1
      · rw [Directory.stat, h.alone i hdestination halone] at htwo
        cases htwo
  | lstatTemporary attempt destination =>
    cases destination with
    | none =>
      obtain ⟨rfl, hnone⟩ := hstage
      simp only [ReaderStage.step, judgePair]
      cases htemporary : d.lstatTemporary with
      | none => exact hnone
      | some temporary =>
        obtain ⟨hsize, hlinks⟩ := lstatTemporary_ok h htemporary
        rcases hlinks with hone | ⟨htwo, hsome⟩
        · simp only [safePrivateRegular, hone, hsize, decide_true, Bool.and_self, if_true]
          exact hnone
        · obtain ⟨i, hi⟩ := Option.isSome_iff_exists.mp hsome
          simp only [safePrivateRegular, htwo, hsize, decide_true, Bool.and_self, if_true,
            Nat.reduceEqDiff, decide_false, Bool.false_and]
          exact steady_tryAgain_of_entry (Nat.zero_le 1) hi (Or.inl rfl)
    | some state =>
      obtain ⟨i, hi, ⟨-, hlength, hcase⟩, hattempt⟩ := hstage
      have hsize : state.size ≤ maximumEntryBytes := hlength ▸ (h.complete i hi).2
      simp only [ReaderStage.step, judgePair]
      cases htemporary : d.temporary with
      | none =>
        have hnone : d.lstatTemporary = none := by
          rw [Directory.lstatTemporary, htemporary, Option.map_none]
        rw [hnone]
        rcases hcase with ⟨hone, -, hsame⟩ | ⟨htwo, -⟩
        · simp only [safePrivateRegular, readEntryWithState, hone, hsize, decide_true,
            Bool.and_self, if_true, Nat.reduceEqDiff, decide_false, Bool.false_and,
            ofEntry]
          exact ⟨i, hi, htemporary, hsame⟩
        · simp only [safePrivateRegular, htwo, hsize, decide_true, Bool.and_self, if_true]
          exact steady_tryAgain_of_entry (hattempt htwo) hi (Or.inr htemporary)
      | some j =>
        obtain ⟨rfl, htwo⟩ := h.pair i j hi htemporary
        have hsome : d.lstatTemporary = some (d.stat j) := by
          rw [Directory.lstatTemporary, htemporary, Option.map_some]
        have hsame : state = d.stat j := by
          rcases hcase with ⟨-, hnone, -⟩ | ⟨-, hsame⟩
          · rw [htemporary] at hnone; cases hnone
          · exact hsame (by rw [htemporary]; rfl)
        subst hsame
        rw [hsome]
        have hlinks : (d.stat j).nlink = 2 := htwo
        simp only [sameInode, safePrivateRegular, hlinks, hsize, decide_true, Bool.and_self,
          Bool.not_true, Bool.or_self, Bool.false_eq_true, if_false]
        exact ⟨hattempt hlinks, hi⟩
  | openLinked attempt state =>
    obtain ⟨hattempt, hi⟩ := hstage
    simp only [ReaderStage.step, hi]
    exact ⟨hattempt, hi, rfl⟩
  | statLinked attempt state handle =>
    obtain ⟨hattempt, hi, hino⟩ := hstage
    simp only [ReaderStage.step, sameInode, Directory.stat, hino, decide_true, if_true]
    exact ⟨hattempt, hi, hino⟩
  | readLinked attempt state handle =>
    obtain ⟨hattempt, hi, hino⟩ := hstage
    exact ⟨hattempt, hi, hino, rfl⟩
  | statLinkedAfter attempt state handle bytes =>
    obtain ⟨hattempt, hi, hino, hbytes⟩ := hstage
    exact ⟨hattempt, handle, hi, hino, hbytes, observed_lstat h hi⟩
  | lstatLinkedDestination attempt state after bytes =>
    obtain ⟨hattempt, i, hi, hino, hbytes, hafter⟩ := hstage
    simp only [ReaderStage.step, Directory.lstatDestination, hi, Option.map_some]
    exact ⟨hattempt, i, hi, hino, hbytes, hafter, observed_lstat h hi⟩
  | lstatLinkedTemporary attempt state after named bytes =>
    obtain ⟨hattempt, i, hi, hino, hbytes, hafter, hnamed⟩ := hstage
    simp only [ReaderStage.step, judgeLinked]
    have hentry : d.entry = some bytes := by
      rw [Directory.entry, hi, Option.map_some, hbytes]
    cases htemporary : d.temporary with
    | none =>
      have hnone : d.lstatTemporary = none := by
        rw [Directory.lstatTemporary, htemporary, Option.map_none]
      have hagain := @steady_tryAgain_of_entry _ due _ _ hattempt hi (Or.inr htemporary)
      rw [hnone]
      split
      case isTrue _ => exact hagain
      case isFalse _ =>
        dsimp only
        split
        case isTrue _ => exact hagain
        case isFalse _ => exact hentry
    | some j =>
      obtain ⟨rfl, htwo⟩ := h.pair i j hi htemporary
      have hpair : d.temporary.isSome = true := by rw [htemporary]; rfl
      have hnow : ∀ state, Observed d j state → state = d.stat j := by
        intro state hstate
        rcases hstate.2.2 with ⟨-, hnone, -⟩ | ⟨-, hsame⟩
        · rw [htemporary] at hnone; cases hnone
        · exact hsame hpair
      have hsome : d.lstatTemporary = some (d.stat j) := by
        rw [Directory.lstatTemporary, htemporary, Option.map_some]
      have hlinks : (d.stat j).nlink = 2 := htwo
      have hsize : (d.stat j).size ≤ maximumEntryBytes := (h.complete j hi).2
      have hsameIno : (d.stat j).ino = state.ino := hino.symm
      rw [hsome, hnow after hafter, hnow named hnamed]
      simp only [sameInode, safePrivateRegular, hlinks, hsize, hsameIno, decide_true,
        Bool.and_self, Bool.not_true, Bool.or_self, Bool.false_eq_true, if_false, ne_eq,
        not_true_eq_false]
      exact hentry
  | entry stage =>
    obtain ⟨i, hi, halone, hentry⟩ := hstage
    exact steady_entry hi halone hentry

end UndisturbedReader

/-- What a call of a reader may come to. -/
def ReaderProgressOk (maximumEntryBytes : Nat) (s : System) (reader : Reader) :
    Progress ReaderStage → Prop
  | .more stage => ReaderOk maximumEntryBytes s { reader with stage }
  | .done result => (Outcome.read reader.due reader.removed result).Ok s.history

/-- **A call of a reader.** -/
theorem ReaderOk.step (h : Invariant maximumEntryBytes s) {reader : Reader}
    (hreader : ReaderOk maximumEntryBytes s reader) :
    ReaderProgressOk maximumEntryBytes s reader
      (reader.stage.step maximumEntryBytes s.directory) := by
  have hweak := weak_step h hreader.weak
  have hsteady : reader.removed = false → SteadyProgress s.directory reader.due
      (reader.stage.step maximumEntryBytes s.directory) := fun hremoved =>
    steady_step h.directory (hreader.due hremoved) (hreader.steady hremoved)
  revert hweak hsteady
  cases reader.stage.step maximumEntryBytes s.directory with
  | more stage => exact fun hweak hsteady => ⟨hweak, hsteady, hreader.due⟩
  | done result =>
    intro hweak hsteady
    cases hremoved : reader.removed with
    | true =>
      cases result with
      | nothing => exact Or.inl hremoved
      | entry bytes => exact ⟨hweak, Or.inl hremoved⟩
      | threw failure => exact Or.inr ⟨hremoved, hweak⟩
    | false =>
      have hdone := hsteady hremoved
      cases result with
      | nothing => exact Or.inr hdone
      | entry bytes =>
        refine ⟨hweak, Or.inr ?_⟩
        cases hdue : reader.due with
        | none => exact Or.inl rfl
        | some due =>
          have hentry := hreader.due hremoved due hdue
          exact Or.inr (hentry.symm.trans hdone)
      | threw failure => exact hdone.elim

end JournalPublication
