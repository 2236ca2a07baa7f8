import Crest.FileRuntimeInvariant

/-!
# A clean file is what is on disk

Every event that meets its condition keeps the invariant, one lemma for each function of the
runtime and its registry.  So in every run whose events meet their condition, a runtime that
is ready and clean, with nothing going on and its last write not failed, has the text of its
file.  Without the condition this fails: a reload that has looked at the file before a save
puts the old text back after it.
-/

namespace FileRuntime

variable {s t : State}

section Values

variable (s) (value : JsString)

theorem sameFile_setValue : SameFile s (s.setValue value) := by
  unfold State.setValue State.applyModelValue
  split_ifs <;> exact ⟨rfl, rfl, rfl, rfl, rfl, rfl, rfl, rfl, rfl, rfl⟩

@[simp] theorem setValue_value : (s.setValue value).value = value := by
  unfold State.setValue State.applyModelValue
  grind

@[simp] theorem setValue_loads : (s.setValue value).loads = s.loads := by
  unfold State.setValue State.applyModelValue
  split_ifs <;> rfl

theorem setValue_dirty :
    (s.setValue value).dirty =
      if value = s.value then s.dirty else decide (value ≠ s.savedValue) := by
  unfold State.setValue State.applyModelValue
  grind

theorem setValue_status (hready : (s.setValue value).status = .ready) :
    value ≠ s.value ∨ s.status = .ready := by
  unfold State.setValue State.applyModelValue at hready
  grind

end Values

theorem Invariant.of_setValue {value : JsString} (h : Invariant s) (hok : s.Regains value)
    (same : SameFile (s.setValue value) t) (hvalue : t.value = (s.setValue value).value)
    (hdirty : t.dirty = (s.setValue value).dirty) (hstatus : t.status = (s.setValue value).status)
    (hloads : ∃ f : Load → Load, t.loads = s.loads.map f ∧
      ∀ l, (f l).path = l.path ∧ (f l).renames = l.renames ∧ (f l).read = l.read) :
    Invariant t := by
  have hfile : SameFile s t := by
    have hset := sameFile_setValue s value
    exact {
      disk := same.disk.trans hset.disk
      path := same.path.trans hset.path
      savedValue := same.savedValue.trans hset.savedValue
      recorded := same.recorded.trans hset.recorded
      lastWriteFailed := same.lastWriteFailed.trans hset.lastWriteFailed
      saveGeneration := same.saveGeneration.trans hset.saveGeneration
      reads := same.reads.trans hset.reads
      readsByPath := same.readsByPath.trans hset.readsByPath
      queue := same.queue.trans hset.queue
      running := same.running.trans hset.running }
  obtain ⟨f, hmap, hf⟩ := hloads
  have hkept : ∀ l ∈ s.loads, ∃ l' ∈ t.loads, l'.path = l.path := by
    intro l hl
    exact ⟨f l, hmap ▸ List.mem_map_of_mem hl, (hf l).1⟩
  refine hfile.keeps h ?_ ?_ ?_ ?_ ?_
  · rw [hdirty, setValue_dirty, hvalue, setValue_value, hfile.savedValue]
    split_ifs with heq
    · rw [heq]
      exact h.dirty
    · rfl
  · intro hready hclean
    refine hfile.accounted hkept ?_
    rw [hstatus] at hready
    rw [hdirty, setValue_dirty] at hclean
    by_cases heq : value = s.value
    · rw [if_pos heq] at hclean
      rcases setValue_status s value hready with hne | hbefore
      · exact absurd heq hne
      · exact h.ready hbefore hclean
    · rw [if_neg heq] at hclean
      exact hok heq (by simpa using hclean)
  · intro l hl hrenames
    rw [hmap] at hl
    obtain ⟨l', hl', rfl⟩ := List.mem_map.mp hl
    obtain ⟨hrunning, hpath⟩ := h.reloading l' hl' ((hf l').2.1 ▸ hrenames)
    exact ⟨hfile.running.trans hrunning, (hf l').1.trans (hpath.trans hfile.path.symm)⟩
  · rw [hmap, List.pairwise_map]
    simpa only [(hf _).2.1] using h.single
  · intro l hl
    rw [hmap] at hl
    obtain ⟨l', hl', rfl⟩ := List.mem_map.mp hl
    rw [(hf l').2.2, (hf l').1]
    exact h.awaited l' hl'

theorem Invariant.type {value : JsString} (h : Invariant s) (hok : s.Regains value) :
    Invariant (s.type value) := by
  unfold State.type
  split_ifs with heq
  · exact h.of_setValue hok ⟨rfl, rfl, rfl, rfl, rfl, rfl, rfl, rfl, rfl, rfl⟩ rfl rfl rfl
      ⟨id, by simp, fun l => ⟨rfl, rfl, rfl⟩⟩
  · exact h.of_setValue hok ⟨rfl, rfl, rfl, rfl, rfl, rfl, rfl, rfl, rfl, rfl⟩ rfl rfl rfl
      ⟨fun l => { l with explicit := false }, rfl, fun l => ⟨rfl, rfl, rfl⟩⟩

theorem Invariant.discard (h : Invariant s) (hok : s.Regains s.savedValue) :
    Invariant s.discard :=
  h.of_setValue hok ⟨rfl, rfl, rfl, rfl, rfl, rfl, rfl, rfl, rfl, rfl⟩ rfl rfl rfl
    ⟨id, by simp [State.discard], fun l => ⟨rfl, rfl, rfl⟩⟩

section Queue

theorem Invariant.enqueue (h : Invariant s) (mutation : Mutation) (generation : Nat)
    (hsaves : ∀ g, (s.saves ++ mutation.saves).getLast? = some g → g = generation) :
    Invariant { s with saveGeneration := generation, queue := s.queue ++ [mutation] } := by
  have hqueue : State.saves { s with saveGeneration := generation, queue := s.queue ++ [mutation] }
      = s.saves ++ mutation.saves := by
    simp [State.saves, List.append_assoc]
  exact { h with
    recorded := h.recorded
    saves := by
      intro g hg
      rw [hqueue] at hg
      exact hsaves g hg
    ready := by
      intro hready hclean
      rcases h.ready hready hclean with hr | hr | hr | hr
      · exact .inl hr
      · exact .inr (.inl hr)
      · refine .inr (.inr (.inl ?_))
        rw [hqueue]
        exact fun hnil => hr (List.append_eq_nil_iff.mp hnil).1
      · exact .inr (.inr (.inr hr)) }

theorem Invariant.save (h : Invariant s) : Invariant s.save := by
  unfold State.save
  split_ifs with hdirty
  · refine h.enqueue _ (s.saveGeneration + 1) ?_
    intro g hg
    simp only [Mutation.saves, List.getLast?_append, List.getLast?_singleton, Option.some_or,
      Option.some.injEq] at hg
    exact hg.symm
  · exact h

theorem Invariant.rename (h : Invariant s) (oldPath newPath : JsString) (batch : Bool) :
    Invariant { s with queue := s.queue ++ [.rename oldPath newPath batch] } := by
  refine h.enqueue (.rename oldPath newPath batch) s.saveGeneration ?_
  simpa [Mutation.saves] using h.saves

end Queue

section Reads

theorem Consistent.load {renames explicit : Bool} (h : Consistent s) (hrenames : renames = true →
      s.running = some .reload ∧ ∀ l ∈ s.loads, l.renames = false) :
    Invariant (s.load s.path renames explicit) := by
  have hread : ({ path := s.path } : Read).Sound s.disk :=
    ⟨fun _ hseen => (nomatch hseen), fun _ _ hanswer => (nomatch hanswer)⟩
  have hnew : ∀ read, ∀ l ∈ s.loads ++ [{ path := s.path, read, renames, explicit }],
      l.renames = true → s.running = some .reload ∧ l.path = s.path := by
    intro read l hl hwaits
    rcases List.mem_append.mp hl with hl | hl
    · exact h.reloading l hl hwaits
    · cases List.mem_singleton.mp hl
      exact ⟨(hrenames hwaits).1, rfl⟩
  have hsingle : ∀ read, List.Pairwise (fun l l' : Load => l.renames = false ∨ l'.renames = false)
      (s.loads ++ [{ path := s.path, read, renames, explicit }]) := by
    intro read
    refine List.pairwise_append.mpr ⟨h.single, List.pairwise_singleton _ _, ?_⟩
    intro l hl l' hl'
    cases List.mem_singleton.mp hl'
    cases hwaits : renames with
    | false => exact .inr rfl
    | true => exact .inl ((hrenames hwaits).2 l hl)
  have hhere : ∀ read, ∃ l ∈ s.loads ++ [{ path := s.path, read, renames, explicit }],
      l.path = s.path :=
    fun read => ⟨_, List.mem_append_right _ (List.mem_singleton_self _), rfl⟩
  unfold State.load
  cases hshared : s.readsByPath.get s.path with
  | some read =>
    refine { h with
      ready := fun _ _ => .inr (.inr (.inr (hhere read)))
      reloading := hnew read
      single := hsingle read
      awaited := ?_ }
    intro l hl
    rcases List.mem_append.mp hl with hl | hl
    · exact h.awaited l hl
    · cases List.mem_singleton.mp hl
      exact h.shared s.path read hshared
  | none =>
    have hpaths : ∀ reads : List Read, reads = s.reads ++ [{ path := s.path }] →
        reads.map Read.path = s.reads.map Read.path ++ [s.path] := by
      intro reads hreads
      rw [hreads, List.map_append, List.map_singleton]
    have hlast : (s.reads.map Read.path ++ [s.path])[s.reads.length]? = some s.path := by
      simp
    have hold : ∀ (i : Nat) (path : JsString), (s.reads.map Read.path)[i]? = some path →
        (s.reads.map Read.path ++ [s.path])[i]? = some path := by
      intro i path hi
      obtain ⟨hlt, -⟩ := List.getElem?_eq_some_iff.mp hi
      rwa [List.getElem?_append_left hlt]
    refine { h with
      reads := ?_
      ready := fun _ _ => .inr (.inr (.inr (hhere _)))
      reloading := hnew _
      single := hsingle _
      shared := ?_
      awaited := ?_ }
    · intro read hmem
      rcases List.mem_append.mp hmem with hmem | hmem
      · exact h.reads read hmem
      · cases List.mem_singleton.mp hmem
        exact hread
    · intro path i hget
      rw [hpaths _ rfl]
      rw [JsMap.get_set] at hget
      split_ifs at hget with heq
      · cases hget
        rw [heq]
        exact hlast
      · exact hold i path (h.shared path i hget)
    · intro l hl
      rw [hpaths _ rfl]
      rcases List.mem_append.mp hl with hl | hl
      · exact hold _ _ (h.awaited l hl)
      · cases List.mem_singleton.mp hl
        exact hlast

section

variable (h : Invariant s)
include h

theorem Invariant.reload : Invariant s.reload := by
  have hloading : Invariant { s with status := .loading, operation := .read, error := none } :=
    { h with ready := by rintro ⟨⟩ }
  exact hloading.toConsistent.load fun hrenames => nomatch hrenames

theorem Invariant.set_read {before read : Read} {i : Nat}
    (hbefore : s.reads[i]? = some before) (hpath : read.path = before.path)
    (hsound : read.Sound s.disk) :
    Invariant { s with reads := s.reads.set i read } := by
  have hpaths : (s.reads.set i read).map Read.path = s.reads.map Read.path := by
    obtain ⟨hlt, hget⟩ := List.getElem?_eq_some_iff.mp hbefore
    rw [List.map_set, hpath, ← hget, ← List.getElem_map Read.path (h := by simpa using hlt),
      List.set_getElem_self]
  refine { h with reads := ?_, shared := ?_, awaited := ?_ }
  · intro other hmem
    rcases List.mem_or_eq_of_mem_set hmem with hmem | rfl
    · exact h.reads other hmem
    · exact hsound
  · rw [hpaths]
    exact h.shared
  · rw [hpaths]
    exact h.awaited

theorem Invariant.look (i : Nat) : Invariant (s.look i) := by
  unfold State.look
  split
  · exact h
  · rename_i read hread
    split
    · exact h
    · rename_i hanswer
      refine h.set_read hread rfl ⟨?_, ?_⟩
      · intro text hseen _
        exact (Option.some.inj hseen).symm
      · intro text readonly hdone
        exact nomatch hanswer.symm.trans hdone

theorem Invariant.settle {read : Read} {answer : ReadAnswer} {i : Nat}
    (hread : s.reads[i]? = some read)
    (hanswer : ∀ text readonly, answer = .done text readonly → read.seen = some text) :
    Invariant (s.settle i read answer) := by
  have hsound := h.reads read (List.mem_of_getElem? hread)
  have hset : Invariant { s with reads := s.reads.set i { read with answer := some answer } } := by
    refine h.set_read hread rfl ⟨hsound.seen, ?_⟩
    intro text readonly hdone
    exact hanswer text readonly (Option.some.inj hdone)
  refine { hset with shared := ?_ }
  intro path j hget
  refine hset.shared path j ?_
  unfold State.settle at hget
  split_ifs at hget with hlast
  · rw [JsMap.get_delete] at hget
    split_ifs at hget
    exact hget
  · exact hget

theorem Invariant.settleRead (i : Nat) (failure : Option JsString) (readonly : Bool) :
    Invariant (s.settleRead i failure readonly) := by
  unfold State.settleRead
  split
  · exact h
  · rename_i read hread
    split
    · exact h.settle hread fun text readonly hdone => nomatch hdone
    · rename_i text hanswer hseen
      refine h.settle hread ?_
      intro text' readonly' hdone
      cases hdone
      exact hseen
    · exact h

end

theorem settled_some {k : Nat} {load : Load} {read : Read} {answer : ReadAnswer}
    (h : s.settled k = some (load, read, answer)) :
    s.loads[k]? = some load ∧ s.reads[load.read]? = some read ∧ read.answer = some answer := by
  unfold State.settled at h
  obtain ⟨load', hload, h⟩ := Option.bind_eq_some_iff.mp h
  obtain ⟨read', hread, h⟩ := Option.bind_eq_some_iff.mp h
  obtain ⟨answer', hanswer, h⟩ := Option.map_eq_some_iff.mp h
  cases h
  exact ⟨hload, hread, hanswer⟩

theorem Consistent.erase_load (h : Consistent s) (k : Nat) :
    Consistent { s with loads := s.loads.eraseIdx k } :=
  { h with
    reloading := fun l hl => h.reloading l (List.mem_of_mem_eraseIdx hl)
    single := h.single.sublist (List.eraseIdx_sublist _ _)
    awaited := fun l hl => h.awaited l (List.mem_of_mem_eraseIdx hl) }

theorem Consistent.others_free {k : Nat} {load : Load} (h : Consistent s)
    (hload : s.loads[k]? = some load) (hrenames : load.renames = true) :
    ∀ l ∈ s.loads.eraseIdx k, l.renames = false := by
  intro l hl
  obtain ⟨i, hne, hi⟩ := List.mem_eraseIdx_iff_getElem?.mp hl
  obtain ⟨hk, hkget⟩ := List.getElem?_eq_some_iff.mp hload
  obtain ⟨hi', higet⟩ := List.getElem?_eq_some_iff.mp hi
  have hpair := List.pairwise_iff_getElem.mp h.single
  rcases Nat.lt_or_gt_of_ne hne with hlt | hlt
  · rcases hpair i k hi' hk hlt with hfree | hfree
    · rwa [higet] at hfree
    · rw [hkget, hrenames] at hfree
      cases hfree
  · rcases hpair k i hk hi' hlt with hfree | hfree
    · rw [hkget, hrenames] at hfree
      cases hfree
    · rwa [higet] at hfree

theorem none_waits {loads : List Load} {P : Load → Prop}
    (hfree : ∀ l ∈ loads, l.renames = false) :
    ∀ l ∈ loads, l.renames = true → P l :=
  fun l hl hrenames => nomatch (hfree l hl).symm.trans hrenames

theorem Invariant.endRename (h : Invariant s) (hrunning : s.running = some .reload)
    (hfree : ∀ l ∈ s.loads, l.renames = false)
    (hend : s.status ≠ .error → s.dirty = false → s.recorded = true) :
    Invariant s.endRename := by
  have hconsistent : Consistent { s with running := none } := { h with
    recorded := by
      have hrecorded := h.recorded
      rwa [State.place, hrunning] at hrecorded
    saves := by
      have hsaves := h.saves
      rwa [State.saves, hrunning] at hsaves
    writing := by rintro _ _ _ _ _ ⟨⟩
    relocating := by rintro _ _ _ _ _ _ _ ⟨⟩
    reloading := none_waits hfree }
  unfold State.endRename
  split_ifs with hstatus
  · exact { hconsistent with ready := fun _ hclean => .inl (hend hstatus hclean) }
  · have herror : s.status = .error := not_not.mp hstatus
    exact { hconsistent with ready := by intro hready; cases hready.symm.trans herror }

theorem Consistent.endLoad {path : JsString} {answer : ReadAnswer} (h : Consistent s)
    (hready : s.path ≠ path → s.status = .ready → s.dirty = false → s.Accounted)
    (hfresh : ∀ text readonly, answer = .done text readonly → s.path = path → s.dirty = false →
      text = s.disk path ∧ s.place = s.path) :
    Invariant (s.endLoad path answer) := by
  cases answer with
  | failed message =>
    simp only [State.endLoad]
    split_ifs with hpath
    · exact { h with ready := hready hpath }
    · exact { h with ready := by rintro ⟨⟩ }
  | done text readonly =>
    simp only [State.endLoad]
    split_ifs with hdropped hrename
    · refine { h with ready := ?_ }
      intro hstatus hclean
      rcases hdropped with hpath | hdirty
      · exact hready hpath hstatus hclean
      · rw [hclean] at hdirty
        cases hdirty
    all_goals
      obtain ⟨hpath, hclean⟩ := not_or.mp hdropped
      obtain ⟨htext, hplace⟩ := hfresh text readonly rfl (not_not.mp hpath) (by simpa using hclean)
      have happlied : text = s.disk s.place := by rw [hplace, not_not.mp hpath, htext]
      exact {
        dirty := by simp [State.applyReadValue]
        recorded := fun _ => happlied
        reads := h.reads
        saves := h.saves
        writing := h.writing
        relocating := h.relocating
        reloading := h.reloading
        single := h.single
        shared := h.shared
        awaited := h.awaited
        ready := fun _ _ => .inl rfl }

section EndLoad

variable (s) (path : JsString) (answer : ReadAnswer)

@[simp] theorem endLoad_running : (s.endLoad path answer).running = s.running := by
  cases answer <;> simp only [State.endLoad] <;> split_ifs <;> rfl

@[simp] theorem endLoad_loads : (s.endLoad path answer).loads = s.loads := by
  cases answer <;> simp only [State.endLoad] <;> split_ifs <;> rfl

theorem endLoad_recorded (hpath : s.path = path)
    (hstatus : (s.endLoad path answer).status ≠ .error)
    (hclean : (s.endLoad path answer).dirty = false) :
    (s.endLoad path answer).recorded = true := by
  cases answer with
  | failed message => simp [State.endLoad, hpath] at hstatus
  | done text readonly =>
    simp only [State.endLoad] at hclean ⊢
    split_ifs at hclean ⊢ with hdropped
    · simp_all
    all_goals rfl

end EndLoad

theorem Invariant.continueLoad {k : Nat} (h : Invariant s)
    (hok : ∀ waiting ∈ s.settled k, s.Applies waiting.1 waiting.2.1 waiting.2.2) :
    Invariant (s.continueLoad k) := by
  unfold State.continueLoad
  cases hsettled : s.settled k with
  | none => exact h
  | some waiting =>
    obtain ⟨load, read, answer⟩ := waiting
    obtain ⟨hload, hread, hanswer⟩ := settled_some hsettled
    have hconsistent := h.toConsistent.erase_load k
    have hother : s.path ≠ load.path → s.status = .ready → s.dirty = false →
        State.Accounted { s with loads := s.loads.eraseIdx k } := by
      intro hpath hstatus hclean
      rcases h.ready hstatus hclean with hr | hr | hr | ⟨l, hl, hlpath⟩
      · exact .inl hr
      · exact .inr (.inl hr)
      · exact .inr (.inr (.inl hr))
      · obtain ⟨i, hi⟩ := List.getElem?_of_mem hl
        refine .inr (.inr (.inr ⟨l, List.mem_eraseIdx_iff_getElem?.mpr ⟨i, ?_, hi⟩, hlpath⟩))
        intro hik
        rw [hik, hload] at hi
        cases hi
        exact hpath hlpath.symm
    have hfresh : ∀ text readonly, answer = .done text readonly → s.path = load.path →
        s.dirty = false → text = s.disk load.path ∧ s.place = s.path := by
      intro text readonly hdone hpath hclean
      subst hdone
      obtain ⟨hstale, hplace, -⟩ := hok _ hsettled hpath hclean
      have hsound := h.reads read (List.mem_of_getElem? hread)
      have hreadPath : read.path = load.path := by
        have hawaited := h.awaited load (List.mem_of_getElem? hload)
        rw [List.getElem?_map, hread] at hawaited
        exact Option.some.inj hawaited
      refine ⟨?_, hplace⟩
      rw [← hreadPath]
      exact hsound.seen text (hsound.answered text readonly hanswer) hstale
    have hended := hconsistent.endLoad hother hfresh
    simp only
    split_ifs with hrenames
    · obtain ⟨hrunning, hpath⟩ := h.reloading load (List.mem_of_getElem? hload) hrenames
      refine hended.endRename ?_ ?_ ?_
      · rw [endLoad_running]
        exact hrunning
      · rw [endLoad_loads]
        exact h.others_free hload hrenames
      · exact endLoad_recorded _ _ _ hpath.symm
    · exact hended

end Reads

section Mutations

theorem Consistent.none_reloading (h : Consistent s) (hrunning : s.running ≠ some .reload)
    (l : Load) (hl : l ∈ s.loads) :
    l.renames = false := by
  cases hrenames : l.renames with
  | false => rfl
  | true => exact absurd (h.reloading l hl hrenames).1 hrunning

theorem Invariant.startMutation (h : Invariant s) : Invariant s.startMutation := by
  unfold State.startMutation
  split
  · rename_i mutation queue hrunning hqueue
    have hplace : s.place = s.path := by rw [State.place, hrunning]
    have hfree := h.none_reloading (by simp [hrunning])
    have hwaits : ∀ (next : Option Running), ∀ l ∈ s.loads, l.renames = true →
        next = some .reload ∧ l.path = s.path := by
      intro next l hl hrenames
      rw [hfree l hl] at hrenames
      cases hrenames
    cases mutation with
    | save value valueGeneration saveGeneration =>
      have hsaves : s.saves = [saveGeneration] ++ queue.flatMap Mutation.saves := by
        rw [State.saves, hrunning, hqueue]
        rfl
      have hlast := h.saves
      rw [hsaves] at hlast
      have hstarted : Invariant { s with
          queue := queue
          running := some (.save s.path value valueGeneration saveGeneration false) } := { h with
        recorded := hplace ▸ h.recorded
        saves := hlast
        ready := fun _ _ => .inr (.inr (.inl (List.cons_ne_nil _ _)))
        writing := by
          intro path value' valueGeneration' saveGeneration' written heq
          cases heq
          exact ⟨rfl, by intro hwritten; cases hwritten⟩
        relocating := by rintro _ _ _ _ _ _ _ ⟨⟩
        reloading := hwaits _ }
      simp only [State.start]
      split_ifs
      · exact { hstarted with
          ready := fun _ _ => .inr (.inr (.inl (List.cons_ne_nil _ _))) }
      · exact hstarted
    | rename oldPath newPath batch =>
      have hsaves : s.saves = queue.flatMap Mutation.saves := by
        rw [State.saves, hrunning, hqueue]
        rfl
      have hlast := h.saves
      rw [hsaves] at hlast
      simp only [State.start]
      split_ifs with hforeign
      · exact { h with
          recorded := hplace ▸ h.recorded
          saves := hlast
          ready := by
            have hready := h.ready
            rwa [State.Accounted, hsaves] at hready
          writing := by rintro _ _ _ _ _ ⟨⟩
          relocating := by rintro _ _ _ _ _ _ _ ⟨⟩
          reloading := hwaits _ }
      · obtain ⟨hpath, hne⟩ := not_or.mp hforeign
        exact { h with
          recorded := hplace ▸ h.recorded
          saves := hlast
          ready := by rintro ⟨⟩
          writing := by rintro _ _ _ _ _ ⟨⟩
          relocating := by
            intro _ _ _ _ _ _ _ heq
            cases heq
            exact ⟨(not_not.mp hpath).symm, hne⟩
          reloading := hwaits _ }
  · exact h

theorem outdate_sound {reads : List Read} {changed : JsString → Bool}
    {disk disk' : JsString → JsString} (h : ∀ read ∈ reads, read.Sound disk)
    (hsame : ∀ path, changed path = false → disk' path = disk path) :
    ∀ read ∈ State.outdate reads changed, read.Sound disk' := by
  intro read hmem
  obtain ⟨before, hbefore, rfl⟩ := List.mem_map.mp hmem
  split_ifs with hchanged
  · exact ⟨fun _ _ hstale => (nomatch hstale), (h before hbefore).answered⟩
  · refine ⟨?_, (h before hbefore).answered⟩
    intro text hseen hstale
    rw [hsame before.path (by simpa using hchanged)]
    exact (h before hbefore).seen text hseen hstale

@[simp] theorem outdate_paths (reads : List Read) (changed : JsString → Bool) :
    (State.outdate reads changed).map Read.path = reads.map Read.path := by
  rw [State.outdate, List.map_map]
  refine List.map_congr_left ?_
  intro read _
  simp only [Function.comp_apply]
  split_ifs <;> rfl

variable (h : Invariant s)
include h

theorem Invariant.writeDisk : Invariant s.writeDisk := by
  unfold State.writeDisk
  split
  · rename_i path value valueGeneration saveGeneration hrunning
    obtain ⟨hpath, -⟩ := h.writing _ _ _ _ _ hrunning
    have hfree := h.none_reloading (by simp [hrunning])
    have hreads : ∀ read ∈ State.outdate s.reads fun changed => changed = path,
        read.Sound (Function.update s.disk path value) := by
      refine outdate_sound h.reads ?_
      intro other hother
      exact Function.update_of_ne (of_decide_eq_false hother) _ _
    exact { h with
      recorded := by rintro ⟨⟩
      reads := hreads
      saves := by
        have hsaves := h.saves
        rwa [State.saves, hrunning] at hsaves
      ready := fun _ _ => .inr (.inr (.inl (List.cons_ne_nil _ _)))
      writing := by
        intro path' value' valueGeneration' saveGeneration' written heq
        cases heq
        exact ⟨hpath, fun _ => Function.update_self _ _ _⟩
      relocating := by rintro _ _ _ _ _ _ _ ⟨⟩
      reloading := none_waits hfree
      shared := by
        rw [outdate_paths]
        exact h.shared
      awaited := by
        rw [outdate_paths]
        exact h.awaited }
  · exact h

theorem Invariant.moveDisk : Invariant s.moveDisk := by
  unfold State.moveDisk
  split
  · rename_i oldPath newPath batch status operation error hrunning
    obtain ⟨hpath, hne⟩ := h.relocating _ _ _ _ _ _ _ hrunning
    have hfree := h.none_reloading (by simp [hrunning])
    have hrecorded := h.recorded
    rw [State.place, hrunning, ← hpath] at hrecorded
    have hreads : ∀ read ∈
        State.outdate s.reads fun changed => changed = oldPath ∨ changed = newPath,
        read.Sound (Function.update (Function.update s.disk newPath (s.disk oldPath)) oldPath []) := by
      refine outdate_sound h.reads ?_
      intro other hother
      obtain ⟨hold, hnew⟩ := not_or.mp (of_decide_eq_false hother)
      rw [Function.update_of_ne hold, Function.update_of_ne hnew]
    exact { h with
      recorded := by
        intro hr
        change s.savedValue = Function.update (Function.update s.disk newPath _) oldPath [] newPath
        rw [Function.update_of_ne hne.symm, Function.update_self]
        exact hrecorded hr
      reads := hreads
      saves := by
        have hsaves := h.saves
        rwa [State.saves, hrunning] at hsaves
      ready := by
        have hready := h.ready
        rwa [State.Accounted, State.saves, hrunning] at hready
      writing := by rintro _ _ _ _ _ ⟨⟩
      relocating := by
        intro _ _ _ _ _ _ _ heq
        cases heq
        exact ⟨hpath, hne⟩
      reloading := none_waits hfree
      shared := by
        rw [outdate_paths]
        exact h.shared
      awaited := by
        rw [outdate_paths]
        exact h.awaited }
  · exact h

theorem Invariant.finishWrite (failure : Option JsString) :
    Invariant (s.finishWrite failure) := by
  unfold State.finishWrite
  split
  -- the write has succeeded
  · rename_i path value valueGeneration saveGeneration hrunning
    obtain ⟨hpath, hdisk⟩ := h.writing _ _ _ _ _ hrunning
    have hplace : s.place = s.path := by rw [State.place, hrunning]
    have hfree := h.none_reloading (by simp [hrunning])
    have hsaves : s.saves = saveGeneration :: s.queue.flatMap Mutation.saves := by
      rw [State.saves, hrunning]
      rfl
    have hlast := h.saves
    rw [hsaves] at hlast
    have hrest : ∀ g, (s.queue.flatMap Mutation.saves).getLast? = some g → g = s.saveGeneration := by
      intro g hg
      refine hlast g ?_
      rw [List.getLast?_cons, hg, Option.getD_some]
    have hended : Consistent { s with running := none, lastWriteFailed := false } := { h with
      recorded := hplace ▸ h.recorded
      saves := hrest
      writing := by rintro _ _ _ _ _ ⟨⟩
      relocating := by rintro _ _ _ _ _ _ _ ⟨⟩
      reloading := none_waits hfree }
    simp only
    split_ifs with hlatest
    -- a newer save is still to come
    · refine { hended with ready := fun _ _ => .inr (.inr (.inl ?_)) }
      intro hnil
      change s.queue.flatMap Mutation.saves = [] at hnil
      rw [hnil] at hlast
      exact hlatest (hlast saveGeneration rfl)
    all_goals
      exact { hended with
        dirty := rfl
        recorded := fun _ => ((hpath ▸ hdisk) rfl).symm
        ready := fun _ _ => .inl rfl }
  -- the write has failed
  · rename_i path value valueGeneration saveGeneration written message hrunning
    have hplace : s.place = s.path := by rw [State.place, hrunning]
    have hfree := h.none_reloading (by simp [hrunning])
    have hlast := h.saves
    rw [State.saves, hrunning] at hlast
    have hended : Invariant { s with running := none, lastWriteFailed := true } := { h with
      recorded := hplace ▸ h.recorded
      saves := by
        intro g hg
        refine hlast g ?_
        change (saveGeneration :: s.queue.flatMap Mutation.saves).getLast? = some g
        change (s.queue.flatMap Mutation.saves).getLast? = some g at hg
        rw [List.getLast?_cons, hg, Option.getD_some]
      ready := fun _ _ => .inr (.inl rfl)
      writing := by rintro _ _ _ _ _ ⟨⟩
      relocating := by rintro _ _ _ _ _ _ _ ⟨⟩
      reloading := none_waits hfree }
    simp only
    split_ifs
    · exact hended
    · exact { hended with ready := by rintro ⟨⟩ }
  · exact h

theorem Invariant.applyIdentity {oldPath newPath : JsString} {batch moved : Bool}
    {status : Status} {operation : Operation} {error : Option JsString}
    (hrunning : s.running =
      some (.rename oldPath newPath batch status operation error moved)) :
    Invariant (s.applyIdentity newPath moved) := by
  have hfree := h.none_reloading (by simp [hrunning])
  have hrecorded : (s.recorded && moved) = true → s.savedValue = s.disk newPath := by
    intro hboth
    obtain ⟨hr, rfl⟩ := (Bool.and_eq_true _ _).mp hboth
    have hbefore := h.recorded hr
    rwa [State.place, hrunning] at hbefore
  have hlast := h.saves
  rw [State.saves, hrunning] at hlast
  unfold State.applyIdentity
  simp only
  split_ifs with hdirty
  · exact { h with
      recorded := hrecorded
      saves := hlast
      ready := by intro _ hclean; cases hdirty.symm.trans hclean
      writing := by rintro _ _ _ _ _ ⟨⟩
      relocating := by rintro _ _ _ _ _ _ _ ⟨⟩
      reloading := none_waits hfree }
  · refine Consistent.load (s := { s with
        path := newPath, model := s.value, recorded := s.recorded && moved,
        running := some .reload }) ?_ (fun _ => ⟨rfl, hfree⟩)
    exact { h with
      recorded := hrecorded
      saves := hlast
      writing := by rintro _ _ _ _ _ ⟨⟩
      relocating := by rintro _ _ _ _ _ _ _ ⟨⟩
      reloading := none_waits hfree }

theorem Invariant.failRename {oldPath newPath : JsString} {batch moved : Bool}
    {status : Status} {operation : Operation} {error : Option JsString} {message : JsString}
    (hrunning : s.running =
      some (.rename oldPath newPath batch status operation error moved))
    (hok : batch = true → status = .ready → s.dirty = false →
      State.Accounted { s with running := none, recorded := s.recorded && !moved }) :
    Invariant (s.failRename batch status operation error moved message) := by
  have hfree := h.none_reloading (by simp [hrunning])
  have hlast := h.saves
  rw [State.saves, hrunning] at hlast
  have hended : Consistent { s with running := none, recorded := s.recorded && !moved } := { h with
    recorded := by
      intro hboth
      obtain ⟨hr, hstays⟩ := (Bool.and_eq_true _ _).mp hboth
      have hbefore := h.recorded hr
      rw [State.place, hrunning] at hbefore
      cases moved with
      | false => exact hbefore
      | true => cases hstays
    saves := hlast
    writing := by rintro _ _ _ _ _ ⟨⟩
    relocating := by rintro _ _ _ _ _ _ _ ⟨⟩
    reloading := none_waits hfree }
  unfold State.failRename
  simp only
  split_ifs with hbatch
  · exact { hended with ready := hok hbatch }
  · exact { hended with ready := by rintro ⟨⟩ }

theorem Invariant.finishMutate {answer : MutateAnswer} (hok : s.Restores s.running answer) :
    Invariant (s.finishMutate answer) := by
  unfold State.finishMutate
  split
  · rename_i hrunning
    have hlast := h.saves
    rw [State.saves, hrunning] at hlast
    have hready := h.ready
    rw [State.Accounted, State.saves, hrunning] at hready
    have hplace : s.place = s.path := by rw [State.place, hrunning]
    have hfree := h.none_reloading (by simp [hrunning])
    exact { h with
      recorded := hplace ▸ h.recorded
      saves := hlast
      ready := hready
      writing := by rintro _ _ _ _ _ ⟨⟩
      relocating := by rintro _ _ _ _ _ _ _ ⟨⟩
      reloading := none_waits hfree }
  · rename_i oldPath newPath batch status operation error moved hrunning
    split
    · exact h.applyIdentity hrunning
    · split_ifs with hbatch
      · exact h.applyIdentity hrunning
      · exact h.failRename hrunning fun htrue => absurd htrue hbatch
    · rename_i message
      refine h.failRename hrunning ?_
      intro hbatch hstatus hclean
      subst hbatch hstatus
      rw [hrunning] at hok
      exact hok hclean
  · exact h

end Mutations

theorem step_keeps {event : Event} (h : Invariant s) (hok : Ok s event) :
    Invariant (step s event) := by
  cases event with
  | setValue value => exact h.type hok
  | discard => exact h.discard hok
  | save => exact h.save
  | reload => exact h.reload
  | rename oldPath newPath batch => exact h.rename oldPath newPath batch
  | look read => exact h.look read
  | settleRead read failure readonly => exact h.settleRead read failure readonly
  | continueLoad load => exact h.continueLoad hok
  | startMutation => exact h.startMutation
  | writeDisk => exact h.writeDisk
  | finishWrite failure => exact h.finishWrite failure
  | moveDisk => exact h.moveDisk
  | finishMutate answer => exact h.finishMutate hok

theorem invariant_opened (disk : JsString → JsString) (path : JsString) :
    Invariant (opened disk path) := by
  refine Consistent.load (s := { disk, path }) ?_ (by intro hrenames; cases hrenames)
  exact {
    dirty := rfl
    recorded := by rintro ⟨⟩
    reads := by intro read hread; cases hread
    saves := by intro g hg; cases hg
    writing := by rintro _ _ _ _ _ ⟨⟩
    relocating := by rintro _ _ _ _ _ _ _ ⟨⟩
    reloading := by intro l hl; cases hl
    single := List.Pairwise.nil
    shared := by intro path i hget; cases hget
    awaited := by intro l hl; cases hl }

theorem run_keeps (disk : JsString → JsString) (path : JsString) (events : List Event)
    (hok : Runs.Guarded step Ok (opened disk path) events) :
    Invariant (run disk path events) :=
  Runs.guarded_invariant step Invariant Ok (fun _ _ h hevent => step_keeps h hevent)
    (invariant_opened disk path) events hok

section Replacing

/-- An event that may replace what the user typed: another text, a discard, or a load that
comes from a reload of the clean runtime with nothing typed since. -/
def Event.Replaces (s : State) : Event → Prop
  | .setValue _ | .discard => True
  | .continueLoad k => ∃ load, s.loads[k]? = some load ∧ load.explicit = true
  | _ => False

@[simp] theorem load_value (path : JsString) (renames explicit : Bool) :
    (s.load path renames explicit).value = s.value := by
  unfold State.load
  cases s.readsByPath.get path <;> rfl

@[simp] theorem start_value (mutation : Mutation) : (s.start mutation).value = s.value := by
  cases mutation <;> simp only [State.start] <;> split_ifs <;> rfl

@[simp] theorem applyIdentity_value (newPath : JsString) (moved : Bool) :
    (s.applyIdentity newPath moved).value = s.value := by
  simp only [State.applyIdentity]
  split_ifs
  · rfl
  · rw [load_value]

@[simp] theorem failRename_value (batch : Bool) (status : Status) (operation : Operation)
    (error : Option JsString) (moved : Bool) (message : JsString) :
    (s.failRename batch status operation error moved message).value = s.value := by
  simp only [State.failRename]
  split_ifs <;> rfl

@[simp] theorem endRename_value : s.endRename.value = s.value := by
  unfold State.endRename
  split_ifs <;> rfl

theorem endLoad_value {path : JsString} {answer : ReadAnswer}
    (hchanged : (s.endLoad path answer).value ≠ s.value) :
    ∃ text readonly, answer = .done text readonly ∧ s.path = path ∧ s.dirty = false ∧
      text ≠ s.value := by
  cases answer with
  | failed message =>
    simp only [State.endLoad] at hchanged
    split_ifs at hchanged <;> exact absurd rfl hchanged
  | done text readonly =>
    simp only [State.endLoad] at hchanged
    split_ifs at hchanged with hdropped hrename
    · exact absurd rfl hchanged
    all_goals
      obtain ⟨hpath, hclean⟩ := not_or.mp hdropped
      exact ⟨text, readonly, rfl, not_not.mp hpath, by simpa using hclean, hchanged⟩

theorem Invariant.continueLoad_replaces {k : Nat} (h : Invariant s)
    (hok : ∀ waiting ∈ s.settled k, s.Applies waiting.1 waiting.2.1 waiting.2.2)
    (hchanged : (s.continueLoad k).value ≠ s.value) (htyped : s.typed = true) :
    ∃ load, s.loads[k]? = some load ∧ load.explicit = true := by
  unfold State.continueLoad at hchanged
  cases hsettled : s.settled k with
  | none =>
    rw [hsettled] at hchanged
    exact absurd rfl hchanged
  | some waiting =>
    obtain ⟨load, read, answer⟩ := waiting
    obtain ⟨hload, hread, hanswer⟩ := settled_some hsettled
    refine ⟨load, hload, ?_⟩
    rw [hsettled] at hchanged
    have hended : (State.endLoad { s with loads := s.loads.eraseIdx k } load.path answer).value ≠
        s.value := by
      simp only at hchanged
      split_ifs at hchanged
      · rwa [endRename_value] at hchanged
      · exact hchanged
    obtain ⟨text, readonly, rfl, hpath, hclean, htext⟩ := endLoad_value hended
    change s.path = load.path at hpath
    change s.dirty = false at hclean
    obtain ⟨hstale, hplace, hreason⟩ := hok _ hsettled hpath hclean
    rcases hreason htyped with hrecorded | hexplicit
    · have hsound := h.reads read (List.mem_of_getElem? hread)
      have hawaited := h.awaited load (List.mem_of_getElem? hload)
      rw [List.getElem?_map, hread] at hawaited
      have hreadPath : read.path = load.path := Option.some.inj hawaited
      have hvalue : s.value = s.savedValue := by
        have hdirty := h.dirty
        rw [hclean] at hdirty
        simpa using hdirty.symm
      have hdisk : text = s.disk read.path :=
        hsound.seen text (hsound.answered text readonly hanswer) hstale
      refine absurd ?_ htext
      calc text = s.disk s.path := by rw [hdisk, hreadPath, hpath]
        _ = s.savedValue := by rw [h.recorded hrecorded, hplace]
        _ = s.value := hvalue.symm
    · exact hexplicit

theorem Invariant.step_replaces {event : Event} (h : Invariant s) (hok : Ok s event)
    (hchanged : (step s event).value ≠ s.value) (htyped : s.typed = true) :
    event.Replaces s := by
  cases event with
  | setValue _ | discard => exact trivial
  | continueLoad k => exact h.continueLoad_replaces hok hchanged htyped
  | save =>
    refine absurd ?_ hchanged
    simp only [step, State.save]
    split_ifs <;> rfl
  | reload => exact absurd (load_value _ _ _) hchanged
  | rename oldPath newPath batch => exact absurd rfl hchanged
  | look read =>
    refine absurd ?_ hchanged
    simp only [step, State.look]
    split
    · rfl
    · split <;> rfl
  | settleRead read failure readonly =>
    refine absurd ?_ hchanged
    simp only [step, State.settleRead]
    split
    · rfl
    · split <;> rfl
  | startMutation =>
    refine absurd ?_ hchanged
    simp only [step, State.startMutation]
    split
    · rw [start_value]
    · rfl
  | writeDisk =>
    refine absurd ?_ hchanged
    simp only [step, State.writeDisk]
    split <;> rfl
  | finishWrite failure =>
    refine absurd ?_ hchanged
    simp only [step, State.finishWrite]
    split
    · split_ifs <;> rfl
    · split_ifs <;> rfl
    · rfl
  | moveDisk =>
    refine absurd ?_ hchanged
    simp only [step, State.moveDisk]
    split <;> rfl
  | finishMutate answer =>
    refine absurd ?_ hchanged
    simp only [step, State.finishMutate]
    split
    · rfl
    · split
      · rw [applyIdentity_value]
      · split_ifs
        · rw [applyIdentity_value]
        · rw [failRename_value]
      · rw [failRename_value]
    · rfl

end Replacing

/-- **A clean file is what is on disk**, in every run whose events meet their condition.  A
runtime that is ready and not dirty, with no mutation and no load pending and its last write
not failed, has the text of its file.  It is dirty exactly when its value is not the text that
counts as saved.  And what the user typed is replaced only by other text, by a discard, or by
an explicit reload of the clean runtime. -/
theorem clean_is_on_disk (disk : JsString → JsString) (path : JsString) (events : List Event)
    (hok : Runs.Guarded step Ok (opened disk path) events) :
    let s := run disk path events
    (s.status = .ready → s.dirty = false → s.queue = [] → s.running = none → s.loads = [] →
      s.lastWriteFailed = false → s.value = s.disk s.path) ∧
      (s.dirty = true ↔ s.value ≠ s.savedValue) ∧
      ∀ event, Ok s event → (step s event).value ≠ s.value → s.typed = true →
        event.Replaces s := by
  intro s
  have h : Invariant s := run_keeps disk path events hok
  refine ⟨?_, ?_, fun event hevent => h.step_replaces hevent⟩
  · intro hready hclean hqueue hrunning hloads hwritten
    have hvalue : s.value = s.savedValue := by
      have hdirty := h.dirty
      rw [hclean] at hdirty
      simpa using hdirty.symm
    have hplace : s.place = s.path := by rw [State.place, hrunning]
    rcases h.ready hready hclean with hr | hr | hr | ⟨l, hl, -⟩
    · rw [hvalue, h.recorded hr, hplace]
    · rw [hwritten] at hr
      cases hr
    · rw [State.saves, hrunning, hqueue] at hr
      exact absurd rfl hr
    · rw [hloads] at hl
      cases hl
  · rw [h.dirty, decide_eq_true_iff]

/-- A file that contains a text, opened and read; the user asks for a reload, which looks at
the file; the user types another text and saves it; then the reload goes on. -/
def reloadedAcrossSave : List Event :=
  [.look 0, .settleRead 0 none false, .continueLoad 0, .reload, .look 1, .setValue (js "new"),
    .save, .startMutation, .writeDisk, .finishWrite none, .settleRead 1 none false,
    .continueLoad 0]

/-- **A clean file is not what is on disk**: the reload puts the old text back, over the text
that the user typed after it was called, and shows it as clean. -/
theorem reloadedAcrossSave_stale :
    let s := run (fun _ => js "old") (js "/a") reloadedAcrossSave
    let before := run (fun _ => js "old") (js "/a") reloadedAcrossSave.dropLast
    s.status = .ready ∧ s.dirty = false ∧ s.queue = [] ∧ s.running = none ∧ s.loads = [] ∧
      s.lastWriteFailed = false ∧ s.value = js "old" ∧ s.disk s.path = js "new" ∧
      before.value = js "new" ∧ before.typed = true ∧
      before.loads.map Load.explicit = [false] := by
  decide

/-- A file is read, edited and saved, renamed while it is clean, and edited again; the edit is
discarded. -/
def editedAndRenamed : List Event :=
  [.look 0, .settleRead 0 none false, .continueLoad 0, .setValue (js "new"), .save,
    .startMutation, .writeDisk, .finishWrite none, .rename (js "/a") (js "/b") true,
    .startMutation, .moveDisk, .finishMutate .accepted, .look 1, .settleRead 1 none false,
    .continueLoad 0, .setValue (js "more"), .discard]

/-- The renamed file has the text that was saved. -/
theorem editedAndRenamed_clean :
    (run (fun _ => js "old") (js "/a") editedAndRenamed).value =
      (run (fun _ => js "old") (js "/a") editedAndRenamed).disk (js "/b") :=
  (clean_is_on_disk (fun _ => js "old") (js "/a") editedAndRenamed (by decide)).1
    (by decide) (by decide) (by decide) (by decide) (by decide) (by decide)

end FileRuntime
