import Mathlib.Data.List.Basic

/-!
# First-fit packing in order

Groups are packed into chunks in the order in which they come.  A group goes to the current chunk
if the chunk still fits with it, and starts the next one otherwise.  Nothing is lost, no group is
torn apart, and every chunk fits where every group fits alone.
-/

namespace FirstFit

variable {α : Type*} (fits : List α → Bool)

/-- The chunks of the groups, where the first of them has begun. -/
def pack : List (List α) → List α → List (List α)
  | [], current => if current = [] then [] else [current]
  | group :: groups, current =>
    if fits (current ++ group) then pack groups (current ++ group)
    else (if current = [] then [] else [current]) ++ pack groups group

variable {fits}

example : pack fits [] [] = [] := by simp [pack]

theorem pack_flatten (groups : List (List α)) (current : List α) :
    (pack fits groups current).flatten = current ++ groups.flatten := by
  induction groups generalizing current with
  | nil =>
    rw [pack]
    split
    · rename_i hempty
      simp [hempty]
    · simp
  | cons group groups ih =>
    rw [pack]
    split
    · rw [ih, List.flatten_cons, List.append_assoc]
    · rw [List.flatten_append, ih, List.flatten_cons]
      split
      · rename_i hempty
        simp [hempty]
      · simp

theorem pack_length_pos {current : List α} (groups : List (List α)) (h : current ≠ []) :
    0 < (pack fits groups current).length := by
  rw [List.length_pos_iff]
  intro hnone
  have hflatten := @pack_flatten _ fits groups current
  rw [hnone, List.flatten_nil] at hflatten
  exact h (List.append_eq_nil_iff.mp hflatten.symm).1

theorem pack_fits {groups : List (List α)} (hgroups : ∀ group ∈ groups, fits group = true)
    {current : List α} (hcurrent : current ≠ [] → fits current = true) :
    ∀ chunk ∈ pack fits groups current, fits chunk = true := by
  induction groups generalizing current with
  | nil =>
    rw [pack]
    split
    · simp
    · intro chunk hchunk
      rw [List.mem_singleton.mp hchunk]
      exact hcurrent ‹_›
  | cons group groups ih =>
    have hrest : ∀ group ∈ groups, fits group = true :=
      fun other hother => hgroups other (List.mem_cons_of_mem _ hother)
    rw [pack]
    split
    · rename_i hfits
      exact ih hrest fun _ => hfits
    · intro chunk hchunk
      rcases List.mem_append.mp hchunk with hchunk | hchunk
      · split at hchunk
        · exact absurd hchunk (by simp)
        · rw [List.mem_singleton.mp hchunk]
          exact hcurrent ‹_›
      · exact ih hrest (fun _ => hgroups group List.mem_cons_self) chunk hchunk

theorem pack_current {current : List α} (groups : List (List α)) (h : current ≠ []) :
    ∃ more rest, pack fits groups current = (current ++ more) :: rest := by
  induction groups generalizing current with
  | nil => exact ⟨[], [], by rw [pack, if_neg h, List.append_nil]⟩
  | cons group groups ih =>
    rw [pack]
    split
    · have hmore : current ++ group ≠ [] := fun hempty => h (List.append_eq_nil_iff.mp hempty).1
      obtain ⟨more, rest, hpack⟩ := ih hmore
      exact ⟨group ++ more, rest, by rw [hpack, List.append_assoc]⟩
    · exact ⟨[], pack fits groups group, by simp⟩

theorem pack_whole {group : List α} (hgroup : group ≠ []) (before after : List (List α))
    (current : List α) :
    ∃ front chunk back u v, pack fits (before ++ group :: after) current = front ++ chunk :: back ∧
      chunk = u ++ group ++ v ∧ front.flatten ++ u = current ++ before.flatten := by
  induction before generalizing current with
  | nil =>
    rw [List.nil_append, pack]
    split
    · have hmore : current ++ group ≠ [] := fun hempty =>
        hgroup (List.append_eq_nil_iff.mp hempty).2
      obtain ⟨more, rest, hpack⟩ := @pack_current _ fits _ after hmore
      exact ⟨[], _, rest, current, more, hpack, rfl, by simp⟩
    · obtain ⟨more, rest, hpack⟩ := @pack_current _ fits _ after hgroup
      refine ⟨_, group ++ more, rest, [], more, by rw [hpack], by simp, ?_⟩
      split
      · rename_i hempty
        simp [hempty]
      · simp
  | cons first before ih =>
    rw [List.cons_append, pack]
    split
    · obtain ⟨front, chunk, back, u, v, hpack, hchunk, hbefore⟩ := ih (current ++ first)
      exact ⟨front, chunk, back, u, v, hpack, hchunk, by simpa using hbefore⟩
    · obtain ⟨front, chunk, back, u, v, hpack, hchunk, hbefore⟩ := ih first
      refine ⟨_ ++ front, chunk, back, u, v, by rw [hpack, List.append_assoc], hchunk, ?_⟩
      rw [List.flatten_append, List.append_assoc, hbefore, List.flatten_cons]
      split
      · rename_i hempty
        simp [hempty]
      · simp

end FirstFit
