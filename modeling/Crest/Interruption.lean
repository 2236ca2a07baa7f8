import Mathlib.Data.List.Basic

/-!
# Programs that can be interrupted

A program reads the state, makes calls that change it, and may fail.  Reading
is free; each call is one indivisible change.  The same program has two
meanings: a run to its end, and a run that is killed once a given number of
calls have been made.  What a killed run leaves behind is the list of calls it
made and the state they led to.

The rules say how both meanings pass through `bind`, so a program is followed
call by call.
-/

namespace Interruption

/-- A program over states `σ` with calls `κ`, failures `ε` and results `α`. -/
inductive Program (σ κ ε α : Type)
  | done (result : α)
  | fail (error : ε)
  | read (next : σ → Program σ κ ε α)
  | call (c : κ) (next : Program σ κ ε α)

namespace Program

variable {σ κ ε α β : Type}

/-- Run one program, then another on its result. -/
protected def bind : Program σ κ ε α → (α → Program σ κ ε β) → Program σ κ ε β
  | done result, q => q result
  | fail error, _ => fail error
  | read next, q => read fun s => (next s).bind q
  | call c next, q => call c (next.bind q)

instance : Monad (Program σ κ ε) where
  pure := done
  bind := Program.bind

/-- The current state. -/
def get : Program σ κ ε σ := read done

/-- A single call. -/
def perform (c : κ) : Program σ κ ε Unit := call c (done ())

/-- Go on if the check succeeds, fail with its error otherwise. -/
def check : Except ε Unit → Program σ κ ε Unit
  | .ok () => done ()
  | .error e => fail e

/-- Fail unless the condition holds. -/
def require (condition : Bool) (error : ε) : Program σ κ ε Unit :=
  if condition then done () else fail error

/-- Make the calls of a list in order. -/
def performAll : List κ → Program σ κ ε Unit
  | [] => done ()
  | c :: cs => call c (performAll cs)

@[simp] theorem pure_eq (a : α) : (pure a : Program σ κ ε α) = done a := rfl

@[simp] theorem done_bind (a : α) (q : α → Program σ κ ε β) : (done a >>= q) = q a := rfl

@[simp] theorem fail_bind (e : ε) (q : α → Program σ κ ε β) :
    ((fail e : Program σ κ ε α) >>= q) = fail e := rfl

@[simp] theorem read_bind (next : σ → Program σ κ ε α) (q : α → Program σ κ ε β) :
    (read next >>= q) = read fun s => next s >>= q := rfl

@[simp] theorem call_bind (c : κ) (next : Program σ κ ε α) (q : α → Program σ κ ε β) :
    (call c next >>= q) = call c (next >>= q) := rfl

@[simp] theorem get_bind (q : σ → Program σ κ ε β) : (get >>= q) = read q := rfl

@[simp] theorem perform_bind (c : κ) (q : Unit → Program σ κ ε β) :
    (perform c >>= q) = call c (q ()) := rfl

@[simp] theorem check_ok : (check (.ok ()) : Program σ κ ε Unit) = done () := rfl

@[simp] theorem require_true (e : ε) : (require true e : Program σ κ ε Unit) = done () := rfl

@[simp] theorem require_false (e : ε) : (require false e : Program σ κ ε Unit) = fail e := rfl

variable (exec : κ → σ → Except ε σ)

/-- The outcome of a run to the end, with the state it stops in. -/
def run : Program σ κ ε α → σ → Except ε α × σ
  | done result, s => (.ok result, s)
  | fail error, s => (.error error, s)
  | read next, s => run (next s) s
  | call c next, s =>
    match exec c s with
    | .ok s' => run next s'
    | .error error => (.error error, s)

/-- The calls made, and the state left, by a run that is killed after `n`
calls (or ends before). -/
def interrupt : Program σ κ ε α → Nat → σ → List κ × σ
  | done _, _, s => ([], s)
  | fail _, _, s => ([], s)
  | read next, n, s => interrupt (next s) n s
  | call _ _, 0, s => ([], s)
  | call c next, n + 1, s =>
    match exec c s with
    | .ok s' => (c :: (interrupt next n s').1, (interrupt next n s').2)
    | .error _ => ([], s)

@[simp] theorem run_done (a : α) (s : σ) :
    run exec (done a : Program σ κ ε α) s = (.ok a, s) := rfl

@[simp] theorem run_fail (e : ε) (s : σ) :
    run exec (fail e : Program σ κ ε α) s = (.error e, s) := rfl

@[simp] theorem run_read (next : σ → Program σ κ ε α) (s : σ) :
    run exec (read next) s = run exec (next s) s := rfl

variable {s s' : σ}

theorem run_call {c : κ} (h : exec c s = .ok s') (next : Program σ κ ε α) :
    run exec (call c next) s = run exec next s' := by
  simp [run, h]

theorem run_bind (p : Program σ κ ε α) (q : α → Program σ κ ε β) (s : σ) :
    run exec (p >>= q) s =
      match run exec p s with
      | (.ok a, s') => run exec (q a) s'
      | (.error e, s') => (.error e, s') := by
  induction p generalizing s with
  | done _ | fail _ => rfl
  | read next ih => exact ih s s
  | call c next ih =>
    simp only [call_bind, run]
    cases exec c s with
    | ok s' => exact ih s'
    | error e => rfl

variable {p : Program σ κ ε α} {a : α}

theorem run_bind_ok (h : run exec p s = (.ok a, s')) (q : α → Program σ κ ε β) :
    run exec (p >>= q) s = run exec (q a) s' := by
  rw [run_bind, h]

@[simp] theorem interrupt_done (a : α) (n : Nat) (s : σ) :
    interrupt exec (done a : Program σ κ ε α) n s = ([], s) := by
  cases n <;> rfl

@[simp] theorem interrupt_read (next : σ → Program σ κ ε α) (n : Nat) (s : σ) :
    interrupt exec (read next) n s = interrupt exec (next s) n s := by
  cases n <;> rfl

@[simp] theorem interrupt_zero (p : Program σ κ ε α) (s : σ) :
    interrupt exec p 0 s = ([], s) := by
  induction p generalizing s with
  | done _ | fail _ | call _ _ _ => rfl
  | read next ih => exact ih s s

theorem interrupt_call {c : κ} (h : exec c s = .ok s') (next : Program σ κ ε α) (n : Nat) :
    interrupt exec (call c next) (n + 1) s =
      (c :: (interrupt exec next n s').1, (interrupt exec next n s').2) := by
  simp [interrupt, h]

/-- `Steps p s cs p' s'`: started in `s`, the program `p` makes the calls `cs`,
all successful, and then is the program `p'` in the state `s'`. -/
inductive Steps : Program σ κ ε α → σ → List κ → Program σ κ ε α → σ → Prop
  | refl (p : Program σ κ ε α) (s : σ) : Steps p s [] p s
  | read {next : σ → Program σ κ ε α} {s s' : σ} {cs : List κ} {p : Program σ κ ε α} :
      Steps (next s) s cs p s' → Steps (read next) s cs p s'
  | call {c : κ} {next : Program σ κ ε α} {s s₁ s' : σ} {cs : List κ} {p : Program σ κ ε α} :
      exec c s = .ok s₁ → Steps next s₁ cs p s' → Steps (call c next) s (c :: cs) p s'

variable {exec}

variable {cs cs' : List κ} {p' : Program σ κ ε α} {s₁ : σ}

theorem Steps.bind {q : α → Program σ κ ε β} {p' : Program σ κ ε β}
    (h : Steps exec p s cs (done a) s₁) (h' : Steps exec (q a) s₁ cs' p' s') :
    Steps exec (p >>= q) s (cs ++ cs') p' s' := by
  generalize hd : done a = r at h
  induction h with
  | refl p s =>
    subst hd
    exact h'
  | read _ ih => exact .read (ih h' hd)
  | call hc _ ih => exact .call hc (ih h' hd)

theorem Steps.then (h : Steps exec p s cs (done a) s') (q : α → Program σ κ ε β) :
    Steps exec (p >>= q) s cs (q a) s' := by
  have h' := h.bind (.refl (q a) s')
  rwa [List.append_nil] at h'

theorem Steps.run_eq (h : Steps exec p s cs p' s') :
    run exec p s = run exec p' s' := by
  induction h with
  | refl p s => rfl
  | read _ ih => exact ih
  | call hc _ ih => rw [run_call exec hc, ih]

/-- The calls of a list, made one after the other from `s`, all succeed and
lead to `s'`. -/
def Leads (exec : κ → σ → Except ε σ) : σ → List κ → σ → Prop
  | s, [], s' => s' = s
  | s, c :: cs, s' => ∃ s₁, exec c s = .ok s₁ ∧ Leads exec s₁ cs s'

theorem Steps.leads (h : Steps exec p s cs p' s') :
    Leads exec s cs s' := by
  induction h with
  | refl p s => rfl
  | read _ ih => exact ih
  | call hc _ ih => exact ⟨_, hc, ih⟩

theorem Leads.unique {s'' : σ} (h : Leads exec s cs s') (h' : Leads exec s cs s'') :
    s' = s'' := by
  induction cs generalizing s with
  | nil => exact h.trans h'.symm
  | cons c cs ih =>
    obtain ⟨s₁, hc, hcs⟩ := h
    obtain ⟨s₂, hc', hcs'⟩ := h'
    rw [hc] at hc'
    cases hc'
    exact ih hcs hcs'

theorem Leads.cons_cases {c : κ} {made rest : List κ} {mid : σ}
    (hmid : Leads exec s made mid) (hcs : c :: cs = made ++ rest) (hc : exec c s = .ok s₁) :
    (made = [] ∧ mid = s) ∨
      ∃ made', made = c :: made' ∧ cs = made' ++ rest ∧ Leads exec s₁ made' mid := by
  cases made with
  | nil => exact .inl ⟨rfl, hmid⟩
  | cons c' made' =>
    obtain ⟨rfl, hrest⟩ := List.cons.inj hcs
    obtain ⟨s₂, hc', hmid'⟩ := hmid
    rw [hc] at hc'
    cases hc'
    exact .inr ⟨made', rfl, hrest, hmid'⟩

theorem Leads.nil_cases {made rest : List κ} {mid : σ} (hmid : Leads exec s made mid)
    (hcs : [] = made ++ rest) : made = [] ∧ mid = s := by
  obtain ⟨rfl, rfl⟩ := List.append_eq_nil_iff.mp hcs.symm
  exact ⟨rfl, hmid⟩

theorem Leads.pair_cases {c c' : κ} {made rest : List κ} {mid s₂ : σ}
    (hmid : Leads exec s made mid) (hcs : [c, c'] = made ++ rest) (hc : exec c s = .ok s₁)
    (hc' : exec c' s₁ = .ok s₂) :
    made = [] ∧ mid = s ∨ made = [c] ∧ mid = s₁ ∨ made = [c, c'] ∧ mid = s₂ := by
  rcases hmid.cons_cases hcs hc with h | ⟨made', rfl, hcs', hmid'⟩
  · exact .inl h
  rcases hmid'.cons_cases hcs' hc' with ⟨rfl, h⟩ | ⟨made'', rfl, hcs'', hmid''⟩
  · exact .inr (.inl ⟨rfl, h⟩)
  · obtain ⟨rfl, h⟩ := hmid''.nil_cases hcs''
    exact .inr (.inr ⟨rfl, h⟩)

theorem Leads.append_cases {made rest : List κ} {mid : σ} (hmid : Leads exec s made mid)
    (hcs : cs ++ cs' = made ++ rest) (hlead : Leads exec s cs s₁) :
    (∃ rest', cs = made ++ rest') ∨
      ∃ made', made = cs ++ made' ∧ cs' = made' ++ rest ∧ Leads exec s₁ made' mid := by
  induction cs generalizing s made with
  | nil =>
    subst hlead
    exact .inr ⟨made, rfl, hcs, hmid⟩
  | cons c cs ih =>
    obtain ⟨s₂, hc, hlead'⟩ := hlead
    rcases hmid.cons_cases hcs hc with ⟨rfl, -⟩ | ⟨made', rfl, hcs', hmid'⟩
    · exact .inl ⟨c :: cs, rfl⟩
    · rcases ih hmid' hcs' hlead' with ⟨rest', rfl⟩ | ⟨made'', rfl, hcs'', hmid''⟩
      · exact .inl ⟨rest', rfl⟩
      · exact .inr ⟨made'', rfl, hcs'', hmid''⟩

theorem Steps.interrupt_eq (h : Steps exec p s cs (done a) s') (n : Nat) :
    ∃ made rest mid, cs = made ++ rest ∧ Leads exec s made mid ∧
      interrupt exec p n s = (made, mid) := by
  generalize hd : done a = r at h
  induction h generalizing n with
  | refl p s =>
    subst hd
    exact ⟨[], [], s, rfl, rfl, interrupt_done exec a n s⟩
  | @read next s s' cs p _ ih =>
    obtain ⟨made, rest, mid, hcs, hmid, heq⟩ := ih n hd
    exact ⟨made, rest, mid, hcs, hmid, by rw [interrupt_read, heq]⟩
  | @call c next s s₁ s' cs p hc _ ih =>
    cases n with
    | zero => exact ⟨[], c :: cs, s, rfl, rfl, interrupt_zero exec _ s⟩
    | succ n =>
      obtain ⟨made, rest, mid, rfl, hmid, heq⟩ := ih n hd
      exact ⟨c :: made, rest, mid, rfl, ⟨s₁, hc, hmid⟩, by
        rw [interrupt_call exec hc, heq]⟩

theorem steps_performAll (h : Leads exec s cs s') :
    Steps exec (performAll cs) s cs (done ()) s' := by
  induction cs generalizing s with
  | nil =>
    subst h
    exact .refl _ _
  | cons c cs ih =>
    obtain ⟨s₁, hc, hcs⟩ := h
    exact .call hc (ih hcs)

end Program

end Interruption
