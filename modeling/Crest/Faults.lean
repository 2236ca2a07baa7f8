import Mathlib.Logic.Basic

/-!
# Programs whose calls may fail

A call of such a program changes the state for good, but it may throw, with or without
the change, and the process may stop before it.  A list of outcomes says what becomes of
the calls, one after the other; calls beyond the list do what they are meant to do.

`wp p Q X D s` says where the program `p` can get from the state `s`: `Q` holds if it
returns, `X` if it throws and `D` if the process stops, whatever the outcomes.  The rules
follow a program from its first call to its last.
-/

namespace Faults

/-- What becomes of a call. -/
inductive Outcome (ε : Type)
  /-- It does what it is meant to do. -/
  | ok
  /-- It throws and changes nothing. -/
  | lost (error : ε)
  /-- It throws although it has changed the state. -/
  | kept (error : ε)
  /-- The process stops before it. -/
  | dies
  deriving DecidableEq, Repr

/-- Whether the call changed the state. -/
def Outcome.persisted {ε : Type} : Outcome ε → Bool
  | .ok => true
  | .kept _ => true
  | .lost _ => false
  | .dies => false

/-- How a program ends. -/
inductive Ending (ε α : Type)
  | returned (result : α)
  | threw (error : ε)
  | died
  deriving DecidableEq, Repr

/-- A program over states `σ` with errors `ε` and results `α`. -/
def Faulty (σ ε α : Type) : Type :=
  σ → List (Outcome ε) → Ending ε α × σ × List (Outcome ε)

namespace Faulty

variable {σ ε α β : Type}

/-- Run one program, then another on its result. -/
protected def bind (p : Faulty σ ε α) (q : α → Faulty σ ε β) : Faulty σ ε β := fun s os =>
  match p s os with
  | (.returned a, s', os') => q a s' os'
  | (.threw e, s', os') => (.threw e, s', os')
  | (.died, s', os') => (.died, s', os')

instance : Monad (Faulty σ ε) where
  pure a := fun s os => (.returned a, s, os)
  bind := Faulty.bind

/-- Throw an error. -/
def throwing (e : ε) : Faulty σ ε α := fun s os => (.threw e, s, os)

/-- The value, or throw the error. -/
def ofExcept : Except ε α → Faulty σ ε α
  | .ok a => pure a
  | .error e => throwing e

/-- Handle what the program throws. -/
def catching (p : Faulty σ ε α) (handler : ε → Faulty σ ε α) : Faulty σ ε α := fun s os =>
  match p s os with
  | (.threw e, s', os') => handler e s' os'
  | result => result

/-- Change the state when the program has returned or thrown, not when it died. -/
def cleaningUp (p : Faulty σ ε α) (cleanup : σ → σ) : Faulty σ ε α := fun s os =>
  match p s os with
  | (.died, s', os') => (.died, s', os')
  | (ending, s', os') => (ending, cleanup s', os')

/-- The state. -/
def get : Faulty σ ε σ := fun s os => (.returned s, s, os)

/-- Change what is lost with the process; this cannot fail. -/
def modify (f : σ → σ) : Faulty σ ε Unit := fun s os => (.returned (), f s, os)

/-- A call: `eff` says what it leaves for every outcome but the end of the process. -/
def attempt (eff : Outcome ε → σ → σ) : Faulty σ ε Unit := fun s os =>
  match os with
  | [] => (.returned (), eff .ok s, [])
  | .ok :: os => (.returned (), eff .ok s, os)
  | .lost e :: os => (.threw e, eff (.lost e) s, os)
  | .kept e :: os => (.threw e, eff (.kept e) s, os)
  | .dies :: os => (.died, s, os)

/-- For each item one after the other. -/
def forEach (items : List α) (body : α → Faulty σ ε Unit) : Faulty σ ε Unit :=
  match items with
  | [] => pure ()
  | item :: rest => do
      body item
      forEach rest body

/-- Where a program gets by some outcomes. -/
def wpFor (os : List (Outcome ε)) (p : Faulty σ ε α) (Q : α → σ → Prop) (X : ε → σ → Prop)
    (D : σ → Prop) (s : σ) : Prop :=
  match p s os with
  | (.returned a, s', _) => Q a s'
  | (.threw e, s', _) => X e s'
  | (.died, s', _) => D s'

/-- Where a program can get. -/
def wp (p : Faulty σ ε α) (Q : α → σ → Prop) (X : ε → σ → Prop) (D : σ → Prop) (s : σ) : Prop :=
  ∀ os, wpFor os p Q X D s

section Rules

variable {Q Q' : α → σ → Prop} {X X' : ε → σ → Prop} {D D' : σ → Prop} {s : σ}

theorem wp_pure {a : α} (h : Q a s) : wp (pure a : Faulty σ ε α) Q X D s := fun _ => h

theorem wp_throwing {e : ε} (h : X e s) : wp (throwing e : Faulty σ ε α) Q X D s := fun _ => h

theorem wp_get {Q : σ → σ → Prop} (h : Q s s) : wp (get : Faulty σ ε σ) Q X D s := fun _ => h

theorem wp_modify {Q : Unit → σ → Prop} {f : σ → σ} (h : Q () (f s)) :
    wp (modify f : Faulty σ ε Unit) Q X D s := fun _ => h

theorem wpFor_bind {os : List (Outcome ε)} {p : Faulty σ ε β} {q : β → Faulty σ ε α}
    (h : wpFor os p (fun b => wp (q b) Q X D) X D s) : wpFor os (p >>= q) Q X D s := by
  show match Faulty.bind p q s os with
    | (.returned a, s', _) => Q a s'
    | (.threw e, s', _) => X e s'
    | (.died, s', _) => D s'
  unfold Faulty.bind
  unfold wpFor at h
  cases hrun : p s os with
  | mk ending rest =>
    obtain ⟨s', os'⟩ := rest
    rw [hrun] at h
    cases ending with
    | returned b => exact h os'
    | threw _ | died => exact h

theorem wp_bind {p : Faulty σ ε β} {q : β → Faulty σ ε α}
    (h : wp p (fun b => wp (q b) Q X D) X D s) : wp (p >>= q) Q X D s :=
  fun os => wpFor_bind (h os)

theorem wpFor_get {os : List (Outcome ε)} {q : σ → Faulty σ ε α}
    (h : wpFor os (q s) Q X D s) : wpFor os (get >>= q) Q X D s := h

theorem wpFor_ok {os : List (Outcome ε)} {b : β} {q : β → Faulty σ ε α}
    (h : wpFor os (q b) Q X D s) : wpFor os (ofExcept (.ok b) >>= q) Q X D s := h

theorem wpFor_error {os : List (Outcome ε)} {e : ε} {q : β → Faulty σ ε α} (h : X e s) :
    wpFor os (ofExcept (.error e) >>= q) Q X D s := h

theorem wpFor_catching {os : List (Outcome ε)} {p : Faulty σ ε α} {handler : ε → Faulty σ ε α}
    (h : wpFor os p Q (fun e => wp (handler e) Q X D) D s) :
    wpFor os (catching p handler) Q X D s := by
  unfold wpFor catching
  unfold wpFor at h
  cases hrun : p s os with
  | mk ending rest =>
    obtain ⟨s', os'⟩ := rest
    rw [hrun] at h
    cases ending with
    | returned _ | died => exact h
    | threw e => exact h os'

theorem wp_catching {p : Faulty σ ε α} {handler : ε → Faulty σ ε α}
    (h : wp p Q (fun e => wp (handler e) Q X D) D s) : wp (catching p handler) Q X D s :=
  fun os => wpFor_catching (h os)

theorem wpFor_cleaningUp {os : List (Outcome ε)} {p : Faulty σ ε α} {cleanup : σ → σ}
    (h : wpFor os p (fun a s' => Q a (cleanup s')) (fun e s' => X e (cleanup s')) D s) :
    wpFor os (cleaningUp p cleanup) Q X D s := by
  unfold wpFor cleaningUp
  unfold wpFor at h
  cases hrun : p s os with
  | mk ending rest =>
    obtain ⟨s', os'⟩ := rest
    rw [hrun] at h
    cases ending with
    | returned _ | threw _ | died => exact h

theorem wpFor_attempt {os : List (Outcome ε)} {Q : Unit → σ → Prop}
    {eff : Outcome ε → σ → σ} (hos : ∀ e rest, os ≠ .kept e :: rest) (hok : Q () (eff .ok s))
    (hlost : ∀ e, X e (eff (.lost e) s)) (hdies : D s) :
    wpFor os (attempt eff) Q X D s := by
  cases os with
  | nil => exact hok
  | cons outcome rest =>
    cases outcome with
    | ok => exact hok
    | lost e => exact hlost e
    | kept e => exact absurd rfl (hos e rest)
    | dies => exact hdies

theorem wp_attempt {Q : Unit → σ → Prop} {eff : Outcome ε → σ → σ}
    (hok : Q () (eff .ok s)) (hlost : ∀ e, X e (eff (.lost e) s))
    (hkept : ∀ e, X e (eff (.kept e) s)) (hdies : D s) :
    wp (attempt eff) Q X D s := by
  intro os
  cases os with
  | nil => exact hok
  | cons outcome rest =>
    cases outcome with
    | ok => exact hok
    | lost e => exact hlost e
    | kept e => exact hkept e
    | dies => exact hdies

theorem wpFor_mono {os : List (Outcome ε)} {p : Faulty σ ε α} (h : wpFor os p Q X D s)
    (hQ : ∀ a s', Q a s' → Q' a s') (hX : ∀ e s', X e s' → X' e s') (hD : ∀ s', D s' → D' s') :
    wpFor os p Q' X' D' s := by
  unfold wpFor at h ⊢
  cases hrun : p s os with
  | mk ending rest =>
    obtain ⟨s', os'⟩ := rest
    rw [hrun] at h
    cases ending with
    | returned a => exact hQ a s' h
    | threw e => exact hX e s' h
    | died => exact hD s' h

theorem wp_mono {p : Faulty σ ε α} (h : wp p Q X D s)
    (hQ : ∀ a s', Q a s' → Q' a s') (hX : ∀ e s', X e s' → X' e s') (hD : ∀ s', D s' → D' s') :
    wp p Q' X' D' s :=
  fun os => wpFor_mono (h os) hQ hX hD

theorem wp_ofExcept {r : Except ε α} (hok : ∀ a, r = .ok a → Q a s)
    (herror : ∀ e, r = .error e → X e s) : wp (ofExcept r : Faulty σ ε α) Q X D s := by
  cases r with
  | ok a => exact wp_pure (hok a rfl)
  | error e => exact wp_throwing (herror e rfl)

end Rules

theorem wp_forEach {items : List β} {body : β → Faulty σ ε Unit} {I : List β → σ → Prop}
    {X : ε → σ → Prop} {D : σ → Prop}
    (hround : ∀ item rest s, I (item :: rest) s → wp (body item) (fun _ => I rest) X D s)
    {s : σ} (h : I items s) :
    wp (forEach items body) (fun _ => I []) X D s := by
  induction items generalizing s with
  | nil => exact wp_pure h
  | cons item rest ih =>
    apply wp_bind
    refine wp_mono (hround item rest s h) ?_ (fun _ _ hx => hx) (fun _ hd => hd)
    intro _ s' hs'
    exact ih hs'

end Faulty

end Faults
