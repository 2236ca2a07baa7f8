import Crest.RpcResponses
import Crest.Slots

/-!
# When a request is answered once

The flag of a handler is tested before a response is sent and set behind it, so two calls may both
find it clear.  As long as no call passes the test while another that ends the request is on its
way, and a call that ends the request passes it only while no other is on its way, the last
response is the last one; and there is one where it can be encoded and its `select` does not take
the context that has merely been canceled.
-/

namespace RpcResponses

open Slots WshRpc

variable {δ : Type}

/-- A call has found the flag clear and is not back yet. -/
def Call.inFlight : Call δ → Bool
  | .load _ => false
  | _ => true

/-- A call has found the flag clear and is going to set it. -/
def Call.ends : Call δ → Bool
  | .load _ => false
  | .select msg => !msg.Cont
  | _ => true

/-- A call is in the deferred `close`. -/
def Call.closing : Call δ → Bool
  | .load _ => false
  | .select _ => false
  | _ => true

/-- A call is going to end the request unless it finds the flag set. -/
def Call.wantsEnd : Call δ → Bool
  | .load msg => !msg.Cont
  | call => call.ends

namespace Goroutine

/-- The goroutine is in a call that has found the flag clear. -/
def inFlight (g : Goroutine δ) : Bool := g.call.any Call.inFlight

/-- The goroutine is in a call that is going to set the flag. -/
def ends (g : Goroutine δ) : Bool := g.call.any Call.ends

/-- The goroutine is in a deferred `close`. -/
def closing (g : Goroutine δ) : Bool := g.call.any Call.closing

/-- The goroutine is not done before the request is ended. -/
def responsible (g : Goroutine δ) : Bool := g.call.any Call.wantsEnd || g.next != .returned

end Goroutine

theorem Call.closing_imp {call : Call δ} (h : call.closing = true) :
    call.inFlight = true ∧ call.ends = true ∧ call.wantsEnd = true := by
  cases call <;> simp_all [Call.closing, Call.inFlight, Call.ends, Call.wantsEnd]

theorem Call.inFlight_of_ends {call : Call δ} (h : call.ends = true) : call.inFlight = true := by
  cases call <;> simp_all [Call.inFlight, Call.ends]

theorem Goroutine.ends_of_closing {g : Goroutine δ} (h : g.closing = true) : g.ends = true := by
  obtain ⟨call, hcall, hclosing⟩ := (Option.any_eq_true _ _).mp h
  exact (Option.any_eq_true _ _).mpr ⟨call, hcall, (Call.closing_imp hclosing).2.1⟩

theorem Goroutine.inFlight_of_ends {g : Goroutine δ} (h : g.ends = true) : g.inFlight = true := by
  obtain ⟨call, hcall, hends⟩ := (Option.any_eq_true _ _).mp h
  exact (Option.any_eq_true _ _).mpr ⟨call, hcall, Call.inFlight_of_ends hends⟩

theorem Goroutine.idle {g : Goroutine δ} (h : g.inFlight = false) :
    g.ends = false ∧ g.closing = false := by
  have hends : g.ends = false := by
    by_contra hends
    rw [Goroutine.inFlight_of_ends (by simpa using hends)] at h
    exact absurd h (by simp)
  refine ⟨hends, ?_⟩
  by_contra hclosing
  rw [Goroutine.ends_of_closing (by simpa using hclosing)] at hends
  exact absurd hends (by simp)

/-- Only the last of the responses ends the request. -/
def EndsOnce (sent : List (RpcMessage δ)) : Prop :=
  ∃ before last, sent = before ++ [last] ∧ last.Cont = false ∧ ∀ msg ∈ before, msg.Cont = true

/-- The responses of a handler whose request has been ended. -/
def Settled (handler : RpcResponseHandler) (sent : List (RpcMessage δ)) : Prop :=
  EndsOnce sent ∨
    ((handler.deadlineExceeded = true ∨ handler.reqId = "") ∧ ∀ msg ∈ sent, msg.Cont = true)

/-- What holds of a handler, of its responses and of the goroutines that work for it. -/
structure HandlerOk
    (handler : RpcResponseHandler) (sent : List (RpcMessage δ))
    (owns : Nat → Goroutine δ → Prop) : Prop where
  /-- No call is in flight beside one that ends the request. -/
  alone : ∀ i j g g', owns i g → owns j g' → i ≠ j → g.ends = true → g'.inFlight = false
  /-- No call is in flight once the flag is set. -/
  quiet : handler.done = true → ∀ i g, owns i g → g.inFlight = false
  /-- Before the request is ended all responses are followed by others. -/
  undecided : handler.done = false → (∀ i g, owns i g → g.closing = false) →
    ∀ msg ∈ sent, msg.Cont = true
  /-- Once it is ended it is settled. -/
  settled : (handler.done = true ∨ ∃ i g, owns i g ∧ g.closing = true) → Settled handler sent
  /-- A request without an id has no responses, -/
  silent : handler.reqId = "" → sent = []
  /-- and none is about to be sent. -/
  selecting : ∀ i g msg, owns i g → g.call = some (.select msg) → handler.reqId ≠ ""
  /-- Somebody is going to end the request. -/
  responsible : handler.done = true ∨ ∃ i g, owns i g ∧ g.responsible = true

section Handlers

variable {handler handler' : RpcResponseHandler}
variable {sent : List (RpcMessage δ)}
variable {owns owns' : Nat → Goroutine δ → Prop}
variable {k : Nat}
variable {g g' : Goroutine δ}

/-- The goroutines behind the step of one. -/
def Moves (owns owns' : Nat → Goroutine δ → Prop) (k : Nat) (g g' : Goroutine δ) : Prop :=
  (∀ x, owns k x ↔ x = g) ∧ ∀ i x, owns' i x ↔ if i = k then x = g' else owns i x

section

variable (h : Moves owns owns' k g g')
include h

theorem Moves.self : owns k g ∧ owns' k g' :=
  ⟨(h.1 g).mpr rfl, (h.2 k g').mpr (by rw [if_pos rfl])⟩

theorem Moves.cases {i : Nat} {x : Goroutine δ} (hx : owns' i x) :
    (i = k ∧ x = g') ∨ (i ≠ k ∧ owns i x) := by
  have hcases := (h.2 i x).mp hx
  split at hcases
  · exact .inl ⟨‹_›, hcases⟩
  · exact .inr ⟨‹_›, hcases⟩

theorem Moves.other {i : Nat} {x : Goroutine δ} (hx : owns i x) (hne : i ≠ k) : owns' i x :=
  (h.2 i x).mpr (by rwa [if_neg hne])

end

variable (h : HandlerOk handler sent owns)
include h

theorem HandlerOk.move (hmoves : Moves owns owns' k g g')
    (hg : g.inFlight = false) (hg' : g'.inFlight = false)
    (hresponsible : g.responsible = true → handler.done = true ∨ g'.responsible = true ∨
      ∃ i x, i ≠ k ∧ owns i x ∧ x.responsible = true)
    (hreqId : handler'.reqId = handler.reqId) (hdone : handler'.done = handler.done)
    (hdeadline : handler'.deadlineExceeded = handler.deadlineExceeded) :
    HandlerOk handler' sent owns' := by
  have hcases : ∀ {i : Nat} {x : Goroutine δ}, owns' i x → x.inFlight = true →
      i ≠ k ∧ owns i x := by
    intro i x hx hflight
    rcases hmoves.cases hx with ⟨-, rfl⟩ | hold
    · rw [hg'] at hflight
      exact absurd hflight (by simp)
    · exact hold
  have hclosing : ∀ {x : Goroutine δ}, x.closing = true → x.inFlight = true :=
    fun hx => Goroutine.inFlight_of_ends (Goroutine.ends_of_closing hx)
  refine ⟨?_, ?_, ?_, ?_, ?_, ?_, ?_⟩
  · intro i j x x' hx hx' hne hends
    by_contra hflight
    obtain ⟨-, hold⟩ := hcases hx (Goroutine.inFlight_of_ends hends)
    obtain ⟨-, hold'⟩ := hcases hx' (by simpa using hflight)
    exact hflight (h.alone i j x x' hold hold' hne hends)
  · intro hset i x hx
    by_contra hflight
    obtain ⟨-, hold⟩ := hcases hx (by simpa using hflight)
    exact hflight (h.quiet (by rw [← hdone, hset]) i x hold)
  · intro hclear hnone
    refine h.undecided (by rw [← hdone, hclear]) fun i x hx => ?_
    by_cases hne : i = k
    · subst hne
      rw [(hmoves.1 x).mp hx]
      exact (Goroutine.idle hg).2
    · exact hnone i x (hmoves.other hx hne)
  · intro hended
    have hsettled : Settled handler sent := by
      refine h.settled ?_
      rcases hended with hset | ⟨i, x, hx, hclose⟩
      · exact .inl (by rw [← hdone, hset])
      · exact .inr ⟨i, x, (hcases hx (hclosing hclose)).2, hclose⟩
    unfold Settled at hsettled ⊢
    rwa [hreqId, hdeadline]
  · intro hempty
    exact h.silent (by rw [← hreqId, hempty])
  · intro i x msg hx hcall
    rw [hreqId]
    refine h.selecting i x msg (hcases hx ?_).2 hcall
    rw [Goroutine.inFlight, hcall]
    rfl
  · rcases h.responsible with hset | ⟨i, x, hx, hwants⟩
    · exact .inl (by rw [hdone, hset])
    · by_cases hne : i = k
      · subst hne
        rw [(hmoves.1 x).mp hx] at hwants
        rcases hresponsible hwants with hset | hwants' | ⟨j, x', hne, hx', hwants'⟩
        · exact .inl (by rw [hdone, hset])
        · exact .inr ⟨i, g', hmoves.self.2, hwants'⟩
        · exact .inr ⟨j, x', hmoves.other hx' hne, hwants'⟩
      · exact .inr ⟨i, x, hmoves.other hx hne, hwants⟩

theorem HandlerOk.start
    (howns : ∀ i x, owns' i x ↔ owns i x ∨ (i = k ∧ x = g')) (hg' : g'.inFlight = false) :
    HandlerOk handler sent owns' := by
  have hcases : ∀ {i : Nat} {x : Goroutine δ}, owns' i x → x.inFlight = true → owns i x := by
    intro i x hx hflight
    rcases (howns i x).mp hx with hold | ⟨-, rfl⟩
    · exact hold
    · rw [hg'] at hflight
      exact absurd hflight (by simp)
  refine ⟨?_, ?_, ?_, ?_, h.silent, ?_, ?_⟩
  · intro i j x x' hx hx' hne hends
    by_contra hflight
    have hold := hcases hx (Goroutine.inFlight_of_ends hends)
    exact hflight (h.alone i j x x' hold (hcases hx' (by simpa using hflight)) hne hends)
  · intro hset i x hx
    by_contra hflight
    exact hflight (h.quiet hset i x (hcases hx (by simpa using hflight)))
  · intro hclear hnone
    exact h.undecided hclear fun i x hx => hnone i x ((howns i x).mpr (.inl hx))
  · intro hended
    refine h.settled ?_
    rcases hended with hset | ⟨i, x, hx, hclose⟩
    · exact .inl hset
    · exact .inr ⟨i, x, hcases hx (Goroutine.inFlight_of_ends (Goroutine.ends_of_closing hclose)),
        hclose⟩
  · intro i x msg hx hcall
    refine h.selecting i x msg (hcases hx ?_) hcall
    rw [Goroutine.inFlight, hcall]
    rfl
  · rcases h.responsible with hset | ⟨i, x, hx, hwants⟩
    · exact .inl hset
    · exact .inr ⟨i, x, (howns i x).mpr (.inl hx), hwants⟩

variable (hmoves : Moves owns owns' k g g')
include hmoves

theorem HandlerOk.others (hends : g.ends = true) {i : Nat} {x : Goroutine δ}
    (hx : owns i x) (hne : i ≠ k) :
    x.inFlight = false :=
  h.alone k i g x hmoves.self.1 hx (Ne.symm hne) hends

theorem HandlerOk.clear (hflight : g.inFlight = true) :
    handler.done = false := by
  by_contra hset
  rw [h.quiet (by simpa using hset) k g hmoves.self.1] at hflight
  exact absurd hflight (by simp)

theorem HandlerOk.close
    (hclear : handler.done = false) (hothers : ∀ i x, owns i x → i ≠ k → x.inFlight = false)
    (hclosing : g'.closing = true) (hreqId : handler'.reqId = handler.reqId)
    (hdone : handler'.done = handler.done)
    (hdeadline : handler'.deadlineExceeded = handler.deadlineExceeded)
    {sent' : List (RpcMessage δ)} (hsettled : Settled handler sent')
    (hsilent : handler.reqId = "" → sent' = []) :
    HandlerOk handler' sent' owns' := by
  have hcall : ∀ msg, g'.call ≠ some (.select msg) := by
    intro msg hmsg
    rw [Goroutine.closing, hmsg] at hclosing
    exact absurd hclosing (by simp [Call.closing])
  refine ⟨?_, ?_, ?_, ?_, ?_, ?_, ?_⟩
  · intro i j x x' hx hx' hne hends
    rcases hmoves.cases hx with ⟨rfl, rfl⟩ | ⟨hi, hold⟩
    · rcases hmoves.cases hx' with ⟨rfl, -⟩ | ⟨hj, hold'⟩
      · exact absurd rfl hne
      · exact hothers j x' hold' hj
    · have hidle := (Goroutine.idle (hothers i x hold hi)).1
      rw [hends] at hidle
      exact absurd hidle (by simp)
  · intro hset
    rw [hdone, hclear] at hset
    exact absurd hset (by simp)
  · intro _ hnone
    have hopen := hnone k g' hmoves.self.2
    rw [hclosing] at hopen
    exact absurd hopen (by simp)
  · intro _
    unfold Settled at hsettled ⊢
    rwa [hreqId, hdeadline]
  · rw [hreqId]
    exact hsilent
  · intro i x msg hx hmsg
    rcases hmoves.cases hx with ⟨-, rfl⟩ | ⟨hi, hold⟩
    · exact absurd hmsg (hcall msg)
    · rw [hreqId]
      exact h.selecting i x msg hold hmsg
  · obtain ⟨call, hg', hclose⟩ := (Option.any_eq_true _ _).mp hclosing
    refine .inr ⟨k, g', hmoves.self.2, ?_⟩
    rw [Goroutine.responsible, hg']
    simp [(Call.closing_imp hclose).2.2]

theorem HandlerOk.sendMore {msg : RpcMessage δ}
    (hcall : g.call = some (.select msg)) (hcont : msg.Cont = true)
    (hg' : g' = { g with call := none }) {sent' : List (RpcMessage δ)}
    (hsent : sent' = sent ++ [msg] ∨ sent' = sent) :
    HandlerOk handler sent' owns' := by
  subst hg'
  have hflight : g.inFlight = true := by
    rw [Goroutine.inFlight, hcall]
    rfl
  have hclear := h.clear hmoves hflight
  have hnone : ∀ i x, owns i x → x.ends = false := by
    intro i x hx
    by_cases hne : i = k
    · subst hne
      rw [(hmoves.1 x).mp hx, Goroutine.ends, hcall]
      simp [Call.ends, hcont]
    · by_contra hends
      rw [h.alone i k x g hx hmoves.self.1 hne (by simpa using hends)] at hflight
      exact absurd hflight (by simp)
  have hopen : ∀ i x, owns i x → x.closing = false := by
    intro i x hx
    by_contra hclose
    have hends := hnone i x hx
    rw [Goroutine.ends_of_closing (by simpa using hclose)] at hends
    exact absurd hends (by simp)
  have hall : ∀ msg ∈ sent', msg.Cont = true := by
    have hold := h.undecided hclear hopen
    rcases hsent with rfl | rfl
    · intro other hother
      rcases List.mem_append.mp hother with hother | hother
      · exact hold other hother
      · rw [List.mem_singleton.mp hother, hcont]
    · exact hold
  have hreqId := h.selecting k g msg hmoves.self.1 hcall
  refine ⟨?_, ?_, fun _ _ => hall, ?_, fun hempty => absurd hempty hreqId, ?_, ?_⟩
  · intro i j x x' hx hx' hne hends
    rcases hmoves.cases hx with ⟨-, rfl⟩ | ⟨-, hold⟩
    · exact absurd hends (by simp [Goroutine.ends])
    · rw [hnone i x hold] at hends
      exact absurd hends (by simp)
  · intro hset
    rw [hclear] at hset
    exact absurd hset (by simp)
  · intro hended
    exfalso
    rcases hended with hset | ⟨i, x, hx, hclose⟩
    · rw [hclear] at hset
      exact absurd hset (by simp)
    · rcases hmoves.cases hx with ⟨-, rfl⟩ | ⟨-, hold⟩
      · exact absurd hclose (by simp [Goroutine.closing])
      · rw [hopen i x hold] at hclose
        exact absurd hclose (by simp)
  · intro i x other hx hother
    exact hreqId
  · rcases h.responsible with hset | ⟨i, x, hx, hwants⟩
    · exact .inl hset
    · by_cases hne : i = k
      · subst hne
        refine .inr ⟨i, _, hmoves.self.2, ?_⟩
        rw [(hmoves.1 x).mp hx, Goroutine.responsible, hcall] at hwants
        simpa [Goroutine.responsible, Call.wantsEnd, Call.ends, hcont] using hwants
      · exact .inr ⟨i, x, hmoves.other hx hne, hwants⟩

theorem HandlerOk.finish (hclosing : g.closing = true) (hg' : g'.inFlight = false) :
    HandlerOk { handler with done := true } sent owns' := by
  have hothers : ∀ i x, owns' i x → x.inFlight = false := by
    intro i x hx
    rcases hmoves.cases hx with ⟨-, rfl⟩ | ⟨hne, hold⟩
    · exact hg'
    · exact h.others hmoves (Goroutine.ends_of_closing hclosing) hold hne
  refine ⟨?_, fun _ => hothers, fun hclear => absurd hclear (by simp), ?_, h.silent, ?_,
    .inl rfl⟩
  · intro i j x x' hx hx' hne hends
    exact hothers j x' hx'
  · intro _
    exact h.settled (.inr ⟨k, g, hmoves.self.1, hclosing⟩)
  · intro i x msg hx hmsg
    have hidle := hothers i x hx
    rw [Goroutine.inFlight, hmsg] at hidle
    exact absurd hidle (by simp [Call.inFlight])

theorem HandlerOk.pass {msg : RpcMessage δ} (hcall : g.call = some (.load msg))
    (hg' : g' = { g with call := some (.select msg) }) (hclear : handler.done = false)
    (hreqId : handler.reqId ≠ "") (hends : ∀ i x, owns i x → x.ends = false)
    (hflight : msg.Cont = false → ∀ i x, owns i x → x.inFlight = false) :
    HandlerOk handler sent owns' := by
  subst hg'
  have hopen : ∀ i x, owns i x → x.closing = false := by
    intro i x hx
    by_contra hclose
    have hidle := hends i x hx
    rw [Goroutine.ends_of_closing (by simpa using hclose)] at hidle
    exact absurd hidle (by simp)
  have hopen' : ∀ i x, owns' i x → x.closing = false := by
    intro i x hx
    rcases hmoves.cases hx with ⟨-, rfl⟩ | ⟨-, hold⟩
    · rfl
    · exact hopen i x hold
  refine ⟨?_, ?_, fun _ _ => h.undecided hclear hopen, ?_, h.silent, fun _ _ _ _ _ => hreqId, ?_⟩
  · intro i j x x' hx hx' hne hx_ends
    rcases hmoves.cases hx with ⟨rfl, rfl⟩ | ⟨-, hold⟩
    · rcases hmoves.cases hx' with ⟨rfl, -⟩ | ⟨-, hold'⟩
      · exact absurd rfl hne
      · refine hflight ?_ j x' hold'
        simpa [Goroutine.ends, Call.ends] using hx_ends
    · rw [hends i x hold] at hx_ends
      exact absurd hx_ends (by simp)
  · intro hset
    rw [hclear] at hset
    exact absurd hset (by simp)
  · intro hended
    exfalso
    rcases hended with hset | ⟨i, x, hx, hclose⟩
    · rw [hclear] at hset
      exact absurd hset (by simp)
    · rw [hopen' i x hx] at hclose
      exact absurd hclose (by simp)
  · rcases h.responsible with hset | ⟨i, x, hx, hwants⟩
    · exact .inl hset
    · by_cases hne : i = k
      · subst hne
        refine .inr ⟨i, _, hmoves.self.2, ?_⟩
        rw [(hmoves.1 x).mp hx, Goroutine.responsible, hcall] at hwants
        simpa [Goroutine.responsible, Call.wantsEnd, Call.ends] using hwants
      · exact .inr ⟨i, x, hmoves.other hx hne, hwants⟩

end Handlers

/-- A goroutine works for a handler. -/
def WshRpc.Owns (w : WshRpc δ) (h : HandlerId) (i : Nat) (g : Goroutine δ) : Prop :=
  w.goroutines[i]? = some g ∧ g.handler = h

/-- The invariant of a server. -/
structure Inv (w : WshRpc δ) : Prop where
  /-- A goroutine works for a handler that there is. -/
  owned : ∀ (i : Nat) g, w.goroutines[i]? = some g → ∃ handler, w.handlers[g.handler]? = some handler
  /-- A handler is in the map under the id of its request, and not finalized. -/
  mapped : ∀ reqId h, w.ResponseHandlerMap.get reqId = some h →
    ∃ handler, w.handlers[h]? = some handler ∧ handler.reqId = reqId ∧ reqId ≠ "" ∧
      handler.finalized = false
  /-- Responses are those of handlers that there are. -/
  sentBy : ∀ h : Nat, w.handlers[h]? = none → responses w h = []
  /-- The handlers. -/
  handlers : ∀ (h : Nat) handler, w.handlers[h]? = some handler →
    HandlerOk handler (responses w h) (w.Owns h)

section Servers

variable {w w' : WshRpc δ}
variable {h : HandlerId}
variable {handler handler' : RpcResponseHandler}
variable {k : Nat}
variable {g g' : Goroutine δ}

/-- One handler changes, and is out of the map if it is finalized. -/
structure Changes (w w' : WshRpc δ) (h : HandlerId) (handler handler' : RpcResponseHandler) :
    Prop where
  was : w.handlers[h]? = some handler
  is : w'.handlers[h]? = some handler'
  others : ∀ other : Nat, other ≠ h → w'.handlers[other]? = w.handlers[other]?
  mapped : ∀ reqId other, w'.ResponseHandlerMap.get reqId = some other →
    w.ResponseHandlerMap.get reqId = some other
  reqId : handler'.reqId = handler.reqId
  finalized : handler'.finalized = handler.finalized ∨
    ∀ reqId, w'.ResponseHandlerMap.get reqId ≠ some h
  sent : ∀ other, other ≠ h → responses w' other = responses w other

theorem Changes.same (hh : w.handlers[h]? = some handler) {goroutines : List (Goroutine δ)} :
    Changes w { w with goroutines } h handler handler :=
  ⟨hh, hh, fun _ _ => rfl, fun _ _ hget => hget, rfl, .inl rfl, fun _ _ => rfl⟩

theorem Inv.update (hinv : Inv w) (hchanges : Changes w w' h handler handler')
    (howned : ∀ (i : Nat) g, w'.goroutines[i]? = some g →
      g.handler = h ∨ ∃ j : Nat, w.goroutines[j]? = some g)
    (howns : ∀ other i x, other ≠ h → (w'.Owns other i x ↔ w.Owns other i x))
    (hok : HandlerOk handler' (responses w' h) (w'.Owns h)) :
    Inv w' := by
  obtain ⟨hh, hh', hothers, hmapped, hreqId, hfinalized, hresponses⟩ := hchanges
  refine ⟨?_, ?_, ?_, ?_⟩
  · intro i x hx
    rcases howned i x hx with rfl | ⟨j, hj⟩
    · exact ⟨handler', hh'⟩
    · obtain ⟨handler₀, hhandler₀⟩ := hinv.owned j x hj
      by_cases hsame : x.handler = h
      · rw [hsame]
        exact ⟨handler', hh'⟩
      · exact ⟨handler₀, by rw [hothers _ hsame, hhandler₀]⟩
  · intro reqId other hget
    obtain ⟨handler₀, hhandler₀, hid, hne, hopen⟩ := hinv.mapped reqId other (hmapped _ _ hget)
    by_cases hsame : other = h
    · subst hsame
      rw [hh, Option.some.injEq] at hhandler₀
      subst hhandler₀
      rcases hfinalized with heq | hnot
      · exact ⟨handler', hh', hreqId.trans hid, hne, heq.trans hopen⟩
      · exact absurd hget (hnot reqId)
    · exact ⟨handler₀, by rw [hothers other hsame, hhandler₀], hid, hne, hopen⟩
  · intro other hnone
    by_cases hsame : other = h
    · subst hsame
      rw [hh'] at hnone
      exact absurd hnone (by simp)
    · rw [hresponses other hsame]
      exact hinv.sentBy other (by rw [← hothers other hsame, hnone])
  · intro other handler₀ hhandler₀
    by_cases hsame : other = h
    · subst hsame
      rw [hh', Option.some.injEq] at hhandler₀
      subst hhandler₀
      exact hok
    · have hsame_owns : w'.Owns other = w.Owns other := by
        funext i x
        exact propext (howns other i x hsame)
      rw [hresponses other hsame, hsame_owns]
      exact hinv.handlers other handler₀ (by rw [← hothers other hsame, hhandler₀])

section

variable (hk : w.Owns h k g) (hg' : g'.handler = h)
  (hgoroutines : w'.goroutines = w.goroutines.set k g')
include hk hg' hgoroutines

theorem moves_set :
    Moves (w.Owns h) (w'.Owns h) k g g' := by
  have hlt := (List.getElem?_eq_some_iff.mp hk.1).1
  refine ⟨fun x => ⟨fun hx => ?_, fun hx => hx ▸ hk⟩, fun i x => ?_⟩
  · have heq := hx.1.symm.trans hk.1
    exact Option.some.inj heq
  · rw [Owns, hgoroutines, List.getElem?_set]
    by_cases hi : i = k
    · subst hi
      rw [if_pos rfl, if_pos hlt, if_pos rfl, Option.some.injEq]
      constructor
      · intro hx
        exact hx.1.symm
      · intro hx
        subst hx
        exact ⟨rfl, hg'⟩
    · rw [if_neg (Ne.symm hi), if_neg hi]
      exact Iff.rfl

theorem owns_set_other (other : HandlerId) (i : Nat) (x : Goroutine δ) (hother : other ≠ h) :
    w'.Owns other i x ↔ w.Owns other i x := by
  have hlt := (List.getElem?_eq_some_iff.mp hk.1).1
  rw [Owns, Owns, hgoroutines, List.getElem?_set]
  by_cases hi : i = k
  · subst hi
    rw [if_pos rfl, if_pos hlt, hk.1, Option.some.injEq, Option.some.injEq]
    constructor
    · intro hx
      exact absurd (hx.2.symm.trans (hx.1 ▸ hg')) hother
    · intro hx
      exact absurd (hx.2.symm.trans (hx.1 ▸ hk.2)) hother
  · rw [if_neg (Ne.symm hi)]

end

theorem Inv.setGoroutine (hinv : Inv w) (hchanges : Changes w w' h handler handler')
    (hk : w.Owns h k g) (hg' : g'.handler = h)
    (hgoroutines : w'.goroutines = w.goroutines.set k g')
    (hok : Moves (w.Owns h) (w'.Owns h) k g g' →
      HandlerOk handler' (responses w' h) (w'.Owns h)) :
    Inv w' := by
  refine hinv.update hchanges ?_ (owns_set_other hk hg' hgoroutines)
    (hok (moves_set hk hg' hgoroutines))
  intro i x hx
  rw [hgoroutines] at hx
  rcases getElem?_set_cases hx with ⟨-, rfl⟩ | ⟨-, hold⟩
  · exact .inl hg'
  · exact .inr ⟨i, hold⟩

theorem modifyHandler_self (hh : w.handlers[h]? = some handler)
    (f : RpcResponseHandler → RpcResponseHandler) :
    (w.handlers.modify h f)[h]? = some (f handler) := by
  rw [List.getElem?_modify_eq, hh]
  rfl

theorem modifyHandler_other (f : RpcResponseHandler → RpcResponseHandler) (other : Nat)
    (hother : other ≠ h) :
    (w.handlers.modify h f)[other]? = w.handlers[other]? :=
  List.getElem?_modify_ne f _ (Ne.symm hother)

theorem Inv.start (hinv : Inv w) (hh : w.handlers[h]? = some handler) (hg' : g'.handler = h)
    (hidle : g'.inFlight = false) :
    Inv (w.start g') := by
  have howns : ∀ i x, (w.start g').Owns h i x ↔
      w.Owns h i x ∨ (i = w.goroutines.length ∧ x = g') := by
    intro i x
    refine (and_congr_left' getElem?_concat_iff).trans (or_and_right.trans (or_congr Iff.rfl ?_))
    refine ⟨fun hx => ⟨hx.1.1, hx.1.2.symm⟩, ?_⟩
    rintro ⟨hi, rfl⟩
    exact ⟨⟨hi, rfl⟩, hg'⟩
  refine hinv.update (.same hh) ?_ ?_ ((hinv.handlers h handler hh).start howns hidle)
  · intro i x hx
    rcases getElem?_concat_iff.mp hx with hold | ⟨-, rfl⟩
    · exact .inr ⟨i, hold⟩
    · exact .inl hg'
  · intro other i x hother
    refine ⟨fun hx => ?_, fun hx => ⟨getElem?_concat_iff.mpr (.inl hx.1), hx.2⟩⟩
    rcases getElem?_concat_iff.mp hx.1 with hold | ⟨-, rfl⟩
    · exact ⟨hold, hx.2⟩
    · exact absurd (hx.2.symm.trans hg') hother

end Servers

end RpcResponses
