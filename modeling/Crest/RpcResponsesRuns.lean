import Crest.RpcResponsesSafety

/-!
# Requests are answered once

In every run whose steps keep the calls of a handler apart, each request with an id is answered
once.  Without that a request may be answered twice, or not at all.
-/

namespace RpcResponses

open Slots WshRpc

variable {δ : Type}

/-- A call may find the flag of its handler clear: no other is going to set it, and one that sets it
is alone and can be encoded. -/
def MayPass (marshals : δ → Bool) (w : WshRpc δ) (h : HandlerId) (handler : RpcResponseHandler)
    (msg : RpcMessage δ) : Prop :=
  (∀ g ∈ w.goroutines, g.handler = h → g.ends = false) ∧
    (msg.Cont = false → (∀ g ∈ w.goroutines, g.handler = h → g.inFlight = false) ∧
      (handler.reqId ≠ "" → msg.Data.all marshals = true))

/-- A goroutine may take its next step: it passes the test of the flag only where it may, and gives
up the last response only when the deadline has passed. -/
def MayRun (marshals : δ → Bool) (w : WshRpc δ) (sends : Bool) (g : Goroutine δ)
    (handler : RpcResponseHandler) : Prop :=
  match g.call with
  | some (.load msg) => handler.done = false → MayPass marshals w g.handler handler msg
  | some (.select msg) => msg.Cont = false → sends = false → handler.canceled = true →
      handler.deadlineExceeded = true
  | _ => True

/-- An event keeps the calls of a handler apart. -/
def Apart (marshals : δ → Bool) (w : WshRpc δ) : Event δ → Prop
  | .run k sends => ∀ g ∈ w.goroutines[k]?, ∀ handler ∈ w.handlers[g.handler]?,
      MayRun marshals w sends g handler
  | _ => True

instance (marshals : δ → Bool) (w : WshRpc δ) (h : HandlerId) (handler : RpcResponseHandler)
    (msg : RpcMessage δ) : Decidable (MayPass marshals w h handler msg) :=
  inferInstanceAs (Decidable (_ ∧ _))

instance (marshals : δ → Bool) (w : WshRpc δ) (sends : Bool) (handler : RpcResponseHandler) :
    ∀ g : Goroutine δ, Decidable (MayRun marshals w sends g handler)
  | ⟨h, some (.load msg), _⟩ =>
    inferInstanceAs (Decidable (handler.done = false → MayPass marshals w h handler msg))
  | ⟨_, some (.select msg), _⟩ =>
    inferInstanceAs (Decidable (msg.Cont = false → sends = false → handler.canceled = true →
      handler.deadlineExceeded = true))
  | ⟨_, none, _⟩ => inferInstanceAs (Decidable True)
  | ⟨_, some .loadCancelFn, _⟩ => inferInstanceAs (Decidable True)
  | ⟨_, some .cancelFn, _⟩ => inferInstanceAs (Decidable True)
  | ⟨_, some .storeCancelFn, _⟩ => inferInstanceAs (Decidable True)
  | ⟨_, some .storeDone, _⟩ => inferInstanceAs (Decidable True)

instance (marshals : δ → Bool) (w : WshRpc δ) : ∀ event, Decidable (Apart marshals w event)
  | .run k sends =>
    inferInstanceAs (Decidable (∀ g ∈ w.goroutines[k]?, ∀ handler ∈ w.handlers[g.handler]?,
      MayRun marshals w sends g handler))
  | .request _ => inferInstanceAs (Decidable True)
  | .SendResponse _ _ _ => inferInstanceAs (Decidable True)
  | .SendResponseError _ _ => inferInstanceAs (Decidable True)
  | .Finalize _ => inferInstanceAs (Decidable True)
  | .deadline _ => inferInstanceAs (Decidable True)
  | .handlerReturns _ _ => inferInstanceAs (Decidable True)

theorem responses_append (w : WshRpc δ) (h other : HandlerId) (msg : RpcMessage δ) :
    responses { w with OutputCh := w.OutputCh ++ [(h, msg)] } other =
      responses w other ++ if h = other then [msg] else [] := by
  by_cases hsame : h = other <;> simp [responses, List.filter_append, hsame]

section Steps

variable {marshals : δ → Bool}
variable {w : WshRpc δ}
variable {h : HandlerId}
variable {handler : RpcResponseHandler}
variable {k : Nat}
variable {g g' : Goroutine δ}

variable (hinv : Inv w) (hh : w.handlers[h]? = some handler) (hk : w.Owns h k g)
include hinv hh hk

theorem Inv.moveGoroutine (hg' : g'.handler = h)
    (hok : Moves (w.Owns h) ((w.setGoroutine k g').Owns h) k g g' →
      HandlerOk handler (responses w h) ((w.setGoroutine k g').Owns h)) :
    Inv (w.setGoroutine k g') :=
  hinv.setGoroutine (.same hh) hk hg' rfl hok

theorem Inv.moveBoth (hg' : g'.handler = h) {f : RpcResponseHandler → RpcResponseHandler}
    (hreqId : (f handler).reqId = handler.reqId)
    (hfinalized : (f handler).finalized = handler.finalized)
    (hok : Moves (w.Owns h) (((w.modifyHandler h f).setGoroutine k g').Owns h) k g g' →
      HandlerOk (f handler) (responses w h) (((w.modifyHandler h f).setGoroutine k g').Owns h)) :
    Inv ((w.modifyHandler h f).setGoroutine k g') :=
  hinv.setGoroutine ⟨hh, modifyHandler_self hh f, modifyHandler_other f, fun _ _ hget => hget,
    hreqId, .inl hfinalized, fun _ _ => rfl⟩ hk hg' rfl hok

theorem Inv.moveSending (hg' : g'.handler = h) {msg : RpcMessage δ}
    (hok : ∀ owns', Moves (w.Owns h) owns' k g g' →
      HandlerOk handler (responses w h ++ [msg]) owns') :
    Inv ({ w with OutputCh := w.OutputCh ++ [(h, msg)] }.setGoroutine k g') := by
  refine hinv.setGoroutine ⟨hh, hh, fun _ _ => rfl, fun _ _ hget => hget, rfl, .inl rfl,
    fun other hother => ?_⟩ hk hg' rfl fun hmoves => ?_
  · refine (responses_append w h other msg).trans ?_
    rw [if_neg (Ne.symm hother), List.append_nil]
  · have hsent := responses_append w h h msg
    rw [if_pos rfl] at hsent
    exact hsent ▸ hok _ hmoves

theorem Inv.runCall {call : Call δ} (hcall : g.call = some call) {sends : Bool}
    (hmay : MayRun marshals w sends g handler) :
    Inv (WshRpc.runCall marshals w k g handler sends call) := by
  obtain rfl := hk.2
  have hok := hinv.handlers g.handler handler hh
  have hothers : g.ends = true → ∀ i x, w.Owns g.handler i x → i ≠ k → x.inFlight = false :=
    fun hends i x hx hne => hok.alone k i g x hk hx (Ne.symm hne) hends
  have hclear : g.inFlight = true → handler.done = false := by
    intro hflight
    by_contra hset
    rw [hok.quiet (by simpa using hset) k g hk] at hflight
    exact absurd hflight (by simp)
  have hclosed : g.closing = true → Settled handler (responses w g.handler) :=
    fun hclosing => hok.settled (.inr ⟨k, g, hk, hclosing⟩)
  cases call with
  | load msg =>
    have hidle : g.inFlight = false := by
      rw [Goroutine.inFlight, hcall]
      rfl
    rw [WshRpc.runCall]
    split
    · rename_i hdone
      refine hinv.moveGoroutine hh hk (by rfl) fun hmoves => ?_
      exact hok.move hmoves hidle rfl (fun _ => .inl hdone) rfl rfl rfl
    · rename_i hdone
      have hdone' : handler.done = false := by simpa using hdone
      rw [MayRun, hcall] at hmay
      obtain ⟨hends, hlast⟩ := hmay hdone'
      have hends' : ∀ i x, w.Owns g.handler i x → x.ends = false :=
        fun i x hx => hends x (List.mem_of_getElem? hx.1) hx.2
      rw [afterLoad]
      split
      · rename_i hnothing
        split
        · rename_i hcont
          refine hinv.moveGoroutine hh hk (by rfl) fun hmoves => ?_
          refine hok.move hmoves hidle rfl (fun hwants => .inr (.inl ?_)) rfl rfl rfl
          rw [Goroutine.responsible, hcall] at hwants
          simpa [Goroutine.responsible, Call.wantsEnd, hcont] using hwants
        · rename_i hcont
          obtain ⟨hflight, hmarshals⟩ := hlast (by simpa using hcont)
          have hreqId : handler.reqId = "" := by
            by_contra hne
            rw [hmarshals hne] at hnothing
            simp [hne] at hnothing
          have hsilent := hok.silent hreqId
          refine hinv.moveGoroutine hh hk (by rfl) fun hmoves => ?_
          refine hok.close hmoves hdone' (fun i x hx _ => hflight x (List.mem_of_getElem? hx.1)
            hx.2) rfl rfl rfl rfl (.inr ⟨.inr hreqId, ?_⟩) (fun _ => hsilent)
          rw [hsilent]
          exact fun _ hmsg => absurd hmsg (by simp)
      · rename_i hsomething
        have hreqId : handler.reqId ≠ "" := by
          intro heq
          simp [heq] at hsomething
        refine hinv.moveGoroutine hh hk (by rfl) fun hmoves => ?_
        exact hok.pass hmoves hcall rfl hdone' hreqId hends' fun hcont i x hx =>
          (hlast hcont).1 x (List.mem_of_getElem? hx.1) hx.2
  | select msg =>
    have hflight : g.inFlight = true := by
      rw [Goroutine.inFlight, hcall]
      rfl
    have hreqId := hok.selecting k g msg hk hcall
    rw [WshRpc.runCall]
    cases hcont : msg.Cont with
    | true =>
      rw [if_pos rfl]
      split
      · refine hinv.moveSending hh hk (by rfl) fun _ hmoves => ?_
        exact hok.sendMore hmoves hcall hcont rfl (.inl rfl)
      · split
        · refine hinv.moveGoroutine hh hk (by rfl) fun hmoves => ?_
          exact hok.sendMore hmoves hcall hcont rfl (.inr rfl)
        · exact hinv
    | false =>
      have hends : g.ends = true := by
        rw [Goroutine.ends, hcall]
        simp [Call.ends, hcont]
      have hopen : ∀ msg ∈ responses w g.handler, msg.Cont = true := by
        refine hok.undecided (hclear hflight) fun i x hx => ?_
        by_cases hne : i = k
        · subst hne
          have heq : x = g := Option.some.inj (hx.1.symm.trans hk.1)
          rw [heq, Goroutine.closing, hcall]
          rfl
        · exact (Goroutine.idle (hothers hends i x hx hne)).2
      rw [if_neg Bool.false_ne_true]
      split
      · refine hinv.moveSending hh hk (by rfl) fun _ hmoves => ?_
        exact hok.close hmoves (hclear hflight) (hothers hends) rfl rfl rfl rfl
          (.inl ⟨responses w g.handler, msg, rfl, hcont, hopen⟩) (fun hempty => absurd hempty hreqId)
      · rename_i hsends
        split
        · rename_i hctx
          have hdeadline : handler.deadlineExceeded = true := by
            rw [RpcResponseHandler.ctxDone, Bool.or_eq_true] at hctx
            rw [MayRun, hcall] at hmay
            rcases hctx with hcanceled | hdeadline
            · exact hmay hcont (by simpa using hsends) hcanceled
            · exact hdeadline
          refine hinv.moveGoroutine hh hk (by rfl) fun hmoves => ?_
          exact hok.close hmoves (hclear hflight) (hothers hends) rfl rfl rfl rfl
            (.inr ⟨.inl hdeadline, hopen⟩) (fun hempty => absurd hempty hreqId)
        · exact hinv
  | loadCancelFn =>
    have hclosing : g.closing = true := by
      rw [Goroutine.closing, hcall]
      rfl
    have hends := Goroutine.ends_of_closing hclosing
    refine hinv.moveGoroutine hh hk (by rfl) fun hmoves => ?_
    refine hok.close hmoves (hclear (Goroutine.inFlight_of_ends hends)) (hothers hends) ?_ rfl rfl
      rfl (hclosed hclosing) hok.silent
    cases handler.contextCancelFn <;> rfl
  | cancelFn | storeCancelFn =>
    have hclosing : g.closing = true := by
      rw [Goroutine.closing, hcall]
      rfl
    have hends := Goroutine.ends_of_closing hclosing
    rw [WshRpc.runCall]
    refine hinv.moveBoth hh hk (by rfl) (by rfl) (by rfl) fun hmoves => ?_
    exact hok.close hmoves (hclear (Goroutine.inFlight_of_ends hends)) (hothers hends) (by rfl)
      (by rfl) (by rfl) (by rfl) (hclosed hclosing) hok.silent
  | storeDone =>
    have hclosing : g.closing = true := by
      rw [Goroutine.closing, hcall]
      rfl
    rw [WshRpc.runCall]
    refine hinv.moveBoth hh hk (by rfl) (by rfl) (by rfl) fun hmoves => ?_
    exact hok.finish hmoves hclosing rfl

theorem Inv.runNext (hcall : g.call = none) :
    Inv (WshRpc.runNext w k g handler g.next) := by
  obtain rfl := hk.2
  have hok := hinv.handlers g.handler handler hh
  have hidle : ∀ next, Goroutine.inFlight { g with next := next } = false := by
    intro next
    rw [Goroutine.inFlight, hcall]
    rfl
  have hidle' : g.inFlight = false := hidle g.next
  cases hnext : g.next with
  | handlerFn | returned => exact hinv
  | cancel =>
    rw [WshRpc.runNext]
    refine hinv.moveBoth hh hk (by rfl) (by rfl) (by rfl) fun hmoves => ?_
    refine hok.move hmoves hidle' (hidle _) (fun _ => .inr (.inl ?_)) rfl rfl rfl
    simp [Goroutine.responsible]
  | waitCtx =>
    rw [WshRpc.runNext]
    split
    · refine hinv.moveGoroutine hh hk (by rfl) fun hmoves => ?_
      refine hok.move hmoves hidle' (hidle _) (fun _ => .inr (.inl ?_)) rfl rfl rfl
      simp [Goroutine.responsible]
    · exact hinv
  | unregister =>
    have hdelete : ∀ reqId other,
        (if handler.reqId ≠ "" then w.ResponseHandlerMap.delete handler.reqId
          else w.ResponseHandlerMap).get reqId = some other →
        w.ResponseHandlerMap.get reqId = some other ∧
          (handler.reqId ≠ "" → reqId ≠ handler.reqId) := by
      intro reqId other hget
      split at hget
      · rw [JsMap.get_delete] at hget
        split at hget
        · exact absurd hget (by simp)
        · exact ⟨hget, fun _ => ‹_›⟩
      · rename_i hempty
        exact ⟨hget, fun hne => absurd hne hempty⟩
    rw [WshRpc.runNext]
    generalize hmap : (if handler.reqId ≠ "" then w.ResponseHandlerMap.delete handler.reqId
      else w.ResponseHandlerMap) = responseHandlerMap at hdelete
    refine hinv.setGoroutine
      ⟨hh, modifyHandler_self hh fun handler => { handler with finalized := true },
        modifyHandler_other _, fun reqId other hget => (hdelete reqId other hget).1, rfl,
        .inr fun reqId hget => ?_, fun _ _ => rfl⟩ hk (by rfl) rfl fun hmoves => ?_
    · obtain ⟨hold, hother⟩ := hdelete reqId g.handler hget
      obtain ⟨handler₀, hhandler₀, hid, hne, -⟩ := hinv.mapped reqId g.handler hold
      rw [hh, Option.some.injEq] at hhandler₀
      subst hhandler₀
      rw [← hid] at hne
      exact hother hne hid.symm
    · refine hok.move hmoves hidle' (hidle _) (fun _ => .inr (.inl ?_)) rfl rfl rfl
      simp [Goroutine.responsible]
  | loadDone =>
    rw [WshRpc.runNext]
    split
    · rename_i hdone
      refine hinv.moveGoroutine hh hk (by rfl) fun hmoves => ?_
      exact hok.move hmoves hidle' (hidle _) (fun _ => .inl hdone) rfl rfl rfl
    · refine hinv.moveGoroutine hh hk (by rfl) fun hmoves => ?_
      refine hok.move hmoves hidle' rfl (fun _ => .inr (.inl ?_)) rfl rfl rfl
      simp [Goroutine.responsible, Call.wantsEnd, responseMsg]

end Steps

section Events

variable {marshals : δ → Bool}
variable {w : WshRpc δ}

variable (hinv : Inv w)
include hinv

theorem Inv.run {k : Nat} {sends : Bool} (hmay : Apart marshals w (.run k sends)) :
    Inv (w.run marshals k sends) := by
  rw [WshRpc.run]
  cases hk : w.goroutines[k]? with
  | none => exact hinv
  | some g =>
    obtain ⟨handler, hh⟩ := hinv.owned k g hk
    dsimp only
    rw [hh]
    dsimp only
    cases hcall : g.call with
    | some call => exact hinv.runCall hh ⟨hk, rfl⟩ hcall (hmay g hk handler hh)
    | none => exact hinv.runNext hh ⟨hk, rfl⟩ hcall

theorem Inv.handlerReturns (k : Nat) (outcome : Outcome) :
    Inv (w.handlerReturns k outcome) := by
  rw [WshRpc.handlerReturns]
  split
  · rename_i h hk
    obtain ⟨handler, hh⟩ := hinv.owned k _ hk
    dsimp only at hh
    have hok := hinv.handlers h handler hh
    have howns : w.Owns h k ⟨h, none, .handlerFn⟩ := ⟨hk, rfl⟩
    rw [hh]
    cases outcome with
    | done | panic _ =>
      refine hinv.moveGoroutine hh howns (by rfl) fun hmoves => ?_
      exact hok.move hmoves rfl rfl (fun _ => .inr (.inl rfl)) rfl rfl rfl
    | isAsync =>
      -- The finalizer is started before its goroutine goes away.
      have hstarted : Inv (w.start ⟨h, none, .waitCtx⟩) := hinv.start hh (by rfl) (by rfl)
      have hlt := (List.getElem?_eq_some_iff.mp hk).1
      have hk' : (w.start ⟨h, none, .waitCtx⟩).Owns h k ⟨h, none, .handlerFn⟩ := by
        refine ⟨?_, rfl⟩
        show (w.goroutines ++ [_])[k]? = _
        exact getElem?_concat_iff.mpr (.inl hk)
      have hfinalizer : (w.start ⟨h, none, .waitCtx⟩).Owns h w.goroutines.length
          ⟨h, none, .waitCtx⟩ := by
        refine ⟨?_, rfl⟩
        show (w.goroutines ++ [_])[w.goroutines.length]? = _
        simp
      have hok' := hstarted.handlers h handler hh
      have hswap : (w.setGoroutine k ⟨h, none, .returned⟩).start ⟨h, none, .waitCtx⟩ =
          (w.start ⟨h, none, .waitCtx⟩).setGoroutine k ⟨h, none, .returned⟩ := by
        simp only [WshRpc.start, WshRpc.setGoroutine, List.set_append_left _ _ hlt]
      dsimp only
      rw [hswap]
      refine hstarted.moveGoroutine hh hk' (by rfl) fun hmoves => ?_
      -- The goroutine is replaced by its finalizer, so somebody still ends the request.
      exact hok'.move hmoves rfl rfl
        (fun _ => .inr (.inr ⟨w.goroutines.length, _, Nat.ne_of_gt hlt, hfinalizer, rfl⟩)) rfl rfl
        rfl
  · exact hinv

theorem Inv.callHandler (h : HandlerId) {goroutine : RpcResponseHandler → Goroutine δ}
    (hhandler : ∀ handler, (goroutine handler).handler = h)
    (hidle : ∀ handler, (goroutine handler).inFlight = false) :
    Inv (w.callHandler h goroutine) := by
  rw [WshRpc.callHandler]
  split
  · exact hinv
  · rename_i handler hh
    exact hinv.start hh (hhandler handler) (hidle handler)

theorem Inv.handleRequestInternal (reqId : String) :
    Inv (w.handleRequestInternal reqId) := by
  have hnone : w.handlers[w.handlers.length]? = none := by simp
  have hback : ∀ {h : Nat} {handler : RpcResponseHandler}, w.handlers[h]? = some handler →
      (w.handlers ++ [⟨reqId, false, true, false, false, false⟩])[h]? = some handler := by
    exact fun hh => getElem?_concat_iff.mpr (.inl hh)
  have hnew : (w.handlers ++ [(⟨reqId, false, true, false, false, false⟩ : RpcResponseHandler)])[
      w.handlers.length]? = some ⟨reqId, false, true, false, false, false⟩ := by
    simp
  have howner : ∀ (i : Nat) x, w.goroutines[i]? = some x → x.handler ≠ w.handlers.length := by
    intro i x hx heq
    obtain ⟨handler, hh⟩ := hinv.owned i x hx
    rw [heq, hnone] at hh
    exact absurd hh (by simp)
  have hgoroutines : ∀ (i : Nat) x,
      (w.goroutines ++ [⟨w.handlers.length, none, .handlerFn⟩])[i]? = some x →
        w.goroutines[i]? = some x ∨
          (i = w.goroutines.length ∧ x = ⟨w.handlers.length, none, .handlerFn⟩) := by
    intro i x hx
    exact (getElem?_concat_iff.mp hx).imp_right fun hnew => ⟨hnew.1, hnew.2.symm⟩
  refine ⟨?_, ?_, ?_, ?_⟩
  · intro i x hx
    rcases hgoroutines i x hx with hold | ⟨-, rfl⟩
    · obtain ⟨handler, hh⟩ := hinv.owned i x hold
      exact ⟨handler, hback hh⟩
    · exact ⟨_, hnew⟩
  · intro id h hget
    have hget' : (if reqId ≠ "" then w.ResponseHandlerMap.set reqId w.handlers.length
        else w.ResponseHandlerMap).get id = some h := hget
    have hold : w.ResponseHandlerMap.get id = some h →
        ∃ handler, (w.handleRequestInternal reqId).handlers[h]? = some handler ∧
          handler.reqId = id ∧ id ≠ "" ∧ handler.finalized = false := by
      intro hget
      obtain ⟨handler, hh, hid⟩ := hinv.mapped id h hget
      exact ⟨handler, hback hh, hid⟩
    split at hget'
    · rw [JsMap.get_set] at hget'
      split at hget'
      · rename_i hne heq
        rw [← Option.some.inj hget']
        exact ⟨_, hnew, heq.symm, heq ▸ hne, rfl⟩
      · exact hold hget'
    · exact hold hget'
  · intro h hh
    refine hinv.sentBy h ?_
    by_contra hsome
    obtain ⟨handler, hhandler⟩ := Option.ne_none_iff_exists'.mp hsome
    have hh' := hback hhandler
    have hmissing : (w.handlers ++
        [(⟨reqId, false, true, false, false, false⟩ : RpcResponseHandler)])[h]? = none := hh
    rw [hmissing] at hh'
    exact absurd hh' (by simp)
  · intro h handler hh
    have happend : (w.handlers ++
        [(⟨reqId, false, true, false, false, false⟩ : RpcResponseHandler)])[h]? =
          some handler := hh
    rcases getElem?_concat_iff.mp happend with hold | ⟨rfl, rfl⟩
    · have hlt := (List.getElem?_eq_some_iff.mp hold).1
      have hsame : (w.handleRequestInternal reqId).Owns h = w.Owns h := by
        funext i x
        refine propext ⟨fun hx => ?_, fun hx => ⟨?_, hx.2⟩⟩
        · rcases hgoroutines i x hx.1 with hold | ⟨-, rfl⟩
          · exact ⟨hold, hx.2⟩
          · exact absurd hx.2 (Nat.ne_of_gt hlt)
        · exact getElem?_concat_iff.mpr (.inl hx.1)
      rw [hsame]
      exact hinv.handlers h handler hold
    · have hsent : responses (w.handleRequestInternal reqId) w.handlers.length = [] :=
        hinv.sentBy _ hnone
      have howns : ∀ i x, (w.handleRequestInternal reqId).Owns w.handlers.length i x →
          i = w.goroutines.length ∧ x = ⟨w.handlers.length, none, .handlerFn⟩ := by
        intro i x hx
        rcases hgoroutines i x hx.1 with hold | hnew
        · exact absurd hx.2 (howner i x hold)
        · exact hnew
      have hquiet : ∀ i x, (w.handleRequestInternal reqId).Owns w.handlers.length i x →
          x.call = none := by
        intro i x hx
        rw [(howns i x hx).2]
      rw [hsent]
      refine ⟨?_, fun hset => absurd hset (by simp), fun _ _ _ hmsg => absurd hmsg (by simp), ?_,
        fun _ => rfl, ?_, .inr ⟨w.goroutines.length, ⟨w.handlers.length, none, .handlerFn⟩, ?_,
          rfl⟩⟩
      · intro i j x x' hx hx' hne
        exact absurd ((howns i x hx).1.trans (howns j x' hx').1.symm) hne
      · intro hended
        rcases hended with hset | ⟨i, x, hx, hclose⟩
        · exact absurd hset (by simp)
        · rw [Goroutine.closing, hquiet i x hx] at hclose
          exact absurd hclose (by simp)
      · intro i x msg hx hmsg
        rw [hquiet i x hx] at hmsg
        exact absurd hmsg (by simp)
      · refine ⟨?_, rfl⟩
        show (w.goroutines ++ [_])[w.goroutines.length]? = _
        simp

theorem Inv.deadline (h : HandlerId) :
    Inv (w.modifyHandler h fun handler =>
      if handler.canceled then handler else { handler with deadlineExceeded := true }) := by
  cases hh : w.handlers[h]? with
  | none =>
    rw [WshRpc.modifyHandler, List.modify_eq_self (by simpa using hh)]
    exact hinv
  | some handler =>
    have hok := hinv.handlers h handler hh
    refine hinv.update ⟨hh, modifyHandler_self hh _, modifyHandler_other _,
      fun _ _ hget => hget, ?_, .inl ?_, fun _ _ => rfl⟩ (fun i x hx => .inr ⟨i, hx⟩)
      (fun _ _ _ _ => Iff.rfl) ?_
    · split <;> rfl
    · split <;> rfl
    · split
      · exact hok
      · refine ⟨hok.alone, hok.quiet, hok.undecided, fun hended => ?_, hok.silent, hok.selecting,
          hok.responsible⟩
        rcases hok.settled hended with honce | ⟨-, hopen⟩
        · exact .inl honce
        · exact .inr ⟨.inl rfl, hopen⟩

end Events

/-- **One event keeps the invariant**, where it keeps the calls of a handler apart. -/
theorem step_inv (marshals : δ → Bool) {w : WshRpc δ} (hinv : Inv w) (event : Event δ)
    (hapart : Apart marshals w event) :
    Inv (step marshals w event) := by
  cases event with
  | request reqId => exact hinv.handleRequestInternal reqId
  | SendResponse h _ _ | SendResponseError h _ | Finalize h =>
    exact hinv.callHandler h (fun _ => rfl) fun _ => rfl
  | deadline h => exact hinv.deadline h
  | handlerReturns k outcome => exact hinv.handlerReturns k outcome
  | run k sends => exact hinv.run hapart

/-- What a client relies on for one request. -/
structure Answered (w : WshRpc δ) (h : HandlerId) (handler : RpcResponseHandler) : Prop where
  /-- Nothing follows a final response. -/
  final : ∀ before msg after, responses w h = before ++ msg :: after → msg.Cont = false → after = []
  /-- There is one when all goroutines of the request are done, unless its time has elapsed. -/
  answered : handler.reqId ≠ "" → handler.deadlineExceeded = false →
    (∀ g ∈ w.goroutines, g.handler = h → g.call = none ∧ g.next = .returned) →
      ∃ msg ∈ responses w h, msg.Cont = false
  /-- A request without an id has no response. -/
  silent : handler.reqId = "" → responses w h = []
  /-- A finalized handler has left the map. -/
  left : handler.finalized = true → ∀ reqId, w.ResponseHandlerMap.get reqId ≠ some h

theorem HandlerOk.final {handler : RpcResponseHandler}
    {sent before after : List (RpcMessage δ)} {owns : Nat → Goroutine δ → Prop}
    {msg : RpcMessage δ} (h : HandlerOk handler sent owns)
    (hsent : sent = before ++ msg :: after) (hcont : msg.Cont = false) :
    after = [] := by
  have hnotOpen : ¬ ∀ other ∈ sent, other.Cont = true := by
    intro hopen
    have hmsg := hopen msg (by rw [hsent]; simp)
    rw [hcont] at hmsg
    exact absurd hmsg (by simp)
  have hsettled : Settled handler sent := by
    by_contra hnot
    have hclear : handler.done = false := by
      by_contra hset
      exact hnot (h.settled (.inl (by simpa using hset)))
    refine hnotOpen (h.undecided hclear fun i x hx => ?_)
    by_contra hclose
    exact hnot (h.settled (.inr ⟨i, x, hx, by simpa using hclose⟩))
  rcases hsettled with ⟨front, last, hfront, -, hall⟩ | ⟨-, hopen⟩
  · by_contra hmore
    obtain ⟨middle, final, rfl⟩ := (List.eq_nil_or_concat' after).resolve_left hmore
    have hprefixes : before ++ msg :: middle = front := by
      rw [hsent, ← List.cons_append, ← List.append_assoc] at hfront
      exact (List.append_inj' hfront rfl).1
    have hmsg := hall msg (by rw [← hprefixes]; simp)
    rw [hcont] at hmsg
    exact absurd hmsg (by simp)
  · exact absurd hopen hnotOpen

theorem Inv.answered {w : WshRpc δ} {h : HandlerId} {handler : RpcResponseHandler}
    (hinv : Inv w) (hh : w.handlers[h]? = some handler) :
    Answered w h handler := by
  have hok := hinv.handlers h handler hh
  refine ⟨fun before msg after => hok.final, ?_, hok.silent, ?_⟩
  · intro hreqId htime hdone
    have hidle : ∀ i x, w.Owns h i x → x.call = none ∧ x.next = .returned :=
      fun i x hx => hdone x (List.mem_of_getElem? hx.1) hx.2
    have hset : handler.done = true := by
      rcases hok.responsible with hset | ⟨i, x, hx, hwants⟩
      · exact hset
      · obtain ⟨hcall, hnext⟩ := hidle i x hx
        rw [Goroutine.responsible, hcall, hnext] at hwants
        exact absurd hwants (by simp)
    rcases hok.settled (.inl hset) with ⟨before, last, hsent, hcont, -⟩ | ⟨htimeout | hempty, -⟩
    · exact ⟨last, by rw [hsent]; simp, hcont⟩
    · rw [htime] at htimeout
      exact absurd htimeout (by simp)
    · exact absurd hempty hreqId
  · intro hfinalized reqId hget
    obtain ⟨handler₀, hhandler₀, -, -, hopen⟩ := hinv.mapped reqId h hget
    rw [hh, Option.some.injEq] at hhandler₀
    subst hhandler₀
    rw [hfinalized] at hopen
    exact absurd hopen (by simp)

/-- **Requests are answered once**, in every run whose steps keep the calls of a handler apart. -/
theorem requests_answered (marshals : δ → Bool) (events : List (Event δ))
    (hapart : Runs.Guarded (step marshals) (Apart marshals) make events) (h : HandlerId)
    (handler : RpcResponseHandler)
    (hh : (Runs.run (step marshals) make events).handlers[h]? = some handler) :
    Answered (Runs.run (step marshals) make events) h handler := by
  refine Inv.answered ?_ hh
  refine Runs.guarded_invariant (step marshals) Inv (Apart marshals)
    (fun w event hinv hok => step_inv marshals hinv event hok) ?_ events hapart
  refine ⟨?_, ?_, fun _ _ => rfl, ?_⟩
  · intro i g hg
    simp [make] at hg
  · intro reqId h hget
    simp [make] at hget
  · intro h handler hh
    simp [make] at hh

theorem requests_answered_async :
    let events : List (Event Unit) := [.request "r", .handlerReturns 0 .isAsync,
      .SendResponse 0 none false, .run 2 true, .SendResponse 0 none true, .run 2 true, .run 3 true,
      .run 3 true, .run 3 true, .run 3 true, .run 1 true, .run 1 true, .run 3 true, .run 3 true,
      .run 1 true]
    Answered (Runs.run (step fun _ => true) make events) 0
        ⟨"r", true, false, true, false, true⟩ ∧
      (responses (Runs.run (step fun _ => true) make events) 0).map (·.Cont) = [true, false] :=
  ⟨requests_answered (fun _ => true) _ (by decide) 0 _ (by decide), by decide⟩

/-- Two requests whose time has not elapsed: the finalizer of the first wakes up between the
response and the flag and answers again, and that of the second takes the context that was just
canceled instead of answering. -/
theorem answered_twice_or_never :
    let w := Runs.run (step fun _ : Unit => true) make [.request "r", .handlerReturns 0 .isAsync,
      .SendResponse 0 none true, .run 2 true, .run 2 true, .run 2 true, .run 2 true, .run 1 true,
      .run 1 true, .run 1 true, .run 1 true, .run 1 true, .request "s", .handlerReturns 3 .done,
      .run 3 true, .run 3 true, .run 3 true, .run 3 true, .run 3 false, .run 3 true, .run 3 true,
      .run 3 true, .run 3 true]
    (responses w 0).map (·.Cont) = [false, false] ∧ responses w 1 = [] ∧
      (∀ g ∈ w.goroutines, g.handler = 1 → g.call = none ∧ g.next = .returned) ∧
        w.handlers.map (·.deadlineExceeded) = [false, false] := by
  decide

end RpcResponses
