import Crest.JsMap
import Crest.Runs

/-!
# The responses of an RPC server

The server makes a response handler for every request and calls the implementation of the command
with it.  The implementation may answer from any goroutine and as often as it likes; the last
response ends the request, sets a flag and cancels the context of the handler.  When the
implementation has returned, or when the context is done if it goes on in the background, the
handler is finalized: it leaves the map of the server, and answers if nobody has.

Goroutines interleave at every access to what they share: the flag, the pointer to the cancel
function, the context, the map and the output channel.  A `select` that can send and whose context
is done takes either case.
-/

namespace RpcResponses

/-- The number of a response handler. -/
abbrev HandlerId := Nat

/-- What a response has of `RpcMessage`. -/
structure RpcMessage (δ : Type) where
  ResId : String
  Data : Option δ
  Error : String
  Cont : Bool
deriving DecidableEq, Repr

/-- What the responses need of `RpcResponseHandler`, and of its context: it is done once it is
canceled or its deadline has passed.  `finalized` says that `Finalize` has left the map. -/
structure RpcResponseHandler where
  reqId : String
  done : Bool
  contextCancelFn : Bool
  canceled : Bool
  deadlineExceeded : Bool
  finalized : Bool
deriving DecidableEq, Repr

/-- The context of a handler is done. -/
def RpcResponseHandler.ctxDone (handler : RpcResponseHandler) : Bool :=
  handler.canceled || handler.deadlineExceeded

/-- Where a call of `SendResponse` or `SendResponseError` is: before it loads `done`, at its
`select`, or in the deferred `close`. -/
inductive Call (δ : Type)
  | load (msg : RpcMessage δ)
  | select (msg : RpcMessage δ)
  | loadCancelFn
  | cancelFn
  | storeCancelFn
  | storeDone
deriving DecidableEq, Repr

/-- What a goroutine does next when it is not in a call: it runs the implementation, cancels the
context behind it, waits for the context, does the two halves of `Finalize`, or is at its end. -/
inductive Next
  | handlerFn
  | cancel
  | waitCtx
  | unregister
  | loadDone
  | returned
deriving DecidableEq, Repr

/-- A goroutine that works for a handler. -/
structure Goroutine (δ : Type) where
  handler : HandlerId
  call : Option (Call δ)
  next : Next
deriving DecidableEq, Repr

/-- What the goroutines of a server share, and the goroutines.  `OutputCh` has the responses in
the order in which they were sent, with the handler they are from. -/
structure WshRpc (δ : Type) where
  ResponseHandlerMap : JsMap String HandlerId
  handlers : List RpcResponseHandler
  goroutines : List (Goroutine δ)
  OutputCh : List (HandlerId × RpcMessage δ)

/-- How the implementation of a command returns. -/
inductive Outcome
  | done
  | isAsync
  | panic (err : String)
deriving DecidableEq, Repr

/-- What happens to a server: a request comes in, the implementation calls one of the methods of a
handler, the deadline of a context passes, the implementation returns, or a goroutine takes its
next step, where a `select` sends if it is to. -/
inductive Event (δ : Type)
  | request (reqId : String)
  | SendResponse (h : HandlerId) (data : Option δ) (done : Bool)
  | SendResponseError (h : HandlerId) (err : String)
  | Finalize (h : HandlerId)
  | deadline (h : HandlerId)
  | handlerReturns (g : Nat) (outcome : Outcome)
  | run (g : Nat) (sends : Bool)

namespace WshRpc

variable {δ : Type}

/-- A server before its first request. -/
def make : WshRpc δ where
  ResponseHandlerMap := .empty
  handlers := []
  goroutines := []
  OutputCh := []

/-- The handler changes. -/
def modifyHandler (w : WshRpc δ) (h : HandlerId) (f : RpcResponseHandler → RpcResponseHandler) :
    WshRpc δ :=
  { w with handlers := w.handlers.modify h f }

/-- A goroutine gets further. -/
def setGoroutine (w : WshRpc δ) (g : Nat) (goroutine : Goroutine δ) : WshRpc δ :=
  { w with goroutines := w.goroutines.set g goroutine }

/-- A goroutine is started. -/
def start (w : WshRpc δ) (goroutine : Goroutine δ) : WshRpc δ :=
  { w with goroutines := w.goroutines ++ [goroutine] }

/-- The message of `SendResponse`. -/
def responseMsg (handler : RpcResponseHandler) (data : Option δ) (done : Bool) : RpcMessage δ where
  ResId := handler.reqId
  Data := data
  Error := ""
  Cont := !done

/-- The message of `SendResponseError`. -/
def errorMsg (handler : RpcResponseHandler) (err : String) : RpcMessage δ where
  ResId := handler.reqId
  Data := none
  Error := err
  Cont := false

/-- `handleRequestInternal`, up to the call of the implementation. -/
def handleRequestInternal (w : WshRpc δ) (reqId : String) : WshRpc δ :=
  { w with
    handlers := w.handlers ++ [⟨reqId, false, true, false, false, false⟩]
    ResponseHandlerMap :=
      if reqId ≠ "" then w.ResponseHandlerMap.set reqId w.handlers.length
      else w.ResponseHandlerMap
    goroutines := w.goroutines ++ [⟨w.handlers.length, none, .handlerFn⟩] }

/-- The deferred function of `handleRequestInternal`. -/
def handlerReturns (w : WshRpc δ) (g : Nat) (outcome : Outcome) : WshRpc δ :=
  match w.goroutines[g]? with
  | some ⟨h, none, .handlerFn⟩ =>
    match w.handlers[h]? with
    | none => w
    | some handler =>
      match outcome with
      | .done => w.setGoroutine g ⟨h, none, .cancel⟩
      | .isAsync => (w.setGoroutine g ⟨h, none, .returned⟩).start ⟨h, none, .waitCtx⟩
      | .panic err => w.setGoroutine g ⟨h, some (.load (errorMsg handler err)), .cancel⟩
  | _ => w

/-- What a call does behind its test of `done`: a request without an id has no response, and one
that cannot be encoded is not sent. -/
def afterLoad (marshals : δ → Bool) (handler : RpcResponseHandler) (msg : RpcMessage δ) :
    Option (Call δ) :=
  if handler.reqId = "" || !(msg.Data.all marshals) then
    if msg.Cont then none else some .loadCancelFn
  else some (.select msg)

/-- A goroutine takes the next step of a call. -/
def runCall
    (marshals : δ → Bool) (w : WshRpc δ) (g : Nat) (goroutine : Goroutine δ)
    (handler : RpcResponseHandler) (sends : Bool) :
    Call δ → WshRpc δ
  | .load msg =>
    if handler.done then w.setGoroutine g { goroutine with call := none }
    else w.setGoroutine g { goroutine with call := afterLoad marshals handler msg }
  | .select msg =>
    let behind := { goroutine with call := if msg.Cont then none else some .loadCancelFn }
    if sends then
      { w with OutputCh := w.OutputCh ++ [(goroutine.handler, msg)] }.setGoroutine g behind
    else if handler.ctxDone then w.setGoroutine g behind
    else w
  | .loadCancelFn =>
    w.setGoroutine g { goroutine with
      call := some (if handler.contextCancelFn then .cancelFn else .storeDone) }
  | .cancelFn =>
    (w.modifyHandler goroutine.handler fun handler =>
      { handler with canceled := true }).setGoroutine g
        { goroutine with call := some .storeCancelFn }
  | .storeCancelFn =>
    (w.modifyHandler goroutine.handler fun handler =>
      { handler with contextCancelFn := false }).setGoroutine g
        { goroutine with call := some .storeDone }
  | .storeDone =>
    (w.modifyHandler goroutine.handler fun handler =>
      { handler with done := true }).setGoroutine g { goroutine with call := none }

/-- A goroutine takes the next step outside of a call. -/
def runNext
    (w : WshRpc δ) (g : Nat) (goroutine : Goroutine δ) (handler : RpcResponseHandler) :
    Next → WshRpc δ
  | .handlerFn => w
  | .cancel =>
    (w.modifyHandler goroutine.handler fun handler =>
      { handler with canceled := true }).setGoroutine g { goroutine with next := .unregister }
  | .waitCtx =>
    if handler.ctxDone then w.setGoroutine g { goroutine with next := .unregister } else w
  | .unregister =>
    ({ w with
      ResponseHandlerMap :=
        if handler.reqId ≠ "" then w.ResponseHandlerMap.delete handler.reqId
        else w.ResponseHandlerMap }.modifyHandler goroutine.handler fun handler =>
          { handler with finalized := true }).setGoroutine g { goroutine with next := .loadDone }
  | .loadDone =>
    if handler.done then w.setGoroutine g { goroutine with next := .returned }
    else w.setGoroutine g { goroutine with
      call := some (.load (responseMsg handler none true))
      next := .returned }
  | .returned => w

/-- A goroutine takes its next step. -/
def run (marshals : δ → Bool) (w : WshRpc δ) (g : Nat) (sends : Bool) : WshRpc δ :=
  match w.goroutines[g]? with
  | none => w
  | some goroutine =>
    match w.handlers[goroutine.handler]? with
    | none => w
    | some handler =>
      match goroutine.call with
      | some call => runCall marshals w g goroutine handler sends call
      | none => runNext w g goroutine handler goroutine.next

/-- The implementation calls a method of a handler. -/
def callHandler
    (w : WshRpc δ) (h : HandlerId) (goroutine : RpcResponseHandler → Goroutine δ) :
    WshRpc δ :=
  match w.handlers[h]? with
  | none => w
  | some handler => w.start (goroutine handler)

end WshRpc

open WshRpc

/-- One event; an event that cannot happen does nothing. -/
def step {δ : Type} (marshals : δ → Bool) (w : WshRpc δ) : Event δ → WshRpc δ
  | .request reqId => w.handleRequestInternal reqId
  | .SendResponse h data done =>
    w.callHandler h fun handler =>
      ⟨h, some (.load (responseMsg handler data done)), .returned⟩
  | .SendResponseError h err =>
    w.callHandler h fun handler => ⟨h, some (.load (errorMsg handler err)), .returned⟩
  | .Finalize h => w.callHandler h fun _ => ⟨h, none, .unregister⟩
  | .deadline h => w.modifyHandler h fun handler =>
    if handler.canceled then handler else { handler with deadlineExceeded := true }
  | .handlerReturns g outcome => w.handlerReturns g outcome
  | .run g sends => w.run marshals g sends

/-- The responses of a handler. -/
def responses {δ : Type} (w : WshRpc δ) (h : HandlerId) : List (RpcMessage δ) :=
  (w.OutputCh.filter fun entry => entry.1 = h).map Prod.snd

end RpcResponses
