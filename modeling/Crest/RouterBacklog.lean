import Crest.JsMap
import Crest.Runs

/-!
# The backlogs of a router

A router hands each message over to the client of a link.  As long as the link has no backlog, the
message goes to the client's channel at once; where the channel is full, and behind messages that
wait already, it goes to the link's backlog.  A goroutine drains the backlogs in rounds, and waits
while there are none.  All of this happens under the router's lock, but whether a channel has room
is not up to the router.

A sender looks its link up first and takes the lock again to hand its message over, so that the link
may have been unregistered in between.
-/

namespace RouterBacklog

abbrev LinkId := Nat

/-- `backlogMessageWrap`. -/
structure Message where
  msgBytes : List UInt8
  ingressLinkId : LinkId
deriving DecidableEq, Repr

/-- Where the goroutine of `processBacklog` is: it takes the lock to look for backlogs, waits on the
condition, is about to process a round, or sleeps after one. -/
inductive Processor
  | checking
  | waiting
  | round
  | sleeping
deriving DecidableEq, Repr

/-- What the router's lock protects, the senders that have looked a link up, and the goroutine.
`handed` are the messages in the order in which their hand-over took the lock, and `sent` those that
the channels have taken. -/
structure WshRouter where
  nextLinkId : LinkId
  linkMap : List LinkId
  linkMsgBacklog : JsMap LinkId (List Message)
  senders : List (LinkId × Message)
  processor : Processor
  handed : List (LinkId × Message)
  sent : List (LinkId × Message)

def NewWshRouter : WshRouter where
  nextLinkId := 0
  linkMap := []
  linkMsgBacklog := .empty
  senders := []
  processor := .checking
  handed := []
  sent := []

namespace WshRouter

/-- The backlog of a link; there is none where the map has no entry. -/
def backlog (router : WshRouter) (linkId : LinkId) : List Message :=
  (router.linkMsgBacklog.get linkId).getD []

/-- `linkBacklogCond.Signal()`. -/
def signal (router : WshRouter) : WshRouter :=
  match router.processor with
  | .waiting => { router with processor := .checking }
  | _ => router

def addToBacklog_withlock (router : WshRouter) (linkId : LinkId) (msg : Message) : WshRouter :=
  let mapWasEmpty := router.linkMsgBacklog.size == 0
  let router := { router with
    linkMsgBacklog := router.linkMsgBacklog.set linkId (router.backlog linkId ++ [msg]) }
  if mapWasEmpty then router.signal else router

/-- `sendRpcMessageToLink`, where the channel has room or not. -/
def sendRpcMessageToLink (router : WshRouter) (linkId : LinkId) (msg : Message)
    (hasRoom : Bool) : WshRouter :=
  let router := { router with handed := router.handed ++ [(linkId, msg)] }
  if (router.backlog linkId).length == 0 && hasRoom then
    { router with sent := router.sent ++ [(linkId, msg)] }
  else router.addToBacklog_withlock linkId msg

/-- `processOneBacklogRound`, where each channel has room for so many messages: the messages that
are sent of each link that is registered, and what is left of the backlogs. -/
def processOneBacklogRound (router : WshRouter) (room : LinkId → Nat) : WshRouter :=
  { router with
    sent := router.sent ++ router.linkMsgBacklog.entries.flatMap fun entry =>
      if router.linkMap.contains entry.1 then
        (entry.2.take (room entry.1)).map fun msg => (entry.1, msg)
      else []
    linkMsgBacklog := router.linkMsgBacklog.filterMap fun linkId backlog =>
      if router.linkMap.contains linkId then
        if (backlog.drop (room linkId)).length == 0 then none
        else some (backlog.drop (room linkId))
      else none }

def RegisterUntrustedLink (router : WshRouter) : WshRouter :=
  { router with
    nextLinkId := router.nextLinkId + 1
    linkMap := router.linkMap ++ [router.nextLinkId + 1] }

def UnregisterLink (router : WshRouter) (linkId : LinkId) : WshRouter :=
  { router with linkMap := router.linkMap.filter (· ≠ linkId) }

/-- `getLinkMeta`, by a sender with a message. -/
def getLinkMeta (router : WshRouter) (linkId : LinkId) (msg : Message) : WshRouter :=
  if router.linkMap.contains linkId then
    { router with senders := router.senders ++ [(linkId, msg)] }
  else router

/-- The next step of `processBacklog`. -/
def processBacklog (router : WshRouter) (room : LinkId → Nat) : WshRouter :=
  match router.processor with
  | .checking =>
    if router.linkMsgBacklog.size == 0 then { router with processor := .waiting }
    else { router with processor := .round }
  | .waiting => router
  | .round => { router.processOneBacklogRound room with processor := .sleeping }
  | .sleeping => { router with processor := .checking }

end WshRouter

/-- What happens to a router. -/
inductive Event
  | register
  | unregister (linkId : LinkId)
  | lookUp (linkId : LinkId) (msg : Message)
  | handOver (sender : Nat) (hasRoom : Bool)
  | process (room : LinkId → Nat)

/-- One event; a sender that there is not does nothing. -/
def step (router : WshRouter) : Event → WshRouter
  | .register => router.RegisterUntrustedLink
  | .unregister linkId => router.UnregisterLink linkId
  | .lookUp linkId msg => router.getLinkMeta linkId msg
  | .handOver sender hasRoom =>
    match router.senders[sender]? with
    | none => router
    | some (linkId, msg) =>
      { router with senders := router.senders.eraseIdx sender }.sendRpcMessageToLink linkId msg
        hasRoom
  | .process room => router.processBacklog room

/-- The messages of a link. -/
def ofLink (linkId : LinkId) (messages : List (LinkId × Message)) : List Message :=
  (messages.filter fun entry => entry.1 = linkId).map Prod.snd

end RouterBacklog
