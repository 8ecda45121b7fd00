import Mathlib

/-!
# Synchronous message passing

Endpoints, the per-task wait records and the sections each operation runs
under the authority lock; one step of the machine is one section. What the
task table, the capability table, pending signals and the clock answer comes
with each step and is arbitrary, and a blocked task may resume at any moment.
`pendingTag`, `callNo` and `replyNo` name the message in the slot, the
outstanding call and the call a parked reply answers; `received`, `withdrawn`
and `answered` record what was handed out and what was taken back.
-/

namespace MoQiOS.Ipc
open Function

def maxEndpoints : ℕ := 128
def maxTasks : ℕ := 64
def maxCallDepth : ℕ := 8
def ipcTimeoutTicks : ℕ := 3000

inductive IpcError where
  | success
  | invalidEndpoint
  | notReady
  | wouldDeadlock
  | timeout
  deriving DecidableEq, Repr

inductive WaitOp where
  | none
  | send
  | receive
  | call
  deriving DecidableEq, Repr

structure Message where
  sender : ℕ
  replyTo : ℕ
  body : List UInt8
  deriving DecidableEq, Repr

structure TaskState where
  waitOp : WaitOp
  callDepth : ℕ
  blockedOn : ℕ
  blockedGeneration : ℕ
  blockStartTick : ℕ
  wakeError : IpcError

structure Endpoint where
  ownerTaskIdx : Option ℕ
  ownerTid : Option ℕ
  waitingSender : Option ℕ
  waitingReceiver : Option ℕ
  deliveryReceiver : Option ℕ
  replyCalleeTaskIdx : Option ℕ
  replyCalleeTid : Option ℕ
  replyToken : ℕ
  pendingNotify : ℕ
  pendingMsg : Option Message
  replyMsg : Option Message
  active : Bool
  pendingTag : ℕ
  callNo : ℕ
  replyNo : ℕ

/-- What a call keeps on its stack between its sections. -/
structure Call where
  callerEp : ℕ
  targetEp : ℕ
  token : ℕ
  number : ℕ
  msg : Message
  requireCap : Bool
  deriving DecidableEq

inductive Pc where
  | idle
  | sendBlocked (ep : ℕ) (call : Option Call)
  | receiveBlocked (ep : ℕ)
  | callSend (c : Call)
  | callRollback (c : Call) (err : IpcError)
  | callPost (c : Call)
  | callBlocked (c : Call)
  | callWoken (c : Call) (wakeError : IpcError)
  | callTaken (c : Call) (reply : Message)
  | callCancel (c : Call) (err : IpcError) (lower : Bool)
  deriving DecidableEq

/-- A successful call: its number and token, and the reply with the number of
the call it was parked for. -/
structure Answer where
  number : ℕ
  token : ℕ
  replyNo : ℕ
  reply : Message

structure State where
  endpoints : ℕ → Endpoint
  generations : ℕ → ℕ
  tasks : ℕ → TaskState
  nextCallToken : ℕ
  pc : ℕ → Pc
  result : ℕ → IpcError
  trapped : Bool
  accepted : ℕ
  calls : ℕ
  received : List ℕ
  withdrawn : List ℕ
  answered : List Answer

/-- The answers a section gets from outside: the capability check, the pin and
the live task it looks up, whether a signal is pending, and the time. -/
structure Env where
  authorized : Bool
  pinned : Option ℕ
  alive : Option ℕ
  exiting : Bool
  signal : Bool
  now : ℕ

inductive SendAction where
  | deliver
  | block
  | busy
  deriving DecidableEq

def sendAction (receiverWaiting senderWaiting : Bool) : SendAction :=
  if receiverWaiting then .deliver else if senderWaiting then .busy else .block

inductive ReceiveAction where
  | pickUp
  | block
  | busy
  deriving DecidableEq

def receiveAction (senderWaiting receiverWaiting : Bool) : ReceiveAction :=
  if senderWaiting then .pickUp else if receiverWaiting then .busy else .block

def noTask : TaskState := ⟨.none,0,0,0,0,.success⟩

def emptyEndpoint : Endpoint :=
  ⟨none,none,none,none,none,none,none,0,0,none,none,false,0,0,0⟩

def endpointIds : List ℕ := (List.range maxEndpoints).drop 1

variable (s : State) (i : ℕ)

def State.setEndpoint (e : Endpoint) : State :=
  { s with endpoints := update s.endpoints i e }

def State.setTask (t : TaskState) : State :=
  { s with tasks := update s.tasks i t }

def State.goto (p : Pc) : State := { s with pc := update s.pc i p }

def State.finish (err : IpcError) : State :=
  { s with pc := update s.pc i .idle, result := update s.result i err }

/-- A counter of 64 bits that skips zero. -/
def nextNonzero (n : ℕ) : ℕ := if (n+1)%2^64 = 0 then 1 else (n+1)%2^64

variable (e : Endpoint)

def Endpoint.clearCall : Endpoint :=
  { e with replyCalleeTaskIdx := none, replyCalleeTid := none, replyToken := 0 }

def TaskState.rest (t : TaskState) : TaskState :=
  { t with blockedOn := 0, waitOp := .none, blockStartTick := 0 }

variable (err : IpcError)

def cancelWaitLocked (s : State) (idx : ℕ) : State :=
  if maxTasks ≤ idx then s
  else s.setTask idx { s.tasks idx with
    wakeError := err, blockedOn := 0, blockedGeneration := 0, waitOp := .none, blockStartTick := 0 }

def cancelWaits (s : State) (idxs : List ℕ) : State :=
  idxs.foldl (cancelWaitLocked err) s

def dropped (old new : ℕ → Endpoint) : List ℕ :=
  (endpointIds.filter (fun i => (old i).pendingMsg.isSome && (new i).pendingMsg.isNone)).map
    (fun i => (old i).pendingTag)

def State.sweep (f : ℕ → Endpoint → Endpoint) : State :=
  let swept := fun i => if i ∈ endpointIds then f i (s.endpoints i) else s.endpoints i
  { s with endpoints := swept, withdrawn := s.withdrawn++dropped s.endpoints swept }

variable (idx : ℕ)

def findEndpointForTask : Option ℕ :=
  endpointIds.find? (fun i => (s.endpoints i).active && decide ((s.endpoints i).ownerTaskIdx = some idx))

def circularFrom (s : State) (senderIdx : ℕ) : ℕ → ℕ → Bool
  | 0, _ => false
  | depth+1, current =>
    let blockedEp := (s.tasks current).blockedOn
    if blockedEp = 0 then false
    else if maxEndpoints ≤ blockedEp then false
    else
      match (s.endpoints blockedEp).ownerTaskIdx with
      | none => false
      | some next => if next = senderIdx then true else circularFrom s senderIdx depth next

def checkCircularWait (senderIdx targetEp : ℕ) : Bool :=
  match (s.endpoints targetEp).ownerTaskIdx with
  | none => false
  | some owner => if owner = senderIdx then true else circularFrom s senderIdx maxCallDepth owner

variable (env : Env)

def createEndpoint (s : State) (owner : ℕ) : State :=
  match env.alive with
  | none => s
  | some tid =>
    match endpointIds.find? (fun i => !(s.endpoints i).active) with
    | none => s
    | some i =>
      { s.setEndpoint i { emptyEndpoint with
          ownerTaskIdx := some owner, ownerTid := some tid, active := true } with
        generations := update s.generations i (nextNonzero (s.generations i)) }

def waitersOf : List ℕ :=
  e.waitingSender.toList++e.waitingReceiver.toList++e.deliveryReceiver.toList

def callersOf (callee : ℕ) : List ℕ :=
  endpointIds.filterMap (fun i =>
    if (s.endpoints i).active && decide ((s.endpoints i).replyCalleeTaskIdx = some callee) then
      (s.endpoints i).ownerTaskIdx
    else none)

def destroyEndpoint (s : State) (ep caller : ℕ) : State :=
  if ep = 0 ∨ maxEndpoints ≤ ep then s
  else
    let e := s.endpoints ep
    if env.alive = none ∨ e.ownerTaskIdx ≠ some caller ∨ e.ownerTid ≠ env.alive ∨ env.exiting then s
    else
      let s := cancelWaits .invalidEndpoint s (waitersOf e)
      let s := s.sweep (fun i e => if i = ep then emptyEndpoint else e)
      let callers := callersOf s caller
      let s := s.sweep (fun _ e =>
        if e.active && decide (e.replyCalleeTaskIdx = some caller) && e.ownerTaskIdx.isSome then
          e.clearCall
        else e)
      cancelWaits .invalidEndpoint s callers

def forgetTask (e : Endpoint) : Endpoint :=
  if !e.active then e
  else
    let e := if e.waitingSender = some idx then { e with waitingSender := none, pendingMsg := none } else e
    let e := if e.waitingReceiver = some idx then { e with waitingReceiver := none } else e
    let e :=
      if e.deliveryReceiver = some idx then { e with deliveryReceiver := none, pendingMsg := none }
      else e
    if e.replyCalleeTaskIdx = some idx then e.clearCall else e

def owns : Bool := e.active && decide (e.ownerTaskIdx = some idx)

def clearEndpointsForTask : State :=
  let waiters := endpointIds.flatMap (fun i =>
    if owns (s.endpoints i) idx then waitersOf (s.endpoints i) else [])
  let s := cancelWaits .invalidEndpoint s waiters
  let s := s.sweep (fun _ e => if owns e idx then emptyEndpoint else e)
  let callers := callersOf s idx
  let s := s.sweep (fun _ e => forgetTask idx e)
  let s := cancelWaits .invalidEndpoint s callers
  s.setTask idx noTask

variable (ep : ℕ)

def stage (e : Endpoint) (msg : Message) : State :=
  { s.setEndpoint ep { e with pendingMsg := some msg, pendingTag := s.accepted } with
    accepted := s.accepted+1 }

/-- The first section of a send. No result means that the sender blocks. -/
def sendInternal (s : State) (senderIdx targetEp : ℕ) (msg : Message)
    (requireCap : Bool) : State × Option IpcError :=
  if targetEp = 0 ∨ maxEndpoints ≤ targetEp then (s, some .invalidEndpoint)
  else
    let e := s.endpoints targetEp
    if !e.active then (s, some .invalidEndpoint)
    else if requireCap && !env.authorized then (s, some .invalidEndpoint)
    else
      match findEndpointForTask s senderIdx with
      | none => (s, some .notReady)
      | some senderEp =>
        if e.ownerTaskIdx = some senderIdx then (s, some .wouldDeadlock)
        else if checkCircularWait s senderIdx targetEp then (s, some .wouldDeadlock)
        else if sendAction e.waitingReceiver.isSome e.waitingSender.isSome = .busy then
          (s, some .notReady)
        else if e.deliveryReceiver.isSome then (s, some .notReady)
        else
          let outMsg := { msg with sender := senderEp }
          match e.waitingReceiver with
          | some recvIdx =>
            if env.pinned = none then (s, some .notReady)
            else
              let s := stage s targetEp
                { e with waitingReceiver := none, deliveryReceiver := some recvIdx } outMsg
              (s.setTask recvIdx { s.tasks recvIdx with blockedOn := 0 }, some .success)
          | none =>
            if env.alive = none then (s, some .notReady)
            else
              let s := stage s targetEp { e with waitingSender := some senderIdx } outMsg
              (s.setTask senderIdx { s.tasks senderIdx with
                blockedOn := targetEp, blockedGeneration := s.generations targetEp
                wakeError := .success, waitOp := .send, blockStartTick := env.now }, none)

def sendWake (s : State) (senderIdx : ℕ) : State × IpcError :=
  let t := s.tasks senderIdx
  let s := s.setTask senderIdx { t.rest with wakeError := .success, blockedGeneration := 0 }
  (s, if t.wakeError ≠ .success then t.wakeError else if env.signal then .timeout else .success)

def takePending (e : Endpoint) : State :=
  { s.setEndpoint ep { e with pendingMsg := none, deliveryReceiver := none } with
    received := s.received++[(s.endpoints ep).pendingTag] }

/-- The first section of a receive. No result means that the receiver blocks. -/
def receiveInternal (s : State) (callerIdx ep : ℕ) (requireCap : Bool) :
    State × Option IpcError :=
  if ep = 0 ∨ maxEndpoints ≤ ep then (s, some .invalidEndpoint)
  else
    let e := s.endpoints ep
    if !e.active then (s, some .invalidEndpoint)
    else if e.ownerTaskIdx ≠ some callerIdx ∧ (!requireCap || !env.authorized) then
      (s, some .notReady)
    else if e.deliveryReceiver.isSome ∧ e.deliveryReceiver ≠ some callerIdx then (s, some .notReady)
    else if receiveAction e.waitingSender.isSome e.waitingReceiver.isSome = .busy then
      (s, some .notReady)
    else
      match e.waitingSender with
      | some senderIdx =>
        if env.pinned = none then (s, some .notReady)
        else
          let s :=
            if e.pendingMsg.isSome then
              let s := takePending s ep { e with waitingSender := none }
              s.setTask callerIdx { (s.tasks callerIdx).rest with wakeError := .success }
            else s.setEndpoint ep { e with waitingSender := none }
          (s.setTask senderIdx { s.tasks senderIdx with blockedOn := 0 }, some .success)
      | none =>
        if env.alive = none then (s, some .notReady)
        else
          let s := s.setEndpoint ep { e with waitingReceiver := some callerIdx }
          (s.setTask callerIdx { s.tasks callerIdx with
            blockedOn := ep, blockedGeneration := s.generations ep, wakeError := .success
            waitOp := .receive, blockStartTick := env.now }, none)

def receiveWake (s : State) (callerIdx ep : ℕ) : State × IpcError :=
  let t := s.tasks callerIdx
  let e := s.endpoints ep
  let valid := e.active && decide (t.blockedGeneration = s.generations ep)
  let e := if e.waitingReceiver = some callerIdx then { e with waitingReceiver := none } else e
  let quiet := { t.rest with wakeError := .success, blockedGeneration := 0 }
  if !valid then ((s.setEndpoint ep e).setTask callerIdx quiet, .invalidEndpoint)
  else if e.deliveryReceiver = some callerIdx ∧ e.pendingMsg.isSome then
    ((takePending s ep e).setTask callerIdx { t.rest with wakeError := .success }, .success)
  else
    let e := if e.deliveryReceiver = some callerIdx then { e with deliveryReceiver := none } else e
    ((s.setEndpoint ep e).setTask callerIdx quiet,
      if t.wakeError ≠ .success then t.wakeError
      else if env.pinned = none then .notReady
      else if env.signal then .timeout else .notReady)

end MoQiOS.Ipc
