import MoQiOS.Ipc

/-!
# Calls, replies and timeouts

A call runs in several sections: it registers itself, sends its message like
any sender, and waits for the reply parked at its own endpoint. The machine
stops where a decrement of the call depth would go below zero.
-/

namespace MoQiOS.Ipc

variable (env : Env)

/-- The first section of a call. The call goes on to send its message. -/
def callInternal (s : State) (callerIdx targetEp : ℕ) (msg : Message)
    (requireCap : Bool) : State :=
  if targetEp = 0 ∨ maxEndpoints ≤ targetEp then s.finish callerIdx .invalidEndpoint
  else if maxCallDepth ≤ (s.tasks callerIdx).callDepth then s.finish callerIdx .wouldDeadlock
  else
    match findEndpointForTask s callerIdx with
    | none => s.finish callerIdx .notReady
    | some callerEp =>
      let target := s.endpoints targetEp
      if (s.endpoints callerEp).replyCalleeTaskIdx.isSome then s.finish callerIdx .notReady
      else if !target.active then s.finish callerIdx .invalidEndpoint
      else if requireCap && !env.authorized then s.finish callerIdx .invalidEndpoint
      else if target.ownerTaskIdx = none then s.finish callerIdx .invalidEndpoint
      else if env.alive = none then s.finish callerIdx .invalidEndpoint
      else
        let token := s.nextCallToken
        let s := s.setEndpoint callerEp { s.endpoints callerEp with
          replyCalleeTaskIdx := target.ownerTaskIdx, replyCalleeTid := env.alive
          replyToken := token, callNo := s.calls }
        let s := s.setTask callerIdx { s.tasks callerIdx with
          callDepth := (s.tasks callerIdx).callDepth+1 }
        { s with nextCallToken := nextNonzero token, calls := s.calls+1 }.goto callerIdx
          (.callSend ⟨callerEp,targetEp,token,s.calls,{ msg with replyTo := token },requireCap⟩)

variable (s : State)

/-- A decrement that is not guarded stops the kernel at zero. -/
def lowerDepth (idx : ℕ) : State :=
  if (s.tasks idx).callDepth = 0 then { s with trapped := true }
  else s.setTask idx { s.tasks idx with callDepth := (s.tasks idx).callDepth-1 }

def TaskState.lower (t : TaskState) : TaskState := { t with callDepth := t.callDepth-1 }

def rollback (callerIdx : ℕ) (c : Call) (err : IpcError) : State :=
  let s := s.setEndpoint c.callerEp (s.endpoints c.callerEp).clearCall
  (lowerDepth s callerIdx).finish callerIdx err

def answer (c : Call) (reply : Message) : State :=
  { s with answered := s.answered++[⟨c.number,c.token,(s.endpoints c.callerEp).replyNo,reply⟩] }

def postSend (s : State) (callerIdx : ℕ) (c : Call) : State :=
  let e := s.endpoints c.callerEp
  let t := s.tasks callerIdx
  match e.replyMsg with
  | some reply =>
    let s := answer s c reply
    let s := s.setEndpoint c.callerEp { e.clearCall with replyMsg := none }
    let s := s.setTask callerIdx { t.lower with
      wakeError := .success, waitOp := .none, blockStartTick := 0 }
    s.finish callerIdx .success
  | none =>
    if t.wakeError ≠ .success then
      let s := s.setEndpoint c.callerEp e.clearCall
      let s := s.setTask callerIdx { t.lower with
        wakeError := .success, waitOp := .none, blockStartTick := 0 }
      s.finish callerIdx t.wakeError
    else if env.alive = none then
      let s := s.setEndpoint c.callerEp e.clearCall
      (lowerDepth s callerIdx).finish callerIdx .notReady
    else
      let s := s.setTask callerIdx { t with
        blockedOn := c.targetEp, waitOp := .call, blockStartTick := env.now }
      s.goto callerIdx (.callBlocked c)

def callWake (callerIdx : ℕ) (c : Call) : State :=
  let t := s.tasks callerIdx
  let s := s.setTask callerIdx
    { (if t.wakeError ≠ .success then t.lower else t) with blockedOn := 0, wakeError := .success }
  s.goto callerIdx (.callWoken c t.wakeError)

def takeReply (s : State) (callerIdx : ℕ) (c : Call) (wakeError : IpcError) : State :=
  let e := s.endpoints c.callerEp
  match e.replyMsg with
  | some reply =>
    let s := answer s c reply
    (s.setEndpoint c.callerEp { e with replyMsg := none }).goto callerIdx (.callTaken c reply)
  | none =>
    if wakeError ≠ .success then s.goto callerIdx (.callCancel c wakeError false)
    else s.goto callerIdx (.callCancel c (if env.signal then .timeout else .notReady) true)

def finishCall (callerIdx : ℕ) : State :=
  (s.setTask callerIdx (s.tasks callerIdx).rest).finish callerIdx .success

def cancelCall (callerIdx : ℕ) (c : Call) (err : IpcError) (lower : Bool) : State :=
  let s := s.setEndpoint c.callerEp { (s.endpoints c.callerEp).clearCall with replyMsg := none }
  let t := s.tasks callerIdx
  (s.setTask callerIdx (if lower then t.lower else t).rest).finish callerIdx err

/-- `env.alive` is the thread id of the replying task, `env.pinned` that of the
pinned owner. -/
def replyToken (env : Env) (s : State) (calleeIdx : ℕ) (msg : Message) : State :=
  if msg.replyTo = 0 then s
  else
    match endpointIds.find? (fun i =>
      (s.endpoints i).active && decide ((s.endpoints i).replyToken = msg.replyTo)) with
    | none => s
    | some i =>
      let e := s.endpoints i
      if env.alive = none then s
      else if e.replyCalleeTaskIdx ≠ some calleeIdx ∨ e.replyCalleeTid ≠ env.alive then s
      else
        match e.ownerTaskIdx with
        | none => s
        | some owner =>
          if env.pinned = none then s
          else if e.ownerTid ≠ env.pinned then s
          else
            let s := s.setTask owner { (s.tasks owner).lower with blockedOn := 0 }
            s.setEndpoint i { e.clearCall with replyMsg := some msg, replyNo := e.callNo }

def notifyInternal (s : State) (ep bits : ℕ) (requireCap : Bool) : State :=
  if ep = 0 ∨ maxEndpoints ≤ ep then s
  else
    let e := s.endpoints ep
    if !e.active then s
    else if requireCap && !env.authorized then s
    else
      let e := { e with pendingNotify := e.pendingNotify ||| bits }
      match e.waitingReceiver with
      | none => s.setEndpoint ep e
      | some recvIdx =>
        if env.pinned = none then s.setEndpoint ep e
        else
          let s := s.setEndpoint ep { e with waitingReceiver := none }
          s.setTask recvIdx { s.tasks recvIdx with blockedOn := 0 }

def getNotify (ep : ℕ) : State :=
  if ep = 0 ∨ maxEndpoints ≤ ep then s
  else s.setEndpoint ep { s.endpoints ep with pendingNotify := 0 }

/-- Whether a timed-out call has its reply or its answer still to come here. -/
def callHere (idx : ℕ) (e : Endpoint) : Bool :=
  decide (e.ownerTaskIdx = some idx) && (e.replyCalleeTaskIdx.isSome || e.replyMsg.isSome)

variable (op : WaitOp)

def keepsWaiting (idx : ℕ) (e : Endpoint) : Bool :=
  e.active &&
    match op with
    | .call => (callHere idx e || decide (e.replyCalleeTaskIdx = some idx)) && e.replyMsg.isSome
    | .receive => decide (e.waitingReceiver ≠ some idx) && decide (e.deliveryReceiver = some idx)
    | _ => false

def expireAt (idx : ℕ) (e : Endpoint) : Endpoint :=
  if !e.active then e
  else
    match op with
    | .call =>
      if (callHere idx e || decide (e.replyCalleeTaskIdx = some idx)) && e.replyMsg.isNone then
        e.clearCall
      else e
    | .send =>
      if e.waitingSender = some idx then { e with waitingSender := none, pendingMsg := none } else e
    | .receive => if e.waitingReceiver = some idx then { e with waitingReceiver := none } else e
    | .none => e

/-- A call whose message is still in the slot takes it back. -/
def withdrawCall (blockedOn idx i : ℕ) (e : Endpoint) : Endpoint :=
  if op = .call ∧ i = blockedOn ∧ e.active = true ∧ e.waitingSender = some idx ∧
      e.pendingMsg.isSome then
    { e with waitingSender := none, pendingMsg := none }
  else e

inductive Liveness where
  | absent
  | exiting
  | live
  deriving DecidableEq

variable (now : ℕ)

def timeoutTask (live : ℕ → Liveness) (s : State) (idx : ℕ) : State :=
  let t := s.tasks idx
  if t.waitOp = .none ∨ t.blockStartTick = 0 then s
  else if now < t.blockStartTick ∨ now-t.blockStartTick < ipcTimeoutTicks then s
  else if live idx ≠ .live then s.setTask idx { t.rest with wakeError := .success }
  else
    let s := s.sweep (withdrawCall t.waitOp t.blockedOn idx)
    let expired := !endpointIds.any (fun i => keepsWaiting t.waitOp idx (s.endpoints i))
    let s := s.sweep (fun _ e => expireAt t.waitOp idx e)
    if expired then s.setTask idx { t.rest with wakeError := .timeout } else s

def timeoutTick (live : ℕ → Liveness) (s : State) : State :=
  (List.range maxTasks).foldl (timeoutTask now live) s

inductive Op where
  | create (owner : ℕ)
  | destroy (ep caller : ℕ)
  | exit (idx : ℕ)
  | send (caller ep : ℕ) (msg : Message) (requireCap : Bool)
  | receive (caller ep : ℕ) (requireCap : Bool)
  | call (caller ep : ℕ) (msg : Message) (requireCap : Bool)
  | resume (idx : ℕ)
  | reply (callee : ℕ) (msg : Message)
  | notify (ep bits : ℕ) (requireCap : Bool)
  | getNotify (ep : ℕ)
  | tick (live : ℕ → Liveness)

def resume (s : State) (idx : ℕ) : State :=
  match s.pc idx with
  | .idle => s
  | .sendBlocked _ ctx =>
    let (s, err) := sendWake env s idx
    match ctx with
    | none => s.finish idx err
    | some c => if err = .success then s.goto idx (.callPost c) else s.goto idx (.callRollback c err)
  | .receiveBlocked ep =>
    let (s, err) := receiveWake env s idx ep
    s.finish idx err
  | .callSend c =>
    match sendInternal env s idx c.targetEp c.msg c.requireCap with
    | (s, none) => s.goto idx (.sendBlocked c.targetEp (some c))
    | (s, some err) =>
      if err = .success then s.goto idx (.callPost c) else s.goto idx (.callRollback c err)
  | .callRollback c err => rollback s idx c err
  | .callPost c => postSend env s idx c
  | .callBlocked c => callWake s idx c
  | .callWoken c wakeError => takeReply env s idx c wakeError
  | .callTaken _ _ => finishCall s idx
  | .callCancel c err lower => cancelCall s idx c err lower

/-- A task begins an operation only when it is in none. -/
def Ready : Op → Prop
  | .destroy _ caller | .send caller _ _ _ | .receive caller _ _ | .call caller _ _ _ =>
    s.pc caller = .idle
  | _ => True

def step (s : State) : Op → State
  | .create owner => createEndpoint env s owner
  | .destroy ep caller => destroyEndpoint env s ep caller
  | .exit idx => (clearEndpointsForTask s idx).goto idx .idle
  | .send caller ep msg requireCap =>
    match sendInternal env s caller ep msg requireCap with
    | (s, none) => s.goto caller (.sendBlocked ep none)
    | (s, some err) => s.finish caller err
  | .receive caller ep requireCap =>
    match receiveInternal env s caller ep requireCap with
    | (s, none) => s.goto caller (.receiveBlocked ep)
    | (s, some err) => s.finish caller err
  | .call caller ep msg requireCap => callInternal env s caller ep msg requireCap
  | .resume idx => resume env s idx
  | .reply callee msg => replyToken env s callee msg
  | .notify ep bits requireCap => notifyInternal env s ep bits requireCap
  | .getNotify ep => getNotify s ep
  | .tick live => timeoutTick env.now live s

def start : State :=
  ⟨fun _ => emptyEndpoint,fun _ => 0,fun _ => noTask,1,fun _ => .idle,fun _ => .success,false,0,0,
    [],[],[]⟩

end MoQiOS.Ipc
