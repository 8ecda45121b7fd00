import MoQiOS.TcpSender

/-!
# The TCP connection

The control block with its receiving half, the state machine driven by
incoming segments, the timer and the socket calls. What congestion control,
round-trip estimation and the clock decide arrives with each event as a
`Reaction` or a `Tick`; the decisions are arbitrary. `delivered`, `taken`,
`synSeen` and `finSeen` record what recv returned, how many bytes were accepted
in order and whether the peer's SYN and FIN were.
-/

namespace MoQiOS.Tcp
open SerialNumbers RingMemory

@[irreducible] def recvBufSize : ℕ := 65536
def tcpWindow : ℕ := 32768

inductive TcpState where
  | closed
  | synSent
  | synReceived
  | established
  | finWait1
  | finWait2
  | closing
  | timeWait
  | closeWait
  | lastAck
  | listen
  deriving DecidableEq, Repr

structure Receiver where
  irs : Serial
  nxt : Serial
  wnd : ℕ
  buf : ℕ → UInt8
  head : ℕ
  tail : ℕ
  shutRd : Bool
  delivered : List UInt8
  taken : ℕ
  synSeen : Bool
  finSeen : Bool

structure Tcb where
  state : TcpState
  active : Bool
  refCount : ℕ
  finPending : Bool
  resetByPeer : Bool
  wasEstablished : Bool
  refused : Bool
  retransmitCount : ℕ
  options : Options
  tx : Sender
  rx : Receiver

/-- An incoming segment after its header was parsed and its window scaled. Its
length is that of an IP datagram at most. -/
structure Packet where
  seq : Serial
  ackNum : Serial
  flags : Flags
  window : ℕ
  sackPermitted : Bool
  hasTimestamp : Bool
  sackBlocks : List SackBlock
  payload : List UInt8
  short : payload.length < 65536

def rcvWindowFromBuffered (buffered window : ℕ) : ℕ :=
  if buffered < window then window-buffered else 0

def acceptableBytes (len buffered windowCap : ℕ) : ℕ :=
  min len (rcvWindowFromBuffered buffered windowCap)

variable (o : Options)

def rcvWindowCap : ℕ :=
  min tcpWindow (bufferLimit o.rcvBufSet o.rcvBufSize recvBufSize)

inductive OooReport where
  | none
  | dsackWhole
  | dsackPrefix

def oooReport (seq segEnd rcvNxt : Serial) : OooReport :=
  if seqLeq segEnd rcvNxt then .dsackWhole
  else if seqLt rcvNxt seq then .none
  else .dsackPrefix

/-- The newest report comes first; four are kept. -/
def reportDsack (t : Sender) (left right : Serial) : Sender :=
  if !seqLt left right then t
  else { t with sackBlocks := (⟨left,right⟩::t.sackBlocks).take 4 }

def reportOutOfOrder (t : Sender) (seq : Serial) (len : ℕ) (rcvNxt : Serial) : Sender :=
  if t.sackPermitted && decide (0 < len) then
    match oooReport seq (after seq len) rcvNxt with
    | .dsackWhole => reportDsack t seq (after seq len)
    | .none => t
    | .dsackPrefix => reportDsack t seq rcvNxt
  else t

variable (r : Receiver)

def buffered : ℕ := ringDataLen r.head r.tail recvBufSize

def bufferData (r : Receiver) (data : List UInt8) : Receiver :=
  let recvFree := recvBufSize-1-buffered r
  let windowRoom := acceptableBytes data.length (buffered r) (rcvWindowCap o)
  let toCopy := min windowRoom recvFree
  let r := { r with
    buf := ringWrite r.buf recvBufSize r.tail (data.take toCopy)
    tail := (r.tail+toCopy)%recvBufSize
    nxt := after r.nxt toCopy
    taken := r.taken+toCopy }
  { r with wnd := rcvWindowFromBuffered (buffered r) (rcvWindowCap o) }

def ackData (quick : Bool) (t : Sender) : Sender :=
  if quick then sendAck { t with delayedAckPending := false }
  else if t.delayedAckPending then sendAck { t with delayedAckPending := false }
  else { t with delayedAckPending := true }

variable (t : Tcb) (data : List UInt8)

def processIncomingData (seq : Serial) : Tcb :=
  if seq ≠ t.rx.nxt then
    { t with tx := sendAck (reportOutOfOrder t.tx seq data.length t.rx.nxt) }
  else if t.rx.shutRd then
    { t with
      rx := { t.rx with nxt := after t.rx.nxt data.length, taken := t.rx.taken+data.length }
      tx := sendAck { t.tx with delayedAckPending := false } }
  else
    { t with
      rx := bufferData t.options t.rx data
      tx := ackData t.options.tcpQuickack t.tx }

/-- The peer's FIN takes one sequence number. -/
def takeFin : Receiver := { r with nxt := r.nxt+1, finSeen := true }

def closeTcbRemote : Tcb :=
  { t with state := .closed, active := t.active && decide (t.refCount ≠ 0) }

def deactivateTcb : Tcb := { t with active := false }

variable (s : TcpState)

def finSent : Bool :=
  match s with
  | .finWait1 | .closing | .lastAck => true
  | _ => false

/-- Flush ahead of the FIN and send it once the ring has drained. -/
def sendPendingFin (next : TcpState) : Tcb :=
  let tx := flushSendBufferForFin t.options t.tx
  if tx.unacked ≠ tx.tail then { t with tx := tx }
  else
    let (left, tx) := sendSegment tx .finAck []
    if left then
      { t with tx := { tx with naglePending := false }, finPending := false, state := next }
    else { t with tx := tx }

def maybeSendPendingFin : Tcb :=
  if !t.finPending then t
  else
    match t.state with
    | .established => sendPendingFin t .finWait1
    | .closeWait => sendPendingFin t .lastAck
    | _ => { t with finPending := false }

def requestFin : Tcb := maybeSendPendingFin { t with finPending := true }

variable (tx : Sender)

def resendFinIfRewound : Sender :=
  if finSent s && decide (tx.unacked = tx.tail) && decide (tx.nxt = finSeq tx) then
    (sendSegment tx .finAck []).2
  else tx

/-- Retire acknowledged ring bytes. The cursor follows when a rewind left it
behind the new left edge. -/
def retire (ackNum : Serial) (acked : ℕ) : Sender :=
  let tx := { tx with una := ackNum, head := (tx.head+acked)%sendBufSize }
  let tx := if seqLt tx.nxt tx.una then { tx with nxt := tx.una, unacked := tx.head } else tx
  updateScoreboard tx []

def absorbDataAckBeforeFin (ackNum : Serial) (window : ℕ) : Tcb :=
  let tx := { t.tx with wnd := window }
  let acked := (ackNum-tx.una).toNat
  let limit :=
    if finSent t.state then heldLen tx else (tx.nxt-tx.una).toNat
  let t :=
    if acked ≠ 0 ∧ acked ≤ limit ∧ acked ≤ sendBufSize then
      { t with tx := retire tx ackNum acked, retransmitCount := 0 }
    else { t with tx := tx }
  if finSent t.state then
    { t with tx := resendFinIfRewound t.state (flushSendBufferForFin t.options t.tx) }
  else t

/-- What congestion control makes of an acknowledgement of new data. -/
inductive AckReaction where
  | undo
  | sendNew
  | proportional
  | grow

/-- What it makes of a duplicate acknowledgement. -/
inductive DupReaction where
  | enterRecovery
  | recovering
  | count

structure Reaction where
  onAck : AckReaction
  onDup : DupReaction
  lost : Serial → Bool
  mss : UInt16

variable (re : Reaction)

def processNewAck (t : Sender) (p : Packet) : Sender :=
  let acked := (p.ackNum-t.una).toNat
  let t := { t with una := p.ackNum, head := (t.head+acked)%sendBufSize }
  let t := updateScoreboard t p.sackBlocks
  let t :=
    if t.naglePending && decide (t.nxt = t.una) then
      flushSendBuffer o { t with naglePending := false }
    else t
  match re.onAck with
  | .undo => t
  | .sendNew => flushSendBuffer o (restoreSendHigh t)
  | .proportional => flushSendBuffer o t
  | .grow => t

def processDupAck (t : Sender) (p : Packet) : Sender :=
  let t := if 0 < p.sackBlocks.length then updateScoreboard t p.sackBlocks else t
  match re.onDup with
  | .enterRecovery =>
    if 0 < heldLen t then flushSendBuffer o (prepareRexmitRackOrHole re.lost re.mss t) else t
  | .recovering =>
    flushSendBuffer o
      (if 0 < heldLen t ∧ (nextRackLostHole re.lost re.mss t).isSome then
        prepareRexmitRackOrHole re.lost re.mss t
      else t)
  | .count => t

def processAck (p : Packet) : Tcb :=
  let acked := (p.ackNum-t.tx.una).toNat
  let t :=
    if p.ackNum ≠ t.tx.una then
      if 0 < acked ∧ acked ≤ (t.tx.nxt-t.tx.una).toNat ∧ acked ≤ sendBufSize then
        { t with tx := processNewAck t.options re t.tx p, retransmitCount := 0 }
      else t
    else if p.payload.length = 0 then { t with tx := processDupAck t.options re t.tx p }
    else t
  let tx := { t.tx with wnd := p.window }
  { t with tx := if 0 < p.window then flushSendBuffer t.options tx else tx }

variable (p : Packet)

def inWindow : Bool := decide ((p.seq-t.rx.nxt).toNat < t.rx.wnd)

def finSeqOf : Serial := after p.seq p.payload.length

/-- The FIN of a segment counts only once all data before it is buffered. -/
def establishedFin : Tcb :=
  if p.flags.fin && decide (p.payload.length ≤ (t.rx.nxt-p.seq).toNat) &&
      decide (finSeqOf p = t.rx.nxt) then
    { t with
      rx := takeFin t.rx
      state := .closeWait
      tx := sendAck { t.tx with delayedAckPending := false } }
  else t

def onEstablished (p : Packet) : Tcb :=
  if p.flags.rst && inWindow t p then closeTcbRemote { t with resetByPeer := true }
  else
    let t := if p.flags.ack then processAck t re p else t
    let t := if 0 < p.payload.length then processIncomingData t p.payload p.seq else t
    maybeSendPendingFin (establishedFin t p)

def completesOpen : Bool :=
  p.flags.syn && p.flags.ack && decide (p.ackNum = t.tx.nxt)

def onSynSent : Tcb :=
  if p.flags.syn && p.flags.ack then
    if p.ackNum ≠ t.tx.nxt then t
    else
      { t with
        state := .established
        wasEstablished := true
        rx := { t.rx with irs := p.seq, nxt := p.seq+1, synSeen := true }
        tx := sendAck { t.tx with
          una := p.ackNum
          wnd := p.window
          tsEnabled := t.tx.tsEnabled || p.hasTimestamp
          sackPermitted := t.tx.sackPermitted || p.sackPermitted } }
  else if p.flags.syn then closeTcbRemote { t with tx := (sendSegment t.tx .RST []).2 }
  else t

def onSynReceived : Tcb :=
  if p.flags.ack && decide (p.ackNum = t.tx.nxt) then
    { t with
      state := .established
      wasEstablished := true
      tx := { t.tx with una := p.ackNum, wnd := p.window } }
  else t

def orphanRejectsData (orphan : Bool) (seq : Serial) (len : ℕ) (rcvNxt : Serial) : Bool :=
  orphan && decide (len ≠ 0) && seqLt rcvNxt (after seq len)

def rejectOrphan : Tcb := closeTcbRemote { t with tx := (sendSegment t.tx .rstAck []).2 }

def onFinWait1 : Tcb :=
  if orphanRejectsData (decide (t.refCount = 0)) p.seq p.payload.length t.rx.nxt then rejectOrphan t
  else if p.flags.fin then
    if finSeqOf p ≠ t.rx.nxt then t
    else
      let t := { t with rx := takeFin t.rx }
      if p.flags.ack && ourFinAcked t.tx p.ackNum then
        -- only the left edge moves here; a rewound cursor stays where it is
        { t with state := .timeWait, tx := sendAck { t.tx with una := p.ackNum } }
      else
        let t := if p.flags.ack then absorbDataAckBeforeFin t p.ackNum p.window else t
        { t with state := .closing, tx := sendAck t.tx }
  else if p.flags.ack then
    if !ourFinAcked t.tx p.ackNum then absorbDataAckBeforeFin t p.ackNum p.window
    else
      { t with
        state := .finWait2
        tx := { t.tx with
          una := p.ackNum, nxt := p.ackNum, head := t.tx.tail, unacked := t.tx.tail } }
  else t

def onFinWait2 : Tcb :=
  if orphanRejectsData (decide (t.refCount = 0)) p.seq p.payload.length t.rx.nxt then rejectOrphan t
  else
    let t := if 0 < p.payload.length then processIncomingData t p.payload p.seq else t
    if p.flags.fin && decide (finSeqOf p = t.rx.nxt) then
      { t with rx := takeFin t.rx, state := .timeWait, tx := sendAck t.tx }
    else t

def onLastAck : Tcb :=
  if !p.flags.ack then t
  else if !ourFinAcked t.tx p.ackNum then absorbDataAckBeforeFin t p.ackNum p.window
  else closeTcbRemote t

def onCloseWait : Tcb :=
  let t := if 0 < p.payload.length then processIncomingData t p.payload p.seq else t
  if p.flags.ack then maybeSendPendingFin (absorbDataAckBeforeFin t p.ackNum p.window) else t

def onClosing : Tcb :=
  if !p.flags.ack then t
  else if ourFinAcked t.tx p.ackNum then { t with state := .timeWait }
  else absorbDataAckBeforeFin t p.ackNum p.window

def onTimeWait : Tcb :=
  if p.flags.fin then { t with tx := sendAck t.tx } else t

/-- A reset that is taken before the state is looked at, and what it leaves. -/
def resetBy : Option Tcb :=
  if !p.flags.rst then none
  else
    match t.state with
    | .closed | .listen | .established => none
    | .synSent =>
      if p.ackNum = t.tx.iss+1 then some (closeTcbRemote { t with refused := true }) else none
    | .synReceived | .finWait1 | .finWait2 =>
      if inWindow t p then some (closeTcbRemote { t with resetByPeer := true }) else none
    | _ => if inWindow t p then some (closeTcbRemote { t with resetByPeer := false }) else none

def driveTcbStateMachine (p : Packet) : Tcb :=
  match resetBy t p with
  | some t' => t'
  | none =>
    match t.state with
    | .synSent => onSynSent t p
    | .synReceived => onSynReceived t p
    | .established => onEstablished t re p
    | .finWait1 => onFinWait1 t p
    | .finWait2 => onFinWait2 t p
    | .lastAck => onLastAck t p
    | .closeWait => onCloseWait t p
    | .closing => onClosing t p
    | .timeWait => onTimeWait t p
    | .closed | .listen => t

/-- The one plain addition on the way: completing an active open with a peer
whose initial sequence number is the last one stops the kernel. -/
def traps : Bool :=
  decide (t.state = .synSent) && !(p.flags.rst && decide (p.ackNum = t.tx.iss+1)) &&
    completesOpen t p && decide (p.seq = BitVec.allOnes 32)

inductive Keepalive where
  | idle
  | probe
  | dead

structure Tick where
  closeExpired : Bool
  delayedAckDue : Bool
  rackDue : Bool
  lost : Serial → Bool
  mss : UInt16
  tlpDue : Bool
  rtoDue : Bool
  persistDue : Bool
  keepalive : Keepalive
  paceDue : Bool

def maybeRackTimerRepair (k : Tick) (t : Sender) : Sender :=
  match nextRackLostHole k.lost k.mss t with
  | none => t
  | some hole =>
    if k.rackDue && decide (0 < heldLen t) then
      flushSendBuffer o (prepareRexmitFromSeq t hole)
    else t

def maxCatchUp (t : Sender) : Sender :=
  { t with max := if seqLt t.max t.nxt then t.nxt else t.max }

/-- The retransmission timeout; none of the scoreboard is trusted after it. -/
def retransmit : Tcb :=
  let tx := maxCatchUp t.tx
  if 0 < heldLen tx then
    { t with
      tx := resendFinIfRewound t.state (flushSendBuffer t.options (prepareRexmitFromHole tx)) }
  else if t.state = .synSent then { t with tx := (sendSegment tx .SYN []).2 }
  else if finSent t.state then
    { t with tx := (sendSegment { tx with nxt := finSeq tx } .finAck []).2 }
  else { t with tx := tx }

def rtoExpired : Tcb :=
  let t := { t with
    retransmitCount := t.retransmitCount+1
    tx := { t.tx with scoreboard := [] } }
  if 5 < t.retransmitCount then closeTcbRemote t else retransmit t

variable (k : Tick)

def lossTimers (t : Tcb) : Tcb :=
  if unackedPending t.tx.una t.tx.nxt t.tx.max then
    let tx := maybeRackTimerRepair t.options k t.tx
    let tx := if k.tlpDue then sendTlpProbe t.options tx else tx
    let t := { t with tx := tx }
    if k.rtoDue then rtoExpired t else t
  else t

def delayedAckTimer (t : Sender) : Sender :=
  if t.delayedAckPending && k.delayedAckDue then sendAck { t with delayedAckPending := false } else t

def persistTimer (t : Tcb) : Tcb :=
  if (t.state = .established ∨ t.state = .closeWait) ∧
      (probePersistActive t.tx.wnd (pending t.tx) && k.persistDue) = true then
    { t with tx := sendPersistProbe t.tx }
  else t

def resumeTimers (t : Tcb) : Tcb :=
  let tx := t.tx
  let tx :=
    if tx.naglePending && decide (tx.nxt = tx.una) then
      flushSendBuffer t.options { tx with naglePending := false }
    else tx
  let tx :=
    if decide (t.state = .established) && k.paceDue && decide (0 < pending tx) then
      flushSendBuffer t.options tx
    else tx
  maybeSendPendingFin { t with tx := tx }

def upkeep (t : Tcb) : Tcb :=
  let t := persistTimer k { t with tx := delayedAckTimer k t.tx }
  if t.state = .established then
    match k.keepalive with
    | .idle => resumeTimers k t
    | .probe => resumeTimers k { t with tx := sendKeepaliveProbe t.tx }
    | .dead => closeTcbRemote t
  else resumeTimers k t

def timerTickOne (t : Tcb) : Tcb :=
  match t.state with
  | .closed => t
  | .finWait2 =>
    if k.closeExpired then closeTcbRemote t else { t with tx := delayedAckTimer k t.tx }
  | .timeWait => if k.closeExpired then closeTcbRemote t else t
  | _ =>
    let t := lossTimers k t
    if t.state = .closed then t else upkeep k t

def canQueueSend : Bool :=
  (decide (t.state = .established) || decide (t.state = .closeWait)) && !t.finPending

def tcpSend : Tcb :=
  if !t.active || !canQueueSend t then t
  else { t with tx := flushSendBuffer t.options (queueData t.options t.tx data) }

/-- One staged piece of a write from user space; the flush follows the last. -/
def tcpSendStage : Tcb :=
  if !t.active || !canQueueSend t then t else { t with tx := queueData t.options t.tx data }

def tcpSendFlush : Tcb :=
  if t.active && (decide (t.state = .established) || decide (t.state = .closeWait)) then
    { t with tx := flushSendBuffer t.options t.tx }
  else t

def tcpFlushCork : Tcb :=
  if t.active && decide (t.state = .established) then
    { t with tx := flushSendBuffer t.options t.tx }
  else t

def tcpFlushAck : Tcb :=
  if t.active && t.tx.delayedAckPending then
    { t with tx := sendAck { t.tx with delayedAckPending := false } }
  else t

inductive RecvDecision where
  | readData
  | eof
  | wouldBlock
  | notConnected
  | reset
  deriving DecidableEq

def decideRecv (available : ℕ) (resetByPeer : Bool) : RecvDecision :=
  if s = .listen then .notConnected
  else if 0 < available then .readData
  else if resetByPeer then .reset
  else
    match s with
    | .synSent | .synReceived | .established | .finWait1 | .finWait2 => .wouldBlock
    | .closeWait | .closing | .lastAck | .timeWait | .closed => .eof
    | .listen => .notConnected

def readRing (r : Receiver) (toRead : ℕ) : Receiver :=
  let r := { r with
    head := (r.head+toRead)%recvBufSize
    delivered := r.delivered++ringRead r.buf recvBufSize r.head toRead }
  { r with wnd := rcvWindowFromBuffered (buffered r) (rcvWindowCap o) }

/-- The segment size decides whether a read announces the new window at once. -/
def recvLocked (len mss : ℕ) : Tcb :=
  if t.rx.shutRd then t
  else
    match decideRecv t.state (buffered t.rx) t.resetByPeer with
    | .readData =>
      let toRead := min (buffered t.rx) len
      let update := decide (t.state ≠ .closed) &&
        (t.tx.delayedAckPending || (decide (mss < toRead) && decide (t.state = .established)))
      { t with
        rx := readRing t.options t.rx toRead
        tx := if update then sendAck { t.tx with delayedAckPending := false } else t.tx }
    | .reset => { t with resetByPeer := false }
    | _ => t

def tcpRecv (len mss : ℕ) : Tcb := if t.active then recvLocked t len mss else t

def closeSendsReset (unread : ℕ) : Bool :=
  (o.lingerOn && decide (o.lingerSec = 0)) || decide (0 < unread)

def synchronised : Bool :=
  match s with
  | .established | .closeWait | .finWait1 | .finWait2 => true
  | _ => false

def unread : ℕ := if synchronised t.state then buffered t.rx else 0

def tcpClose : Tcb :=
  if !t.active then t
  else if 1 < t.refCount then { t with refCount := t.refCount-1 }
  else
    let t := { t with refCount := 0 }
    if closeSendsReset t.options (unread t) then
      deactivateTcb { t with tx := (sendSegment t.tx .rstAck []).2, state := .closed }
    else
      match t.state with
      | .established | .closeWait => requestFin t
      | _ => deactivateTcb { t with state := .closed }

inductive ShutHow where
  | rd
  | wr
  | rdwr

def shutRead : Receiver := { r with head := r.tail, shutRd := true }

/-- A connection: the listener's branches are left out. -/
def tcpShutdown (how : ShutHow) : Tcb :=
  if !t.active || (decide (t.state = .closed) && !t.wasEstablished) then t
  else
    match how with
    | .rd => { t with rx := shutRead t.rx }
    | .wr =>
      match t.state with
      | .established | .closeWait => requestFin t
      | _ => t
    | .rdwr =>
      let t := { t with rx := shutRead t.rx }
      match t.state with
      | .established | .closeWait => requestFin t
      | _ => deactivateTcb { t with state := .closed }

/-- What a slot handed to a new connection keeps and resets. The scoreboard,
the block reports and the negotiated selective acknowledgement stay. -/
def initTcbState : Tcb :=
  { t with
    state := .closed
    refCount := 1
    finPending := false
    resetByPeer := false
    wasEstablished := false
    refused := false
    retransmitCount := 0
    options := ⟨false,false,false,false,16384,false,16384,false,0⟩
    tx := { t.tx with
      head := 0, tail := 0, unacked := 0, max := 0, tsEnabled := false
      naglePending := false, delayedAckPending := false }
    rx := { t.rx with head := 0, tail := 0, shutRd := false } }

def startSender (t : Sender) (iss : Serial) : Sender :=
  { t with iss := iss, una := iss, nxt := iss, max := iss, sent := [], queued := [] }

def startReceiver : Receiver :=
  { r with wnd := tcpWindow, delivered := [], taken := 0, synSeen := false, finSeen := false }

def tcpConnectSocket (iss : Serial) : Tcb :=
  let (left, tx) := sendSegment { startSender t.tx iss with wnd := tcpWindow } .SYN []
  { t with
    state := if left then .synSent else .closed
    refused := false
    tx := tx
    rx := { startReceiver t.rx with nxt := 0 } }

/-- The slot is a free one, or with `reuse` one whose old connection waits in
TIME_WAIT and keeps its send window. -/
def handleIncomingSyn (reuse : Bool) (t : Tcb) (iss : Serial) (p : Packet) : Tcb :=
  let t := initTcbState t
  let tx := { startSender t.tx iss with
    wnd := if reuse then t.tx.wnd else tcpWindow
    tsEnabled := p.hasTimestamp
    sackPermitted := t.tx.sackPermitted || p.sackPermitted }
  { t with
    state := .synReceived
    active := true
    tx := (sendSegment tx .synAck []).2
    rx := { startReceiver t.rx with irs := p.seq, nxt := p.seq+1, synSeen := true } }

inductive Event where
  | segment (p : Packet) (re : Reaction)
  | tick (k : Tick)
  | send (data : List UInt8)
  | sendStage (data : List UInt8)
  | sendFlush
  | recv (len mss : ℕ)
  | shutdown (how : ShutHow)
  | close
  | setOptions (o : Options)
  | flushCork
  | flushAck

def step : Event → Tcb
  | .segment p re => driveTcbStateMachine t re p
  | .tick k => timerTickOne k t
  | .send data => tcpSend t data
  | .sendStage data => tcpSendStage t data
  | .sendFlush => tcpSendFlush t
  | .recv len mss => tcpRecv t len mss
  | .shutdown how => tcpShutdown t how
  | .close => tcpClose t
  | .setOptions o => { t with options := o }
  | .flushCork => tcpFlushCork t
  | .flushAck => tcpFlushAck t

def withGates (gates : List Gate) (t : Tcb) : Tcb := { t with tx := { t.tx with gates := gates } }

end MoQiOS.Tcp
