import MoQiOS.CellPrograms
import MoQiOS.TcpHeader

/-!
# Connection slots

A slot of `tcbs` is reset by `allocTcb` and filled in by `connect` or an incoming
SYN. The ring bytes and `irs` stay in memory as the last connection left them;
so do the five SACK fields, and these are read before anything sets them.
-/

namespace MoQiOS.TcpSlots

open Cells Function
open TcpHeader (Bytes SackBlock TcpOptions syn isSyn segmentOptLen)

inductive TcpState where
  | closed | synSent | synReceived | established | finWait1 | finWait2 | closing | timeWait | closeWait
  | lastAck | listen
  deriving DecidableEq

structure IpOpts where
  ttl : UInt8 := 0
  tos : UInt8 := 0
  hops : UInt8 := 0
  tclass : UInt8 := 0

structure SocketOptions where
  reuseAddr : Bool := false
  keepAlive : Bool := false
  tcpNodelay : Bool := false
  tcpCork : Bool := false
  tcpQuickack : Bool := false
  rcvTimeoutMs : UInt32 := 0
  sndTimeoutMs : UInt32 := 0
  rcvBufSize : UInt32 := 16384
  sndBufSize : UInt32 := 16384
  priority : Int32 := 0
  mark : UInt32 := 0
  boundIf : UInt8 := 0
  ip : IpOpts := {}
  userMss : UInt32 := 0
  rcvBufSet : Bool := false
  sndBufSet : Bool := false
  keepIdle : UInt32 := 7200
  keepIntvl : UInt32 := 75
  keepCnt : UInt32 := 9
  extraFlags : UInt16 := 0
  soError : Int32 := 0
  lingerOn : Bool := false
  lingerSec : UInt32 := 0

def rackTxMax : ℕ := 8

def tcpWindow : UInt32 := 32768

def retransmitMs : UInt32 := 2000

def ringSize : ℕ := 65536

/-- A `TcpTcb` without the two rings and `irs`. -/
structure Tcb where
  (localPort remotePort : UInt16)
  remoteIp : List UInt8
  isV6 : Bool
  remoteIp6 : List UInt8
  peerMss : UInt16
  state : TcpState
  (sndUna sndNxt sndWnd iss rcvNxt rcvWnd sendHead sendTail sendUnacked recvHead recvTail : UInt32)
  retransmitTimer : UInt32
  retransmitCount : UInt8
  (cwnd ssthresh : UInt32)
  dupAckCount : Fin 8
  inRecovery : Bool
  (recoverSeq recoverFs prrDelivered prrOut undoCwnd undoSsthresh : UInt32)
  frto : Fin 4
  sndMax : UInt32
  tlpSent : Bool
  headXmitMs : UInt32
  (rackTxSeq rackTxMs : List UInt32)
  rackTxNext : UInt8
  (rackXmitTs rackRttMs rackTimerMs deliveryRate rateSampleMs minRttMs lastPaceMs : UInt32)
  (bbrStartup bbrProbeRtt : Bool)
  (bbrProbeRttStartMs bbrLastProbeRttMs bbrPriorCwnd bbrPriorMinRttMs : UInt32)
  bbrCycleIdx : Fin 8
  (bbrCycleMs cubicWMax cubicEpochMs cubicKMs : UInt32)
  hystartCss : Bool
  (hystartRoundEnd hystartRoundMin hystartLastAckMs : UInt32)
  (ecnOk accecnOk ecnEcePending ecnCwrPending ecnReduced ecnUndo ecnPrr : Bool)
  (aceCeCount acePeer : Fin 8)
  acePeerValid : Bool
  (aceLastReactMs ipCeRx aceDelivered l4sRttCe l4sRttDelivered l4sRttStartMs l4sCeEwma : UInt32)
  (sndWndScale rcvWndScale wsRequested : Fin 16)
  wsEnabled : Bool
  (tsRecent tsValLast : UInt32)
  tsEnabled : Bool
  (srtt rttvar rto idleMs keepaliveProbes : UInt32)
  (naglePending finPending resetByPeer wasEstablished shutRd refused boundExplicitly : Bool)
  (persistTimerMs persistRtoMs : UInt32)
  sackPermitted : Bool
  sackBlocks : ℕ → SackBlock
  sackBlockCount : ℕ
  count_le : sackBlockCount ≤ 4
  sackScoreboard : ℕ → SackBlock
  sackScoreboardCount : Fin 8
  delayedAckPending : Bool
  delayedAckMs : UInt32
  active : Bool
  (ownerTask refCount : UInt32)
  options : SocketOptions

local instance ne4 : NeZero 4 := ⟨by decide⟩
local instance ne8 : NeZero 8 := ⟨by decide⟩
local instance ne16 : NeZero 16 := ⟨by decide⟩

lemma no_blocks : 0 ≤ 4 := by decide

def unused : Tcb :=
  { localPort := 0, remotePort := 0, remoteIp := List.replicate 4 0, isV6 := false
    remoteIp6 := List.replicate 16 0, peerMss := 0, state := .closed, sndUna := 0, sndNxt := 0
    sndWnd := tcpWindow, iss := 0, rcvNxt := 0, rcvWnd := tcpWindow, sendHead := 0, sendTail := 0
    sendUnacked := 0, recvHead := 0, recvTail := 0, retransmitTimer := 0, retransmitCount := 0
    cwnd := 1460, ssthresh := 65535, dupAckCount := 0, inRecovery := false, recoverSeq := 0
    recoverFs := 0, prrDelivered := 0, prrOut := 0, undoCwnd := 0, undoSsthresh := 0, frto := 0
    sndMax := 0, tlpSent := false, headXmitMs := 0, rackTxSeq := List.replicate rackTxMax 0
    rackTxMs := List.replicate rackTxMax 0, rackTxNext := 0, rackXmitTs := 0, rackRttMs := 0
    rackTimerMs := 0, deliveryRate := 0, rateSampleMs := 0, minRttMs := 0, lastPaceMs := 0
    bbrStartup := true, bbrProbeRtt := false, bbrProbeRttStartMs := 0, bbrLastProbeRttMs := 0
    bbrPriorCwnd := 0, bbrPriorMinRttMs := 0, bbrCycleIdx := 0, bbrCycleMs := 0, cubicWMax := 0
    cubicEpochMs := 0, cubicKMs := 0, hystartCss := false, hystartRoundEnd := 0
    hystartRoundMin := 0, hystartLastAckMs := 0, ecnOk := false, accecnOk := false
    ecnEcePending := false, ecnCwrPending := false, ecnReduced := false, ecnUndo := false
    ecnPrr := false, aceCeCount := 0, acePeer := 0, acePeerValid := false, aceLastReactMs := 0
    ipCeRx := 0, aceDelivered := 0, l4sRttCe := 0, l4sRttDelivered := 0, l4sRttStartMs := 0
    l4sCeEwma := 0, sndWndScale := 0, rcvWndScale := 2, wsRequested := 2, wsEnabled := false
    tsRecent := 0, tsValLast := 0, tsEnabled := false, srtt := 0, rttvar := 0, rto := retransmitMs
    idleMs := 0, keepaliveProbes := 0, naglePending := false, finPending := false
    resetByPeer := false, wasEstablished := false, shutRd := false, refused := false
    boundExplicitly := false, persistTimerMs := 0, persistRtoMs := retransmitMs
    sackPermitted := false, sackBlocks := fun _ => {}, sackBlockCount := 0
    count_le := no_blocks, sackScoreboard := fun _ => {}, sackScoreboardCount := 0
    delayedAckPending := false, delayedAckMs := 0, active := false, ownerTask := 0, refCount := 1
    options := {} }

variable (t : Tcb)

def initTcbState : Tcb :=
  { t with
    state := .closed, sendHead := 0, sendTail := 0, sendUnacked := 0, recvHead := 0, recvTail := 0
    retransmitTimer := 0, retransmitCount := 0, cwnd := 1460, ssthresh := 65535, dupAckCount := 0
    inRecovery := false, recoverSeq := 0, recoverFs := 0, prrDelivered := 0, prrOut := 0
    undoCwnd := 0, undoSsthresh := 0, frto := 0, sndMax := 0, tlpSent := false, headXmitMs := 0
    rackTxSeq := List.replicate rackTxMax 0, rackTxMs := List.replicate rackTxMax 0
    rackTxNext := 0, rackXmitTs := 0, rackRttMs := 0, rackTimerMs := 0, deliveryRate := 0
    rateSampleMs := 0, minRttMs := 0, lastPaceMs := 0, bbrStartup := true, bbrProbeRtt := false
    bbrProbeRttStartMs := 0, bbrLastProbeRttMs := 0, bbrPriorCwnd := 0, bbrPriorMinRttMs := 0
    bbrCycleIdx := 0, bbrCycleMs := 0, cubicWMax := 0, cubicEpochMs := 0, cubicKMs := 0
    hystartCss := false, hystartRoundEnd := 0, hystartRoundMin := 0, hystartLastAckMs := 0
    ecnOk := false, accecnOk := false, ecnEcePending := false, ecnCwrPending := false
    ecnReduced := false, ecnUndo := false, ecnPrr := false, aceCeCount := 0, acePeer := 0
    acePeerValid := false, aceLastReactMs := 0, ipCeRx := 0, aceDelivered := 0, l4sRttCe := 0
    l4sRttDelivered := 0, l4sRttStartMs := 0, l4sCeEwma := 0, sndWndScale := 0, rcvWndScale := 2
    wsRequested := 2, wsEnabled := false, tsRecent := 0, tsValLast := 0, tsEnabled := false
    srtt := 0, rttvar := 0, rto := retransmitMs, idleMs := 0, keepaliveProbes := 0
    naglePending := false, finPending := false, resetByPeer := false, wasEstablished := false
    shutRd := false, refused := false, boundExplicitly := false, persistTimerMs := 0
    persistRtoMs := retransmitMs, delayedAckPending := false, delayedAckMs := 0, refCount := 1
    options := {}, peerMss := 0 }

def allocTcb : Tcb :=
  { initTcbState { t with active := true } with
    localPort := 0, remotePort := 0, isV6 := false, remoteIp6 := List.replicate 16 0
    remoteIp := List.replicate 4 0 }

inductive Cell where
  | send (i : ℕ)
  | recv (i : ℕ)
  | irs
  deriving DecidableEq

structure Slot where
  tcb : Tcb
  memory : Cell → ℕ

def ece : UInt8 := 0x40

def cwr : UInt8 := 0x80

def fin : UInt8 := 0x01

def probeEcnPeerSetup (flags : UInt8) : Bool :=
  flags &&& syn != 0 && flags &&& TcpHeader.ack == 0 && flags &&& (ece ||| cwr) == ece ||| cwr

inductive Opening where
  | connect (localPort remotePort : UInt16) (remoteIp : List UInt8) (ownerTask iss : UInt32)
  | syn (localPort remotePort : UInt16) (remoteIp : List UInt8) (ownerTask iss seq : UInt32)
      (opts : TcpOptions) (flags : UInt8)

def openConnect (localPort remotePort : UInt16) (remoteIp : List UInt8)
    (ownerTask iss : UInt32) : Tcb :=
  { t with
    localPort := localPort, remotePort := remotePort, remoteIp := remoteIp, ownerTask := ownerTask
    iss := iss, sndUna := iss, sndNxt := iss, sndMax := iss, sndWnd := tcpWindow
    rcvNxt := 0, rcvWnd := tcpWindow, state := .synSent }

def applyPeerMss (opts : TcpOptions) : Tcb :=
  match opts.mss with
  | some m => if m ≠ 0 then { t with peerMss := m } else t
  | none => t

def negotiate (opts : TcpOptions) : Tcb :=
  let t := match opts.wsShift with
    | some shift => { t with sndWndScale := shift, wsEnabled := true }
    | none => t
  let t := match opts.tsVal with
    | some v => { t with tsRecent := v, tsEnabled := true }
    | none => t
  if opts.sackPermitted then { t with sackPermitted := true } else t

def openSyn (localPort remotePort : UInt16) (remoteIp : List UInt8)
    (ownerTask iss seq : UInt32) (opts : TcpOptions) (flags : UInt8) : Tcb :=
  let t := { t with
    localPort := localPort, remotePort := remotePort, remoteIp := remoteIp, ownerTask := ownerTask
    iss := iss, sndUna := iss, sndNxt := iss, sndMax := iss, sndWnd := tcpWindow
    rcvNxt := seq+1, rcvWnd := tcpWindow, state := .synReceived }
  let peerEcn := probeEcnPeerSetup flags
  { applyPeerMss (negotiate t opts) opts with ecnOk := peerEcn, accecnOk := peerEcn }

/-- `tcpConnect` and `handleIncomingSyn` up to the first segment; no value is
the trap of the addition `seq+1`. -/
def Opening.place : Opening → Slot → Option Slot
  | .connect localPort remotePort remoteIp ownerTask iss, slot =>
    some ⟨openConnect (allocTcb slot.tcb) localPort remotePort remoteIp ownerTask iss,slot.memory⟩
  | .syn localPort remotePort remoteIp ownerTask iss seq opts flags, slot =>
    if seq.toNat+1 < 2^32 then
      some ⟨openSyn (allocTcb slot.tcb) localPort remotePort remoteIp ownerTask iss seq opts flags,
        update slot.memory .irs seq.toNat⟩
    else none

def Opening.cells : Opening → Set Cell
  | .connect .. => ∅
  | .syn .. => {Cell.irs}

def Tcb.header : TcpHeader.TcpTcb where
  localPort := t.localPort
  remotePort := t.remotePort
  isV6 := t.isV6
  sndNxt := t.sndNxt
  rcvNxt := t.rcvNxt
  rcvWnd := t.rcvWnd
  wsEnabled := t.wsEnabled
  rcvWndScale := t.rcvWndScale
  wsRequested := t.wsRequested
  tsEnabled := t.tsEnabled
  tsRecent := t.tsRecent
  tsValLast := t.tsValLast
  accecnOk := t.accecnOk
  aceCeCount := t.aceCeCount
  sackPermitted := t.sackPermitted
  sackBlocks := t.sackBlocks
  sackBlockCount := t.sackBlockCount
  count_le := t.count_le

def Tcb.withHeader (h : TcpHeader.TcpTcb) : Tcb :=
  { t with
    tsValLast := h.tsValLast, sackBlocks := h.sackBlocks, sackBlockCount := h.sackBlockCount
    count_le := h.count_le }

structure Net where
  now : UInt32
  pmtu : UInt16
  sendMtu : ℕ
  resolved : Bool
  sent : Bool

def probeAcePackFlags (ace : Fin 8) (flags : UInt8) : UInt8 :=
  let out := flags &&& ~~~(ece ||| cwr)
  let out := if ace.val.testBit 0 then out ||| ece else out
  if ace.val.testBit 1 then out ||| cwr else out

/-- With no data, so a pending CWR is not sent. -/
def decorateEcnFlags (flags : UInt8) : UInt8 :=
  if !t.ecnOk then flags
  else if t.accecnOk then if isSyn flags then flags else probeAcePackFlags t.aceCeCount flags
  else if t.ecnEcePending && flags &&& TcpHeader.ack != 0 then flags ||| ece
  else flags

def noteEcnCwrSent (flags : UInt8) : Tcb :=
  if t.accecnOk then t
  else if flags &&& cwr != 0 then
    let t := { t with ecnCwrPending := false, ecnReduced := false }
    if t.ecnUndo then { t with ecnUndo := false, undoCwnd := 0, undoSsthresh := 0 } else t
  else t

def seqLt (a b : UInt32) : Bool := decide (2^31 ≤ (a-b).toNat)

def seqLeq (a b : UInt32) : Bool := !seqLt b a

def advanceSndNxt (flags : UInt8) : Tcb :=
  let t := if isSyn flags then { t with sndNxt := t.sndNxt+1 } else t
  let t := if flags &&& fin != 0 then { t with sndNxt := t.sndNxt+1 } else t
  if seqLt t.sndMax t.sndNxt then { t with sndMax := t.sndNxt } else t

variable (net : Net)

/-- `sendSegment` with no data. The checksum field, a function of the rest and
of the addresses, is left at zero. -/
def sendSegment (t : Tcb) (flagsIn : UInt8) : Tcb×List Bytes :=
  let flags := decorateEcnFlags t flagsIn
  let headerLen := if t.isV6 then 40 else 20
  let optLen := segmentOptLen (isSyn flags) t.tsEnabled t.sackPermitted t.sackBlockCount (flags &&& TcpHeader.ack != 0)
  if !net.resolved || decide (net.sendMtu < headerLen+20+optLen) then (t,[])
  else
    let r := TcpHeader.fillTcpSegment t.header flags [] net.now net.pmtu none
    let t := t.withHeader r.1
    if net.sent then (advanceSndNxt (noteEcnCwrSent t flags) flags,[r.2]) else (t,[])

inductive OooReport where
  | none | dsackWhole | dsackPrefix

def oooReport (seq segEnd rcvNxt : UInt32) : OooReport :=
  if seqLeq segEnd rcvNxt then .dsackWhole
  else if seqLt rcvNxt seq then .none
  else .dsackPrefix

def reportDsack (t : Tcb) (left right : UInt32) : Tcb :=
  t.withHeader (TcpHeader.reportDsack t.header left right)

def ringDataLen (head tail : UInt32) : ℕ := (tail-head).toNat%ringSize

def rcvWindowFromBuffered (buffered window : ℕ) : ℕ := window-buffered

def rcvWindowCap : ℕ :=
  min tcpWindow.toNat (if t.options.rcvBufSet then min (t.options.rcvBufSize.toNat/2) (ringSize-1) else ringSize-1)

def ringWrite (cell : ℕ → Cell) : ℕ → Bytes → Prog Cell ℕ Tcb (List Bytes) → Prog Cell ℕ Tcb (List Bytes)
  | _, [], next => next
  | pos, b::bytes, next => .write (cell (pos%ringSize)) b.toNat (ringWrite cell (pos+1) bytes next)

def sendAck (t : Tcb) : Prog Cell ℕ Tcb (List Bytes) :=
  let r := sendSegment net t TcpHeader.ack
  .done r.1 r.2

def processIncomingData (t : Tcb) (data : Bytes) (seq : UInt32) :
    Prog Cell ℕ Tcb (List Bytes) :=
  let len := UInt32.ofNat data.length
  if seq ≠ t.rcvNxt then
    let t := if t.sackPermitted && !data.isEmpty then
        match oooReport seq (seq+len) t.rcvNxt with
        | .dsackWhole => reportDsack t seq (seq+len)
        | .none => t
        | .dsackPrefix => reportDsack t seq t.rcvNxt
      else t
    sendAck net t
  else if t.shutRd then
    sendAck net { t with rcvNxt := t.rcvNxt+len, delayedAckPending := false, delayedAckMs := 0 }
  else
    let buffered := ringDataLen t.recvHead t.recvTail
    let room := min data.length (rcvWindowFromBuffered buffered (rcvWindowCap t))
    let toCopy := min room (ringSize-1-buffered)
    let recvTail := UInt32.ofNat ((t.recvTail.toNat+toCopy)%ringSize)
    let t' := { t with
      recvTail := recvTail, rcvNxt := t.rcvNxt+UInt32.ofNat toCopy
      rcvWnd := UInt32.ofNat (rcvWindowFromBuffered (ringDataLen t.recvHead recvTail) (rcvWindowCap t)) }
    ringWrite .recv t.recvTail.toNat (data.take toCopy)
      (if t.options.tcpQuickack || t.delayedAckPending then
        sendAck net { t' with delayedAckPending := false, delayedAckMs := 0 }
      else .done { t' with delayedAckPending := true, delayedAckMs := 0 } [])

def synReceivedAck (ackNum : UInt32) (rawWindow : UInt16) : Tcb :=
  let t := { t with idleMs := 0 }
  let window := if t.wsEnabled then rawWindow.toNat*2^t.sndWndScale.val else rawWindow.toNat
  if t.state = .synReceived ∧ ackNum = t.sndNxt then
    { t with
      sndUna := ackNum, sndWnd := UInt32.ofNat window, state := .established, wasEstablished := true
      retransmitTimer := 0 }
  else t

inductive Input where
  | send (net : Net) (flags : UInt8)
  | handshake (ackNum : UInt32) (window : UInt16)
  | data (net : Net) (seq : UInt32) (bytes : Bytes)

def tcpCode : Input → Prog Cell ℕ Tcb (List Bytes)
  | .send net flags => let r := sendSegment net t flags; .done r.1 r.2
  | .handshake ackNum window => .done (synReceivedAck t ackNum window) []
  | .data net seq bytes => processIncomingData net t bytes seq

lemma ringWrite_readsOwn (cell : ℕ → Cell) (bytes : Bytes) {next : Prog Cell ℕ Tcb (List Bytes)}
    (h : ∀ memory cells, ReadsOwn next memory cells) (pos : ℕ) (memory : Cell → ℕ) (cells : Set Cell) :
    ReadsOwn (ringWrite cell pos bytes next) memory cells := by
  induction bytes generalizing pos memory cells with
  | nil => exact h memory cells
  | cons b bytes ih => exact ih (pos+1) _ _

lemma processIncomingData_readsOwn (t : Tcb) (data : Bytes) (seq : UInt32)
    (memory : Cell → ℕ) (cells : Set Cell) : ReadsOwn (processIncomingData net t data seq) memory cells := by
  unfold processIncomingData
  dsimp only
  by_cases hseq : seq ≠ t.rcvNxt
  · rw [if_pos hseq]
    trivial
  rw [if_neg hseq]
  by_cases hshut : t.shutRd = true
  · rw [if_pos hshut]
    trivial
  rw [if_neg hshut]
  refine ringWrite_readsOwn _ _ (fun memory cells => ?_) _ _ _
  split <;> trivial

/-- The receiving side stores into its ring and reads nothing of it. -/
lemma tcpCode_run_readsOwn (inputs : List Input) (t : Tcb) (memory : Cell → ℕ) (cells : Set Cell) :
    RunReadsOwn tcpCode t memory cells inputs := by
  induction inputs generalizing t memory cells with
  | nil => trivial
  | cons input inputs ih =>
    refine ⟨?_,ih _ _ _⟩
    cases input with
    | send net flags => trivial
    | handshake ackNum window => trivial
    | data net seq bytes => exact processIncomingData_readsOwn net t bytes seq memory cells

/-- The last connection of the slot left no SACK state. -/
structure NoSack (t : Tcb) : Prop where
  permitted : t.sackPermitted = false
  blocks : t.sackBlocks = fun _ => {}
  count : t.sackBlockCount = 0
  scoreboard : t.sackScoreboard = fun _ => {}
  scoreboardCount : t.sackScoreboardCount = 0

lemma openConnect_unused {old : Tcb} (h : NoSack old) (localPort remotePort : UInt16)
    (remoteIp : List UInt8) (ownerTask iss : UInt32) :
    openConnect (allocTcb old) localPort remotePort remoteIp ownerTask iss =
      openConnect (allocTcb unused) localPort remotePort remoteIp ownerTask iss := by
  -- every other field is set by `initTcbState`, `allocTcb` or the opening
  cases old
  obtain ⟨h1,h2,h3,h4,h5⟩ := h
  dsimp only at h1 h2 h3 h4 h5
  subst h1 h2 h3 h4 h5
  rfl

lemma openSyn_unused {old : Tcb} (h : NoSack old) (localPort remotePort : UInt16)
    (remoteIp : List UInt8) (ownerTask iss seq : UInt32) (opts : TcpOptions) (flags : UInt8) :
    openSyn (allocTcb old) localPort remotePort remoteIp ownerTask iss seq opts flags =
      openSyn (allocTcb unused) localPort remotePort remoteIp ownerTask iss seq opts flags := by
  cases old
  obtain ⟨h1,h2,h3,h4,h5⟩ := h
  dsimp only at h1 h2 h3 h4 h5
  subst h1 h2 h3 h4 h5
  rfl

variable (opening : Opening)

lemma Opening.place_unused {old : Slot} (h : NoSack old.tcb) (memory : Cell → ℕ)
    {new : Slot} (hnew : opening.place ⟨unused,memory⟩ = some new) :
    ∃ reused, opening.place old = some reused ∧ reused.tcb = new.tcb ∧
      Set.EqOn new.memory reused.memory opening.cells := by
  cases opening with
  | connect localPort remotePort remoteIp ownerTask iss =>
    cases hnew
    exact ⟨_,rfl,openConnect_unused h ..,Set.eqOn_empty _ _⟩
  | syn localPort remotePort remoteIp ownerTask iss seq opts flags =>
    obtain ⟨hseq,hnew⟩ := Option.ite_none_right_eq_some.mp hnew
    cases hnew
    refine ⟨_,if_pos hseq,openSyn_unused h ..,?_⟩
    intro cell hcell
    change update memory Cell.irs _ cell = update old.memory Cell.irs _ cell
    rw [Set.mem_singleton_iff.mp hcell,update_self,update_self]

def lan : Net := ⟨7,1500,1500,true,true⟩

/-- 10.0.2.2 opens a connection to port 80, with initial numbers 100 and 500. -/
def incoming (opts : TcpOptions) : Opening := .syn 80 4000 [10,0,2,2] 1 500 100 opts syn

def exchange : List Input :=
  [.send lan (syn ||| TcpHeader.ack),.handshake 501 1024,.data lan 100 [65]]

def staleSlot : Slot := ⟨{ unused with sndWnd := 5, cwnd := 9 },fun _ => 255⟩

lemma staleSlot_noSack : NoSack staleSlot.tcb := ⟨rfl,rfl,rfl,rfl,rfl⟩

def openedNew : Slot :=
  ⟨openSyn (allocTcb unused) 80 4000 [10,0,2,2] 1 500 100 {} syn,
    update (fun _ => 0) Cell.irs (100 : UInt32).toNat⟩

def behaviour (inputs : List Input) (slot : Slot) : Option (List (List Bytes)) :=
  (opening.place slot).map fun s => outputs tcpCode s.tcb s.memory inputs

def afterSack : Option Slot :=
  ((incoming { sackPermitted := true }).place ⟨unused,fun _ => 0⟩).map fun s =>
    { s with tcb := { s.tcb with state := .closed, active := false } }

end MoQiOS.TcpSlots
