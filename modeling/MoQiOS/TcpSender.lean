import MoQiOS.SerialNumbers
import MoQiOS.RingMemory

/-!
# The sending half of a TCP connection

The send ring, the sequence cursors, the scoreboard of selectively
acknowledged ranges and the functions that move them. Congestion control,
pacing, path limits and the device enter through `gates`: one record for each
coming attempt to send, with the values these parts answer at that moment.
The records are inputs, so every statement about runs holds whatever these
parts decide. `sent` and `queued` record what has left and what the
application handed over.
-/

namespace MoQiOS.Tcp
open SerialNumbers RingMemory

@[irreducible] def sendBufSize : ℕ := 65536

@[irreducible] def ringDataLen (head tail size : ℕ) : ℕ := (tail+2^32-head)%2^32%size

variable (buffer : ℕ → UInt8)

def ringWrite (bufSize writePos : ℕ) (src : List UInt8) : ℕ → UInt8 :=
  if src.length = 0 then buffer
  else if src.length ≤ bufSize-writePos then store buffer writePos src
  else store (store buffer writePos (src.take (bufSize-writePos))) 0 (src.drop (bufSize-writePos))

def ringRead (bufSize readPos count : ℕ) : List UInt8 :=
  if count = 0 then []
  else if count ≤ bufSize-readPos then load buffer readPos count
  else load buffer readPos (bufSize-readPos)++load buffer 0 (count-(bufSize-readPos))

@[irreducible] def seqLt (a b : Serial) : Bool := (a-b) &&& 0x80000000#32 != 0#32

def seqGt (a b : Serial) : Bool := seqLt b a

def seqLeq (a b : Serial) : Bool := !seqGt a b

def seqInWindow (seq left right : Serial) : Bool := decide ((seq-left).toNat < (right-left).toNat)

def bufferLimit (set : Bool) (stored ringSize : ℕ) : ℕ :=
  if set then min (stored/2) (ringSize-1) else ringSize-1

def roomUnder (used limit : ℕ) : ℕ := limit-used

def dataSegmentCap (mss optLen : ℕ) : ℕ := if mss ≤ optLen then 1 else mss-optLen

def segmentOptLen (isSyn tsEnabled sackPermitted : Bool) (sackBlockCount : ℕ) (hasAck : Bool) : ℕ :=
  let len :=
    if isSyn then 4+3+10+2
    else (if tsEnabled then 10 else 0)+
      (if sackPermitted && decide (0 < sackBlockCount) && hasAck then 2+8*sackBlockCount else 0)
  (len+3)/4*4

def unackedPending (sndUna sndNxt sndMax : Serial) : Bool :=
  seqLt sndUna sndMax || decide (sndNxt ≠ sndUna)

structure SackBlock where
  left : Serial
  right : Serial
  deriving DecidableEq, Repr

structure Flags where
  fin : Bool
  syn : Bool
  rst : Bool
  ack : Bool
  deriving DecidableEq, Repr

def Flags.ACK : Flags := ⟨false,false,false,true⟩
def Flags.SYN : Flags := ⟨false,true,false,false⟩
def Flags.synAck : Flags := ⟨false,true,false,true⟩
def Flags.finAck : Flags := ⟨true,false,false,true⟩
def Flags.RST : Flags := ⟨false,false,true,false⟩
def Flags.rstAck : Flags := ⟨false,false,true,true⟩

structure Emission where
  seq : Serial
  flags : Flags
  payload : List UInt8
  deriving DecidableEq, Repr

/-- What one attempt to send meets: the segment size and congestion window of
the moment, whether pacing holds the segment, whether it leaves, and if not,
whether it was built before the device refused it. -/
structure Gate where
  mss : UInt16
  cwnd : ℕ
  hold : Bool
  leaves : Bool
  built : Bool

structure Options where
  tcpCork : Bool
  tcpNodelay : Bool
  tcpQuickack : Bool
  sndBufSet : Bool
  sndBufSize : ℕ
  rcvBufSet : Bool
  rcvBufSize : ℕ
  lingerOn : Bool
  lingerSec : ℕ

structure Sender where
  iss : Serial
  una : Serial
  nxt : Serial
  max : Serial
  wnd : ℕ
  buf : ℕ → UInt8
  head : ℕ
  tail : ℕ
  unacked : ℕ
  scoreboard : List SackBlock
  sackPermitted : Bool
  sackBlocks : List SackBlock
  tsEnabled : Bool
  naglePending : Bool
  delayedAckPending : Bool
  gates : List Gate
  sent : List Emission
  queued : List UInt8

variable (t : Sender)

def heldLen : ℕ := ringDataLen t.head t.tail sendBufSize

variable (flags : Flags)

def advanceSndNxt (dataLen : ℕ) : Sender :=
  let nxt := after t.nxt (dataLen+(if flags.syn then 1 else 0)+(if flags.fin then 1 else 0))
  { t with nxt := nxt, max := if seqLt t.max nxt then nxt else t.max }

/-- An acknowledgement carries the pending block reports and forgets them. -/
def fillTcpSegment : Sender :=
  if !flags.syn && t.sackPermitted && flags.ack then { t with sackBlocks := [] } else t

variable (gate : Gate)

def attempt (t : Sender) (flags : Flags) (payload : List UInt8)
    (seqOverride : Option Serial) : Bool × Sender :=
  if gate.leaves then
    let t := fillTcpSegment { t with sent := t.sent++[⟨seqOverride.getD t.nxt,flags,payload⟩] } flags
    (true, advanceSndNxt t flags payload.length)
  else (false, if gate.built then fillTcpSegment t flags else t)

def sendSegmentSeq (payload : List UInt8)
    (seqOverride : Option Serial) : Bool × Sender :=
  match t.gates with
  | [] => (false, t)
  | gate::gates => attempt gate { t with gates := gates } flags payload seqOverride

def sendSegment (payload : List UInt8) : Bool × Sender :=
  sendSegmentSeq t flags payload none

def sendAck : Sender := (sendSegment t .ACK []).2

/-- An empty acknowledgement one before the oldest unacknowledged byte. -/
def sendKeepaliveProbe : Sender := (sendSegmentSeq t .ACK [] (some (t.una-1))).2

def clipBlock (una nxt : Serial) (b : SackBlock) : Option SackBlock :=
  if !seqLt b.left b.right then none
  else if seqLeq b.right una then none
  else
    let left := if seqLt b.left una then una else b.left
    if seqLeq nxt left then none
    else
      let right := if seqLt nxt b.right then nxt else b.right
      if !seqLt left right then none else some ⟨left,right⟩

def insertBlock (una : Serial) (key : SackBlock) : List SackBlock → List SackBlock
  | [] => [key]
  | b::rest =>
    if (key.left-una).toNat < (b.left-una).toNat then key::b::rest
    else b::insertBlock una key rest

/-- The merged ranges so far, the last one first. -/
def mergeBlock (merged : List SackBlock) (b : SackBlock) : List SackBlock :=
  match merged with
  | [] => [b]
  | prev::rest =>
    if seqLeq b.left prev.right then
      (if seqLt prev.right b.right then ⟨prev.left,b.right⟩ else prev)::rest
    else b::prev::rest

def probeMergeScoreboard (una nxt : Serial) (old neu : List SackBlock) : List SackBlock :=
  let clipped := ((old++neu).filterMap (clipBlock una nxt)).take 8
  let sorted := clipped.foldl (fun acc b => insertBlock una b acc) []
  ((sorted.foldl mergeBlock []).take 4).reverse

def updateScoreboard (incoming : List SackBlock) : Sender :=
  { t with scoreboard := probeMergeScoreboard t.una t.nxt t.scoreboard incoming }

variable (seq : Serial)

def coveringBlock : Option SackBlock :=
  t.scoreboard.find? (fun b => seqInWindow seq b.left b.right)

def isSacked : Bool := (coveringBlock t seq).isSome

def sackRangeOverlap (una nxt left right : Serial) : ℕ :=
  if !seqLt left right then 0
  else if !seqLt una nxt then 0
  else
    let start := if seqLt left una then una else left
    let stop := if seqLt right nxt then right else nxt
    if !seqLt start stop then 0 else (stop-start).toNat

def sackedBytesInFlight : ℕ :=
  (t.scoreboard.map (fun b => sackRangeOverlap t.una t.nxt b.left b.right)).sum

def pipeBytes : ℕ := (t.nxt-t.una).toNat-sackedBytesInFlight t

def sackedBytesAbove : ℕ :=
  if !seqLt (seq+1) t.nxt then 0
  else (t.scoreboard.map (fun b => sackRangeOverlap (seq+1) t.nxt b.left b.right)).sum

def sackBlocksAbove : ℕ :=
  (t.scoreboard.filter (fun b => seqLt seq b.left)).length

def nextRexmitSeqFrom (t : Sender) : ℕ → Serial → Serial
  | 0, _ => t.una
  | guard+1, seq =>
    if seqLt seq t.nxt then
      match coveringBlock t seq with
      | none => seq
      | some b => nextRexmitSeqFrom t guard b.right
    else t.una

def nextRexmitSeq : Serial := nextRexmitSeqFrom t 64 t.una

def prepareRexmitFromSeq (hole : Serial) : Sender :=
  { t with nxt := hole, unacked := (t.head+(hole-t.una).toNat)%sendBufSize }

def prepareRexmitFromHole : Sender := prepareRexmitFromSeq t (nextRexmitSeq t)

variable (lost : Serial → Bool)

/-- `lost` stands for the transmission times that make a segment count as lost. -/
def rackSegLostAt (t : Sender) (seq : Serial) : Bool :=
  !isSacked t seq && (decide (0 < sackedBytesAbove t seq) || decide (0 < sackBlocksAbove t seq)) &&
    lost seq

variable (mss : UInt16)

def holeEnd (seq : Serial) : Serial :=
  let stop := t.scoreboard.foldl
    (fun stop b => if seqLt seq b.left && seqLt b.left stop then b.left else stop)
    (after seq (max mss.toNat 1))
  if seqLt seq stop then stop else seq+1

def nextRackLostHoleFrom (lost : Serial → Bool) (mss : UInt16) (t : Sender) : ℕ → Serial → Option Serial
  | 0, _ => none
  | guard+1, seq =>
    if seqLt seq t.nxt then
      match coveringBlock t seq with
      | none =>
        if rackSegLostAt lost t seq then some seq
        else nextRackLostHoleFrom lost mss t guard (holeEnd t mss seq)
      | some b => nextRackLostHoleFrom lost mss t guard b.right
    else none

def nextRackLostHole (t : Sender) : Option Serial :=
  nextRackLostHoleFrom lost mss t 64 t.una

def prepareRexmitRackOrHole (t : Sender) : Sender :=
  match nextRackLostHole lost mss t with
  | some hole => prepareRexmitFromSeq t hole
  | none => prepareRexmitFromHole t

def restoreSendHigh : Sender :=
  if !seqLt t.una t.max then t
  else if !seqLt t.nxt t.max then t
  else if heldLen t < (t.max-t.una).toNat then t
  else { t with nxt := t.max, unacked := (t.head+(t.max-t.una).toNat)%sendBufSize }

def skipSackedFrom : ℕ → Sender → Sender
  | 0, t => t
  | guard+1, t =>
    match coveringBlock t t.nxt with
    | none => t
    | some b =>
      let skip := (b.right-t.nxt).toNat
      if skip = 0 then t
      else if ringDataLen t.unacked t.tail sendBufSize < skip then t
      else skipSackedFrom guard
        { t with nxt := b.right, unacked := (t.unacked+skip)%sendBufSize }

def skipSackedSendRange : Sender := skipSackedFrom 64 t

variable (o : Options)

def sendLimit : ℕ := bufferLimit o.sndBufSet o.sndBufSize sendBufSize

def queueData (t : Sender) (data : List UInt8) : Sender :=
  let toCopy := min data.length (roomUnder (heldLen t) (sendLimit o))
  { t with
    buf := ringWrite t.buf sendBufSize t.tail (data.take toCopy)
    tail := (t.tail+toCopy)%sendBufSize
    queued := t.queued++data.take toCopy }

def pending : ℕ := ringDataLen t.unacked t.tail sendBufSize

def segCap (t : Sender) : ℕ :=
  dataSegmentCap mss.toNat (segmentOptLen false t.tsEnabled t.sackPermitted t.sackBlocks.length true)

def canSend (t : Sender) : ℕ :=
  min (pending t) (min (min gate.cwnd t.wnd-pipeBytes t) (segCap gate.mss t))

/-- The loop of a flush. Each turn uses up one gate; without a further gate
nothing leaves any more. -/
def flushWith (o : Options) : List Gate → Sender → Sender
  | [], t => { t with gates := [] }
  | gate::gates, t =>
    let t := skipSackedSendRange { t with gates := gates }
    let count := canSend gate t
    if count = 0 then t
    else if gate.hold then t
    else if o.tcpCork && decide (count < segCap gate.mss t) then t
    else if !o.tcpNodelay && !o.tcpCork && decide (0 < pipeBytes t) &&
        decide (count < segCap gate.mss t) then
      { t with naglePending := true }
    else
      let (left, t') := attempt gate t .ACK (ringRead t.buf sendBufSize t.unacked count) none
      if left then
        flushWith o gates
          { t' with unacked := (t.unacked+count)%sendBufSize, delayedAckPending := false }
      else t'

def flushSendBuffer (t : Sender) : Sender := flushWith o t.gates t

def flushSendBufferForFin (t : Sender) : Sender :=
  flushSendBuffer { o with tcpCork := false, tcpNodelay := true } t

def probePersistActive (sndWnd unsent : ℕ) : Bool := decide (sndWnd = 0) && decide (0 < unsent)

def sendPersistProbe : Sender :=
  if pending t = 0 then t
  else
    let (left, t') := sendSegment t .ACK (ringRead t.buf sendBufSize t.unacked 1)
    if left then { t' with unacked := (t.unacked+1)%sendBufSize } else t'

/-- A tail loss probe sends past the congestion window, without Nagle. -/
def sendTlpProbe (t : Sender) : Sender :=
  let t := restoreSendHigh t
  let t := if pending t = 0 then prepareRexmitFromHole t else t
  if pending t = 0 then t else flushSendBuffer { o with tcpNodelay := true } t

def finSeq : Serial := after t.una (heldLen t)

def ourFinAcked (ackNum : Serial) : Bool := decide (ackNum = finSeq t+1)

end MoQiOS.Tcp
