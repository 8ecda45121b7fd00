import MoQiOS.NetChecksum
import MoQiOS.TcpSlots

/-!
# Incoming TCP segments

`handlePacket` up to the state machine: the header and its options, the search
for the connection, and a SYN for a listener. No value is a trap, from a read
outside the segment or an addition that leaves 32 bits.
-/

namespace MoQiOS.TcpInput

open TcpHeader (Bytes SackBlock TcpOptions syn isSyn byte readU16 readU32 headerLength)
open Function Option
open TcpSlots

def within (data : Bytes) (n : ℕ) : Option Unit := if n ≤ data.length then some () else none

def readBlock (data : Bytes) (dataOffset pos : ℕ) (blocks : ℕ → SackBlock) (b : ℕ) : Option (ℕ → SackBlock) :=
  let boff := pos+2+b*8
  if boff+7 < dataOffset then
    (within data (boff+8)).map fun _ =>
      update blocks b ⟨readU32 data boff,readU32 data (boff+4)⟩
  else some blocks

local instance shift16 : NeZero 16 := ne16

/-- The value of an option with its length byte `len`; the kinds 0 and 1 have none. -/
def readOption (data : Bytes) (dataOffset pos : ℕ) (opts : TcpOptions) : Option TcpOptions :=
  let kind := byte data pos
  let len := byte data (pos+1)
  if kind = 2 then
    if pos+3 < dataOffset ∧ len = 4 then
      (within data (pos+4)).map fun _ => { opts with mss := some (readU16 data (pos+2)) }
    else some opts
  else if kind = 3 then
    if pos+2 < dataOffset ∧ len = 3 then
      (within data (pos+3)).map fun _ => { opts with wsShift := some (Fin.ofNat 16 (byte data (pos+2))) }
    else some opts
  else if kind = 8 then
    if pos+9 < dataOffset ∧ len = 10 then
      (within data (pos+10)).map fun _ =>
        { opts with tsVal := some (readU32 data (pos+2)), tsEcr := some (readU32 data (pos+6)) }
    else some opts
  else if kind = 4 then some (if len = 2 then { opts with sackPermitted := true } else opts)
  else if kind = 5 ∧ 10 ≤ len then
    let n := min ((len-2)/8) 4
    ((List.range n).foldlM (readBlock data dataOffset pos) opts.sackBlocks).map fun blocks =>
      { opts with sackBlocks := blocks, sackBlockCount := n }
  else some opts

def optionStep (data : Bytes) (pos : ℕ) : ℕ :=
  let kind := byte data pos
  if kind = 2 then 4 else if kind = 3 then 3 else if kind = 8 then 10 else if kind = 4 then 2
  else byte data (pos+1)

def parseLoop (data : Bytes) (dataOffset : ℕ) : ℕ → ℕ → TcpOptions → Option TcpOptions
  | 0, _, opts => some opts
  | fuel+1, pos, opts =>
    if pos+1 < dataOffset then
      (within data (pos+2)).bind fun _ =>
        if byte data pos = 0 then some opts
        else if byte data pos = 1 then parseLoop data dataOffset fuel (pos+1) opts
        else if optionStep data pos < 2 then some opts
        else (readOption data dataOffset pos opts).bind (parseLoop data dataOffset fuel (pos+optionStep data pos))
    else some opts

/-- Every option takes a byte or more, so `dataOffset` rounds are enough. -/
def parseTcpOptions (data : Bytes) (dataOffset : ℕ) : Option TcpOptions :=
  parseLoop data dataOffset dataOffset 20 {}

structure Listener where
  active : Bool
  localPort : UInt16
  ownerTask : UInt32
  isV6 : Bool
  pendingTpbs : List ℕ
  pendingHead : UInt32
  pendingTail : UInt32

structure Stack where
  tcbs : List Slot
  listeners : List Listener

def listenBacklog : ℕ := 32

/-- Addresses, the clock and the device. -/
structure Env where
  ourIp : Net.Ip4
  net : TcpSlots.Net
  iss : UInt32

structure Segment where
  seqNum : UInt32
  ackNum : UInt32
  flags : UInt8
  rawWindow : UInt16
  opts : TcpOptions
  data : Bytes
  payloadOffset : ℕ

def tupleMatch (localPort remotePort : UInt16) (remoteIp : Bytes) (t : Tcb) : Bool :=
  t.active && !t.isV6 && t.localPort == localPort && t.remotePort == remotePort && t.remoteIp == remoteIp

def findTcbByTuple (s : Stack) (localPort remotePort : UInt16) (remoteIp : Bytes) : Option ℕ :=
  s.tcbs.findIdx? fun slot => tupleMatch localPort remotePort remoteIp slot.tcb

def probeEcnSynAckFlags (peerEcn : Bool) : UInt8 :=
  if peerEcn then syn ||| TcpHeader.ack ||| ece else syn ||| TcpHeader.ack

def reuseSyn (slot : Slot) (iss seq : UInt32) (opts : TcpOptions) (flags : UInt8) : Option Slot :=
  if seq.toNat+1 < 2^32 then
    let t := { initTcbState slot.tcb with
      iss := iss, sndUna := iss, sndNxt := iss, sndMax := iss, rcvNxt := seq+1, rcvWnd := tcpWindow
      state := .synReceived }
    let peerEcn := probeEcnPeerSetup flags
    some ⟨{ applyPeerMss (negotiate t opts) opts with ecnOk := peerEcn, accecnOk := peerEcn },
      update slot.memory .irs seq.toNat⟩
  else none

def sendSynAck (env : Env) (flags : UInt8) (slot : Slot) : Slot :=
  { slot with tcb := (sendSegment env.net slot.tcb (probeEcnSynAckFlags (probeEcnPeerSetup flags))).1 }

def enqueue (l : Listener) (i : ℕ) : Option Listener :=
  if l.pendingTail.toNat+1 < 2^32 then
    some { l with
      pendingTpbs := l.pendingTpbs.set (l.pendingTail.toNat%listenBacklog) i
      pendingTail := l.pendingTail+1 }
  else none

def acceptSyn (env : Env) (s : Stack) (k : ℕ) (l : Listener) (srcIp : Bytes) (srcPort dstPort : UInt16)
    (seq : UInt32) (opts : TcpOptions) (flags : UInt8) : Option Stack :=
  if listenBacklog ≤ (l.pendingTail-l.pendingHead).toNat then some s
  else
    match s.tcbs.findIdx? fun slot => !slot.tcb.active with
    | none => some s
    | some i =>
      match s.tcbs[i]? with
      | none => some s
      | some slot =>
        ((Opening.syn dstPort srcPort srcIp l.ownerTask env.iss seq opts flags).place slot).bind fun slot =>
          (enqueue l i).map fun l =>
            ⟨s.tcbs.set i (sendSynAck env flags slot),s.listeners.set k l⟩

def handleIncomingSyn (env : Env) (s : Stack) (srcIp : Bytes) (srcPort dstPort : UInt16) (seq : UInt32)
    (opts : TcpOptions) (flags : UInt8) : Option Stack :=
  match s.listeners.findIdx? fun l => l.active && l.localPort == dstPort && !l.isV6 with
  | none => some s
  | some k =>
    match s.listeners[k]? with
    | none => some s
    | some l =>
      let waiting := fun (slot : Slot) => tupleMatch dstPort srcPort srcIp slot.tcb &&
        decide (slot.tcb.state = .timeWait) && seqLt (UInt32.ofNat (slot.memory .irs)) seq
      match s.tcbs.findIdx? waiting with
      | some i =>
        match s.tcbs[i]? with
        | none => some s
        | some slot =>
          (reuseSyn slot env.iss seq opts flags).map fun slot =>
            { s with tcbs := s.tcbs.set i (sendSynAck env flags slot) }
      | none => acceptSyn env s k l srcIp srcPort dstPort seq opts flags

def isLoopback (ip : Net.Ip4) : Bool := ip.a == 127

/-- `drive` is the state machine of a connection. The reset that a loopback
peer gets for a closed port changes no state and wraps. -/
def handlePacket (env : Env) (drive : Stack → ℕ → Slot → Segment → Option Stack) (s : Stack)
    (src dst : Net.Ip4) (data : Bytes) : Option Stack :=
  if data.length < 20 then some s
  else if !Net.tcpVerified src (if isLoopback dst then dst else env.ourIp) (data.take 65535) then some s
  else
    let dataOffset := headerLength data
    if dataOffset < 20 ∨ data.length < dataOffset then some s
    else
      (within data 20).bind fun _ => (parseTcpOptions data dataOffset).bind fun opts =>
        let srcPort := readU16 data 0
        let dstPort := readU16 data 2
        let flags := UInt8.ofNat (byte data 13)
        match findTcbByTuple s dstPort srcPort src.bytes with
        | some i =>
          match s.tcbs[i]? with
          | none => some s
          | some slot =>
            drive s i slot ⟨readU32 data 4,readU32 data 8,flags,readU16 data 14,opts,data,dataOffset⟩
        | none =>
          if isSyn flags then handleIncomingSyn env s src.bytes srcPort dstPort (readU32 data 4) opts flags
          else some s

lemma within_some {data : Bytes} {n : ℕ} (h : n ≤ data.length) : within data n = some () := if_pos h

lemma guarded_read {data : Bytes} {c : Prop} [Decidable c] {n : ℕ} (h : c → n ≤ data.length)
    (opts read : TcpOptions) :
    (if c then (within data n).map fun _ => read else some opts) = some (if c then read else opts) := by
  by_cases hc : c
  · rw [if_pos hc,if_pos hc,within_some (h hc),map_some]
  · rw [if_neg hc,if_neg hc]

section
variable {data : Bytes} {dataOffset : ℕ} (hlen : dataOffset ≤ data.length)
include hlen

lemma readBlocks_some (pos : ℕ) (bs : List ℕ) (blocks : ℕ → SackBlock) :
    bs.foldlM (readBlock data dataOffset pos) blocks = some (bs.foldl (fun blocks b =>
      let boff := pos+2+b*8
      if boff+7 < dataOffset then
        update blocks b ⟨readU32 data boff,readU32 data (boff+4)⟩
      else blocks) blocks) := by
  induction bs generalizing blocks with
  | nil => rfl
  | cons b bs ih =>
    rw [List.foldlM_cons,List.foldl_cons,readBlock]
    dsimp only
    by_cases hboff : pos+2+b*8+7 < dataOffset
    · rw [if_pos hboff,if_pos hboff,within_some (by omega)]
      exact ih _
    · rw [if_neg hboff,if_neg hboff]
      exact ih _

/-- The reader of the header module, with its reads in range. -/
lemma parseLoop_some {fuel pos : ℕ} (hfuel : dataOffset ≤ pos+fuel) (opts : TcpOptions) :
    parseLoop data dataOffset fuel pos opts = some (TcpHeader.parseLoop data dataOffset pos opts) := by
  induction fuel generalizing pos opts with
  | zero =>
    rw [parseLoop,TcpHeader.parseLoop,if_neg (by omega)]
  | succ fuel ih =>
    rw [parseLoop,TcpHeader.parseLoop]
    by_cases hpos : pos+1 < dataOffset
    · rw [if_pos hpos,if_pos hpos,within_some (by omega)]
      simp only [bind_some]
      by_cases h0 : byte data pos = 0
      · rw [if_pos h0,if_pos h0]
      rw [if_neg h0,if_neg h0]
      by_cases h1 : byte data pos = 1
      · rw [if_pos h1,if_pos h1]
        exact ih (by omega) opts
      rw [if_neg h1,if_neg h1]
      -- the kinds with a fixed length first, as the switch has them
      unfold optionStep readOption
      dsimp only
      by_cases h2 : byte data pos = 2
      · rw [if_pos h2,if_pos h2,if_pos h2,if_neg (by decide),guarded_read (by omega),bind_some]
        exact ih (by omega) _
      rw [if_neg h2,if_neg h2,if_neg h2]
      by_cases h3 : byte data pos = 3
      · rw [if_pos h3,if_pos h3,if_pos h3,if_neg (by decide),guarded_read (by omega),bind_some]
        exact ih (by omega) _
      rw [if_neg h3,if_neg h3,if_neg h3]
      by_cases h8 : byte data pos = 8
      · rw [if_pos h8,if_pos h8,if_pos h8,if_neg (by decide),guarded_read (by omega),bind_some]
        exact ih (by omega) _
      rw [if_neg h8,if_neg h8,if_neg h8]
      by_cases h4 : byte data pos = 4
      · rw [if_pos h4,if_pos h4,if_pos h4,if_neg (by decide),bind_some]
        exact ih (by omega) _
      rw [if_neg h4,if_neg h4,if_neg h4]
      by_cases hstep : byte data (pos+1) < 2
      · rw [if_pos hstep,if_pos hstep]
      rw [if_neg hstep,if_neg hstep]
      by_cases h5 : byte data pos = 5
      · rw [if_pos h5]
        by_cases hten : 10 ≤ byte data (pos+1)
        · rw [if_pos ⟨h5,hten⟩,if_pos hten,readBlocks_some hlen,map_some,bind_some]
          exact ih (by omega) _
        · rw [if_neg (fun h => hten h.2),if_neg hten,bind_some]
          exact ih (by omega) _
      · rw [if_neg (fun h => h5 h.1),if_neg h5,bind_some]
        exact ih (by omega) _
    · rw [if_neg hpos,if_neg hpos]

lemma parseTcpOptions_some :
    parseTcpOptions data dataOffset = some (TcpHeader.parseTcpOptions data dataOffset) :=
  parseLoop_some hlen (by omega) {}

end

section
variable {env : Env} {s : Stack} {seq : UInt32} (hseq : seq.toNat+1 < 2^32)
  (htail : ∀ l ∈ s.listeners, l.pendingTail.toNat+1 < 2^32)
include hseq htail

lemma acceptSyn_isSome {k : ℕ} {l : Listener} (hl : l ∈ s.listeners) (srcIp : Bytes)
    (srcPort dstPort : UInt16) (opts : TcpOptions) (flags : UInt8) :
    (acceptSyn env s k l srcIp srcPort dstPort seq opts flags).isSome := by
  unfold acceptSyn
  split
  · rfl
  split
  · rfl
  split
  · rfl
  rw [Opening.place,if_pos hseq,bind_some,enqueue,if_pos (htail l hl)]
  rfl

lemma handleIncomingSyn_isSome (srcIp : Bytes) (srcPort dstPort : UInt16) (opts : TcpOptions)
    (flags : UInt8) : (handleIncomingSyn env s srcIp srcPort dstPort seq opts flags).isSome := by
  unfold handleIncomingSyn
  split
  · rfl
  split
  · rfl
  case h_2 l hl =>
    dsimp only
    split
    · split
      · rfl
      · rw [reuseSyn,if_pos hseq]
        rfl
    · exact acceptSyn_isSome hseq htail (List.mem_of_getElem? hl) ..

end

def segmentOf (data : Bytes) : Segment :=
  ⟨readU32 data 4,readU32 data 8,UInt8.ofNat (byte data 13),readU16 data 14,
    TcpHeader.parseTcpOptions data (headerLength data),data,headerLength data⟩

lemma handlePacket_isSome (env : Env) (drive : Stack → ℕ → Slot → Segment → Option Stack) (s : Stack)
    (src dst : Net.Ip4) (data : Bytes)
    (hseq : isSyn (UInt8.ofNat (byte data 13)) = true → (readU32 data 4).toNat+1 < 2^32)
    (htail : ∀ l ∈ s.listeners, l.pendingTail.toNat+1 < 2^32)
    (hdrive : ∀ i slot, findTcbByTuple s (readU16 data 2) (readU16 data 0) src.bytes = some i →
      s.tcbs[i]? = some slot → (drive s i slot (segmentOf data)).isSome) :
    (handlePacket env drive s src dst data).isSome := by
  unfold handlePacket
  by_cases hlen : data.length < 20
  · rw [if_pos hlen]
    rfl
  rw [if_neg hlen]
  by_cases hsum : (!Net.tcpVerified src (if isLoopback dst then dst else env.ourIp) (data.take 65535)) = true
  · rw [if_pos hsum]
    rfl
  rw [if_neg hsum]
  dsimp only
  by_cases hoff : headerLength data < 20 ∨ data.length < headerLength data
  · rw [if_pos hoff]
    rfl
  rw [if_neg hoff,within_some (by omega),bind_some,parseTcpOptions_some (by omega),bind_some]
  split
  case h_1 i hi =>
    split
    · rfl
    · case h_2 slot hslot => exact hdrive i slot hi hslot
  case h_2 =>
    split
    · case isTrue hsyn => exact handleIncomingSyn_isSome (hseq hsyn) htail ..
    · rfl

end MoQiOS.TcpInput
