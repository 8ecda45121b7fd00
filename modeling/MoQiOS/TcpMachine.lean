import MoQiOS.TcpInput

/-!
# The state machine outside of data transfer

`driveTcbStateMachine` for a connection that is opening or has ended its own
side, without ECN; what it does while data is exchanged is a parameter. With the
front end this gives every segment that the stack takes in.
-/

namespace MoQiOS.TcpInput

open TcpHeader (Bytes TcpOptions syn isSyn byte readU16 readU32)
open TcpSlots List Option

def rst : UInt8 := 0x04

variable (t : Tcb)

/-- The states with congestion control, retransmission and feedback of ECN. -/
def exchangesData : Bool :=
  t.ecnOk || match t.state with
    | .established | .finWait1 | .closing | .closeWait | .lastAck => true
    | _ => false

def Stack.put (s : Stack) (i : ℕ) (slot : Slot) : Stack := { s with tcbs := s.tcbs.set i slot }

def invalidPending : ℕ := 0xFFFFFFFF

/-- The scan goes up to `pendingTail` with a checked addition. -/
def findPending (l : Listener) (i : ℕ) : Option (Option ℕ) :=
  let head := l.pendingHead.toNat
  let tail := l.pendingTail.toNat
  let holds := fun scan => l.pendingTpbs.getD (scan%listenBacklog) 0 == i
  if head ≤ tail then some ((range' head (tail-head)).find? holds)
  else ((range' head (2^32-head)).find? holds).map some

def searchBacklog (i : ℕ) : ℕ → List Listener → Option (Option (ℕ×ℕ))
  | _, [] => some none
  | k, l::ls =>
    if l.active then
      (findPending l i).bind fun found =>
        match found with
        | some scan => some (some (k,scan))
        | none => searchBacklog i (k+1) ls
    else searchBacklog i (k+1) ls

/-- An entry of the backlog has no descriptor and is released at once. -/
def closeTcbRemote (s : Stack) (i : ℕ) (slot : Slot) : Option Stack :=
  let closed := { slot with tcb := { slot.tcb with state := .closed } }
  let freed := { closed with tcb := { closed.tcb with active := false } }
  if slot.tcb.refCount = 0 then some (s.put i freed)
  else
    (searchBacklog i 0 s.listeners).map fun found =>
      match found with
      | none => s.put i closed
      | some (k,scan) =>
        { s.put i freed with
          listeners := s.listeners.modify k fun l =>
            { l with pendingTpbs := l.pendingTpbs.set (scan%listenBacklog) invalidPending } }

def resets (seg : Segment) : Bool :=
  seg.flags &&& rst != 0 && match t.state with
    | .closed | .listen | .established => false
    | .synSent => seg.ackNum == t.iss+1
    | _ => decide ((seg.seqNum-t.rcvNxt).toNat < t.rcvWnd.toNat)

def afterReset : Tcb :=
  match t.state with
  | .synSent => { t with options := { t.options with soError := 111 }, refused := true }
  | .synReceived | .finWait1 | .finWait2 => { t with resetByPeer := true }
  | _ => { t with resetByPeer := false }

def probeHystartRoundMin (curMin sample : UInt32) : UInt32 :=
  if sample = 0 then curMin
  else if curMin = 0 ∨ sample < curMin then sample
  else curMin

def noteHystartRtt (rtt : UInt32) : Tcb :=
  if t.inRecovery || t.bbrProbeRtt then t
  else if 0 < t.deliveryRate ∧ !t.bbrStartup then t
  else if t.ssthresh ≤ t.cwnd then t
  else { t with hystartRoundMin := probeHystartRoundMin t.hystartRoundMin rtt }

def smoothed (m : ℕ) : Option (ℕ×ℕ) :=
  if t.srtt = 0 then some (m,m/2)
  else
    let srtt := t.srtt.toNat
    let delta := if srtt ≤ m then m-srtt else srtt-m
    if 3*t.rttvar.toNat+delta < 2^32 ∧ 7*srtt+m < 2^32 then
      some ((7*srtt+m)/8,(3*t.rttvar.toNat+delta)/4)
    else none

def updateRtt (m : UInt32) : Option Tcb :=
  (smoothed t m.toNat).bind fun r =>
    if 4*r.2 < 2^32 ∧ r.1+max 200 (4*r.2) < 2^32 then
      let rto := min 60000 (max 200 (r.1+max 200 (4*r.2)))
      some (noteHystartRtt
        { t with
          srtt := UInt32.ofNat r.1, rttvar := UInt32.ofNat r.2, rto := UInt32.ofNat rto
          minRttMs := if m ≠ 0 ∧ (t.minRttMs = 0 ∨ m < t.minRttMs) then m else t.minRttMs } m)
    else none

def sampleRtt (env : Env) (t : Tcb) (opts : TcpOptions) : Option Tcb :=
  match opts.tsEcr with
  | some ecr => if ecr = t.tsValLast then updateRtt t (env.net.now-ecr) else some t
  | none => some t

def mssForTcb (env : Env) (t : Tcb) : ℕ :=
  let localMss := (TcpHeader.localMssForTcb t.header env.net.pmtu).toNat
  let path := if t.peerMss ≠ 0 ∧ t.peerMss.toNat < localMss then t.peerMss.toNat else localMss
  if t.options.userMss ≠ 0 ∧ t.options.userMss.toNat < path then t.options.userMss.toNat else path

def probeEcnSynAckOk (flags : UInt8) : Bool :=
  flags &&& (syn ||| TcpHeader.ack ||| ece) == syn ||| TcpHeader.ack ||| ece && flags &&& cwr == 0

def probeAccecnSynAckOk (flags byte12 : UInt8) : Bool :=
  probeEcnSynAckOk flags && byte12 &&& TcpHeader.ae != 0

local instance cycle8 : NeZero 8 := ne8

def establish (env : Env) (slot : Slot) (seg : Segment) (window : UInt32) : Option Slot :=
  if seg.seqNum.toNat+1 < 2^32 then
    let t := { slot.tcb with
      rcvNxt := seg.seqNum+1, sndUna := seg.ackNum, sndWnd := window, state := .established
      wasEstablished := true }
    let accecnOk := probeAccecnSynAckOk seg.flags (UInt8.ofNat (byte seg.data 12))
    let t := { negotiate t seg.opts with
      accecnOk := accecnOk, ecnOk := accecnOk || probeEcnSynAckOk seg.flags }
    (sampleRtt env (applyPeerMss t seg.opts) seg.opts).map fun t =>
      let t := { t with cwnd := UInt32.ofNat (mssForTcb env t), dupAckCount := 0, inRecovery := false }
      ⟨(sendSegment env.net t TcpHeader.ack).1,Function.update slot.memory .irs seg.seqNum.toNat⟩
  else none

def synSent (env : Env) (s : Stack) (i : ℕ) (slot : Slot) (seg : Segment) (window : UInt32) : Option Stack :=
  if seg.flags &&& (syn ||| TcpHeader.ack) == syn ||| TcpHeader.ack then
    if seg.ackNum ≠ slot.tcb.sndNxt then some (s.put i slot)
    else (establish env slot seg window).map (s.put i)
  else if isSyn seg.flags then
    closeTcbRemote s i { slot with tcb := (sendSegment env.net slot.tcb rst).1 }
  else some (s.put i slot)

def payload (seg : Segment) : Bytes := seg.data.drop seg.payloadOffset

def receive (env : Env) (slot : Slot) (seg : Segment) : Slot :=
  if (payload seg).isEmpty then slot
  else
    let r := Cells.exec (processIncomingData env.net slot.tcb (payload seg) seg.seqNum) slot.memory
    ⟨r.state,r.memory⟩

def orphanRejectsData (seg : Segment) : Bool :=
  t.refCount == 0 && !(payload seg).isEmpty &&
    seqLt t.rcvNxt (seg.seqNum+UInt32.ofNat (payload seg).length)

def finWait2 (env : Env) (s : Stack) (i : ℕ) (slot : Slot) (seg : Segment) : Option Stack :=
  if orphanRejectsData slot.tcb seg then
    closeTcbRemote s i { slot with tcb := (sendSegment env.net slot.tcb (rst ||| TcpHeader.ack)).1 }
  else
    let slot := receive env slot seg
    let finSeq := seg.seqNum+UInt32.ofNat (payload seg).length
    if seg.flags &&& fin != 0 && finSeq == slot.tcb.rcvNxt then
      let t := { slot.tcb with rcvNxt := slot.tcb.rcvNxt+1, retransmitTimer := 0, state := .timeWait }
      some (s.put i { slot with tcb := (sendSegment env.net t TcpHeader.ack).1 })
    else some (s.put i slot)

def timeWait (env : Env) (slot : Slot) (seg : Segment) : Slot :=
  if seg.flags &&& fin != 0 then
    { slot with tcb := (sendSegment env.net { slot.tcb with retransmitTimer := 0 } TcpHeader.ack).1 }
  else slot

def touched (slot : Slot) (seg : Segment) : Slot :=
  { slot with tcb := { slot.tcb with idleMs := 0, tsRecent := seg.opts.tsVal.getD slot.tcb.tsRecent } }

def windowOf (seg : Segment) : UInt32 :=
  UInt32.ofNat (if t.wsEnabled then seg.rawWindow.toNat*2^t.sndWndScale.val else seg.rawWindow.toNat)

def quietStep (env : Env) (s : Stack) (i : ℕ) (slot : Slot) (seg : Segment) : Option Stack :=
  if resets slot.tcb seg then closeTcbRemote s i { slot with tcb := afterReset slot.tcb }
  else
    match slot.tcb.state with
    | .synSent => synSent env s i slot seg (windowOf slot.tcb seg)
    | .synReceived =>
      if seg.flags &&& TcpHeader.ack != 0 then
        some (s.put i { slot with tcb := synReceivedAck slot.tcb seg.ackNum seg.rawWindow })
      else some (s.put i slot)
    | .finWait2 => finWait2 env s i slot seg
    | .timeWait => some (s.put i (timeWait env slot seg))
    | _ => some (s.put i slot)

/-- `transfer` stands for what a connection does that exchanges data. -/
def driveTcbStateMachine (env : Env) (transfer : Stack → ℕ → Slot → Segment → Option Stack) (s : Stack)
    (i : ℕ) (slot : Slot) (seg : Segment) : Option Stack :=
  if exchangesData slot.tcb then transfer s i slot seg else quietStep env s i (touched slot seg) seg

structure Listener.Sound (l : Listener) : Prop where
  ordered : l.pendingHead.toNat ≤ l.pendingTail.toNat
  room : l.pendingTail.toNat+1 < 2^32

lemma searchBacklog_isSome (i : ℕ) {ls : List Listener} (h : ∀ l ∈ ls, l.Sound) (k : ℕ) :
    (searchBacklog i k ls).isSome := by
  induction ls generalizing k with
  | nil => rfl
  | cons l ls ih =>
    have hrest := ih (fun l hl => h l (mem_cons_of_mem _ hl)) (k+1)
    rw [searchBacklog]
    split
    · rw [findPending,if_pos (h l mem_cons_self).ordered,bind_some]
      split
      · rfl
      · exact hrest
    · exact hrest

lemma closeTcbRemote_isSome {s : Stack} (h : ∀ l ∈ s.listeners, l.Sound) (i : ℕ) (slot : Slot) :
    (closeTcbRemote s i slot).isSome := by
  unfold closeTcbRemote
  dsimp only
  split
  · rfl
  · rw [isSome_map]
    exact searchBacklog_isSome i h 0

/-- Round trip times far below the 49 days of the clock. -/
structure SmallTimes (env : Env) (t : Tcb) : Prop where
  srtt : t.srtt.toNat < 2^28
  rttvar : t.rttvar.toNat < 2^28
  sample : (env.net.now-t.tsValLast).toNat < 2^28

lemma smoothed_bound {t : Tcb} {m : ℕ} (hsrtt : t.srtt.toNat < 2^28) (hvar : t.rttvar.toNat < 2^28)
    (hm : m < 2^28) : ∃ r, smoothed t m = some r ∧ r.1 < 2^28 ∧ r.2 < 2^28 := by
  unfold smoothed
  by_cases h0 : t.srtt = 0
  · exact ⟨(m,m/2),if_pos h0,hm,by dsimp only; omega⟩
  rw [if_neg h0]
  dsimp only
  split_ifs with hle hsum hsum
  · exact ⟨_,rfl,by dsimp only; omega,by dsimp only; omega⟩
  · omega
  · exact ⟨_,rfl,by dsimp only; omega,by dsimp only; omega⟩
  · omega

lemma updateRtt_isSome {t : Tcb} {m : UInt32} (hsrtt : t.srtt.toNat < 2^28)
    (hvar : t.rttvar.toNat < 2^28) (hm : m.toNat < 2^28) : (updateRtt t m).isSome := by
  obtain ⟨r,hr,h1,h2⟩ := smoothed_bound hsrtt hvar hm
  rw [updateRtt,hr,bind_some,if_pos (by omega)]
  rfl

lemma applyPeerMss_times (opts : TcpOptions) : (applyPeerMss t opts).srtt = t.srtt ∧
    (applyPeerMss t opts).rttvar = t.rttvar ∧ (applyPeerMss t opts).tsValLast = t.tsValLast := by
  unfold applyPeerMss
  split
  · split_ifs <;> exact ⟨rfl,rfl,rfl⟩
  · exact ⟨rfl,rfl,rfl⟩

lemma negotiate_times (opts : TcpOptions) : (negotiate t opts).srtt = t.srtt ∧
    (negotiate t opts).rttvar = t.rttvar ∧ (negotiate t opts).tsValLast = t.tsValLast := by
  unfold negotiate
  cases opts.wsShift <;> cases opts.tsVal <;> cases opts.sackPermitted <;> exact ⟨rfl,rfl,rfl⟩

lemma sampleRtt_isSome {env : Env} {t : Tcb} (h : SmallTimes env t) (opts : TcpOptions) :
    (sampleRtt env t opts).isSome := by
  unfold sampleRtt
  split
  · split_ifs with hecr
    · rw [hecr]
      exact updateRtt_isSome h.srtt h.rttvar h.sample
    · rfl
  · rfl

lemma establish_isSome {env : Env} {slot : Slot} {seg : Segment} (hseq : seg.seqNum.toNat+1 < 2^32)
    (h : SmallTimes env slot.tcb) (window : UInt32) : (establish env slot seg window).isSome := by
  rw [establish,if_pos hseq]
  dsimp only
  rw [isSome_map]
  refine sampleRtt_isSome ?_ _
  -- negotiation leaves the round trip times and the last time stamp alone
  obtain ⟨h1,h2,h3⟩ := applyPeerMss_times {negotiate {slot.tcb with
      rcvNxt := seg.seqNum+1, sndUna := seg.ackNum, sndWnd := window, state := .established
      wasEstablished := true} seg.opts with
    accecnOk := probeAccecnSynAckOk seg.flags (UInt8.ofNat (byte seg.data 12))
    ecnOk := probeAccecnSynAckOk seg.flags (UInt8.ofNat (byte seg.data 12)) || probeEcnSynAckOk seg.flags}
    seg.opts
  obtain ⟨n1,n2,n3⟩ := negotiate_times {slot.tcb with
      rcvNxt := seg.seqNum+1, sndUna := seg.ackNum, sndWnd := window, state := .established
      wasEstablished := true} seg.opts
  refine ⟨?_,?_,?_⟩
  · rw [h1]
    exact (congrArg UInt32.toNat n1).trans_lt h.srtt
  · rw [h2]
    exact (congrArg UInt32.toNat n2).trans_lt h.rttvar
  · rw [h3]
    exact (congrArg (fun v => (env.net.now-v).toNat) n3).trans_lt h.sample

lemma isSyn_of_synAck {flags : UInt8}
    (h : (flags &&& (syn ||| TcpHeader.ack) == syn ||| TcpHeader.ack) = true) : isSyn flags = true := by
  have hsyn : flags &&& syn = syn := by
    calc flags &&& syn = flags &&& (syn ||| TcpHeader.ack) &&& syn := by
          rw [UInt8.and_assoc]
          rfl
      _ = syn := by
          rw [eq_of_beq h]
          rfl
  rw [isSyn,hsyn]
  rfl

section
variable {env : Env} {s : Stack} (hlisten : ∀ l ∈ s.listeners, l.Sound) (i : ℕ) {slot : Slot} {seg : Segment}
include hlisten

lemma synSent_isSome (hseq : isSyn seg.flags = true → seg.seqNum.toNat+1 < 2^32)
    (h : SmallTimes env slot.tcb) (window : UInt32) : (synSent env s i slot seg window).isSome := by
  unfold synSent
  split
  · case isTrue hsynack =>
    split
    · rfl
    · rw [isSome_map]
      exact establish_isSome (hseq (isSyn_of_synAck hsynack)) h window
  · split
    · exact closeTcbRemote_isSome hlisten i _
    · rfl

lemma finWait2_isSome : (finWait2 env s i slot seg).isSome := by
  unfold finWait2
  split
  · exact closeTcbRemote_isSome hlisten i _
  · dsimp only
    split <;> rfl

lemma quietStep_isSome (hseq : isSyn seg.flags = true → seg.seqNum.toNat+1 < 2^32)
    (htimes : slot.tcb.state = .synSent → SmallTimes env slot.tcb) :
    (quietStep env s i slot seg).isSome := by
  unfold quietStep
  split
  · exact closeTcbRemote_isSome hlisten i _
  split
  · case h_1 hstate => exact synSent_isSome hlisten i hseq (htimes hstate) _
  · split <;> rfl
  · exact finWait2_isSome hlisten i
  · rfl
  · rfl

lemma driveTcbStateMachine_isSome (transfer : Stack → ℕ → Slot → Segment → Option Stack)
    (hseq : isSyn seg.flags = true → seg.seqNum.toNat+1 < 2^32)
    (htimes : slot.tcb.state = .synSent → SmallTimes env slot.tcb)
    (htransfer : exchangesData slot.tcb = true → (transfer s i slot seg).isSome) :
    (driveTcbStateMachine env transfer s i slot seg).isSome := by
  unfold driveTcbStateMachine
  split
  · case isTrue hdata => exact htransfer hdata
  refine quietStep_isSome hlisten i hseq fun hstate => ?_
  have h := htimes hstate
  exact ⟨h.srtt,h.rttvar,h.sample⟩

end

/-- A SYN of 10.0.2.2:4000 for port 80 with its checksum. -/
def plainSyn : Bytes := [15,160,0,80,0,0,0,5,0,0,0,0,80,2,4,0,131,221,0,0]

def lastSyn : Bytes := [15,160,0,80,255,255,255,255,0,0,0,0,80,2,4,0,131,226,0,0]

def server : Stack :=
  ⟨[⟨{ unused with active := true, localPort := 80, state := .listen },fun _ => 0⟩,⟨unused,fun _ => 0⟩],
    [⟨true,80,1,false,replicate 32 0,0,0⟩]⟩

def host : Env := ⟨⟨10,0,2,15⟩,lan,500⟩

end MoQiOS.TcpInput
