import MoQiOS.TcpReceive

/-!
# Received streams over whole runs

Every event keeps the accounting as long as no text arrives in CLOSE_WAIT at
the expected sequence number: the peer's FIN has ended its stream there, and
the state machine would take such text for more of it. A connection that
starts on a used socket must find the receive ring empty, since connecting
again does not clear it.
-/

namespace MoQiOS.Tcp
open SerialNumbers RingMemory Runs

variable (o : Options)

def takeData (r : Receiver) (data : List UInt8) (seq : Serial) : Receiver :=
  if seq ≠ r.nxt then r
  else if r.shutRd then { r with nxt := after r.nxt data.length, taken := r.taken+data.length }
  else bufferData o r data

lemma processIncomingData_rx (t : Tcb) (data : List UInt8) (seq : Serial) :
    (processIncomingData t data seq).rx = takeData t.options t.rx data seq := by
  rw [processIncomingData,takeData]
  split_ifs <;> rfl

lemma bufferData_counts (r : Receiver) (data : List UInt8) :
    (bufferData o r data).nxt = after r.nxt (fitting o r data.length) ∧
    (bufferData o r data).taken = r.taken+fitting o r data.length ∧
    (bufferData o r data).irs = r.irs ∧ (bufferData o r data).synSeen = r.synSeen ∧
    (bufferData o r data).finSeen = r.finSeen := by
  unfold bufferData
  exact ⟨rfl,rfl,rfl,rfl,rfl⟩

variable {stream : ℕ → UInt8} {s : TcpState} {r : Receiver} {t : Tcb} {p : Packet}

lemma takeData_inv (p : Packet)
    (h : RecvInv stream s r) (hsyn : r.synSeen = true) (hfin : r.finSeen = false)
    (ha : Agrees stream r p) : RecvInv stream s (takeData o r p.payload p.seq) := by
  rw [takeData]
  split_ifs with hseq hshut
  · exact h
  · have hnext := h.next hsyn
    rw [hfin] at hnext
    refine ⟨⟨h.ring.head_lt,h.ring.tail_lt,h.ring.returned,fun ho => ?_⟩,?_,?_,h.syn,h.unsyn,h.fin⟩
    · simp only at ho
      rw [hshut] at ho
      cases ho
    · intro _
      simp only [hfin,hnext,after_after]
      congr 1
      simp
      omega
    · intro hs
      simp only at hs
      rw [hsyn] at hs
      cases hs
  have hnext := h.next hsyn
  have heq : p.seq = r.nxt := not_not.mp hseq
  rw [hfin] at hnext
  have hdata : ∀ j (hj : j < p.payload.length), p.payload[j] = stream (r.taken+j) := by
    intro j hj
    have hshort := p.short
    apply ha j hj (r.taken+j) _ (by omega) (by omega)
    rw [heq,hnext,after_after]
    congr 1
    simp
    omega
  obtain ⟨hnxt,htaken,hirs,hsyn',hfin'⟩ := bufferData_counts o r p.payload
  refine ⟨bufferData_ring o p.payload h.ring (by simpa using hshut) hdata,?_,?_,?_,?_,?_⟩
  · intro _
    rw [hnxt,htaken,hirs,hfin',hfin,hnext,after_after]
    congr 1
    simp
    omega
  · intro hs
    rw [hsyn',hsyn] at hs
    cases hs
  · intro hc hs
    rw [hsyn']
    exact hsyn
  · intro hs
    rw [hsyn']
    exact h.unsyn hs
  · intro hf
    rw [hfin',hfin] at hf
    cases hf

lemma takeFin_inv {s' : TcpState}
    (h : RecvInv stream s r) (hsyn : r.synSeen = true) (hfin : r.finSeen = false)
    (hs : s' = .closeWait ∨ s' = .closing ∨ s' = .timeWait) : RecvInv stream s' (takeFin r) := by
  have hnext := h.next hsyn
  rw [hfin] at hnext
  refine ⟨⟨h.ring.head_lt,h.ring.tail_lt,h.ring.returned,h.ring.content⟩,?_,?_,?_,?_,?_⟩
  · intro _
    change r.nxt+1 = after r.irs (1+r.taken+1)
    rw [← after_one,hnext,after_after]
    simp
  · intro hs'
    simp only [takeFin] at hs'
    rw [hsyn] at hs'
    cases hs'
  · intro _ _
    exact hsyn
  · intro hs'
    rcases hs with rfl | rfl | rfl <;> cases hs'
  · intro _
    rcases hs with rfl | rfl | rfl <;> simp

lemma data_inv
    (h : RecvInv stream t.state t.rx) (hsyn : t.rx.synSeen = true) (hfin : t.rx.finSeen = false)
    (ha : Agrees stream t.rx p) :
    RecvInv stream t.state (processIncomingData t p.payload p.seq).rx ∧
    (processIncomingData t p.payload p.seq).rx.synSeen = true ∧
    (processIncomingData t p.payload p.seq).rx.finSeen = false := by
  rw [processIncomingData_rx]
  refine ⟨takeData_inv t.options p h hsyn hfin ha,?_⟩
  rw [takeData,← hsyn,← hfin]
  split_ifs
  · exact ⟨rfl,rfl⟩
  · exact ⟨rfl,rfl⟩
  · exact (bufferData_counts t.options t.rx p.payload).2.2.2

lemma not_fin (h : RecvInv stream s r)
    (h1 : s ≠ .closeWait) (h2 : s ≠ .lastAck) (h3 : s ≠ .closing) (h4 : s ≠ .timeWait)
    (h5 : s ≠ .closed) : r.finSeen = false := by
  cases hf : r.finSeen with
  | false => rfl
  | true => simpa [h1,h2,h3,h4,h5] using h.fin hf

lemma receiving (h : RecvInv stream s r) (hs : s = .established ∨ s = .finWait1 ∨ s = .finWait2) :
    r.synSeen = true ∧ r.finSeen = false := by
  rcases hs with rfl | rfl | rfl <;>
    exact ⟨h.syn (by decide) (by decide),by apply not_fin h <;> decide⟩

lemma RecvInv.enter {s' : TcpState}
    (h : RecvInv stream s r) (hsyn : r.synSeen = true) (hs : s' ≠ .synSent)
    (hfin : r.finSeen = true → s' = .timeWait) : RecvInv stream s' r := by
  refine ⟨h.ring,h.next,h.blank,fun _ _ => hsyn,fun hc => absurd hc hs,?_⟩
  intro hf
  rw [hfin hf]
  simp

lemma establishedFin_inv
    (h : RecvInv stream t.state t.rx) (hsyn : t.rx.synSeen = true) (hfin : t.rx.finSeen = false) :
    RecvInv stream (establishedFin t p).state (establishedFin t p).rx := by
  rw [establishedFin]
  split_ifs
  · exact takeFin_inv h hsyn hfin (.inl rfl)
  · exact h

variable (re : Reaction) (h : RecvInv stream t.state t.rx)
include h

lemma onEstablished_inv (hs : t.state = .established)
    (ha : t.rx.synSeen = true → Agrees stream t.rx p) :
    RecvInv stream (onEstablished t re p).state (onEstablished t re p).rx := by
  obtain ⟨hsyn,hfin⟩ := receiving h (.inl hs)
  simp only [onEstablished]
  by_cases hr : (p.flags.rst && inWindow t p) = true
  · rw [if_pos hr]
    exact h.frame (closeTcbRemote_passive t).frame
  rw [if_neg hr]
  apply RecvInv.frame _ (maybeSendPendingFin_passive _).frame
  -- the acknowledgement half moves the sending side only
  generalize hta : (if p.flags.ack = true then processAck t re p else t) = ta
  have hack : ta.rx = t.rx ∧ ta.state = t.state := by
    rw [← hta]
    split_ifs
    · exact ⟨(processAck_same t re p).rx,(processAck_same t re p).state⟩
    · exact ⟨rfl,rfl⟩
  have hinv : RecvInv stream ta.state ta.rx := by rw [hack.1,hack.2]; exact h
  have hagree := ha hsyn
  rw [← hack.1] at hsyn hfin hagree
  split_ifs
  · obtain ⟨hd,hds,hdf⟩ := data_inv hinv hsyn hfin hagree
    apply establishedFin_inv _ hds hdf
    rw [processIncomingData_state]
    exact hd
  · exact establishedFin_inv hinv hsyn hfin

lemma onFinWait1_inv (hs : t.state = .finWait1) :
    RecvInv stream (onFinWait1 t p).state (onFinWait1 t p).rx := by
  obtain ⟨hsyn,hfin⟩ := receiving h (.inr (.inl hs))
  have htake : RecvInv stream .closing (takeFin t.rx) := takeFin_inv h hsyn hfin (.inr (.inl rfl))
  simp only [onFinWait1]
  split_ifs
  · exact h.frame (closeTcbRemote_passive _).frame
  · exact h
  · exact takeFin_inv h hsyn hfin (.inr (.inr rfl))
  · simp only
    rw [(absorb_same _ _ _).rx]
    exact htake
  · exact htake
  · exact h.frame (absorb_same t _ _).passive.frame
  · apply h.enter hsyn (by simp)
    intro hf
    rw [hfin] at hf
    cases hf
  · exact h

lemma onFinWait2_inv (hs : t.state = .finWait2)
    (ha : t.rx.synSeen = true → Agrees stream t.rx p) :
    RecvInv stream (onFinWait2 t p).state (onFinWait2 t p).rx := by
  obtain ⟨hsyn,hfin⟩ := receiving h (.inr (.inr hs))
  obtain ⟨hd,hds,hdf⟩ := data_inv h hsyn hfin (ha hsyn)
  simp only [onFinWait2]
  split_ifs
  · exact h.frame (closeTcbRemote_passive _).frame
  · exact takeFin_inv hd hds hdf (.inr (.inr rfl))
  · rw [processIncomingData_state]
    exact hd
  · exact takeFin_inv h hsyn hfin (.inr (.inr rfl))
  · exact h

lemma onCloseWait_inv (hquiet : p.payload ≠ [] → p.seq ≠ t.rx.nxt) :
    RecvInv stream (onCloseWait t p).state (onCloseWait t p).rx := by
  generalize htd : (if 0 < p.payload.length then processIncomingData t p.payload p.seq else t) = td
  have hdata : td.rx = t.rx ∧ td.state = t.state := by
    rw [← htd]
    split_ifs with hlen
    · rw [processIncomingData_rx,processIncomingData_state,takeData,
        if_pos (hquiet (List.ne_nil_of_length_pos hlen))]
      exact ⟨rfl,rfl⟩
    · exact ⟨rfl,rfl⟩
  have hinv : RecvInv stream td.state td.rx := by rw [hdata.1,hdata.2]; exact h
  simp only [onCloseWait]
  rw [htd]
  split_ifs
  · apply RecvInv.frame _ (maybeSendPendingFin_passive _).frame
    exact hinv.frame (absorb_same td _ _).passive.frame
  · exact hinv

lemma onSynSent_inv (hs : t.state = .synSent) :
    RecvInv stream (onSynSent t p).state (onSynSent t p).rx := by
  obtain ⟨htaken,hfin⟩ := h.blank (h.unsyn hs)
  rw [onSynSent]
  split_ifs
  · exact h
  · refine ⟨⟨h.ring.head_lt,h.ring.tail_lt,h.ring.returned,h.ring.content⟩,?_,?_,?_,?_,?_⟩
    · intro _
      simp only [htaken,hfin]
      exact (after_one p.seq).symm
    · intro hc
      cases hc
    · intro _ _
      rfl
    · intro hc
      cases hc
    · intro hc
      simp only at hc
      rw [hfin] at hc
      cases hc
  · exact h.frame (closeTcbRemote_passive _).frame
  · exact h

omit h

lemma drive_inv
    (h : RecvInv stream t.state t.rx) (ha : t.rx.synSeen = true → Agrees stream t.rx p)
    (hquiet : t.state = .closeWait → p.payload ≠ [] → p.seq ≠ t.rx.nxt) :
    RecvInv stream (driveTcbStateMachine t re p).state (driveTcbStateMachine t re p).rx := by
  rw [driveTcbStateMachine]
  split
  · rename_i t' hreset
    obtain ⟨a,b,rfl⟩ := resetBy_some t hreset
    exact h.frame ⟨rfl,.inr (.inl rfl)⟩
  split
  · exact onSynSent_inv h ‹_›
  · rename_i hs
    rw [onSynReceived]
    split_ifs
    · apply h.enter (h.syn (by rw [hs]; decide) (by rw [hs]; decide)) (by simp)
      intro hf
      simpa [hs] using h.fin hf
    · exact h
  · exact onEstablished_inv re h ‹_› ha
  · exact onFinWait1_inv h ‹_›
  · exact onFinWait2_inv h ‹_› ha
  · rw [onLastAck]
    split_ifs
    · exact h
    · exact h.frame (absorb_same t _ _).passive.frame
    · exact h.frame (closeTcbRemote_passive t).frame
  · exact onCloseWait_inv h (hquiet ‹_›)
  · rename_i hs
    rw [onClosing]
    split_ifs
    · exact h
    · exact h.enter (h.syn (by rw [hs]; decide) (by rw [hs]; decide)) (by simp) (fun _ => rfl)
    · exact h.frame (absorb_same t _ _).passive.frame
  · rw [onTimeWait]
    split_ifs
    · exact h
    · exact h
  · exact h
  · exact h

lemma readRing_counts (r : Receiver) (n : ℕ) :
    (readRing o r n).nxt = r.nxt ∧ (readRing o r n).irs = r.irs ∧
    (readRing o r n).synSeen = r.synSeen ∧ (readRing o r n).finSeen = r.finSeen := by
  unfold readRing
  exact ⟨rfl,rfl,rfl,rfl⟩

lemma readRing_inv {n : ℕ}
    (h : RecvInv stream s r) (hopen : r.shutRd = false) (hn : n ≤ buffered r) :
    RecvInv stream s (readRing o r n) := by
  obtain ⟨hnxt,hirs,hsyn,hfin⟩ := readRing_counts o r n
  constructor
  · exact readRing_ring o h.ring hopen hn
  · rw [hsyn,hnxt,hirs,hfin,readRing_taken]
    exact h.next
  · rw [hsyn,hfin,readRing_taken]
    exact h.blank
  · rw [hsyn]
    exact h.syn
  · rw [hsyn]
    exact h.unsyn
  · rw [hfin]
    exact h.fin

lemma tcpRecv_inv (len mss : ℕ) (h : RecvInv stream t.state t.rx) :
    RecvInv stream (tcpRecv t len mss).state (tcpRecv t len mss).rx :=
  tcpRecv_rule (P := fun u => RecvInv stream u.state u.rx) len mss h h
    fun hshut _ _ => readRing_inv t.options h hshut (min_le_left _ _)

lemma shutRead_inv (h : RecvInv stream s r) : RecvInv stream s (shutRead r) :=
  ⟨⟨h.ring.tail_lt,h.ring.tail_lt,h.ring.returned,fun hc => by cases hc⟩,h.next,h.blank,h.syn,
    h.unsyn,h.fin⟩

lemma tcpShutdown_inv (how : ShutHow) (h : RecvInv stream t.state t.rx) :
    RecvInv stream (tcpShutdown t how).state (tcpShutdown t how).rx := by
  have hshut := shutRead_inv h
  simp only [tcpShutdown]
  split_ifs
  · exact h
  cases how with
  | rd => exact hshut
  | wr =>
    simp only
    split
    · exact h.frame (requestFin_frame t)
    · exact h.frame (requestFin_frame t)
    · exact h
  | rdwr =>
    simp only
    split
    · exact RecvInv.frame (t := {t with rx := shutRead t.rx}) hshut (requestFin_frame _)
    · exact RecvInv.frame (t := {t with rx := shutRead t.rx}) hshut (requestFin_frame _)
    · exact RecvInv.follows hshut (.inr (.inl rfl))

/-- The peer's segments carry one stream and do not stop the kernel. -/
def FromPeer (stream : ℕ → UInt8) (t : Tcb) : Event → Prop
  | .segment p _ => traps t p = false ∧ (t.rx.synSeen = true → Agrees stream t.rx p)
  | _ => True

/-- No text at the expected sequence number once the peer's FIN was taken. -/
def NoLateText (t : Tcb) : Event → Prop
  | .segment p _ => t.state = .closeWait → p.payload ≠ [] → p.seq ≠ t.rx.nxt
  | _ => True

def PeerNext (stream : ℕ → UInt8) (t : Tcb) (label : List Gate × Event) (t' : Tcb) : Prop :=
  FromPeer stream t label.2 ∧ t' = step (withGates label.1 t) label.2

def QuietNext (stream : ℕ → UInt8) (t : Tcb) (label : List Gate × Event) (t' : Tcb) : Prop :=
  NoLateText t label.2 ∧ PeerNext stream t label t'

/-- How connections begin: an active open on a closed socket, or a SYN for a
listener. The second always finds its rings empty. -/
inductive Opened (Ready : Tcb → Prop) : Tcb → Prop where
  | connect (t : Tcb) (iss : Serial) (hactive : t.active = true) (hclosed : t.state = .closed)
      (hready : Ready t) : Opened Ready (tcpConnectSocket t iss)
  | accept (reuse : Bool) (t : Tcb) (iss : Serial) (p : Packet) (hseq : p.seq ≠ BitVec.allOnes 32)
      (hready : Ready (initTcbState t)) : Opened Ready (handleIncomingSyn reuse t iss p)

def RecvRingEmpty (t : Tcb) : Prop := t.rx.head < recvBufSize ∧ t.rx.tail = t.rx.head

lemma start_ring (stream : ℕ → UInt8) (hlt : r.head < recvBufSize)
    (heq : r.tail = r.head) (hdel : r.delivered = []) (htaken : r.taken = 0) : RingOk stream r := by
  have hlen : buffered r = 0 := by
    rw [buffered,heq,ringDataLen,recvBufSize_eq]
    omega
  refine ⟨hlt,heq ▸ hlt,?_,?_⟩
  · rw [hdel]
    rfl
  · intro _
    rw [hlen,hdel,htaken]
    rfl

lemma opened_inv (stream : ℕ → UInt8) (h : Opened RecvRingEmpty t) :
    RecvInv stream t.state t.rx := by
  cases h with
  | connect t iss _ _ hready =>
    refine ⟨start_ring stream hready.1 hready.2 rfl rfl,?_,fun _ => ⟨rfl,rfl⟩,?_,fun _ => rfl,?_⟩
    · intro hc
      cases hc
    · intro hc hs
      simp only [tcpConnectSocket] at hc hs
      split_ifs at hc hs
      · exact absurd rfl hs
      · exact absurd rfl hc
    · intro hc
      cases hc
  | accept reuse t iss p _ hready =>
    refine ⟨start_ring stream hready.1 hready.2 rfl rfl,?_,?_,fun _ _ => rfl,?_,?_⟩
    · intro _
      exact (after_one p.seq).symm
    · intro hc
      cases hc
    · intro hc
      cases hc
    · intro hc
      cases hc

lemma step_inv {e : Event} (h : RecvInv stream t.state t.rx)
    (hp : FromPeer stream t e) (hq : NoLateText t e) :
    RecvInv stream (step t e).state (step t e).rx := by
  cases e with
  | segment p re => exact drive_inv re h hp.2 hq
  | tick k => exact h.frame (timerTickOne_passive k t).frame
  | send data =>
    rw [step,tcpSend]
    split_ifs <;> exact h
  | sendStage data =>
    rw [step,tcpSendStage]
    split_ifs <;> exact h
  | sendFlush =>
    rw [step,tcpSendFlush]
    split_ifs <;> exact h
  | recv len mss => exact tcpRecv_inv len mss h
  | shutdown how => exact tcpShutdown_inv how h
  | close => exact h.frame (tcpClose_frame t)
  | setOptions o => exact h
  | flushCork =>
    rw [step,tcpFlushCork]
    split_ifs <;> exact h
  | flushAck =>
    rw [step,tcpFlushAck]
    split_ifs <;> exact h

/-- In every run in which no text follows the peer's FIN, what recv returned is
a prefix of the peer's stream, nothing accepted is missing from it and the
ring, and the expected sequence number counts the accepted bytes and the FIN. -/
theorem received_stream_intact (stream : ℕ → UInt8) {t₀ t : Tcb}
    (ho : Opened RecvRingEmpty t₀) (hr : Reaches (QuietNext stream) t₀ t) :
    t.rx.delivered = peerBytes stream t.rx.delivered.length ∧ (t.rx.shutRd = false →
      t.rx.delivered++held t.rx.buf recvBufSize t.rx.head (buffered t.rx) =
        peerBytes stream t.rx.taken) ∧
    (t.rx.synSeen = true →
      t.rx.nxt = after t.rx.irs (1+t.rx.taken+(if t.rx.finSeen then 1 else 0))) := by
  have hinv : RecvInv stream t.state t.rx := by
    apply invariant (I := fun t => RecvInv stream t.state t.rx) _ hr (opened_inv stream ho)
    intro s label u hs hn
    obtain ⟨hq,hp,rfl⟩ := hn
    have hpeer : FromPeer stream (withGates label.1 s) label.2 := by
      cases he : label.2 <;> rw [he] at hp <;> exact hp
    have hquiet : NoLateText (withGates label.1 s) label.2 := by
      cases he : label.2 <;> rw [he] at hq <;> exact hq
    exact step_inv (t := withGates label.1 s) hs hpeer hquiet
  exact ⟨hinv.ring.returned,hinv.ring.content,hinv.next⟩

def plainOptions : Options := ⟨false,false,false,false,16384,false,16384,false,0⟩

def zeroSender : Sender :=
  ⟨0,0,0,0,0,fun _ => 0,0,0,0,[],false,[],false,false,false,[],[],[]⟩

def zeroReceiver : Receiver := ⟨0,0,0,fun _ => 0,0,0,false,[],0,false,false⟩

def openGates : List Gate := List.replicate 4 ⟨1460,1460,false,true,true⟩

def freshSlot : Tcb :=
  ⟨.closed,true,1,false,false,false,false,0,plainOptions,{ zeroSender with gates := openGates },
    zeroReceiver⟩

def packet (seq ackNum : Serial) (flags : Flags) (payload : List UInt8)
    (short : payload.length < 65536) : Packet :=
  ⟨seq,ackNum,flags,1000,false,false,[],payload,short⟩

def delivery (p : Packet) : List Gate × Event :=
  (openGates, .segment p ⟨.grow,.count,fun _ => false,1460⟩)

def reading : List Gate × Event := (openGates, .recv 10 1460)

def run : List (List Gate × Event) → Tcb → Tcb
  | [], t => t
  | label::rest, t => run rest (step (withGates label.1 t) label.2)

def Admissible (P : Tcb → Event → Prop) : List (List Gate × Event) → Tcb → Prop
  | [], _ => True
  | label::rest, t =>
    P t label.2 ∧ Admissible P rest (step (withGates label.1 t) label.2)

lemma run_reaches {next : Tcb → (List Gate×Event) → Tcb → Prop} {P : Tcb → Event → Prop}
    (hnext : ∀ t label, P t label.2 → next t label (step (withGates label.1 t) label.2))
    {labels : List (List Gate×Event)} {s : Tcb} (h : Admissible P labels t)
    (hs : Reaches next s t) : Reaches next s (run labels t) := by
  induction labels generalizing t with
  | nil => exact hs
  | cons label rest ih => exact ih h.2 (hs.snoc (hnext t label h.1))

lemma agrees_nil (stream : ℕ → UInt8) (r : Receiver) (h : p.payload = []) :
    Agrees stream r p := by
  intro j hj
  rw [h] at hj
  cases hj

lemma agrees_at {k : ℕ}
    (hseq : p.seq = after r.irs (1+k)) (hlo : r.taken ≤ k+2^30) (hhi : k ≤ r.taken+2^30)
    (hbytes : ∀ j (hj : j < p.payload.length), p.payload[j] = stream (k+j)) :
    Agrees stream r p := by
  intro j hj i hi hilo hihi
  have hshort := p.short
  rw [hseq,after_after] at hi
  have heq := after_inj hi (by omega) (by omega)
  have hik : i = k+j := by omega
  rw [hik]
  exact hbytes j hj

def letters (i : ℕ) : UInt8 := UInt8.ofNat (97+i)

def synPacket : Packet := packet 100 0 .SYN [] (by decide)
def handshakeAck : Packet := packet 101 501 .ACK [] (by decide)

def listening : Tcb := handleIncomingSyn false freshSlot 500 synPacket

lemma listening_opened : Opened RecvRingEmpty listening := by
  apply Opened.accept
  · decide
  · refine ⟨?_,rfl⟩
    rw [recvBufSize_eq]
    exact (by decide : 0 < 65536)

def finPacket : Packet := packet 101 501 .finAck [] (by decide)
def lateText : Packet := packet 102 501 .ACK [98] (by decide)

/-- The FIN ends the stream in front of its first byte; the second byte follows. -/
def lateLabels : List (List Gate × Event) :=
  [delivery handshakeAck, delivery finPacket, delivery lateText, reading]

lemma lateLabels_admissible : Admissible (FromPeer letters) lateLabels listening := by
  -- evaluation has to see through the sealed ring size and sequence numbers
  refine ⟨⟨by decide,fun _ => agrees_nil _ _ rfl⟩,
    ⟨by with_unfolding_all decide,fun _ => agrees_nil _ _ rfl⟩,
    ⟨by with_unfolding_all decide,fun _ => ?_⟩,trivial,trivial⟩
  apply agrees_at (k := 1)
  iterate 3 · with_unfolding_all decide
  · intro j hj
    have hj0 : j = 0 := Nat.lt_one_iff.mp hj
    subst hj0
    rfl

def synAckPacket : Packet := packet 100 501 .synAck [] (by decide)
def unreadText : Packet := packet 101 501 .ACK [120] (by decide)
def resetPacket : Packet := packet 102 501 .RST [] (by decide)
def secondSynAck : Packet := packet 300 901 .synAck [] (by decide)

def firstLabels : List (List Gate × Event) :=
  [delivery synAckPacket, delivery unreadText, delivery resetPacket]

def usedSocket : Tcb := run firstLabels (tcpConnectSocket freshSlot 500)

def UsedSocket (t : Tcb) : Prop :=
  ∃ t₀ stream, Opened RecvRingEmpty t₀ ∧ Reaches (QuietNext stream) t₀ t

def QuietPeer (stream : ℕ → UInt8) (t : Tcb) (e : Event) : Prop := NoLateText t e ∧ FromPeer stream t e

lemma quiet_run {labels : List (List Gate×Event)} (h : Admissible (QuietPeer stream) labels t) :
    Reaches (QuietNext stream) t (run labels t) :=
  run_reaches (fun _ _ hp => ⟨hp.1,hp.2,rfl⟩) h (.start _ _)

lemma quiet_textless {q : Reaction} (hp : p.payload = []) (h : traps t p = false) :
    QuietPeer stream t (.segment p q) := ⟨fun _ hn => absurd hp hn,h,fun _ => agrees_nil _ _ hp⟩

lemma usedSocket_used : UsedSocket usedSocket := by
  refine ⟨tcpConnectSocket freshSlot 500,fun _ => 120,?_,?_⟩
  · refine Opened.connect freshSlot 500 rfl rfl ⟨?_,rfl⟩
    rw [recvBufSize_eq]
    exact (by decide : 0 < 65536)
  · apply quiet_run
    refine ⟨quiet_textless rfl (by with_unfolding_all decide),⟨?_,by with_unfolding_all decide,
      fun _ => ?_⟩,quiet_textless rfl (by with_unfolding_all decide),trivial⟩
    · intro hc
      exact absurd hc (by with_unfolding_all decide)
    · intro j hj i _ _ _
      have hj0 : j = 0 := Nat.lt_one_iff.mp hj
      subst hj0
      rfl

def secondLabels : List (List Gate × Event) := [delivery secondSynAck, reading]

/-- Text after the peer's FIN is taken for its stream, and a socket connected
again hands out what its last connection left unread. -/
theorem received_stream_broken :
    ¬(∀ stream t₀ t, Opened RecvRingEmpty t₀ → Reaches (PeerNext stream) t₀ t →
      t.rx.delivered = peerBytes stream t.rx.delivered.length) ∧
    ¬(∀ stream t₀ t, Opened UsedSocket t₀ → Reaches (QuietNext stream) t₀ t →
      t.rx.delivered = peerBytes stream t.rx.delivered.length) := by
  constructor
  · intro h
    have hr : Reaches (PeerNext letters) listening (run lateLabels listening) :=
      run_reaches (fun _ _ hp => ⟨hp,rfl⟩) lateLabels_admissible (.start _ _)
    exact absurd (h letters listening _ listening_opened hr) (by with_unfolding_all decide)
  · intro h
    have ho : Opened UsedSocket (tcpConnectSocket usedSocket 900) :=
      Opened.connect usedSocket 900 (by with_unfolding_all decide) (by with_unfolding_all decide)
        usedSocket_used
    have hr : Reaches (QuietNext (fun _ => 121)) (tcpConnectSocket usedSocket 900)
        (run secondLabels (tcpConnectSocket usedSocket 900)) := by
      apply quiet_run
      exact ⟨quiet_textless rfl (by with_unfolding_all decide),⟨trivial,trivial⟩,trivial⟩
    exact absurd (h _ _ _ ho hr) (by with_unfolding_all decide)

def textPacket : Packet := packet 101 501 .ACK [97,98] (by decide)

def plainLabels : List (List Gate × Event) := [delivery handshakeAck, delivery textPacket, reading]

theorem received_stream_intact_letters : (run plainLabels listening).rx.delivered = [97,98] ∧
    (run plainLabels listening).rx.delivered =
      peerBytes letters (run plainLabels listening).rx.delivered.length := by
  have hr : Reaches (QuietNext letters) listening (run plainLabels listening) := by
    apply quiet_run
    refine ⟨quiet_textless rfl (by decide),⟨?_,by with_unfolding_all decide,fun _ => ?_⟩,
      ⟨trivial,trivial⟩,trivial⟩
    · intro hc
      exact absurd hc (by with_unfolding_all decide)
    · apply agrees_at (k := 0)
      iterate 3 · with_unfolding_all decide
      · intro j hj
        change j < 2 at hj
        interval_cases j <;> rfl
  exact ⟨by with_unfolding_all decide,(received_stream_intact letters listening_opened hr).1⟩

end MoQiOS.Tcp
