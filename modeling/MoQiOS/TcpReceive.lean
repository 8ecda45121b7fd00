import MoQiOS.TcpRings
import MoQiOS.Runs

/-!
# The received byte stream

What recv has returned followed by what the receive ring still holds is the
part of the peer's stream accepted so far, and the next expected sequence
number counts the accepted bytes. The accounting is stated for the receiving
half and the connection state alone, so every function that leaves the
receiving half as it is keeps it.
-/

namespace MoQiOS.Tcp
open SerialNumbers RingMemory Runs List

def peerBytes (stream : ℕ → UInt8) (n : ℕ) : List UInt8 := (List.range n).map stream

lemma peerBytes_add (stream : ℕ → UInt8) (n k : ℕ) :
    peerBytes stream (n+k) = peerBytes stream n++(List.range k).map (fun i => stream (n+i)) := by
  simp [peerBytes,range_add,Function.comp_def]

lemma peerBytes_take (stream : ℕ → UInt8) {n k : ℕ} (h : k ≤ n) :
    (peerBytes stream n).take k = peerBytes stream k := by
  obtain ⟨d,rfl⟩ := Nat.exists_eq_add_of_le h
  rw [peerBytes_add,take_append_of_le_length (by simp [peerBytes]),
    take_of_length_le (by simp [peerBytes])]

structure RingOk (stream : ℕ → UInt8) (r : Receiver) : Prop where
  head_lt : r.head < recvBufSize
  tail_lt : r.tail < recvBufSize
  returned : r.delivered = peerBytes stream r.delivered.length
  content : r.shutRd = false →
    r.delivered++held r.buf recvBufSize r.head (buffered r) = peerBytes stream r.taken

lemma buffered_lt (r : Receiver) : buffered r < recvBufSize := ringDataLen_lt recvBufSize_eq r.head r.tail

variable (o : Options)

def fitting (r : Receiver) (len : ℕ) : ℕ :=
  min (acceptableBytes len (buffered r) (rcvWindowCap o)) (recvBufSize-1-buffered r)

lemma fitting_le (r : Receiver) (len : ℕ) : fitting o r len ≤ len :=
  le_trans (min_le_left _ _) (min_le_left _ _)

lemma fitting_room (r : Receiver) (len : ℕ) : buffered r+fitting o r len < recvBufSize := by
  have hb := buffered_lt r
  have hf : fitting o r len ≤ recvBufSize-1-buffered r := min_le_right _ _
  omega

variable {stream : ℕ → UInt8} {r : Receiver}

lemma bufferData_ring (data : List UInt8) (h : RingOk stream r) (hopen : r.shutRd = false)
    (hdata : ∀ j (hj : j < data.length), data[j] = stream (r.taken+j)) :
    RingOk stream (bufferData o r data) := by
  have hle := fitting_le o r data.length
  have hroom := fitting_room o r data.length
  have hlen : (data.take (fitting o r data.length)).length = fitting o r data.length := by
    rw [length_take]
    exact min_eq_left hle
  have htail : r.tail = (r.head+buffered r)%recvBufSize := tail_of_len recvBufSize_eq h.head_lt h.tail_lt
  have htail' : (r.tail+fitting o r data.length)%recvBufSize =
      (r.head+(buffered r+fitting o r data.length))%recvBufSize := by
    rw [htail,Nat.mod_add_mod,add_assoc]
  have hnew : buffered (bufferData o r data) = buffered r+fitting o r data.length := by
    change ringDataLen r.head ((r.tail+fitting o r data.length)%recvBufSize) recvBufSize = _
    rw [htail']
    exact ringDataLen_cursors recvBufSize_eq h.head_lt hroom
  refine ⟨h.head_lt,cursor_lt recvBufSize_eq _,h.returned,?_⟩
  intro _
  rw [hnew]
  change r.delivered++held (ringWrite r.buf recvBufSize r.tail (data.take (fitting o r data.length)))
    recvBufSize r.head (buffered r+fitting o r data.length) =
      peerBytes stream (r.taken+fitting o r data.length)
  have hw : Written r.buf (ringWrite r.buf recvBufSize r.tail (data.take (fitting o r data.length)))
      recvBufSize ((r.head+buffered r)%recvBufSize) (data.take (fitting o r data.length)) := by
    rw [← htail]
    exact ringWrite_written r.buf _ h.tail_lt (by omega)
  have hheld := held_written hw (by omega)
  rw [hlen] at hheld
  rw [hheld,← append_assoc,h.content hopen,peerBytes_add]
  congr 1
  apply ext_getElem
  · simp [hle]
  · intro j hj hj'
    simp only [getElem_take,getElem_map,getElem_range]
    exact hdata j (by simp at hj; omega)

-- the projections are unfolded one by one: comparing the two records field by
-- field makes the unifier evaluate the window arithmetic
lemma readRing_head (r : Receiver) (n : ℕ) : (readRing o r n).head = (r.head+n)%recvBufSize := by
  unfold readRing
  exact rfl

lemma readRing_tail (r : Receiver) (n : ℕ) : (readRing o r n).tail = r.tail := by
  unfold readRing
  exact rfl

lemma readRing_buf (r : Receiver) (n : ℕ) : (readRing o r n).buf = r.buf := by
  unfold readRing
  exact rfl

lemma readRing_delivered (r : Receiver) (n : ℕ) :
    (readRing o r n).delivered = r.delivered++ringRead r.buf recvBufSize r.head n := by
  unfold readRing
  exact rfl

lemma readRing_taken (r : Receiver) (n : ℕ) : (readRing o r n).taken = r.taken := by
  unfold readRing
  exact rfl

lemma readRing_ring {toRead : ℕ}
    (h : RingOk stream r) (hopen : r.shutRd = false) (hle : toRead ≤ buffered r) :
    RingOk stream (readRing o r toRead) := by
  have hb := buffered_lt r
  have htail : r.tail = (r.head+buffered r)%recvBufSize := tail_of_len recvBufSize_eq h.head_lt h.tail_lt
  have hread : ringRead r.buf recvBufSize r.head toRead =
      (held r.buf recvBufSize r.head (buffered r)).take toRead := by
    rw [ringRead_held r.buf h.head_lt (by omega)]
    exact held_take r.buf recvBufSize r.head hle
  have hnew : buffered (readRing o r toRead) = buffered r-toRead := by
    have htail' : r.tail = ((r.head+toRead)%recvBufSize+(buffered r-toRead))%recvBufSize := by
      have hsum : r.head+toRead+(buffered r-toRead) = r.head+buffered r := by omega
      rw [Nat.mod_add_mod,hsum]
      exact htail
    rw [buffered,readRing_head,readRing_tail,htail']
    exact ringDataLen_cursors recvBufSize_eq (cursor_lt recvBufSize_eq _) (by omega)
  have hall := h.content hopen
  have hdel : (readRing o r toRead).delivered = peerBytes stream (r.delivered.length+toRead) := by
    have htaken : r.delivered.length+buffered r = r.taken := by
      have hcount := congrArg List.length hall
      rw [length_append,held_length] at hcount
      simpa [peerBytes] using hcount
    rw [readRing_delivered,hread,
      ← peerBytes_take stream (show r.delivered.length+toRead ≤ r.taken by omega),← hall,
      take_length_add_append]
  constructor
  · rw [readRing_head]
    exact cursor_lt recvBufSize_eq _
  · rw [readRing_tail]
    exact h.tail_lt
  · have hlen : (readRing o r toRead).delivered.length = r.delivered.length+toRead := by
      rw [hdel]
      simp [peerBytes]
    rw [hlen,hdel]
  · intro _
    rw [hnew,readRing_delivered,readRing_buf,readRing_head,readRing_taken,hread,
      held_drop r.buf recvBufSize r.head hle,append_assoc,take_append_drop,hall]

structure RecvInv (stream : ℕ → UInt8) (s : TcpState) (r : Receiver) : Prop where
  ring : RingOk stream r
  next : r.synSeen = true → r.nxt = after r.irs (1+r.taken+(if r.finSeen then 1 else 0))
  blank : r.synSeen = false → r.taken = 0 ∧ r.finSeen = false
  syn : s ≠ .closed → s ≠ .synSent → r.synSeen = true
  unsyn : s = .synSent → r.synSeen = false
  fin : r.finSeen = true →
    s = .closeWait ∨ s = .lastAck ∨ s = .closing ∨ s = .timeWait ∨ s = .closed

/-- The payload agrees with the stream wherever a position near the expected
one has the byte's sequence number. -/
def Agrees (stream : ℕ → UInt8) (r : Receiver) (p : Packet) : Prop :=
  ∀ j (hj : j < p.payload.length) (i : ℕ), after r.irs (1+i) = after p.seq j →
    i < r.taken+2^31 → r.taken < i+2^31 → p.payload[j] = stream i

/-- State changes of functions that do not touch the receiving half. -/
def Follows (s s' : TcpState) : Prop :=
  s' = s ∨ s' = .closed ∨ (s = .established ∧ s' = .finWait1) ∨ (s = .closeWait ∧ s' = .lastAck)

def Frame (t t' : Tcb) : Prop := t'.rx = t.rx ∧ Follows t.state t'.state

variable (t : Tcb)

lemma Frame.refl : Frame t t := ⟨rfl,.inl rfl⟩

lemma Frame.trans {a b c : Tcb} (h : Frame a b) (h' : Frame b c) : Frame a c := by
  refine ⟨h'.1.trans h.1,?_⟩
  rcases h.2 with hs | hs | ⟨hs,hs'⟩ | ⟨hs,hs'⟩ <;>
    rcases h'.2 with hn | hn | ⟨hn,hn'⟩ | ⟨hn,hn'⟩ <;> simp_all [Follows]

lemma RecvInv.follows {s s' : TcpState}
    (h : RecvInv stream s r) (hf : Follows s s') : RecvInv stream s' r := by
  refine ⟨h.ring,h.next,h.blank,?_,?_,?_⟩
  · intro hc hs
    rcases hf with rfl | rfl | ⟨rfl,rfl⟩ | ⟨rfl,rfl⟩
    · exact h.syn hc hs
    · exact absurd rfl hc
    · exact h.syn (by decide) (by decide)
    · exact h.syn (by decide) (by decide)
  · intro hs
    rcases hf with rfl | rfl | ⟨rfl,rfl⟩ | ⟨rfl,rfl⟩
    · exact h.unsyn hs
    · cases hs
    · cases hs
    · cases hs
  · intro hfin
    have hstate := h.fin hfin
    rcases hf with rfl | rfl | ⟨rfl,rfl⟩ | ⟨rfl,rfl⟩
    · exact hstate
    · simp
    · simp at hstate
    · simp

lemma RecvInv.frame {t t' : Tcb} (h : RecvInv stream t.state t.rx)
    (hf : Frame t t') : RecvInv stream t'.state t'.rx := by
  rw [hf.1]
  exact h.follows hf.2

/-- Besides, the references stay, and the slot while there are any. -/
structure Passive (t t' : Tcb) : Prop where
  frame : Frame t t'
  refs : t'.refCount = t.refCount
  active : t.refCount ≠ 0 → t'.active = t.active

lemma Passive.refl : Passive t t := ⟨Frame.refl t,rfl,fun _ => rfl⟩

lemma Passive.trans {a b c : Tcb} (h : Passive a b) (h' : Passive b c) : Passive a c :=
  ⟨h.frame.trans h'.frame,h'.refs.trans h.refs,
    fun hr => (h'.active (by rw [h.refs]; exact hr)).trans (h.active hr)⟩

/-- Nothing but the sending half changes. -/
structure Same (t t' : Tcb) : Prop where
  rx : t'.rx = t.rx
  state : t'.state = t.state
  refs : t'.refCount = t.refCount
  active : t'.active = t.active

lemma Same.passive {t t' : Tcb} (h : Same t t') : Passive t t' :=
  ⟨⟨h.rx,.inl h.state⟩,h.refs,fun _ => h.active⟩

lemma Passive.behind {t u v : Tcb} (h : Passive u v) (hs : Same t u) : Passive t v := hs.passive.trans h

lemma closeTcbRemote_passive : Passive t (closeTcbRemote t) :=
  ⟨⟨rfl,.inr (.inl rfl)⟩,rfl,fun hr => by simp [closeTcbRemote,hr]⟩

lemma sendPendingFin_passive {next : TcpState} (h : Follows t.state next) :
    Passive t (sendPendingFin t next) := by
  simp only [sendPendingFin]
  split_ifs
  · exact Same.passive ⟨rfl,rfl,rfl,rfl⟩
  · exact ⟨⟨rfl,h⟩,rfl,fun _ => rfl⟩
  · exact Same.passive ⟨rfl,rfl,rfl,rfl⟩

lemma maybeSendPendingFin_passive : Passive t (maybeSendPendingFin t) := by
  rw [maybeSendPendingFin]
  split_ifs
  · exact .refl t
  split
  · exact sendPendingFin_passive t (.inr (.inr (.inl ⟨‹_›,rfl⟩)))
  · exact sendPendingFin_passive t (.inr (.inr (.inr ⟨‹_›,rfl⟩)))
  · exact Same.passive ⟨rfl,rfl,rfl,rfl⟩

lemma absorb_same (ackNum : Serial) (window : ℕ) : Same t (absorbDataAckBeforeFin t ackNum window) := by
  simp only [absorbDataAckBeforeFin]
  split_ifs <;> exact ⟨rfl,rfl,rfl,rfl⟩

lemma processIncomingData_state (data : List UInt8) (seq : Serial) :
    (processIncomingData t data seq).state = t.state := by
  rw [processIncomingData]
  split_ifs <;> rfl

lemma processAck_same (re : Reaction) (p : Packet) : Same t (processAck t re p) := by
  simp only [processAck]
  split_ifs <;> exact ⟨rfl,rfl,rfl,rfl⟩

lemma retransmit_same : Same t (retransmit t) := by
  simp only [retransmit]
  split_ifs <;> exact ⟨rfl,rfl,rfl,rfl⟩

lemma rtoExpired_passive : Passive t (rtoExpired t) := by
  simp only [rtoExpired]
  split_ifs
  · exact (closeTcbRemote_passive _).behind ⟨rfl,rfl,rfl,rfl⟩
  · exact (retransmit_same _).passive.behind ⟨rfl,rfl,rfl,rfl⟩

variable (k : Tick)

lemma lossTimers_passive (t : Tcb) : Passive t (lossTimers k t) := by
  simp only [lossTimers]
  split_ifs
  · exact (rtoExpired_passive _).behind ⟨rfl,rfl,rfl,rfl⟩
  · exact (rtoExpired_passive _).behind ⟨rfl,rfl,rfl,rfl⟩
  · exact Same.passive ⟨rfl,rfl,rfl,rfl⟩
  · exact Same.passive ⟨rfl,rfl,rfl,rfl⟩
  · exact .refl t

lemma persistTimer_same (t : Tcb) : Same t (persistTimer k t) := by
  rw [persistTimer]
  split_ifs <;> exact ⟨rfl,rfl,rfl,rfl⟩

lemma resumeTimers_passive (t : Tcb) : Passive t (resumeTimers k t) := by
  simp only [resumeTimers]
  exact (maybeSendPendingFin_passive _).behind ⟨rfl,rfl,rfl,rfl⟩

lemma upkeep_passive (t : Tcb) : Passive t (upkeep k t) := by
  have hp : Passive t (persistTimer k {t with tx := delayedAckTimer k t.tx}) :=
    (persistTimer_same k _).passive.behind ⟨rfl,rfl,rfl,rfl⟩
  simp only [upkeep]
  split_ifs
  · cases k.keepalive with
    | idle => exact hp.trans (resumeTimers_passive k _)
    | probe => exact hp.trans ((resumeTimers_passive k _).behind ⟨rfl,rfl,rfl,rfl⟩)
    | dead => exact hp.trans (closeTcbRemote_passive _)
  · exact hp.trans (resumeTimers_passive k _)

lemma timerTickOne_passive (t : Tcb) : Passive t (timerTickOne k t) := by
  have hloss := lossTimers_passive k t
  simp only [timerTickOne]
  split
  · exact .refl t
  · split_ifs
    · exact closeTcbRemote_passive t
    · exact Same.passive ⟨rfl,rfl,rfl,rfl⟩
  · split_ifs
    · exact closeTcbRemote_passive t
    · exact .refl t
  · split_ifs
    · exact hloss
    · exact hloss.trans (upkeep_passive k _)

lemma requestFin_frame : Frame t (requestFin t) :=
  (maybeSendPendingFin_passive {t with finPending := true}).frame

lemma resetBy_some {t' : Tcb} {p : Packet} (h : resetBy t p = some t') :
    ∃ a b, t' = closeTcbRemote {t with refused := a, resetByPeer := b} := by
  rw [resetBy] at h
  split at h
  · cases h
  · split at h <;> (try split at h) <;> cases h <;> exact ⟨_,_,rfl⟩

lemma tcpClose_frame : Frame t (tcpClose t) := by
  simp only [tcpClose]
  split_ifs
  · exact Frame.refl t
  · exact ⟨rfl,.inl rfl⟩
  · exact ⟨rfl,.inr (.inl rfl)⟩
  split
  · exact requestFin_frame {t with refCount := 0}
  · exact requestFin_frame {t with refCount := 0}
  · exact ⟨rfl,.inr (.inl rfl)⟩

lemma tcpRecv_rule {P : Tcb → Prop} {t : Tcb} (len mss : ℕ) (h : P t)
    (hreset : P {t with resetByPeer := false}) (hread : t.rx.shutRd = false → ∀ tx,
      tx = t.tx ∨ tx = sendAck {t.tx with delayedAckPending := false} →
      P {t with rx := readRing t.options t.rx (min (buffered t.rx) len), tx := tx}) :
    P (tcpRecv t len mss) := by
  rw [tcpRecv]
  split_ifs
  · rw [recvLocked]
    split_ifs with hshut
    · exact h
    split
    · refine hread (by simpa using hshut) _ ?_
      split_ifs
      · exact .inr rfl
      · exact .inl rfl
    · exact hreset
    · exact h
  · exact h

end MoQiOS.Tcp
