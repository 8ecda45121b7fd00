import MoQiOS.TcpSendAcks
import MoQiOS.TcpReceive

/-!
# The send cursors in every connection state

The phase of the cursors follows the state: handshake, data, FIN sent, and
states that send no more text. An incoming segment keeps them provided the
acknowledgement that completes the handshake, or answers our FIN together with
the peer's, does not meet a cursor that a timer has taken elsewhere.
-/

namespace MoQiOS.Tcp
open SerialNumbers RingMemory Bool

structure Settled (t : Sender) : Prop where
  order : ∃ n m, t.nxt = after t.una n ∧ t.max = after t.una m ∧ n ≤ m ∧ m ≤ 2^17
  log : ∀ e ∈ t.sent, Carries t.iss t.queued e

variable {ph : Phase}

lemma Live.settled {t : Sender} (h : Live ph t) : Settled t := by
  obtain ⟨n,m,hc⟩ := h
  exact ⟨⟨n,m,hc.nxt,hc.max,hc.order,hc.small⟩,hc.log⟩

lemma Settled.aside {t t' : Sender} (h : Settled t) (ha : Aside t t') : Settled t' := by
  rw [ha]
  exact ⟨h.order,h.log⟩

lemma sendPlain_settled {t : Sender} (h : Settled t) (flags : Flags) (hs : flags.syn = false)
    (hf : flags.fin = false) : Settled (sendSegment t flags []).2 := by
  have hlen : flags.length 0 = 0 := by simp [Flags.length,hs,hf]
  rw [sendSegment]
  rcases sendSegmentSeq_cases t flags [] none with ⟨t',heq,ha⟩ | ⟨t',heq,ha⟩
  · rw [heq]
    exact h.aside ha
  rw [heq]
  have h' : Settled t' := by
    apply Settled.aside _ ha
    refine ⟨h.order,?_⟩
    intro e he
    rcases List.mem_append.mp he with hold | hnew
    · exact h.log e hold
    · rw [List.mem_singleton.mp hnew]
      exact carries_nil _ _ _ _
  obtain ⟨n,m,hnxt,hmax,hnm,hm⟩ := h'.order
  rw [List.length_nil,advanceSndNxt_eq flags 0 hnxt hmax hm (by omega),hlen,Nat.add_zero,
    max_eq_left hnm]
  exact ⟨⟨n,m,rfl,rfl,hnm,hm⟩,h'.log⟩

def SendInv (t : Tcb) : Prop :=
  match t.state with
  | .synSent | .synReceived => Live (.hand t.retransmitCount) t.tx
  | .established | .closeWait => Live .data t.tx
  | .finWait1 | .closing | .lastAck => Live .fin t.tx
  | .finWait2 | .timeWait | .closed => Settled t.tx
  | .listen => False

variable {t t' : Tcb} {p : Packet} (h : SendInv t)
include h

lemma SendInv.settled : Settled t.tx := by
  rw [SendInv] at h
  split at h
  all_goals first | exact h.settled | exact h | exact h.elim

lemma SendInv.data (hs : t.state = .established ∨ t.state = .closeWait) : Live .data t.tx := by
  rw [SendInv] at h
  rcases hs with hs | hs <;> rw [hs] at h <;> exact h

lemma SendInv.fin (hs : finSent t.state = true) : Live .fin t.tx := by
  rw [SendInv] at h
  cases hst : t.state <;> rw [hst] at h hs <;> first | exact h | cases hs

lemma SendInv.hand (hs : t.state = .synSent ∨ t.state = .synReceived) :
    Live (.hand t.retransmitCount) t.tx := by
  rw [SendInv] at h
  rcases hs with hs | hs <;> rw [hs] at h <;> exact h

omit h

lemma sendInv_data (hs : t.state = .established ∨ t.state = .closeWait)
    (h : Live .data t.tx) : SendInv t := by
  rw [SendInv]
  rcases hs with hs | hs <;> rw [hs] <;> exact h

lemma sendInv_fin (hs : finSent t.state = true) (h : Live .fin t.tx) : SendInv t := by
  rw [SendInv]
  cases hst : t.state <;> rw [hst] at hs <;> first | exact h | cases hs

lemma sendInv_hand (hs : t.state = .synSent ∨ t.state = .synReceived)
    (h : Live (.hand t.retransmitCount) t.tx) : SendInv t := by
  rw [SendInv]
  rcases hs with hs | hs <;> rw [hs] <;> exact h

lemma sendInv_settled
    (hs : t.state = .finWait2 ∨ t.state = .timeWait ∨ t.state = .closed) (h : Settled t.tx) :
    SendInv t := by
  rw [SendInv]
  rcases hs with hs | hs | hs <;> rw [hs] <;> exact h

include h

lemma SendInv.map (hstate : t'.state = t.state)
    (hcount : t'.retransmitCount = t.retransmitCount)
    (hlive : ∀ ph, Live ph t.tx → Live ph t'.tx) (hsettled : Settled t.tx → Settled t'.tx) :
    SendInv t' := by
  rw [SendInv] at h ⊢
  rw [hstate,hcount]
  split at h
  all_goals first | exact hlive _ h | exact hsettled h | exact h

lemma SendInv.closed (hstate : t'.state = .closed)
    (htx : t'.tx = t.tx) : SendInv t' := by
  apply sendInv_settled (.inr (.inr hstate))
  rw [htx]
  exact h.settled

lemma closeTcbRemote_sendInv : SendInv (closeTcbRemote t) :=
  h.closed rfl rfl

omit h

/-- At most one acknowledgement without text. -/
def Quiet (t t' : Sender) : Prop := Aside t t' ∨ ∃ u, Aside t u ∧ t' = sendAck u

lemma SendInv.quiet (h : SendInv t) (hstate : t'.state = t.state)
    (hcount : t'.retransmitCount = t.retransmitCount) (hq : Quiet t.tx t'.tx) : SendInv t' := by
  rcases hq with ha | ⟨u,ha,heq⟩
  · exact h.map hstate hcount (fun _ hl => hl.aside ha) (fun hs => hs.aside ha)
  apply h.map hstate hcount <;> rw [heq]
  · exact fun _ hl => sendAck_live (hl.aside ha)
  · exact fun hs => sendPlain_settled (hs.aside ha) .ACK rfl rfl

lemma quiet_ack {t u : Sender} (h : Aside t u) : Quiet t (sendAck u) := .inr ⟨u,h,rfl⟩

variable {n m : ℕ}

lemma Cursors.drained {t : Sender} (h : Cursors .data n m t)
    (hd : t.unacked = t.tail) : n = heldLen t := by
  have hn : n ≤ heldLen t := h.bound
  have hlt := heldLen_lt t
  have hpend := h.pending_eq
  have hzero : pending t = 0 := by
    rw [pending,hd,ringDataLen,sendBufSize_eq]
    omega
  omega

lemma flushForFin_live (o : Options) {t : Sender} (h : Live ph t) :
    Live ph (flushSendBufferForFin o t) := flushSendBuffer_live _ h

lemma sendPendingFin_inv {next : TcpState} (h : Live .data t.tx)
    (hs : t.state = .established ∨ t.state = .closeWait) (hnext : finSent next = true) :
    SendInv (sendPendingFin t next) := by
  have hflush := flushForFin_live t.options h
  simp only [sendPendingFin]
  generalize flushSendBufferForFin t.options t.tx = u at hflush
  by_cases hd : u.unacked ≠ u.tail
  · rw [if_pos hd]
    exact sendInv_data hs hflush
  rw [if_neg hd]
  obtain ⟨n,m,hc⟩ := hflush
  have hn := hc.drained (not_not.mp hd)
  subst hn
  obtain ⟨hstay,hleave⟩ := sendFin_live hc (by intro _ hf; cases hf)
  split_ifs with hleft
  · exact sendInv_fin hnext ((hleave hleft).aside rfl)
  · exact sendInv_data hs (hstay (not_eq_true _ ▸ hleft))

lemma maybeSendPendingFin_inv (h : SendInv t) : SendInv (maybeSendPendingFin t) := by
  rw [maybeSendPendingFin]
  split_ifs
  · exact h
  split
  · exact sendPendingFin_inv (h.data (.inl ‹_›)) (.inl ‹_›) rfl
  · exact sendPendingFin_inv (h.data (.inr ‹_›)) (.inr ‹_›) rfl
  · exact h

lemma requestFin_inv (h : SendInv t) : SendInv (requestFin t) :=
  maybeSendPendingFin_inv (t := {t with finPending := true}) h

lemma sendFin_again {t : Sender} (h : Cursors .fin n m t) (hn : n = heldLen t) :
    Live .fin (sendSegment t .finAck []).2 := by
  subst hn
  obtain ⟨hstay,hleave⟩ := sendFin_live h (by intro _ hf; cases hf)
  cases hleft : (sendSegment t .finAck []).1 with
  | false => exact hstay hleft
  | true => exact hleave hleft

lemma resendFin_live (s : TcpState) {t : Sender} (h : Live .fin t) :
    Live .fin (resendFinIfRewound s t) := by
  obtain ⟨n,m,hc⟩ := h
  have hsmall := hc.small
  have horder := hc.order
  have hlt := heldLen_lt t
  rw [sendBufSize_eq] at hlt
  rw [resendFinIfRewound]
  split_ifs with hre
  · simp only [and_eq_true,decide_eq_true_eq] at hre
    have heq := hre.2
    rw [hc.nxt,finSeq] at heq
    exact sendFin_again hc (after_inj heq (by omega) (by omega))
  · exact ⟨n,m,hc⟩

lemma resendFin_idle {s : TcpState} (hs : finSent s = false) (t : Sender) :
    resendFinIfRewound s t = t := by
  rw [resendFinIfRewound,hs]
  rfl

lemma absorbed_live {t : Sender} (h : Live ph t) (ackNum : Serial) (limit : ℕ)
    (hph : ph = .data ∧ limit = (t.nxt-t.una).toNat ∨ ph = .fin ∧ limit = heldLen t)
    (hle : (ackNum-t.una).toNat ≤ limit) : Live ph (retire t ackNum (ackNum-t.una).toNat) := by
  obtain ⟨n,m,hc⟩ := h
  have hsmall := hc.small
  have horder := hc.order
  have hack := (after_distance t.una ackNum).symm
  generalize (ackNum-t.una).toNat = a at hack hle
  subst hack
  rcases hph with ⟨rfl,rfl⟩ | ⟨rfl,rfl⟩
  · have hn : n ≤ heldLen t := hc.bound
    rw [hc.nxt,distance_from_base t.una (by omega)] at hle
    exact retire_live hc (by intro _ hf; cases hf) (by omega) (by omega)
  · have hm : heldLen t+1 ≤ m := hc.bound.2
    exact retire_live hc (by intro _ hf; cases hf) hle (by omega)

lemma absorb_fin (h : Live .fin t.tx) (hs : finSent t.state = true) (ackNum : Serial)
    (window : ℕ) : Live .fin (absorbDataAckBeforeFin t ackNum window).tx := by
  have hw : Live .fin {t.tx with wnd := window} := h.aside rfl
  have hstep : ∀ u, Live .fin u → Live .fin
      (resendFinIfRewound t.state (flushSendBufferForFin t.options u)) :=
    fun u hu => resendFin_live t.state (flushForFin_live t.options hu)
  by_cases hack : (ackNum-t.tx.una).toNat ≠ 0 ∧
      (ackNum-t.tx.una).toNat ≤ heldLen {t.tx with wnd := window} ∧
      (ackNum-t.tx.una).toNat ≤ sendBufSize
  · simp only [absorbDataAckBeforeFin,hs,if_true,if_pos hack]
    exact hstep _ (absorbed_live hw ackNum _ (.inr ⟨rfl,rfl⟩) hack.2.1)
  · simp only [absorbDataAckBeforeFin,hs,if_true,if_neg hack]
    exact hstep _ hw

lemma absorb_data (h : Live .data t.tx) (hs : finSent t.state = false)
    (ackNum : Serial) (window : ℕ) : Live .data (absorbDataAckBeforeFin t ackNum window).tx := by
  have hw : Live .data {t.tx with wnd := window} := h.aside rfl
  by_cases hack : (ackNum-t.tx.una).toNat ≠ 0 ∧
      (ackNum-t.tx.una).toNat ≤ (t.tx.nxt-t.tx.una).toNat ∧ (ackNum-t.tx.una).toNat ≤ sendBufSize
  · simp only [absorbDataAckBeforeFin,hs,false_eq_true,if_false,if_pos hack]
    exact absorbed_live hw ackNum _ (.inl ⟨rfl,rfl⟩) hack.2.1
  · simp only [absorbDataAckBeforeFin,hs,false_eq_true,if_false,if_neg hack]
    exact hw

lemma absorb_inv (h : SendInv t) (hs : finSent t.state = true ∨ t.state = .closeWait)
    (ackNum : Serial) (window : ℕ) : SendInv (absorbDataAckBeforeFin t ackNum window) := by
  have hstate : (absorbDataAckBeforeFin t ackNum window).state = t.state :=
    (absorb_same t ackNum window).state
  rcases hs with hs | hs
  · apply sendInv_fin (hstate ▸ hs)
    exact absorb_fin (h.fin hs) hs ackNum window
  · apply sendInv_data (.inr (hstate.trans hs))
    exact absorb_data (h.data (.inr hs)) (by rw [hs]; rfl) ackNum window

omit h in
lemma processAck_rule {P : Sender → Prop} (re : Reaction) (p : Packet) (h : P t.tx)
    (hnew : (p.ackNum-t.tx.una).toNat ≤ (t.tx.nxt-t.tx.una).toNat →
      P (processNewAck t.options re t.tx p)) (hdup : P (processDupAck t.options re t.tx p))
    (hwnd : ∀ u, P u → P {u with wnd := p.window})
    (hflush : ∀ o u, P u → P (flushSendBuffer o u)) : P (processAck t re p).tx := by
  generalize hta : (if p.ackNum ≠ t.tx.una then
      if 0 < (p.ackNum-t.tx.una).toNat ∧ (p.ackNum-t.tx.una).toNat ≤ (t.tx.nxt-t.tx.una).toNat ∧
          (p.ackNum-t.tx.una).toNat ≤ sendBufSize then
        {t with tx := processNewAck t.options re t.tx p, retransmitCount := 0}
      else t
    else if p.payload.length = 0 then {t with tx := processDupAck t.options re t.tx p}
    else t) = ta
  have hstart : P ta.tx := by
    rw [← hta]
    split_ifs with _ hin
    · exact hnew hin.2.1
    · exact h
    · exact hdup
    · exact h
  simp only [processAck]
  rw [hta]
  split_ifs
  · exact hflush _ _ (hwnd _ hstart)
  · exact hwnd _ hstart

lemma processAck_live (h : Live .data t.tx) (re : Reaction) (p : Packet) :
    Live .data (processAck t re p).tx :=
  processAck_rule re p h (processNewAck_live h t.options re p) (processDupAck_live h t.options re p)
    (fun _ hu => hu.aside rfl) (fun o _ hu => flushSendBuffer_live o hu)

lemma reportDsack_aside (t : Sender) (left right : Serial) : Aside t (reportDsack t left right) := by
  rw [reportDsack]
  split_ifs <;> rfl

lemma reportOutOfOrder_aside (t : Sender) (seq : Serial) (len : ℕ) (rcvNxt : Serial) :
    Aside t (reportOutOfOrder t seq len rcvNxt) := by
  rw [reportOutOfOrder]
  split_ifs
  · split
    · exact reportDsack_aside _ _ _
    · rfl
    · exact reportDsack_aside _ _ _
  · rfl

lemma ackData_quiet (quick : Bool) (t : Sender) : Quiet t (ackData quick t) := by
  rw [ackData]
  split_ifs
  · exact quiet_ack rfl
  · exact quiet_ack rfl
  · exact .inl rfl

include h

lemma processIncomingData_inv (data : List UInt8) (seq : Serial) :
    SendInv (processIncomingData t data seq) := by
  rw [processIncomingData]
  split_ifs
  · exact h.quiet rfl rfl (quiet_ack (reportOutOfOrder_aside _ _ _ _))
  · exact h.quiet rfl rfl (quiet_ack rfl)
  · exact h.quiet rfl rfl (ackData_quiet _ _)

lemma text_inv (p : Packet) :
    SendInv (if 0 < p.payload.length then processIncomingData t p.payload p.seq else t) := by
  split_ifs
  · exact processIncomingData_inv h _ _
  · exact h

lemma establishedFin_sendInv (hs : t.state = .established) (p : Packet) :
    SendInv (establishedFin t p) := by
  rw [establishedFin]
  split_ifs
  · exact sendInv_data (.inr rfl) (sendAck_live ((h.data (.inl hs)).aside rfl))
  · exact h

lemma onEstablished_sendInv (hs : t.state = .established)
    (re : Reaction) (p : Packet) : SendInv (onEstablished t re p) := by
  rw [onEstablished]
  by_cases hr : (p.flags.rst && inWindow t p) = true
  · rw [if_pos hr]
    exact h.closed rfl rfl
  rw [if_neg hr]
  apply maybeSendPendingFin_inv
  generalize hta : (if p.flags.ack = true then processAck t re p else t) = ta
  have hstate : ta.state = .established := by
    rw [← hta]
    split_ifs
    · exact (processAck_same t re p).state.trans hs
    · exact hs
  have hack : SendInv ta := by
    apply sendInv_data (.inl hstate)
    rw [← hta]
    split_ifs
    · exact processAck_live (h.data (.inl hs)) re p
    · exact h.data (.inl hs)
  apply establishedFin_sendInv (text_inv hack p)
  split_ifs
  · rw [processIncomingData_state]
    exact hstate
  · exact hstate

omit h

variable {ackNum : Serial}

lemma Live.opened {resent : ℕ} {t : Sender} (h : Live (.hand resent) t)
    (hack : ackNum = t.nxt) (hnxt : t.nxt = t.iss+1) : Live .data {t with una := ackNum} := by
  obtain ⟨n,m,hc⟩ := h
  subst hack
  have hsmall := hc.small
  have horder := hc.order
  have hheld := hc.hand_empty
  have hn : n = 1 := by
    have heq : after t.una n = after t.una 1 := by
      rw [← hc.nxt,hnxt,hc.left.1,after_one]
    exact after_inj heq (by omega) (by omega)
  subst hn
  refine ⟨0,m-1,hc.head_lt,hc.tail_lt,hc.short,hc.content,?_,(after_zero _).symm,?_,?_,
    Nat.zero_le _,by omega,Nat.zero_le _,?_,hc.log⟩
  · change t.nxt = after t.iss (1+(t.queued.length-heldLen t))
    rw [hheld,hc.left.2,hnxt]
    exact (after_one t.iss).symm
  · change t.max = after t.nxt (m-1)
    have hsum : 1+(m-1) = m := by omega
    rw [hc.nxt,after_after,hsum]
    exact hc.max
  · change t.unacked = (t.head+min 0 (heldLen t))%sendBufSize
    rw [hc.cursor,hheld,Nat.min_zero,Nat.min_zero]
  · intro b hb
    obtain ⟨l,r,_,_,hlr,hrt⟩ := hc.blocks b hb
    rw [hheld] at hrt
    omega

include h

lemma onSynSent_sendInv (hs : t.state = .synSent)
    (hsteady : p.flags.ack = true → p.ackNum = t.tx.nxt → t.tx.nxt = t.tx.iss+1) :
    SendInv (onSynSent t p) := by
  have hhand := h.hand (.inl hs)
  rw [onSynSent]
  split_ifs with hsa hack
  · exact h
  · rw [and_eq_true] at hsa
    have heq := not_not.mp hack
    have hopen := hhand.opened heq (hsteady hsa.2 heq)
    exact sendInv_data (.inl rfl) (sendAck_live (hopen.aside rfl))
  · exact sendInv_settled (.inr (.inr rfl)) (sendPlain_settled hhand.settled .RST rfl rfl)
  · exact h

lemma onSynReceived_sendInv (hs : t.state = .synReceived)
    (hsteady : p.flags.ack = true → p.ackNum = t.tx.nxt → t.tx.nxt = t.tx.iss+1) :
    SendInv (onSynReceived t p) := by
  rw [onSynReceived]
  split_ifs with hsa
  · rw [and_eq_true,decide_eq_true_eq] at hsa
    have hopen := (h.hand (.inr hs)).opened hsa.2 (hsteady hsa.1 hsa.2)
    exact sendInv_data (.inl rfl) (hopen.aside rfl)
  · exact h

lemma rejectOrphan_sendInv : SendInv (rejectOrphan t) :=
  sendInv_settled (.inr (.inr rfl)) (sendPlain_settled h.settled .rstAck rfl rfl)

omit h

lemma Live.finAcked {t : Sender} (h : Live .fin t) (hack : ourFinAcked t ackNum = true) :
    ∃ m, t.max = after ackNum m ∧ m ≤ 2^17 := by
  obtain ⟨n,m,hc⟩ := h
  have hm : heldLen t+1 ≤ m := hc.bound.2
  have hsum : heldLen t+(1+(m-(heldLen t+1))) = m := by omega
  have hsmall := hc.small
  refine ⟨m-(heldLen t+1),?_,by omega⟩
  rw [ourFinAcked,decide_eq_true_eq] at hack
  rw [hack,finSeq,← after_one,after_after,after_after,hsum]
  exact hc.max

include h

lemma onFinWait1_sendInv (hs : t.state = .finWait1)
    (hsteady : p.flags.fin = true → p.flags.ack = true → ourFinAcked t.tx p.ackNum = true →
      t.tx.nxt = finSeq t.tx+1) : SendInv (onFinWait1 t p) := by
  have hfin := h.fin (by rw [hs]; rfl)
  simp only [onFinWait1]
  split_ifs with _ hf _ hacked _ _ hours
  · exact rejectOrphan_sendInv h
  · exact h
  · rw [and_eq_true] at hacked
    obtain ⟨m,hmax,hm⟩ := hfin.finAcked hacked.2
    have hnxt := hsteady hf hacked.1 hacked.2
    have hedge := hacked.2
    rw [ourFinAcked,decide_eq_true_eq] at hedge
    rw [← hedge] at hnxt
    have hs' : Settled {t.tx with una := p.ackNum} :=
      ⟨⟨0,m,by rw [after_zero]; exact hnxt,hmax,Nat.zero_le m,hm⟩,hfin.settled.log⟩
    exact sendInv_settled (.inr (.inl rfl)) (sendPlain_settled hs' .ACK rfl rfl)
  · apply sendInv_fin rfl
    exact sendAck_live (absorb_fin (t := {t with rx := takeFin t.rx}) hfin (by rw [hs]; rfl) _ _)
  · exact sendInv_fin rfl (sendAck_live hfin)
  · exact absorb_inv h (.inl (by rw [hs]; rfl)) _ _
  · obtain ⟨m,hmax,hm⟩ := hfin.finAcked (by simpa using hours)
    exact sendInv_settled (.inl rfl)
      ⟨⟨0,m,(after_zero _).symm,hmax,Nat.zero_le m,hm⟩,hfin.settled.log⟩
  · exact h

lemma onFinWait2_sendInv (p : Packet) : SendInv (onFinWait2 t p) := by
  have htext := text_inv h p
  simp only [onFinWait2]
  generalize (if 0 < p.payload.length then processIncomingData t p.payload p.seq else t) = u at htext
  split_ifs
  · exact rejectOrphan_sendInv h
  · exact sendInv_settled (.inr (.inl rfl)) (sendPlain_settled htext.settled .ACK rfl rfl)
  · exact htext

lemma onCloseWait_sendInv (hs : t.state = .closeWait) (p : Packet) :
    SendInv (onCloseWait t p) := by
  have htext := text_inv h p
  have hstate : (if 0 < p.payload.length then processIncomingData t p.payload p.seq else t).state =
      .closeWait := by
    split_ifs
    · rw [processIncomingData_state]
      exact hs
    · exact hs
  rw [onCloseWait]
  generalize (if 0 < p.payload.length then processIncomingData t p.payload p.seq else t) = u at htext hstate
  split_ifs
  · exact maybeSendPendingFin_inv (absorb_inv htext (.inr hstate) _ _)
  · exact htext

omit h

/-- No timer has moved the cursor when an acknowledgement completes the
handshake, or answers our FIN together with the peer's. -/
def Unrewound (t : Tcb) (p : Packet) : Prop :=
  (t.state = .synSent ∨ t.state = .synReceived → p.flags.ack = true → p.ackNum = t.tx.nxt →
    t.tx.nxt = t.tx.iss+1) ∧
  (t.state = .finWait1 → p.flags.fin = true → p.flags.ack = true →
    ourFinAcked t.tx p.ackNum = true → t.tx.nxt = finSeq t.tx+1)

lemma drive_sendInv (h : SendInv t) (re : Reaction)
    (hsteady : Unrewound t p) : SendInv (driveTcbStateMachine t re p) := by
  rw [driveTcbStateMachine]
  split
  · obtain ⟨a,b,rfl⟩ := resetBy_some t ‹_›
    exact h.closed rfl rfl
  split
  · exact onSynSent_sendInv h ‹_› (hsteady.1 (.inl ‹_›))
  · exact onSynReceived_sendInv h ‹_› (hsteady.1 (.inr ‹_›))
  · exact onEstablished_sendInv h ‹_› re p
  · exact onFinWait1_sendInv h ‹_› (hsteady.2 ‹_›)
  · exact onFinWait2_sendInv h p
  · rename_i hs
    rw [onLastAck]
    split_ifs
    · exact h
    · exact absorb_inv h (.inl (by rw [hs]; rfl)) _ _
    · exact h.closed rfl rfl
  · exact onCloseWait_sendInv h ‹_› p
  · rename_i hs
    rw [onClosing]
    split_ifs
    · exact h
    · exact sendInv_settled (.inr (.inl rfl)) h.settled
    · exact absorb_inv h (.inl (by rw [hs]; rfl)) _ _
  · rw [onTimeWait]
    split_ifs
    · exact h.quiet rfl rfl (quiet_ack rfl)
    · exact h
  · exact h
  · exact h

end MoQiOS.Tcp
