import MoQiOS.TcpSendTraces

/-!
# Sequence numbers of the handshake

A SYN leaves with the number the send cursor has. Both opens put the cursor on
the initial sequence number first; the timeout of an active open does not, so
a SYN sent again carries the next number unless a probe has taken the cursor
back. Everything else a connection sends carries no SYN.
-/

namespace MoQiOS.Tcp
open SerialNumbers RingMemory Runs List

def SynsAtIss (t : Sender) : Prop := ∀ e ∈ t.sent, e.flags.syn = true → e.seq = t.iss

variable {t' : Sender}

lemma Plain.synsAtIss {t : Sender} (h : Plain t t') (hs : SynsAtIss t) : SynsAtIss t' := by
  intro e he hsyn
  rw [h.iss]
  rcases h.sent e he with hold | hno
  · exact hs e hold hsyn
  · rw [hno] at hsyn
    cases hsyn

variable {t : Tcb} {p : Packet}

lemma rackRepair_onward (o : Options) (k : Tick) (t : Sender) :
    Onward t (maybeRackTimerRepair o k t) := by
  rw [maybeRackTimerRepair]
  split
  · exact Onward.refl t
  split_ifs
  · exact (flush_onward _ _).behind rfl
  · exact Onward.refl t

lemma retransmit_plain (hs : t.state ≠ .synSent) : Plain t.tx (retransmit t).tx := by
  have hmax : Plain t.tx (maxCatchUp t.tx) := plain_of rfl rfl
  simp only [retransmit]
  split_ifs
  · exact hmax.trans (((flush_onward _ _).trans (resendFin_onward _ _)).plainBehind rfl rfl)
  · exact hmax.trans ((sendSegment_onward _ .finAck rfl []).plainBehind rfl rfl)
  · exact hmax

lemma beforeTimeout_onward (k : Tick) (t : Tcb) : Onward t.tx (beforeTimeout k t) := by
  rw [beforeTimeout]
  split_ifs
  · exact (rackRepair_onward _ k _).trans (sendTlpProbe_onward _ _)
  · exact rackRepair_onward _ k _

variable {k : Tick}

lemma lossTimers_plain (h : t.state = .synSent → k.rtoDue = false) :
    Plain t.tx (lossTimers k t).tx := by
  have hbefore := (beforeTimeout_onward k t).toPlain
  rw [lossTimers_eq]
  split_ifs with hp hr
  · simp only [rtoExpired]
    have hclear : ∀ n, Plain t.tx (Tcb.tx {t with
        retransmitCount := n, tx := {beforeTimeout k t with scoreboard := []}}) :=
      fun n => ⟨hbefore.iss,hbefore.sent⟩
    split_ifs
    · exact hclear 0
    refine Plain.trans (hclear _) (retransmit_plain ?_)
    intro hs
    rw [h hs] at hr
    cases hr
  · exact hbefore
  · exact Plain.refl _

lemma tcpClose_plain (t : Tcb) : Plain t.tx (tcpClose t).tx := by
  simp only [tcpClose]
  split_ifs
  · exact Plain.refl _
  · exact Plain.refl _
  · exact (sendSegment_onward t.tx .rstAck rfl []).toPlain
  split
  · exact (maybeSendPendingFin_onward {t with refCount := 0, finPending := true}).toPlain
  · exact (maybeSendPendingFin_onward {t with refCount := 0, finPending := true}).toPlain
  · exact Plain.refl _

lemma tcpShutdown_plain (t : Tcb) (how : ShutHow) : Plain t.tx (tcpShutdown t how).tx := by
  have hfin : ∀ u : Tcb, Plain u.tx (requestFin u).tx :=
    fun u => (maybeSendPendingFin_onward {u with finPending := true}).toPlain
  simp only [tcpShutdown]
  split_ifs
  · exact Plain.refl _
  cases how with
  | rd => exact Plain.refl _
  | wr => simp only; split <;> first | exact hfin t | exact Plain.refl _
  | rdwr =>
    simp only
    split
    · exact hfin {t with rx := shutRead t.rx}
    · exact hfin {t with rx := shutRead t.rx}
    · exact Plain.refl _

lemma tcpRecv_plain (t : Tcb) (len mss : ℕ) : Plain t.tx (tcpRecv t len mss).tx := by
  refine tcpRecv_rule (P := fun u => Plain t.tx u.tx) len mss (.refl _) (.refl _) fun _ tx htx => ?_
  rcases htx with rfl | rfl
  · exact Plain.refl _
  · exact (sendAck_onward _).plainBehind rfl rfl

variable {e : Event}

lemma socketCall_plain (t : Tcb) (hp : ∀ p re, e ≠ .segment p re)
    (hk : ∀ k, e ≠ .tick k) : Plain t.tx (step t e).tx := by
  cases e with
  | segment p re => exact absurd rfl (hp p re)
  | tick k => exact absurd rfl (hk k)
  | send data =>
    simp only [step,tcpSend]
    split_ifs
    · exact Plain.refl _
    · exact (flush_onward _ _).plainBehind rfl rfl
  | sendStage data =>
    simp only [step,tcpSendStage]
    split_ifs <;> exact plain_of rfl rfl
  | sendFlush =>
    simp only [step,tcpSendFlush]
    split_ifs
    · exact (flush_onward _ _).toPlain
    · exact Plain.refl _
  | recv len mss => exact tcpRecv_plain t len mss
  | shutdown how => exact tcpShutdown_plain t how
  | close => exact tcpClose_plain t
  | setOptions o => exact Plain.refl _
  | flushCork =>
    simp only [step,tcpFlushCork]
    split_ifs
    · exact (flush_onward _ _).toPlain
    · exact Plain.refl _
  | flushAck =>
    simp only [step,tcpFlushAck]
    split_ifs
    · exact (sendAck_onward _).plainBehind rfl rfl
    · exact Plain.refl _

variable {resent : ℕ}

lemma Live.hand_pending {t : Sender} (h : Live (.hand resent) t) : pending t = 0 := by
  obtain ⟨n,m,hc⟩ := h
  rw [hc.pending_eq,hc.hand_empty]
  omega

lemma Live.hand_board {t : Sender} (h : Live (.hand resent) t) : t.scoreboard = [] := by
  obtain ⟨n,m,hc⟩ := h
  rw [eq_nil_iff_forall_not_mem]
  intro b hb
  obtain ⟨l,r,_,_,hlr,hr⟩ := hc.blocks b hb
  rw [hc.hand_empty,Nat.min_zero] at hr
  omega

lemma rackHole_none {t : Sender} (h : t.scoreboard = []) (lost : Serial → Bool) (mss : UInt16)
    (guard : ℕ) (seq : Serial) : nextRackLostHoleFrom lost mss t guard seq = none := by
  induction guard generalizing seq with
  | zero => rfl
  | succ guard ih =>
    have hcover : coveringBlock t seq = none := by rw [coveringBlock,h]; rfl
    have hlost : rackSegLostAt lost t seq = false := by
      cases hl : rackSegLostAt lost t seq with
      | false => rfl
      | true => exact absurd h (rackSegLostAt_block hl)
    simp only [nextRackLostHoleFrom,hcover,hlost,ih,Bool.false_eq_true,if_false,ite_self]

/-- Before the handshake completes a probe finds nothing to send and leaves
the cursor on the SYN. -/
lemma beforeTimeout_hand (h : Live (.hand resent) t.tx)
    (hnxt : t.tx.nxt = t.tx.una) : (beforeTimeout k t).nxt = t.tx.una := by
  have hrack : maybeRackTimerRepair t.options k t.tx = t.tx := by
    rw [maybeRackTimerRepair,nextRackLostHole,rackHole_none h.hand_board]
  rw [beforeTimeout,hrack]
  split_ifs
  · have hhigh := restoreSendHigh_live h
    have hone := restoreSendHigh_onward t.tx
    simp only [sendTlpProbe]
    generalize restoreSendHigh t.tx = u at hhigh hone
    have hprep := prepareRexmitFromHole_live hhigh
    rw [if_pos hhigh.hand_pending,if_pos hprep.hand_pending,prepareRexmitFromHole,
      prepareRexmitFromSeq]
    obtain ⟨n,m,hc⟩ := hhigh
    obtain ⟨k',hk',hheld,_⟩ := nextRexmitSeqFrom_spec hc 64 0 (Nat.zero_le _)
    rw [hc.hand_empty] at hheld
    rw [after_zero,Nat.le_zero.mp hheld,after_zero] at hk'
    change nextRexmitSeqFrom u 64 u.una = _
    rw [hk',hone.una]
  · exact hnxt

lemma sendSyn_synsAtIss {t : Sender} (h : SynsAtIss t) (hnxt : t.nxt = t.iss) (flags : Flags) :
    SynsAtIss (sendSegment t flags []).2 := by
  rw [sendSegment]
  rcases sendSegmentSeq_cases t flags [] none with ⟨t',heq,ha⟩ | ⟨t',heq,ha⟩ <;> rw [heq]
  · exact (Onward.aside ha).toPlain.synsAtIss h
  · have hemit : SynsAtIss {t with sent := t.sent++[⟨t.nxt,flags,[]⟩]} := by
      intro e he hsyn
      rcases mem_append.mp he with hold | hnew
      · exact h e hold hsyn
      · rw [mem_singleton.mp hnew]
        exact hnxt
    exact (Onward.aside ha).toPlain.synsAtIss hemit

lemma lossTimers_synsAtIss (h : SendInv t) (hs : SynsAtIss t.tx)
    (hrto : t.state = .synSent → k.rtoDue = true → t.tx.nxt = t.tx.iss) :
    SynsAtIss (lossTimers k t).tx := by
  by_cases hsyn : t.state = .synSent ∧ k.rtoDue = true
  · have hhand := h.hand (.inl hsyn.1)
    have hbefore := beforeTimeout_onward k t
    have huna : t.tx.una = t.tx.iss := by
      obtain ⟨n,m,hc⟩ := hhand
      exact hc.left.1
    have hnxt := beforeTimeout_hand (k := k) hhand ((hrto hsyn.1 hsyn.2).trans huna.symm)
    have hheld : heldLen (beforeTimeout k t) = 0 := by
      obtain ⟨n,m,hc⟩ := hhand
      rw [heldLen,hbefore.head,hbefore.tail]
      exact hc.hand_empty
    have hsent := hbefore.toPlain.synsAtIss hs
    rw [lossTimers_eq]
    split_ifs
    · simp only [rtoExpired]
      split_ifs
      · exact hsent
      have hlen : ¬0 < heldLen (maxCatchUp {beforeTimeout k t with scoreboard := []}) :=
        Nat.not_lt.mpr (le_of_eq hheld)
      simp only [retransmit,if_neg hlen,hsyn.1,if_true]
      refine sendSyn_synsAtIss (by exact hsent) ?_ .SYN
      change (beforeTimeout k t).nxt = (beforeTimeout k t).iss
      rw [hnxt,hbefore.iss,huna]
    · exact hsent
    · exact hs
  · refine (lossTimers_plain ?_).synsAtIss hs
    intro hst
    rcases Bool.eq_false_or_eq_true k.rtoDue with hr | hr
    · exact absurd ⟨hst,hr⟩ hsyn
    · exact hr

lemma tick_synsAtIss (h : SendInv t) (hs : SynsAtIss t.tx)
    (hrto : t.state = .synSent → k.rtoDue = true → t.tx.nxt = t.tx.iss) :
    SynsAtIss (timerTickOne k t).tx := by
  have hloss := lossTimers_synsAtIss h hs hrto
  have hdelayed : SynsAtIss (delayedAckTimer k t.tx) := by
    rw [delayedAckTimer]
    split_ifs
    · exact ((sendAck_onward _).plainBehind rfl rfl).synsAtIss hs
    · exact hs
  simp only [timerTickOne]
  split
  · exact hs
  · split_ifs
    · exact hs
    · exact hdelayed
  · split_ifs <;> exact hs
  · split_ifs
    · exact hloss
    · exact (upkeep_heard k _).plain.synsAtIss hloss

def Logged (t : Sender) : Prop := ∀ e ∈ t.sent, Carries t.iss t.queued e

/-- When the handshake completes the cursor stands behind the SYN, and a SYN
is sent again with the cursor on it. -/
def SynSteady (t : Tcb) : Event → Prop
  | .segment p _ => t.state = .synSent ∨ t.state = .synReceived → p.flags.ack = true →
      p.ackNum = t.tx.nxt → t.tx.nxt = t.tx.iss+1
  | .tick k => t.state = .synSent → k.rtoDue = true → t.tx.nxt = t.tx.iss
  | _ => True

def SynNext (t : Tcb) (label : List Gate × Event) (t' : Tcb) : Prop :=
  SynSteady t label.2 ∧ ConnNext t label t'

/-- A connection that sends nothing more than acknowledgements and resets. -/
def Over (t : Tcb) : Prop := (t.state = .timeWait ∨ t.state = .closed) ∧ Logged t.tx

lemma sendEmpty_logged {t : Sender} (h : Logged t) (flags : Flags) :
    Logged (sendSegment t flags []).2 := by
  rw [sendSegment]
  rcases sendSegmentSeq_cases t flags [] none with ⟨t',heq,ha⟩ | ⟨t',heq,ha⟩ <;> rw [heq]
  · rw [ha]
    exact h
  · have hemit : Logged {t with sent := t.sent++[⟨t.nxt,flags,[]⟩]} := by
      intro e he
      rcases mem_append.mp he with hold | hnew
      · exact h e hold
      · rw [mem_singleton.mp hnew]
        exact carries_nil _ _ _ _
    change Logged t'
    rw [ha]
    exact hemit

lemma recv_over (h : Over t) (len mss : ℕ) : Over (tcpRecv t len mss) := by
  refine tcpRecv_rule len mss h h fun _ tx htx => ⟨h.1,?_⟩
  rcases htx with rfl | rfl
  · exact h.2
  · exact sendEmpty_logged (by exact h.2) .ACK

lemma drive_over (h : Over t) (re : Reaction) (p : Packet) :
    Over (driveTcbStateMachine t re p) := by
  rw [driveTcbStateMachine]
  split
  · obtain ⟨a,b,rfl⟩ := resetBy_some t ‹_›
    exact ⟨.inr rfl,h.2⟩
  rcases h.1 with hs | hs <;> rw [hs]
  · simp only [onTimeWait]
    split_ifs
    · exact ⟨.inl hs,sendEmpty_logged h.2 .ACK⟩
    · exact h
  · exact h

lemma step_over (h : Over t) (e : Event) : Over (step t e) := by
  have hdata : ¬(t.state = .established) ∧ ¬(t.state = .closeWait) := by
    rcases h.1 with hs | hs <;> rw [hs] <;> decide
  have hq : canQueueSend t = false := by simp [canQueueSend,hdata.1,hdata.2]
  have hclosed : ∀ t' : Tcb, t'.state = .closed → t'.tx = t.tx → Over t' := by
    intro t' hst htx
    exact ⟨.inr hst,by rw [htx]; exact h.2⟩
  cases e with
  | segment p re => exact drive_over h re p
  | tick k =>
    simp only [step,timerTickOne]
    rcases h.1 with hs | hs <;> rw [hs]
    · simp only
      split_ifs
      · exact hclosed _ rfl rfl
      · exact h
    · exact h
  | send data => simpa [step,tcpSend,hq] using h
  | sendStage data => simpa [step,tcpSendStage,hq] using h
  | sendFlush => simpa [step,tcpSendFlush,hdata.1,hdata.2] using h
  | recv len mss => exact recv_over h len mss
  | shutdown how =>
    simp only [step,tcpShutdown]
    split_ifs
    · exact h
    cases how with
    | rd => exact h
    | wr => rcases h.1 with hs | hs <;> rw [hs] <;> exact h
    | rdwr => rcases h.1 with hs | hs <;> rw [hs] <;> exact hclosed _ rfl rfl
  | close =>
    simp only [step,tcpClose]
    split_ifs
    · exact h
    · exact h
    · exact ⟨.inr rfl,sendEmpty_logged h.2 .rstAck⟩
    · rcases h.1 with hs | hs <;> rw [hs] <;> exact hclosed _ rfl rfl
  | setOptions o => exact h
  | flushCork => simpa [step,tcpFlushCork,hdata.1] using h
  | flushAck =>
    simp only [step,tcpFlushAck]
    split_ifs
    · refine ⟨h.1,sendEmpty_logged ?_ .ACK⟩
      exact h.2
    · exact h

lemma finsMeet (h : SendInv t) (hs : t.state = .finWait1)
    (hf : p.flags.fin = true) (ha : p.flags.ack = true) (hours : ourFinAcked t.tx p.ackNum = true)
    (re : Reaction) : SendInv (driveTcbStateMachine t re p) ∨ Over (driveTcbStateMachine t re p) := by
  have hlog : Logged t.tx := h.settled.log
  rw [driveTcbStateMachine]
  split
  · obtain ⟨a,b,rfl⟩ := resetBy_some t ‹_›
    exact .inl (h.closed rfl rfl)
  rw [hs]
  simp only [onFinWait1,hf,ha,hours,Bool.and_self,if_true]
  split_ifs
  · exact .inr ⟨.inr rfl,sendEmpty_logged hlog .rstAck⟩
  · exact .inl h
  · refine .inr ⟨.inl rfl,sendEmpty_logged ?_ .ACK⟩
    exact hlog

def SynInv (t : Tcb) : Prop := SynsAtIss t.tx ∧ (SendInv t ∨ Over t)

lemma step_synsAtIss (h : SynInv t) (hsteady : SynSteady t e) : SynsAtIss (step t e).tx := by
  obtain ⟨hs,hinv⟩ := h
  cases e with
  | segment p re => exact (drive_heard t re p).plain.synsAtIss hs
  | tick k =>
    rcases hinv with hsend | hover
    · exact tick_synsAtIss hsend hs hsteady
    simp only [step,timerTickOne]
    rcases hover.1 with hst | hst <;> rw [hst]
    · simp only
      split_ifs <;> exact hs
    · exact hs
  | _ => exact (socketCall_plain t (by simp) (by simp)).synsAtIss hs

lemma step_synInv (h : SynInv t) (hsteady : SynSteady t e) : SynInv (step t e) := by
  refine ⟨step_synsAtIss h hsteady,?_⟩
  rcases h.2 with hsend | hover
  · cases e with
    | segment p re =>
      by_cases hmeet : t.state = .finWait1 ∧ p.flags.fin = true ∧ p.flags.ack = true ∧
          ourFinAcked t.tx p.ackNum = true
      · exact finsMeet hsend hmeet.1 hmeet.2.1 hmeet.2.2.1 hmeet.2.2.2 re
      refine .inl (step_sendInv hsend ⟨hsteady,?_⟩)
      intro h1 h2 h3 h4
      exact absurd ⟨h1,h2,h3,h4⟩ hmeet
    | _ => exact .inl (step_sendInv hsend trivial)
  · exact .inr (step_over hover e)

lemma opened_synsAtIss (h : Opened SendClear t) : SynsAtIss t.tx := by
  cases h with
  | connect t iss _ _ _ =>
    refine sendSyn_synsAtIss ?_ rfl .SYN
    exact fun e he => absurd he not_mem_nil
  | accept reuse t iss p _ _ =>
    refine sendSyn_synsAtIss ?_ rfl .synAck
    exact fun e he => absurd he not_mem_nil

/-- Every SYN of a connection carries its initial sequence number, and every
byte of text sent at `1+k` behind it is the one queued at place `k`, if no
timer has moved the cursor when the handshake completes and a SYN is sent
again only with the cursor on it. -/
theorem handshake_numbers_agree {t₀ t : Tcb} (ho : Opened SendClear t₀) (hr : Reaches SynNext t₀ t) :
    (∀ e ∈ t.tx.sent, e.flags.syn = true → e.seq = t.tx.iss) ∧
    (∀ e ∈ t.tx.sent, ∀ j (hj : j < e.payload.length), ∃ k, ∃ hk : k < t.tx.queued.length,
      after e.seq j = after t.tx.iss (1+k) ∧ e.payload[j] = t.tx.queued[k]) := by
  have hinv : SynInv t := by
    apply invariant (I := SynInv) _ hr ⟨opened_synsAtIss ho,.inl (opened_sendInv ho)⟩
    intro s label u hs hn
    obtain ⟨hsteady,_,rfl⟩ := hn
    apply step_synInv
    · refine ⟨hs.1,?_⟩
      rcases hs.2 with hsend | hover
      · exact .inl (hsend.quiet rfl rfl (.inl rfl))
      · exact .inr hover
    · cases he : label.2 <;> rw [he] at hsteady <;> exact hsteady
  refine ⟨hinv.1,?_⟩
  rcases hinv.2 with hsend | hover
  · exact hsend.settled.log
  · exact hover.2

instance (t : Tcb) (e : Event) : Decidable (SynSteady t e ∧ Survives t e) := by
  apply Event.casesOn (motive := fun e => Decidable (SynSteady t e ∧ Survives t e)) e <;> intros <;>
    dsimp only [SynSteady, Survives] <;> infer_instance

/-- A probe takes the cursor back, the timeout sends the SYN again, the open
completes and a byte follows. -/
def probedOpen : List (List Gate × Event) :=
  [ticking true false, ticking false true, delivery synAckPacket, sending [97]]

theorem handshake_numbers_agree_probedOpen :
    ((run probedOpen (tcpConnectSocket freshSlot 500)).tx.sent.map
      (fun e => (e.seq,e.flags.syn,e.payload)) =
      [(500,true,[]),(500,true,[]),(501,false,[]),(501,false,[97])]) ∧
    ∀ e ∈ (run probedOpen (tcpConnectSocket freshSlot 500)).tx.sent, e.flags.syn = true →
      e.seq = (run probedOpen (tcpConnectSocket freshSlot 500)).tx.iss := by
  have hsteps : ∀ (t : Tcb) (label : List Gate × Event),
      SynSteady t label.2 ∧ Survives t label.2 →
      SynNext t label (step (withGates label.1 t) label.2) := fun _ _ h => ⟨h.1,h.2,rfl⟩
  refine ⟨by with_unfolding_all decide,(handshake_numbers_agree (fresh_clear 500) ?_).1⟩
  exact run_reaches (P := fun t e => SynSteady t e ∧ Survives t e) hsteps
    (by with_unfolding_all decide) (.start _ _)

/-- The timeout sends the SYN again one number further on; the peer answers
that one, and the first byte of text is two behind the initial number. -/
theorem resent_syn_moves : Opened SendClear (tcpConnectSocket freshSlot 500) ∧
    Reaches ConnNext (tcpConnectSocket freshSlot 500)
      (run resentSynLabels (tcpConnectSocket freshSlot 500)) ∧
    (run resentSynLabels (tcpConnectSocket freshSlot 500)).tx.iss = 500 ∧
    (run resentSynLabels (tcpConnectSocket freshSlot 500)).tx.sent.map
      (fun e => (e.seq,e.flags.syn,e.payload)) =
      [(500,true,[]),(501,true,[]),(502,false,[]),(502,false,[97])] :=
  ⟨fresh_clear 500,conn_run (by with_unfolding_all decide),by with_unfolding_all decide⟩

end MoQiOS.Tcp
