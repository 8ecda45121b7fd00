import MoQiOS.TcpSendRuns

/-!
# What the sending functions leave alone

Only an acknowledgement moves the left edge and the head of the ring, and only
an open and its timeout send a SYN. Every function of the sending half is
placed under one of two relations between the sender before and after it, and
so is every event of a connection.
-/

namespace MoQiOS.Tcp
open SerialNumbers RingMemory Runs

/-- Whatever left in between carries no SYN. -/
structure Plain (t t' : Sender) : Prop where
  iss : t'.iss = t.iss
  sent : ∀ e ∈ t'.sent, e ∈ t.sent ∨ e.flags.syn = false

/-- Besides, the left edge and the bytes in the ring stay. -/
structure Onward (t t' : Sender) : Prop extends Plain t t' where
  una : t'.una = t.una
  head : t'.head = t.head
  tail : t'.tail = t.tail
  buf : t'.buf = t.buf

variable (t : Sender)

lemma Plain.refl : Plain t t := ⟨rfl,fun _ he => .inl he⟩

lemma Plain.trans {t u v : Sender} (h : Plain t u) (h' : Plain u v) : Plain t v := by
  refine ⟨h'.iss.trans h.iss,fun e he => ?_⟩
  rcases h'.sent e he with hu | hs
  · exact h.sent e hu
  · exact .inr hs

lemma Onward.refl : Onward t t := ⟨Plain.refl t,rfl,rfl,rfl,rfl⟩

lemma Onward.trans {t u v : Sender} (h : Onward t u) (h' : Onward u v) : Onward t v :=
  ⟨h.toPlain.trans h'.toPlain,h'.una.trans h.una,h'.head.trans h.head,h'.tail.trans h.tail,
    h'.buf.trans h.buf⟩

lemma onward_of {t t' : Sender} (h : (t'.iss,t'.sent,t'.una,t'.head,t'.tail,t'.buf) =
    (t.iss,t.sent,t.una,t.head,t.tail,t.buf)) : Onward t t' := by
  simp only [Prod.mk.injEq] at h
  obtain ⟨hi,hs,h⟩ := h
  exact ⟨⟨hi,fun _ he => .inl (hs ▸ he)⟩,h.1,h.2.1,h.2.2.1,h.2.2.2⟩

lemma Onward.behind {t u v : Sender} (h : Onward u v) (hf : (u.iss,u.sent,u.una,u.head,u.tail,u.buf) =
    (t.iss,t.sent,t.una,t.head,t.tail,t.buf)) : Onward t v := (onward_of hf).trans h

lemma Onward.aside {t t' : Sender} (h : Aside t t') : Onward t t' := by
  rw [h]
  exact onward_of rfl

lemma emit_onward {e : Emission} (he : e.flags.syn = false) :
    Onward t {t with sent := t.sent++[e]} := by
  refine ⟨⟨rfl,fun e' he' => ?_⟩,rfl,rfl,rfl,rfl⟩
  rcases List.mem_append.mp he' with hold | hnew
  · exact .inl hold
  · rw [List.mem_singleton.mp hnew]
    exact .inr he

lemma advance_onward (flags : Flags) (len : ℕ) :
    Onward t (advanceSndNxt t flags len) := onward_of rfl

lemma attempt_onward (gate : Gate) (t : Sender) (flags : Flags) (hs : flags.syn = false)
    (payload : List UInt8) (seqOverride : Option Serial) :
    Onward t (attempt gate t flags payload seqOverride).2 := by
  rcases attempt_cases gate t flags payload seqOverride with ⟨t',heq,ha⟩ | ⟨t',heq,ha⟩ <;> rw [heq]
  · exact Onward.aside ha
  · exact ((emit_onward t hs).trans (Onward.aside ha)).trans (advance_onward t' _ _)

lemma sendSegmentSeq_onward (flags : Flags) (hs : flags.syn = false)
    (payload : List UInt8) (seqOverride : Option Serial) :
    Onward t (sendSegmentSeq t flags payload seqOverride).2 := by
  rcases sendSegmentSeq_cases t flags payload seqOverride with ⟨t',heq,ha⟩ | ⟨t',heq,ha⟩ <;> rw [heq]
  · exact Onward.aside ha
  · exact ((emit_onward t hs).trans (Onward.aside ha)).trans (advance_onward t' _ _)

lemma sendSegment_onward (flags : Flags) (hs : flags.syn = false)
    (payload : List UInt8) : Onward t (sendSegment t flags payload).2 :=
  sendSegmentSeq_onward t flags hs payload none

lemma sendAck_onward : Onward t (sendAck t) := sendSegment_onward t _ rfl []

lemma prepareRexmitRackOrHole_onward (lost : Serial → Bool) (mss : UInt16) (t : Sender) :
    Onward t (prepareRexmitRackOrHole lost mss t) := by
  rw [prepareRexmitRackOrHole]
  split <;> exact onward_of rfl

lemma restoreSendHigh_onward : Onward t (restoreSendHigh t) := by
  rw [restoreSendHigh]
  split_ifs <;> exact onward_of rfl

lemma skipSackedFrom_onward (guard : ℕ) (t : Sender) : Onward t (skipSackedFrom guard t) := by
  induction guard generalizing t with
  | zero => exact Onward.refl t
  | succ guard ih =>
    rw [skipSackedFrom]
    split
    · exact Onward.refl t
    simp only
    split_ifs
    · exact Onward.refl t
    · exact Onward.refl t
    · exact (ih _).behind rfl

variable (o : Options)

lemma flushWith_onward (gates : List Gate) (t : Sender) : Onward t (flushWith o gates t) := by
  induction gates generalizing t with
  | nil => exact onward_of rfl
  | cons gate gates ih =>
    have hskip : Onward t (skipSackedSendRange {t with gates := gates}) :=
      (skipSackedFrom_onward 64 {t with gates := gates}).behind rfl
    simp only [flushWith]
    generalize skipSackedSendRange {t with gates := gates} = u at hskip
    have hsend := attempt_onward gate u .ACK rfl
      (ringRead u.buf sendBufSize u.unacked (canSend gate u)) none
    split_ifs
    · exact hskip
    · exact hskip
    · exact hskip
    · exact hskip.trans (onward_of rfl)
    · exact hskip.trans (hsend.trans ((ih _).behind rfl))
    · exact hskip.trans hsend

lemma flush_onward (t : Sender) : Onward t (flushSendBuffer o t) :=
  flushWith_onward o t.gates t

lemma sendPersistProbe_onward : Onward t (sendPersistProbe t) := by
  have hsend := sendSegment_onward t .ACK rfl (ringRead t.buf sendBufSize t.unacked 1)
  simp only [sendPersistProbe]
  split_ifs
  · exact Onward.refl t
  · exact hsend.trans (onward_of rfl)
  · exact hsend

lemma sendTlpProbe_onward (t : Sender) : Onward t (sendTlpProbe o t) := by
  have hhigh := restoreSendHigh_onward t
  have hhole : ∀ u : Sender, Onward u (prepareRexmitFromHole u) :=
    fun u => onward_of rfl
  simp only [sendTlpProbe]
  split_ifs
  · exact hhigh.trans (hhole _)
  · exact (hhigh.trans (hhole _)).trans (flush_onward _ _)
  · exact hhigh.trans (flush_onward _ _)

lemma resendFin_onward (s : TcpState) (t : Sender) : Onward t (resendFinIfRewound s t) := by
  rw [resendFinIfRewound]
  split_ifs
  · exact sendSegment_onward t _ rfl []
  · exact Onward.refl t

lemma ackData_onward (quick : Bool) (t : Sender) : Onward t (ackData quick t) := by
  rcases ackData_quiet quick t with ha | ⟨u,ha,heq⟩
  · exact Onward.aside ha
  · rw [heq]
    exact (Onward.aside ha).trans (sendAck_onward u)

lemma processIncomingData_onward (t : Tcb) (data : List UInt8) (seq : Serial) :
    Onward t.tx (processIncomingData t data seq).tx := by
  rw [processIncomingData]
  split_ifs
  · exact (Onward.aside (reportOutOfOrder_aside _ _ _ _)).trans (sendAck_onward _)
  · exact (sendAck_onward _).behind rfl
  · exact ackData_onward _ _

lemma text_onward (t : Tcb) (p : Packet) :
    Onward t.tx (if 0 < p.payload.length then processIncomingData t p.payload p.seq else t).tx := by
  split_ifs
  · exact processIncomingData_onward t _ _
  · exact Onward.refl _

lemma sendPendingFin_onward (t : Tcb) (next : TcpState) :
    Onward t.tx (sendPendingFin t next).tx := by
  have hflush : Onward t.tx (flushSendBufferForFin t.options t.tx) := flush_onward _ _
  simp only [sendPendingFin]
  generalize flushSendBufferForFin t.options t.tx = u at hflush
  have hfin := sendSegment_onward u .finAck rfl []
  split_ifs
  · exact hflush
  · exact (hflush.trans hfin).trans (onward_of rfl)
  · exact hflush.trans hfin

lemma maybeSendPendingFin_onward (t : Tcb) : Onward t.tx (maybeSendPendingFin t).tx := by
  rw [maybeSendPendingFin]
  split_ifs
  · exact Onward.refl _
  split
  · exact sendPendingFin_onward t _
  · exact sendPendingFin_onward t _
  · exact Onward.refl _

lemma establishedFin_onward (t : Tcb) (p : Packet) : Onward t.tx (establishedFin t p).tx := by
  rw [establishedFin]
  split_ifs
  · exact (sendAck_onward _).behind rfl
  · exact Onward.refl _

lemma processNewAck_onward (re : Reaction) (t : Sender) (p : Packet) :
    Onward {t with una := p.ackNum, head := (t.head+(p.ackNum-t.una).toNat)%sendBufSize}
      (processNewAck o re t p) := by
  simp only [processNewAck]
  generalize hu : updateScoreboard
    {t with una := p.ackNum, head := (t.head+(p.ackNum-t.una).toNat)%sendBufSize} p.sackBlocks = u
  have hstart : Onward {t with
      una := p.ackNum, head := (t.head+(p.ackNum-t.una).toNat)%sendBufSize} u := by
    rw [← hu]
    exact onward_of rfl
  have hnagle : Onward u (if (u.naglePending && decide (u.nxt = u.una)) = true then
      flushSendBuffer o {u with naglePending := false} else u) := by
    split_ifs
    · exact (flush_onward _ _).behind rfl
    · exact Onward.refl u
  generalize (if (u.naglePending && decide (u.nxt = u.una)) = true then
      flushSendBuffer o {u with naglePending := false} else u) = v at hnagle
  have hv := hstart.trans hnagle
  cases re.onAck with
  | undo => exact hv
  | sendNew => exact hv.trans ((restoreSendHigh_onward v).trans (flush_onward o _))
  | proportional => exact hv.trans (flush_onward o v)
  | grow => exact hv

lemma processDupAck_onward (re : Reaction) (t : Sender) (p : Packet) :
    Onward t (processDupAck o re t p) := by
  simp only [processDupAck]
  have hboard : Onward t (if 0 < p.sackBlocks.length then updateScoreboard t p.sackBlocks else t) := by
    split_ifs <;> exact onward_of rfl
  generalize (if 0 < p.sackBlocks.length then updateScoreboard t p.sackBlocks else t) = u at hboard
  cases re.onDup with
  | enterRecovery =>
    simp only
    split_ifs
    · exact hboard.trans ((prepareRexmitRackOrHole_onward _ _ u).trans (flush_onward o _))
    · exact hboard
  | recovering =>
    refine hboard.trans (Onward.trans ?_ (flush_onward o _))
    split_ifs
    · exact prepareRexmitRackOrHole_onward _ _ u
    · exact Onward.refl u
  | count => exact hboard

lemma plain_of {t t' : Sender} (hi : t'.iss = t.iss) (hs : t'.sent = t.sent) : Plain t t' :=
  ⟨hi,fun _ he => .inl (hs ▸ he)⟩

lemma Onward.plainBehind {t u v : Sender} (h : Onward u v) (hi : u.iss = t.iss)
    (hs : u.sent = t.sent) : Plain t v := (plain_of hi hs).trans h.toPlain

lemma processAck_plain (t : Tcb) (re : Reaction) (p : Packet) :
    Plain t.tx (processAck t re p).tx :=
  processAck_rule re p (.refl _)
    (fun _ => (processNewAck_onward t.options re t.tx p).plainBehind rfl rfl)
    (processDupAck_onward t.options re t.tx p).toPlain (fun _ hu => hu.trans (plain_of rfl rfl))
    (fun o u hu => hu.trans (flush_onward o u).toPlain)

lemma retire_plain (t : Sender) (ackNum : Serial) (acked : ℕ) : Plain t (retire t ackNum acked) := by
  simp only [retire]
  split_ifs <;> exact plain_of rfl rfl

lemma absorb_plain (t : Tcb) (ackNum : Serial) (window : ℕ) :
    Plain t.tx (absorbDataAckBeforeFin t ackNum window).tx := by
  have hretire : ∀ a, Plain t.tx (retire {t.tx with wnd := window} ackNum a) :=
    fun a => ⟨(retire_plain _ ackNum a).iss,(retire_plain _ ackNum a).sent⟩
  have hfin : ∀ (s : TcpState) (u : Sender), Plain t.tx u →
      Plain t.tx (resendFinIfRewound s (flushSendBufferForFin t.options u)) :=
    fun s u hu => hu.trans ((flush_onward _ u).trans (resendFin_onward s _)).toPlain
  simp only [absorbDataAckBeforeFin]
  split_ifs
  · exact hfin _ _ (hretire _)
  · exact hfin _ _ (plain_of rfl rfl)
  · exact hretire _
  · exact plain_of rfl rfl

/-- The references stay, a connection with references keeps its slot, and only
a handshake leads to the established state. -/
structure Attended (t t' : Tcb) : Prop where
  refs : t'.refCount = t.refCount
  active : t.refCount ≠ 0 → t'.active = t.active
  state : t'.state = t.state ∨
    (t'.state = .established ∧ (t.state = .synSent ∨ t.state = .synReceived)) ∨
    (t'.state ≠ .established ∧ t'.state ≠ .synReceived ∧ t'.state ≠ .synSent)

variable (t : Tcb)

lemma Attended.refl : Attended t t := ⟨rfl,fun _ => rfl,.inl rfl⟩

lemma Attended.trans {t u v : Tcb} (h : Attended t u) (h' : Attended u v) : Attended t v := by
  refine ⟨h'.refs.trans h.refs,fun hr => ?_,?_⟩
  · rw [h'.active (by rw [h.refs]; exact hr),h.active hr]
  · rcases h'.state with hs | ⟨hs,hu⟩ | hs
    · rw [hs]
      exact h.state
    · rcases h.state with hs' | ⟨hs',_⟩ | ⟨_,h2,h3⟩
      · exact .inr (.inl ⟨hs,hs' ▸ hu⟩)
      · rw [hs'] at hu
        rcases hu with hu | hu <;> cases hu
      · rcases hu with hu | hu
        · exact absurd hu h3
        · exact absurd hu h2
    · exact .inr (.inr hs)

lemma attended_of {t t' : Tcb} (hr : t'.refCount = t.refCount) (ha : t'.active = t.active)
    (hs : t'.state = t.state) : Attended t t' := ⟨hr,fun _ => ha,.inl hs⟩

lemma attended_leaves {t t' : Tcb} (hr : t'.refCount = t.refCount) (ha : t'.active = t.active)
    (hs : t'.state ≠ .established ∧ t'.state ≠ .synReceived ∧ t'.state ≠ .synSent) :
    Attended t t' := ⟨hr,fun _ => ha,.inr (.inr hs)⟩

lemma Passive.attended {t t' : Tcb} (h : Passive t t') : Attended t t' := by
  refine ⟨h.refs,h.active,?_⟩
  rcases h.frame.2 with hs | hs | ⟨-,hs⟩ | ⟨-,hs⟩
  · exact .inl hs
  all_goals exact .inr (.inr (by simp [hs]))

lemma closeTcbRemote_attended {t u : Tcb} (hr : u.refCount = t.refCount)
    (ha : u.active = t.active) : Attended t (closeTcbRemote u) := by
  refine ⟨hr,fun h => ?_,.inr (.inr ⟨by simp [closeTcbRemote],by simp [closeTcbRemote],
    by simp [closeTcbRemote]⟩)⟩
  simp [closeTcbRemote,hr,ha,h]

lemma processIncomingData_attended (data : List UInt8) (seq : Serial) :
    Attended t (processIncomingData t data seq) := by
  rw [processIncomingData]
  split_ifs <;> exact attended_of rfl rfl rfl

lemma text_attended (p : Packet) :
    Attended t (if 0 < p.payload.length then processIncomingData t p.payload p.seq else t) := by
  split_ifs
  · exact processIncomingData_attended t _ _
  · exact Attended.refl t

lemma establishedFin_attended (p : Packet) : Attended t (establishedFin t p) := by
  rw [establishedFin]
  split_ifs
  · exact attended_leaves rfl rfl (by simp)
  · exact Attended.refl t

structure Heard (t t' : Tcb) : Prop extends Attended t t' where
  plain : Plain t.tx t'.tx

lemma Heard.refl : Heard t t := ⟨.refl t,.refl _⟩

lemma Heard.trans {t u v : Tcb} (h : Heard t u) (h' : Heard u v) : Heard t v :=
  ⟨h.toAttended.trans h'.toAttended,h.plain.trans h'.plain⟩

lemma text_heard (p : Packet) :
    Heard t (if 0 < p.payload.length then processIncomingData t p.payload p.seq else t) :=
  ⟨text_attended t p,(text_onward t p).toPlain⟩

lemma absorb_heard (ackNum : Serial) (window : ℕ) :
    Heard t (absorbDataAckBeforeFin t ackNum window) :=
  ⟨(absorb_same t _ _).passive.attended,absorb_plain t _ _⟩

lemma maybeSendPendingFin_heard : Heard t (maybeSendPendingFin t) :=
  ⟨(maybeSendPendingFin_passive t).attended,(maybeSendPendingFin_onward t).toPlain⟩

lemma onEstablished_heard (re : Reaction) (p : Packet) : Heard t (onEstablished t re p) := by
  have hack : Heard t (if p.flags.ack = true then processAck t re p else t) := by
    split_ifs
    · exact ⟨(processAck_same t re p).passive.attended,processAck_plain t re p⟩
    · exact .refl t
  have hfin : ∀ u, Heard u (establishedFin u p) :=
    fun u => ⟨establishedFin_attended u p,(establishedFin_onward u p).toPlain⟩
  rw [onEstablished]
  by_cases hrst : (p.flags.rst && inWindow t p) = true
  · rw [if_pos hrst]
    exact ⟨closeTcbRemote_attended rfl rfl,.refl _⟩
  rw [if_neg hrst]
  exact hack.trans ((text_heard _ p).trans ((hfin _).trans (maybeSendPendingFin_heard _)))

lemma onFinWait1_heard (p : Packet) : Heard t (onFinWait1 t p) := by
  have habs := absorb_heard {t with rx := takeFin t.rx} p.ackNum p.window
  simp only [onFinWait1]
  split_ifs
  · exact ⟨closeTcbRemote_attended rfl rfl,(sendSegment_onward t.tx .rstAck rfl []).toPlain⟩
  · exact .refl t
  · exact ⟨attended_leaves rfl rfl (by simp),(sendAck_onward _).plainBehind rfl rfl⟩
  · exact ⟨⟨habs.refs,habs.active,.inr (.inr (by simp))⟩,habs.plain.trans (sendAck_onward _).toPlain⟩
  · exact ⟨attended_leaves rfl rfl (by simp),(sendAck_onward _).toPlain⟩
  · exact absorb_heard t _ _
  · exact ⟨attended_leaves rfl rfl (by simp),plain_of rfl rfl⟩
  · exact .refl t

lemma onFinWait2_heard (p : Packet) : Heard t (onFinWait2 t p) := by
  have htext := text_heard t p
  simp only [onFinWait2]
  generalize (if 0 < p.payload.length then processIncomingData t p.payload p.seq else t) = u at htext
  split_ifs
  · exact ⟨closeTcbRemote_attended rfl rfl,(sendSegment_onward t.tx .rstAck rfl []).toPlain⟩
  · exact htext.trans ⟨attended_leaves rfl rfl (by simp),(sendAck_onward _).toPlain⟩
  · exact htext

lemma onCloseWait_heard (p : Packet) : Heard t (onCloseWait t p) := by
  have htext := text_heard t p
  simp only [onCloseWait]
  generalize (if 0 < p.payload.length then processIncomingData t p.payload p.seq else t) = u at htext
  split_ifs
  · exact htext.trans ((absorb_heard u _ _).trans (maybeSendPendingFin_heard _))
  · exact htext

lemma drive_heard (re : Reaction) (p : Packet) : Heard t (driveTcbStateMachine t re p) := by
  rw [driveTcbStateMachine]
  split
  · obtain ⟨a,b,rfl⟩ := resetBy_some t ‹_›
    exact ⟨closeTcbRemote_attended rfl rfl,.refl _⟩
  split
  · simp only [onSynSent]
    split_ifs
    · exact .refl t
    · exact ⟨⟨rfl,fun _ => rfl,.inr (.inl ⟨rfl,.inl ‹_›⟩)⟩,(sendAck_onward _).plainBehind rfl rfl⟩
    · exact ⟨closeTcbRemote_attended rfl rfl,(sendSegment_onward t.tx .RST rfl []).toPlain⟩
    · exact .refl t
  · simp only [onSynReceived]
    split_ifs
    · exact ⟨⟨rfl,fun _ => rfl,.inr (.inl ⟨rfl,.inr ‹_›⟩)⟩,plain_of rfl rfl⟩
    · exact .refl t
  · exact onEstablished_heard t re p
  · exact onFinWait1_heard t p
  · exact onFinWait2_heard t p
  · simp only [onLastAck]
    split_ifs
    · exact .refl t
    · exact absorb_heard t _ _
    · exact ⟨closeTcbRemote_attended rfl rfl,.refl _⟩
  · exact onCloseWait_heard t p
  · simp only [onClosing]
    split_ifs
    · exact .refl t
    · exact ⟨attended_leaves rfl rfl (by simp),.refl _⟩
    · exact absorb_heard t _ _
  · simp only [onTimeWait]
    split_ifs
    · exact ⟨attended_of rfl rfl rfl,(sendAck_onward t.tx).toPlain⟩
    · exact .refl t
  · exact .refl t
  · exact .refl t

lemma upkeep_heard (k : Tick) (t : Tcb) : Heard t (upkeep k t) := by
  have hdelayed : Plain t.tx (delayedAckTimer k t.tx) := by
    rw [delayedAckTimer]
    split_ifs
    · exact (sendAck_onward _).plainBehind rfl rfl
    · exact .refl _
  have hpersist : Heard t (persistTimer k {t with tx := delayedAckTimer k t.tx}) := by
    rw [persistTimer]
    split_ifs
    · exact ⟨attended_of rfl rfl rfl,hdelayed.trans (sendPersistProbe_onward _).toPlain⟩
    · exact ⟨attended_of rfl rfl rfl,hdelayed⟩
  have hresume : ∀ u : Tcb, Heard u (resumeTimers k u) := by
    intro u
    simp only [resumeTimers]
    obtain ⟨v,hv⟩ : ∃ v, v = if (u.tx.naglePending && decide (u.tx.nxt = u.tx.una)) = true then
        flushSendBuffer u.options {u.tx with naglePending := false} else u.tx := ⟨_,rfl⟩
    have hnagle : Plain u.tx v := by
      rw [hv]
      split_ifs
      · exact (flush_onward _ _).plainBehind rfl rfl
      · exact .refl _
    rw [← hv]
    have hpace : ∀ b : Bool, Plain v (if b then flushSendBuffer u.options v else v) := by
      intro b
      split_ifs
      · exact (flush_onward _ _).toPlain
      · exact .refl _
    refine Heard.trans ?_ (maybeSendPendingFin_heard _)
    exact ⟨attended_of rfl rfl rfl,hnagle.trans (hpace _)⟩
  simp only [upkeep]
  split_ifs
  · cases k.keepalive with
    | idle => exact hpersist.trans (hresume _)
    | probe =>
      refine hpersist.trans (Heard.trans ?_ (hresume _))
      exact ⟨attended_of rfl rfl rfl,(sendSegmentSeq_onward _ .ACK rfl [] _).toPlain⟩
    | dead => exact hpersist.trans ⟨closeTcbRemote_attended rfl rfl,.refl _⟩
  · exact hpersist.trans (hresume _)

end MoQiOS.Tcp
