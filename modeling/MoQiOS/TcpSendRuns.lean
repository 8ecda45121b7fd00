import MoQiOS.TcpSendStates
import MoQiOS.TcpReceiveRuns

/-!
# Sent streams over whole runs

The timer and the socket calls keep the send cursors, so they are sound in
every state a connection reaches. A connection must start with an empty send
ring and no blocks left from the last one.
-/

namespace MoQiOS.Tcp
open SerialNumbers RingMemory Runs Bool Nat

variable {ph : Phase}

lemma maybeRackTimerRepair_live {t : Sender} (h : Live ph t) (o : Options)
    (k : Tick) : Live ph (maybeRackTimerRepair o k t) := by
  rw [maybeRackTimerRepair]
  split
  · exact h
  split_ifs
  · exact flushSendBuffer_live o (rackHole_live h k.lost k.mss ‹_›)
  · exact h

variable {n m : ℕ}

lemma Cursors.clearBoard {t : Sender} (h : Cursors ph n m t) :
    Cursors ph n m {t with scoreboard := []} := by
  have hleft := h.left
  refine ⟨h.head_lt,h.tail_lt,h.short,h.content,?_,h.nxt,h.max,h.cursor,h.order,h.small,h.bound,
    ?_,h.log⟩
  · cases ph <;> exact hleft
  · intro b hb
    cases hb

lemma Cursors.caughtUp {t : Sender} (h : Cursors ph n m t) : maxCatchUp t = t := by
  have hsmall := h.small
  have horder := h.order
  have hlt : seqLt t.max t.nxt = false := by
    rw [h.max,h.nxt,seqLt_after t.una (by omega) (by omega)]
    exact decide_eq_false (by omega)
  rw [maxCatchUp,hlt]
  rfl

lemma Cursors.finAgain {t : Sender} (h : Cursors .fin n m t) (hz : heldLen t = 0) :
    Live .fin (sendSegment {t with nxt := finSeq t} .finAck []).2 := by
  have hm : heldLen t+1 ≤ m := h.bound.2
  have hmove := h.move (k := heldLen t) le_rfl (by omega)
  have hcur : (t.head+heldLen t)%sendBufSize = t.unacked := by
    rw [h.cursor,hz,min_zero]
  rw [hcur] at hmove
  rw [finSeq]
  have hheld : heldLen t = heldLen {t with nxt := after t.una (heldLen t)} := by
    unfold heldLen
    exact rfl
  exact sendFin_again hmove hheld

variable {t : Tcb}

def beforeTimeout (k : Tick) (t : Tcb) : Sender :=
  if k.tlpDue then sendTlpProbe t.options (maybeRackTimerRepair t.options k t.tx)
  else maybeRackTimerRepair t.options k t.tx

lemma lossTimers_eq (k : Tick) (t : Tcb) : lossTimers k t =
    if unackedPending t.tx.una t.tx.nxt t.tx.max then
      if k.rtoDue then rtoExpired {t with tx := beforeTimeout k t}
      else {t with tx := beforeTimeout k t}
    else t := by
  rw [lossTimers,beforeTimeout]

lemma beforeTimeout_live (k : Tick) (h : Live ph t.tx) : Live ph (beforeTimeout k t) := by
  have hrepair := maybeRackTimerRepair_live h t.options k
  rw [beforeTimeout]
  split_ifs
  · exact sendTlpProbe_live t.options hrepair
  · exact hrepair

lemma retransmit_data (h : Live .data t.tx) (hs : finSent t.state = false)
    (hsyn : t.state ≠ .synSent) : Live .data (retransmit t).tx := by
  obtain ⟨n,m,hc⟩ := h
  rw [retransmit,hc.caughtUp]
  simp only [hs,hsyn,if_false,false_eq_true]
  split_ifs
  · simp only
    rw [resendFin_idle hs]
    exact flushSendBuffer_live _ (prepareRexmitFromHole_live ⟨n,m,hc⟩)
  · exact ⟨n,m,hc⟩

lemma retransmit_fin (h : Live .fin t.tx) (hs : finSent t.state = true) :
    Live .fin (retransmit t).tx := by
  obtain ⟨n,m,hc⟩ := h
  have hsyn : t.state ≠ .synSent := by
    intro hc
    rw [hc] at hs
    cases hs
  rw [retransmit,hc.caughtUp]
  simp only [hs,hsyn,if_false,if_true]
  split_ifs with hheld
  · exact resendFin_live _ (flushSendBuffer_live _ (prepareRexmitFromHole_live ⟨n,m,hc⟩))
  · exact hc.finAgain (by omega)

variable {resent : ℕ}

lemma retransmit_hand (h : Live (.hand resent) t.tx)
    (hs : finSent t.state = false) (hcount : resent ≤ 5) :
    Live (.hand (resent+1)) (retransmit t).tx := by
  obtain ⟨n,m,hc⟩ := h
  have hb : m ≤ 1+resent := hc.bound
  have horder := hc.order
  rw [retransmit,hc.caughtUp]
  simp only [hs,hc.hand_empty,lt_irrefl,if_false,false_eq_true]
  split_ifs
  · exact sendSyn_live hc _ .SYN rfl (by omega) (by omega) (by omega)
  · exact ⟨n,m,hc.head_lt,hc.tail_lt,hc.short,hc.content,hc.left,hc.nxt,hc.max,hc.cursor,hc.order,
      hc.small,le_trans hb (by omega),hc.blocks,hc.log⟩

lemma retransmit_count (t : Tcb) : (retransmit t).retransmitCount = t.retransmitCount := by
  rw [retransmit]
  split_ifs <;> rfl

variable {s : TcpState}

def Timed (s : TcpState) : Prop := s ≠ .closed ∧ s ≠ .finWait2 ∧ s ≠ .timeWait ∧ s ≠ .listen

lemma Timed.phase (h : Timed s) :
    (s = .synSent ∨ s = .synReceived) ∨ (s = .established ∨ s = .closeWait) ∨ finSent s = true := by
  cases s <;> simp_all [Timed,finSent]

lemma retransmit_inv (hcount : t.retransmitCount = resent+1) (hle : resent ≤ 5)
    (hphase : (t.state = .synSent ∨ t.state = .synReceived) ∧ Live (.hand resent) t.tx ∨
      (t.state = .established ∨ t.state = .closeWait) ∧ Live .data t.tx ∨
      finSent t.state = true ∧ Live .fin t.tx) : SendInv (retransmit t) := by
  have hstate := (retransmit_same t).state
  rcases hphase with ⟨hs,h⟩ | ⟨hs,h⟩ | ⟨hs,h⟩
  · apply sendInv_hand (by rw [hstate]; exact hs)
    rw [retransmit_count,hcount]
    apply retransmit_hand h _ hle
    rcases hs with hs | hs <;> rw [hs] <;> rfl
  · apply sendInv_data (by rw [hstate]; exact hs)
    rcases hs with hs | hs
    · exact retransmit_data h (by rw [hs]; rfl) (by rw [hs]; decide)
    · exact retransmit_data h (by rw [hs]; rfl) (by rw [hs]; decide)
  · apply sendInv_fin (by rw [hstate]; exact hs)
    exact retransmit_fin h hs

variable (h : SendInv t)
include h

lemma rtoExpired_inv (ht : Timed t.state) : SendInv (rtoExpired t) := by
  have hclear : ∀ ph, Live ph t.tx → Live ph {t.tx with scoreboard := []} := by
    intro ph hl
    obtain ⟨n,m,hc⟩ := hl
    exact ⟨n,m,hc.clearBoard⟩
  have hphase := ht.phase
  simp only [rtoExpired]
  by_cases hcount : 5 < t.retransmitCount+1
  · rw [if_pos hcount]
    apply sendInv_settled (.inr (.inr rfl))
    have hs := h.settled
    exact ⟨hs.order,hs.log⟩
  rw [if_neg hcount]
  apply retransmit_inv rfl (by omega)
  rcases hphase with hs | hs | hs
  · exact .inl ⟨hs,hclear _ (h.hand hs)⟩
  · exact .inr (.inl ⟨hs,hclear _ (h.data hs)⟩)
  · exact .inr (.inr ⟨hs,hclear _ (h.fin hs)⟩)

/-- What keeps the cursors in every phase keeps the invariant where a phase is
in force. -/
lemma SendInv.live {t' : Tcb} (hstate : t'.state = t.state)
    (hcount : t'.retransmitCount = t.retransmitCount)
    (ht : Timed t.state) (hlive : ∀ ph, Live ph t.tx → Live ph t'.tx) : SendInv t' := by
  rcases ht.phase with hs | hs | hs
  · apply sendInv_hand (hstate ▸ hs)
    rw [hcount]
    exact hlive _ (h.hand hs)
  · exact sendInv_data (hstate ▸ hs) (hlive _ (h.data hs))
  · exact sendInv_fin (hstate ▸ hs) (hlive _ (h.fin hs))

lemma lossTimers_inv (k : Tick) (ht : Timed t.state) : SendInv (lossTimers k t) := by
  have hprobe : SendInv {t with tx := beforeTimeout k t} :=
    h.live rfl rfl ht fun _ hl => beforeTimeout_live k hl
  rw [lossTimers_eq]
  split_ifs
  · exact rtoExpired_inv hprobe ht
  · exact hprobe
  · exact h

omit h

lemma delayedAckTimer_quiet (k : Tick) (t : Sender) : Quiet t (delayedAckTimer k t) := by
  rw [delayedAckTimer]
  split_ifs
  · exact quiet_ack rfl
  · exact .inl rfl

include h

lemma resumeTimers_inv (k : Tick) (ht : Timed t.state) : SendInv (resumeTimers k t) := by
  rw [resumeTimers]
  apply maybeSendPendingFin_inv
  refine h.live rfl rfl ht ?_
  intro ph hl
  obtain ⟨u,hu⟩ : ∃ u, u = if (t.tx.naglePending && decide (t.tx.nxt = t.tx.una)) = true then
      flushSendBuffer t.options {t.tx with naglePending := false} else t.tx := ⟨_,rfl⟩
  have hnagle : Live ph u := by
    rw [hu]
    split_ifs
    · exact flushSendBuffer_live _ (hl.aside rfl)
    · exact hl
  simp only [← hu]
  split_ifs
  · exact flushSendBuffer_live _ hnagle
  · exact hnagle

lemma persistTimer_inv (k : Tick) : SendInv (persistTimer k t) := by
  rw [persistTimer]
  split_ifs with hp
  · exact sendInv_data hp.1 (sendPersistProbe_live (h.data hp.1))
  · exact h

lemma upkeep_inv (k : Tick) (ht : Timed t.state) : SendInv (upkeep k t) := by
  have hack : SendInv {t with tx := delayedAckTimer k t.tx} :=
    h.quiet rfl rfl (delayedAckTimer_quiet k t.tx)
  have hp := persistTimer_inv hack k
  have hstate : (persistTimer k {t with tx := delayedAckTimer k t.tx}).state = t.state :=
    (persistTimer_same k _).state
  rw [upkeep]
  generalize persistTimer k {t with tx := delayedAckTimer k t.tx} = u at hp hstate
  rw [← hstate] at ht
  split_ifs
  · cases k.keepalive with
    | idle => exact resumeTimers_inv hp k ht
    | probe =>
      exact resumeTimers_inv (t := {u with tx := sendKeepaliveProbe u.tx})
        (hp.live rfl rfl ht (fun _ hl => sendKeepaliveProbe_live hl)) k ht
    | dead => exact closeTcbRemote_sendInv hp
  · exact resumeTimers_inv hp k ht

omit h

lemma Follows.stays {s' : TcpState} (h : Follows s s') (hc : s' ≠ .closed) (hs : Timed s) :
    Timed s' := by
  rcases h with rfl | h | ⟨_,rfl⟩ | ⟨_,rfl⟩
  · exact hs
  · exact absurd h hc
  · exact ⟨by decide,by decide,by decide,by decide⟩
  · exact ⟨by decide,by decide,by decide,by decide⟩

lemma timerTickOne_inv (h : SendInv t) (k : Tick) : SendInv (timerTickOne k t) := by
  have hlisten : t.state ≠ .listen := by
    intro hc
    rw [SendInv,hc] at h
    exact h
  rw [timerTickOne]
  split
  · exact h
  · split_ifs
    · exact closeTcbRemote_sendInv h
    · exact h.quiet rfl rfl (delayedAckTimer_quiet k t.tx)
  · split_ifs
    · exact closeTcbRemote_sendInv h
    · exact h
  · rename_i h1 h2 h3
    have hs : Timed t.state := ⟨h1,h2,h3,hlisten⟩
    have hloss := lossTimers_inv h k hs
    simp only
    split_ifs with hclosed
    · exact hloss
    · exact upkeep_inv hloss k ((lossTimers_passive k t).frame.2.stays hclosed hs)

lemma canQueueSend_state (h : canQueueSend t = true) :
    t.state = .established ∨ t.state = .closeWait := by
  simp only [canQueueSend,and_eq_true,or_eq_true,decide_eq_true_eq] at h
  exact h.1

include h

lemma tcpSend_inv (data : List UInt8) : SendInv (tcpSend t data) := by
  rw [tcpSend]
  split_ifs with hq
  · exact h
  simp only [not_eq_true,or_eq_false_iff,not_eq_false'] at hq
  have hs := canQueueSend_state hq.2
  exact sendInv_data hs (flushSendBuffer_live _ (queueData_live (h.data hs) t.options data))

lemma tcpSendStage_inv (data : List UInt8) : SendInv (tcpSendStage t data) := by
  rw [tcpSendStage]
  split_ifs with hq
  · exact h
  simp only [not_eq_true,or_eq_false_iff,not_eq_false'] at hq
  have hs := canQueueSend_state hq.2
  exact sendInv_data hs (queueData_live (h.data hs) t.options data)

lemma tcpSendFlush_inv : SendInv (tcpSendFlush t) := by
  rw [tcpSendFlush]
  split_ifs with hq
  · simp only [and_eq_true,or_eq_true,decide_eq_true_eq] at hq
    exact sendInv_data hq.2 (flushSendBuffer_live _ (h.data hq.2))
  · exact h

lemma tcpFlushCork_inv : SendInv (tcpFlushCork t) := by
  rw [tcpFlushCork]
  split_ifs with hq
  · simp only [and_eq_true,decide_eq_true_eq] at hq
    exact sendInv_data (.inl hq.2) (flushSendBuffer_live _ (h.data (.inl hq.2)))
  · exact h

lemma tcpFlushAck_inv : SendInv (tcpFlushAck t) := by
  rw [tcpFlushAck]
  split_ifs
  · exact h.quiet rfl rfl (quiet_ack rfl)
  · exact h

lemma tcpRecv_sendInv (len mss : ℕ) : SendInv (tcpRecv t len mss) := by
  refine tcpRecv_rule len mss h h fun _ tx htx => h.quiet rfl rfl ?_
  rcases htx with rfl | rfl
  · exact .inl rfl
  · exact quiet_ack rfl

lemma tcpShutdown_sendInv (how : ShutHow) : SendInv (tcpShutdown t how) := by
  simp only [tcpShutdown]
  split_ifs
  · exact h
  cases how with
  | rd => exact h
  | wr =>
    simp only
    split
    · exact requestFin_inv h
    · exact requestFin_inv h
    · exact h
  | rdwr =>
    simp only
    split
    · exact requestFin_inv (t := {t with rx := shutRead t.rx}) h
    · exact requestFin_inv (t := {t with rx := shutRead t.rx}) h
    · exact h.closed rfl rfl

lemma tcpClose_sendInv : SendInv (tcpClose t) := by
  simp only [tcpClose]
  by_cases ha : (!t.active) = true
  · rw [if_pos ha]
    exact h
  rw [if_neg ha]
  by_cases hr : 1 < t.refCount
  · rw [if_pos hr]
    exact h
  rw [if_neg hr]
  split_ifs
  · exact sendInv_settled (.inr (.inr rfl)) (sendPlain_settled h.settled .rstAck rfl rfl)
  split
  · exact requestFin_inv (t := {t with refCount := 0}) h
  · exact requestFin_inv (t := {t with refCount := 0}) h
  · exact h.closed rfl rfl

omit h

def Survives (t : Tcb) : Event → Prop
  | .segment p _ => traps t p = false
  | _ => True

def Steady (t : Tcb) : Event → Prop
  | .segment p _ => Unrewound t p
  | _ => True

def ConnNext (t : Tcb) (label : List Gate × Event) (t' : Tcb) : Prop :=
  Survives t label.2 ∧ t' = step (withGates label.1 t) label.2

def SteadyNext (t : Tcb) (label : List Gate × Event) (t' : Tcb) : Prop :=
  Steady t label.2 ∧ ConnNext t label t'

def SendClear (t : Tcb) : Prop :=
  t.tx.head < sendBufSize ∧ t.tx.tail = t.tx.head ∧ t.tx.unacked = t.tx.head ∧ t.tx.scoreboard = []

lemma start_cursors {t : Sender} (hlt : t.head < sendBufSize) (htail : t.tail = t.head)
    (hcur : t.unacked = t.head) (hboard : t.scoreboard = []) (huna : t.una = t.iss)
    (hnxt : t.nxt = t.iss) (hmax : t.max = t.iss) (hq : t.queued = []) (hsent : t.sent = []) :
    Cursors (.hand 0) 0 0 t := by
  have hheld : heldLen t = 0 := by
    rw [heldLen,htail,ringDataLen,sendBufSize_eq]
    omega
  refine ⟨hlt,htail ▸ hlt,?_,?_,⟨huna,hq⟩,?_,?_,?_,le_refl _,zero_le _,zero_le _,?_,?_⟩
  · rw [hheld]
    exact zero_le _
  · rw [hheld,hq]
    rfl
  · rw [after_zero,hnxt,huna]
  · rw [after_zero,hmax,huna]
  · rw [hcur,hheld,min_zero,add_zero,mod_eq_of_lt hlt]
  · intro b hb
    rw [hboard] at hb
    cases hb
  · intro e he
    rw [hsent] at he
    cases he

lemma opened_sendInv (h : Opened SendClear t) : SendInv t := by
  cases h with
  | connect t iss _ _ hready =>
    obtain ⟨hlt,htail,hcur,hboard⟩ := hready
    have hstart : Cursors (.hand 0) 0 0 {startSender t.tx iss with wnd := tcpWindow} :=
      start_cursors hlt htail hcur hboard rfl rfl rfl rfl rfl
    have hsyn := sendSyn_live hstart t.retransmitCount .SYN rfl (zero_le _)
      (zero_le _) (by decide)
    rw [tcpConnectSocket]
    simp only
    split_ifs
    · exact sendInv_hand (.inl rfl) hsyn
    · exact sendInv_settled (.inr (.inr rfl)) hsyn.settled
  | accept reuse t iss p _ hready =>
    obtain ⟨hlt,htail,hcur,hboard⟩ := hready
    have hstart : Cursors (.hand 0) 0 0 {startSender (initTcbState t).tx iss with
        wnd := if reuse then (initTcbState t).tx.wnd else tcpWindow
        tsEnabled := p.hasTimestamp
        sackPermitted := (initTcbState t).tx.sackPermitted || p.sackPermitted} :=
      start_cursors hlt htail hcur hboard rfl rfl rfl rfl rfl
    apply sendInv_hand (.inr rfl)
    exact sendSyn_live hstart _ .synAck rfl (zero_le _) (zero_le _) (by decide)

lemma step_sendInv {e : Event} (h : SendInv t) (hsteady : Steady t e) : SendInv (step t e) := by
  cases e with
  | segment p re => exact drive_sendInv h re hsteady
  | tick k => exact timerTickOne_inv h k
  | send data => exact tcpSend_inv h data
  | sendStage data => exact tcpSendStage_inv h data
  | sendFlush => exact tcpSendFlush_inv h
  | recv len mss => exact tcpRecv_sendInv h len mss
  | shutdown how => exact tcpShutdown_sendInv h how
  | close => exact tcpClose_sendInv h
  | setOptions o => exact h
  | flushCork => exact tcpFlushCork_inv h
  | flushAck => exact tcpFlushAck_inv h

/-- Every byte sent is the queued byte its sequence number names, and the three
cursors are in order. -/
def SentIntact (t : Sender) : Prop :=
  (∀ e ∈ t.sent, Carries t.iss t.queued e) ∧ seqLeq t.una t.nxt = true ∧ seqLeq t.nxt t.max = true

lemma Settled.intact {t : Sender} (h : Settled t) : SentIntact t := by
  obtain ⟨n,m,hnxt,hmax,hnm,hm⟩ := h.order
  refine ⟨h.log,?_,?_⟩
  · have hle := seqLeq_after t.una (n := 0) (k := n) (by omega) (by omega)
    rw [after_zero] at hle
    rw [hnxt,hle]
    exact decide_eq_true (zero_le n)
  · rw [hnxt,hmax,seqLeq_after t.una (by omega) (by omega)]
    exact decide_eq_true hnm

lemma reached_sendInv {t₀ : Tcb} (ho : Opened SendClear t₀) (hr : Reaches SteadyNext t₀ t) :
    SendInv t := by
  apply invariant (I := SendInv) _ hr (opened_sendInv ho)
  intro s label u hs hn
  obtain ⟨hsteady,_,rfl⟩ := hn
  apply step_sendInv
  · exact hs.quiet rfl rfl (.inl rfl)
  · cases he : label.2 <;> rw [he] at hsteady <;> exact hsteady

/-- The sent stream is intact in every state of every run in which no timer
has moved the cursor when the handshake completes or both FINs meet. -/
theorem sent_stream_intact {t₀ t : Tcb} (ho : Opened SendClear t₀)
    (hr : Reaches SteadyNext t₀ t) : SentIntact t.tx :=
  (reached_sendInv ho hr).settled.intact

def sending (data : List UInt8) : List Gate × Event := (openGates, .send data)

def ticking (tlpDue rtoDue : Bool) : List Gate × Event :=
  (openGates, .tick ⟨false,false,false,fun _ => false,1460,tlpDue,rtoDue,false,.idle,false⟩)

lemma listening_clear : Opened SendClear listening := by
  apply Opened.accept
  · decide
  · refine ⟨?_,rfl,rfl,rfl⟩
    rw [sendBufSize_eq]
    exact (by decide : 0 < 65536)

lemma no_text : ([] : List UInt8).length < 65536 := by decide

def bothFins : Packet := packet 101 503 .finAck [] no_text

/-- A tail loss probe sends the last byte again and leaves the cursor in front
of our FIN; the peer's FIN acknowledges it. -/
def probedLabels : List (List Gate × Event) :=
  [delivery handshakeAck, sending [97], (openGates, .close), ticking true false, delivery bothFins]

def laterSynAck : Packet := packet 100 502 .synAck [] no_text

/-- The SYN is sent again one sequence number further on. -/
def resentSynLabels : List (List Gate × Event) :=
  [ticking false true, delivery laterSynAck, sending [97]]

def firstSends : List (List Gate × Event) :=
  [delivery synAckPacket, sending [120], delivery resetPacket]

def unackedSocket : Tcb := run firstSends (tcpConnectSocket freshSlot 500)

def blockPacket : Packet := { handshakeAck with sackBlocks := [⟨505,510⟩] }
def earlyReset : Packet := packet 101 501 .RST [] no_text
def laterAck : Packet := packet 101 505 .ACK [] no_text

def sackedLabels : List (List Gate × Event) :=
  [delivery handshakeAck, sending [1,2,3,4,5,6,7,8,9,10], delivery blockPacket, delivery earlyReset,
    (openGates, .close)]

def sackedSlot : Tcb := run sackedLabels listening

def SteadySurvives (t : Tcb) (e : Event) : Prop := Steady t e ∧ Survives t e

section
variable {t : Tcb} {labels : List (List Gate×Event)}

lemma conn_run (h : Admissible Survives labels t) : Reaches ConnNext t (run labels t) :=
  run_reaches (fun _ _ hp => ⟨hp,rfl⟩) h (.start _ _)

lemma steady_run (h : Admissible SteadySurvives labels t) : Reaches SteadyNext t (run labels t) :=
  run_reaches (fun _ _ hp => ⟨hp.1,hp.2,rfl⟩) h (.start _ _)

end

/-- Slots a connection with an intact stream left behind. -/
def SentBefore (t : Tcb) : Prop :=
  ∃ t₀ u, Opened SendClear t₀ ∧ Reaches SteadyNext t₀ u ∧ (t = u ∨ t = initTcbState u)

lemma fresh_clear (iss : Serial) : Opened SendClear (tcpConnectSocket freshSlot iss) := by
  refine Opened.connect freshSlot iss rfl rfl ⟨?_,rfl,rfl,rfl⟩
  rw [sendBufSize_eq]
  exact (by decide : 0 < 65536)

instance (t : Tcb) (p : Packet) : Decidable (Unrewound t p) :=
  inferInstanceAs (Decidable (_ ∧ _))

instance (t : Tcb) (e : Event) : Decidable (SteadySurvives t e) := by
  cases e <;> dsimp only [SteadySurvives, Steady, Survives] <;> infer_instance

instance (t : Tcb) (e : Event) : Decidable (Survives t e) := by
  cases e <;> dsimp only [Survives] <;> infer_instance

instance decidableAdmissible (P : Tcb → Event → Prop) [∀ t e, Decidable (P t e)] :
    (labels : List (List Gate × Event)) → (t : Tcb) → Decidable (Admissible P labels t)
  | [], _ => isTrue trivial
  | label::rest, t =>
    have := decidableAdmissible P rest (step (withGates label.1 t) label.2)
    inferInstanceAs (Decidable (_ ∧ _))

lemma unackedSocket_used : SentBefore unackedSocket :=
  ⟨tcpConnectSocket freshSlot 500,unackedSocket,fresh_clear 500,
    steady_run (by with_unfolding_all decide),.inl rfl⟩

lemma sackedSlot_used : SentBefore (initTcbState sackedSlot) :=
  ⟨listening,sackedSlot,listening_clear,
    steady_run (by with_unfolding_all decide),.inr rfl⟩

lemma not_intact {t : Sender} (seq : Serial) (he : ∃ e ∈ t.sent, e.seq = seq ∧ 0 < e.payload.length)
    (hseq : ∀ k, k < t.queued.length → seq ≠ after t.iss (1+k)) : ¬SentIntact t := by
  intro h
  obtain ⟨e,hmem,rfl,hlen⟩ := he
  obtain ⟨k,hk,hk',_⟩ := h.1 e hmem 0 hlen
  rw [after_zero] at hk'
  exact hseq k hk hk'

/-- From a clean start a timer puts the cursors out of order or the first byte
at a wrong number; and steady runs are no help on a socket connected again with
a byte unacknowledged, or in a slot taken over with blocks on its scoreboard. -/
theorem sent_stream_broken :
    (∃ t, Opened SendClear listening ∧ Reaches ConnNext listening t ∧ ¬SentIntact t.tx) ∧
    (∃ t, Opened SendClear (tcpConnectSocket freshSlot 500) ∧
      Reaches ConnNext (tcpConnectSocket freshSlot 500) t ∧ ¬SentIntact t.tx) ∧
    (∃ t, Opened SentBefore (tcpConnectSocket unackedSocket 900) ∧
      Reaches SteadyNext (tcpConnectSocket unackedSocket 900) t ∧ ¬SentIntact t.tx) ∧
    (∃ t, Opened SentBefore (handleIncomingSyn false sackedSlot 504 synPacket) ∧
      Reaches SteadyNext (handleIncomingSyn false sackedSlot 504 synPacket) t ∧
      ¬SentIntact t.tx) := by
  refine ⟨⟨run probedLabels listening,listening_clear,?_,?_⟩,
    ⟨run resentSynLabels (tcpConnectSocket freshSlot 500),fresh_clear 500,?_,?_⟩,
    ⟨run [ticking false true] (tcpConnectSocket unackedSocket 900),?_,?_,?_⟩,
    ⟨run [delivery laterAck, sending [1,2,3,4,5]]
      (handleIncomingSyn false sackedSlot 504 synPacket),?_,?_,?_⟩⟩
  · exact conn_run (by with_unfolding_all decide)
  · intro h
    exact absurd h.2.1 (by with_unfolding_all decide)
  · exact conn_run (by with_unfolding_all decide)
  · apply not_intact 502
    · with_unfolding_all decide
    · with_unfolding_all decide
  · exact Opened.connect unackedSocket 900 (by with_unfolding_all decide)
      (by with_unfolding_all decide) unackedSocket_used
  · exact steady_run (by decide)
  · apply not_intact 900
    · with_unfolding_all decide
    · with_unfolding_all decide
  · exact Opened.accept false sackedSlot 504 synPacket (by decide) sackedSlot_used
  · exact steady_run (by with_unfolding_all decide)
  · intro h
    exact absurd h.2.2 (by with_unfolding_all decide)

def ackedText : Packet := packet 101 503 .ACK [] no_text

/-- A byte is lost and sent again by a probe before the rest is acknowledged. -/
def resendLabels : List (List Gate × Event) :=
  [delivery handshakeAck, sending [97,98], ticking true false, delivery ackedText, sending [99]]

theorem sent_stream_intact_resent :
    (run resendLabels listening).tx.sent.map (fun e => (e.seq,e.payload)) =
      [(500,[]),(501,[97,98]),(501,[97,98]),(503,[99])] ∧
    SentIntact (run resendLabels listening).tx :=
  ⟨by with_unfolding_all decide,sent_stream_intact listening_clear
    (steady_run (by with_unfolding_all decide))⟩

end MoQiOS.Tcp
