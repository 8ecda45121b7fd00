import MoQiOS.TcpSendTraces

/-!
# Acknowledgements of an established connection

An acknowledgement between the left edge and the send cursor becomes the left
edge, and the bytes it covers leave the ring, whatever else the segment does.
A timeout takes the cursor back, and from then until the cursor has caught up
an acknowledgement of what was sent before the timeout is passed over.
-/

namespace MoQiOS.Tcp
open SerialNumbers RingMemory Runs

def InRing (t : Sender) : Prop :=
  t.head < sendBufSize ∧ t.tail < sendBufSize ∧ (t.nxt-t.una).toNat ≤ heldLen t

lemma Live.inRing {t : Sender} (h : Live .data t) : InRing t := by
  obtain ⟨n,m,hc⟩ := h
  have horder := hc.order
  have hsmall := hc.small
  refine ⟨hc.head_lt,hc.tail_lt,?_⟩
  rw [hc.nxt,distance_from_base t.una (by omega)]
  exact hc.bound

lemma reached_inRing {t₀ t : Tcb} (ho : Opened SendClear t₀) (hr : Reaches SteadyNext t₀ t)
    (hs : t.state = .established) : InRing t.tx :=
  ((reached_sendInv ho hr).data (.inl hs)).inRing

def acknowledged (t : Sender) (ackNum : Serial) : Sender :=
  { t with una := ackNum, head := (t.head+(ackNum-t.una).toNat)%sendBufSize }

lemma processAck_acknowledged {t : Tcb} {p : Packet} (re : Reaction) (hne : p.ackNum ≠ t.tx.una)
    (hnxt : (p.ackNum-t.tx.una).toNat ≤ (t.tx.nxt-t.tx.una).toNat)
    (hfit : (p.ackNum-t.tx.una).toNat ≤ sendBufSize) :
    Onward (acknowledged t.tx p.ackNum) (processAck t re p).tx := by
  have hpos : 0 < (p.ackNum-t.tx.una).toNat := by
    rw [Nat.pos_iff_ne_zero]
    intro h0
    have := after_distance t.tx.una p.ackNum
    rw [h0,after_zero] at this
    exact hne this.symm
  have hnew := processNewAck_onward t.options re t.tx p
  simp only [processAck,if_pos hne,if_pos (⟨hpos,hnxt,hfit⟩ : _ ∧ _ ∧ _)]
  split_ifs
  · exact hnew.trans ((flush_onward _ _).behind rfl)
  · exact hnew.trans (onward_of rfl)

lemma onEstablished_onward {t : Tcb} {re : Reaction} {p : Packet} (hack : p.flags.ack = true)
    (hrst : (p.flags.rst && inWindow t p) = false) :
    Onward (processAck t re p).tx (onEstablished t re p).tx := by
  simp only [onEstablished,hack,hrst,if_true,Bool.false_eq_true,if_false]
  have htext := text_onward (processAck t re p) p
  generalize (if 0 < p.payload.length then
    processIncomingData (processAck t re p) p.payload p.seq else processAck t re p) = u at htext
  exact htext.trans ((establishedFin_onward u p).trans (maybeSendPendingFin_onward _))

lemma ring_shift {t : Sender} {a : ℕ} (h : InRing t) (ha : a ≤ heldLen t) :
    ringDataLen ((t.head+a)%sendBufSize) t.tail sendBufSize+a = heldLen t ∧
    held t.buf sendBufSize ((t.head+a)%sendBufSize)
      (ringDataLen ((t.head+a)%sendBufSize) t.tail sendBufSize) =
      (held t.buf sendBufSize t.head (heldLen t)).drop a := by
  rw [ring_advance h.1 h.2.1 ha,held_drop _ _ _ ha]
  exact ⟨by omega,rfl⟩

def byteGates (window : ℕ) : List Gate := List.replicate 4 ⟨1,window,false,true,true⟩

def sendTwo : List Gate × Event := (byteGates 1460, .send [97,98])

def timeout : List Gate × Event :=
  (byteGates 1, .tick ⟨false,false,false,fun _ => false,1,false,true,false,.idle,false⟩)

def twoSent : List (List Gate × Event) := [delivery handshakeAck, sendTwo]

def timedOut : List (List Gate × Event) := [delivery handshakeAck, sendTwo, timeout]

def plainReaction : Reaction := ⟨.grow,.count,fun _ => false,1460⟩

end MoQiOS.Tcp
