import MoQiOS.TcpRings

/-!
# The sent byte stream

Positions of the send cursors are counted from the oldest unacknowledged
sequence number. The ring holds the last bytes queued, the next byte to send
lies `n` and the highest sequence sent `m` behind the left edge, and the ring
cursor stands where the sequence cursor says.
-/

namespace MoQiOS.Tcp
open SerialNumbers RingMemory List Nat

/-- Before the handshake completes, while data may be queued, and once our FIN
has left. The handshake counts the SYNs sent again. -/
inductive Phase where
  | hand (resent : ℕ)
  | data
  | fin

def Phase.LeftEdge (ph : Phase) (t : Sender) : Prop :=
  match ph with
  | .hand _ => t.una = t.iss ∧ t.queued = []
  | _ => t.una = after t.iss (1+(t.queued.length-heldLen t))

def Phase.Bound (ph : Phase) (n m held : ℕ) : Prop :=
  match ph with
  | .hand resent => m ≤ 1+resent
  | .data => n ≤ held
  | .fin => n ≤ held+1 ∧ held+1 ≤ m

/-- Every byte of a segment is the queued byte its sequence number names. -/
def Carries (iss : Serial) (queued : List UInt8) (e : Emission) : Prop :=
  ∀ j (hj : j < e.payload.length), ∃ k, ∃ hk : k < queued.length,
    after e.seq j = after iss (1+k) ∧ e.payload[j] = queued[k]

def Within (una : Serial) (top : ℕ) (b : SackBlock) : Prop :=
  ∃ l r, b.left = after una l ∧ b.right = after una r ∧ l < r ∧ r ≤ top

structure Cursors (ph : Phase) (n m : ℕ) (t : Sender) : Prop where
  head_lt : t.head < sendBufSize
  tail_lt : t.tail < sendBufSize
  short : heldLen t ≤ t.queued.length
  content : held t.buf sendBufSize t.head (heldLen t) = t.queued.drop (t.queued.length-heldLen t)
  left : ph.LeftEdge t
  nxt : t.nxt = after t.una n
  max : t.max = after t.una m
  cursor : t.unacked = (t.head+min n (heldLen t))%sendBufSize
  order : n ≤ m
  small : m ≤ 2^17
  bound : ph.Bound n m (heldLen t)
  blocks : ∀ b ∈ t.scoreboard, Within t.una (min m (heldLen t)) b
  log : ∀ e ∈ t.sent, Carries t.iss t.queued e

def Live (ph : Phase) (t : Sender) : Prop := ∃ n m, Cursors ph n m t

def Aside (t t' : Sender) : Prop :=
  t' = { t with
    wnd := t'.wnd
    sackPermitted := t'.sackPermitted
    sackBlocks := t'.sackBlocks
    tsEnabled := t'.tsEnabled
    naglePending := t'.naglePending
    delayedAckPending := t'.delayedAckPending
    gates := t'.gates }

variable {ph : Phase} {n m : ℕ} {t : Sender} {t' : Sender}

lemma Cursors.aside (h : Cursors ph n m t) (ha : Aside t t') : Cursors ph n m t' := by
  rw [ha]
  refine ⟨h.head_lt,h.tail_lt,h.short,h.content,?_,h.nxt,h.max,h.cursor,h.order,h.small,h.bound,
    h.blocks,h.log⟩
  have hleft := h.left
  cases ph <;> exact hleft

lemma Live.aside (h : Live ph t) (ha : Aside t t') : Live ph t' := by
  obtain ⟨n,m,hc⟩ := h
  exact ⟨n,m,hc.aside ha⟩

lemma heldLen_lt (t : Sender) : heldLen t < sendBufSize := ringDataLen_lt sendBufSize_eq _ _

lemma Cursors.tail_eq (h : Cursors ph n m t) :
    t.tail = (t.head+heldLen t)%sendBufSize := tail_of_len sendBufSize_eq h.head_lt h.tail_lt

lemma Cursors.hand_empty {resent : ℕ} (h : Cursors (.hand resent) n m t) : heldLen t = 0 := by
  have hshort := h.short
  rw [h.left.2] at hshort
  exact le_zero.mp hshort

lemma Cursors.pending_eq (h : Cursors ph n m t) : pending t = heldLen t-min n (heldLen t) := by
  have hlt := heldLen_lt t
  have htail : t.tail = (t.unacked+(heldLen t-min n (heldLen t)))%sendBufSize := by
    have hsum : t.head+min n (heldLen t)+(heldLen t-min n (heldLen t)) = t.head+heldLen t := by omega
    rw [h.cursor,mod_add_mod,hsum]
    exact h.tail_eq
  rw [pending,htail]
  apply ringDataLen_cursors sendBufSize_eq _ (by omega)
  rw [h.cursor]
  exact cursor_lt sendBufSize_eq _

lemma Cursors.n_le (h : Cursors ph n m t) (hheld : 0 < heldLen t) : n ≤ heldLen t+1 := by
  cases ph with
  | hand resent =>
    rw [h.hand_empty] at hheld
    cases hheld
  | data => exact le_trans h.bound (le_succ _)
  | fin => exact h.bound.1

variable {k : ℕ}

lemma Cursors.move (h : Cursors ph n m t) (hk : k ≤ heldLen t) (hm : k ≤ m) :
    Cursors ph k m {t with nxt := after t.una k, unacked := (t.head+k)%sendBufSize} := by
  have hleft := h.left
  have hbound := h.bound
  refine ⟨h.head_lt,h.tail_lt,h.short,h.content,?_,rfl,h.max,?_,hm,h.small,?_,h.blocks,h.log⟩
  · cases ph <;> exact hleft
  · change (t.head+k)%sendBufSize = (t.head+min k (heldLen t))%sendBufSize
    rw [min_eq_left hk]
  · cases ph with
    | hand resent => exact hbound
    | data => exact hk
    | fin => exact ⟨le_trans hk (le_succ _),hbound.2⟩

lemma prepareRexmitFromSeq_live (h : Cursors ph n m t)
    (hk : k ≤ heldLen t) (hn : k ≤ n) : Live ph (prepareRexmitFromSeq t (after t.una k)) := by
  have hlt := heldLen_lt t
  rw [sendBufSize_eq] at hlt
  rw [prepareRexmitFromSeq,distance_from_base t.una (by omega)]
  exact ⟨k,m,h.move hk (le_trans hn h.order)⟩

lemma restoreSendHigh_live (h : Live ph t) : Live ph (restoreSendHigh t) := by
  obtain ⟨n,m,hc⟩ := h
  rw [restoreSendHigh]
  split_ifs with h1 h2 h3
  · exact ⟨n,m,hc⟩
  · exact ⟨n,m,hc⟩
  · exact ⟨n,m,hc⟩
  have hsmall := hc.small
  have hd : (t.max-t.una).toNat = m := by rw [hc.max,distance_from_base t.una (by omega)]
  rw [hd] at h3 ⊢
  have hmove := hc.move (k := m) (by omega) (le_refl m)
  rw [← hc.max] at hmove
  exact ⟨m,m,hmove⟩

variable {top : ℕ} {b : SackBlock}

lemma Within.mono {una : Serial} {top' : ℕ} (h : Within una top b)
    (hle : top ≤ top') : Within una top' b := by
  obtain ⟨l,r,hl,hr,hlr,htop⟩ := h
  exact ⟨l,r,hl,hr,hlr,le_trans htop hle⟩

variable {i : ℕ}

lemma covering_right
    (hblocks : ∀ b ∈ t.scoreboard, Within t.una top b) (htop : top ≤ 2^17) (hi : i ≤ 2^18)
    (hc : coveringBlock t (after t.una i) = some b) :
    ∃ r, b.right = after t.una r ∧ i < r ∧ r ≤ top := by
  obtain ⟨l,r,hl,hr,hlr,hrt⟩ := hblocks b (mem_of_find?_eq_some hc)
  have hw : seqInWindow (after t.una i) b.left b.right = true := by
    simpa using find?_some hc
  refine ⟨r,hr,?_,hrt⟩
  rw [hl,hr,seqInWindow,decide_eq_true_eq,distance t.una (le_of_lt hlr) (by omega)] at hw
  rcases lt_or_ge i l with hil | hil
  · exact lt_trans hil hlr
  · rw [distance t.una hil (by omega)] at hw
    omega

lemma nextRexmitSeqFrom_spec (h : Cursors ph n m t) (guard i : ℕ) (hi : i ≤ heldLen t) :
    ∃ k, nextRexmitSeqFrom t guard (after t.una i) = after t.una k ∧ k ≤ heldLen t ∧ k ≤ n := by
  have hlt := heldLen_lt t
  rw [sendBufSize_eq] at hlt
  have hsmall := h.small
  have horder := h.order
  induction guard generalizing i with
  | zero => exact ⟨0,(after_zero t.una).symm,zero_le _,zero_le _⟩
  | succ guard ih =>
    rw [nextRexmitSeqFrom,h.nxt,seqLt_after t.una (by omega) (by omega)]
    split_ifs with hin
    · rcases hc : coveringBlock t (after t.una i) with _ | b
      · exact ⟨i,rfl,hi,le_of_lt (of_decide_eq_true hin)⟩
      obtain ⟨r,hr,_,hrt⟩ := covering_right h.blocks (by omega) (by omega) hc
      simp only
      rw [hr]
      exact ih r (le_trans hrt (min_le_right _ _))
    · exact ⟨0,(after_zero t.una).symm,zero_le _,zero_le _⟩

lemma prepareRexmitFromHole_live (h : Live ph t) : Live ph (prepareRexmitFromHole t) := by
  obtain ⟨n,m,hc⟩ := h
  obtain ⟨k,hk,hheld,hn⟩ := nextRexmitSeqFrom_spec hc 64 0 (zero_le _)
  rw [after_zero] at hk
  rw [prepareRexmitFromHole,nextRexmitSeq,hk]
  exact prepareRexmitFromSeq_live hc hheld hn

lemma holeEnd_spec (mss : UInt16)
    (hblocks : ∀ b ∈ t.scoreboard, Within t.una top b) (htop : top ≤ 2^17) (hi : i ≤ 2^17) :
    ∃ k, holeEnd t mss (after t.una i) = after t.una k ∧ k ≤ 2^18 := by
  have hmss : mss.toNat < 2^16 := mss.toNat_lt
  have hfold : ∀ (bs : List SackBlock) (stop : Serial), (∀ b ∈ bs, Within t.una top b) →
      (∃ k, stop = after t.una k ∧ k ≤ 2^18) →
      ∃ k, bs.foldl (fun stop b => if seqLt (after t.una i) b.left && seqLt b.left stop then b.left
        else stop) stop = after t.una k ∧ k ≤ 2^18 := by
    intro bs
    induction bs with
    | nil => intro stop _ hs; exact hs
    | cons b rest ih =>
      intro stop hb hs
      apply ih _ (fun c hc => hb c (mem_cons_of_mem b hc))
      dsimp only
      split_ifs
      · obtain ⟨l,r,hl,_,hlr,hrt⟩ := hb b mem_cons_self
        exact ⟨l,hl,by omega⟩
      · exact hs
  have hstart : ∃ k, after (after t.una i) (max mss.toNat 1) = after t.una k ∧ k ≤ 2^18 :=
    ⟨i+max mss.toNat 1,after_after _ _ _,by omega⟩
  rw [holeEnd]
  split_ifs
  · exact hfold t.scoreboard _ hblocks hstart
  · refine ⟨i+1,?_,by omega⟩
    rw [← after_after,after_one]

lemma rackSegLostAt_block {lost : Serial → Bool} {seq : Serial}
    (h : rackSegLostAt lost t seq = true) : t.scoreboard ≠ [] := by
  intro hnil
  simp [rackSegLostAt,sackedBytesAbove,sackBlocksAbove,hnil] at h

variable {hole : Serial}

lemma nextRackLostHoleFrom_spec (h : Cursors ph n m t)
    (lost : Serial → Bool) (mss : UInt16) (guard i : ℕ) (hi : i ≤ 2^18)
    (hf : nextRackLostHoleFrom lost mss t guard (after t.una i) = some hole) :
    ∃ k, hole = after t.una k ∧ k ≤ heldLen t ∧ k ≤ n := by
  have hlt := heldLen_lt t
  rw [sendBufSize_eq] at hlt
  have hsmall := h.small
  have horder := h.order
  induction guard generalizing i with
  | zero => cases hf
  | succ guard ih =>
    rw [nextRackLostHoleFrom,h.nxt,seqLt_after t.una (by omega) (by omega)] at hf
    by_cases hin : i < n
    · rw [if_pos (decide_eq_true hin)] at hf
      cases hc : coveringBlock t (after t.una i) with
      | none =>
        rw [hc] at hf
        simp only at hf
        split_ifs at hf with hlost
        · cases hf
          obtain ⟨b,hb⟩ := exists_mem_of_ne_nil _ (rackSegLostAt_block hlost)
          obtain ⟨l,r,_,_,hlr,hrt⟩ := h.blocks b hb
          have hn := h.n_le (by omega)
          exact ⟨i,rfl,by omega,le_of_lt hin⟩
        · obtain ⟨k,hk,hk'⟩ := holeEnd_spec mss h.blocks (i := i) (by omega) (by omega)
          rw [hk] at hf
          exact ih k hk' hf
      | some b =>
        rw [hc] at hf
        obtain ⟨r,hr,_,hrt⟩ := covering_right h.blocks (by omega) hi hc
        simp only at hf
        rw [hr] at hf
        exact ih r (by omega) hf
    · rw [if_neg (by simpa using hin)] at hf
      cases hf

lemma rackHole_live (h : Live ph t) (lost : Serial → Bool)
    (mss : UInt16) (hf : nextRackLostHole lost mss t = some hole) :
    Live ph (prepareRexmitFromSeq t hole) := by
  obtain ⟨n,m,hc⟩ := h
  have hstart : nextRackLostHoleFrom lost mss t 64 (after t.una 0) = some hole := by
    rw [after_zero]
    exact hf
  obtain ⟨k,rfl,hheld,hn⟩ := nextRackLostHoleFrom_spec hc lost mss 64 0 (by omega) hstart
  exact prepareRexmitFromSeq_live hc hheld hn

lemma prepareRexmitRackOrHole_live (h : Live ph t)
    (lost : Serial → Bool) (mss : UInt16) : Live ph (prepareRexmitRackOrHole lost mss t) := by
  rw [prepareRexmitRackOrHole]
  split
  · exact rackHole_live h lost mss ‹_›
  · exact prepareRexmitFromHole_live h

lemma skipSackedFrom_live (guard : ℕ) (h : Live ph t) : Live ph (skipSackedFrom guard t) := by
  induction guard generalizing t with
  | zero => exact h
  | succ guard ih =>
    obtain ⟨n,m,hc⟩ := h
    have hlt := heldLen_lt t
    rw [sendBufSize_eq] at hlt
    have hsmall := hc.small
    have horder := hc.order
    rw [skipSackedFrom]
    rcases hb : coveringBlock t t.nxt with _ | b
    · exact ⟨n,m,hc⟩
    simp only
    split_ifs with hz hp
    · exact ⟨n,m,hc⟩
    · exact ⟨n,m,hc⟩
    rw [hc.nxt] at hb
    obtain ⟨r,hr,hnr,hrt⟩ := covering_right hc.blocks (by omega) (by omega) hb
    apply ih
    have hmove := hc.move (k := r) (by omega) (by omega)
    have hcur : (t.unacked+(b.right-t.nxt).toNat)%sendBufSize = (t.head+r)%sendBufSize := by
      have hsum : t.head+min n (heldLen t)+(r-n) = t.head+r := by omega
      rw [hr,hc.nxt,distance t.una (le_of_lt hnr) (by omega),hc.cursor,mod_add_mod,hsum]
    rw [hcur,hr]
    exact ⟨r,m,hmove⟩

lemma skipSackedSendRange_live (h : Live ph t) :
    Live ph (skipSackedSendRange t) := skipSackedFrom_live 64 h

end MoQiOS.Tcp
