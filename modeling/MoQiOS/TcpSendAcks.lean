import MoQiOS.TcpScoreboard

/-!
# Acknowledgements and queued data

An acknowledgement moves the left edge over bytes held and every position
behind it by the same amount; reported blocks are clipped to what was sent.
-/

namespace MoQiOS.Tcp
open SerialNumbers RingMemory List

variable {una : Serial} {n : ℕ} {b : SackBlock} {b' : SackBlock}

lemma clipBlock_spec (hn : n ≤ 2^17) (h : clipBlock una (after una n) b = some b') :
    ∃ l r, b'.left = after una l ∧ b'.right = after una r ∧ l < r ∧ r ≤ n ∧
      r ≤ (b.right-una).toNat ∧ (b.right-una).toNat ≤ 2^31 := by
  have hl := after_distance una b.left
  have hr := after_distance una b.right
  have hlt := (b.left-una).isLt
  have hrt := (b.right-una).isLt
  have hz : (una-una).toNat = 0 := by rw [BitVec.sub_self]; rfl
  have hd : (after una n-una).toNat = n := distance_from_base una (by omega)
  simp only [clipBlock,Bool.not_eq_true',← Bool.not_eq_true,ite_not] at h
  by_cases h1 : seqLt b.left b.right = true
  · rw [if_pos h1] at h
    rw [seqLt_offsets una] at h1
    by_cases h2 : seqLeq b.right una = true
    · rw [if_pos h2] at h
      cases h
    rw [if_neg h2] at h
    rw [seqLeq_offsets una,hz] at h2
    split_ifs at h with h3 h4 h5 h6 h7 h8 h9 h10
    all_goals
      cases h
      simp only [seqLt_offsets una,seqLeq_offsets una,hz,hd] at *
    · exact ⟨0,n,(after_zero una).symm,rfl,by omega,le_refl n,by omega,by omega⟩
    · exact ⟨0,_,(after_zero una).symm,hr.symm,by omega,by omega,le_refl _,by omega⟩
    · exact ⟨_,n,hl.symm,rfl,by omega,le_refl n,by omega,by omega⟩
    · exact ⟨_,_,hl.symm,hr.symm,by omega,by omega,le_refl _,by omega⟩
  · rw [if_neg h1] at h
    cases h

variable {top : ℕ}

lemma probeMergeScoreboard_within {nxt : Serial} {old neu : List SackBlock} (htop : top ≤ 2^17)
    (hclip : ∀ b ∈ old++neu, ∀ b', clipBlock una nxt b = some b' → Within una top b') :
    ∀ b ∈ probeMergeScoreboard una nxt old neu, Within una top b := by
  intro b hb
  rw [probeMergeScoreboard,mem_reverse] at hb
  refine (sorted_ranges (by omega) fun c hc => ?_).within b (mem_of_mem_take hb)
  obtain ⟨d,hd,hdc⟩ := mem_filterMap.mp (mem_of_mem_take hc)
  exact hclip d hd c hdc

variable {t : Sender}

lemma updateScoreboard_live (h : Live .data t) (incoming : List SackBlock) :
    Live .data (updateScoreboard t incoming) := by
  obtain ⟨n,m,hc⟩ := h
  have hn : n ≤ heldLen t := hc.bound
  have horder := hc.order
  have hsmall := hc.small
  refine ⟨n,m,hc.head_lt,hc.tail_lt,hc.short,hc.content,hc.left,hc.nxt,hc.max,hc.cursor,hc.order,
    hc.small,hc.bound,?_,hc.log⟩
  change ∀ b ∈ probeMergeScoreboard t.una t.nxt t.scoreboard incoming, Within t.una (min m (heldLen t)) b
  apply probeMergeScoreboard_within (by omega)
  intro b _ b' hb'
  rw [hc.nxt] at hb'
  obtain ⟨l,r,hl,hr,hlr,hrn,_,_⟩ := clipBlock_spec (by omega) hb'
  exact ⟨l,r,hl,hr,hlr,by omega⟩

variable {a : ℕ}

lemma clip_shifted (hb : Within una top b) (htop : top ≤ 2^17) (ha : a ≤ 2^17) (hn : n ≤ 2^17)
    (hclip : clipBlock (after una a) (after (after una a) n) b = some b') :
    Within (after una a) (top-a) b' := by
  obtain ⟨_,r,_,hr,_,hrt⟩ := hb
  obtain ⟨l',r',hl',hr',hlr',_,hle,hfar⟩ := clipBlock_spec hn hclip
  refine ⟨l',r',hl',hr',hlr',?_⟩
  rcases Nat.lt_or_ge r a with hra | hra
  · have hback : (b.right-after una a).toNat = 2^32-(a-r) := by
      rw [hr,BitVec.toNat_sub,toNat_after,toNat_after]
      omega
    omega
  · rw [hr,distance una hra (by omega)] at hle
    omega

lemma ring_advance (hh : t.head < sendBufSize) (ht : t.tail < sendBufSize) (ha : a ≤ heldLen t) :
    ringDataLen ((t.head+a)%sendBufSize) t.tail sendBufSize = heldLen t-a := by
  have hlt := heldLen_lt t
  have htail : t.tail = ((t.head+a)%sendBufSize+(heldLen t-a))%sendBufSize := by
    have hsum : t.head+a+(heldLen t-a) = t.head+heldLen t := by omega
    rw [Nat.mod_add_mod,hsum]
    exact tail_of_len sendBufSize_eq hh ht
  rw [htail]
  exact ringDataLen_cursors sendBufSize_eq (cursor_lt sendBufSize_eq _) (by omega)

variable {ph : Phase} {m : ℕ}

lemma Cursors.shift {k : ℕ} (h : Cursors ph n m t)
    (hph : ∀ resent, ph ≠ .hand resent) (ha : a ≤ heldLen t) (hk : a+k ≤ m)
    (hkb : ph.Bound k (m-a) (heldLen t-a)) (sb : List SackBlock)
    (hsb : ∀ b ∈ sb, Within (after t.una a) (min (m-a) (heldLen t-a)) b) :
    Cursors ph k (m-a) {t with
      una := after t.una a
      head := (t.head+a)%sendBufSize
      nxt := after (after t.una a) k
      unacked := (t.head+a+min k (heldLen t-a))%sendBufSize
      scoreboard := sb} := by
  have hlt := heldLen_lt t
  have hhead : (t.head+a)%sendBufSize < sendBufSize := cursor_lt sendBufSize_eq _
  have hheld := ring_advance h.head_lt h.tail_lt ha
  have hshort := h.short
  have hsmall := h.small
  refine ⟨hhead,h.tail_lt,?_,?_,?_,rfl,?_,?_,by omega,by omega,?_,?_,h.log⟩
  · rw [heldLen,hheld]
    exact le_trans (Nat.sub_le _ _) hshort
  · change held t.buf sendBufSize ((t.head+a)%sendBufSize)
      (ringDataLen ((t.head+a)%sendBufSize) t.tail sendBufSize) = t.queued.drop (t.queued.length-
        ringDataLen ((t.head+a)%sendBufSize) t.tail sendBufSize)
    rw [hheld]
    have hskip : t.queued.length-(heldLen t-a) = t.queued.length-heldLen t+a := by omega
    rw [held_drop t.buf sendBufSize t.head ha,h.content,drop_drop,hskip]
  · have hedge : after t.una a =
        after t.iss (1+(t.queued.length-ringDataLen ((t.head+a)%sendBufSize) t.tail sendBufSize)) := by
      have hleft : t.una = after t.iss (1+(t.queued.length-heldLen t)) := by
        have hl := h.left
        cases ph with
        | hand resent => exact absurd rfl (hph resent)
        | data => exact hl
        | fin => exact hl
      have hsum : 1+(t.queued.length-heldLen t)+a = 1+(t.queued.length-(heldLen t-a)) := by omega
      rw [hheld,hleft,after_after,hsum]
    cases ph with
    | hand resent => exact absurd rfl (hph resent)
    | data => exact hedge
    | fin => exact hedge
  · change t.max = after (after t.una a) (m-a)
    have hsum : a+(m-a) = m := by omega
    rw [after_after,hsum]
    exact h.max
  · change (t.head+a+min k (heldLen t-a))%sendBufSize =
      ((t.head+a)%sendBufSize+min k (ringDataLen ((t.head+a)%sendBufSize) t.tail sendBufSize))%sendBufSize
    rw [hheld,Nat.mod_add_mod]
  · rw [heldLen,hheld]
    exact hkb
  · change ∀ b ∈ sb, Within (after t.una a)
      (min (m-a) (ringDataLen ((t.head+a)%sendBufSize) t.tail sendBufSize)) b
    rw [hheld]
    exact hsb

lemma Cursors.shiftBehind (h : Cursors ph n m t)
    (hph : ∀ resent, ph ≠ .hand resent) (ha : a ≤ heldLen t) (han : a ≤ n) (sb : List SackBlock)
    (hsb : ∀ b ∈ sb, Within (after t.una a) (min (m-a) (heldLen t-a)) b) :
    Cursors ph (n-a) (m-a) {t with
      una := after t.una a, head := (t.head+a)%sendBufSize, scoreboard := sb} := by
  have horder := h.order
  have hbound := h.bound
  have hkb : ph.Bound (n-a) (m-a) (heldLen t-a) := by
    cases ph with
    | hand resent => exact absurd rfl (hph resent)
    | data => exact Nat.sub_le_sub_right hbound a
    | fin =>
      have h1 : n ≤ heldLen t+1 := hbound.1
      have h2 : heldLen t+1 ≤ m := hbound.2
      exact ⟨by omega,by omega⟩
  have hs := h.shift hph ha (k := n-a) (by omega) hkb sb hsb
  have hn : a+(n-a) = n := by omega
  have hc : t.head+a+min (n-a) (heldLen t-a) = t.head+min n (heldLen t) := by omega
  rw [after_after,hn,← h.nxt,hc,← h.cursor] at hs
  exact hs

lemma retire_live (h : Cursors ph n m t)
    (hph : ∀ resent, ph ≠ .hand resent) (ha : a ≤ heldLen t) (ham : a ≤ m) :
    Live ph (retire t (after t.una a) a) := by
  have hlt := heldLen_lt t
  rw [sendBufSize_eq] at hlt
  have horder := h.order
  have hsmall := h.small
  have hbound := h.bound
  have hblocks : ∀ k, k ≤ 2^17 → ∀ b ∈ probeMergeScoreboard (after t.una a) (after (after t.una a) k)
      t.scoreboard [], Within (after t.una a) (min (m-a) (heldLen t-a)) b := by
    intro k hk
    apply probeMergeScoreboard_within (by omega)
    intro b hb b' hb'
    rw [append_nil] at hb
    apply (clip_shifted (h.blocks b hb) (by omega) (by omega) hk hb').mono
    omega
  rw [retire]
  simp only
  rw [h.nxt,seqLt_after t.una (by omega) (by omega)]
  by_cases hna : n < a
  · rw [if_pos (decide_eq_true hna)]
    have hkb : ph.Bound 0 (m-a) (heldLen t-a) := by
      cases ph with
      | hand resent => exact absurd rfl (hph resent)
      | data => exact Nat.zero_le _
      | fin =>
        have h2 : heldLen t+1 ≤ m := hbound.2
        exact ⟨Nat.zero_le _,by omega⟩
    have hs := h.shift hph ha (k := 0) ham hkb _ (hblocks 0 (by omega))
    rw [after_zero,Nat.zero_min,Nat.add_zero] at hs
    exact ⟨0,m-a,hs⟩
  · rw [if_neg (by simpa using hna)]
    have hn : a+(n-a) = n := by omega
    have hs := h.shiftBehind hph ha (by omega) _ (hblocks (n-a) (by omega))
    rw [after_after,hn] at hs
    rw [← h.nxt] at hs ⊢
    exact ⟨n-a,m-a,hs⟩

/-- An acknowledgement of data sent moves the left edge, and the blocks it
reports are clipped to the bytes still outstanding. -/
lemma acked_live (h : Live .data t) (ackNum : Serial) (incoming : List SackBlock)
    (hle : (ackNum-t.una).toNat ≤ (t.nxt-t.una).toNat) : Live .data (updateScoreboard {t with
      una := ackNum, head := (t.head+(ackNum-t.una).toNat)%sendBufSize} incoming) := by
  obtain ⟨n,m,hc⟩ := h
  have hlt := heldLen_lt t
  rw [sendBufSize_eq] at hlt
  have hsmall := hc.small
  have horder := hc.order
  have hn : n ≤ heldLen t := hc.bound
  rw [hc.nxt,distance_from_base t.una (by omega)] at hle
  have hack := (after_distance t.una ackNum).symm
  generalize (ackNum-t.una).toNat = a at hle hack
  subst hack
  have hnxt : t.nxt = after (after t.una a) (n-a) := by
    have hsum : a+(n-a) = n := by omega
    rw [after_after,hsum]
    exact hc.nxt
  have hs := hc.shiftBehind (by intro _ hf; cases hf) (by omega) hle
    (probeMergeScoreboard (after t.una a) t.nxt t.scoreboard incoming) (by
      apply probeMergeScoreboard_within (by omega)
      intro b _ b' hb'
      rw [hnxt] at hb'
      obtain ⟨l,r,hl,hr,hlr,hrn,_,_⟩ := clipBlock_spec (by omega) hb'
      exact ⟨l,r,hl,hr,hlr,by omega⟩)
  exact ⟨_,_,hs⟩

lemma processNewAck_live (h : Live .data t) (o : Options) (re : Reaction)
    (p : Packet) (hle : (p.ackNum-t.una).toNat ≤ (t.nxt-t.una).toNat) :
    Live .data (processNewAck o re t p) := by
  have hacked := acked_live h p.ackNum p.sackBlocks hle
  rw [processNewAck]
  generalize updateScoreboard {t with
    una := p.ackNum, head := (t.head+(p.ackNum-t.una).toNat)%sendBufSize} p.sackBlocks = u at hacked
  have hresumed : Live .data (if (u.naglePending && decide (u.nxt = u.una)) = true then
      flushSendBuffer o {u with naglePending := false} else u) := by
    split_ifs
    · exact flushSendBuffer_live o (hacked.aside rfl)
    · exact hacked
  cases re.onAck with
  | undo => exact hresumed
  | sendNew => exact flushSendBuffer_live o (restoreSendHigh_live hresumed)
  | proportional => exact flushSendBuffer_live o hresumed
  | grow => exact hresumed

lemma processDupAck_live (h : Live .data t) (o : Options) (re : Reaction)
    (p : Packet) : Live .data (processDupAck o re t p) := by
  have hupd : Live .data (if 0 < p.sackBlocks.length then updateScoreboard t p.sackBlocks else t) := by
    split_ifs
    · exact updateScoreboard_live h p.sackBlocks
    · exact h
  rw [processDupAck]
  generalize (if 0 < p.sackBlocks.length then updateScoreboard t p.sackBlocks else t) = u at hupd
  cases re.onDup with
  | enterRecovery =>
    simp only
    split_ifs
    · exact flushSendBuffer_live o (prepareRexmitRackOrHole_live hupd re.lost re.mss)
    · exact hupd
  | recovering =>
    apply flushSendBuffer_live
    split_ifs
    · exact prepareRexmitRackOrHole_live hupd re.lost re.mss
    · exact hupd
  | count => exact hupd

lemma Carries.append {iss : Serial} {queued : List UInt8} {e : Emission}
    (h : Carries iss queued e) (data : List UInt8) : Carries iss (queued++data) e := by
  intro j hj
  obtain ⟨k,hk,hseq,hbyte⟩ := h j hj
  refine ⟨k,?_,hseq,?_⟩
  · rw [length_append]
    omega
  · rw [getElem_append_left hk]
    exact hbyte

lemma sendLimit_lt (o : Options) : sendLimit o < sendBufSize := by
  rw [sendLimit,bufferLimit]
  have := sendBufSize_eq
  split_ifs <;> omega

lemma queueData_live (h : Live .data t) (o : Options) (data : List UInt8) :
    Live .data (queueData o t data) := by
  obtain ⟨n,m,hc⟩ := h
  have hlimit := sendLimit_lt o
  have hlt := heldLen_lt t
  rw [queueData,roomUnder]
  have hcount : (data.take (min data.length (sendLimit o-heldLen t))).length =
      min data.length (sendLimit o-heldLen t) := by
    rw [length_take]
    omega
  have hroom : heldLen t+min data.length (sendLimit o-heldLen t) < sendBufSize := by omega
  generalize data.take (min data.length (sendLimit o-heldLen t)) = src at hcount
  generalize min data.length (sendLimit o-heldLen t) = c at hcount hroom
  subst hcount
  have htail : (t.tail+src.length)%sendBufSize = (t.head+(heldLen t+src.length))%sendBufSize := by
    rw [hc.tail_eq,Nat.mod_add_mod,Nat.add_assoc]
  have hheld : ringDataLen t.head ((t.tail+src.length)%sendBufSize) sendBufSize =
      heldLen t+src.length := by
    rw [htail]
    exact ringDataLen_cursors sendBufSize_eq hc.head_lt hroom
  have hw := ringWrite_written t.buf src hc.tail_lt (by omega)
  rw [hc.tail_eq] at hw
  have hshort := hc.short
  have hn : n ≤ heldLen t := hc.bound
  have hleft : t.una = after t.iss (1+(t.queued.length-heldLen t)) := hc.left
  have hskip : (t.queued++src).length-(heldLen t+src.length) = t.queued.length-heldLen t := by
    rw [length_append]
    omega
  refine ⟨n,m,hc.head_lt,cursor_lt sendBufSize_eq _,?_,?_,?_,hc.nxt,hc.max,?_,hc.order,hc.small,
    ?_,?_,?_⟩
  · change ringDataLen t.head ((t.tail+src.length)%sendBufSize) sendBufSize ≤ (t.queued++src).length
    rw [hheld,length_append]
    omega
  · change held (ringWrite t.buf sendBufSize t.tail src) sendBufSize t.head
      (ringDataLen t.head ((t.tail+src.length)%sendBufSize) sendBufSize) = (t.queued++src).drop
        ((t.queued++src).length-ringDataLen t.head ((t.tail+src.length)%sendBufSize) sendBufSize)
    rw [hheld,hskip,hc.tail_eq,held_written hw (le_of_lt hroom),hc.content,
      drop_append_of_le_length (by omega)]
  · change t.una = after t.iss (1+((t.queued++src).length-
      ringDataLen t.head ((t.tail+src.length)%sendBufSize) sendBufSize))
    rw [hheld,hskip]
    exact hleft
  · change t.unacked = (t.head+min n
      (ringDataLen t.head ((t.tail+src.length)%sendBufSize) sendBufSize))%sendBufSize
    have hmin : min n (heldLen t+src.length) = min n (heldLen t) := by omega
    rw [hheld,hmin]
    exact hc.cursor
  · change n ≤ ringDataLen t.head ((t.tail+src.length)%sendBufSize) sendBufSize
    rw [hheld]
    omega
  · change ∀ b ∈ t.scoreboard, Within t.una
      (min m (ringDataLen t.head ((t.tail+src.length)%sendBufSize) sendBufSize)) b
    rw [hheld]
    intro b hb
    apply (hc.blocks b hb).mono
    omega
  · intro e he
    exact (hc.log e he).append src

end MoQiOS.Tcp
