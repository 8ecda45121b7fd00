import MoQiOS.TcpSend

/-!
# Sending, queueing and acknowledging

Every step of the sending half keeps the cursors in their phase. A segment
with text takes it from where the cursor stands; an acknowledgement moves the
left edge of everything by the same amount.
-/

namespace MoQiOS.Tcp
open SerialNumbers RingMemory List

lemma fillTcpSegment_aside (t : Sender) (flags : Flags) : Aside t (fillTcpSegment t flags) := by
  rw [fillTcpSegment]
  split_ifs <;> rfl

lemma attempt_cases (gate : Gate) (t : Sender) (flags : Flags) (payload : List UInt8)
    (seqOverride : Option Serial) :
    (∃ t', attempt gate t flags payload seqOverride = (false,t') ∧ Aside t t') ∨
    ∃ t', attempt gate t flags payload seqOverride = (true,advanceSndNxt t' flags payload.length) ∧
      Aside {t with sent := t.sent++[⟨seqOverride.getD t.nxt,flags,payload⟩]} t' := by
  rw [attempt]
  split_ifs
  · exact .inr ⟨_,rfl,fillTcpSegment_aside _ flags⟩
  · exact .inl ⟨_,rfl,fillTcpSegment_aside t flags⟩
  · exact .inl ⟨t,rfl,rfl⟩

lemma sendSegmentSeq_cases (t : Sender) (flags : Flags) (payload : List UInt8)
    (seqOverride : Option Serial) :
    (∃ t', sendSegmentSeq t flags payload seqOverride = (false,t') ∧ Aside t t') ∨
    ∃ t', sendSegmentSeq t flags payload seqOverride =
        (true,advanceSndNxt t' flags payload.length) ∧
      Aside {t with sent := t.sent++[⟨seqOverride.getD t.nxt,flags,payload⟩]} t' := by
  rw [sendSegmentSeq]
  split
  · exact .inl ⟨t,rfl,rfl⟩
  rename_i gate gates _
  rcases attempt_cases gate {t with gates := gates} flags payload seqOverride with
    ⟨t',heq,ha⟩ | ⟨t',heq,ha⟩
  · refine .inl ⟨t',heq,?_⟩
    rw [Aside] at ha ⊢
    rw [ha]
  · refine .inr ⟨t',heq,?_⟩
    rw [Aside] at ha ⊢
    rw [ha]

lemma carries_nil (iss : Serial) (queued : List UInt8) (seq : Serial) (flags : Flags) :
    Carries iss queued ⟨seq,flags,[]⟩ := by
  intro j hj
  cases hj

variable {ph : Phase} {n m : ℕ} {t : Sender}

lemma Cursors.emit (h : Cursors ph n m t) (e : Emission)
    (he : Carries t.iss t.queued e) : Cursors ph n m {t with sent := t.sent++[e]} := by
  have hleft := h.left
  refine ⟨h.head_lt,h.tail_lt,h.short,h.content,?_,h.nxt,h.max,h.cursor,h.order,h.small,h.bound,
    h.blocks,?_⟩
  · cases ph <;> exact hleft
  · intro e' he'
    rcases mem_append.mp he' with hold | hnew
    · exact h.log e' hold
    · rw [mem_singleton.mp hnew]
      exact he

def Flags.length (flags : Flags) (dataLen : ℕ) : ℕ :=
  dataLen+(if flags.syn then 1 else 0)+(if flags.fin then 1 else 0)

lemma advanceSndNxt_eq (flags : Flags) (len : ℕ)
    (hnxt : t.nxt = after t.una n) (hmax : t.max = after t.una m) (hm : m ≤ 2^17)
    (hn : n+flags.length len ≤ 2^17) : advanceSndNxt t flags len = {t with
        nxt := after t.una (n+flags.length len)
        max := after t.una (Max.max m (n+flags.length len))} := by
  have hstep : after t.nxt (flags.length len) = after t.una (n+flags.length len) := by
    rw [hnxt,after_after]
  have htop : (if seqLt t.max (after t.una (n+flags.length len)) = true
      then after t.una (n+flags.length len) else t.max) =
      after t.una (Max.max m (n+flags.length len)) := by
    rw [hmax,seqLt_after t.una (by omega) (by omega)]
    by_cases hlt : m < n+flags.length len
    · rw [if_pos (decide_eq_true hlt),max_eq_right (le_of_lt hlt)]
    · rw [if_neg (by simpa using hlt),max_eq_left (by omega)]
  change {t with
    nxt := after t.nxt (flags.length len)
    max := if seqLt t.max (after t.nxt (flags.length len)) = true
      then after t.nxt (flags.length len) else t.max} = _
  rw [hstep,htop]

lemma Cursors.advance (h : Cursors ph n m t) (ph' : Phase)
    (flags : Flags) (len : ℕ) (hsmall : n+flags.length len ≤ 2^17)
    (hcur : min (n+flags.length len) (heldLen t) = min n (heldLen t)) (hleft : ph'.LeftEdge t)
    (hbound : ph'.Bound (n+flags.length len) (Max.max m (n+flags.length len)) (heldLen t)) :
    Cursors ph' (n+flags.length len) (Max.max m (n+flags.length len)) (advanceSndNxt t flags len) := by
  rw [advanceSndNxt_eq flags len h.nxt h.max h.small hsmall]
  refine ⟨h.head_lt,h.tail_lt,h.short,h.content,?_,rfl,rfl,?_,le_max_right _ _,
    max_le h.small hsmall,hbound,?_,h.log⟩
  · cases ph' <;> exact hleft
  · change t.unacked = (t.head+min (n+flags.length len) (heldLen t))%sendBufSize
    rw [hcur]
    exact h.cursor
  · intro b hb
    apply (h.blocks b hb).mono
    exact min_le_min_right _ (le_max_left _ _)

lemma sendPlain_live (h : Live ph t) (flags : Flags)
    (hs : flags.syn = false) (hf : flags.fin = false) (seqOverride : Option Serial) :
    Live ph (sendSegmentSeq t flags [] seqOverride).2 := by
  obtain ⟨n,m,hc⟩ := h
  have hlen : flags.length 0 = 0 := by simp [Flags.length,hs,hf]
  rcases sendSegmentSeq_cases t flags [] seqOverride with ⟨t',heq,ha⟩ | ⟨t',heq,ha⟩
  · rw [heq]
    exact ⟨n,m,hc.aside ha⟩
  rw [heq]
  have hc' := (hc.emit _ (carries_nil t.iss t.queued (seqOverride.getD t.nxt) flags)).aside ha
  have hsmall := le_trans hc'.order hc'.small
  have hbound := hc'.bound
  have hmax : Max.max m n = m := max_eq_left hc'.order
  have hadv := hc'.advance ph flags 0 (by rw [hlen]; exact hsmall) (by rw [hlen]; rfl) hc'.left
    (by rw [hlen,Nat.add_zero,hmax]; exact hbound)
  exact ⟨_,_,hadv⟩

lemma sendAck_live (h : Live ph t) : Live ph (sendAck t) :=
  sendPlain_live h .ACK rfl rfl none

lemma sendKeepaliveProbe_live (h : Live ph t) :
    Live ph (sendKeepaliveProbe t) := sendPlain_live h .ACK rfl rfl _

lemma sendFin_live (h : Cursors ph (heldLen t) m t) (hph : ∀ resent, ph ≠ .hand resent) :
    ((sendSegment t .finAck []).1 = false → Live ph (sendSegment t .finAck []).2) ∧
    ((sendSegment t .finAck []).1 = true → Live .fin (sendSegment t .finAck []).2) := by
  have hlt := heldLen_lt t
  rw [sendBufSize_eq] at hlt
  have hlen : Flags.finAck.length 0 = 1 := rfl
  rw [sendSegment]
  rcases sendSegmentSeq_cases t .finAck [] none with ⟨t',heq,ha⟩ | ⟨t',heq,ha⟩
  · rw [heq]
    exact ⟨fun _ => ⟨_,_,h.aside ha⟩,fun hc => by cases hc⟩
  rw [heq]
  refine ⟨fun hc => (by cases hc),fun _ => ?_⟩
  have hc' := (h.emit _ (carries_nil t.iss t.queued t.nxt .finAck)).aside ha
  have hheld : heldLen t' = heldLen t := by
    rw [ha]
    rfl
  have hleft : Phase.LeftEdge .fin t' := by
    have hl := hc'.left
    cases ph with
    | hand resent => exact absurd rfl (hph resent)
    | data => exact hl
    | fin => exact hl
  have hadv := hc'.advance .fin .finAck 0 (by rw [hlen]; omega)
    (by rw [hlen,hheld]; omega) hleft
    (by rw [hlen,hheld]; exact ⟨le_refl _,le_max_right _ _⟩)
  exact ⟨_,_,hadv⟩

lemma sendSyn_live {resent : ℕ} (h : Cursors (.hand resent) n m t) (resent' : ℕ)
    (flags : Flags) (hlen : flags.length 0 = 1) (hn : n ≤ resent') (hm : m ≤ 1+resent')
    (hsmall : n < 2^17) : Live (.hand resent') (sendSegment t flags []).2 := by
  rw [sendSegment]
  rcases sendSegmentSeq_cases t flags [] none with ⟨t',heq,ha⟩ | ⟨t',heq,ha⟩
  · rw [heq]
    have hc' := h.aside ha
    exact ⟨n,m,hc'.head_lt,hc'.tail_lt,hc'.short,hc'.content,hc'.left,hc'.nxt,hc'.max,hc'.cursor,
      hc'.order,hc'.small,hm,hc'.blocks,hc'.log⟩
  rw [heq]
  have hc' := (h.emit _ (carries_nil t.iss t.queued t.nxt flags)).aside ha
  have hheld' : heldLen t' = 0 := hc'.hand_empty
  have hadv := hc'.advance (.hand resent') flags 0 (by rw [hlen]; omega)
    (by rw [hheld',Nat.min_zero,Nat.min_zero]) hc'.left
    (by rw [hlen]; change Max.max m (n+1) ≤ 1+resent'; omega)
  exact ⟨_,_,hadv⟩

lemma Cursors.payload_carries {count : ℕ} (h : Cursors ph n m t)
    (hcount : count ≤ pending t) (hpos : 0 < count) (flags : Flags) : n+count ≤ heldLen t ∧
    Carries t.iss t.queued ⟨t.nxt,flags,ringRead t.buf sendBufSize t.unacked count⟩ := by
  have hlt := heldLen_lt t
  have hpend := h.pending_eq
  have hfit : n+count ≤ heldLen t := by omega
  have hn : min n (heldLen t) = n := by omega
  have hleft : t.una = after t.iss (1+(t.queued.length-heldLen t)) := by
    have hl := h.left
    cases ph with
    | hand resent =>
      have hz := h.hand_empty
      omega
    | data => exact hl
    | fin => exact hl
  have hread : ringRead t.buf sendBufSize t.unacked count =
      ((t.queued.drop (t.queued.length-heldLen t)).drop n).take count := by
    have hcur : t.unacked < sendBufSize := by
      rw [h.cursor]
      exact cursor_lt sendBufSize_eq _
    rw [ringRead_held t.buf hcur (by omega),h.cursor,hn,← h.content,
      ← held_drop t.buf sendBufSize t.head (show n ≤ heldLen t by omega)]
    exact held_take t.buf sendBufSize _ (by omega)
  have hshort := h.short
  refine ⟨hfit,?_⟩
  intro j hj
  have hlen : j < count := by
    simp only [hread,length_take,length_drop] at hj
    omega
  refine ⟨t.queued.length-heldLen t+n+j,by omega,?_,?_⟩
  · simp only
    rw [h.nxt,hleft,after_after,after_after]
    congr 1
    omega
  · simp only [hread,getElem_take,getElem_drop,Nat.add_assoc]

lemma Cursors.advanceData {count : ℕ} (h : Cursors ph n m t)
    (flags : Flags) (hflags : flags.length count = count) (hfit : n+count ≤ heldLen t) :
    Cursors ph (n+count) (Max.max m (n+count))
      {advanceSndNxt t flags count with unacked := (t.unacked+count)%sendBufSize} := by
  have hlt := heldLen_lt t
  rw [sendBufSize_eq] at hlt
  rw [advanceSndNxt_eq flags count h.nxt h.max h.small (by rw [hflags]; omega),hflags]
  have hleft := h.left
  have hbound := h.bound
  refine ⟨h.head_lt,h.tail_lt,h.short,h.content,?_,rfl,rfl,?_,le_max_right _ _,
    max_le h.small (by omega),?_,?_,h.log⟩
  · cases ph <;> exact hleft
  · change (t.unacked+count)%sendBufSize = (t.head+min (n+count) (heldLen t))%sendBufSize
    have hsum : t.head+min n (heldLen t)+count = t.head+min (n+count) (heldLen t) := by omega
    rw [h.cursor,Nat.mod_add_mod,hsum]
  · cases ph with
    | hand resent =>
      have hz := h.hand_empty
      have hb : m ≤ 1+resent := hbound
      change Max.max m (n+count) ≤ 1+resent
      omega
    | data => exact hfit
    | fin => exact ⟨le_trans hfit (Nat.le_succ _),le_trans hbound.2 (le_max_left _ _)⟩
  · intro b hb
    apply (h.blocks b hb).mono
    exact min_le_min_right _ (le_max_left _ _)

lemma ringRead_length (buf : ℕ → UInt8) (size pos count : ℕ) :
    (ringRead buf size pos count).length = count := by
  rw [ringRead]
  split_ifs with hz hflat
  · exact hz.symm
  · simp [load]
  · simp [load]
    omega

lemma sendText_live {r : Bool×Sender} (count : ℕ) (h : Live ph t)
    (hcount : count ≤ pending t) (hpos : 0 < count) (hr : (∃ t', r = (false,t') ∧ Aside t t') ∨
      ∃ t', r = (true,advanceSndNxt t' .ACK (ringRead t.buf sendBufSize t.unacked count).length) ∧
        Aside {t with
          sent := t.sent++[⟨t.nxt,.ACK,ringRead t.buf sendBufSize t.unacked count⟩]} t') :
    (r.1 = false → Live ph r.2) ∧
    (r.1 = true → Live ph {r.2 with unacked := (t.unacked+count)%sendBufSize}) := by
  obtain ⟨n,m,hc⟩ := h
  rcases hr with ⟨t',rfl,ha⟩ | ⟨t',rfl,ha⟩
  · exact ⟨fun _ => ⟨n,m,hc.aside ha⟩,fun hf => by cases hf⟩
  refine ⟨fun hf => (by cases hf),fun _ => ?_⟩
  obtain ⟨hfit,hcar⟩ := hc.payload_carries hcount hpos .ACK
  have hheld : heldLen t' = heldLen t := by
    rw [ha]
    rfl
  have hun : t'.unacked = t.unacked := by rw [ha]
  have hadv := ((hc.emit _ hcar).aside ha).advanceData .ACK rfl (by rw [hheld]; exact hfit)
  rw [hun] at hadv
  rw [ringRead_length]
  exact ⟨_,_,hadv⟩

lemma sendPersistProbe_live (h : Live ph t) : Live ph (sendPersistProbe t) := by
  rw [sendPersistProbe]
  by_cases hz : pending t = 0
  · rw [if_pos hz]
    exact h
  rw [if_neg hz]
  obtain ⟨hstay,hmove⟩ := sendText_live 1 h (by omega) (by omega)
    (sendSegmentSeq_cases t .ACK (ringRead t.buf sendBufSize t.unacked 1) none)
  rw [sendSegment]
  simp only
  split_ifs with hleft
  · exact hmove hleft
  · exact hstay (Bool.not_eq_true _ ▸ hleft)

lemma flushWith_live (o : Options) (gates : List Gate)
    (h : Live ph t) : Live ph (flushWith o gates t) := by
  induction gates generalizing t with
  | nil => exact h.aside rfl
  | cons gate gates ih =>
    have hskip : Live ph (skipSackedSendRange {t with gates := gates}) :=
      skipSackedSendRange_live (h.aside rfl)
    rw [flushWith]
    generalize skipSackedSendRange {t with gates := gates} = u at hskip
    simp only
    by_cases hz : canSend gate u = 0
    · rw [if_pos hz]
      exact hskip
    have hcases := attempt_cases gate u .ACK (ringRead u.buf sendBufSize u.unacked (canSend gate u)) none
    obtain ⟨hstay,hmove⟩ := sendText_live (canSend gate u) hskip (min_le_left _ _) (by omega) hcases
    rw [if_neg hz]
    split_ifs with _ _ _ hleft
    · exact hskip
    · exact hskip
    · exact hskip.aside rfl
    · exact ih ((hmove hleft).aside rfl)
    · exact hstay (Bool.not_eq_true _ ▸ hleft)

lemma flushSendBuffer_live (o : Options) (h : Live ph t) :
    Live ph (flushSendBuffer o t) := flushWith_live o t.gates h

lemma sendTlpProbe_live (o : Options) (h : Live ph t) : Live ph (sendTlpProbe o t) := by
  have hr := restoreSendHigh_live h
  simp only [sendTlpProbe]
  split_ifs
  · exact prepareRexmitFromHole_live hr
  · exact flushSendBuffer_live _ (prepareRexmitFromHole_live hr)
  · exact flushSendBuffer_live _ hr

end MoQiOS.Tcp
