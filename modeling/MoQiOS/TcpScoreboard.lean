import MoQiOS.TcpSendSteps

/-!
# The scoreboard after a report

Positions are counted from the left edge. In a window of less than half the
sequence space blocks are intervals of positions. The merge leaves the maximal
ranges of what was reported, the highest four of them, and what is sent again
skips nothing that was not reported.
-/

namespace MoQiOS.Tcp
open SerialNumbers List

lemma distance_offsets (una a b : Serial) :
    (a-b).toNat = ((a-una).toNat+(2^32-(b-una).toNat))%2^32 := by
  have ha := a.isLt
  have hb := b.isLt
  have hu := una.isLt
  simp only [BitVec.toNat_sub]
  omega

lemma seqLt_offsets (una a b : Serial) :
    seqLt a b = true ↔ 2^31 ≤ ((a-una).toNat+(2^32-(b-una).toNat))%2^32 := by
  rw [seqLt_eq_before,before,decide_eq_true_eq,distance_offsets una]

lemma seqLeq_offsets (una a b : Serial) :
    seqLeq a b = true ↔ ((b-una).toNat+(2^32-(a-una).toNat))%2^32 < 2^31 := by
  rw [seqLeq,seqGt,Bool.not_eq_true',← Bool.not_eq_true,seqLt_offsets una,Nat.not_le]

def SackBlock.lo (una : Serial) (b : SackBlock) : ℕ := (b.left-una).toNat

def SackBlock.hi (una : Serial) (b : SackBlock) : ℕ := (b.right-una).toNat

/-- Blocks of the window, in order and with a gap between any two. -/
structure Board (una : Serial) (n : ℕ) (bs : List SackBlock) : Prop where
  within : ∀ b ∈ bs, Within una n b
  apart : bs.Pairwise fun b c => b.hi una < c.lo una

def Reported (bs : List SackBlock) (seq : Serial) : Prop :=
  ∃ b ∈ bs, seqInWindow seq b.left b.right = true

variable {una seq : Serial} {n : ℕ} {b : SackBlock} {bs : List SackBlock}

lemma reported_append {cs : List SackBlock} :
    Reported (bs++cs) seq ↔ Reported bs seq ∨ Reported cs seq := by
  simp [Reported,or_and_right,exists_or]

lemma reported_cons : Reported (b::bs) seq ↔ seqInWindow seq b.left b.right = true ∨ Reported bs seq := by
  simp [Reported]

lemma isSacked_iff (t : Sender) : isSacked t seq = true ↔ Reported t.scoreboard seq := by
  simp [isSacked,coveringBlock,Reported]

lemma within_iff (hn : n < 2^31) : Within una n b ↔ b.lo una < b.hi una ∧ b.hi una ≤ n := by
  constructor
  · rintro ⟨l,r,hl,hr,hlr,hrn⟩
    rw [SackBlock.lo,SackBlock.hi,hl,hr,distance_from_base una (by omega),
      distance_from_base una (by omega)]
    exact ⟨hlr,hrn⟩
  · rintro ⟨hlr,hrn⟩
    exact ⟨_,_,(after_distance una _).symm,(after_distance una _).symm,hlr,hrn⟩

lemma inWindow_iff (h : b.lo una < b.hi una) : seqInWindow seq b.left b.right = true ↔
    b.lo una ≤ (seq-una).toNat ∧ (seq-una).toNat < b.hi una := by
  have hs := (seq-una).isLt
  have hb := (b.right-una).isLt
  rw [seqInWindow,decide_eq_true_eq,distance_offsets una seq,distance_offsets una b.right]
  simp only [SackBlock.lo,SackBlock.hi] at *
  omega

lemma clipBlock_within (hn : n < 2^31) (h : Within una n b) :
    clipBlock una (after una n) b = some b := by
  have hz : (una-una).toNat = 0 := by rw [BitVec.sub_self]; rfl
  have hd : (after una n-una).toNat = n := distance_from_base una (by omega)
  have hb := (within_iff hn).mp h
  simp only [SackBlock.lo,SackBlock.hi] at hb
  simp only [clipBlock,seqLeq_offsets una,seqLt_offsets una,Bool.not_eq_true',← Bool.not_eq_true,hz,hd]
  split_ifs <;> first | rfl | omega

lemma insertBlock_perm (key : SackBlock) (bs : List SackBlock) :
    (insertBlock una key bs).Perm (key::bs) := by
  induction bs with
  | nil => exact .refl _
  | cons c rest ih =>
    rw [insertBlock]
    split_ifs
    · exact .refl _
    · exact (ih.cons c).trans (.swap key c rest)

lemma insertBlock_sorted {key : SackBlock} (h : bs.Pairwise fun b c => b.lo una ≤ c.lo una) :
    (insertBlock una key bs).Pairwise fun b c => b.lo una ≤ c.lo una := by
  induction bs with
  | nil => exact pairwise_singleton _ _
  | cons c rest ih =>
    obtain ⟨hc,hrest⟩ := pairwise_cons.mp h
    rw [insertBlock]
    split_ifs with hlt
    · exact pairwise_cons.mpr ⟨forall_mem_cons.mpr ⟨hlt.le,fun d hd => hlt.le.trans (hc d hd)⟩,h⟩
    refine pairwise_cons.mpr ⟨fun d hd => ?_,ih hrest⟩
    rcases mem_cons.mp ((insertBlock_perm key rest).mem_iff.mp hd) with rfl | hd
    · exact Nat.not_lt.mp hlt
    · exact hc d hd

lemma sorted_spec (bs acc : List SackBlock) (h : acc.Pairwise fun b c => b.lo una ≤ c.lo una) :
    (bs.foldl (fun acc b => insertBlock una b acc) acc).Perm (bs++acc) ∧
    (bs.foldl (fun acc b => insertBlock una b acc) acc).Pairwise fun b c => b.lo una ≤ c.lo una := by
  induction bs generalizing acc with
  | nil => exact ⟨.refl _,h⟩
  | cons c rest ih =>
    obtain ⟨hp,hs⟩ := ih _ (insertBlock_sorted h)
    exact ⟨hp.trans (((insertBlock_perm c acc).append_left rest).trans perm_middle),hs⟩

/-- The ranges merged so far, the last one first, for the blocks taken in. -/
structure Ranges (una : Serial) (n : ℕ) (bs acc : List SackBlock) : Prop where
  within : ∀ b ∈ acc, Within una n b
  apart : acc.Pairwise fun c b => b.hi una < c.lo una
  holds : ∀ seq, Reported acc seq ↔ Reported bs seq

variable {acc cs : List SackBlock} (hn : n < 2^31)
include hn

lemma Ranges.merge (h : Ranges una n bs acc) (hb : Within una n b)
    (hle : ∀ p ∈ acc, p.lo una ≤ b.lo una) :
    Ranges una n (b::bs) (mergeBlock acc b) ∧ ∀ p ∈ mergeBlock acc b, p.lo una ≤ b.lo una := by
  obtain ⟨hin,hap,hh⟩ := h
  have hholds : ∀ seq, Reported (b::acc) seq ↔ Reported (b::bs) seq := fun seq => by
    rw [reported_cons,reported_cons,hh]
  rcases acc with _ | ⟨prev,rest⟩
  · exact ⟨⟨by simpa [mergeBlock] using hb,pairwise_singleton _ _,hholds⟩,by simp [mergeBlock]⟩
  obtain ⟨hgap,hrest⟩ := pairwise_cons.mp hap
  obtain ⟨hprev,hrin⟩ := forall_mem_cons.mp hin
  obtain ⟨hpb,hrle⟩ := forall_mem_cons.mp hle
  obtain ⟨hp,hpn⟩ := (within_iff hn).mp hprev
  obtain ⟨hbl,hbn⟩ := (within_iff hn).mp hb
  have hjoin : seqLeq b.left prev.right = true ↔ b.lo una ≤ prev.hi una := by
    rw [seqLeq_offsets una]
    simp only [SackBlock.lo,SackBlock.hi] at *
    omega
  have hgrow : seqLt prev.right b.right = true ↔ prev.hi una < b.hi una := by
    rw [seqLt_offsets una]
    simp only [SackBlock.hi] at *
    omega
  rw [mergeBlock]
  by_cases hj : b.lo una ≤ prev.hi una
  · rw [if_pos (hjoin.mpr hj)]
    obtain ⟨m,hm,hlo,hhi⟩ : ∃ m : SackBlock, (if seqLt prev.right b.right = true then
        ⟨prev.left,b.right⟩ else prev) = m ∧ m.lo una = prev.lo una ∧
        m.hi una = max (prev.hi una) (b.hi una) := by
      refine ⟨_,rfl,?_⟩
      split_ifs with hg
      · exact ⟨rfl,(max_eq_right (hgrow.mp hg).le).symm⟩
      · exact ⟨rfl,(max_eq_left (Nat.not_lt.mp (mt hgrow.mpr hg))).symm⟩
    have hml : m.lo una < m.hi una := by omega
    rw [hm]
    refine ⟨⟨forall_mem_cons.mpr ⟨(within_iff hn).mpr ⟨hml,by omega⟩,hrin⟩,
      pairwise_cons.mpr ⟨fun c hc => hlo ▸ hgap c hc,hrest⟩,fun seq => ?_⟩,
      forall_mem_cons.mpr ⟨hlo.trans_le hpb,hrle⟩⟩
    rw [← hholds,reported_cons,reported_cons,reported_cons,← or_assoc,inWindow_iff hml,
      inWindow_iff hbl,inWindow_iff hp]
    refine or_congr_left ?_
    omega
  · rw [if_neg (mt hjoin.mp hj)]
    refine ⟨⟨forall_mem_cons.mpr ⟨hb,hin⟩,pairwise_cons.mpr ⟨?_,hap⟩,hholds⟩,
      forall_mem_cons.mpr ⟨le_rfl,hle⟩⟩
    exact forall_mem_cons.mpr ⟨Nat.not_le.mp hj,fun c hc => (hgap c hc).trans_le hpb⟩

lemma Ranges.fold (hs : cs.Pairwise fun b c => b.lo una ≤ c.lo una) (hcs : ∀ c ∈ cs, Within una n c)
    (h : Ranges una n bs acc) (hle : ∀ p ∈ acc, ∀ c ∈ cs, p.lo una ≤ c.lo una) :
    Ranges una n (cs++bs) (cs.foldl mergeBlock acc) := by
  induction cs generalizing bs acc with
  | nil => exact h
  | cons c cs ih =>
    obtain ⟨hc,hs⟩ := pairwise_cons.mp hs
    obtain ⟨hm,hml⟩ := h.merge hn (hcs c mem_cons_self) fun p hp => hle p hp c mem_cons_self
    have hr := ih hs (fun d hd => hcs d (mem_cons_of_mem _ hd)) hm
      fun p hp d hd => (hml p hp).trans (hc d hd)
    refine ⟨hr.within,hr.apart,fun seq => (hr.holds seq).trans ?_⟩
    rw [cons_append,reported_append,reported_cons,reported_cons,reported_append]
    exact or_left_comm

lemma sorted_ranges (hbs : ∀ b ∈ bs, Within una n b) : Ranges una n bs
    ((bs.foldl (fun acc b => insertBlock una b acc) []).foldl mergeBlock []) := by
  obtain ⟨hperm,hs⟩ := @sorted_spec una bs [] .nil
  rw [append_nil] at hperm
  have hnone : Ranges una n [] [] := ⟨nofun,.nil,fun _ => .rfl⟩
  have hr := hnone.fold hn hs (fun c hc => hbs c (hperm.mem_iff.mp hc)) nofun
  refine ⟨hr.within,hr.apart,fun seq => (hr.holds seq).trans ?_⟩
  simp [Reported,hperm.mem_iff]

/-- Each range begins where some block does, whatever blocks have its bytes. -/
lemma Ranges.least (h : Ranges una n bs acc) (hcs : ∀ c ∈ cs, Within una n c)
    (heq : ∀ seq, Reported cs seq ↔ Reported bs seq) : acc.length ≤ cs.length := by
  have hnodup : (acc.map (·.lo una)).Nodup := by
    rw [List.Nodup,pairwise_map]
    refine h.apart.imp_of_mem fun _ hb hgap hsame => ?_
    have := ((within_iff hn).mp (h.within _ hb)).1
    omega
  have hsub : acc.map (·.lo una) ⊆ cs.map (·.lo una) := by
    intro x hx
    obtain ⟨b,hb,rfl⟩ := mem_map.mp hx
    obtain ⟨hlt,hbn⟩ := (within_iff hn).mp (h.within b hb)
    have hat : ∀ k < n, (after una k-una).toNat = k := fun k hk => distance_from_base una (by omega)
    have hfirst : Reported acc (after una (b.lo una)) :=
      ⟨b,hb,(inWindow_iff hlt).mpr (by rw [hat _ (by omega)]; omega)⟩
    rw [h.holds,← heq] at hfirst
    obtain ⟨c,hc,hin⟩ := hfirst
    have hcl := ((within_iff hn).mp (hcs c hc)).1
    rw [inWindow_iff hcl,hat _ (by omega)] at hin
    refine mem_map.mpr ⟨c,hc,?_⟩
    by_contra hne
    -- the byte before the range would be reported, and so in a range that touches it
    have hback : Reported cs (after una (b.lo una-1)) :=
      ⟨c,hc,(inWindow_iff hcl).mpr (by rw [hat _ (by omega)]; omega)⟩
    rw [heq,← h.holds] at hback
    obtain ⟨d,hd,hin'⟩ := hback
    rw [inWindow_iff ((within_iff hn).mp (h.within d hd)).1,hat _ (by omega)] at hin'
    have hsym : Std.Symm fun c b : SackBlock => b.hi una < c.lo una ∨ c.hi una < b.lo una :=
      ⟨fun _ _ => Or.symm⟩
    have hap : acc.Pairwise fun c b => b.hi una < c.lo una ∨ c.hi una < b.lo una := h.apart.imp .inl
    have hgap := hap.forall hd hb (by rintro rfl; omega)
    omega
  simpa using (hnodup.subperm hsub).length_le

omit hn

variable {s : Serial} {t : Sender}

lemma covering_run (hrun : ∀ k < n, Reported t.scoreboard (after s k))
    (h : coveringBlock t (after s n) = some b) : ∃ d, b.right = after s (n+d) ∧
      ∀ k < n+d, Reported t.scoreboard (after s k) := by
  refine ⟨(b.right-after s n).toNat,?_,fun k hk => ?_⟩
  · rw [← after_after,after_distance]
  · rcases Nat.lt_or_ge k n with hlt | hge
    · exact hrun k hlt
    refine ⟨b,mem_of_find?_eq_some h,?_⟩
    have hin := find?_some h
    have hs := s.isLt
    have hl := b.left.isLt
    have hr := b.right.isLt
    simp only [seqInWindow,decide_eq_true_eq,BitVec.toNat_sub,toNat_after] at *
    omega

lemma run_reported (hrun : ∀ k < n, Reported bs (after s k)) :
    ∀ k < (after s n-s).toNat, Reported bs (after s k) := by
  refine fun k hk => hrun k (hk.trans_le ?_)
  have hs := s.isLt
  rw [BitVec.toNat_sub,toNat_after]
  omega

lemma nextRexmitSeqFrom_run (guard : ℕ) (hrun : ∀ k < n, Reported t.scoreboard (after t.una k)) :
    ∀ k < (nextRexmitSeqFrom t guard (after t.una n)-t.una).toNat,
      Reported t.scoreboard (after t.una k) := by
  have hstart : ∀ k < (t.una-t.una).toNat, Reported t.scoreboard (after t.una k) := by simp
  induction guard generalizing n with
  | zero => exact hstart
  | succ guard ih =>
    rw [nextRexmitSeqFrom]
    split_ifs
    · split
      · exact run_reported hrun
      obtain ⟨d,hd,hnext⟩ := covering_run hrun ‹_›
      rw [hd]
      exact ih hnext
    · exact hstart

lemma skipSackedFrom_run (guard : ℕ) (ht : t.nxt = after s n)
    (hrun : ∀ k < n, Reported t.scoreboard (after s k)) :
    ∀ k < ((skipSackedFrom guard t).nxt-s).toNat, Reported t.scoreboard (after s k) := by
  have hstay : ∀ k < (t.nxt-s).toNat, Reported t.scoreboard (after s k) := ht ▸ run_reported hrun
  induction guard generalizing t n with
  | zero => exact hstay
  | succ guard ih =>
    rw [skipSackedFrom]
    split
    · exact hstay
    rename_i b hb
    rw [ht] at hb
    obtain ⟨d,hd,hnext⟩ := covering_run hrun hb
    dsimp only
    split_ifs
    · exact hstay
    · exact hstay
    · exact ih (t := {t with nxt := b.right, unacked := _}) hd hnext (hd ▸ run_reported hnext)

/-- Blocks of the window are merged into at most four ranges, in order and apart,
with no byte that was not reported, and with all of them when four blocks can
have them all. What is skipped afterwards was reported. -/
theorem scoreboard_merges_reports (t : Sender) (incoming : List SackBlock) (n : ℕ) (hwin : n < 2^31)
    (hnxt : t.nxt = after t.una n) (hold : Board t.una n t.scoreboard) (hfour : t.scoreboard.length ≤ 4)
    (hin : ∀ b ∈ incoming, Within t.una n b) (hlen : incoming.length ≤ 4) :
    Board t.una n (updateScoreboard t incoming).scoreboard ∧
    (updateScoreboard t incoming).scoreboard.length ≤ 4 ∧
    (∀ seq, isSacked (updateScoreboard t incoming) seq = true →
      Reported (t.scoreboard++incoming) seq) ∧
    ((∃ four : List SackBlock, four.length ≤ 4 ∧ (∀ b ∈ four, Within t.una n b) ∧
        ∀ seq, Reported four seq ↔ Reported (t.scoreboard++incoming) seq) →
      ∀ seq, isSacked (updateScoreboard t incoming) seq = true ↔
        Reported (t.scoreboard++incoming) seq) ∧
    ∀ u : Sender, u.scoreboard = (updateScoreboard t incoming).scoreboard →
      (∀ k < (nextRexmitSeq u-u.una).toNat, Reported (t.scoreboard++incoming) (after u.una k)) ∧
      ∀ k < ((skipSackedSendRange u).nxt-u.nxt).toNat,
        Reported (t.scoreboard++incoming) (after u.nxt k) := by
  have hall : ∀ b ∈ t.scoreboard++incoming, Within t.una n b :=
    forall_mem_append.mpr ⟨hold.within,hin⟩
  have hclip : ((t.scoreboard++incoming).filterMap (clipBlock t.una t.nxt)).take 8 =
      t.scoreboard++incoming := by
    rw [hnxt, filterMap_congr (g := some) fun b hb => clipBlock_within hwin (hall b hb), filterMap_some,
      take_of_length_le (by rw [length_append]; omega)]
  have hr := sorted_ranges hwin hall
  simp only [isSacked_iff, updateScoreboard, probeMergeScoreboard, hclip]
  generalize t.scoreboard++incoming = bs at hr
  generalize (bs.foldl _ []).foldl mergeBlock [] = acc at hr
  have hsub : ∀ seq, Reported (acc.take 4).reverse seq → Reported bs seq := by
    rintro seq ⟨b,hb,hs⟩
    exact (hr.holds seq).mp ⟨b,mem_of_mem_take (mem_reverse.mp hb),hs⟩
  refine ⟨⟨fun b hb => hr.within b (mem_of_mem_take (mem_reverse.mp hb)),?_⟩,by simp,hsub,?_,?_⟩
  · exact pairwise_reverse.mpr (hr.apart.sublist (take_sublist _ _))
  · rintro ⟨four,hlen,hin,heq⟩ seq
    rw [take_of_length_le ((hr.least hwin hin heq).trans hlen), ← hr.holds]
    simp [Reported]
  · intro u hu
    have hskip : ∀ seq, Reported u.scoreboard seq → Reported bs seq := hu ▸ hsub
    refine ⟨fun k hk => hskip _ ?_,fun k hk => hskip _ ?_⟩
    · refine nextRexmitSeqFrom_run (n := 0) 64 nofun k ?_
      rwa [after_zero]
    · exact skipSackedFrom_run 64 (n := 0) (after_zero _).symm nofun k hk

def wrapping : Sender :=
  ⟨0,-16,84,84,0,fun _ => 0,0,0,0,[⟨-6,4⟩],true,[],false,false,false,[],[],[]⟩

theorem scoreboard_merges_reports_wrapping :
    (updateScoreboard wrapping [⟨4,14⟩,⟨34,44⟩]).scoreboard = [⟨-6,14⟩,⟨34,44⟩] ∧
    Board (-16) 100 (updateScoreboard wrapping [⟨4,14⟩,⟨34,44⟩]).scoreboard := by
  have hin : ∀ b ∈ [⟨-6,4⟩,⟨4,14⟩,⟨34,44⟩], Within (-16) 100 b := fun b hb =>
    (within_iff (by norm_num)).mpr (by revert b; decide)
  refine ⟨by with_unfolding_all decide,(scoreboard_merges_reports wrapping [⟨4,14⟩,⟨34,44⟩] 100
    (by norm_num) (by with_unfolding_all decide)
    ⟨fun b hb => hin b (mem_of_mem_take (i := 1) hb),pairwise_singleton _ _⟩ (by decide)
    (fun b hb => hin b (mem_of_mem_drop (i := 1) hb)) (by decide)).1⟩

end MoQiOS.Tcp
