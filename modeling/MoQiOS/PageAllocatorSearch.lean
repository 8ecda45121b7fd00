import MoQiOS.PageAllocatorInvariant

/-!
# What the frame searches return

Under the invariant the word scan never meets a stale bit: its first set bit
is already a grantable frame. Both searches therefore either leave the bitmap
alone or grant frames that were free when the search began.
-/

namespace MoQiOS.PageAllocator
open WordBits

section
variable {s : Pmm} {holders : ℕ → ℕ}

lemma scan_word (h : Inv s holders) (w : ℕ) (hw : s.minAllocPage ≤ w*64) :
    (∀ p, w*64 ≤ p → p < w*64+64 → isBitSet s p = false) ∧
      scanWord s w (word s.bitmap w) = .next s ∨ ∃ page, isBitSet s page = true ∧
      s.minAllocPage ≤ page ∧ scanWord s w (word s.bitmap w) = .found page (grantPage s page) := by
  by_cases hz : word s.bitmap w = 0#64
  · refine .inl ⟨fun p hl hr => ?_,by rw [scanWord,dif_pos hz]⟩
    have hbit := word_bit s.bitmap w (p-w*64) (by omega)
    rw [hz,Nat.add_sub_cancel' hl] at hbit
    exact hbit.symm.trans BitVec.getLsbD_zero
  right
  have hlt := lowest_lt _ hz
  have hbit : isBitSet s (w*64+(word s.bitmap w).ctz.toNat) = true := by
    rw [isBitSet,← word_bit _ _ _ hlt]
    exact BitVec.getLsbD_true_ctz_of_ne_zero hz
  have hin := h.bits_lt _ hbit
  have href := h.free_ref _ hbit
  refine ⟨_,hbit,by omega,?_⟩
  rw [scanWord,dif_neg hz]
  simp only [Nat.not_le.mpr hin,if_false]
  rw [if_pos ⟨by omega,href⟩]

lemma scan_words (h : Inv s holders) (n w : ℕ) (hw : s.minAllocPage ≤ w*64) :
    (∀ p, w*64 ≤ p → p < (w+n)*64 → isBitSet s p = false) ∧ scanWords s w n = .next s ∨
      ∃ page, isBitSet s page = true ∧
      s.minAllocPage ≤ page ∧ scanWords s w n = .found page (grantPage s page) := by
  induction n generalizing w with
  | zero => exact .inl ⟨fun p hl hr => by omega,rfl⟩
  | succ n ih =>
    rcases scan_word h w hw with ⟨hz,hn⟩ | ⟨page,hb,hm,hf⟩
    · simp only [scanWords,hn]
      refine (ih (w+1) (by omega)).imp_left (fun hrest => ⟨fun p hl hr => ?_,hrest.2⟩)
      rcases Nat.lt_or_ge p (w*64+64) with hp | hp
      · exact hz p hl hp
      · exact hrest.1 p (by omega) (by omega)
    · right
      exact ⟨page,hb,hm,by simp only [scanWords,hf]⟩

lemma allocPageLocked_cases (h : Inv s holders) :
    (∀ p, s.minAllocPage ≤ p → p < 64*(s.bitmapSize/8) → isBitSet s p = false) ∧
      allocPageLocked s = (none, {s with nextFreeHint := s.minAllocPage}) ∨
    ∃ page, isBitSet s page = true ∧ s.minAllocPage ≤ page ∧
      allocPageLocked s = (some (physFromPage s page), grantPage s page) := by
  obtain ⟨k,hk⟩ := h.aligned
  have hh := h.hint
  rcases scan_words h (s.bitmapSize/8-s.nextFreeHint/64) (s.nextFreeHint/64) (by omega) with
    ⟨hz,hn⟩ | ⟨page,hb,hm,hf⟩
  · rcases scan_words h (min (s.nextFreeHint/64+1) (s.bitmapSize/8)-s.minAllocPage/64)
      (s.minAllocPage/64) (by omega) with ⟨hz2,hn2⟩ | ⟨page,hb,hm,hf⟩
    · refine .inl ⟨fun p hl hr => ?_,by simp only [allocPageLocked,hn,hn2]⟩
      -- the second pass ends with the word in which the first began
      rcases Nat.lt_or_ge p (s.nextFreeHint/64*64) with hp | hp
      · exact hz2 p (by omega) (by omega)
      · exact hz p hp (by omega)
    · right
      exact ⟨page,hb,hm,by simp only [allocPageLocked,hn,hf]⟩
  · right
    exact ⟨page,hb,hm,by simp only [allocPageLocked,hf]⟩

lemma grantRun_succ (s : Pmm) (start n : ℕ) : grantRun s start (n+1) =
      setRef (clearBit (grantRun s start n) (start+n)) (start+n) 1 := by
  simp [grantRun,List.range_succ]

lemma grantRun_frame (s : Pmm) (start n : ℕ) : (grantRun s start n).bitmapSize = s.bitmapSize ∧
    (grantRun s start n).totalPages = s.totalPages ∧
    (grantRun s start n).minAllocPage = s.minAllocPage := by
  induction n with
  | zero => exact ⟨rfl,rfl,rfl⟩
  | succ n ih =>
    rw [grantRun_succ]
    exact ih

lemma grantRun_bit (s : Pmm) (start n p : ℕ) : isBitSet (grantRun s start n) p =
      (!decide (start ≤ p ∧ p < start+n) && isBitSet s p) := by
  induction n with
  | zero =>
    rw [decide_eq_false (show ¬(start ≤ p ∧ p < start+0) by omega)]
    rfl
  | succ n ih =>
    have hs : isBitSet (grantRun s start (n+1)) p =
        (!decide (p = start+n) && isBitSet (grantRun s start n) p) := by
      rw [grantRun_succ]
      exact test_clear _ _ _
    rw [hs,ih,← Bool.and_assoc,← Bool.not_or,← Bool.decide_or]
    congr 3
    exact propext (by omega)

lemma grantRun_ref (s : Pmm) (start n p : ℕ) : (grantRun s start n).refCounts p =
      if start ≤ p ∧ p < start+n then 1 else s.refCounts p := by
  induction n with
  | zero => rw [if_neg (by omega)]; rfl
  | succ n ih =>
    have hs : (grantRun s start (n+1)).refCounts p =
        if p = start+n then 1 else (grantRun s start n).refCounts p := by
      rw [grantRun_succ]
      rfl
    rw [hs,ih]
    split_ifs <;> first | rfl | omega

lemma grantRun_population (h : Inv s holders) (start n : ℕ)
    (hb : ∀ p, start ≤ p → p < start+n → isBitSet s p = true) :
    population (grantRun s start n).bitmap (8*s.bitmapSize)+n = s.freePages := by
  induction n with
  | zero => exact h.free_count.symm
  | succ n ih =>
    have hprev := ih (fun p hl hr => hb p hl (by omega))
    have hbit : test (grantRun s start n).bitmap (start+n) = true := by
      have hg := grantRun_bit s start n (start+n)
      rw [isBitSet] at hg
      rw [hg,hb (start+n) (by omega) (by omega)]
      simp
    have hlt := bit_lt_size h.toCounted (hb (start+n) (by omega) (by omega))
    have hc := population_clear _ (8*s.bitmapSize) (start+n) hlt hbit
    rw [grantRun_succ]
    change population (clear (grantRun s start n).bitmap (start+n)) (8*s.bitmapSize)+(n+1) = _
    omega

def gainRun (holders : ℕ → ℕ) (start count : ℕ) : ℕ → ℕ :=
  fun p => if start ≤ p ∧ p < start+count then holders p+1 else holders p

lemma run_inv (h : Inv s holders) (start count : ℕ) (hm : s.minAllocPage ≤ start)
    (hb : ∀ p, start ≤ p → p < start+count → isBitSet s p = true) : Inv {grantRun s start count with
      freePages := s.freePages-count, nextFreeHint := start+count}
      (gainRun holders start count) := by
  obtain ⟨hsize,htotal,hmin⟩ := grantRun_frame s start count
  have hbits : ∀ p, isBitSet (grantRun s start count) p = true →
      ¬(start ≤ p ∧ p < start+count) ∧ isBitSet s p = true := by
    intro p hq
    rw [grantRun_bit,Bool.and_eq_true,Bool.not_eq_true',decide_eq_false_iff_not] at hq
    exact hq
  refine ⟨⟨?_,?_,?_⟩,?_,?_,?_,?_,?_,?_,?_⟩
  · intro p hq
    change p < (grantRun s start count).totalPages
    rw [htotal]
    exact h.bits_lt p (hbits p hq).2
  · change (grantRun s start count).totalPages ≤ 8*(grantRun s start count).bitmapSize
    rw [htotal,hsize]
    exact h.size
  · have hp := grantRun_population h start count hb
    change s.freePages-count =
      population (grantRun s start count).bitmap (8*(grantRun s start count).bitmapSize)
    rw [hsize]
    omega
  · intro p hq
    change (grantRun s start count).refCounts p = 0
    rw [grantRun_ref,if_neg (hbits p hq).1]
    exact h.free_ref p (hbits p hq).2
  · intro p hp
    change (grantRun s start count).totalPages ≤ p at hp
    change (grantRun s start count).refCounts p = 0
    rw [htotal] at hp
    rw [grantRun_ref,if_neg (fun hq => by have := h.bits_lt p (hb p hq.1 hq.2); omega)]
    exact h.managed p hp
  · intro p
    change (grantRun s start count).refCounts p ≤ refSaturated
    rw [grantRun_ref]
    split_ifs
    · decide
    · exact h.ref_le p
  · intro p
    change (grantRun s start count).refCounts p = refSaturated ∨
      (grantRun s start count).refCounts p = _
    rw [grantRun_ref]
    by_cases hp : start ≤ p ∧ p < start+count
    · right
      simp [gainRun,hp,(free_of_bit h (hb p hp.1 hp.2)).2.2]
    · simpa [gainRun,hp] using h.ref_holders p
  · intro p hp
    change p < (grantRun s start count).minAllocPage at hp
    change (grantRun s start count).refCounts p = 0
    rw [hmin] at hp
    rw [grantRun_ref,if_neg (by omega)]
    exact h.low p hp
  · change (grantRun s start count).minAllocPage ≤ start+count
    rw [hmin]
    omega
  · change 64 ∣ (grantRun s start count).minAllocPage
    rw [hmin]
    exact h.aligned

lemma firstBusy_none (start count : ℕ) (hn : firstBusy s start count = none) (p : ℕ)
    (hl : start ≤ p) (hr : p < start+count) : isBitSet s p = true := by
  have hall := List.find?_eq_none.mp hn p (List.mem_map.mpr ⟨p-start,by simp; omega,by omega⟩)
  simp only [Bool.or_eq_true,not_or,Bool.not_eq_true',Bool.not_eq_false] at hall
  exact hall.1

lemma tryAlloc_run (start count : ℕ) (run : ℕ×Pmm)
    (ht : tryAllocContiguousAt s start count = .inr run) :
    run = (start, {grantRun s start count with
      freePages := s.freePages-count, nextFreeHint := start+count}) ∧
    ∀ p, start ≤ p → p < start+count → isBitSet s p = true := by
  unfold tryAllocContiguousAt at ht
  cases hb : firstBusy s start count with
  | some page => simp [hb] at ht
  | none =>
    simp only [hb,Sum.inr.injEq] at ht
    exact ⟨ht.symm,firstBusy_none start count hb⟩

lemma searchRun_run (count alignment limit start : ℕ) (run : ℕ×Pmm)
    (hs : searchRun s count alignment limit start = some (some run)) :
    start ≤ run.1 ∧ run = (run.1, {grantRun s run.1 count with
      freePages := s.freePages-count, nextFreeHint := run.1+count}) ∧
    ∀ p, run.1 ≤ p → p < run.1+count → isBitSet s p = true := by
  fun_induction searchRun s count alignment limit start with
  | case1 => simp at hs
  | case2 => simp at hs
  | case3 => simp at hs
  | case4 => simp at hs
  | case5 start _ _ _ candidate _ _ run' ht =>
    obtain ⟨he,hb⟩ := tryAlloc_run candidate count run' ht
    simp only [Option.some.injEq] at hs
    subst hs
    rw [he]
    exact ⟨alignUp_ge start alignment,rfl,hb⟩
  | case6 start _ _ _ candidate _ _ next ht ih =>
    obtain ⟨hge,hrun⟩ := ih hs
    have hskip := skip_gt s candidate count next ht
    have hup : start ≤ candidate := alignUp_ge start alignment
    exact ⟨by omega,hrun⟩
  | case7 => simp at hs

end

end MoQiOS.PageAllocator
