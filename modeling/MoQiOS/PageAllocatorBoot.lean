import MoQiOS.PageAllocatorInvariant

/-!
# The allocator after boot

The boot loader hands over usable regions that are page aligned and do not
overlap one another. Overlapping regions would be counted twice by the free
counter, so this promise is what makes the counter agree with the bitmap.
-/

namespace MoQiOS.PageAllocator
open WordBits

structure MemmapOk (entries : List MemmapEntry) : Prop where
  aligned : ∀ e ∈ entries, e.kind = .usable → pageSize ∣ e.base ∧ pageSize ∣ e.length
  disjoint : entries.Pairwise (fun a b => a.kind = .usable → b.kind = .usable →
    a.base+a.length ≤ b.base ∨ b.base+b.length ≤ a.base)

inductive Booted : Pmm → Prop where
  | limine (entries : List MemmapEntry) (s : Pmm) (hm : MemmapOk entries)
      (hi : init entries = some s) : Booted s
  | arena (physBase length : ℕ) (s : Pmm) (hi : initArena physBase length = some s) : Booted s

structure Fresh (s : Pmm) : Prop extends Counted s where
  refs : ∀ p, s.refCounts p = 0

variable {s : Pmm}

lemma Fresh.inv (h : Fresh s) (hh : s.minAllocPage ≤ s.nextFreeHint)
    (ha : 64 ∣ s.minAllocPage) : Inv s (fun _ => 0) :=
  ⟨h.toCounted,fun p _ => h.refs p,fun p _ => h.refs p,fun p => by rw [h.refs p]; decide,
    fun p => Or.inr (h.refs p),fun p _ => h.refs p,hh,ha⟩

lemma fresh_blank (total minPage : ℕ) : Fresh (blank total minPage) := by
  refine ⟨⟨?_,?_,(population_zero _).symm⟩,fun _ => rfl⟩
  · intro p hp
    simp [isBitSet,blank,test_zero] at hp
  · simp only [blank]
    omega

lemma fresh_set (h : Fresh s) (p : ℕ) (hp : p < s.totalPages)
    (hb : isBitSet s p = false) : Fresh {setBit s p with freePages := s.freePages+1} := by
  refine ⟨⟨?_,h.size,?_⟩,h.refs⟩
  · intro q hq
    simp only [isBitSet,setBit,test_set,Bool.or_eq_true,decide_eq_true_eq] at hq
    rcases hq with rfl | hq
    · exact hp
    · exact h.bits_lt q hq
  · have hc := population_set s.bitmap (8*s.bitmapSize) p (lt_of_lt_of_le hp h.size) hb
    change s.freePages+1 = population (set s.bitmap p) (8*s.bitmapSize)
    rw [hc,h.free_count]

lemma markFree_min (s : Pmm) (p n : ℕ) : (markFree s p n).minAllocPage = s.minAllocPage := by
  induction n generalizing s p with
  | zero => rfl
  | succ n ih =>
    rw [markFree]
    split_ifs
    · rfl
    · exact ih _ _

lemma fresh_markFree (h : Fresh s) (p n : ℕ) (hb : ∀ q, p ≤ q → q < p+n → isBitSet s q = false) :
    Fresh (markFree s p n) ∧
      ∀ q, isBitSet (markFree s p n) q = true → isBitSet s q = true ∨ (p ≤ q ∧ q < p+n) := by
  induction n generalizing s p with
  | zero => exact ⟨h,fun q hq => Or.inl hq⟩
  | succ n ih =>
    rw [markFree]
    split_ifs with hp
    · exact ⟨h,fun q hq => Or.inl hq⟩
    have hs := fresh_set h p (by omega) (hb p le_rfl (by omega))
    have hrest : ∀ q, p+1 ≤ q → q < p+1+n →
        isBitSet {setBit s p with freePages := s.freePages+1} q = false := by
      intro q hl hr
      have hq := hb q (by omega) (by omega)
      simpa [isBitSet,setBit,test_set,show q ≠ p by omega] using hq
    obtain ⟨hf,hbits⟩ := ih hs (p+1) hrest
    refine ⟨hf,?_⟩
    intro q hq
    rcases hbits q hq with hset | hrange
    · simp only [isBitSet,setBit,test_set,Bool.or_eq_true,decide_eq_true_eq] at hset
      rcases hset with rfl | hold
      · exact .inr ⟨le_refl _,by omega⟩
      · exact .inl hold
    · exact .inr ⟨by omega,by omega⟩

lemma fresh_markUsed (h : Fresh s) (p n : ℕ) :
    Fresh (markUsed s p n) ∧ (markUsed s p n).minAllocPage = s.minAllocPage := by
  induction n generalizing s p with
  | zero => exact ⟨h,rfl⟩
  | succ n ih =>
    rw [markUsed]
    split_ifs with hp
    · obtain ⟨_,_,hr,hm,_⟩ := takePage_frame s p
      have ht : Fresh (takePage s p) := ⟨take_counted h.toCounted p,by rw [hr]; exact h.refs⟩
      obtain ⟨hf,hmin⟩ := ih ht (p+1)
      exact ⟨hf,hmin.trans hm⟩
    · exact ih h (p+1)

def pagesOf (e : MemmapEntry) (q : ℕ) : Prop :=
  e.base/pageSize ≤ q ∧ q < e.base/pageSize+e.length/pageSize

lemma pages_disjoint (a b : MemmapEntry) (ha : pageSize ∣ a.base ∧ pageSize ∣ a.length)
    (hb : pageSize ∣ b.base ∧ pageSize ∣ b.length)
    (h : a.base+a.length ≤ b.base ∨ b.base+b.length ≤ a.base) (q : ℕ)
    (hqa : pagesOf a q) : ¬pagesOf b q := by
  obtain ⟨⟨i,hi⟩,⟨j,hj⟩⟩ := ha
  obtain ⟨⟨k,hk⟩,⟨l,hl⟩⟩ := hb
  simp only [pagesOf,pageSize] at *
  omega

variable (entries : List MemmapEntry)

lemma fresh_usable (s : Pmm) (h : Fresh s) (hm : MemmapOk entries)
    (hb : ∀ e ∈ entries, e.kind = .usable → ∀ q, pagesOf e q → isBitSet s q = false) :
    Fresh (entries.foldl freeUsable s) ∧
      (entries.foldl freeUsable s).minAllocPage = s.minAllocPage := by
  induction entries generalizing s with
  | nil => exact ⟨h,rfl⟩
  | cons e rest ih =>
    have hok : MemmapOk rest :=
      ⟨fun a ha => hm.aligned a (by simp [ha]),(List.pairwise_cons.mp hm.disjoint).2⟩
    have hrest : ∀ a ∈ rest, a.kind = .usable → ∀ q, pagesOf a q → isBitSet s q = false :=
      fun a ha => hb a (by simp [ha])
    rw [List.foldl_cons]
    by_cases hk : e.kind = .usable
    · have he : freeUsable s e = markFree s (e.base/pageSize) (e.length/pageSize) := if_pos hk
      obtain ⟨hf,hbits⟩ := fresh_markFree h (e.base/pageSize) (e.length/pageSize)
        (fun q hl hr => hb e (by simp) hk q ⟨hl,hr⟩)
      rw [he]
      obtain ⟨hfold,hmin⟩ := ih _ hf hok (by
        intro a ha hu q hq
        by_contra hset
        rcases hbits q (by simpa using hset) with hold | hnew
        · rw [hrest a ha hu q hq] at hold
          exact Bool.noConfusion hold
        · exact pages_disjoint e a (hm.aligned e (by simp) hk) (hm.aligned a (by simp [ha]) hu)
            ((List.pairwise_cons.mp hm.disjoint).1 a ha hk hu) q hnew hq)
      exact ⟨hfold,hmin.trans (markFree_min _ _ _)⟩
    · have he : freeUsable s e = s := if_neg hk
      rw [he]
      exact ih s h hok hrest

lemma fresh_kernel (s : Pmm) (h : Fresh s) : Fresh (entries.foldl takeKernel s) ∧
      (entries.foldl takeKernel s).minAllocPage = s.minAllocPage := by
  induction entries generalizing s with
  | nil => exact ⟨h,rfl⟩
  | cons e rest ih =>
    rw [List.foldl_cons]
    by_cases hk : e.kind = .kernelAndModules
    · have he : takeKernel s e = markUsed s (e.base/pageSize) (e.length/pageSize) := if_pos hk
      obtain ⟨hf,hmin⟩ := fresh_markUsed h (e.base/pageSize) (e.length/pageSize)
      obtain ⟨hfold,hfm⟩ := ih _ hf
      rw [he]
      exact ⟨hfold,hfm.trans hmin⟩
    · have he : takeKernel s e = s := if_neg hk
      rw [he]
      exact ih s h

lemma init_inv (s : Pmm) (hm : MemmapOk entries)
    (hi : init entries = some s) : Inv s (fun _ => 0) := by
  unfold init at hi
  split_ifs at hi
  simp only at hi
  split at hi
  · exact absurd hi (by simp)
  rename_i home hfind
  obtain ⟨hu,humin⟩ := fresh_usable entries (blank (highestPhys entries/pageSize) 512)
    (fresh_blank _ _) hm (fun e _ _ q _ => test_zero q)
  obtain ⟨hd,hdmin⟩ := fresh_markUsed hu (home.base/pageSize)
    ((metadataSize (highestPhys entries/pageSize)+pageSize-1)/pageSize)
  obtain ⟨hk,hkmin⟩ := fresh_kernel entries _ hd
  have hmin := hkmin.trans (hdmin.trans humin)
  rw [← Option.some.inj hi]
  refine Fresh.inv ⟨⟨hk.bits_lt,hk.size,hk.free_count⟩,hk.refs⟩ le_rfl ?_
  change 64 ∣ (entries.foldl takeKernel _).minAllocPage
  rw [hmin]
  exact ⟨8,rfl⟩

lemma initArena_inv (physBase length : ℕ) (s : Pmm) (hi : initArena physBase length = some s) :
    Inv s (fun _ => 0) := by
  unfold initArena at hi
  simp only at hi
  split_ifs at hi
  have hblank := fresh_blank (length/pageSize) 0
  have hstart : Fresh {blank (length/pageSize) 0 with arenaMode := true, arenaBase := physBase} :=
    ⟨⟨hblank.bits_lt,hblank.size,hblank.free_count⟩,hblank.refs⟩
  obtain ⟨hf,_⟩ := fresh_markFree hstart 0 (length/pageSize) (fun q _ _ => test_zero q)
  obtain ⟨hd,hmin⟩ := fresh_markUsed hf 0 ((metadataSize (length/pageSize)+pageSize-1)/pageSize)
  have hzero := hmin.trans (markFree_min _ _ _)
  rw [← Option.some.inj hi]
  refine Fresh.inv ⟨⟨hd.bits_lt,hd.size,hd.free_count⟩,hd.refs⟩ ?_ ?_
  · exact hzero.le
  · exact ⟨0,hzero⟩

lemma booted_inv (h : Booted s) : Inv s (fun _ => 0) := by
  cases h with
  | limine entries _ hm hi => exact init_inv entries s hm hi
  | arena physBase length _ hi => exact initArena_inv physBase length s hi

end MoQiOS.PageAllocator
