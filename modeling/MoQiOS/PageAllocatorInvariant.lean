import MoQiOS.PageAllocator
import MoQiOS.Runs

/-!
# Reference accounting over runs of the page allocator

A world pairs the allocator with the references its callers hold. The bitmap,
the counts, the free counter and the hint are related by one invariant. Every
entry point keeps it as long as callers drop only references they hold and
share only live frames. A saturated count is pinned and no longer tracks the
holders; such a frame is never free again.
-/

namespace MoQiOS.PageAllocator
open WordBits Runs

structure World where
  pmm : Pmm
  holders : ℕ → ℕ

structure Counted (s : Pmm) : Prop where
  bits_lt : ∀ p, isBitSet s p = true → p < s.totalPages
  size : s.totalPages ≤ 8*s.bitmapSize
  free_count : s.freePages = population s.bitmap (8*s.bitmapSize)

structure Inv (s : Pmm) (holders : ℕ → ℕ) : Prop extends Counted s where
  free_ref : ∀ p, isBitSet s p = true → s.refCounts p = 0
  managed : ∀ p, s.totalPages ≤ p → s.refCounts p = 0
  ref_le : ∀ p, s.refCounts p ≤ refSaturated
  ref_holders : ∀ p, s.refCounts p = refSaturated ∨ s.refCounts p = holders p
  low : ∀ p, p < s.minAllocPage → s.refCounts p = 0
  hint : s.minAllocPage ≤ s.nextFreeHint
  aligned : 64 ∣ s.minAllocPage

def gain (holders : ℕ → ℕ) (page : ℕ) : ℕ → ℕ :=
  fun p => if p = page then holders p+1 else holders p

def loss (total : ℕ) (holders : ℕ → ℕ) (page : ℕ) : ℕ → ℕ :=
  fun p => if p = page ∧ page < total then holders p-1 else holders p

def Free (s : Pmm) (holders : ℕ → ℕ) (page : ℕ) : Prop :=
  isBitSet s page = true ∧ s.refCounts page = 0 ∧ holders page = 0

variable {s : Pmm} {holders : ℕ → ℕ} {page : ℕ}

lemma free_of_bit (h : Inv s holders) (hb : isBitSet s page = true) : Free s holders page := by
  have hr := h.free_ref page hb
  refine ⟨hb,hr,?_⟩
  rcases h.ref_holders page with hs | hs
  · rw [hr] at hs
    exact absurd hs (by decide)
  · rw [← hs,hr]

lemma bit_lt_size (h : Counted s) (hb : isBitSet s page = true) : page < 8*s.bitmapSize :=
  lt_of_lt_of_le (h.bits_lt page hb) h.size

lemma free_cleared (h : Counted s) (hb : isBitSet s page = true) :
    population (clear s.bitmap page) (8*s.bitmapSize)+1 = s.freePages := by
  rw [h.free_count]
  exact population_clear s.bitmap (8*s.bitmapSize) page (bit_lt_size h hb) hb

lemma takePage_bit (s : Pmm) (page p : ℕ) (h : isBitSet (takePage s page) p = true) :
    isBitSet s p = true := by
  unfold takePage at h
  split_ifs at h
  all_goals first | exact h | skip
  all_goals
    simp only [isBitSet,clearBit,test_clear,Bool.and_eq_true] at h
    exact h.2

lemma takePage_frame (s : Pmm) (page : ℕ) : (takePage s page).totalPages = s.totalPages ∧
    (takePage s page).bitmapSize = s.bitmapSize ∧ (takePage s page).refCounts = s.refCounts ∧
    (takePage s page).minAllocPage = s.minAllocPage ∧
    (takePage s page).nextFreeHint = s.nextFreeHint := by
  unfold takePage
  split_ifs <;> exact ⟨rfl,rfl,rfl,rfl,rfl⟩

lemma take_counted (h : Counted s) (page : ℕ) : Counted (takePage s page) := by
  obtain ⟨ht,hz,_,_,_⟩ := takePage_frame s page
  refine ⟨fun p hq => by rw [ht]; exact h.bits_lt p (takePage_bit s page p hq),
    by rw [ht,hz]; exact h.size,?_⟩
  rw [hz]
  unfold takePage
  split_ifs with hb hp
  · change s.freePages-1 = population (clear s.bitmap page) (8*s.bitmapSize)
    rw [← free_cleared h hb,Nat.add_sub_cancel]
  · rw [← free_cleared h hb] at hp
    exact absurd (Nat.succ_pos _) hp
  · exact h.free_count

variable (h : Inv s holders)
include h

lemma take_inv (page : ℕ) : Inv (takePage s page) holders := by
  obtain ⟨ht,hz,hr,hm,hn⟩ := takePage_frame s page
  refine ⟨take_counted h.toCounted page,?_,?_,?_,?_,?_,?_,?_⟩
  · intro p hq
    rw [hr]
    exact h.free_ref p (takePage_bit s page p hq)
  · rw [hr,ht]; exact h.managed
  · rw [hr]; exact h.ref_le
  · rw [hr]; exact h.ref_holders
  · rw [hr,hm]; exact h.low
  · rw [hm,hn]; exact h.hint
  · rw [hm]; exact h.aligned

lemma raise_inv (page : ℕ) (hl : 0 < s.refCounts page) :
    Inv (setRef s page (min (s.refCounts page+1) refSaturated)) (gain holders page) := by
  have href : ∀ p, (setRef s page (min (s.refCounts page+1) refSaturated)).refCounts p =
      if p = page then min (s.refCounts page+1) refSaturated else s.refCounts p := fun p => rfl
  have hzero : ∀ p, s.refCounts p = 0 →
      (setRef s page (min (s.refCounts page+1) refSaturated)).refCounts p = 0 := by
    intro p hz
    rw [href,if_neg (fun hp => by subst hp; omega)]
    exact hz
  refine ⟨⟨h.bits_lt,h.size,h.free_count⟩,fun p hq => hzero p (h.free_ref p hq),
    fun p hq => hzero p (h.managed p hq),?_,?_,fun p hq => hzero p (h.low p hq),h.hint,h.aligned⟩
  · intro p
    rw [href]
    split_ifs
    · exact Nat.min_le_right _ _
    · exact h.ref_le p
  · intro p
    rw [href]
    by_cases hp : p = page
    · subst hp
      have hle := h.ref_le p
      rcases h.ref_holders p with hs | hs
      · left
        simp [hs]
      · simp only [if_true,gain,← hs]
        omega
    · simpa [gain,hp] using h.ref_holders p

lemma lower_ref (page : ℕ)
    (hp : page < s.totalPages) (hs : s.refCounts page ≠ refSaturated) (p : ℕ) :
    (setRef s page (s.refCounts page-1)).refCounts p = refSaturated ∨
      (setRef s page (s.refCounts page-1)).refCounts p = loss s.totalPages holders page p := by
  by_cases hq : p = page
  · subst hq
    right
    have hh := (h.ref_holders p).resolve_left hs
    simp [setRef,loss,hp,hh]
  · simpa [setRef,loss,hq] using h.ref_holders p

lemma lower_inv (page : ℕ)
    (hp : page < s.totalPages) (hs : s.refCounts page ≠ refSaturated) :
    Inv (setRef s page (s.refCounts page-1)) (loss s.totalPages holders page) := by
  have hzero : ∀ p, s.refCounts p = 0 → (setRef s page (s.refCounts page-1)).refCounts p = 0 := by
    intro p hz
    by_cases hne : p = page
    · subst hne
      simp [setRef,hz]
    · simpa [setRef,hne] using hz
  refine ⟨⟨h.bits_lt,h.size,h.free_count⟩,fun p hq => hzero p (h.free_ref p hq),
    fun p hq => hzero p (h.managed p hq),?_,lower_ref h page hp hs,
    fun p hq => hzero p (h.low p hq),h.hint,h.aligned⟩
  intro p
  have hle := h.ref_le p
  by_cases hne : p = page
  · subst hne
    simp only [setRef,if_true]
    omega
  · simpa [setRef,hne] using hle

lemma pinned_inv (page : ℕ)
    (hs : s.refCounts page = refSaturated) : Inv s (loss s.totalPages holders page) := by
  refine ⟨h.toCounted,h.free_ref,h.managed,h.ref_le,?_,h.low,h.hint,h.aligned⟩
  intro p
  by_cases hp : p = page
  · exact .inl (by rw [hp,hs])
  · simpa [loss,hp] using h.ref_holders p

/-- The last dropped reference returns the frame to the bitmap; an earlier one
only lowers the count. -/
lemma drop_inv (page : ℕ)
    (hp : page < s.totalPages) (hr : s.refCounts page ≠ 0) :
    Inv (dropRefLocked s page) (loss s.totalPages holders page) := by
  by_cases hs : s.refCounts page = refSaturated
  · rw [dropRefLocked,if_pos hs]
    exact pinned_inv h page hs
  rw [dropRefLocked,if_neg hs]
  have hl := lower_inv h page hp hs
  have hb : isBitSet s page = false := by
    by_contra hb
    exact hr (h.free_ref page (by simpa using hb))
  have hself : (setRef s page (s.refCounts page-1)).refCounts page = s.refCounts page-1 := by
    simp [setRef]
  simp only [hself]
  by_cases hz : s.refCounts page-1 = 0
  · rw [if_pos hz]
    have hc := population_set s.bitmap (8*s.bitmapSize) page (lt_of_lt_of_le hp h.size) hb
    refine ⟨⟨?_,hl.size,?_⟩,?_,hl.managed,hl.ref_le,hl.ref_holders,hl.low,?_,hl.aligned⟩
    · intro p hq
      simp only [isBitSet,setBit,setRef,test_set,Bool.or_eq_true,decide_eq_true_eq] at hq
      rcases hq with rfl | hq
      · exact hp
      · exact h.bits_lt p hq
    · have hf := h.free_count
      change s.freePages+1 = population (set s.bitmap page) (8*s.bitmapSize)
      omega
    · intro p hq
      simp only [isBitSet,setBit,setRef,test_set,Bool.or_eq_true,decide_eq_true_eq] at hq
      rcases hq with rfl | hq
      · simpa [setBit,setRef] using hz
      · exact hl.free_ref p hq
    · have hlow : s.minAllocPage ≤ page := by
        by_contra hlt
        exact hr (h.low page (by omega))
      have hh := h.hint
      change s.minAllocPage ≤ if page < s.nextFreeHint then page else s.nextFreeHint
      split_ifs <;> omega
  · rw [if_neg hz]
    exact hl

lemma hint_inv : Inv {s with nextFreeHint := s.minAllocPage} holders :=
  ⟨⟨h.bits_lt,h.size,h.free_count⟩,h.free_ref,h.managed,h.ref_le,h.ref_holders,h.low,le_refl _,
    h.aligned⟩

end MoQiOS.PageAllocator
