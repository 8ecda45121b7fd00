import MoQiOS.LibcHeapWords
import MoQiOS.Runs

/-!
# Whole runs of the C library heap

Calls run on machine words. A signal handler that interrupts the heap may free
only a block in use, and a block whose free is parked is not resized; free
itself takes any pointer, since it checks what it is given.
-/

namespace MoQiOS.LibcHeap
open WordArith Tilings Runs

variable (h : Heap)

def Permitted : Call → Prop
  | .reenteredFree ptr => ptr = 0 ∨ ∃ b ∈ h.blocks, b.free = false ∧ b.addr+headerSize = ptr.toNat
  | .realloc ptr _ => ptr.toNat ∉ h.deferred
  | .reallocarray ptr _ _ => ptr.toNat ∉ h.deferred
  | _ => True

def named : Call → ℕ → Prop
  | .free ptr, p => p = ptr.toNat
  | .realloc ptr _, p => p = ptr.toNat
  | .reallocarray ptr _ _, p => p = ptr.toNat
  | _, _ => False

def memalignUnit (align : ℕ) : ℕ :=
  if align = 0 then 1 else if isPow2 align then align else roundPow2 exact align 64 1

def requestedAlign : Call → ℕ
  | .alignedAlloc align _ => align.toNat
  | .posixMemalign align _ => align.toNat
  | .memalign align _ => memalignUnit align.toNat
  | _ => 1

def requestedSize : Call → ℕ
  | .malloc size => size.toNat
  | .calloc nmemb size => nmemb.toNat*size.toNat
  | .realloc _ size => size.toNat
  | .reallocarray _ nmemb size => nmemb.toNat*size.toNat
  | .alignedAlloc _ size => size.toNat
  | .posixMemalign _ size => size.toNat
  | .memalign _ size => size.toNat
  | _ => 0

def Next (label : HeapGrow × Call) (h' : Heap) : Prop :=
  Permitted h label.2 ∧ h' = (perform machine label.1 h label.2).2

lemma isPow2_exists {n : ℕ} (h : isPow2 n = true) : ∃ k, n = 2^k := by
  simp only [isPow2,Bool.and_eq_true,decide_eq_true_eq] at h
  exact Nat.ne_zero_and_sub_one_eq_zero_iff_isPowerOfTwo.mp h

lemma roundPow2_power (n fuel j : ℕ) : ∃ k, roundPow2 exact n fuel (2^j) = 2^k := by
  induction fuel generalizing j with
  | zero => exact ⟨j,rfl⟩
  | succ fuel ih =>
    rw [roundPow2]
    split_ifs
    · rw [exact_mul,← pow_succ]
      exact ih (j+1)
    · exact ⟨j,rfl⟩

lemma roundPow2_machine (n fuel up : ℕ) (hn : n ≤ 2^63) :
    roundPow2 machine n fuel up = roundPow2 exact n fuel up := by
  induction fuel generalizing up with
  | zero => rfl
  | succ fuel ih =>
    rw [roundPow2,roundPow2]
    split_ifs with hlt
    · rw [product_fits up 2 (by simp only [wordSize]; omega),exact_mul]
      exact ih (up*2)
    · rfl

lemma max_dvd (k p : ℕ) (h : max 16 (2^k) ∣ p) : 16 ∣ p ∧ 2^k ∣ p := by
  rcases Nat.le_total k 4 with hk | hk
  · have hle : 2^k ≤ 16 := Nat.pow_le_pow_right (by decide) hk
    rw [max_eq_left hle] at h
    exact ⟨h,dvd_trans (pow_dvd_pow 2 hk) h⟩
  · have hge : 16 ≤ 2^k := Nat.pow_le_pow_right (n := 2) (by decide) hk
    rw [max_eq_right hge] at h
    exact ⟨dvd_trans (pow_dvd_pow 2 hk) h,h⟩

variable (os : HeapGrow)

lemma perform_machine (h : Heap) (call : Call) (hl : ListOk h.blocks h.regions) :
    perform machine os h call = perform exact os h call := by
  cases call with
  | malloc size => exact malloc_machine os hl _
  | calloc nmemb size => exact calloc_machine os hl _ _
  | free ptr =>
    simp only [perform]
    rw [free_machine hl]
  | realloc ptr size => exact realloc_machine os hl _ _
  | reallocarray ptr nmemb size => exact reallocarray_machine os hl _ _ _
  | alignedAlloc align size =>
    simp only [perform,alignedAlloc]
    by_cases hp : isPow2 align.toNat = true
    · obtain ⟨k,hk⟩ := isPow2_exists hp
      rw [if_pos hp,if_pos hp,hk]
      exact alignedAllocImpl_machine os hl k _
    · rw [if_neg hp,if_neg hp]
  | posixMemalign align size =>
    simp only [perform,posixMemalign]
    by_cases hp : isPow2 align.toNat = true
    · obtain ⟨k,hk⟩ := isPow2_exists hp
      rw [hk,alignedAllocImpl_machine os hl k _]
    · simp [hp]
  | memalign align size =>
    simp only [perform,memalign]
    generalize (if align.toNat = 0 then 1 else align.toNat) = al
    by_cases hp : isPow2 al = true
    · obtain ⟨k,hk⟩ := isPow2_exists hp
      rw [if_pos hp,if_pos hp,hk]
      exact alignedAllocImpl_machine os hl k _
    rw [if_neg hp,if_neg hp]
    by_cases hbig : 2^63 < al
    · rw [if_pos hbig,if_pos hbig]
    rw [if_neg hbig,if_neg hbig,roundPow2_machine al 64 1 (by omega)]
    obtain ⟨k,hk⟩ := roundPow2_power al 64 0
    rw [pow_zero] at hk
    rw [hk]
    exact alignedAllocImpl_machine os hl k _
  | reenteredFree ptr => rfl
  | reenteredAlloc => rfl

structure Served (h h' : Heap) (call : Call) (r : Option ℕ) : Prop where
  ok : HeapOk h'
  keeps : ∀ b ∈ h.blocks, b.free = false → b.addr+headerSize ∉ h.deferred →
    ¬named call (b.addr+headerSize) → b ∈ h'.blocks
  result : ∀ p, r = some p → 16 ∣ p ∧ requestedAlign call ∣ p ∧
    ∃ b ∈ h'.blocks, b.addr+headerSize = p ∧ b.free = false ∧ requestedSize call ≤ b.size

lemma Serves.served {h h' : Heap} {call : Call} {r : Option ℕ} {align size : ℕ}
    (hs : Serves h h' (named call) r align size) (ha : ∀ p, align ∣ p → 16 ∣ p ∧ requestedAlign call ∣ p)
    (hsize : requestedSize call ≤ size) : Served h h' call r := by
  refine ⟨hs.ok,hs.keeps,?_⟩
  intro p hp
  obtain ⟨hal,b,hb,hba,hu,hbs⟩ := hs.result p hp
  exact ⟨(ha p hal).1,(ha p hal).2,b,hb,hba,hu,le_trans hsize hbs⟩

lemma alignedAllocImpl_served (h : Heap) (call : Call) (k size : ℕ) (hh : HeapOk h)
    (ha : requestedAlign call = 2^k) (hs : requestedSize call = size) :
    Served h (alignedAllocImpl exact os h (2^k) size).2 call
      (alignedAllocImpl exact os h (2^k) size).1.ptr := by
  apply ((alignedAllocImpl_serves os h k size hh).named_any _).served _ (le_of_eq hs)
  intro p hp
  rw [ha]
  exact max_dvd k p hp

lemma served_refuse (call : Call) (e : Errno) (hh : HeapOk h) :
    Served h (refuse e h).2 call (refuse e h).1.ptr :=
  ⟨hh,fun _ hb _ _ _ => hb,by simp [refuse]⟩

lemma memalign_served (h : Heap) (align size : UInt64) (hh : HeapOk h) :
    Served h (memalign exact os h align.toNat size.toNat).2 (.memalign align size)
      (memalign exact os h align.toNat size.toNat).1.ptr := by
  unfold memalign
  by_cases hz : align.toNat = 0
  · have hone : isPow2 1 = true := by decide
    simp only [hz,if_true,hone]
    exact alignedAllocImpl_served os h _ 0 _ hh (by simp [requestedAlign,memalignUnit,hz]) rfl
  simp only [hz,if_false]
  by_cases hp : isPow2 align.toNat = true
  · obtain ⟨k,hk⟩ := isPow2_exists hp
    have hreq : requestedAlign (.memalign align size) = 2^k := by
      rw [requestedAlign,memalignUnit,if_neg hz,if_pos hp,hk]
    rw [if_pos hp,hk]
    exact alignedAllocImpl_served os h _ k _ hh hreq rfl
  rw [if_neg hp]
  by_cases hbig : 2^63 < align.toNat
  · rw [if_pos hbig]
    exact served_refuse h _ _ hh
  rw [if_neg hbig]
  obtain ⟨k,hk⟩ := roundPow2_power align.toNat 64 0
  rw [pow_zero] at hk
  have hreq : requestedAlign (.memalign align size) = 2^k := by
    simp only [requestedAlign,memalignUnit,hz,if_false,hp,Bool.false_eq_true,hk]
  rw [hk]
  exact alignedAllocImpl_served os h _ k _ hh hreq rfl

lemma deferFree_served (ptr : UInt64) (hh : HeapOk h)
    (hp : ptr = 0 ∨ ∃ b ∈ h.blocks, b.free = false ∧ b.addr+headerSize = ptr.toNat) :
    Served h (if ptr = 0 then h else deferFree h ptr.toNat) (.reenteredFree ptr) none := by
  have hsame : Served h h (.reenteredFree ptr) none := ⟨hh,fun _ hb _ _ _ => hb,by simp⟩
  split_ifs with hz
  · exact hsame
  have hlive := hp.resolve_left hz
  unfold deferFree
  split_ifs
  · refine ⟨⟨hh.list,?_⟩,fun _ hb _ _ _ => hb,by simp⟩
    intro q hq
    rcases List.mem_append.mp hq with hold | hnew
    · exact hh.parked q hold
    · rw [List.mem_singleton.mp hnew]
      exact hlive
  · exact hsame

lemma perform_served (h : Heap) (call : Call) (hh : HeapOk h) (hp : Permitted h call) :
    Served h (perform exact os h call).2 call (perform exact os h call).1.ptr := by
  have hone : ∀ p, 16 ∣ p → 16 ∣ p ∧ 1 ∣ p := fun p hd => ⟨hd,one_dvd p⟩
  cases call with
  | malloc size => exact (malloc_serves os h size.toNat hh).served hone le_rfl
  | calloc nmemb size =>
    simp only [perform,calloc]
    split_ifs
    · exact served_refuse h _ _ hh
    · exact (malloc_serves os h _ hh).served hone le_rfl
  | free ptr => exact (free_serves h ptr.toNat hh).served hone le_rfl
  | realloc ptr size => exact (realloc_serves os h ptr.toNat size.toNat hh hp).served hone le_rfl
  | reallocarray ptr nmemb size =>
    simp only [perform,reallocarray]
    split_ifs
    · exact served_refuse h _ _ hh
    · exact (realloc_serves os h ptr.toNat _ hh hp).served hone le_rfl
  | alignedAlloc align size =>
    simp only [perform,alignedAlloc]
    by_cases hpow : isPow2 align.toNat = true
    · obtain ⟨k,hk⟩ := isPow2_exists hpow
      rw [if_pos hpow,hk]
      exact alignedAllocImpl_served os h _ k _ hh hk rfl
    · rw [if_neg hpow]
      exact served_refuse h _ _ hh
  | posixMemalign align size =>
    simp only [perform,posixMemalign]
    split_ifs with hbad
    · exact served_refuse h _ _ hh
    simp only [Bool.or_eq_true,not_or,Bool.not_eq_true',Bool.not_eq_false] at hbad
    obtain ⟨k,hk⟩ := isPow2_exists hbad.1
    rw [hk]
    exact alignedAllocImpl_served os h _ k _ hh hk rfl
  | memalign align size => exact memalign_served os h align size hh
  | reenteredFree ptr => exact deferFree_served h ptr hh hp
  | reenteredAlloc => exact served_refuse h _ _ hh

lemma empty_ok : HeapOk empty := by
  refine ⟨⟨by simp [empty],List.Pairwise.nil,fun _ => Iff.rfl,rfl⟩,?_⟩
  simp [empty]

lemma run_ok {h : Heap} (hr : Reaches Next empty h) : HeapOk h :=
  invariant (I := HeapOk)
    (fun s label t hs hn => by
      obtain ⟨hp,rfl⟩ := hn
      rw [perform_machine label.1 s label.2 hs.list]
      exact (perform_served label.1 s label.2 hs hp).ok)
    hr empty_ok

/-- In every heap a run reaches the blocks are in address order, disjoint and
cover exactly the bytes obtained from the system. Every further call computes
on words what it would on unbounded numbers, and a pointer it returns is the
aligned payload of a block in use that is large enough and apart from every
other block, header included. Blocks the call does not name stay as they are. -/
theorem reached_heap_safe {h : Heap} (hr : Reaches Next empty h) : Ordered (h.blocks.map span) ∧
    total (h.blocks.map span) = total h.regions ∧
    (∀ x, Covers (h.blocks.map span) x ↔ Covers h.regions x) ∧
    ∀ (os : HeapGrow) (call : Call), Permitted h call →
      perform machine os h call = perform exact os h call ∧
      (∀ b ∈ h.blocks, b.free = false → b.addr+headerSize ∉ h.deferred →
        ¬named call (b.addr+headerSize) → b ∈ (perform machine os h call).2.blocks) ∧
      ∀ p, (perform machine os h call).1.ptr = some p → 16 ∣ p ∧ requestedAlign call ∣ p ∧
        ∃ b ∈ (perform machine os h call).2.blocks, b.addr+headerSize = p ∧ b.free = false ∧
          requestedSize call ≤ b.size ∧
          ∀ c ∈ (perform machine os h call).2.blocks, c ≠ b →
            c.addr+headerSize+c.size ≤ b.addr ∨ p+b.size ≤ c.addr := by
  have hh := run_ok hr
  refine ⟨hh.list.ordered,hh.list.sum,hh.list.covers,?_⟩
  intro os call hp
  have hm := perform_machine os h call hh.list
  have hs := perform_served os h call hh hp
  rw [hm]
  refine ⟨rfl,hs.keeps,?_⟩
  intro p hptr
  obtain ⟨h16,hal,b,hb,hba,hu,hsize⟩ := hs.result p hptr
  refine ⟨h16,hal,b,hb,hba,hu,hsize,?_⟩
  intro c hc hne
  have hap := apart_of_ordered span hs.ok.list.ordered hc hb hne
  simp only [span] at hap
  omega

lemma region_fits {bytes : ℕ} (h : bytes ≤ 2^20) : 65536+bytes < wordSize := by
  simp only [wordSize]
  omega

def oneRegion : HeapGrow where
  grow regions bytes := if regions = [] ∧ bytes ≤ 2^20 then some 65536 else none
  aligned regions bytes a h := by
    split_ifs at h
    cases h
    decide
  nonnull regions bytes a h := by
    split_ifs at h
    cases h
    decide
  behind regions bytes a h r hr := by
    split_ifs at h with hc
    rw [hc.1] at hr
    cases hr
  fits regions bytes a h := by
    split_ifs at h with hc
    cases h
    exact region_fits hc.2

theorem reached_heap_safe_malloc : (perform machine oneRegion empty (.malloc 24)).2.blocks =
      [⟨65536,32,false,blockMagic⟩,⟨65600,4000,true,blockMagic⟩] ∧
    total ((perform machine oneRegion empty (.malloc 24)).2.blocks.map span) =
      total (perform machine oneRegion empty (.malloc 24)).2.regions := by
  have hr : Reaches Next empty (perform machine oneRegion empty (.malloc 24)).2 :=
    (Reaches.start Next empty).snoc (c := (oneRegion,.malloc 24)) ⟨trivial,rfl⟩
  exact ⟨by decide,(reached_heap_safe hr).2.1⟩

end MoQiOS.LibcHeap
