import MoQiOS.LibcHeapCalls

/-!
# Public heap calls under unbounded arithmetic

The calls lift the locked operations over the release of the heap lock, which
drains the parked frees. A parked pointer designates a block that is still in
use, so no allocation can hand that block out before it is drained.
-/

namespace MoQiOS.LibcHeap
open WordArith Tilings Nat

structure AlignedAt (align want : ℕ) (b : Block) (a : ℕ) : Prop where
  multiple : align ∣ a
  lead : a = b.addr+headerSize ∨ b.addr+headerSize+headerSize ≤ a
  inside : a-(b.addr+headerSize) ≤ b.size
  room : want ≤ b.size-(a-(b.addr+headerSize))

def roundUp (align p : ℕ) : ℕ := (p+align-1)/align*align

lemma roundUp_spec (align p : ℕ) (ha : 0 < align) :
    p ≤ roundUp align p ∧ align ∣ roundUp align p := by
  unfold roundUp
  constructor
  · have hd := div_add_mod (p+align-1) align
    have hm := mod_lt (p+align-1) ha
    rw [mul_comm] at hd
    omega
  · exact dvd_mul_left _ _

lemma alignedStart_exact (align p : ℕ) : alignedStart exact align p =
    if roundUp align p ≠ p ∧ roundUp align p-p < headerSize
      then roundUp align p+align else roundUp align p := rfl

lemma alignedStart_spec (align p : ℕ) (ha : 32 ≤ align) : align ∣ alignedStart exact align p ∧
      (alignedStart exact align p = p ∨ p+headerSize ≤ alignedStart exact align p) := by
  obtain ⟨hge,hdiv⟩ := roundUp_spec align p (by omega)
  rw [alignedStart_exact]
  split_ifs with hc
  · refine ⟨(Nat.dvd_add_right hdiv).mpr (dvd_refl _),Or.inr ?_⟩
    simp only [headerSize] at *
    omega
  · refine ⟨hdiv,?_⟩
    omega

lemma alignedFit_exact (align want : ℕ) (b : Block) : alignedFit exact align want b =
      if alignedStart exact align (b.addr+headerSize) < b.addr+headerSize ∨
        b.size < alignedStart exact align (b.addr+headerSize)-(b.addr+headerSize) ∨
        b.size-(alignedStart exact align (b.addr+headerSize)-(b.addr+headerSize)) < want
      then none else some (alignedStart exact align (b.addr+headerSize)) := rfl

lemma carveAligned_exact (want a : ℕ) (b : Block) :
    carveAligned exact want a b = if a = b.addr+headerSize then use (split exact b want)
      else {b with size := a-(b.addr+headerSize)-headerSize}::
        use (split exact (fresh (a-headerSize) (b.size-(a-(b.addr+headerSize)))) want) := rfl

lemma alignedFit_spec (align want : ℕ) (b : Block) (a : ℕ) (ha : 32 ≤ align)
    (hf : alignedFit exact align want b = some a) : AlignedAt align want b a := by
  obtain ⟨hdiv,hlead⟩ := alignedStart_spec align (b.addr+headerSize) ha
  rw [alignedFit_exact] at hf
  split_ifs at hf with hno
  have he := Option.some.inj hf
  push Not at hno
  subst he
  exact ⟨hdiv,hlead,hno.2.1,hno.2.2⟩

lemma lead_moves (b : Block) (a : ℕ) (rest : List Block) (ha : 16 ∣ a)
    (hlead : b.addr+headerSize+headerSize ≤ a) (hin : a-(b.addr+headerSize) ≤ b.size)
    (hb : b.free = true) :
    Moves (fun _ => True) (b::rest) ({b with size := a-(b.addr+headerSize)-headerSize}::
      fresh (a-headerSize) (b.size-(a-(b.addr+headerSize)))::rest) := by
  refine ⟨?_,?_,?_⟩
  · have hc := Recut.cut b.addr (headerSize+(a-(b.addr+headerSize)-headerSize))
      (headerSize+(b.size-(a-(b.addr+headerSize)))) (rest.map span)
    have h1 : headerSize+(a-(b.addr+headerSize)-headerSize)+
        (headerSize+(b.size-(a-(b.addr+headerSize)))) = headerSize+b.size := by omega
    have h2 : b.addr+(headerSize+(a-(b.addr+headerSize)-headerSize)) = a-headerSize := by omega
    rw [h1,h2] at hc
    exact hc
  · intro ho c hc
    have hk := ho b (by simp)
    obtain ⟨i,hi⟩ := hk.addr_aligned
    obtain ⟨j,hj⟩ := hk.size_aligned
    obtain ⟨m,hm⟩ := ha
    have hfit := hk.fits
    simp only [List.mem_cons] at hc
    simp only [headerSize] at *
    rcases hc with rfl | rfl | hc
    · refine ⟨hk.addr_aligned,hk.addr_pos,⟨m-i-4,?_⟩,hk.magic,?_⟩
      · simp only
        omega
      · simp only [headerSize]
        omega
    · refine fresh_ok _ _ ⟨m-2,by omega⟩ (by omega) ⟨j-(m-i-2),by omega⟩ ?_
      simp only [headerSize]
      omega
    · exact ho c (by simp [hc])
  · intro c hc hf _
    rcases List.mem_cons.mp hc with he | hc
    · rw [he,hb] at hf
      exact Bool.noConfusion hf
    · simp [hc]

lemma carveAligned_moves (align want a : ℕ) (b : Block) (rest : List Block) (hal : 16 ∣ align)
    (hw : 16 ∣ want) (hb : b.free = true) (hfit : AlignedAt align want b a) :
    Moves (fun _ => True) (b::rest) (carveAligned exact want a b++rest) ∧
      ∃ c ∈ carveAligned exact want a b, c.addr+headerSize = a ∧ c.free = false ∧ want ≤ c.size := by
  rw [carveAligned_exact]
  by_cases he : a = b.addr+headerSize
  · rw [if_pos he]
    have hroom := hfit.room
    have hzero : a-(b.addr+headerSize) = 0 := by omega
    rw [hzero] at hroom
    obtain ⟨hm,c,hcm,hca,hcf,hcs⟩ := take_moves b want rest hw hroom hb
    exact ⟨hm,c,hcm,by rw [hca,he],hcf,hcs⟩
  rw [if_neg he]
  have hlead := hfit.lead.resolve_left he
  have hcut := lead_moves b a rest (dvd_trans hal hfit.multiple) hlead hfit.inside hb
  obtain ⟨hm,c,hcm,hca,hcf,hcs⟩ := take_moves
    (fresh (a-headerSize) (b.size-(a-(b.addr+headerSize)))) want rest hw hfit.room rfl
  refine ⟨hcut.trans (hm.cons _),c,by simp [hcm],?_,hcf,hcs⟩
  rw [hca]
  simp only [fresh]
  omega

lemma searchAligned_spec (align want a : ℕ) (l l' : List Block) (regions : List Piece)
    (ha : 32 ≤ align) (hal : 16 ∣ align) (hw : 16 ∣ want) (hl : ListOk l regions)
    (hs : searchAligned exact align want l = some (l', a)) :
    Moves (fun _ => True) l l' ∧ align ∣ a ∧
      (∃ c ∈ l', c.addr+headerSize = a ∧ c.free = false ∧ want ≤ c.size) ∧
      ∀ b ∈ l, b.free = false → b.addr+headerSize ≠ a := by
  obtain ⟨pre,b,rest,new,hpre,hf,hnew⟩ := walk_some _ _ _ hs
  split_ifs at hf with hb
  simp only [Option.map_eq_some_iff,Prod.mk.injEq] at hf
  obtain ⟨a',hfit,rfl,rfl⟩ := hf
  have hat := alignedFit_spec align want b _ ha hfit
  obtain ⟨hm,c,hcm,hca,hcf,hcs⟩ := carveAligned_moves align want _ b rest hal hw hb hat
  have hall := hm.inside pre
  rw [← hpre] at hall
  simp only at hnew
  rw [hnew]
  refine ⟨hall,hat.multiple,⟨c,by simp [hcm],hca,hcf,hcs⟩,?_⟩
  intro d hd hdu he
  have hne : d ≠ b := by
    rintro rfl
    rw [hb] at hdu
    exact Bool.noConfusion hdu
  have hbm : b ∈ l := by rw [hpre]; simp
  have hap := apart_of_ordered span hl.ordered hd hbm hne
  have hin := hat.inside
  have hld := hat.lead
  simp only [span,headerSize] at *
  omega

lemma alignedLocked_spec (os : HeapGrow) (h : Heap) (align want : ℕ) (ha : 32 ≤ align)
    (hal : 16 ∣ align) (hw : 16 ∣ want) (hl : ListOk h.blocks h.regions) :
    let out := alignedLocked exact os h align want
    Kept h out.2 (fun _ => False) out.1 want ∧ ∀ a, out.1 = some a → align ∣ a := by
  unfold alignedLocked
  cases hs : searchAligned exact align want h.blocks with
  | some found =>
    obtain ⟨l',a⟩ := found
    obtain ⟨hm,hdiv,hblock,hun⟩ := searchAligned_spec align want a _ l' _ ha hal hw hl hs
    refine ⟨⟨hl.moves hm,fun b hb hu _ => hm.keeps b hb hu trivial,?_,rfl⟩,?_⟩
    · rintro _ ⟨⟩
      exact ⟨hblock,.inr hun⟩
    · rintro _ ⟨⟩
      exact hdiv
  | none =>
    simp only
    rcases hg : grow exact os h (exact.add (exact.add want align) headerSize) with _ | out
    · exact ⟨.same hl,nofun⟩
    have hgs := grow_spec os h _ hl out hg
    have hin : ∀ b ∈ h.blocks, b ∈ out.2.blocks := by
      intro b hb
      rw [hgs.blocks]
      exact List.mem_append_left _ hb
    simp only
    rcases hs2 : searchAligned exact align want out.2.blocks with _ | found
    · exact ⟨⟨hgs.list,fun b hb _ _ => hin b hb,nofun,hgs.deferred⟩,nofun⟩
    obtain ⟨l',a⟩ := found
    obtain ⟨hm,hdiv,hblock,hun⟩ := searchAligned_spec align want a _ l' _ ha hal hw hgs.list hs2
    refine ⟨⟨hgs.list.moves hm,fun b hb hu _ => hm.keeps b (hin b hb) hu trivial,?_,
      hgs.deferred⟩,?_⟩
    · rintro _ ⟨⟩
      exact ⟨hblock,.inr fun b hb hu => hun b (hin b hb) hu⟩
    · rintro _ ⟨⟩
      exact hdiv

structure HeapOk (h : Heap) : Prop where
  list : ListOk h.blocks h.regions
  parked : ∀ p ∈ h.deferred, ∃ b ∈ h.blocks, b.free = false ∧ b.addr+headerSize = p

/-- A call serves its caller: the heap stays well formed, every block in use
that was neither parked nor named by the call is untouched, and a returned
pointer is the payload of a block in use, aligned and large enough. -/
structure Serves (h h' : Heap) (named : ℕ → Prop) (r : Option ℕ) (align size : ℕ) : Prop where
  ok : HeapOk h'
  keeps : ∀ b ∈ h.blocks, b.free = false → b.addr+headerSize ∉ h.deferred →
    ¬named (b.addr+headerSize) → b ∈ h'.blocks
  result : ∀ p, r = some p → align ∣ p ∧
    ∃ b ∈ h'.blocks, b.addr+headerSize = p ∧ b.free = false ∧ size ≤ b.size

lemma serves_same (h : Heap) (named : ℕ → Prop) (align size : ℕ) (hh : HeapOk h) :
    Serves h h named none align size :=
  ⟨hh,fun _ hb _ _ _ => hb,by simp⟩

/-- A block that is returned survives the drain, since what is parked was in
use before the call and is not what the call returns. -/
lemma Kept.release {h h' : Heap} {named n : ℕ → Prop} {r : Option ℕ} {want align size : ℕ}
    (hk : Kept h h' n r want) (hh : HeapOk h) (hn : ∀ p, n p → named p)
    (hptr : ∀ p, r = some p → n p → p ∉ h.deferred) (hs : size ≤ want)
    (hal : ∀ p, r = some p → align ∣ p) : Serves h (heapRelease exact h') named r align size := by
  have hf := heapRelease_spec h' hk.list
  refine ⟨⟨hf.list,by rw [hf.deferred]; simp⟩,?_,?_⟩
  · intro b hb hu hd hne
    exact hf.keeps b (hk.keeps b hb hu (fun h => hne (hn _ h))) hu (by rw [hk.deferred]; exact hd)
  · intro p hp
    obtain ⟨⟨b,hb,ha,hu,hsize⟩,hun⟩ := hk.result p hp
    refine ⟨hal p hp,b,hf.keeps b hb hu ?_,ha,hu,hs.trans hsize⟩
    rw [hk.deferred,ha]
    intro hpark
    rcases hun with hnamed | hun
    · exact hptr p hp hnamed hpark
    · obtain ⟨c,hc,hcu,hca⟩ := hh.parked _ hpark
      exact hun c hc hcu hca

lemma want_spec (size : ℕ) : 16 ∣ alignUp exact (if size = 0 then 1 else size) ∧
    size ≤ alignUp exact (if size = 0 then 1 else size) := by
  rw [alignUp_exact]
  constructor
  · exact dvd_mul_left _ _
  · split_ifs <;> omega

lemma malloc_serves (os : HeapGrow) (h : Heap) (size : ℕ) (hh : HeapOk h) :
    Serves h (malloc exact os h size).2 (fun _ => False) (malloc exact os h size).1.ptr 16 size := by
  obtain ⟨hw,hsize⟩ := want_spec size
  unfold malloc
  by_cases hlim : sizeLimit < size
  · rw [if_pos hlim]
    exact serves_same h _ _ _ hh
  rw [if_neg hlim]
  cases hm : mallocLocked exact os h (alignUp exact (if size = 0 then 1 else size)) with
  | none => exact (Kept.same hh.list).release hh (fun _ => id) nofun hsize nofun
  | some out =>
    have hg := mallocLocked_spec os h _ out.1 out.2 hw hh.list hm
    exact hg.release hh (fun _ => id) (fun _ _ => False.elim) hsize hg.aligned

lemma free_serves (h : Heap) (ptr : ℕ) (hh : HeapOk h) :
    Serves h (free exact h ptr) (· = ptr) none 16 0 := by
  unfold free
  by_cases hz : ptr = 0
  · rw [if_pos hz]
    exact serves_same h _ _ _ hh
  rw [if_neg hz]
  exact (freeLocked_spec h ptr hh.list).release hh (fun _ => id) nofun le_rfl nofun

lemma Serves.named_any {h h' : Heap} {r : Option ℕ} {align size : ℕ} (named : ℕ → Prop)
    (hs : Serves h h' (fun _ => False) r align size) : Serves h h' named r align size :=
  ⟨hs.ok,fun b hb hu hd _ => hs.keeps b hb hu hd (fun hf => hf),hs.result⟩

lemma realloc_serves (os : HeapGrow) (h : Heap) (ptr size : ℕ) (hh : HeapOk h)
    (hptr : ptr ∉ h.deferred) :
    Serves h (realloc exact os h ptr size).2 (· = ptr) (realloc exact os h ptr size).1.ptr 16 size := by
  unfold realloc
  by_cases hz : ptr = 0
  · rw [if_pos hz]
    exact (malloc_serves os h size hh).named_any _
  rw [if_neg hz]
  by_cases hs0 : size = 0
  · rw [if_pos hs0]
    have hf := free_serves h ptr hh
    exact ⟨hf.ok,hf.keeps,by simp⟩
  rw [if_neg hs0]
  by_cases hlim : sizeLimit < size
  · rw [if_pos hlim]
    exact serves_same h _ _ _ hh
  rw [if_neg hlim]
  have hw : 16 ∣ alignUp exact size := dvd_mul_left _ _
  have hsize : size ≤ alignUp exact size := by
    rw [alignUp_exact]
    omega
  have hr := reallocLocked_spec os h ptr (alignUp exact size) hw hh.list
  exact hr.release hh (fun _ => And.right) (fun p _ hp => hp.2 ▸ hptr) hsize hr.aligned

lemma alignedAllocImpl_serves (os : HeapGrow) (h : Heap) (k size : ℕ) (hh : HeapOk h) :
    Serves h (alignedAllocImpl exact os h (2^k) size).2 (fun _ => False)
      (alignedAllocImpl exact os h (2^k) size).1.ptr (max 16 (2^k)) size := by
  obtain ⟨hw,hsize⟩ := want_spec size
  unfold alignedAllocImpl
  by_cases hsmall : 2^k ≤ alignment
  · rw [if_pos hsmall,max_eq_left (show 2^k ≤ 16 from hsmall)]
    exact malloc_serves os h size hh
  rw [if_neg hsmall]
  have hk : 5 ≤ k := by
    by_contra hlt
    have hle : 2^k ≤ 2^4 := Nat.pow_le_pow_right (by decide) (by omega)
    exact hsmall hle
  have hbig : 2^5 ≤ 2^k := Nat.pow_le_pow_right (by decide) hk
  have hdvd : 16 ∣ 2^k := pow_dvd_pow 2 (show 4 ≤ k by omega)
  rw [max_eq_right (by omega)]
  by_cases hlim : sizeLimit-headerSize < 2^k ∨ sizeLimit-headerSize-2^k < size
  · rw [if_pos hlim]
    exact serves_same h _ _ _ hh
  rw [if_neg hlim]
  obtain ⟨hk',hal⟩ := alignedLocked_spec os h (2^k)
    (alignUp exact (if size = 0 then 1 else size)) hbig hdvd hw hh.list
  have hr := hk'.release hh (fun _ => id) (fun _ _ => False.elim) hsize hal
  simp only
  split <;> rename_i hres <;> rw [hres] at hr <;> exact hr

end MoQiOS.LibcHeap
