import MoQiOS.LibcHeapServes

/-!
# The heap's size computations do not wrap

On a well-formed heap every call computes the same on machine words as on
unbounded numbers, for every size and alignment. Sizes close to the top of the
address space are refused before they are added to anything. An address
computation for a huge alignment may wrap, but the result then lies below the
payload and the block is passed over, as it is in the unbounded reading.
-/

namespace MoQiOS.LibcHeap
open WordArith Tilings List Nat

variable {b : Block}

lemma BlockOk.addr_ge (h : BlockOk b) : 16 ≤ b.addr := by
  obtain ⟨k,hk⟩ := h.addr_aligned
  have := h.addr_pos
  omega

lemma payload_machine (h : BlockOk b) : payload machine b = payload exact b := by
  have hf := h.fits
  exact machine_add (by omega)

lemma alignUp_machine (n : ℕ) (h : n+15 < wordSize) : alignUp machine n = alignUp exact n := by
  unfold alignUp
  rw [machine_add (show n+(alignment-1) < wordSize from h)]
  rfl

variable (os : HeapGrow)

lemma grow_machine (h : Heap) (size : ℕ) (hs : size+47 < wordSize) :
    grow machine os h size = grow exact os h size := by
  have hadd : machine.add size headerSize = size+headerSize :=
    machine_add (by simp only [headerSize]; omega)
  have hask : askFor machine (size+headerSize) = askFor exact (size+headerSize) := by
    unfold askFor
    rw [alignUp_machine _ (by simp only [headerSize]; omega)]
  obtain ⟨_,_,hmin⟩ := askFor_spec (size+headerSize)
  unfold grow
  simp only [hadd,hask,exact_add]
  rcases ho : os.grow h.regions (askFor exact (size+headerSize)) with _ | mem
  · rfl
  have hfit := os.fits _ _ _ ho
  rw [machine_sub (le_trans (show headerSize ≤ 48 by decide) hmin) (by omega)]
  rfl

lemma split_machine (h : BlockOk b) (size : ℕ) (hs : size ≤ b.size) :
    split machine b size = split exact b size := by
  have hf := h.fits
  have ha := h.addr_ge
  unfold split
  rw [payload_machine h,machine_add (show size+minSplit < wordSize by
    simp only [minSplit,headerSize,alignment] at *; omega)]
  by_cases hlt : b.size < size+minSplit
  · rw [if_pos hlt,if_pos (show b.size < exact.add size minSplit from hlt)]
  simp only [minSplit] at hlt
  rw [machine_add (by simp only [payload_exact]; omega),machine_sub hs (by omega),
    machine_sub (by omega) (by omega)]
  rfl

lemma walk_congr {α : Type} (f g : Block → List Block → Option (List Block×α)) (l : List Block)
    (h : ∀ b ∈ l, ∀ rest, f b rest = g b rest) : walk f l = walk g l := by
  induction l with
  | nil => rfl
  | cons b rest ih =>
    rw [walk,walk,h b (by simp) rest,ih (fun c hc => h c (by simp [hc]))]

section
variable {h : Heap} (hl : ListOk h.blocks h.regions)
include hl

lemma mallocLocked_machine (want : ℕ) (hw : want+47 < wordSize) :
    mallocLocked machine os h want = mallocLocked exact os h want := by
  unfold mallocLocked
  rw [grow_machine os h want hw]
  have hwalk := walk_congr
    (fun b rest => if b.free && want ≤ b.size
      then some (use (split machine b want)++rest, payload machine b) else none)
    (fun b rest => if b.free && want ≤ b.size
      then some (use (split exact b want)++rest, payload exact b) else none) h.blocks (by
    intro b hb rest
    by_cases hc : (b.free && decide (want ≤ b.size)) = true
    · simp only [Bool.and_eq_true,decide_eq_true_eq] at hc
      rw [split_machine (hl.blocks b hb) want hc.2,payload_machine (hl.blocks b hb)]
    · rw [if_neg hc,if_neg hc])
  rw [hwalk]
  rcases hg : grow exact os h want with _ | out
  · rfl
  have hs := grow_spec os h want hl out hg
  have hok := hs.list.blocks out.1 (by rw [hs.blocks]; simp)
  simp only
  rw [split_machine hok want hs.room,payload_machine hok]

end

lemma adjacent_machine {a : Block} (h : BlockOk a) (b : Block) :
    adjacent machine a b = adjacent exact a b := by
  have hf := h.fits
  unfold adjacent
  rw [payload_machine h,machine_add (show payload exact a+a.size < wordSize from hf)]
  rfl

variable {n : Block}

lemma merge_machine (hn : BlockOk n) (ho : b.addr+headerSize+b.size ≤ n.addr) :
    merge machine b n = merge exact b n := by
  have hf := hn.fits
  unfold merge
  rw [machine_add (show headerSize+n.size < wordSize by omega),
    machine_add (show b.size+(headerSize+n.size) < wordSize by omega)]
  rfl

variable {rest : List Block}

lemma ordered_head (ho : Ordered ((b::n::rest).map span)) :
    b.addr+headerSize+b.size ≤ n.addr := by
  have h := (pairwise_cons.mp ho).1 (span n) (by simp)
  simpa [span,Nat.add_assoc] using h

lemma coalesce_machine (l : List Block) (hb : ∀ b ∈ l, BlockOk b) (ho : Ordered (l.map span)) :
    coalesce machine l = coalesce exact l := by
  fun_induction coalesce exact l with
  | case1 => simp [coalesce]
  | case2 b => simp [coalesce]
  | case3 b n rest hc ih =>
    have hle := ordered_head ho
    simp only [Bool.and_eq_true] at hc
    have hm := merge_moves b n rest hc.1.2 ((adjacent_exact b n).mp hc.2)
    rw [coalesce,adjacent_machine (hb b (by simp)),merge_machine (hb n (by simp)) hle,
      if_pos (by simp only [Bool.and_eq_true]; exact hc)]
    exact ih (hm.ok hb) (hm.recut.ordered ho)
  | case4 b n rest hc ih =>
    rw [coalesce,adjacent_machine (hb b (by simp)),if_neg hc,
      ih (fun c hcm => hb c (by simp [hcm])) (pairwise_cons.mp ho).2]

variable {h : Heap} (hl : ListOk h.blocks h.regions)
include hl

lemma freeLocked_machine (ptr : ℕ) : freeLocked machine h ptr = freeLocked exact h ptr := by
  unfold freeLocked
  have hwalk := walk_congr
    (fun b rest => if payload machine b = ptr then
      if b.magic ≠ blockMagic || b.free then some (b::rest, false)
      else some ({b with free := true}::rest, true) else none)
    (fun b rest => if payload exact b = ptr then
      if b.magic ≠ blockMagic || b.free then some (b::rest, false)
      else some ({b with free := true}::rest, true) else none) h.blocks (by
    intro b hb rest
    rw [payload_machine (hl.blocks b hb)])
  rw [hwalk]
  split
  · next blocks hw =>
    obtain ⟨pre,b,rest,new,hpre,hf,hnew⟩ := walk_some _ _ _ hw
    have hall : ListOk blocks h.regions := by
      split_ifs at hf
      · simp at hf
      simp only [Option.some.injEq,Prod.mk.injEq,and_true] at hf
      have hm := (free_moves b rest).inside pre
      rw [← hpre,hf,← hnew] at hm
      exact hl.moves hm
    rw [coalesce_machine blocks hall.blocks hall.ordered]
  · rfl

lemma drain_machine (ptrs : List ℕ) :
    ptrs.foldl (freeLocked machine) h = ptrs.foldl (freeLocked exact) h := by
  induction ptrs generalizing h with
  | nil => rfl
  | cons p ps ih =>
    rw [foldl_cons,foldl_cons,freeLocked_machine hl p]
    exact ih (freeLocked_spec h p hl).list

lemma heapRelease_machine : heapRelease machine h = heapRelease exact h :=
  drain_machine (h := {h with deferred := []}) hl h.deferred

omit hl in
lemma want_bound (size : ℕ) (h : size ≤ sizeLimit) :
    (if size = 0 then 1 else size)+15 < wordSize ∧
      alignUp exact (if size = 0 then 1 else size)+47 < wordSize := by
  rw [alignUp_exact]
  simp only [sizeLimit,alignment,headerSize,wordSize] at *
  split_ifs <;> omega

lemma malloc_machine (size : ℕ) : malloc machine os h size = malloc exact os h size := by
  refine ite_congr rfl (fun _ => rfl) fun hlim => ?_
  obtain ⟨hb,hw⟩ := want_bound size (by omega)
  rw [alignUp_machine _ hb,mallocLocked_machine os hl _ hw,heapRelease_machine hl]
  cases hm : mallocLocked exact os h (alignUp exact (if size = 0 then 1 else size)) with
  | none => rfl
  | some out =>
    have hg := mallocLocked_spec os h _ out.1 out.2 (want_spec size).1 hl hm
    simp only
    rw [heapRelease_machine hg.list]

lemma free_machine (ptr : ℕ) : free machine h ptr = free exact h ptr := by
  unfold free
  rw [freeLocked_machine hl,heapRelease_machine (freeLocked_spec h ptr hl).list]

omit hl

lemma product_wraps (nmemb size : ℕ) (h : wordSize ≤ nmemb*size) :
    machine.mul nmemb size/size ≠ nmemb := by
  have hlt := machine_mul_lt nmemb size
  intro he
  have hle := div_mul_le_self (machine.mul nmemb size) size
  rw [he] at hle
  omega

lemma product_fits (nmemb size : ℕ) (h : nmemb*size < wordSize) :
    machine.mul nmemb size = nmemb*size := mod_eq_of_lt h

lemma product_large {nmemb size : ℕ} (h : ¬nmemb*size < wordSize) :
    size ≠ 0 ∧ sizeLimit < exact.mul nmemb size := by
  constructor
  · rintro rfl
    simp [wordSize] at h
  · simp only [exact_mul,sizeLimit,alignment,headerSize,wordSize] at *
    omega

include hl

lemma calloc_machine (nmemb size : ℕ) :
    calloc machine os h nmemb size = calloc exact os h nmemb size := by
  unfold calloc
  simp only
  by_cases hfit : nmemb*size < wordSize
  · rw [product_fits nmemb size hfit,malloc_machine os hl]
    rfl
  obtain ⟨hs,hbig⟩ := product_large hfit
  rw [if_pos ⟨hs,product_wraps nmemb size (by omega)⟩,
    if_neg (by simp [Nat.mul_div_cancel _ (Nat.pos_of_ne_zero hs)]),malloc,if_pos hbig]

omit hl

lemma findLive_machine (ptr : ℕ) (l : List Block) (hb : ∀ b ∈ l, BlockOk b) :
    findLive machine ptr l = findLive exact ptr l := by
  induction l with
  | nil => rfl
  | cons b l ih =>
    rw [findLive,findLive,payload_machine (hb b (by simp)),ih (fun c hc => hb c (by simp [hc]))]

lemma available_machine (want avail : ℕ) (last : Block) (rest : List Block)
    (hb : ∀ b ∈ last::rest, BlockOk b) (ho : Ordered ((last::rest).map span))
    (ha : avail ≤ last.addr+headerSize+last.size) :
    available machine want avail last rest = available exact want avail last rest := by
  induction rest generalizing avail last with
  | nil => rfl
  | cons n rest ih =>
    have hle := ordered_head ho
    have hf := (hb n (by simp)).fits
    rw [available,available,adjacent_machine (hb last (by simp)),
      machine_add (show headerSize+n.size < wordSize by omega),
      machine_add (show avail+(headerSize+n.size) < wordSize by omega),
      ih _ n (fun c hc => hb c (by simp [hc])) (pairwise_cons.mp ho).2 (by omega)]
    rfl

lemma ordered_merge (ho : Ordered ((b::n::rest).map span)) :
    Ordered ((merge exact b n::rest).map span) := by
  have hle := ordered_head ho
  have htail := (pairwise_cons.mp ho).2
  obtain ⟨hn,hrest⟩ := pairwise_cons.mp htail
  constructor
  · intro q hq
    have := hn q hq
    simp only [span,merge_exact] at this ⊢
    omega
  · exact hrest

lemma swallow_machine (want : ℕ) (b : Block) (rest : List Block) (hb : ∀ c ∈ rest, BlockOk c)
    (ho : Ordered ((b::rest).map span)) : swallow machine want b rest = swallow exact want b rest := by
  induction rest generalizing b with
  | nil => rfl
  | cons n rest ih =>
    rw [swallow,swallow,merge_machine (hb n (by simp)) (ordered_head ho),
      ih _ (fun c hc => hb c (by simp [hc])) (ordered_merge ho)]

lemma ListOk.suffix {pre l : List Block} {regions : List Piece} (h : ListOk (pre++l) regions) :
    (∀ b ∈ l, BlockOk b) ∧ Ordered (l.map span) := by
  constructor
  · intro b hb
    exact h.blocks b (mem_append_right _ hb)
  · have ho := h.ordered
    rw [map_append] at ho
    exact (pairwise_append.mp ho).2.1

include hl

lemma growInPlace_machine (want : ℕ) (b : Block) (pre rest : List Block)
    (hb : h.blocks = pre++b::rest) (hw : want+47 < wordSize) :
    growInPlace machine os h want b rest = growInPlace exact os h want b rest := by
  have hl' := hl
  rw [hb] at hl'
  obtain ⟨hok,ho⟩ := hl'.suffix
  unfold growInPlace
  rw [available_machine want b.size b rest hok ho (by omega),
    swallow_machine want b rest (fun c hc => hok c (by simp [hc])) ho]
  refine ite_congr rfl (fun _ => rfl) fun hfit => ?_
  rw [machine_sub (by omega) (by omega),grow_machine os h _ (by omega)]
  rcases hg : grow exact os h (want-(available exact want b.size b rest).1) with _ | out
  · rw [exact_sub,hg]
  have hs := grow_spec os h _ hl out hg
  have hlist := hs.list
  rw [hs.blocks,hb,append_assoc,cons_append] at hlist
  obtain ⟨hok2,ho2⟩ := hlist.suffix
  rw [exact_sub,hg]
  simp only
  rw [available_machine want b.size b _ hok2 ho2 (by omega),
    swallow_machine want b _ (fun c hc => hok2 c (by simp [hc])) ho2]

lemma reallocLocked_machine (ptr want : ℕ) (hd : 16 ∣ want) (hw : want+47 < wordSize) :
    reallocLocked machine os h ptr want = reallocLocked exact os h ptr want := by
  unfold reallocLocked
  rw [findLive_machine ptr h.blocks hl.blocks]
  rcases hfind : findLive exact ptr h.blocks with _ | found
  · rfl
  obtain ⟨pre,b,rest⟩ := found
  obtain ⟨hb,_,_⟩ := findLive_spec ptr h.blocks pre rest b hfind
  simp only
  rw [growInPlace_machine os hl want b pre rest hb hw]
  obtain ⟨out,hout,hp,-⟩ := grown_spec os h want b pre rest hb hl
  rw [← hout]
  by_cases hfit : want ≤ out.2.1.size
  · rw [if_pos hfit,if_pos hfit,split_machine (hp.list.blocks out.2.1 (by simp)) want hfit]
    have hm := (split_moves out.2.1 want out.2.2 hd).inside pre
    rw [← append_assoc] at hm
    have hok := hp.list.moves hm
    rw [coalesce_machine _ hok.blocks hok.ordered]
  rw [if_neg hfit,if_neg hfit,mallocLocked_machine os hp.list want hw]
  cases hm : mallocLocked exact os {out.1 with blocks := pre++out.2.1::out.2.2} want with
  | none => rfl
  | some res =>
    have hg := mallocLocked_spec os _ want res.1 res.2 hd hp.list hm
    simp only
    rw [freeLocked_machine hg.list]

lemma realloc_machine (ptr size : ℕ) :
    realloc machine os h ptr size = realloc exact os h ptr size := by
  unfold realloc
  rw [malloc_machine os hl,free_machine hl]
  refine ite_congr rfl (fun _ => rfl) fun hz => ?_
  refine ite_congr rfl (fun _ => rfl) fun hs => ?_
  refine ite_congr rfl (fun _ => rfl) fun hlim => ?_
  obtain ⟨hb,hw⟩ := want_bound size (by omega)
  rw [if_neg hs] at hb hw
  have hd : 16 ∣ alignUp exact size := Nat.dvd_mul_left _ _
  rw [alignUp_machine size hb,reallocLocked_machine os hl ptr _ hd hw]
  simp only
  rw [heapRelease_machine (reallocLocked_spec os h ptr (alignUp exact size) hd hl).list]

lemma reallocarray_machine (ptr nmemb size : ℕ) :
    reallocarray machine os h ptr nmemb size = reallocarray exact os h ptr nmemb size := by
  unfold reallocarray
  simp only
  by_cases hfit : nmemb*size < wordSize
  · rw [product_fits nmemb size hfit,realloc_machine os hl]
    rfl
  obtain ⟨hs,hbig⟩ := product_large hfit
  have hne : exact.mul nmemb size ≠ 0 := by omega
  rw [if_pos ⟨hs,product_wraps nmemb size (by omega)⟩,
    if_neg (by simp [Nat.mul_div_cancel _ (Nat.pos_of_ne_zero hs)]),realloc,malloc,if_pos hbig,
    if_pos hbig,if_neg hne,ite_self]

omit hl

lemma word_multiple (k : ℕ) (hk : k ≤ 63) : wordSize = 2^k*2^(64-k) := by
  rw [← pow_add,wordSize]
  congr 1
  omega

/-- A huge alignment may push the address past the last word. It then wraps to
zero, or to the alignment itself, and is refused for lying below the payload. -/
lemma alignedStart_wraps (k p : ℕ) (hk : k ≤ 63) (hp : p < wordSize) (hw : wordSize < p+2^k) :
    alignedStart machine (2^k) p < p ∧ wordSize ≤ alignedStart exact (2^k) p := by
  have hpow : 2^k ≤ 2^63 := Nat.pow_le_pow_right (by decide) hk
  have hpos : 0 < 2^k := Nat.two_pow_pos k
  have hsum : machine.add p (2^k) = p+2^k-wordSize :=
    machine_add_wrap hp (by simp only [wordSize]; omega) (by omega)
  have hdec : machine.sub (p+2^k-wordSize) 1 = p+2^k-wordSize-1 :=
    machine_sub (by omega) (by simp only [wordSize] at *; omega)
  have hzero : (p+2^k-wordSize-1)/2^k*2^k = 0 := by
    rw [div_eq_of_lt (by omega),Nat.zero_mul]
  constructor
  · have hm : alignedStart machine (2^k) p =
        if 0 ≠ p ∧ machine.sub 0 p < headerSize then machine.add 0 (2^k) else 0 := by
      unfold alignedStart
      simp only [hsum,hdec,hzero]
    rw [hm,machine_add (show 0+2^k < wordSize by simp only [wordSize]; omega)]
    simp only [wordSize] at *
    split_ifs <;> omega
  · have hle : wordSize ≤ roundUp (2^k) p := by
      have hq : 2^(64-k) ≤ (p+2^k-1)/2^k := by
        rw [Nat.le_div_iff_mul_le hpos,Nat.mul_comm,← word_multiple k hk]
        omega
      calc wordSize = 2^(64-k)*2^k := by rw [Nat.mul_comm,← word_multiple k hk]
        _ ≤ _ := Nat.mul_le_mul_right _ hq
    rw [alignedStart_exact]
    split_ifs <;> omega

lemma alignedStart_fits (k p : ℕ) (hk : k ≤ 63) (hp : 0 < p) (hw : p+2^k ≤ wordSize) :
    alignedStart machine (2^k) p = alignedStart exact (2^k) p ∨
      (alignedStart machine (2^k) p < p ∧ wordSize ≤ alignedStart exact (2^k) p) := by
  have hpos : 0 < 2^k := Nat.two_pow_pos k
  have hx : machine.sub (machine.add p (2^k)) 1 = p+2^k-1 := by
    rcases Nat.lt_or_eq_of_le hw with hlt | heq
    · rw [machine_add hlt,machine_sub (by omega) hlt]
    have hwrap : machine.add p (2^k) = 0 := by
      change (p+2^k)%wordSize = 0
      rw [heq,mod_self]
    rw [hwrap,heq,machine_sub_wrap (by omega) (by decide)]
    omega
  obtain ⟨hge,hdiv⟩ := roundUp_spec (2^k) p hpos
  have htop : roundUp (2^k) p ≤ p+2^k-1 := div_mul_le_self _ _
  have hm : alignedStart machine (2^k) p =
      if roundUp (2^k) p ≠ p ∧ roundUp (2^k) p-p < headerSize
        then machine.add (roundUp (2^k) p) (2^k) else roundUp (2^k) p := by
    unfold alignedStart
    simp only [hx]
    rw [← roundUp,machine_sub hge (by omega)]
  rw [hm,alignedStart_exact]
  split_ifs with hc
  · rcases Nat.lt_or_ge (roundUp (2^k) p+2^k) wordSize with hlt | hge2
    · exact .inl (machine_add hlt)
    -- both are multiples of the alignment, so the sum can only hit the end
    have hend : roundUp (2^k) p+2^k = wordSize := by
      obtain ⟨q,hq⟩ := hdiv
      have hmul := word_multiple k hk
      have hlt : 2^k*q < 2^k*2^(64-k) := by omega
      have hle := Nat.mul_le_mul_left (2^k) (Nat.lt_of_mul_lt_mul_left hlt)
      rw [mul_succ] at hle
      omega
    have hwrap : machine.add (roundUp (2^k) p) (2^k) = 0 := by
      change (roundUp (2^k) p+2^k)%wordSize = 0
      rw [hend,mod_self]
    omega
  · exact .inl rfl

lemma alignedFit_machine (k want : ℕ) (b : Block) (hk : k ≤ 63) (hb : BlockOk b) :
    alignedFit machine (2^k) want b = alignedFit exact (2^k) want b := by
  have hf := hb.fits
  have hcases : alignedStart machine (2^k) (b.addr+headerSize) =
      alignedStart exact (2^k) (b.addr+headerSize) ∨
      (alignedStart machine (2^k) (b.addr+headerSize) < b.addr+headerSize ∧
        wordSize ≤ alignedStart exact (2^k) (b.addr+headerSize)) := by
    rcases Nat.lt_or_ge wordSize (b.addr+headerSize+2^k) with hw | hw
    · exact .inr (alignedStart_wraps k _ hk (by omega) hw)
    · exact alignedStart_fits k _ hk (by simp only [headerSize]; omega) hw
  rw [alignedFit_exact]
  unfold alignedFit
  simp only
  rw [payload_machine hb,payload_exact]
  rcases hcases with he | ⟨hlow,hhigh⟩
  · rw [he]
    by_cases hlt : alignedStart exact (2^k) (b.addr+headerSize) < b.addr+headerSize
    · rw [if_pos (.inl hlt),if_pos (.inl hlt)]
    by_cases htop : alignedStart exact (2^k) (b.addr+headerSize) < wordSize
    · rw [machine_sub (by omega) htop]
      by_cases hin : b.size < alignedStart exact (2^k) (b.addr+headerSize)-(b.addr+headerSize)
      · rw [if_pos (.inr (.inl hin)),if_pos (.inr (.inl hin))]
      · rw [machine_sub (by omega) (by omega)]
    -- the common start is a machine word, so it lies below the word size
    exfalso
    apply htop
    rw [← he]
    unfold alignedStart
    simp only
    split_ifs
    · exact machine_add_lt _ _
    · exact lt_of_le_of_lt (div_mul_le_self _ _) (machine_sub_lt _ _)
  · rw [if_pos (.inl hlow),if_pos (.inr (.inl (by omega)))]

lemma carveAligned_machine (align want a : ℕ) (b : Block) (hal : 16 ∣ align) (hb : BlockOk b)
    (hf : b.free = true) (hat : AlignedAt align want b a) :
    carveAligned machine want a b = carveAligned exact want a b := by
  have hfit := hb.fits
  have hin := hat.inside
  have hroom := hat.room
  unfold carveAligned
  rw [payload_machine hb]
  by_cases he : a = payload exact b
  · rw [if_pos he,if_pos he,split_machine hb want (by omega)]
  rw [if_neg he,if_neg he]
  have hlead := hat.lead.resolve_left he
  have hnew := (lead_moves b a [] (dvd_trans hal hat.multiple) hlead hin hf).ok
    (by simpa using hb) (fresh (a-headerSize) (b.size-(a-(b.addr+headerSize)))) (by simp)
  simp only
  rw [payload_exact,machine_sub (show b.addr+headerSize ≤ a by omega) (by omega),
    machine_sub (show headerSize ≤ a-(b.addr+headerSize) by omega) (by omega),
    machine_sub (show headerSize ≤ a by omega) (by omega),machine_sub hin (by omega),
    split_machine hnew want hroom]
  rfl

lemma searchAligned_machine (k want : ℕ) (l : List Block) (h5 : 5 ≤ k) (hk : k ≤ 63)
    (hb : ∀ b ∈ l, BlockOk b) :
    searchAligned machine (2^k) want l = searchAligned exact (2^k) want l := by
  have hbig : 2^5 ≤ 2^k := Nat.pow_le_pow_right (by decide) h5
  have hdvd : 16 ∣ 2^k := pow_dvd_pow 2 (show 4 ≤ k by omega)
  apply walk_congr
  intro b hbm rest
  by_cases hf : b.free = true
  · rw [alignedFit_machine k want b hk (hb b hbm)]
    cases hfit : alignedFit exact (2^k) want b with
    | none => simp only [Option.map_none]
    | some a =>
      simp only [Option.map_some]
      rw [carveAligned_machine (2^k) want a b hdvd (hb b hbm) hf
        (alignedFit_spec (2^k) want b a hbig hfit)]
  · simp only [hf,Bool.false_eq_true,if_false]

include hl in
lemma alignedLocked_machine (k want : ℕ) (h5 : 5 ≤ k) (hk : k ≤ 63)
    (hw : want+2^k+headerSize+47 < wordSize) :
    alignedLocked machine os h (2^k) want = alignedLocked exact os h (2^k) want := by
  unfold alignedLocked
  rw [searchAligned_machine k want _ h5 hk hl.blocks,machine_add (show want+2^k < wordSize by omega),
    machine_add (show want+2^k+headerSize < wordSize by omega),grow_machine os h _ hw]
  cases hs : searchAligned exact (2^k) want h.blocks with
  | some found => rfl
  | none =>
    rcases hg : grow exact os h (exact.add (exact.add want (2^k)) headerSize) with _ | out
    · simp only [exact_add] at hg; simp only [hg]
    have hgs := grow_spec os h _ hl out hg
    simp only [exact_add] at hg
    simp only [hg]
    rw [searchAligned_machine k want _ h5 hk hgs.list.blocks]

/-- A request of no bytes is rounded up to sixteen after the size check, so the
bound on the alignment itself is needed as well. -/
lemma aligned_bound (align size : ℕ) (ha : 16 ∣ align) (hal : align ≤ 2^63)
    (hs : size ≤ sizeLimit-headerSize-align) :
    alignUp exact (if size = 0 then 1 else size)+align+headerSize+47 < wordSize := by
  rw [alignUp_exact]
  simp only [sizeLimit,wordSize,alignment,headerSize] at *
  split_ifs <;> omega

include hl in
lemma alignedAllocImpl_machine (k size : ℕ) :
    alignedAllocImpl machine os h (2^k) size = alignedAllocImpl exact os h (2^k) size := by
  unfold alignedAllocImpl
  rw [malloc_machine os hl]
  refine ite_congr rfl (fun _ => rfl) fun hsmall => ?_
  refine ite_congr rfl (fun _ => rfl) fun hlim => ?_
  push Not at hlim
  have h5 : 5 ≤ k := by
    by_contra hlt
    have hle : 2^k ≤ 2^4 := Nat.pow_le_pow_right (by decide) (by omega)
    exact hsmall hle
  have hk : k ≤ 63 := by
    by_contra hgt
    have hle : 2^64 ≤ 2^k := Nat.pow_le_pow_right (by decide) (by omega)
    simp only [sizeLimit,wordSize,alignment,headerSize] at hlim
    omega
  have hdvd : 16 ∣ 2^k := pow_dvd_pow 2 (show 4 ≤ k by omega)
  obtain ⟨hb,_⟩ := want_bound size (by omega)
  have hw := aligned_bound (2^k) size hdvd
    (Nat.pow_le_pow_right (by decide) hk) hlim.2
  rw [alignUp_machine _ hb,alignedLocked_machine os hl k _ h5 hk hw]
  have hbig : 2^5 ≤ 2^k := Nat.pow_le_pow_right (by decide) h5
  have hk' := alignedLocked_spec os h (2^k) (alignUp exact (if size = 0 then 1 else size))
    hbig hdvd (want_spec size).1 hl
  simp only
  rw [heapRelease_machine hk'.1.list]

end MoQiOS.LibcHeap
