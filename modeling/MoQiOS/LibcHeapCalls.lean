import MoQiOS.LibcHeapBlocks

/-!
# What each heap operation delivers

The block list accounts for exactly the regions obtained from the system. An
allocation returns a block that was not in use before, and nothing but the
block a call names is released or resized. All results here are about the
unbounded reading.
-/

namespace MoQiOS.LibcHeap
open WordArith Tilings List

structure ListOk (l : List Block) (regions : List Piece) : Prop where
  blocks : ∀ b ∈ l, BlockOk b
  ordered : Ordered (l.map span)
  covers : ∀ x, Covers (l.map span) x ↔ Covers regions x
  sum : total (l.map span) = total regions

variable {l : List Block} {regions : List Piece}

lemma ListOk.moves {P : Block → Prop} {l' : List Block}
    (h : ListOk l regions) (hm : Moves P l l') : ListOk l' regions :=
  ⟨hm.ok h.blocks,hm.recut.ordered h.ordered,fun x => (hm.recut.covers x).trans (h.covers x),
    hm.recut.total.trans h.sum⟩

variable {b : Block}

lemma ListOk.ends (h : ListOk l regions)
    (hb : b ∈ l) : ∃ r ∈ regions, b.addr+headerSize+b.size ≤ r.1+r.2 := by
  have hlast : Covers (l.map span) (b.addr+headerSize+b.size-1) := by
    refine ⟨span b,mem_map_of_mem hb,?_⟩
    simp only [span,headerSize]
    omega
  obtain ⟨r,hr,_,hlt⟩ := (h.covers _).mp hlast
  exact ⟨r,hr,by omega⟩

variable {c : Block}

lemma addr_inj (ho : Ordered (l.map span)) (hb : b ∈ l) (hc : c ∈ l)
    (ha : b.addr = c.addr) : b = c := by
  by_contra hne
  have hap := apart_of_ordered span ho hb hc hne
  simp only [span,headerSize] at hap
  omega

lemma alignUp_exact (n : ℕ) : alignUp exact n = (n+15)/16*16 := rfl

lemma askFor_spec (need : ℕ) : 16 ∣ askFor exact need ∧ need ≤ askFor exact need ∧
    48 ≤ askFor exact need := by
  unfold askFor growChunk
  rw [alignUp_exact]
  split_ifs with h
  · exact ⟨by decide,by omega,by decide⟩
  · exact ⟨⟨(need+15)/16,by omega⟩,by omega,by omega⟩

structure Grown (h h' : Heap) (b : Block) (size : ℕ) : Prop where
  blocks : h'.blocks = h.blocks++[b]
  list : ListOk h'.blocks h'.regions
  deferred : h'.deferred = h.deferred
  free : b.free = true
  room : size ≤ b.size
  behind : ∀ c ∈ h.blocks, c.addr+headerSize+c.size ≤ b.addr

lemma grow_spec (os : HeapGrow) (h : Heap) (size : ℕ) (hl : ListOk h.blocks h.regions)
    (out : Block×Heap) (hg : grow exact os h size = some out) : Grown h out.2 out.1 size := by
  obtain ⟨hdiv,hneed,hmin⟩ := askFor_spec (size+headerSize)
  unfold grow at hg
  simp only [exact_add,exact_sub] at hg
  rcases ho : os.grow h.regions (askFor exact (size+headerSize)) with _ | mem
  · simp [ho] at hg
  simp only [ho,Option.some.injEq] at hg
  subst hg
  have hal := os.aligned _ _ _ ho
  have hnn := os.nonnull _ _ _ ho
  have hbe := os.behind _ _ _ ho
  have hfit := os.fits _ _ _ ho
  have hbehind : ∀ c ∈ h.blocks, c.addr+headerSize+c.size ≤ mem := by
    intro c hc
    obtain ⟨r,hr,hle⟩ := hl.ends hc
    exact le_trans hle (hbe r hr)
  have hsize : headerSize+(askFor exact (size+headerSize)-headerSize) =
      askFor exact (size+headerSize) := by
    simp only [headerSize] at *
    omega
  have hspan : span (fresh mem (askFor exact (size+headerSize)-headerSize)) =
      (mem, askFor exact (size+headerSize)) := by
    simp only [span,fresh,hsize]
  have hok : BlockOk (fresh mem (askFor exact (size+headerSize)-headerSize)) := by
    obtain ⟨k,hk⟩ := hdiv
    refine fresh_ok _ _ hal (Nat.pos_of_ne_zero hnn) ⟨k-2,?_⟩ ?_
    · simp only [headerSize] at *
      omega
    · simp only [headerSize] at *
      omega
  refine ⟨rfl,⟨?_,?_,?_,?_⟩,rfl,rfl,by simp only [fresh,headerSize] at *; omega,hbehind⟩
  · intro b hb
    rcases mem_append.mp hb with hb | hb
    · exact hl.blocks b hb
    · rw [mem_singleton.mp hb]
      exact hok
  · rw [map_append]
    apply ordered_snoc _ _ hl.ordered
    intro q hq
    obtain ⟨c,hc,rfl⟩ := mem_map.mp hq
    have := hbehind c hc
    simpa [span,fresh,Nat.add_assoc] using this
  · intro x
    simp only [map_append,map_cons,map_nil,covers_append,hl.covers x,hspan]
  · simp only [map_append,map_cons,map_nil,total_append,hl.sum,hspan]

/-- The outcome of an operation that may release or resize a `named` block and
returns `r`, the payload of a block of `want` bytes that was not in use. -/
structure Kept (h h' : Heap) (named : ℕ → Prop) (r : Option ℕ) (want : ℕ) : Prop where
  list : ListOk h'.blocks h'.regions
  keeps : ∀ b ∈ h.blocks, b.free = false → ¬named (b.addr+headerSize) → b ∈ h'.blocks
  result : ∀ p, r = some p →
    (∃ b ∈ h'.blocks, b.addr+headerSize = p ∧ b.free = false ∧ want ≤ b.size) ∧
    (named p ∨ ∀ b ∈ h.blocks, b.free = false → b.addr+headerSize ≠ p)
  deferred : h'.deferred = h.deferred

lemma Kept.same {h : Heap} {named : ℕ → Prop} {want : ℕ} (hl : ListOk h.blocks h.regions) :
    Kept h h named none want :=
  ⟨hl,fun _ hb _ _ => hb,nofun,rfl⟩

lemma Kept.aligned {h h' : Heap} {named : ℕ → Prop} {r : Option ℕ} {want : ℕ}
    (hk : Kept h h' named r want) (p : ℕ) (hp : r = some p) : 16 ∣ p := by
  obtain ⟨⟨b,hb,rfl,-⟩,-⟩ := hk.result p hp
  exact (Nat.dvd_add_right (hk.list.blocks b hb).addr_aligned).mpr ⟨2,rfl⟩

lemma unused_of_free (ho : Ordered (l.map span)) (hc : c ∈ l)
    (hf : c.free = true) (b : Block) (hb : b ∈ l) (hu : b.free = false) : b.addr ≠ c.addr := by
  intro ha
  rw [addr_inj ho hb hc ha,hf] at hu
  exact Bool.noConfusion hu

lemma mallocLocked_spec (os : HeapGrow) (h : Heap) (want p : ℕ) (h' : Heap) (hw : 16 ∣ want)
    (hl : ListOk h.blocks h.regions) (hm : mallocLocked exact os h want = some (p, h')) :
    Kept h h' (fun _ => False) (some p) want := by
  unfold mallocLocked at hm
  split at hm
  · next blocks q hwalk =>
    obtain ⟨pre,b,rest,new,hpre,hf,hnew⟩ := walk_some _ _ _ hwalk
    simp only [Option.some.injEq,Prod.mk.injEq] at hm
    obtain ⟨rfl,rfl⟩ := hm
    split_ifs at hf with hc
    simp only [Bool.and_eq_true,decide_eq_true_eq] at hc
    simp only [Option.some.injEq,Prod.mk.injEq] at hf
    obtain ⟨rfl,rfl⟩ := hf
    simp only at hnew
    obtain ⟨hmoves,c,hcm,hca,hcf,hcs⟩ := take_moves b want rest hw hc.2 hc.1
    have hall := hmoves.inside pre
    rw [← hpre] at hall
    rw [hnew]
    refine ⟨hl.moves hall,fun d hd hu _ => hall.keeps d hd hu trivial,?_,rfl⟩
    rintro _ ⟨⟩
    refine ⟨⟨c,by simp [hcm],by rw [hca]; rfl,hcf,hcs⟩,.inr ?_⟩
    · intro d hd hu he
      have hne := unused_of_free hl.ordered (c := b) (by rw [hpre]; simp) hc.1 d hd hu
      simp only [payload_exact] at he
      omega
  · rcases hg : grow exact os h want with _ | out
    · simp [hg] at hm
    simp only [hg,Option.some.injEq,Prod.mk.injEq] at hm
    obtain ⟨rfl,rfl⟩ := hm
    have hs := grow_spec os h want hl out hg
    obtain ⟨hmoves,c,hcm,hca,hcf,hcs⟩ := take_moves out.1 want [] hw hs.room hs.free
    have hall := hmoves.inside h.blocks
    rw [append_nil] at hall
    have hlist := hs.list
    rw [hs.blocks] at hlist
    refine ⟨hlist.moves hall,fun d hd hu _ => hall.keeps d (mem_append_left _ hd) hu trivial,?_,
      hs.deferred⟩
    rintro _ ⟨⟩
    refine ⟨⟨c,by simp [hcm],by rw [hca]; rfl,hcf,hcs⟩,.inr ?_⟩
    · intro d hd hu he
      have hb := hs.behind d hd
      simp only [payload_exact,headerSize] at he hb
      omega

lemma free_moves (b : Block) (rest : List Block) :
    Moves (fun c => c.addr ≠ b.addr) (b::rest) ({b with free := true}::rest) :=
  setFree_moves b true rest fun _ hne => hne rfl

lemma freeLocked_spec (h : Heap) (ptr : ℕ) (hl : ListOk h.blocks h.regions) :
    Kept h (freeLocked exact h ptr) (· = ptr) none 0 := by
  unfold freeLocked
  split
  · next blocks hwalk =>
    obtain ⟨pre,b,rest,new,hpre,hf,hnew⟩ := walk_some _ _ _ hwalk
    split_ifs at hf with hp hc
    · simp at hf
    simp only [Option.some.injEq,Prod.mk.injEq,and_true] at hf
    simp only at hnew
    have hall := (free_moves b rest).inside pre
    rw [← hpre,hf,← hnew] at hall
    have hco := coalesce_moves blocks
    refine ⟨(hl.moves hall).moves hco,?_,nofun,rfl⟩
    intro c hcm hu hne
    refine hco.keeps c (hall.keeps c hcm hu ?_) hu trivial
    intro ha
    exact hne (by rw [ha]; exact hp)
  · exact .same hl

lemma drain_spec (ptrs : List ℕ) (h : Heap) (hl : ListOk h.blocks h.regions) :
    Kept h (ptrs.foldl (freeLocked exact) h) (· ∈ ptrs) none 0 := by
  induction ptrs generalizing h with
  | nil => exact .same hl
  | cons p ps ih =>
    have hone := freeLocked_spec h p hl
    have hrest := ih (freeLocked exact h p) hone.list
    refine ⟨hrest.list,?_,nofun,hrest.deferred.trans hone.deferred⟩
    intro b hb hu hne
    simp only [mem_cons,not_or] at hne
    exact hrest.keeps b (hone.keeps b hb hu hne.1) hu hne.2

lemma heapRelease_spec (h : Heap) (hl : ListOk h.blocks h.regions) :
    Kept {h with deferred := []} (heapRelease exact h) (· ∈ h.deferred) none 0 :=
  drain_spec h.deferred {h with deferred := []} hl

lemma findLive_spec (ptr : ℕ) (l pre rest : List Block) (b : Block)
    (hf : findLive exact ptr l = some (pre, b, rest)) :
    l = pre++b::rest ∧ b.addr+headerSize = ptr ∧ b.free = false := by
  induction l generalizing pre with
  | nil => simp [findLive] at hf
  | cons c l ih =>
    rw [findLive] at hf
    by_cases hp : payload exact c = ptr
    · rw [if_pos hp] at hf
      split_ifs at hf with hc
      simp only [Option.some.injEq,Prod.mk.injEq] at hf
      obtain ⟨rfl,rfl,rfl⟩ := hf
      simp only [Bool.or_eq_true,not_or,Bool.not_eq_true] at hc
      exact ⟨rfl,hp,hc.2⟩
    · rw [if_neg hp] at hf
      simp only [Option.map_eq_some_iff,Prod.mk.injEq] at hf
      obtain ⟨⟨pre',found⟩,hrec,rfl,rfl⟩ := hf
      obtain ⟨hl,ha,hu⟩ := ih pre' hrec
      exact ⟨by rw [hl]; rfl,ha,hu⟩

/-- A block being resized, as a list position: everything but the block at its
address is where it was. -/
structure Position (h : Heap) (b : Block) (pre : List Block) (h' : Heap) (b' : Block)
    (rest : List Block) : Prop where
  list : ListOk (pre++b'::rest) h'.regions
  keeps : ∀ c ∈ h.blocks, c.free = false → c.addr ≠ b.addr → c ∈ pre++b'::rest
  addr : b'.addr = b.addr
  free : b'.free = b.free
  deferred : h'.deferred = h.deferred

lemma swallow_position {h h' : Heap} {pre rest : List Block} (want : ℕ)
    (hp : Position h b pre h' b rest) (hw : want ≤ (available exact want b.size b rest).1) :
    Position h b pre h' (swallow exact want b rest).1 (swallow exact want b rest).2 ∧
      want ≤ (swallow exact want b rest).1.size := by
  obtain ⟨hm,hs,ha,hf,_⟩ := swallow_moves want b b b.size rest rfl hw rfl
  have hall := hm.inside pre
  refine ⟨⟨hp.list.moves hall,?_,ha,hf,hp.deferred⟩,hs⟩
  intro c hc hu hne
  exact hall.keeps c (hp.keeps c hc hu hne) hu hne

lemma growInPlace_spec (os : HeapGrow) (h : Heap) (want : ℕ) (b : Block) (pre rest : List Block)
    (hb : h.blocks = pre++b::rest) (hl : ListOk h.blocks h.regions) :
    let out := growInPlace exact os h want b rest
    Position h b pre out.1 out.2.1 out.2.2 ∧ (out.2.1 = b ∨ want ≤ out.2.1.size) := by
  have hhere : Position h b pre h b rest :=
    ⟨hb ▸ hl,fun c hc _ _ => hb ▸ hc,rfl,rfl,rfl⟩
  unfold growInPlace
  simp only
  by_cases hfit : want ≤ (available exact want b.size b rest).1
  · rw [if_pos hfit]
    obtain ⟨hp,hs⟩ := swallow_position want hhere hfit
    exact ⟨hp,.inr hs⟩
  rw [if_neg hfit]
  by_cases hend : (available exact want b.size b rest).2 = true
  · rw [if_pos hend]
    rcases hg : grow exact os h (exact.sub want (available exact want b.size b rest).1) with _ | out
    · exact ⟨hhere,.inl rfl⟩
    have hs := grow_spec os h _ hl out hg
    have hlist := hs.list
    rw [hs.blocks,hb,append_assoc,cons_append] at hlist
    have hnext : Position h b pre out.2 b (rest++[out.1]) := by
      refine ⟨hlist,?_,rfl,rfl,hs.deferred⟩
      intro c hc _ _
      rw [hb] at hc
      simp only [mem_append,mem_cons] at hc ⊢
      tauto
    simp only
    by_cases hfit2 : want ≤ (available exact want b.size b (rest++[out.1])).1
    · rw [if_pos hfit2]
      obtain ⟨hp,hsize⟩ := swallow_position want hnext hfit2
      exact ⟨hp,.inr hsize⟩
    · rw [if_neg hfit2]
      exact ⟨hnext,.inl rfl⟩
  · rw [if_neg hend]
    exact ⟨hhere,.inl rfl⟩

lemma resize_here (h : Heap) (b : Block) (pre : List Block) (h' : Heap) (b' : Block)
    (rest : List Block) (want : ℕ) (hp : Position h b pre h' b' rest) (hu : b.free = false)
    (hw : 16 ∣ want) (hs : want ≤ b'.size) :
    Kept h {h' with blocks := coalesce exact (pre++split exact b' want++rest)}
      (· = b.addr+headerSize) (some (b.addr+headerSize)) want := by
  obtain ⟨c,tail,hc,ha,hf,_,hsize⟩ := split_head b' want hs
  have hsplit := (split_moves b' want rest hw).inside pre
  rw [← append_assoc] at hsplit
  have hco := coalesce_moves (pre++split exact b' want++rest)
  refine ⟨(hp.list.moves hsplit).moves hco,?_,?_,hp.deferred⟩
  · intro d hd hfree hne
    refine hco.keeps d (hsplit.keeps d (hp.keeps d hd hfree (fun he => hne (by rw [he]))) hfree ?_)
      hfree trivial
    intro he
    exact hne (by rw [he,hp.addr])
  · rintro _ ⟨⟩
    refine ⟨⟨c,hco.keeps c ?_ (by rw [hf,hp.free,hu]) trivial,by rw [ha,hp.addr],
      by rw [hf,hp.free,hu],hsize⟩,.inl rfl⟩
    rw [hc]
    simp

lemma grown_spec (os : HeapGrow) (h : Heap) (want : ℕ) (b : Block) (pre rest : List Block)
    (hb : h.blocks = pre++b::rest) (hl : ListOk h.blocks h.regions) :
    ∃ out, out = (if b.size < want then growInPlace exact os h want b rest else (h, b, rest)) ∧
      Position h b pre out.1 out.2.1 out.2.2 ∧ (out.2.1 = b ∨ want ≤ out.2.1.size) := by
  refine ⟨_,rfl,?_⟩
  split_ifs
  · exact growInPlace_spec os h want b pre rest hb hl
  · exact ⟨⟨hb ▸ hl,fun c hc _ _ => hb ▸ hc,rfl,rfl,rfl⟩,.inl rfl⟩

lemma reallocLocked_spec (os : HeapGrow) (h : Heap) (ptr want : ℕ) (hw : 16 ∣ want)
    (hl : ListOk h.blocks h.regions) : let out := reallocLocked exact os h ptr want
    Kept h out.2 (fun q => out.1.ptr.isSome ∧ q = ptr) out.1.ptr want := by
  unfold reallocLocked
  rcases hfind : findLive exact ptr h.blocks with _ | found
  · exact .same hl
  obtain ⟨pre,b,rest⟩ := found
  obtain ⟨hb,hptr,hu⟩ := findLive_spec ptr h.blocks pre rest b hfind
  simp only
  obtain ⟨out,hout,hp,hsame⟩ := grown_spec os h want b pre rest hb hl
  rw [← hout]
  by_cases hfit : want ≤ out.2.1.size
  · rw [if_pos hfit]
    have hr := resize_here h b pre out.1 out.2.1 out.2.2 want hp hu hw hfit
    rw [hptr] at hr
    simpa using hr
  rw [if_neg hfit]
  have hbsame : out.2.1 = b := hsame.resolve_right hfit
  have hkeep : ∀ c ∈ h.blocks, c.free = false → c ∈ pre++out.2.1::out.2.2 := by
    intro c hc hcu
    by_cases hca : c.addr = b.addr
    · have hcb := addr_inj hl.ordered hc (by rw [hb]; simp) hca
      rw [hcb,hbsame]
      simp
    · exact hp.keeps c hc hcu hca
  rcases hm : mallocLocked exact os {out.1 with blocks := pre++out.2.1::out.2.2} want with _ | res
  · exact ⟨hp.list,fun c hc hcu _ => hkeep c hc hcu,nofun,hp.deferred⟩
  obtain ⟨np,h2⟩ := res
  have hg := mallocLocked_spec os _ want np h2 hw hp.list hm
  have hfree := freeLocked_spec h2 ptr hg.list
  obtain ⟨⟨c,hcm,hca,hcu,hcs⟩,hun⟩ := hg.result np rfl
  have hnew := hun.resolve_left id
  have hne : ptr ≠ np := hptr ▸ hnew b (hkeep b (by rw [hb]; simp) hu) hu
  refine ⟨hfree.list,?_,?_,hfree.deferred.trans (hg.deferred.trans hp.deferred)⟩
  · intro d hd hdu hdne
    exact hfree.keeps d (hg.keeps d (hkeep d hd hdu) hdu id) hdu (fun he => hdne ⟨rfl,he⟩)
  · rintro _ ⟨⟩
    exact ⟨⟨c,hfree.keeps c hcm hcu (by rw [hca]; exact hne.symm),hca,hcu,hcs⟩,
      .inr fun d hd hdu => hnew d (hkeep d hd hdu) hdu⟩

end MoQiOS.LibcHeap
