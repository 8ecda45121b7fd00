import MoQiOS.LibcHeap

/-!
# Block lists under unbounded arithmetic

Every operation on the block list is a sequence of cuts and joins that leaves
well-formed blocks behind and keeps the blocks in use, except the one it was
asked to release or resize. The unbounded reading is used throughout; that the
machine computes the same is shown separately.
-/

namespace MoQiOS.LibcHeap
open WordArith Tilings List

variable (b : Block)

def span : Piece := (b.addr, headerSize+b.size)

structure BlockOk (b : Block) : Prop where
  addr_aligned : 16 ∣ b.addr
  addr_pos : 0 < b.addr
  size_aligned : 16 ∣ b.size
  magic : b.magic = blockMagic
  fits : b.addr+headerSize+b.size < wordSize

/-- What one rewriting of the block list may do; blocks in use that satisfy
`P` stay in the list unchanged. -/
structure Moves (P : Block → Prop) (l l' : List Block) : Prop where
  recut : Recut (l.map span) (l'.map span)
  ok : (∀ b ∈ l, BlockOk b) → ∀ b ∈ l', BlockOk b
  keeps : ∀ b ∈ l, b.free = false → P b → b ∈ l'

lemma Moves.refl (P : Block → Prop) (l : List Block) : Moves P l l :=
  ⟨Recut.refl _,fun h => h,fun _ hb _ _ => hb⟩

variable {P : Block → Prop} {l l' : List Block}

lemma Moves.trans {l'' : List Block} (h : Moves P l l') (h' : Moves P l' l'') : Moves P l l'' :=
  ⟨h.recut.trans h'.recut,fun ho => h'.ok (h.ok ho),
    fun b hb hf hp => h'.keeps b (h.keeps b hb hf hp) hf hp⟩

lemma Moves.weaken {Q : Block → Prop} (h : Moves P l l') (hq : ∀ b, Q b → P b) : Moves Q l l' :=
  ⟨h.recut,h.ok,fun b hb hf hp => h.keeps b hb hf (hq b hp)⟩

lemma Moves.inside (pre : List Block) (h : Moves P l l') : Moves P (pre++l) (pre++l') := by
  refine ⟨?_,?_,?_⟩
  · rw [map_append,map_append]
    exact h.recut.inside _
  · intro ho b hb
    rcases mem_append.mp hb with hp | hl
    · exact ho b (mem_append_left _ hp)
    · exact h.ok (fun c hc => ho c (mem_append_right _ hc)) b hl
  · intro b hb hf hp
    rcases mem_append.mp hb with hpre | hl
    · exact mem_append_left _ hpre
    · exact mem_append_right _ (h.keeps b hl hf hp)

lemma Moves.cons (h : Moves P l l') : Moves P (b::l) (b::l') := h.inside [b]

lemma walk_some {α : Type} (f : Block → List Block → Option (List Block×α)) (l : List Block)
    (out : List Block×α) (h : walk f l = some out) :
    ∃ pre b rest new, l = pre++b::rest ∧ f b rest = some (new, out.2) ∧ out.1 = pre++new := by
  induction l generalizing out with
  | nil => simp [walk] at h
  | cons b rest ih =>
    rw [walk] at h
    cases hf : f b rest with
    | some found =>
      rw [hf] at h
      have he := Option.some.inj h
      subst he
      exact ⟨[],b,rest,found.1,rfl,hf,rfl⟩
    | none =>
      simp only [hf,Option.map_eq_some_iff] at h
      obtain ⟨found,hw,he⟩ := h
      obtain ⟨pre,c,suf,new,hl,hc,hn⟩ := ih found hw
      subst he
      exact ⟨b::pre,c,suf,new,by rw [hl]; rfl,hc,by simp [hn]⟩

lemma payload_exact : payload exact b = b.addr+headerSize := rfl

lemma fresh_ok (addr size : ℕ) (ha : 16 ∣ addr) (hp : 0 < addr) (hs : 16 ∣ size)
    (hf : addr+headerSize+size < wordSize) : BlockOk (fresh addr size) :=
  ⟨ha,hp,hs,rfl,hf⟩

variable (size : ℕ)

lemma split_cases : split exact b size = [b] ∨ (size+minSplit ≤ b.size ∧
      split exact b size = [{b with size := size},
        fresh (b.addr+headerSize+size) (b.size-size-headerSize)]) := by
  by_cases h : b.size < size+minSplit
  · left
    simp [split,h]
  right
  refine ⟨by omega,?_⟩
  simp [split,h,payload_exact]

lemma cut_ok (hb : BlockOk b) (hs : 16 ∣ size) (hl : size+minSplit ≤ b.size) :
    BlockOk {b with size := size} ∧
      BlockOk (fresh (b.addr+headerSize+size) (b.size-size-headerSize)) := by
  obtain ⟨i,hi⟩ := hb.addr_aligned
  obtain ⟨j,hj⟩ := hb.size_aligned
  obtain ⟨k,hk⟩ := hs
  have hf := hb.fits
  have hp := hb.addr_pos
  simp only [minSplit,headerSize,alignment] at *
  constructor
  · refine ⟨hb.addr_aligned,hp,⟨k,hk⟩,hb.magic,?_⟩
    simp only [headerSize]
    omega
  · refine fresh_ok _ _ ⟨i+2+k,by omega⟩ (by omega) ⟨j-k-2,by omega⟩ ?_
    simp only [headerSize]
    omega

lemma cut_recut (post : List Piece) (hl : size+minSplit ≤ b.size) :
    Recut (span b::post) (span {b with size := size}::
      span (fresh (b.addr+headerSize+size) (b.size-size-headerSize))::post) := by
  have hc := Recut.cut b.addr (headerSize+size) (headerSize+(b.size-size-headerSize)) post
  have h1 : headerSize+size+(headerSize+(b.size-size-headerSize)) = headerSize+b.size := by
    simp only [minSplit] at hl
    omega
  rw [h1] at hc
  simpa [span,fresh,Nat.add_assoc] using hc

lemma split_head (hl : size ≤ b.size) :
    ∃ c tail, split exact b size = c::tail ∧ c.addr = b.addr ∧ c.free = b.free ∧
      c.magic = b.magic ∧ size ≤ c.size := by
  rcases split_cases b size with h | ⟨_,h⟩
  · exact ⟨b,[],h,rfl,rfl,rfl,hl⟩
  · exact ⟨_,_,h,rfl,rfl,rfl,le_refl _⟩

lemma split_moves (rest : List Block) (hs : 16 ∣ size) :
    Moves (· ≠ b) (b::rest) (split exact b size++rest) := by
  rcases split_cases b size with h | ⟨hl,h⟩
  · rw [h]
    exact Moves.refl _ _
  rw [h]
  refine ⟨cut_recut b size _ hl,?_,?_⟩
  · intro ho c hc
    obtain ⟨hk,hr⟩ := cut_ok b size (ho b (by simp)) hs hl
    simp only [cons_append,nil_append,mem_cons] at hc
    rcases hc with rfl | rfl | hc
    · exact hk
    · exact hr
    · exact ho c (by simp [hc])
  · intro c hc _ hne
    rcases mem_cons.mp hc with he | hc
    · exact absurd he hne
    · simp [hc]

lemma setFree_moves {P : Block → Prop} (v : Bool) (rest : List Block)
    (hb : b.free = false → ¬P b) : Moves P (b::rest) ({b with free := v}::rest) := by
  refine ⟨Recut.refl _,?_,?_⟩
  · intro ho c hc
    rcases mem_cons.mp hc with rfl | hc
    · have hk := ho b (by simp)
      exact ⟨hk.addr_aligned,hk.addr_pos,hk.size_aligned,hk.magic,hk.fits⟩
    · exact ho c (by simp [hc])
  · intro c hc hf hp
    rcases mem_cons.mp hc with rfl | hc
    · exact absurd hp (hb hf)
    · simp [hc]

variable (want : ℕ)

lemma take_moves (rest : List Block) (hs : 16 ∣ want) (hl : want ≤ b.size) (hb : b.free = true) :
    Moves (fun _ => True) (b::rest) (use (split exact b want)++rest) ∧
      ∃ c ∈ use (split exact b want), c.addr = b.addr ∧ c.free = false ∧ want ≤ c.size := by
  obtain ⟨c,tail,hc,ha,hf,_,hsize⟩ := split_head b want hl
  have hm : Moves (fun _ => True) (b::rest) (split exact b want++rest) := by
    have hk := split_moves b want rest hs
    refine ⟨hk.recut,hk.ok,?_⟩
    intro d hd hfree _
    exact hk.keeps d hd hfree (fun he => by rw [he,hb] at hfree; exact Bool.noConfusion hfree)
  rw [hc] at hm ⊢
  constructor
  · exact hm.trans (setFree_moves c false (tail++rest) fun hu => by simp [hf,hb] at hu)
  · exact ⟨_,mem_cons_self,ha,rfl,hsize⟩

lemma merge_exact (b n : Block) : merge exact b n = {b with size := b.size+(headerSize+n.size)} :=
  rfl

lemma adjacent_exact (b n : Block) : adjacent exact b n = true ↔ b.addr+headerSize+b.size = n.addr := by
  rw [adjacent,decide_eq_true_eq]
  rfl

lemma merge_ok (b n : Block) (hb : BlockOk b) (hn : BlockOk n)
    (ha : b.addr+headerSize+b.size = n.addr) : BlockOk (merge exact b n) := by
  obtain ⟨j,hj⟩ := hb.size_aligned
  obtain ⟨k,hk⟩ := hn.size_aligned
  have hf := hn.fits
  simp only [headerSize] at *
  refine ⟨hb.addr_aligned,hb.addr_pos,⟨j+2+k,?_⟩,hb.magic,?_⟩
  · simp only [merge_exact,headerSize]
    omega
  · simp only [merge_exact,headerSize]
    omega

lemma merge_moves (b n : Block) (rest : List Block) (hn : n.free = true)
    (ha : b.addr+headerSize+b.size = n.addr) :
    Moves (· ≠ b) (b::n::rest) (merge exact b n::rest) := by
  refine ⟨?_,?_,?_⟩
  · have hj := Recut.join b.addr (headerSize+b.size) (headerSize+n.size) (rest.map span)
    rw [← Nat.add_assoc b.addr,ha] at hj
    simpa [span,merge_exact,Nat.add_assoc] using hj
  · intro ho c hc
    rcases mem_cons.mp hc with rfl | hc
    · exact merge_ok b n (ho b (by simp)) (ho n (by simp)) ha
    · exact ho c (by simp [hc])
  · intro c hc hf hne
    simp only [mem_cons] at hc
    rcases hc with he | he | hc
    · exact absurd he hne
    · rw [he,hn] at hf
      exact Bool.noConfusion hf
    · simp [hc]

lemma coalesce_moves (l : List Block) : Moves (fun _ => True) l (coalesce exact l) := by
  fun_induction coalesce exact l with
  | case1 => exact Moves.refl _ _
  | case2 b => exact Moves.refl _ _
  | case3 b n rest hc ih =>
    simp only [Bool.and_eq_true] at hc
    have hm := merge_moves b n rest hc.1.2 ((adjacent_exact b n).mp hc.2)
    refine Moves.trans ⟨hm.recut,hm.ok,?_⟩ ih
    intro d hd hf _
    exact hm.keeps d hd hf (fun he => by rw [he,hc.1.1] at hf; exact Bool.noConfusion hf)
  | case4 b n rest hc ih => exact ih.cons b

lemma swallow_moves (b last : Block) (avail : ℕ) (rest : List Block)
    (hend : last.addr+headerSize+last.size = b.addr+headerSize+avail)
    (hw : want ≤ (available exact want avail last rest).1) (hb : avail = b.size) :
    Moves (fun c => c.addr ≠ b.addr) (b::rest)
        ((swallow exact want b rest).1::(swallow exact want b rest).2) ∧
      want ≤ (swallow exact want b rest).1.size ∧ (swallow exact want b rest).1.addr = b.addr ∧
      (swallow exact want b rest).1.free = b.free ∧ (swallow exact want b rest).1.magic = b.magic := by
  induction rest generalizing b last avail with
  | nil =>
    subst hb
    exact ⟨Moves.refl _ _,hw,rfl,rfl,rfl⟩
  | cons n rest ih =>
    rw [swallow]
    by_cases hs : b.size < want
    · rw [if_pos hs]
      rw [available] at hw
      by_cases hc : (n.free && adjacent exact last n && decide (avail < want)) = true
      · rw [if_pos hc] at hw
        simp only [Bool.and_eq_true,decide_eq_true_eq] at hc
        have hadj := (adjacent_exact last n).mp hc.1.2
        have hbn : b.addr+headerSize+b.size = n.addr := by omega
        obtain ⟨hm,hres,ha,hf,hg⟩ := ih (merge exact b n) n (exact.add avail (exact.add headerSize n.size))
          (by simp only [merge_exact,exact_add]; omega) hw (by simp [merge_exact,hb])
        have hfirst := (merge_moves b n rest hc.1.1 hbn).weaken
          (Q := fun c => c.addr ≠ b.addr) (fun c hq he => hq (by rw [he]))
        exact ⟨hfirst.trans hm,hres,ha,hf,hg⟩
      · rw [if_neg hc] at hw
        omega
    · rw [if_neg hs]
      exact ⟨Moves.refl _ _,by simpa using hs,rfl,rfl,rfl⟩

end MoQiOS.LibcHeap
