import Mathlib

/-!
# Truncating an ext2 file

The block map of an inode, the loops that free its tail and `truncateFile`.
The loop over the direct blocks runs from the number of blocks to keep up to
twelve; that range does not exist when more than twelve are kept, and the
subtraction behind it traps.
-/

namespace MoQiOS.Ext2
open Function List Option Nat

/-- `deriveGeometry` takes block sizes up to 4096. -/
structure Geometry where
  logBlockSize : Fin 3
  firstDataBlock : ℕ
  blocksPerGroup : ℕ
  groupsCount : ℕ

def Geometry.blockSize (g : Geometry) : ℕ := 1024*2^g.logBlockSize.val

def Geometry.ptrsPerBlock (g : Geometry) : ℕ := g.blockSize/4

/-- `blocks` counts sectors. -/
structure Inode where
  size : ℕ
  blocks : ℕ
  block : ℕ → ℕ

/-- Pointer blocks are read as words and data blocks as bytes. -/
structure Volume where
  bitmap : ℕ → ℕ → Bool
  bgFreeBlocks : ℕ → ℕ
  sbFreeBlocks : ℕ
  ptrs : ℕ → ℕ → ℕ
  data : ℕ → ℕ → UInt8

def inodeDirect : ℕ := 12

def loadIndirectPtr (v : Volume) (b i : ℕ) : ℕ := if b = 0 then 0 else v.ptrs b i

/-- `classifyLogicalBlock` and the walks over pointer blocks. -/
def resolveBlock (g : Geometry) (v : Volume) (inode : Inode) (l : ℕ) : ℕ :=
  let ppb := g.ptrsPerBlock
  let dblBase := inodeDirect+ppb
  let triBase := dblBase+ppb*ppb
  if l < inodeDirect then inode.block l
  else if l < dblBase then loadIndirectPtr v (inode.block 12) (l-inodeDirect)
  else if l < triBase then
    let rel := l-dblBase
    loadIndirectPtr v (loadIndirectPtr v (inode.block 13) (rel/ppb)) (rel%ppb)
  else if l < triBase+ppb*ppb*ppb then
    let rel := l-triBase
    let rem := rel%(ppb*ppb)
    loadIndirectPtr v (loadIndirectPtr v (loadIndirectPtr v (inode.block 14) (rel/(ppb*ppb)))
      (rem/ppb)) (rem%ppb)
  else 0

def groupForBlock (g : Geometry) (b : ℕ) : Option ℕ :=
  if b < g.firstDataBlock ∨ g.blocksPerGroup = 0 then none
  else
    let group := (b-g.firstDataBlock)/g.blocksPerGroup
    if g.groupsCount ≤ group then none else some group

def blockIndex (g : Geometry) (b : ℕ) : ℕ := (b-g.firstDataBlock)%g.blocksPerGroup

def freeBlock (g : Geometry) (v : Volume) (b : ℕ) : Volume :=
  match groupForBlock g b with
  | none => v
  | some group =>
    { v with
      bitmap := update v.bitmap group (update (v.bitmap group) (blockIndex g b) false)
      bgFreeBlocks := update v.bgFreeBlocks group (v.bgFreeBlocks group+1)
      sbFreeBlocks := v.sbFreeBlocks+1 }

/-- The loop over the pointers of a block; `mem` tells whether there is a page
to read a pointer block into. -/
def eachPtr (row : ℕ → ℕ) (free : Volume → ℕ → Option Volume) (v : Volume) (is : List ℕ) :
    Option Volume :=
  is.foldlM (fun v i => if row i ≠ 0 then free v (row i) else some v) v

def freeTree (g : Geometry) (mem : ℕ → Bool) : ℕ → Volume → ℕ → Option Volume
  | 0, v, b => some (freeBlock g v b)
  | depth+1, v, b =>
    if !mem b then none
    else do
      let v ← eachPtr (v.ptrs b) (freeTree g mem depth) v (List.range g.ptrsPerBlock)
      some (freeBlock g v b)

def freeSingleIndirectTree (g : Geometry) (mem : ℕ → Bool) := freeTree g mem 1

def freeDoubleIndirectTree (g : Geometry) (mem : ℕ → Bool) := freeTree g mem 2

def freeTripleIndirectTree (g : Geometry) (mem : ℕ → Bool) := freeTree g mem 3

def truncateTree (g : Geometry) (mem : ℕ → Bool) : ℕ → Volume → ℕ → ℕ → Option Volume
  | 0, v, _, _ => some v
  | depth+1, v, b, keep =>
    let ppb := g.ptrsPerBlock
    let sub := ppb^depth
    if sub*ppb ≤ keep then some v
    else if keep = 0 then freeTree g mem (depth+1) v b
    else if !mem b then none
    else do
      let row := v.ptrs b
      let keepTree := keep/sub
      let keepInTree := keep%sub
      let first := if 0 < keepInTree then keepTree+1 else keepTree
      let v ← if 0 < keepInTree ∧ row keepTree ≠ 0 then
          truncateTree g mem depth v (row keepTree) keepInTree
        else some v
      let v ← eachPtr row (freeTree g mem depth) v (List.range' first (ppb-first))
      some { v with ptrs := update v.ptrs b fun i => if first ≤ i ∧ i < ppb then 0 else row i }

def truncateSingleIndirectTree (g : Geometry) (mem : ℕ → Bool) := truncateTree g mem 1

def truncateDoubleIndirectTree (g : Geometry) (mem : ℕ → Bool) := truncateTree g mem 2

def truncateTripleIndirectTree (g : Geometry) (mem : ℕ → Bool) := truncateTree g mem 3

def trimRoot (truncate : Volume → ℕ → ℕ → Option Volume) (slot keep : ℕ) (s : Inode×Volume) :
    Option (Inode×Volume) :=
  if s.1.block slot ≠ 0 then do
    let v ← truncate s.2 (s.1.block slot) keep
    some (if keep = 0 then { s.1 with block := update s.1.block slot 0 } else s.1,v)
  else some s

def zeroTruncatedTail (g : Geometry) (inode : Inode) (newSize : ℕ) (v : Volume) : Volume :=
  if newSize%g.blockSize = 0 then v
  else
    let b := resolveBlock g v inode (newSize/g.blockSize)
    if b = 0 then v
    else { v with data := update v.data b fun o =>
      if newSize%g.blockSize ≤ o ∧ o < g.blockSize then 0 else v.data b o }

def blocksNeeded (g : Geometry) (newSize : ℕ) : ℕ := (newSize+g.blockSize-1)/g.blockSize

def freeDirect (g : Geometry) (needed : ℕ) (inode : Inode) (v : Volume) : Inode×Volume :=
  ({ inode with block := fun i => if needed ≤ i ∧ i < inodeDirect then 0 else inode.block i },
    (List.range' needed (inodeDirect-needed)).foldl
      (fun v i => if inode.block i ≠ 0 then freeBlock g v (inode.block i) else v) v)

/-- The shrinking part. The outer option is a trap, the inner one a failure. -/
def shrink (g : Geometry) (mem : ℕ → Bool) (inode : Inode) (newSize : ℕ) (v : Volume) :
    Option (Option (Inode×Volume)) :=
  if 0 < newSize ∧ 2^32 ≤ newSize+g.blockSize then none
  else
    let needed := if newSize = 0 then 0 else blocksNeeded g newSize
    if inodeDirect < needed then none
    else some do
      let ppb := g.ptrsPerBlock
      let dblBase := inodeDirect+ppb
      let triBase := dblBase+ppb*ppb
      let s := freeDirect g needed inode v
      let s ← if needed < dblBase then
          trimRoot (truncateSingleIndirectTree g mem) 12 (needed-inodeDirect) s
        else some s
      let s ← trimRoot (truncateDoubleIndirectTree g mem) 13 (needed-dblBase) s
      let s ← trimRoot (truncateTripleIndirectTree g mem) 14 (needed-triBase) s
      some ({ s.1 with size := newSize, blocks := needed*(g.blockSize/512) },
        zeroTruncatedTail g s.1 newSize s.2)

/-- `slot` is the copy of the open file, `disk` the inode on disk and
`flushed` the one after the staged extents have been flushed. -/
def truncateFile (g : Geometry) (mem : ℕ → Bool) (slot disk flushed : Inode) (stagedEnd newSize : ℕ)
    (v : Volume) : Option (Option (Inode×Volume)) :=
  let slot := if slot.size < disk.size then { slot with size := disk.size } else slot
  if max slot.size stagedEnd ≤ newSize then some (some ({ slot with size := newSize },v))
  else if flushed.size ≤ newSize then some (some ({ flushed with size := newSize },v))
  else shrink g mem flushed newSize v

def treeBlocks (g : Geometry) (v : Volume) : ℕ → ℕ → List ℕ
  | 0, b => [b]
  | depth+1, b => (List.range g.ptrsPerBlock).flatMap (fun i =>
      if v.ptrs b i = 0 then [] else treeBlocks g v depth (v.ptrs b i))++[b]

def rootBlocks (g : Geometry) (v : Volume) (depth b : ℕ) : List ℕ :=
  if b = 0 then [] else treeBlocks g v depth b

def directBlocks (inode : Inode) (is : List ℕ) : List ℕ := (is.map inode.block).filter (· ≠ 0)

def indirectBlocks (g : Geometry) (v : Volume) (inode : Inode) : List ℕ :=
  rootBlocks g v 1 (inode.block 12)++rootBlocks g v 2 (inode.block 13)++rootBlocks g v 3 (inode.block 14)

def inodeBlocks (g : Geometry) (v : Volume) (inode : Inode) : List ℕ :=
  directBlocks inode (List.range inodeDirect)++indirectBlocks g v inode

def freeBlocks (g : Geometry) (v : Volume) (bs : List ℕ) : Volume := bs.foldl (freeBlock g) v

lemma freeBlock_ptrs (g : Geometry) (v : Volume) (b : ℕ) :
    (freeBlock g v b).ptrs = v.ptrs ∧ (freeBlock g v b).data = v.data := by
  unfold freeBlock
  split <;> exact ⟨rfl,rfl⟩

lemma freeBlocks_ptrs (g : Geometry) (v : Volume) (bs : List ℕ) :
    (freeBlocks g v bs).ptrs = v.ptrs ∧ (freeBlocks g v bs).data = v.data := by
  induction bs generalizing v with
  | nil => exact ⟨rfl,rfl⟩
  | cons b bs ih =>
    obtain ⟨h1,h2⟩ := ih (freeBlock g v b)
    obtain ⟨h3,h4⟩ := freeBlock_ptrs g v b
    exact ⟨h1.trans h3,h2.trans h4⟩

lemma freeBlocks_append (g : Geometry) (v : Volume) (as bs : List ℕ) :
    freeBlocks g v (as++bs) = freeBlocks g (freeBlocks g v as) bs := foldl_append

variable {g : Geometry} {v w : Volume}

lemma treeBlocks_congr (h : w.ptrs = v.ptrs) (depth b : ℕ) :
    treeBlocks g w depth b = treeBlocks g v depth b := by
  induction depth generalizing b with
  | zero => rfl
  | succ depth ih => simp only [treeBlocks,h,ih]

variable {mem : ℕ → Bool}

lemma freeTree_eq (hmem : ∀ b, mem b = true) (depth : ℕ) (v : Volume)
    (b : ℕ) : freeTree g mem depth v b = some (freeBlocks g v (treeBlocks g v depth b)) := by
  induction depth generalizing v b with
  | zero => rfl
  | succ depth ih =>
    have hloop : ∀ (is : List ℕ) (w : Volume), w.ptrs = v.ptrs →
        eachPtr (v.ptrs b) (freeTree g mem depth) w is = some (freeBlocks g w (is.flatMap fun i =>
            if v.ptrs b i = 0 then [] else treeBlocks g v depth (v.ptrs b i))) := by
      intro is
      induction is with
      | nil => exact fun w _ => rfl
      | cons i is ihl =>
        intro w hw
        have hcons : eachPtr (v.ptrs b) (freeTree g mem depth) w (i::is) =
            (if v.ptrs b i ≠ 0 then freeTree g mem depth w (v.ptrs b i) else some w).bind
              fun w => eachPtr (v.ptrs b) (freeTree g mem depth) w is := by
          rw [eachPtr,foldlM_cons]
          rfl
        rw [hcons,flatMap_cons,freeBlocks_append]
        by_cases hi : v.ptrs b i = 0
        · rw [if_neg (not_not.mpr hi),if_pos hi]
          exact ihl w hw
        · rw [if_pos hi,if_neg hi,ih,treeBlocks_congr hw]
          exact ihl _ ((freeBlocks_ptrs g w _).1.trans hw)
    rw [freeTree,hmem,treeBlocks,freeBlocks_append]
    simp only [Bool.not_true,Bool.false_eq_true,if_false]
    rw [hloop _ v rfl]
    rfl

def inVolume (g : Geometry) (b : ℕ) : Prop := (groupForBlock g b).isSome = true

def inUse (g : Geometry) (v : Volume) (b : ℕ) : Bool :=
  v.bitmap ((b-g.firstDataBlock)/g.blocksPerGroup) (blockIndex g b)

variable {b : ℕ}

lemma inVolume_group (h : inVolume g b) :
    g.firstDataBlock ≤ b ∧ groupForBlock g b = some ((b-g.firstDataBlock)/g.blocksPerGroup) := by
  unfold inVolume at h
  unfold groupForBlock at h ⊢
  simp only at h ⊢
  split at h
  · cases h
  next hlow =>
  rw [if_neg hlow]
  split at h
  · cases h
  next hgroup =>
  rw [if_neg hgroup]
  exact ⟨by omega,rfl⟩

variable {c : ℕ}

lemma freeBlock_inUse (hb : inVolume g b) (hc : inVolume g c) :
    inUse g (freeBlock g v b) c = if c = b then false else inUse g v c := by
  obtain ⟨hble,hgb⟩ := inVolume_group hb
  obtain ⟨hcle,-⟩ := inVolume_group hc
  unfold inUse freeBlock
  rw [hgb]
  simp only
  by_cases hgroup : (c-g.firstDataBlock)/g.blocksPerGroup = (b-g.firstDataBlock)/g.blocksPerGroup
  · rw [hgroup,update_self]
    by_cases hidx : blockIndex g c = blockIndex g b
    · have heq : c = b := by
        have h1 := div_add_mod (c-g.firstDataBlock) g.blocksPerGroup
        have h2 := div_add_mod (b-g.firstDataBlock) g.blocksPerGroup
        unfold blockIndex at hidx
        rw [hgroup,hidx,h2] at h1
        omega
      rw [hidx,update_self,if_pos heq]
    · have hne : c ≠ b := fun h => hidx (by rw [h])
      rw [update_of_ne hidx,if_neg hne]
  · have hne : c ≠ b := fun h => hgroup (by rw [h])
    rw [update_of_ne hgroup,if_neg hne]

lemma freeBlocks_inUse {bs : List ℕ} (v : Volume) (hbs : ∀ b ∈ bs, inVolume g b)
    (hc : inVolume g c) : inUse g (freeBlocks g v bs) c = if c ∈ bs then false else inUse g v c := by
  induction bs generalizing v with
  | nil => rfl
  | cons b bs ih =>
    have hrest := ih (freeBlock g v b) fun d hd => hbs d (mem_cons_of_mem b hd)
    rw [freeBlock_inUse (hbs b mem_cons_self) hc] at hrest
    rw [freeBlocks,foldl_cons]
    refine hrest.trans ?_
    by_cases hmem : c ∈ bs
    · rw [if_pos hmem,if_pos (mem_cons_of_mem b hmem)]
    by_cases heq : c = b
    · rw [if_neg hmem,if_pos heq,if_pos (heq ▸ mem_cons_self)]
    rw [if_neg hmem,if_neg heq,if_neg]
    intro h
    rcases mem_cons.mp h with h | h
    · exact heq h
    · exact hmem h

lemma Geometry.blockSize_pos (g : Geometry) : 0 < g.blockSize := by
  unfold blockSize
  positivity

lemma Geometry.ptrsPerBlock_pos (g : Geometry) : 0 < g.ptrsPerBlock := by
  have h : 1 ≤ 2^g.logBlockSize.val := Nat.one_le_two_pow
  unfold ptrsPerBlock blockSize
  omega

lemma freeDirect_volume (g : Geometry) (needed : ℕ) (inode : Inode) (v : Volume) :
    (freeDirect g needed inode v).2 =
      freeBlocks g v (directBlocks inode (List.range' needed (inodeDirect-needed))) := by
  unfold freeDirect freeBlocks directBlocks
  simp only
  generalize List.range' needed (inodeDirect-needed) = is
  induction is generalizing v with
  | nil => rfl
  | cons i is ih =>
    rw [foldl_cons,ih,map_cons,filter_cons]
    by_cases hi : inode.block i = 0
    · simp [hi]
    · simp [hi]

lemma trimRoot_none (hmem : ∀ b, mem b = true) (depth slot : ℕ) (s : Inode×Volume) :
    trimRoot (truncateTree g mem (depth+1)) slot 0 s = some ({s.1 with block := update s.1.block slot 0},
      freeBlocks g s.2 (rootBlocks g s.2 (depth+1) (s.1.block slot))) := by
  unfold trimRoot
  by_cases hb : s.1.block slot = 0
  · rw [if_neg (not_not.mpr hb),rootBlocks,if_pos hb,← hb,update_eq_self]
    rfl
  have hcap : ¬g.ptrsPerBlock^depth*g.ptrsPerBlock ≤ 0 := by
    have := g.ptrsPerBlock_pos
    have : 0 < g.ptrsPerBlock^depth*g.ptrsPerBlock := by positivity
    omega
  rw [if_pos hb,rootBlocks,if_neg hb,truncateTree,if_neg hcap,if_pos rfl,freeTree_eq hmem]
  rfl

lemma rootBlocks_freed (g : Geometry) (v : Volume) (bs : List ℕ) (depth b : ℕ) :
    rootBlocks g (freeBlocks g v bs) depth b = rootBlocks g v depth b := by
  unfold rootBlocks
  rw [treeBlocks_congr (freeBlocks_ptrs g v bs).1]

def directOnly (inode : Inode) (needed : ℕ) (i : ℕ) : ℕ :=
  if i = 14 ∨ i = 13 ∨ i = 12 ∨ (needed ≤ i ∧ i < inodeDirect) then 0 else inode.block i

variable {newSize : ℕ}

lemma blocksNeeded_le (h : newSize ≤ inodeDirect*g.blockSize) :
    blocksNeeded g newSize ≤ inodeDirect := by
  have hpos := g.blockSize_pos
  unfold blocksNeeded
  rw [div_le_iff_le_mul hpos]
  omega

lemma shrink_direct (hmem : ∀ b, mem b = true) (inode : Inode) (v : Volume) (hdirect : newSize ≤ inodeDirect*g.blockSize) :
    ∃ inode', inode'.size = newSize ∧ inode'.block = directOnly inode (blocksNeeded g newSize) ∧
      shrink g mem inode newSize v = some (some (inode',zeroTruncatedTail g inode' newSize
        (freeBlocks g v (directBlocks inode (List.range' (blocksNeeded g newSize)
          (inodeDirect-blocksNeeded g newSize))++indirectBlocks g v inode)))) := by
  have hpos := g.blockSize_pos
  have hsmall : g.blockSize ≤ 4096 := by
    have : 2^g.logBlockSize.val ≤ 2^2 := Nat.pow_le_pow_right (by omega) (by omega)
    unfold Geometry.blockSize
    omega
  have hneeded : (if newSize = 0 then 0 else blocksNeeded g newSize) = blocksNeeded g newSize := by
    split
    · next h =>
      rw [blocksNeeded,h,zero_add]
      exact (div_eq_of_lt (by omega)).symm
    · rfl
  have htwelve := blocksNeeded_le hdirect
  have hkeep : blocksNeeded g newSize-inodeDirect = 0 ∧
      blocksNeeded g newSize-(inodeDirect+g.ptrsPerBlock) = 0 ∧
      blocksNeeded g newSize-(inodeDirect+g.ptrsPerBlock+g.ptrsPerBlock*g.ptrsPerBlock) = 0 := by omega
  have hbelow : blocksNeeded g newSize < inodeDirect+g.ptrsPerBlock := by
    have := g.ptrsPerBlock_pos
    omega
  have hroots : (freeDirect g (blocksNeeded g newSize) inode v).1.block 12 = inode.block 12 ∧
      (freeDirect g (blocksNeeded g newSize) inode v).1.block 13 = inode.block 13 ∧
      (freeDirect g (blocksNeeded g newSize) inode v).1.block 14 = inode.block 14 := by
    simp [freeDirect,inodeDirect]
  unfold shrink
  rw [if_neg (by unfold inodeDirect at hdirect; omega)]
  simp only [hneeded]
  rw [if_neg (by omega)]
  simp only [hkeep.1,hkeep.2.1,hkeep.2.2,hbelow,if_true,bind_eq_bind,
    truncateSingleIndirectTree,truncateDoubleIndirectTree,truncateTripleIndirectTree]
  rw [trimRoot_none hmem 0 12]
  simp only [bind_some]
  rw [trimRoot_none hmem 1 13]
  simp only [bind_some]
  rw [trimRoot_none hmem 2 14]
  simp only [bind_some,rootBlocks_freed,update_of_ne (show 13 ≠ 12 by decide),
    update_of_ne (show 14 ≠ 13 by decide),update_of_ne (show 14 ≠ 12 by decide),
    freeDirect_volume,hroots.1,hroots.2.1,hroots.2.2]
  have hblock : update (update (update
      (freeDirect g (blocksNeeded g newSize) inode v).1.block 12 0) 13 0) 14 0 =
        directOnly inode (blocksNeeded g newSize) := by
    ext i
    unfold directOnly freeDirect
    simp only [update_apply]
    split_ifs <;> tauto
  refine ⟨⟨newSize,blocksNeeded g newSize*(g.blockSize/512),directOnly inode (blocksNeeded g newSize)⟩,
    rfl,rfl,?_⟩
  rw [freeBlocks_append,indirectBlocks,freeBlocks_append,freeBlocks_append,← hblock]
  rfl

variable {needed : ℕ}

lemma inodeBlocks_split (g : Geometry) (v : Volume) (inode : Inode) (h : needed ≤ inodeDirect) :
    inodeBlocks g v inode = directBlocks inode (List.range needed)++
      (directBlocks inode (List.range' needed (inodeDirect-needed))++indirectBlocks g v inode) := by
  have hrange : List.range inodeDirect = List.range needed++List.range' needed (inodeDirect-needed) := by
    have happend := range'_append_1 (s := 0) (m := needed) (n := inodeDirect-needed)
    rw [Nat.zero_add,Nat.add_sub_cancel' h] at happend
    rw [range_eq_range',range_eq_range',happend]
  rw [inodeBlocks,hrange,directBlocks,map_append,filter_append,append_assoc]
  rfl

variable {inode inode' : Inode}

lemma resolveBlock_directOnly (g : Geometry) (v w : Volume)
    (h : needed ≤ inodeDirect) (hblock : inode'.block = directOnly inode needed) (l : ℕ) :
    resolveBlock g w inode' l = if l < needed then resolveBlock g v inode l else 0 := by
  unfold resolveBlock
  rw [hblock]
  by_cases hl : l < inodeDirect
  · have hroot : ¬(l = 14 ∨ l = 13 ∨ l = 12) := by
      unfold inodeDirect at hl
      omega
    simp only [if_pos hl,directOnly]
    by_cases hn : l < needed
    · rw [if_pos hn,if_neg (by omega)]
    · rw [if_neg hn,if_pos (by omega)]
  · have hroots : directOnly inode needed 12 = 0 ∧ directOnly inode needed 13 = 0 ∧
        directOnly inode needed 14 = 0 := by simp [directOnly]
    simp only [if_neg hl,if_neg (show ¬l < needed by omega),hroots.1,hroots.2.1,hroots.2.2,
      loadIndirectPtr,if_true,ite_self]

lemma inodeBlocks_directOnly
    (h : needed ≤ inodeDirect) (hblock : inode'.block = directOnly inode needed) :
    inodeBlocks g w inode' = directBlocks inode (List.range needed) := by
  have hroots : inode'.block 12 = 0 ∧ inode'.block 13 = 0 ∧ inode'.block 14 = 0 := by
    rw [hblock]
    simp [directOnly]
  rw [inodeBlocks_split g w inode' h,indirectBlocks,rootBlocks,rootBlocks,rootBlocks,hroots.1,
    hroots.2.1,hroots.2.2]
  simp only [if_true,append_nil]
  have hkept : directBlocks inode' (List.range needed) = directBlocks inode (List.range needed) := by
    unfold directBlocks
    congr 1
    refine map_congr_left fun i hi => ?_
    have hi := mem_range.mp hi
    unfold inodeDirect at h
    rw [hblock,directOnly,if_neg (by omega)]
  have hgone : directBlocks inode' (List.range' needed (inodeDirect-needed)) = [] := by
    refine filter_eq_nil_iff.mpr fun b hb => ?_
    obtain ⟨i,hi,rfl⟩ := mem_map.mp hb
    obtain ⟨hlow,hhigh⟩ := mem_range'_1.mp hi
    rw [hblock,directOnly,if_pos (by omega)]
    decide
  rw [hkept,hgone,append_nil]

lemma zeroTruncatedTail_eq (g : Geometry) (inode : Inode) (newSize : ℕ) (v : Volume) :
    ∃ d, zeroTruncatedTail g inode newSize v = {v with data := d} := by
  unfold zeroTruncatedTail
  simp only
  split_ifs
  · exact ⟨v.data,rfl⟩
  · exact ⟨v.data,rfl⟩
  · exact ⟨_,rfl⟩

def sampleGeometry : Geometry := ⟨0,1,8192,1⟩

def sampleVolume : Volume where
  bitmap := fun _ _ => true
  bgFreeBlocks := fun _ => 0
  sbFreeBlocks := 0
  ptrs := fun b i => if b = 40 ∧ i < 2 then 41+i else 0
  data := fun _ _ => 7

def sampleInode : Inode := ⟨14*1024,30,fun i => if i < 12 then 20+i else if i = 12 then 40 else 0⟩

end MoQiOS.Ext2
