import MoQiOS.Ext2Truncate

/-!
# Truncation by path and by descriptor

`truncateFile` reloads the inode after the staged extents have been flushed
and counts them in the size; `truncateByInode` does neither. The two agree
when the open file has the current inode and the staged extents change
neither the size nor the block map.
-/

namespace MoQiOS.Ext2
open Function List Nat

abbrev Bytes := List UInt8

section
variable (g : Geometry) (pick : Volume → ℕ) (v : Volume)

/-- `pick` is the block the scan of the bitmap comes to, 0 if there is none. -/
def allocBlock : ℕ×Volume :=
  let b := pick v
  if b = 0 then (0,v)
  else (b,{ v with
    bitmap := update v.bitmap 0 (update (v.bitmap 0) (blockIndex g b) true)
    bgFreeBlocks := update v.bgFreeBlocks 0 (v.bgFreeBlocks 0-1)
    sbFreeBlocks := v.sbFreeBlocks-1
    ptrs := update v.ptrs b fun _ => 0
    data := update v.data b fun _ => 0 })

/-- A block that is there, or a new one with the number of blocks added. -/
def ensurePtr (b : ℕ) (v : Volume) : ℕ×ℕ×Volume :=
  if b ≠ 0 then (b,0,v)
  else
    let (b,v) := allocBlock g pick v
    (b,if b = 0 then 0 else 1,v)

/-- The root, the data block, the number of blocks added and the volume. -/
def ensureTree : ℕ → ℕ → ℕ → Volume → ℕ×ℕ×ℕ×Volume
  | 0, b, _, v =>
    let (b,n,v) := ensurePtr g pick b v
    (b,b,n,v)
  | depth+1, b, l, v =>
    let (b,n,v) := ensurePtr g pick b v
    if b = 0 then (0,0,n,v)
    else
      let i := l/g.ptrsPerBlock^depth
      let (c,data,m,v) := ensureTree depth (v.ptrs b i) (l%g.ptrsPerBlock^depth) v
      (b,data,n+m,{ v with ptrs := update v.ptrs b (update (v.ptrs b) i c) })

variable (inode : Inode)

def ensureSlot (v : Volume) (slot depth rel : ℕ) : ℕ×Inode×Volume :=
  let (root,data,n,v) := ensureTree g pick depth (inode.block slot) rel v
  if data = 0 then (0,inode,v)
  else (data,{ inode with
    block := update inode.block slot root
    blocks := inode.blocks+n*(g.blockSize/512) },v)

def ensureBlock (l : ℕ) (v : Volume) : ℕ×Inode×Volume :=
  let ppb := g.ptrsPerBlock
  let dblBase := inodeDirect+ppb
  let triBase := dblBase+ppb*ppb
  if l < inodeDirect then ensureSlot g pick inode v l 0 0
  else if l < dblBase then ensureSlot g pick inode v 12 1 (l-inodeDirect)
  else if l < triBase then ensureSlot g pick inode v 13 2 (l-dblBase)
  else if l < triBase+ppb*ppb*ppb then ensureSlot g pick inode v 14 3 (l-triBase)
  else (0,inode,v)

def putBytes (b bo : ℕ) (data : Bytes) : Volume :=
  { v with data := update v.data b fun o =>
    if bo ≤ o ∧ o < bo+data.length then data.getD (o-bo) 0 else v.data b o }

def writeLoop : ℕ → Inode → Volume → ℕ → Bytes → Inode×Volume×ℕ
  | 0, inode, v, _, _ => (inode,v,0)
  | fuel+1, inode, v, off, data =>
    if data = [] then (inode,v,0)
    else
      let bo := off%g.blockSize
      let chunk := min data.length (g.blockSize-bo)
      let (b,inode,v) := ensureBlock g pick inode (off/g.blockSize) v
      if b = 0 then (inode,v,0)
      else
        let (inode,v,n) := writeLoop fuel inode (putBytes v b bo (data.take chunk)) (off+chunk)
          (data.drop chunk)
        (inode,v,chunk+n)

structure Extent where
  off : ℕ
  data : Bytes

/-- The inode on disk, the volume and the staged extents of the file. -/
structure FileState where
  disk : Inode
  volume : Volume
  staged : List Extent

variable (s : FileState)

/-- An extent that is not written in full stays staged. -/
def flushExtent (e : Extent) : FileState :=
  let (inode,v,n) := writeLoop g pick e.data.length s.disk s.volume e.off e.data
  { disk := if 0 < n ∧ inode.size < e.off+n then { inode with size := e.off+n } else inode
    volume := v
    staged := if n = e.data.length then s.staged else s.staged++[e] }

def flush : FileState := s.staged.foldl (flushExtent g pick) { s with staged := [] }

variable (es : List Extent)

def stagedEnd : ℕ := es.foldl (fun m e => max m (e.off+e.data.length)) 0

variable (mem : ℕ → Bool)

def truncateByDescriptor (slot : Inode) (newSize : ℕ) (s : FileState) :
    Option (Option FileState) :=
  let size := max slot.size s.disk.size
  if max size (stagedEnd s.staged) ≤ newSize then some (some { s with disk := { slot with size := newSize } })
  else
    let t := flush g pick s
    (truncateFile g mem slot s.disk t.disk (stagedEnd s.staged) newSize t.volume).map
      (·.map fun r => ⟨r.1,r.2,t.staged⟩)

/-- The inode is read before the extents are flushed. -/
def truncateByInode (newSize : ℕ) (s : FileState) : Option (Option FileState) :=
  if s.disk.size ≤ newSize then some (some { s with disk := { s.disk with size := newSize } })
  else
    let t := flush g pick s
    (shrink g mem s.disk newSize t.volume).map (·.map fun r => ⟨r.1,r.2,t.staged⟩)

def contents (k : ℕ) : Option UInt8 :=
  if k < s.disk.size then
    let b := resolveBlock g s.volume s.disk (k/g.blockSize)
    some (if b = 0 then 0 else s.volume.data b (k%g.blockSize))
  else none

/-- Size and contents once the staged extents are flushed. -/
def settled (r : Option (Option FileState)) : Option (Option (ℕ×(ℕ → Option UInt8))) :=
  r.map (·.map fun s => ((flush g pick s).disk.size,contents g (flush g pick s)))

/-- Every staged byte lies below the size, in a block that is there. -/
def InPlace : Prop :=
  ∀ e ∈ s.staged, e.off+e.data.length ≤ s.disk.size ∧ ∀ k, e.off ≤ k → k < e.off+e.data.length →
    resolveBlock g s.volume s.disk (k/g.blockSize) ≠ 0

def leaf (v : Volume) : ℕ → ℕ → ℕ → ℕ
  | 0, b, _ => b
  | depth+1, b, l =>
    leaf v depth (loadIndirectPtr v b (l/g.ptrsPerBlock^depth)) (l%g.ptrsPerBlock^depth)

lemma leaf_zero (depth l : ℕ) : leaf g v depth 0 l = 0 := by
  induction depth generalizing l with
  | zero => rfl
  | succ depth ih =>
    rw [leaf,loadIndirectPtr,if_pos rfl]
    exact ih _

lemma resolveBlock_leaf (inode : Inode) (l : ℕ) : resolveBlock g v inode l =
    let ppb := g.ptrsPerBlock
    let dblBase := inodeDirect+ppb
    let triBase := dblBase+ppb*ppb
    if l < inodeDirect then leaf g v 0 (inode.block l) 0
    else if l < dblBase then leaf g v 1 (inode.block 12) (l-inodeDirect)
    else if l < triBase then leaf g v 2 (inode.block 13) (l-dblBase)
    else if l < triBase+ppb*ppb*ppb then leaf g v 3 (inode.block 14) (l-triBase)
    else 0 := by
  simp only [resolveBlock,leaf,pow_zero,Nat.div_one,pow_one,pow_two]

lemma ensureTree_mapped {v : Volume} {depth b l : ℕ} (h : leaf g v depth b l ≠ 0) :
    ensureTree g pick depth b l v = (b,leaf g v depth b l,0,v) := by
  induction depth generalizing b l with
  | zero =>
    have hb : b ≠ 0 := h
    simp only [ensureTree,ensurePtr,if_pos hb,leaf]
  | succ depth ih =>
    have hb : b ≠ 0 := by
      rintro rfl
      exact h (leaf_zero g v _ l)
    rw [leaf,loadIndirectPtr,if_neg hb] at h ⊢
    simp only [ensureTree,ensurePtr,if_pos hb,if_neg hb,ih h,update_eq_self]

lemma ensureSlot_mapped {v : Volume} {inode : Inode} {slot depth rel : ℕ}
    (h : leaf g v depth (inode.block slot) rel ≠ 0) :
    ensureSlot g pick inode v slot depth rel = (leaf g v depth (inode.block slot) rel,inode,v) := by
  unfold ensureSlot
  rw [ensureTree_mapped g pick h]
  simp only [if_neg h,update_eq_self,zero_mul,add_zero]

lemma ensureBlock_mapped {v : Volume} {inode : Inode} {l : ℕ} (h : resolveBlock g v inode l ≠ 0) :
    ensureBlock g pick inode l v = (resolveBlock g v inode l,inode,v) := by
  rw [resolveBlock_leaf] at h ⊢
  unfold ensureBlock
  simp only at h ⊢
  split_ifs at h ⊢
  · exact ensureSlot_mapped g pick h
  · exact ensureSlot_mapped g pick h
  · exact ensureSlot_mapped g pick h
  · exact ensureSlot_mapped g pick h
  · exact absurd rfl h

lemma resolveBlock_ptrs {v w : Volume} (h : w.ptrs = v.ptrs) (inode : Inode) (l : ℕ) :
    resolveBlock g w inode l = resolveBlock g v inode l := by
  unfold resolveBlock loadIndirectPtr
  rw [h]

lemma writeLoop_inPlace {fuel : ℕ} (v : Volume) (off : ℕ) (data : Bytes)
    (hfuel : data.length ≤ fuel)
    (hmap : ∀ k, off ≤ k → k < off+data.length → resolveBlock g v inode (k/g.blockSize) ≠ 0) :
    ∃ w, writeLoop g pick fuel inode v off data = (inode,w,data.length) ∧ w.ptrs = v.ptrs := by
  induction fuel generalizing v off data with
  | zero =>
    have hnil := length_eq_zero_iff.mp (le_zero.mp hfuel)
    subst hnil
    exact ⟨v,rfl,rfl⟩
  | succ fuel ih =>
    by_cases hnil : data = []
    · subst hnil
      exact ⟨v,by simp [writeLoop],rfl⟩
    have hpos : 0 < data.length := length_pos_iff.mpr hnil
    have hb := hmap off le_rfl (by omega)
    have hroom : off%g.blockSize < g.blockSize := mod_lt _ g.blockSize_pos
    obtain ⟨w,hw,hptrs⟩ := ih
      (putBytes v (resolveBlock g v inode (off/g.blockSize)) (off%g.blockSize)
        (data.take (min data.length (g.blockSize-off%g.blockSize))))
      (off+min data.length (g.blockSize-off%g.blockSize))
      (data.drop (min data.length (g.blockSize-off%g.blockSize)))
      (by rw [length_drop]; omega)
      (fun k h1 h2 => by
        rw [length_drop] at h2
        rw [resolveBlock_ptrs g rfl]
        exact hmap k (by omega) (by omega))
    refine ⟨w,?_,hptrs⟩
    rw [writeLoop,if_neg hnil,ensureBlock_mapped g pick hb]
    simp only [if_neg hb,hw,length_drop]
    congr 2
    omega

lemma flush_inPlace {s : FileState} (h : InPlace g s) : (flush g pick s).disk = s.disk := by
  have hfold : ∀ (es : List Extent) (t : FileState), t.disk = s.disk → t.volume.ptrs = s.volume.ptrs →
      (∀ e ∈ es, e ∈ s.staged) → (es.foldl (flushExtent g pick) t).disk = s.disk := by
    intro es
    induction es with
    | nil => exact fun t hd _ _ => hd
    | cons e es ih =>
      intro t hd hp hes
      obtain ⟨hsize,hmap⟩ := h e (hes e mem_cons_self)
      obtain ⟨w,hw,hptrs⟩ := writeLoop_inPlace g pick t.disk t.volume e.off e.data (le_refl e.data.length)
        (fun k h1 h2 => by
          rw [resolveBlock_ptrs g hp,hd]
          exact hmap k h1 h2)
      refine ih _ ?_ ?_ fun e' he' => hes e' (mem_cons_of_mem e he')
      · unfold flushExtent
        rw [hw]
        simp only
        rw [if_neg (by rw [hd]; omega),hd]
      · unfold flushExtent
        rw [hw]
        exact hptrs.trans hp
  exact hfold _ _ rfl rfl fun e he => he

lemma stagedEnd_le {n : ℕ} (h : ∀ e ∈ es, e.off+e.data.length ≤ n) : stagedEnd es ≤ n := by
  have hfold : ∀ (es : List Extent) (m : ℕ), m ≤ n → (∀ e ∈ es, e.off+e.data.length ≤ n) →
      es.foldl (fun m e => max m (e.off+e.data.length)) m ≤ n := by
    intro es
    induction es with
    | nil => exact fun m hm _ => hm
    | cons e es ih =>
      intro m hm hes
      exact ih _ (max_le hm (hes e mem_cons_self)) fun e' he' => hes e' (mem_cons_of_mem e he')
  exact hfold es 0 (zero_le n) h

end

def overwritten : FileState := ⟨⟨2000,4,fun i => if i < 2 then 20+i else 0⟩,sampleVolume,[⟨3,[5]⟩]⟩

/-- Two staged bytes of an empty file, and one byte of a hole. -/
def appended : FileState := ⟨⟨0,0,fun _ => 0⟩,sampleVolume,[⟨0,[1,2]⟩]⟩

def filledHole : FileState := ⟨⟨2000,2,fun i => if i = 1 then 21 else 0⟩,sampleVolume,[⟨3,[5]⟩]⟩

end MoQiOS.Ext2
