import MoQiOS.Ext2Truncate

/-!
# The places of a file's blocks

`classifyLogicalBlock` gives a block of a file its slot in the inode or its
place in one of the three trees of pointer blocks. Each place belongs to one
block. The driver reads the pointers on the way from its cache or the disk,
`resolveLogicalPure` from tables.
-/

namespace MoQiOS.Ext2Addressing
open Ext2 Nat

inductive BlockAddr where
  | direct (i : ℕ)
  | single (i : ℕ)
  | double (idx1 idx2 : ℕ)
  | triple (idx1 idx2 idx3 : ℕ)
  | outOfRange

/-- A checked result; no value is a trap. -/
def u32 (n : ℕ) : Option ℕ := if n < 2^32 then some n else none

def classifyLogicalBlock (logicalBlock ptrsPerBlock : ℕ) : Option BlockAddr :=
  if logicalBlock < inodeDirect then some (.direct logicalBlock)
  else do
    let dblBase ← u32 (inodeDirect+ptrsPerBlock)
    if logicalBlock < dblBase then some (.single (logicalBlock-inodeDirect))
    else do
      let dblSpan ← u32 (ptrsPerBlock*ptrsPerBlock)
      let triBase ← u32 (dblBase+dblSpan)
      if logicalBlock < triBase then
        let rel := logicalBlock-dblBase
        some (.double (rel/ptrsPerBlock) (rel%ptrsPerBlock))
      else do
        let triSpan ← u32 (dblSpan*ptrsPerBlock)
        let top ← u32 (triBase+triSpan)
        if logicalBlock < top then
          let rel := logicalBlock-triBase
          let rem1 := rel%dblSpan
          some (.triple (rel/dblSpan) (rem1/ptrsPerBlock) (rem1%ptrsPerBlock))
        else some .outOfRange

def BlockAddr.Indexed (p : ℕ) : BlockAddr → Prop
  | .direct i => i < 12
  | .single i => i < p
  | .double i j => i < p ∧ j < p
  | .triple i j k => i < p ∧ j < p ∧ k < p
  | .outOfRange => False

def span (p : ℕ) : ℕ := 12+p+p^2+p^3

def BlockAddr.logical (p : ℕ) : BlockAddr → ℕ
  | .direct i => i
  | .single i => 12+i
  | .double i j => 12+p+(i*p+j)
  | .triple i j k => 12+p+p*p+(i*(p*p)+(j*p+k))
  | .outOfRange => span p

section
variable {p l i j n : ℕ}

lemma digits_lt (hi : i < n) (hj : j < p) : i*p+j < n*p :=
  calc
    i*p+j < i*p+p := Nat.add_lt_add_left hj _
    _ = (i+1)*p := by ring
    _ ≤ n*p := mul_le_mul_right p hi

lemma digits_div (hj : j < p) : (i*p+j)/p = i := by
  rw [mul_comm,mul_add_div (zero_lt_of_lt hj),div_eq_of_lt hj,add_zero]

lemma digits_mod (hj : j < p) : (i*p+j)%p = j := by
  rw [mul_comm,mul_add_mod,mod_eq_of_lt hj]

lemma digits_exist (hl : l < n*p) : l/p < n ∧ l%p < p :=
  ⟨Nat.div_lt_of_lt_mul (by rwa [mul_comm]), mod_lt l (pos_of_ne_zero (by rintro rfl; simp at hl))⟩

lemma span_eq : span p = 12+p+p*p+p*p*p := by
  rw [span]
  ring

lemma classify_eq (hp : span p < 2^32) : classifyLogicalBlock l p =
    if l < 12 then some (.direct l)
    else if l < 12+p then some (.single (l-12))
    else if l < 12+p+p*p then some (.double ((l-(12+p))/p) ((l-(12+p))%p))
    else if l < span p then
      some (.triple ((l-(12+p+p*p))/(p*p)) ((l-(12+p+p*p))%(p*p)/p) ((l-(12+p+p*p))%(p*p)%p))
    else some .outOfRange := by
  rw [span_eq] at hp ⊢
  have h1 : u32 (12+p) = some (12+p) := if_pos (by omega)
  have h2 : u32 (p*p) = some (p*p) := if_pos (by omega)
  have h3 : u32 (12+p+p*p) = some (12+p+p*p) := if_pos (by omega)
  have h4 : u32 (p*p*p) = some (p*p*p) := if_pos (by omega)
  have h5 : u32 (12+p+p*p+p*p*p) = some (12+p+p*p+p*p*p) := if_pos hp
  simp only [classifyLogicalBlock,inodeDirect,h1,h2,h3,h4,h5,Option.bind_eq_bind,Option.bind_some]

lemma classify_logical (hp : span p < 2^32) {a : BlockAddr} (ha : a.Indexed p) (hl : a.logical p = l) :
    l < span p ∧ classifyLogicalBlock l p = some a := by
  rw [classify_eq hp,span_eq]
  cases a with
  | direct i =>
    obtain rfl : i = l := hl
    have hi : i < 12 := ha
    rw [if_pos hi]
    exact ⟨by omega,rfl⟩
  | single i =>
    obtain rfl : 12+i = l := hl
    have hi : i < p := ha
    rw [if_neg (by omega),if_pos (by omega),Nat.add_sub_cancel_left]
    exact ⟨by omega,rfl⟩
  | double i j =>
    obtain rfl : 12+p+(i*p+j) = l := hl
    have hlt := digits_lt ha.1 ha.2
    rw [if_neg (by omega),if_neg (by omega),if_pos (by omega),Nat.add_sub_cancel_left,
      digits_div ha.2,digits_mod ha.2]
    exact ⟨by omega,rfl⟩
  | triple i j k =>
    obtain rfl : 12+p+p*p+(i*(p*p)+(j*p+k)) = l := hl
    have hrem := digits_lt ha.2.1 ha.2.2
    have hlt := digits_lt ha.1 hrem
    rw [← mul_assoc p p p] at hlt
    rw [if_neg (by omega),if_neg (by omega),if_neg (by omega),if_pos (by omega),
      Nat.add_sub_cancel_left,digits_div hrem,digits_mod hrem,digits_div ha.2.2,digits_mod ha.2.2]
    exact ⟨by omega,rfl⟩
  | outOfRange => exact ha.elim

lemma classify_below (hp : span p < 2^32) (hl : l < span p) :
    ∃ a : BlockAddr, classifyLogicalBlock l p = some a ∧ a.Indexed p ∧ a.logical p = l := by
  rw [classify_eq hp]
  split_ifs with h1 h2 h3
  · exact ⟨_,rfl,h1,rfl⟩
  · refine ⟨_,rfl,?_,?_⟩
    · change l-12 < p
      omega
    · change 12+(l-12) = l
      omega
  · obtain ⟨hi,hj⟩ := digits_exist (show l-(12+p) < p*p by omega)
    refine ⟨_,rfl,⟨hi,hj⟩,?_⟩
    rw [BlockAddr.logical,div_add_mod']
    omega
  · rw [span_eq] at hl
    obtain ⟨hi,hrem⟩ := digits_exist (show l-(12+p+p*p) < p*(p*p) by rw [← mul_assoc]; omega)
    obtain ⟨hj,hk⟩ := digits_exist hrem
    refine ⟨_,rfl,⟨hi,hj,hk⟩,?_⟩
    rw [BlockAddr.logical,div_add_mod',div_add_mod']
    omega

lemma classify_beyond (hp : span p < 2^32) (hl : span p ≤ l) :
    classifyLogicalBlock l p = some .outOfRange := by
  rw [classify_eq hp]
  rw [span_eq] at hl ⊢
  rw [if_neg (by omega),if_neg (by omega),if_neg (by omega),if_neg (by omega)]

end

structure PtrTable where
  block : ℕ
  ptrs : ℕ → ℕ
  len : ℕ

def lookupPtr (tables : List PtrTable) (block index : ℕ) : ℕ :=
  if block = 0 then 0
  else match tables.find? (·.block = block) with
    | none => 0
    | some t => if t.len ≤ index then 0 else t.ptrs index

def resolveLogicalPure (iBlock : ℕ → ℕ) (logicalBlock ptrsPerBlock : ℕ) (tables : List PtrTable) :
    Option ℕ :=
  (classifyLogicalBlock logicalBlock ptrsPerBlock).map fun
    | .direct i => iBlock i
    | .single i => lookupPtr tables (iBlock 12) i
    | .double idx1 idx2 => lookupPtr tables (lookupPtr tables (iBlock 13) idx1) idx2
    | .triple idx1 idx2 idx3 =>
      lookupPtr tables (lookupPtr tables (lookupPtr tables (iBlock 14) idx1) idx2) idx3
    | .outOfRange => 0

structure Driver where
  cacheLookupPtr : ℕ → Option (ℕ → ℕ)
  allocPage : Bool
  readBlock : ℕ → Option (ℕ → ℕ)

def loadIndirectPtr (d : Driver) (blockNum index : ℕ) : ℕ :=
  if blockNum = 0 then 0
  else match d.cacheLookupPtr blockNum with
    | some ptrs => ptrs index
    | none =>
      if !d.allocPage then 0
      else match d.readBlock blockNum with
        | none => 0
        | some ptrs => ptrs index

/-- The reads of one walk may change the cache between them. -/
def resolveBlock (d₁ d₂ d₃ : Driver) (g : Geometry) (inode : Inode) (logicalBlock : ℕ) : Option ℕ :=
  (classifyLogicalBlock logicalBlock g.ptrsPerBlock).map fun
    | .direct i => inode.block i
    | .single i => loadIndirectPtr d₁ (inode.block 12) i
    | .double idx1 idx2 => loadIndirectPtr d₂ (loadIndirectPtr d₁ (inode.block 13) idx1) idx2
    | .triple idx1 idx2 idx3 =>
      loadIndirectPtr d₃ (loadIndirectPtr d₂ (loadIndirectPtr d₁ (inode.block 14) idx1) idx2) idx3
    | .outOfRange => 0

def Driver.found (d : Driver) (blockNum : ℕ) : Option (ℕ → ℕ) :=
  (d.cacheLookupPtr blockNum).or (if d.allocPage then d.readBlock blockNum else none)

def Shown (tables : List PtrTable) (p : ℕ) (d : Driver) : Prop :=
  ∀ b ≠ 0, match tables.find? (·.block = b) with
    | none => d.found b = none
    | some t => t.len = p ∧ ∃ ptrs, d.found b = some ptrs ∧ ∀ i < p, ptrs i = t.ptrs i

lemma loadIndirectPtr_found (d : Driver) {b : ℕ} (hb : b ≠ 0) (i : ℕ) :
    loadIndirectPtr d b i = ((d.found b).map (· i)).getD 0 := by
  rw [loadIndirectPtr,if_neg hb,Driver.found]
  cases d.cacheLookupPtr b with
  | some ptrs => rfl
  | none =>
    cases d.allocPage with
    | false => rfl
    | true => cases d.readBlock b <;> simp

lemma Shown.load {tables : List PtrTable} {p i : ℕ} {d : Driver} (h : Shown tables p d) (hi : i < p)
    (b : ℕ) : loadIndirectPtr d b i = lookupPtr tables b i := by
  by_cases hb : b = 0
  · rw [loadIndirectPtr,lookupPtr,if_pos hb,if_pos hb]
  have hshown := h b hb
  rw [loadIndirectPtr_found d hb,lookupPtr,if_neg hb]
  cases hf : tables.find? (·.block = b) with
  | none =>
    rw [hf] at hshown
    rw [hshown]
    rfl
  | some t =>
    rw [hf] at hshown
    obtain ⟨hlen,ptrs,hfound,hsame⟩ := hshown
    rw [hfound]
    exact (hsame i hi).trans (if_neg (by omega)).symm

lemma span_geometry (g : Geometry) : span g.ptrsPerBlock < 2^32 := by
  obtain ⟨size,_,_,_⟩ := g
  change span (1024*2^size.val/4) < 2^32
  fin_cases size <;> decide

/-- Every place of the inode and its trees belongs to one block of a file, the
blocks behind have none, and the driver follows the pointers of the tables. -/
theorem block_addressing_is_bijective :
    (∀ p, span p < 2^32 →
      Set.BijOn (classifyLogicalBlock · p) (Set.Iio (span p)) (Set.image some {a | a.Indexed p}) ∧
      ∀ l, span p ≤ l → classifyLogicalBlock l p = some .outOfRange) ∧
    (∀ g : Geometry, span g.ptrsPerBlock < 2^32) ∧
    ∀ (g : Geometry) (d₁ d₂ d₃ : Driver) (tables : List PtrTable),
      (∀ d ∈ [d₁,d₂,d₃], Shown tables g.ptrsPerBlock d) → ∀ (inode : Inode) (l : ℕ),
      resolveBlock d₁ d₂ d₃ g inode l = resolveLogicalPure inode.block l g.ptrsPerBlock tables := by
  refine ⟨fun p hp => ⟨⟨?_,?_,?_⟩,?_⟩,span_geometry,?_⟩
  · intro l hl
    obtain ⟨a,ha,hin,-⟩ := classify_below hp hl
    exact ⟨a,hin,ha.symm⟩
  · intro l hl l' hl' heq
    obtain ⟨a,ha,-,rfl⟩ := classify_below hp hl
    obtain ⟨b,hb,-,rfl⟩ := classify_below hp hl'
    have hab : some a = some b := ha.symm.trans (heq.trans hb)
    rw [Option.some.inj hab]
  · rintro _ ⟨a,ha,rfl⟩
    exact ⟨a.logical p,classify_logical hp ha rfl⟩
  · exact fun l hl => classify_beyond hp hl
  · intro g d₁ d₂ d₃ tables hd inode l
    have h1 := hd d₁ (by simp)
    have h2 := hd d₂ (by simp)
    have h3 := hd d₃ (by simp)
    rw [resolveBlock, resolveLogicalPure]
    by_cases hl : l < span g.ptrsPerBlock
    · obtain ⟨a,ha,hin,-⟩ := classify_below (span_geometry g) hl
      rw [ha]
      cases a with
      | direct i => rfl
      | single i => simp only [Option.map_some, h1.load hin]
      | double i j => simp only [Option.map_some, h1.load hin.1, h2.load hin.2]
      | triple i j k => simp only [Option.map_some, h1.load hin.1, h2.load hin.2.1, h3.load hin.2.2]
      | outOfRange => rfl
    · rw [classify_beyond (span_geometry g) (Nat.le_of_not_lt hl)]
      rfl

def sampleTables : List PtrTable := [⟨40,(100+·),256⟩]

def sampleDriver : Driver := ⟨fun _ => none,true,fun b => if b = 40 then some (100+·) else none⟩

theorem block_addressing_is_bijective_sample :
    Set.BijOn (classifyLogicalBlock · 256) (Set.Iio (span 256)) (Set.image some {a | a.Indexed 256}) ∧
    resolveBlock sampleDriver sampleDriver sampleDriver sampleGeometry sampleInode 13 = some 101 := by
  have hshown : ∀ d ∈ [sampleDriver,sampleDriver,sampleDriver],
      Shown sampleTables sampleGeometry.ptrsPerBlock d := by
    intro d hd b _
    obtain rfl : d = sampleDriver := by simpa using hd
    by_cases hb : b = 40
    · subst hb
      exact ⟨rfl,_,rfl,fun _ _ => rfl⟩
    · simp [sampleTables, sampleDriver, Driver.found, hb, Ne.symm hb]
  exact ⟨(block_addressing_is_bijective.1 256 (by decide)).1,
    (block_addressing_is_bijective.2.2 _ _ _ _ _ hshown sampleInode 13).trans (by decide)⟩

end MoQiOS.Ext2Addressing
