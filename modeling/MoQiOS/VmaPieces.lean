import MoQiOS.VmaRewrites

/-!
# What the pieces of a region cover

A page is seen through the region that covers it: its backing file and the
file offset of that page, whether it is shared, and its flags. Untracking
takes the pages of the range out of view and leaves every other page as it
was; a change of protection changes the recorded protection of the file pages
of the range and nothing else; cutting a range out changes nothing.
-/

namespace MoQiOS.Vma

open List

structure Valid (top : ℕ) (r : MmapRegion) : Prop where
  active : r.active
  aligned : r.base%4096 = 0
  pages : 0 < r.numPages
  bound : r.fin ≤ top

structure Backing where
  kind : FsKind
  idx : ℕ
  inode : ℕ
  data : ℕ
  size : ℕ
  offset : ℕ
deriving DecidableEq

structure PageView where
  backing : Option Backing
  shared : Bool
  prot : ℕ
  mayWrite : Bool
  locked : Bool
  noFree : Bool
deriving DecidableEq

def MmapRegion.view (r : MmapRegion) (va : ℕ) : PageView where
  backing := if r.fileKind = .none then none else
    some ⟨r.fileKind,r.fileIdx,r.inodeId,r.fileData,r.fileSize,r.fileOffset+(va-r.base)⟩
  shared := r.shared
  prot := r.prot
  mayWrite := r.mayWrite
  locked := r.locked
  noFree := r.noFree

def views (va : ℕ) (r : MmapRegion) : Multiset PageView :=
  if r.base ≤ va ∧ va < r.fin then {r.view va} else 0

def PageView.reprotect (newProt : ℕ) (v : PageView) : PageView :=
  if v.backing.isSome then { v with prot := newProt } else v

/-- The part of a region between two page boundaries inside it. -/
def part (r : MmapRegion) (lo hi prot huge : ℕ) : MmapRegion :=
  { r with base := lo, numPages := (hi-lo)/4096, prot := prot, hugePages := huge,
           fileOffset := advanceFileOffset r.fileOffset ((lo-r.base)/4096) }

def parts (r : MmapRegion) (lo hi prot huge : ℕ) : List MmapRegion :=
  if lo < hi then [part r lo hi prot huge] else []

structure Inside (r : MmapRegion) (lo hi : ℕ) : Prop where
  low : lo%4096 = 0
  high : hi%4096 = 0
  base : r.base ≤ lo
  fin : hi ≤ r.fin

section
variable {top : ℕ} {r : MmapRegion} {lo hi : ℕ} (prot huge : ℕ)

lemma part_fin (h : Inside r lo hi) (hlt : lo < hi) : (part r lo hi prot huge).fin = hi := by
  obtain ⟨hl,hh,hb,hf⟩ := h
  simp only [part,MmapRegion.fin]
  omega

lemma part_views (hv : Valid top r) (h : Inside r lo hi) (hlt : lo < hi) (va : ℕ) :
    views va (part r lo hi prot huge) =
      if lo ≤ va ∧ va < hi then {{r.view va with prot := prot}} else 0 := by
  rw [views,part_fin prot huge h hlt]
  change (if lo ≤ va ∧ va < hi then _ else _) = _
  by_cases hc : lo ≤ va ∧ va < hi
  · rw [if_pos hc,if_pos hc]
    have hoff : advanceFileOffset r.fileOffset ((lo-r.base)/4096)+(va-lo) =
        r.fileOffset+(va-r.base) := by
      have := h.low
      have := h.base
      have := hv.aligned
      simp only [advanceFileOffset]
      omega
    simp only [MmapRegion.view,part,hoff]
  · rw [if_neg hc,if_neg hc]

lemma lower_part (hi : ℕ) :
    {r with numPages := (hi-r.base)/4096, prot := prot, hugePages := huge} =
      part r r.base hi prot huge := by
  simp [part,advanceFileOffset]

variable {prot huge}

lemma parts_none (h : hi ≤ lo) : parts r lo hi prot huge = [] := if_neg (Nat.not_lt.mpr h)

lemma parts_one (h : lo < hi) : parts r lo hi prot huge = [part r lo hi prot huge] := if_pos h

lemma parts_whole (hv : Valid top r) (prot : ℕ) :
    parts r r.base r.fin prot r.hugePages = [{r with prot := prot}] := by
  have hp := hv.pages
  have hfin : r.fin = r.base+r.numPages*4096 := rfl
  rw [parts_one (by omega),← lower_part,show (r.fin-r.base)/4096 = r.numPages by omega]

lemma parts_length : (parts r lo hi prot huge).length = if lo < hi then 1 else 0 := by
  unfold parts
  split_ifs <;> rfl

lemma parts_pages : ((parts r lo hi prot huge).map (·.numPages)).sum = (hi-lo)/4096 := by
  unfold parts
  split_ifs
  · simp [part]
  · rw [Nat.sub_eq_zero_of_le (by omega)]
    rfl

lemma parts_mem (hv : Valid top r) (h : Inside r lo hi) {p : MmapRegion}
    (hp : p ∈ parts r lo hi prot huge) : Valid top p ∧ p.base = lo ∧ p.fin = hi ∧ p.prot = prot := by
  unfold parts at hp
  split_ifs at hp with hlt
  · obtain rfl := mem_singleton.mp hp
    have hfin := part_fin prot huge h hlt
    refine ⟨⟨hv.active,h.low,?_,hfin.trans_le (h.fin.trans hv.bound)⟩,rfl,hfin,rfl⟩
    have := h.low
    have := h.high
    simp only [part]
    omega
  · cases hp

lemma parts_views (hv : Valid top r) (h : Inside r lo hi) (va : ℕ) :
    ((parts r lo hi prot huge).map (views va)).sum =
      if lo ≤ va ∧ va < hi then {{r.view va with prot := prot}} else 0 := by
  unfold parts
  by_cases hlt : lo < hi
  · rw [if_pos hlt,map_singleton,sum_singleton,part_views prot huge hv h hlt]
  · rw [if_neg hlt,if_neg (by omega)]
    rfl

end

section
variable {top base fin : ℕ} {r : MmapRegion}

lemma below_inside (hb : base%4096 = 0) (hv : Valid top r) : Inside r r.base (min base r.fin) := by
  have hal := hv.aligned
  have hfin : r.fin = r.base+r.numPages*4096 := rfl
  exact ⟨hal,by omega,le_rfl,min_le_right _ _⟩

lemma above_inside (hf : fin%4096 = 0) (hv : Valid top r) : Inside r (max fin r.base) r.fin := by
  have hal := hv.aligned
  have hfin : r.fin = r.base+r.numPages*4096 := rfl
  exact ⟨by omega,by omega,le_max_right _ _,le_rfl⟩

lemma untrackPieces_eq (hb : base%4096 = 0) (hf : fin%4096 = 0) (hle : base ≤ fin) (hv : Valid top r) :
    ∃ h h', untrackPieces base fin r =
      parts r r.base (min base r.fin) r.prot h++parts r (max fin r.base) r.fin r.prot h' := by
  have hp := hv.pages
  have hal := hv.aligned
  have hfin : r.fin = r.base+r.numPages*4096 := rfl
  by_cases h1 : r.base ≥ fin ∨ r.fin ≤ base
  · rw [untrackPieces,if_pos h1]
    rcases h1 with h1 | h1
    · refine ⟨0,r.hugePages,?_⟩
      rw [max_eq_right h1,parts_whole hv,parts_none (by omega)]
      rfl
    · refine ⟨r.hugePages,0,?_⟩
      rw [min_eq_right h1,parts_whole hv,parts_none (by omega)]
      rfl
  rw [untrackPieces,if_neg h1]
  by_cases h2 : base ≤ r.base ∧ fin ≥ r.fin
  · refine ⟨0,0,?_⟩
    rw [if_pos h2,parts_none (by omega),parts_none (by omega)]
    rfl
  rw [if_neg h2]
  by_cases h3 : base ≤ r.base ∧ fin < r.fin
  · refine ⟨0,if (fin-r.base)/4096%512 = 0 then r.hugePages-min r.hugePages ((fin-r.base)/4096/512) else 0,?_⟩
    rw [if_pos h3,parts_none (by omega),max_eq_left (by omega),parts_one h3.2]
    simp only [show r.numPages-(fin-r.base)/4096 = (r.fin-fin)/4096 by omega]
    rfl
  have hlow := lower_part (r := r) r.prot (min r.hugePages ((base-r.base)/4096/512)) base
  rw [if_neg h3,min_eq_left (by omega)]
  by_cases h4 : base > r.base ∧ fin ≥ r.fin
  · refine ⟨min r.hugePages ((base-r.base)/4096/512),0,?_⟩
    rw [if_pos h4,parts_one h4.1,parts_none (by omega)]
    exact congrArg (fun p => [p]) hlow
  refine ⟨min r.hugePages ((base-r.base)/4096/512),
    if (fin-r.base)/4096%512 = 0 then r.hugePages-min r.hugePages ((fin-r.base)/4096/512) else 0,?_⟩
  rw [if_neg h4,max_eq_left (by omega),parts_one (by omega),parts_one (by omega)]
  exact congrArg (fun p => [p,part r fin r.fin r.prot _]) hlow

lemma untrackPieces_mem (hb : base%4096 = 0) (hf : fin%4096 = 0) (hle : base ≤ fin) (hv : Valid top r)
    {p : MmapRegion} (hp : p ∈ untrackPieces base fin r) :
    Valid top p ∧ (fin ≤ p.base ∨ p.fin ≤ base) := by
  obtain ⟨h,h',he⟩ := untrackPieces_eq hb hf hle hv
  rw [he,mem_append] at hp
  rcases hp with hp | hp
  · obtain ⟨hpv,-,hfin,-⟩ := parts_mem hv (below_inside hb hv) hp
    exact ⟨hpv,.inr (hfin.trans_le (min_le_left _ _))⟩
  · obtain ⟨hpv,hbase,-⟩ := parts_mem hv (above_inside hf hv) hp
    exact ⟨hpv,.inl (hbase ▸ le_max_left _ _)⟩

lemma untrack_rewriting (hb : base%4096 = 0) (hf : fin%4096 = 0) (hle : base ≤ fin) :
    Rewriting (Valid top) (untrackPieces base fin) where
  active := fun _ h => h.active
  keeps := fun _ hv _ hp => (untrackPieces_mem hb hf hle hv hp).1
  settled := fun _ hv _ hp => if_pos (untrackPieces_mem hb hf hle hv hp).2

lemma untrackPieces_backing : ∀ p ∈ untrackPieces base fin r, SameBacking p r := by
  unfold untrackPieces
  split_ifs <;> simp [SameBacking]

lemma untrackPieces_flags :
    ∀ p ∈ untrackPieces base fin r, p.writablePrivate = r.writablePrivate := by
  unfold untrackPieces
  split_ifs <;> simp [MmapRegion.writablePrivate]

lemma untrackPieces_pages (hb : base%4096 = 0) (hf : fin%4096 = 0) (hlt : base < fin)
    (hv : Valid top r) :
    ((untrackPieces base fin r).map (·.numPages)).sum+overlapPages base fin r = r.numPages := by
  have hal := hv.aligned
  have hfin : r.fin = r.base+r.numPages*4096 := rfl
  obtain ⟨h,h',he⟩ := untrackPieces_eq hb hf hlt.le hv
  rw [he,map_append,sum_append,parts_pages,parts_pages,overlapPages]
  split_ifs <;> omega

lemma untrackPieces_views (hb : base%4096 = 0) (hf : fin%4096 = 0) (hlt : base < fin)
    (hv : Valid top r) (va : ℕ) : ((untrackPieces base fin r).map (views va)).sum =
      if base ≤ va ∧ va < fin then 0 else views va r := by
  obtain ⟨h,h',he⟩ := untrackPieces_eq hb hf hlt.le hv
  rw [he,map_append,sum_append,parts_views hv (below_inside hb hv),parts_views hv (above_inside hf hv),
    views]
  split_ifs <;> first | rfl | omega

end

section
variable {top addr pages newProt : ℕ} {r : MmapRegion}

lemma protectPieces_anonymous (hk : r.fileKind = .none) :
    protectPieces addr pages newProt r = [r] := by
  rw [protectPieces,if_pos hk]

lemma cloned_part (lo hi prot d : ℕ) (hd : (lo-r.base)/4096 = d) (n : ℕ) (hn : n = (hi-lo)/4096) :
    clonedPiece r lo n prot (advanceFileOffset r.fileOffset d) = part r lo hi prot 0 := by
  simp only [clonedPiece,part,hd,hn]

lemma range_inside (hb : addr%4096 = 0) (hv : Valid top r) :
    Inside r (max addr r.base) (min (addr+pages*4096) r.fin) := by
  have hal := hv.aligned
  have hfin : r.fin = r.base+r.numPages*4096 := rfl
  exact ⟨by omega,by omega,le_max_right _ _,min_le_right _ _⟩

lemma protectPieces_perm (newProt : ℕ) (hb : addr%4096 = 0) (hpg : 0 < pages) (hv : Valid top r)
    (hk : r.fileKind ≠ .none) : ∃ h₁ h₂ h₃, (protectPieces addr pages newProt r).Perm
      (parts r r.base (min addr r.fin) r.prot h₁++
        (parts r (max addr r.base) (min (addr+pages*4096) r.fin) newProt h₂++
          parts r (max (addr+pages*4096) r.base) r.fin r.prot h₃)) := by
  have hp := hv.pages
  have hal := hv.aligned
  have hfin : r.fin = r.base+r.numPages*4096 := rfl
  generalize hfd : addr+pages*4096 = fin
  simp only [protectPieces,if_neg hk,planProtUpdate,← hfin,hfd]
  by_cases h1 : r.base ≥ fin ∨ r.fin ≤ addr
  · rw [if_pos h1]
    rcases h1 with h1 | h1
    · refine ⟨0,0,r.hugePages,?_⟩
      rw [max_eq_right h1,parts_whole hv,parts_none (by omega),parts_none (by omega)]
      rfl
    · refine ⟨r.hugePages,0,0,?_⟩
      rw [min_eq_right h1,parts_whole hv,parts_none (by omega),parts_none (by omega)]
      rfl
  rw [if_neg h1]
  by_cases h2 : addr ≤ r.base ∧ fin ≥ r.fin
  · refine ⟨0,r.hugePages,0,?_⟩
    rw [if_pos h2,max_eq_right h2.1,min_eq_right h2.2,parts_whole hv,parts_none (by omega),
      parts_none (by omega)]
    rfl
  rw [if_neg h2]
  by_cases h3 : addr ≤ r.base
  · refine ⟨0,r.hugePages,0,?_⟩
    rw [if_pos h3,max_eq_right h3,min_eq_left (a := fin) (by omega),max_eq_left (a := fin) (by omega),
      parts_none (by omega),parts_one (by omega),parts_one (by omega)]
    simp only [show r.base+(fin-r.base)/4096*4096 = fin by omega]
    rw [cloned_part fin r.fin r.prot _ rfl _ (by omega),lower_part newProt r.hugePages fin]
    rfl
  have hlow := lower_part (r := r) r.prot r.hugePages addr
  rw [if_neg h3]
  by_cases h4 : fin ≥ r.fin
  · refine ⟨r.hugePages,0,0,?_⟩
    rw [if_pos h4,min_eq_left (a := addr) (by omega),max_eq_left (a := addr) (by omega),min_eq_right h4,
      parts_one (by omega),parts_one (by omega),parts_none (by omega)]
    simp only [show r.base+(addr-r.base)/4096*4096 = addr by omega]
    rw [cloned_part addr r.fin newProt _ rfl _ (by omega)]
    exact .of_eq (congrArg (fun p => [p,part r addr r.fin newProt 0]) hlow)
  refine ⟨r.hugePages,0,0,?_⟩
  rw [if_neg h4,min_eq_left (a := addr) (by omega),max_eq_left (a := addr) (by omega),
    min_eq_left (a := fin) (by omega),max_eq_left (a := fin) (by omega),parts_one (by omega),
    parts_one (by omega),parts_one (by omega)]
  have hmid : addr+(fin-addr)/4096*4096 = fin := by
    rw [← hfd,Nat.add_sub_cancel_left,Nat.mul_div_cancel pages (by norm_num)]
  simp only [hmid]
  rw [cloned_part fin r.fin r.prot _ (by omega) _ (by omega),
    cloned_part addr fin newProt ((addr-r.base)/4096) rfl ((fin-addr)/4096) rfl]
  exact (Perm.of_eq (congrArg (fun p => [p,part r fin r.fin r.prot 0,part r addr fin newProt 0])
    hlow)).trans ((Perm.swap _ _ _).cons _)

lemma protectPieces_mem (newProt : ℕ) (hb : addr%4096 = 0) (hpg : 0 < pages) (hv : Valid top r)
    {p : MmapRegion} (hp : p ∈ protectPieces addr pages newProt r) :
    Valid top p ∧ protectPieces addr pages newProt p = [p] := by
  by_cases hk : r.fileKind = .none
  · rw [protectPieces_anonymous hk] at hp
    obtain rfl : p = r := by simpa using hp
    exact ⟨hv,protectPieces_anonymous hk⟩
  have hout : addr+pages*4096 ≤ p.base ∨ p.fin ≤ addr → protectPieces addr pages newProt p = [p] := by
    intro ho
    have hplan : planProtUpdate p.base p.numPages addr pages = {overlap := .none} := if_pos ho
    simp only [protectPieces,hplan]
    split <;> rfl
  obtain ⟨h₁,h₂,h₃,hperm⟩ := protectPieces_perm newProt hb hpg hv hk
  rw [hperm.mem_iff,mem_append,mem_append] at hp
  rcases hp with hp | hp | hp
  · obtain ⟨hpv,-,hfin,-⟩ := parts_mem hv (below_inside hb hv) hp
    exact ⟨hpv,hout (.inr (hfin.trans_le (min_le_left _ _)))⟩
  · obtain ⟨hpv,hbase,hfin,hprot⟩ := parts_mem hv (range_inside hb hv) hp
    have hpages := hpv.pages
    have hpfin : p.fin = p.base+p.numPages*4096 := rfl
    have hplan : planProtUpdate p.base p.numPages addr pages =
        {overlap := .cover, midPages := p.numPages} :=
      (if_neg (by omega)).trans (if_pos ⟨by omega,by omega⟩)
    simp only [protectPieces,hplan,← hprot]
    exact ⟨hpv,by split <;> rfl⟩
  · obtain ⟨hpv,hbase,-⟩ := parts_mem hv (above_inside (by omega) hv) hp
    exact ⟨hpv,hout (.inl (hbase ▸ le_max_left _ _))⟩

lemma protect_rewriting (top newProt : ℕ) (hb : addr%4096 = 0) (hpg : 0 < pages) :
    Rewriting (Valid top) (protectPieces addr pages newProt) where
  active := fun _ h => h.active
  keeps := fun _ hv _ hp => (protectPieces_mem newProt hb hpg hv hp).1
  settled := fun _ hv _ hp => (protectPieces_mem newProt hb hpg hv hp).2

lemma protectPieces_backing : ∀ p ∈ protectPieces addr pages newProt r, SameBacking p r := by
  unfold protectPieces
  split
  · simp [SameBacking]
  · dsimp only
    split <;> simp [SameBacking,clonedPiece]

lemma protectPieces_pages (hb : addr%4096 = 0) (hpg : 0 < pages) (hv : Valid top r) :
    ((protectPieces addr pages newProt r).map (·.numPages)).sum = r.numPages := by
  by_cases hk : r.fileKind = .none
  · rw [protectPieces_anonymous hk]
    simp
  have hal := hv.aligned
  have hfin : r.fin = r.base+r.numPages*4096 := rfl
  obtain ⟨h₁,h₂,h₃,hperm⟩ := protectPieces_perm newProt hb hpg hv hk
  rw [(hperm.map _).sum_eq,map_append,map_append,sum_append,sum_append,parts_pages,parts_pages,
    parts_pages]
  omega

lemma views_map (f : PageView → PageView) (va : ℕ) (r : MmapRegion) :
    (views va r).map f = if r.base ≤ va ∧ va < r.fin then {f (r.view va)} else 0 := by
  unfold views
  split_ifs
  · exact Multiset.map_singleton _ _
  · rfl

lemma protectPieces_views (hb : addr%4096 = 0) (hpg : 0 < pages) (hv : Valid top r) (va : ℕ) :
    ((protectPieces addr pages newProt r).map (views va)).sum = (views va r).map (fun v =>
        if addr ≤ va ∧ va < addr+pages*4096 then v.reprotect newProt else v) := by
  rw [views_map]
  by_cases hk : r.fileKind = .none
  · have hsame : (r.view va).reprotect newProt = r.view va := if_neg (by simp [MmapRegion.view,hk])
    rw [protectPieces_anonymous hk,map_singleton,sum_singleton,hsame,ite_self,views]
  have hfile : (r.view va).reprotect newProt = {r.view va with prot := newProt} :=
    if_pos (by simp [MmapRegion.view,hk])
  obtain ⟨h₁,h₂,h₃,hperm⟩ := protectPieces_perm newProt hb hpg hv hk
  rw [hfile,(hperm.map _).sum_eq,map_append,map_append,sum_append,sum_append,
    parts_views hv (below_inside hb hv),parts_views hv (range_inside hb hv),
    parts_views hv (above_inside (by omega) hv)]
  split_ifs <;> first | rfl | omega

end

end MoQiOS.Vma
