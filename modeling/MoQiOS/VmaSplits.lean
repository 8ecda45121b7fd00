import MoQiOS.VmaPieces

/-!
# Splitting keeps backing

The preflights of `munmap`, `mprotect` and `mremap` reserve the slots their
splits need. With that room every page keeps its view through a split: after
untracking a range the pages outside it are covered exactly as before and
those inside not at all, after a change of protection only the recorded
protection of file pages inside the range differs, and cutting a range out of
an anonymous region changes no page. Without the room the tail of a cut region
is lost.
-/

namespace MoQiOS.Vma
open SlotTables List
set_option maxRecDepth 9000

def Mm.viewsAt (m : Mm) (va : ℕ) : Multiset PageView := m.live.bind (views va)

def pagesIn (u : Multiset MmapRegion) : ℕ := (u.map (·.numPages)).sum

def dataPagesIn (u : Multiset MmapRegion) : ℕ :=
  (u.map fun r => if r.writablePrivate then r.numPages else 0).sum

variable {top : ℕ}

lemma countP_total (p : Slot → Bool) (l : List Slot) :
    l.countP p = total (fun s => if p s then 1 else 0) l := by
  induction l with
  | nil => rfl
  | cons c l ih =>
    rw [countP_cons,ih]
    simp only [total,map_cons,sum_cons]
    omega

lemma total_congr {w w' : Slot → ℕ} {l : List Slot} (h : ∀ s ∈ l, w s = w' s) :
    total w l = total w' l := by
  simp only [total]
  rw [map_congr_left h]

variable {m : Mm} {s : Slot}

lemma slot_live (hs : s ∈ m.slots) (ha : s.region.active) : s.region ∈ m.live := by
  obtain ⟨i,hi,rfl⟩ := getElem_of_mem hs
  exact live_mem (getElem?_eq_getElem hi) ha

lemma freeSlots_eq (h : Layout m) : freeSlots m+Multiset.card m.live = maxRegions := by
  have hc : m.slots.countP (·.bit) = Multiset.card m.live := by
    rw [card_live,countP_total]
    exact total_congr (fun s hs => by rw [h.bits s hs])
  have hle : m.slots.countP (·.bit) ≤ m.slots.length := countP_le_length
  rw [freeSlots,← hc,← h.length]
  omega

variable {base n : ℕ} {r : MmapRegion}

lemma untrackPieces_extra (hb : base%4096 = 0) (hv : Valid top r) :
    (untrackPieces base (base+n*4096) r).length-1 =
      if needsSplitSlot r.base r.numPages base n then 1 else 0 := by
  have hpp := hv.pages
  have hfin : r.fin = r.base+r.numPages*4096 := rfl
  obtain ⟨h,h',he⟩ := untrackPieces_eq hb (by omega : (base+n*4096)%4096 = 0) (by omega) hv
  rw [he,length_append,parts_length,parts_length]
  simp only [needsSplitSlot,Bool.and_eq_true,decide_eq_true_eq]
  split_ifs <;> omega

lemma canUntrack_room (h : Layout m) (hv : ∀ r ∈ m.live, Valid top r)
    (hb : base%4096 = 0) (hc : canUntrack m base n) :
    extraSlots (untrackPieces base (base+n*4096)) m.live+Multiset.card m.live ≤ maxRegions := by
  have hfree := freeSlots_eq h
  simp only [canUntrack,decide_eq_true_eq] at hc
  have heq : extraSlots (untrackPieces base (base+n*4096)) m.live =
      m.slots.countP (fun s => s.bit && needsSplitSlot s.region.base s.region.numPages base n) := by
    rw [extraSlots,live_weight,countP_total]
    apply total_congr
    intro s hs
    rw [h.bits s hs]
    by_cases ha : s.region.active
    · rw [if_pos ha,untrackPieces_extra hb (hv _ (slot_live hs ha)),ha,Bool.true_and]
    · rw [if_neg ha,Bool.not_eq_true] at *
      simp [ha]
  omega

variable {addr : ℕ} {newProt : ℕ} {pages : ℕ}

lemma protectPieces_extra : (protectPieces addr pages newProt r).length-1 =
      if r.fileKind != .none then (planProtUpdate r.base r.numPages addr pages).slotsNeeded else 0 := by
  unfold protectPieces
  by_cases hk : r.fileKind = .none
  · simp [hk]
  rw [if_neg hk,if_pos (by simpa using hk)]
  unfold planProtUpdate
  simp only
  split_ifs <;> rfl

lemma protect_room (newProt : ℕ) (h : Layout m)
    (hc : protectSlotsNeeded m addr pages ≤ freeSlots m) :
    extraSlots (protectPieces addr pages newProt) m.live+Multiset.card m.live ≤ maxRegions := by
  have hfree := freeSlots_eq h
  have heq : extraSlots (protectPieces addr pages newProt) m.live =
      protectSlotsNeeded m addr pages := by
    rw [extraSlots,live_weight,protectSlotsNeeded]
    generalize hl : m.slots = l
    have hbits : ∀ s ∈ l, s.bit = s.region.active := hl ▸ h.bits
    clear hl hfree hc
    induction l with
    | nil => rfl
    | cons c l ih =>
      have hih := ih (fun s hs => hbits s (by simp [hs]))
      have hc := hbits c (by simp)
      simp only [total,map_cons,sum_cons] at hih ⊢
      rw [hih,filter_cons,hc,protectPieces_extra]
      cases c.region.active <;> cases c.region.fileKind != .none <;> simp
  omega

structure Untracked (top base fin : ℕ) (m : Mm) (n : ℕ) (u : Untracking) : Prop where
  pass : Pass (Valid top) (untrackPieces base fin) FsKind.counted m n u.mm
  refunded : pagesIn u.mm.live+u.refunded = pagesIn m.live
  dataRefunded : dataPagesIn u.mm.live+u.dataRefunded = dataPagesIn m.live

lemma pagesIn_coe (l : List MmapRegion) :
    pagesIn (l : Multiset MmapRegion) = (l.map (·.numPages)).sum := by
  simp [pagesIn]

lemma dataPagesIn_pieces {l : List MmapRegion} {b : Bool} (h : ∀ p ∈ l, p.writablePrivate = b) :
    dataPagesIn (l : Multiset MmapRegion) = if b then (l.map (·.numPages)).sum else 0 := by
  simp only [dataPagesIn,Multiset.map_coe,Multiset.sum_coe]
  induction l with
  | nil => simp
  | cons p l ih =>
    rw [map_cons,sum_cons,ih (fun q hq => h q (by simp [hq])),h p (by simp)]
    cases b <;> simp

variable {fin : ℕ}

lemma untrackSlot_untracked {u : Untracking} (hb : base%4096 = 0)
    (hf : fin%4096 = 0) (hlt : base < fin) (h : Untracked top base fin m n u) :
    Untracked top base fin m (n+1) (untrackSlot base fin u n) := by
  unfold untrackSlot
  rcases hs : u.mm.slots[n]? with _ | s
  · exact ⟨h.pass.skip (by simp [hs]),h.refunded,h.dataRefunded⟩
  by_cases ha : s.region.active
  · have hv := h.pass.valid _ (live_mem hs ha)
    obtain ⟨m',hm',hp,hx⟩ := h.pass.step finds_freeSlot (untrack_rewriting hb hf hlt.le) hs ha
    simp only [ha,Bool.not_true,Bool.false_eq_true,if_false,hm',Option.getD_some]
    have hpages := untrackPieces_pages hb hf hlt hv
    have hsum := congrArg pagesIn hx
    have hdata := congrArg dataPagesIn hx
    simp only [pagesIn,dataPagesIn,Multiset.map_add,Multiset.sum_add,Multiset.map_singleton,
      Multiset.sum_singleton] at hsum hdata
    have h1 := h.refunded
    have h2 := h.dataRefunded
    have h3 := pagesIn_coe (untrackPieces base fin s.region)
    have h4 := dataPagesIn_pieces (l := untrackPieces base fin s.region) untrackPieces_flags
    simp only [pagesIn,dataPagesIn] at h1 h2 h3 h4
    refine ⟨hp,?_,?_⟩
    · simp only [pagesIn]
      omega
    · simp only [dataPagesIn]
      cases hw : s.region.writablePrivate <;>
        simp only [hw,Bool.false_eq_true,if_false,if_true] at hdata h4 ⊢ <;> omega
  · rw [Bool.not_eq_true] at ha
    simp only [ha,Bool.not_false,if_true]
    exact ⟨h.pass.skip (by rw [hs]; rintro t ⟨⟩; exact ha),h.refunded,h.dataRefunded⟩

lemma untrackLoop (hb : base%4096 = 0) (hf : fin%4096 = 0) (hlt : base < fin)
    (h : Layout m) (hv : ∀ r ∈ m.live, Valid top r)
    (room : extraSlots (untrackPieces base fin) m.live+Multiset.card m.live ≤ maxRegions) (n : ℕ) :
    Untracked top base fin m n ((List.range n).foldl (untrackSlot base fin) ⟨m,0,0⟩) := by
  induction n with
  | zero => exact ⟨Pass.start h hv room,rfl,rfl⟩
  | succ n ih =>
    rw [range_succ,foldl_append]
    exact untrackSlot_untracked hb hf hlt ih

lemma protectLoop {V : MmapRegion → Prop}
    (hR : Rewriting V (protectPieces addr pages newProt)) (h : Layout m) (hv : ∀ r ∈ m.live, V r)
    (room : extraSlots (protectPieces addr pages newProt) m.live+Multiset.card m.live ≤ maxRegions)
    (n : ℕ) : ∃ m', (List.range n).foldlM (protectSlot addr pages newProt) m = some m' ∧
      Pass V (protectPieces addr pages newProt) (· == .ext2) m n m' := by
  induction n with
  | zero => exact ⟨m,rfl,Pass.start h hv room⟩
  | succ n ih =>
    obtain ⟨m',hm',hp⟩ := ih
    rw [range_succ,foldlM_append,hm']
    have hone : ∃ m'', protectSlot addr pages newProt m' n = some m'' ∧
        Pass V (protectPieces addr pages newProt) (· == .ext2) m (n+1) m'' := by
      unfold protectSlot
      rcases hs : m'.slots[n]? with _ | s
      · exact ⟨m',rfl,hp.skip (by simp [hs])⟩
      by_cases ha : s.region.active
      · obtain ⟨m'',hm'',hp',-⟩ := hp.step finds_inactiveSlot hR hs ha
        exact ⟨m'',by simpa [ha] using hm'',hp'⟩
      · rw [Bool.not_eq_true] at ha
        exact ⟨m',by simp [ha],hp.skip (by rw [hs]; rintro t ⟨⟩; exact ha)⟩
    obtain ⟨m'',hm'',hp''⟩ := hone
    exact ⟨m'',by simpa using hm'',hp''⟩

variable {m' : Mm} {va : ℕ}

lemma viewsAt_rewrite {f : MmapRegion → List MmapRegion} {g : PageView → Multiset PageView} (hl : m'.live = m.live.bind (piecesOf f))
    (hf : ∀ r ∈ m.live, ((f r).map (views va)).sum = (views va r).bind g) :
    m'.viewsAt va = (m.viewsAt va).bind g := by
  rw [Mm.viewsAt,Mm.viewsAt,hl,Multiset.bind_assoc,Multiset.bind_assoc]
  apply Multiset.bind_congr
  intro r hr
  rw [← hf r hr]
  simp [piecesOf,Multiset.bind,Multiset.join]

section
variable (h : Layout m) (hv : ∀ r ∈ m.live, Valid top r) (hb : base%4096 = 0) (hn : 0 < n)
  (hc : canUntrack m base n)
include h hv hb hn hc

lemma untrackMmapRange_spec : Layout (untrackMmapRange m base n) ∧
    Untracked top base (base+n*4096) m maxRegions
      ((List.range maxRegions).foldl (untrackSlot base (base+n*4096)) ⟨m,0,0⟩) := by
  have hu := untrackLoop hb (by omega) (by omega) h hv (canUntrack_room h hv hb hc) maxRegions
  exact ⟨⟨hu.pass.layout.length,hu.pass.layout.bits,hu.pass.layout.count⟩,hu⟩

lemma untrackMmapRange_live : (untrackMmapRange m base n).live =
    m.live.bind (piecesOf (untrackPieces base (base+n*4096))) :=
  (untrackMmapRange_spec h hv hb hn hc).2.pass.finish

end

lemma protectRegions_pass (newProt : ℕ) (h : Layout m)
    (hv : ∀ r ∈ m.live, Valid top r) (hb : addr%4096 = 0) (hpg : 0 < pages)
    (hc : protectSlotsNeeded m addr pages ≤ freeSlots m) :
    ∃ m', protectRegions m addr pages newProt = some m' ∧
      Pass (Valid top) (protectPieces addr pages newProt) (· == .ext2) m maxRegions m' :=
  protectLoop (protect_rewriting _ newProt hb hpg) h hv (protect_room newProt h hc) maxRegions

section
variable {r : MmapRegion} {p : Plan} {oldAddr pages : ℕ}

lemma plan_pages (hv : Valid top r) (hb : oldAddr%4096 = 0)
    (hp : plan (r.base/4096) r.numPages r.hugePages (oldAddr/4096) pages = some p) :
    0 < p.midPages ∧ r.base+p.headPages*4096 = oldAddr ∧
      oldAddr+p.midPages*4096+p.tailPages*4096 = r.fin := by
  have hal := hv.aligned
  have hfin : r.fin = r.base+r.numPages*4096 := rfl
  unfold plan at hp
  split_ifs at hp with h1 h2 h3
  obtain rfl := Option.some.inj hp
  dsimp only
  omega

lemma anon_view (hk : r.fileKind = .none) (base n huge va : ℕ) :
    (anonPiece r base n huge).view va = r.view va := by
  simp [anonPiece,MmapRegion.view,hk]

lemma splitPieces_facts (hv : Valid top r) (hk : r.fileKind = .none) (hb : oldAddr%4096 = 0)
    (hp : plan (r.base/4096) r.numPages r.hugePages (oldAddr/4096) pages = some p) :
    (∀ q ∈ splitPieces p oldAddr r, Valid top q ∧ q.fileKind = .none ∧
      q.writablePrivate = r.writablePrivate) ∧
    ((splitPieces p oldAddr r).map (·.numPages)).sum = r.numPages ∧
    (splitPieces p oldAddr r).length = 1+p.extraSlots ∧
    ∀ va, ((splitPieces p oldAddr r).map (views va)).sum = views va r := by
  obtain ⟨hmid,hhead,htail⟩ := plan_pages hv hb hp
  obtain ⟨ha,hal,hpp,hbd⟩ := hv
  have hfin : r.fin = r.base+r.numPages*4096 := rfl
  have hlow : ∀ n h, 0 < n → r.base+n*4096 ≤ r.fin →
      Valid top {r with numPages := n, hugePages := h} := fun n h hn hle =>
    ⟨ha,hal,hn,(show r.base+n*4096 ≤ top from hle.trans hbd)⟩
  have hpiece : ∀ b n h, b%4096 = 0 → 0 < n → b+n*4096 ≤ r.fin → Valid top (anonPiece r b n h) :=
    fun b n h hb hn hle => ⟨rfl,hb,hn,(show b+n*4096 ≤ top from hle.trans hbd)⟩
  have hpv : ∀ b n h va, views va (anonPiece r b n h) =
      if b ≤ va ∧ va < b+n*4096 then {r.view va} else 0 := by
    intro b n h va
    rw [views,anon_view hk]
    rfl
  have hlv : ∀ n h va, views va {r with numPages := n, hugePages := h} =
      if r.base ≤ va ∧ va < r.base+n*4096 then {r.view va} else 0 := fun n h va => rfl
  unfold splitPieces
  by_cases h1 : p.headPages = 0 <;> by_cases h2 : p.tailPages = 0 <;>
    simp only [h1,h2,ne_eq,not_true_eq_false,not_false_eq_true,if_true,if_false,
      mem_cons,not_mem_nil,or_false,forall_eq_or_imp,forall_eq,map_cons,
      map_nil,sum_cons,sum_nil,length_cons,length_nil,Plan.extraSlots, add_zero,hpv,hlv]
  · refine ⟨⟨hlow _ _ hmid (by omega),hk,rfl⟩,by omega,by trivial,fun va => ?_⟩
    split_ifs <;> first | rfl | omega
  · refine ⟨⟨⟨hlow _ _ hmid (by omega),hk,rfl⟩,hpiece _ _ _ (by omega) (by omega) (by omega),rfl,rfl⟩,
      by simp only [anonPiece]; omega,by trivial,fun va => ?_⟩
    split_ifs <;> first | rfl | omega
  · refine ⟨⟨⟨hlow _ _ (by omega) (by omega),hk,rfl⟩,hpiece _ _ _ hb hmid (by omega),rfl,rfl⟩,
      by simp only [anonPiece]; omega,by trivial,fun va => ?_⟩
    split_ifs <;> first | rfl | omega
  · refine ⟨⟨⟨hlow _ _ (by omega) (by omega),hk,rfl⟩,⟨hpiece _ _ _ hb hmid (by omega),rfl,rfl⟩,
      hpiece _ _ _ (by omega) (by omega) (by omega),rfl,rfl⟩,by simp only [anonPiece]; omega,by trivial,
      fun va => ?_⟩
    split_ifs <;> first | rfl | omega

lemma splitRegionForRange_placed {idx : ℕ} (h : Layout m)
    (hs : m.slots[idx]? = some s) (hv : Valid top s.region) (hk : s.region.fileKind = .none)
    (hb : oldAddr%4096 = 0)
    (hp : plan (s.region.base/4096) s.region.numPages s.region.hugePages (oldAddr/4096) pages = some p)
    (hc : p.extraSlots ≤ freeSlots m) : ∃ m', splitRegionForRange m idx p oldAddr = some m' ∧
      Placed (fun _ => false) m idx s.region (splitPieces p oldAddr s.region) m' := by
  obtain ⟨hval,-,hlen,-⟩ := splitPieces_facts hv hk hb hp
  have hfree := freeSlots_eq h
  simp only [splitRegionForRange,hs]
  exact place_placed finds_freeSlot _ h hs hv.active _ (fun q hq => (hval q hq).1.active) (by omega)

end

lemma Placed.views_eq {retained : FsKind → Bool} {i : ℕ}
    {pieces : List MmapRegion} (h : Placed retained m i r pieces m')
    (hv : (pieces.map (views va)).sum = views va r) : m'.viewsAt va = m.viewsAt va := by
  have := congrArg (fun u => u.bind (views va)) h.live
  simp only [Multiset.add_bind,Multiset.singleton_bind] at this
  rw [show (pieces : Multiset MmapRegion).bind (views va) = views va r by
    simp [Multiset.bind,Multiset.join,← hv]] at this
  exact add_right_cancel this

lemma splits_views_untrack (h : Layout m) (hv : ∀ r ∈ m.live, Valid top r)
    (hb : base%4096 = 0) (hn : 0 < n) (hc : canUntrack m base n) (va : ℕ) :
    (untrackMmapRange m base n).viewsAt va =
      if base ≤ va ∧ va < base+n*4096 then 0 else m.viewsAt va := by
  have hlive := untrackMmapRange_live h hv hb hn hc
  have hf : (base+n*4096)%4096 = 0 := by omega
  have hlt : base < base+n*4096 := by omega
  have hone : ∀ u : Multiset PageView, (u.bind fun v => {v}) = u := fun u =>
    (Multiset.bind_singleton u id).trans (Multiset.map_id u)
  rw [viewsAt_rewrite (g := fun v => if base ≤ va ∧ va < base+n*4096 then 0 else {v}) hlive]
  · by_cases hin : base ≤ va ∧ va < base+n*4096
    · simp [hin]
    · simp only [hin,if_false,hone]
  · intro r hr
    rw [untrackPieces_views hb hf hlt (hv r hr)]
    by_cases hin : base ≤ va ∧ va < base+n*4096
    · simp [hin]
    · simp only [hin,if_false,hone]

lemma splits_views_protect (hv : ∀ r ∈ m.live, Valid top r) (hb : addr%4096 = 0) (hpg : 0 < pages)
    (hp : Pass (Valid top) (protectPieces addr pages newProt) (· == .ext2) m maxRegions m') (va : ℕ) :
    m'.viewsAt va = (m.viewsAt va).map (fun v =>
      if addr ≤ va ∧ va < addr+pages*4096 then v.reprotect newProt else v) := by
  rw [viewsAt_rewrite (g := fun v =>
    {if addr ≤ va ∧ va < addr+pages*4096 then v.reprotect newProt else v}) hp.finish]
  · exact Multiset.bind_singleton _ _
  · intro r hr
    rw [protectPieces_views hb hpg (hv r hr),Multiset.bind_singleton]

instance (r : MmapRegion) : Decidable (Valid top r) :=
  decidable_of_iff (r.active ∧ r.base%4096 = 0 ∧ 0 < r.numPages ∧ r.fin ≤ top)
    ⟨fun h => ⟨h.1,h.2.1,h.2.2.1,h.2.2.2⟩,fun h => ⟨h.active,h.aligned,h.pages,h.bound⟩⟩

def tableOf (l : List MmapRegion) : Mm where
  slots := l.map (⟨·,true⟩)++List.replicate (maxRegions-l.length) {}
  count := l.length
  asUsed := (l.map (·.numPages)).sum*4096
  dataUsed := (l.map fun r => if r.writablePrivate then r.numPages else 0).sum*4096
  refCount := fun k i => if k.counted then l.countP (fun r => r.fileKind = k ∧ r.fileIdx = i) else 0

def mappedFile : MmapRegion :=
  { base := 65536, numPages := 4, active := true, fileKind := .ext2, fileIdx := 2, prot := 1,
    fileOffset := 8192, fileSize := 40960, inodeId := 12 }

def fullTable : Mm :=
  tableOf ((List.range 64).map fun i =>
    { base := 4096*(4*i+4), numPages := 3, active := true, prot := 3 })

end MoQiOS.Vma
