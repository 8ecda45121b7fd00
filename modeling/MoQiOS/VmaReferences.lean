import MoQiOS.VmaRuns

/-!
# References on mapped files

A mapping of an ext2 or FAT32 file holds a reference on the open slot of the
file, beside those of the descriptors. Mapping takes one, every piece a split
adds takes its own, and a region that goes gives its own back. The pieces that
`mprotect` inserts take one for ext2 only: as long as it splits no FAT32
region, the address space holds exactly one reference for each region.
-/

namespace MoQiOS.Vma
open SlotTables Runs List Multiset Option
set_option maxRecDepth 9000

structure Files where
  mm : Mm
  fds : FsKind → ℕ → ℕ

/-- `resize` is the record an `mremap` leaves that grows or moves a region. -/
inductive FileOp where
  | openFd (kind : FsKind) (idx : ℕ)
  | closeFd (kind : FsKind) (idx : ℕ)
  | table (c : TableOp)
  | resize (i base numPages hugePages : ℕ)
  | exit

def retainMeta (m : Mm) : Option RegionFileMeta → Mm
  | some f => if f.kind.counted then retainFile m f.kind f.idx else m
  | none => m

/-- `mmap` retains the slot of the file it maps before it tracks the region. -/
def mapStep (m : Mm) : TableOp → Option Mm
  | .track base n md prot shared huge _ => trackMmapRegion (retainMeta m md) base n md prot shared huge
  | c => c.step m

def resizeRegion (m : Mm) (i base numPages hugePages : ℕ) : Mm :=
  match m.slots[i]? with
  | none => m
  | some s => m.put i { s.region with base := base, numPages := numPages, hugePages := hugePages }

def releaseSlot (m : Mm) (i : ℕ) : Mm :=
  match m.slots[i]? with
  | none => m
  | some s => if s.bit && s.region.active then m.clear i else m

def releaseFileRefs (m : Mm) : Mm :=
  let m := (List.range maxRegions).foldl releaseSlot m
  { m with slots := m.slots.map (fun s => { s with bit := false }), count := 0 }

def setAt (f : FsKind → ℕ → ℕ) (kind : FsKind) (idx : ℕ) (g : ℕ → ℕ) : FsKind → ℕ → ℕ :=
  fun k i => if k = kind ∧ i = idx then g (f k i) else f k i

def FileOp.ready (s : Files) : FileOp → Prop
  | .openFd _ _ => True
  | .closeFd kind idx => 0 < s.fds kind idx
  | .table c => c.ready s.mm
  | .resize i base n _ => base%4096 = 0 ∧ 0 < n ∧ ∃ t ∈ s.mm.slots[i]?, t.region.active = true
  | .exit => True

/-- The condition under which references balance: `mprotect` leaves every
FAT32 region in one piece. -/
def FileOp.splitsNoFat32 (s : Files) : FileOp → Prop
  | .table (.protect addr pages newProt) =>
    ∀ t ∈ s.mm.slots, t.region.active → t.region.fileKind = .fat32 →
      (protectPieces addr pages newProt t.region).length ≤ 1
  | _ => True

def FileOp.step (s : Files) : FileOp → Files
  | .openFd kind idx => ⟨retainFile s.mm kind idx,setAt s.fds kind idx (·+1)⟩
  | .closeFd kind idx => ⟨closeFile s.mm kind idx,setAt s.fds kind idx (·-1)⟩
  | .table c => { s with mm := (mapStep s.mm c).getD s.mm }
  | .resize i base n huge => { s with mm := resizeRegion s.mm i base n huge }
  | .exit => { s with mm := releaseFileRefs s.mm }

structure Held (s : Files) : Prop where
  layout : Layout s.mm
  valid : ∃ top, userAddrMax ≤ top ∧ ∀ r ∈ s.mm.live, Valid top r
  balanced : Balanced s.fds s.mm

lemma Valid.mono {top top' : ℕ} {r : MmapRegion} (h : Valid top r) (hle : top ≤ top') : Valid top' r :=
  ⟨h.active,h.aligned,h.pages,h.bound.trans hle⟩

/-- The table is in order; regions may reach beyond user space. -/
def Ordered (m : Mm) : Prop := Layout m ∧ ∃ top, userAddrMax ≤ top ∧ ∀ r ∈ m.live, Valid top r

lemma Layout.congr {m m' : Mm} (h : Layout m) (hs : m'.slots = m.slots) (hc : m'.count = m.count) :
    Layout m' ∧ m'.live = m.live := by
  have hlive : m'.live = m.live := by rw [Mm.live,Mm.live,hs]
  exact ⟨⟨by rw [hs]; exact h.length,by rw [hs]; exact h.bits,by rw [hc,hlive]; exact h.count⟩,hlive⟩

/-- One region takes the place of another; the ledgers may have moved before. -/
lemma Ordered.put {m m₀ : Mm} {i : ℕ} {t : Slot} {p : MmapRegion} (h : Ordered m)
    (hslots : m₀.slots = m.slots) (hcount : m₀.count = m.count) (ht : m.slots[i]? = some t)
    (ha : t.region.active) (hp : p.active) (hal : p.base%4096 = 0) (hpos : 0 < p.numPages) :
    Ordered (m₀.put i p) ∧ (m₀.put i p).live+{t.region} = m.live+{p} ∧
      Placed FsKind.counted m₀ i t.region [p] (m₀.put i p) := by
  obtain ⟨hlay,top,htop,hv⟩ := h
  obtain ⟨hlay,hlive⟩ := hlay.congr hslots hcount
  have hP := put_placed FsKind.counted (p := p) hlay (hslots ▸ ht) ha hp
  have hl := hP.live
  rw [hlive] at hl
  refine ⟨⟨hP.layout,max top p.fin,htop.trans (le_max_left _ _),?_⟩,hl,hP⟩
  refine exchange_valid hl (fun r hr => (hv r hr).mono (le_max_left _ _)) ?_
  intro q hq
  obtain rfl : q = p := by simpa using hq
  exact ⟨hp,hal,hpos,le_max_right _ _⟩

variable {m : Mm} {base n : ℕ} {fds : FsKind → ℕ → ℕ} {s : Files} {others : FsKind → ℕ → ℕ}

variable (refs : FsKind → ℕ → ℕ)

lemma retainMeta_refs (m : Mm) (md : Option RegionFileMeta) (base n prot huge : ℕ) (shared : Bool)
    (k : FsKind) (i : ℕ) (hk : k.counted) : (retainMeta m md).refCount k i = m.refCount k i+
      if (newRegion base n md prot shared huge).fileKind = k ∧
        (newRegion base n md prot shared huge).fileIdx = i then 1 else 0 := by
  cases md with
  | none =>
    rw [if_neg]
    · rfl
    · rintro ⟨rfl,-⟩
      exact absurd hk (by simp [newRegion,FsKind.counted])
  | some f =>
    have hkind : (newRegion base n (some f) prot shared huge).fileKind = f.kind := rfl
    have hidx : (newRegion base n (some f) prot shared huge).fileIdx = f.idx := rfl
    rw [hkind,hidx]
    simp only [retainMeta]
    by_cases he : f.kind = k ∧ f.idx = i
    · obtain ⟨rfl,rfl⟩ := he
      simp [hk,retainFile]
    have he' : ¬ (k = f.kind ∧ i = f.idx) := fun hq => he ⟨hq.1.symm,hq.2.symm⟩
    rw [if_neg he,add_zero]
    split
    · simp only [retainFile,if_neg he']
    · rfl

lemma retainMeta_slots (m : Mm) (md : Option RegionFileMeta) :
    (retainMeta m md).slots = m.slots ∧ (retainMeta m md).count = m.count := by
  cases md with
  | none => exact ⟨rfl,rfl⟩
  | some f =>
    simp only [retainMeta]
    split <;> exact ⟨rfl,rfl⟩

lemma retainMeta_layout (h : Layout m) (md : Option RegionFileMeta) :
    Layout (retainMeta m md) ∧ (retainMeta m md).live = m.live :=
  h.congr (retainMeta_slots m md).1 (retainMeta_slots m md).2

/-- The preflight of `mmap` reads the slots and the count only. -/
lemma track_ready_congr {m' : Mm} (hs : m'.slots = m.slots) (hc : m'.count = m.count)
    {prot huge : ℕ} {md : Option RegionFileMeta} {shared anonymous : Bool}
    (h : (TableOp.track base n md prot shared huge anonymous).ready m) :
    (TableOp.track base n md prot shared huge anonymous).ready m' := by
  simpa only [TableOp.ready,rangeFree,hasMmapOverlap,canTrackMmapRegion,canTrackReplacement,hs,
    hc] using h

lemma map_held (h : Held ⟨m,fds⟩) (base n prot huge : ℕ)
    (md : Option RegionFileMeta) (shared anonymous : Bool)
    (hr : (TableOp.track base n md prot shared huge anonymous).ready m) :
    Held ⟨(mapStep m (.track base n md prot shared huge anonymous)).getD m,fds⟩ := by
  obtain ⟨top,htop,hv⟩ := h.valid
  obtain ⟨hlay,hlive⟩ := retainMeta_layout h.layout md
  obtain ⟨m',hm',hx⟩ := TableOp.redone hlay (by rw [hlive]; exact hv) htop
    (track_ready_congr (retainMeta_slots m md).1 (retainMeta_slots m md).2 hr)
  have hstep : mapStep m (.track base n md prot shared huge anonymous) = some m' := hm'
  rw [hstep,getD_some]
  refine ⟨hx.layout,⟨top,htop,hx.valid⟩,hx.balanced nofun fds ?_⟩
  intro k i hk
  rw [retainMeta_refs m md base n prot huge shared k i hk,h.balanced k i hk,hlive]
  exact add_right_comm _ _ _

lemma releaseSlot_held (n : ℕ) (h : Layout m)
    (hb : Balanced fds m) (hd : AllBelow n (fun _ => False) m.slots) :
    Layout (releaseSlot m n) ∧ Balanced fds (releaseSlot m n) ∧
      AllBelow (n+1) (fun _ => False) (releaseSlot m n).slots := by
  unfold releaseSlot
  cases hs : m.slots[n]? with
  | none =>
    refine ⟨h,hb,fun j hj s hjs => ?_⟩
    rcases Nat.lt_succ_iff_lt_or_eq.mp hj with hlt | rfl
    · exact hd j hlt s hjs
    · rw [hs] at hjs
      exact absurd hjs (by simp)
  | some s =>
    have hbit := h.bits s (mem_of_getElem? hs)
    by_cases ha : s.region.active
    · simp only [hbit,ha,Bool.and_self,if_true]
      have hP := clear_placed FsKind.counted h hs ha
      exact ⟨hP.layout,hP.balanced fds (by simp) (.inl rfl) hb,hP.below _ hd (by simp)⟩
    have ha' : s.region.active = false := by simpa using ha
    simp only [hbit,ha',Bool.and_self,Bool.false_eq_true,if_false]
    refine ⟨h,hb,fun j hj t hjt hat => ?_⟩
    rcases Nat.lt_succ_iff_lt_or_eq.mp hj with hlt | rfl
    · exact hd j hlt t hjt hat
    rw [hs] at hjt
    obtain rfl := some.inj hjt
    exact ha hat

lemma releaseFileRefs_held (h : Layout m) (hb : Balanced fds m) :
    Held ⟨releaseFileRefs m,fds⟩ ∧ (releaseFileRefs m).live = 0 := by
  have hloop : ∀ n, Layout ((List.range n).foldl releaseSlot m) ∧
      Balanced fds ((List.range n).foldl releaseSlot m) ∧
      AllBelow n (fun _ => False) ((List.range n).foldl releaseSlot m).slots := by
    intro n
    induction n with
    | zero => exact ⟨h,hb,fun j hj => absurd hj (Nat.not_lt_zero j)⟩
    | succ n ih =>
      rw [List.range_succ,foldl_append]
      exact releaseSlot_held n ih.1 ih.2.1 ih.2.2
  obtain ⟨hl,hbal,hd⟩ := hloop maxRegions
  set m' := (List.range maxRegions).foldl releaseSlot m with hm'
  have hzero : m'.live = 0 :=
    eq_zero_of_forall_notMem (fun r hr => live_all hl hd r hr)
  have hnone : ∀ s ∈ m'.slots, s.region.active = false := by
    intro s hs
    by_contra hc
    have := slot_live hs (by simpa using hc)
    rw [hzero] at this
    exact absurd this (notMem_zero _)
  have hlive : (releaseFileRefs m).live = 0 := by
    rw [← hzero]
    simp only [releaseFileRefs,Mm.live,total,← hm',List.map_map]
    rfl
  refine ⟨⟨⟨?_,?_,by rw [hlive]; rfl⟩,⟨userAddrMax,le_refl _,?_⟩,?_⟩,hlive⟩
  · simp only [releaseFileRefs,length_map]
    exact hl.length
  · intro s hs
    simp only [releaseFileRefs,List.mem_map] at hs
    obtain ⟨t,ht,rfl⟩ := hs
    exact (hnone t ht).symm
  · intro r hr
    rw [hlive] at hr
    exact absurd hr (notMem_zero r)
  · intro k i hk
    have := hbal k i hk
    rw [hzero] at this
    rw [hlive]
    exact this

lemma fd_balanced (hb : Balanced fds m) (kind : FsKind) (idx : ℕ)
    (g : ℕ → ℕ) (hg : ∀ a b, a = fds kind idx+b → g a = g (fds kind idx)+b) :
    Balanced (setAt fds kind idx g)
      {m with refCount := fun k i => if k = kind ∧ i = idx then g (m.refCount k i) else m.refCount k i} := by
  intro k i hk
  have := hb k i hk
  change (if k = kind ∧ i = idx then g (m.refCount k i) else m.refCount k i) =
    (if k = kind ∧ i = idx then g (fds k i) else fds k i)+_
  by_cases he : k = kind ∧ i = idx
  · obtain ⟨rfl,rfl⟩ := he
    rw [if_pos ⟨rfl,rfl⟩,if_pos ⟨rfl,rfl⟩]
    exact hg _ _ this
  · rw [if_neg he,if_neg he]
    exact this

lemma protect_held (h : Held ⟨m,fds⟩) {addr pages newProt : ℕ}
    (hr : (TableOp.protect addr pages newProt).ready m)
    (hc : (FileOp.table (.protect addr pages newProt)).splitsNoFat32 ⟨m,fds⟩) :
    Held ⟨(protectRegions m addr pages newProt).getD m,fds⟩ := by
  obtain ⟨top,htop,hv⟩ := h.valid
  obtain ⟨hb,hpg,hroom⟩ := hr
  have hR := protect_rewriting top newProt hb hpg
  let V := fun r => Valid top r ∧
    (r.fileKind = .fat32 → (protectPieces addr pages newProt r).length ≤ 1)
  have hRV : Rewriting V (protectPieces addr pages newProt) :=
    { active := fun r hr => hr.1.active
      keeps := fun r hr p hp => ⟨hR.keeps r hr.1 p hp,fun _ => by
        rw [hR.settled r hr.1 p hp]
        simp⟩
      settled := fun r hr => hR.settled r hr.1}
  have hVm : ∀ r ∈ m.live, V r := by
    intro r hrm
    obtain ⟨s,hs,ha,rfl⟩ := slot_of_live hrm
    exact ⟨hv _ hrm,hc s hs ha⟩
  obtain ⟨m',hm',hp⟩ := protectLoop hRV h.layout hVm (protect_room newProt h.layout hroom) maxRegions
  have hm'' : protectRegions m addr pages newProt = some m' := hm'
  rw [hm'',getD_some]
  refine ⟨hp.layout,⟨top,htop,fun r hr => (hp.valid r hr).1⟩,?_⟩
  refine hp.balanced fds (fun r _ => protectPieces_backing) ?_ h.balanced
  intro r hr
  cases hk : r.fileKind with
  | fat32 => exact .inr (hr.2 hk)
  | none | ramdisk | tmpfs | ext2 => exact .inl rfl

variable (h : Held s)
include h

lemma resize_held {i huge : ℕ}
    (hr : (FileOp.resize i base n huge).ready s) : Held ((FileOp.resize i base n huge).step s) := by
  obtain ⟨hb,hn,t,ht,ha⟩ := hr
  rw [Option.mem_def] at ht
  obtain ⟨⟨hlay,hvalid⟩,-,hP⟩ := Ordered.put (p := {t.region with base := base, numPages := n, hugePages := huge})
    ⟨h.layout,h.valid⟩ rfl rfl ht ha ha hb hn
  simp only [FileOp.step,resizeRegion,ht]
  exact ⟨hlay,hvalid,hP.balanced s.fds (by simp [SameBacking]) (.inl rfl) h.balanced⟩

lemma table_held {c : TableOp} (hr : c.ready s.mm) (hstep : mapStep s.mm c = c.step s.mm)
    (hdebit : c.debit = fun _ _ => 0) (hc : ∀ addr pages prot, c ≠ .protect addr pages prot) :
    Held ((FileOp.table c).step s) := by
  obtain ⟨top,htop,hv⟩ := h.valid
  obtain ⟨m',hm',hx⟩ := TableOp.redone h.layout hv htop hr
  have hbal := hx.balanced hc s.fds
  rw [hdebit] at hbal
  simp only [FileOp.step,hstep,hm',getD_some]
  exact ⟨hx.layout,⟨top,htop,hx.valid⟩,hbal h.balanced⟩

lemma step_held (c : FileOp) (hr : c.ready s) (hc : c.splitsNoFat32 s) : Held (c.step s) := by
  obtain ⟨top,htop,hv⟩ := h.valid
  cases c with
  | openFd kind idx =>
    refine ⟨⟨h.layout.length,h.layout.bits,h.layout.count⟩,⟨top,htop,hv⟩,?_⟩
    exact fd_balanced h.balanced kind idx (·+1) (fun a b hab => by omega)
  | closeFd kind idx =>
    refine ⟨⟨h.layout.length,h.layout.bits,h.layout.count⟩,⟨top,htop,hv⟩,?_⟩
    have hpos : 0 < s.fds kind idx := hr
    exact fd_balanced h.balanced kind idx (·-1) (fun a b hab => by omega)
  | exit => exact (releaseFileRefs_held h.layout h.balanced).1
  | resize i base n huge => exact resize_held h hr
  | table c =>
    cases c with
    | track base n md prot shared huge anonymous => exact map_held h base n prot huge md shared anonymous hr
    | protect addr pages newProt => exact protect_held h hr hc
    | untrack | trackNoFree | split | merge => exact table_held h hr rfl rfl nofun

omit h

def initial : Files := ⟨Mm.empty refs,refs⟩

lemma initial_held : Held (initial refs) := by
  have hs := empty_sound userAddrMax refs
  refine ⟨hs.layout,⟨userAddrMax,le_refl _,hs.valid⟩,fun k i _ => ?_⟩
  simp [initial,Mm.live,Mm.empty,total,held]

/-- In every run in which `mprotect` splits no FAT32 region, the references on
an ext2 or FAT32 slot are those of its descriptors and one for each active
region the file backs. -/
theorem reached_references_balance (refs : FsKind → ℕ → ℕ) (s : Files)
    (h : Reaches (Guarded (fun s c => FileOp.ready s c ∧ FileOp.splitsNoFat32 s c) FileOp.step)
      (initial refs) s) (k : FsKind) (i : ℕ) (hk : k.counted) :
    s.mm.refCount k i = s.fds k i+s.mm.live.countP (fun r => r.fileKind = k ∧ r.fileIdx = i) := by
  have hs : Held s := by
    refine invariant (I := Held) ?_ h (initial_held refs)
    rintro s c t hs ⟨⟨hr,hc⟩,rfl⟩
    exact step_held hs c hr hc
  exact hs.balanced k i hk

/-- A FAT32 file of five pages whose middle page changes its protection. -/
def fat32Life : List FileOp :=
  [.openFd .fat32 3,
   .table (.track 131072 5 (some ⟨.fat32,false,true,1,4096,40960,3,0,77⟩) 1 false 0 false),
   .table (.protect 135168 1 3)]

instance (s : Files) (c : FileOp) : Decidable (c.ready s) := by
  cases c <;> dsimp only [FileOp.ready] <;> infer_instance

instance (s : Files) (c : FileOp) : Decidable (c.splitsNoFat32 s) := by
  unfold FileOp.splitsNoFat32
  split <;> infer_instance

/-- The same life on ext2, with the middle page unmapped afterwards. -/
def ext2Life : List FileOp :=
  [.openFd .ext2 3,
   .table (.track 131072 5 (some ⟨.ext2,false,true,1,4096,40960,3,0,77⟩) 1 false 0 false),
   .closeFd .ext2 3,
   .table (.protect 135168 1 3),
   .table (.untrack 139264 1)]

theorem reached_references_balance_ext2Life :
    (run FileOp.step (initial fun _ _ => 0) ext2Life).mm.refCount .ext2 3 = 3 := by
  have ha : Admissible (fun s c => FileOp.ready s c ∧ FileOp.splitsNoFat32 s c) FileOp.step
      (initial fun _ _ => 0) ext2Life := by with_unfolding_all decide
  have h := reached_references_balance (fun _ _ => 0) _ (run_reaches (.start _ _) ha) .ext2 3 rfl
  rw [h]
  with_unfolding_all decide

theorem fat32_split_takes_no_reference :
    Admissible FileOp.ready FileOp.step (initial fun _ _ => 0) fat32Life ∧
    (run FileOp.step (initial fun _ _ => 0) fat32Life).fds .fat32 3 = 1 ∧
    (run FileOp.step (initial fun _ _ => 0) fat32Life).mm.live.countP
      (fun r => r.fileKind = .fat32 ∧ r.fileIdx = 3) = 3 ∧
    (run FileOp.step (initial fun _ _ => 0) fat32Life).mm.refCount .fat32 3 = 2 ∧
    (run FileOp.step (initial fun _ _ => 0) (fat32Life++[.exit])).mm.refCount .fat32 3 = 0 := by
  with_unfolding_all decide

end MoQiOS.Vma
