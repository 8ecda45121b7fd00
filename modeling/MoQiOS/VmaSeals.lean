import MoQiOS.VmaLedger

/-!
# Sealed pages

`mseal` records ranges that no later call may unmap, move, replace or
reprotect. `munmap`, `mprotect`, `mremap` and a fixed `mmap` ask the record
before they change anything. A shrinking break does not ask, and `mremap` asks
only about the part of a file region it was given when it resizes the whole
region: apart from these two, a sealed page keeps what the table and, unless a
file backs it, the page tables say about it.
-/

namespace MoQiOS.Vma
open SlotTables Runs Multiset Option

structure SealRange where
  base : ℕ
  len : ℕ

def maxSeals : ℕ := 32

def roundLen (len : ℕ) : ℕ := (len+4095)/4096*4096

def sealed (t : List SealRange) (base len : ℕ) : Bool :=
  len != 0 && t.any fun r => decide (base < r.base+r.len) && decide (r.base < min (base+len) (2^64-1))

def addSeal (t : List SealRange) (base len : ℕ) : Option (List SealRange) :=
  if t.any fun r => decide (r.base ≤ base) && decide (base+len ≤ r.base+r.len) then some t
  else if t.length = maxSeals then none
  else some (t++[⟨base,len⟩])

/-- `entry` gives the protection of a page that the page tables hold, present,
swapped out or reserved. -/
structure Process where
  space : Space
  entry : ℕ → Option ℕ
  seals : List SealRange

def Process.withTable (s : Process) (m : Mm) : Process := { s with space := { s.space with mm := m } }

def Process.mapped (s : Process) (page : ℕ) : Bool :=
  (s.entry page).isSome || hasMmapOverlap s.space.mm (page*4096) 1

/-- No value: the call fails. -/
def mseal (s : Process) (addr len flags : ℕ) : Option Process :=
  if flags ≠ 0 ∨ addr%4096 ≠ 0 then none
  else if len = 0 then some s
  else if userAddrMax ≤ addr ∨ userAddrMax-addr < roundLen len then none
  else if (List.range (roundLen len/4096)).all fun k => s.mapped (addr/4096+k) then
    (addSeal s.seals addr (roundLen len)).map fun t => { s with seals := t }
  else none

def inPages (base n page : ℕ) : Prop := base/4096 ≤ page ∧ page < base/4096+n

instance (base n page : ℕ) : Decidable (inPages base n page) :=
  inferInstanceAs (Decidable (_ ∧ _))

def setEntries (entry : ℕ → Option ℕ) (base n : ℕ) (v : Option ℕ) : ℕ → Option ℕ :=
  fun page => if inPages base n page then v else entry page

def munmap (s : Process) (base n : ℕ) : Process :=
  if sealed s.seals base (n*4096) then s
  else { s.withTable (untrackMmapRange s.space.mm base n) with entry := setEntries s.entry base n none }

/-- A new mapping at a free range: anonymous pages are mapped at once, file
pages on their first use. -/
def mmap (s : Process) (base n : ℕ) (md : Option RegionFileMeta) (prot : ℕ) (shared : Bool) (huge : ℕ)
    (anonymous : Bool) : Process :=
  { s.withTable (TableOp.perform s.space.mm (.track base n md prot shared huge anonymous)) with
    entry := if md.isNone then setEntries s.entry base n (some prot) else s.entry }

def mprotect (s : Process) (addr n prot : ℕ) : Process :=
  if sealed s.seals addr (n*4096) then s
  else { s.withTable (TableOp.perform s.space.mm (.protect addr n prot)) with
    entry := fun page => if inPages addr n page then (s.entry page).map fun _ => prot else s.entry page }

def replaceFixed (s : Process) (i prot asLimit dataLimit : ℕ) : Process :=
  match s.space.mm.slots[i]? with
  | none => s
  | some t =>
    if sealed s.seals t.region.base (t.region.numPages*4096) then s
    else { s.withTable (replaceFixedAnonymous s.space.mm i prot asLimit dataLimit) with
      entry := setEntries s.entry t.region.base t.region.numPages (some prot) }

/-- `mremap` growing a region in place; grown anonymous pages are writable. -/
def mremapGrow (s : Process) (i oldPages newPages : ℕ) : Process :=
  match s.space.mm.slots[i]? with
  | none => s
  | some t =>
    if sealed s.seals t.region.base (oldPages*4096) then s
    else { s.withTable (growRegion s.space.mm i oldPages newPages) with
      entry := if t.region.fileKind = .none then
        setEntries s.entry (t.region.base+oldPages*4096) (newPages-oldPages) (some 3) else s.entry }

def mremapMove (s : Process) (i newBase oldPages newPages : ℕ) : Process :=
  match s.space.mm.slots[i]? with
  | none => s
  | some t =>
    if sealed s.seals t.region.base (oldPages*4096) then s
    else { s.withTable (moveMapping s.space.mm i newBase oldPages newPages) with
      entry := fun page =>
        if inPages newBase newPages page then
          if page-newBase/4096 < oldPages then s.entry (t.region.base/4096+(page-newBase/4096))
          else some 3
        else if inPages t.region.base oldPages page then none else s.entry page }

def sysBrk (s : Process) (addr : ℕ) (granted : Bool) : Process :=
  let oldPage := pageCeil s.space.brkCurrent
  let newPage := pageCeil (brk s.space addr granted).brkCurrent
  { s with
    space := brk s.space addr granted
    entry := fun page =>
      if oldPage ≤ page ∧ page < newPage then some 3
      else if newPage ≤ page ∧ page < oldPage then none else s.entry page }

def fileBacked (m : Mm) (va : ℕ) : Bool :=
  m.slots.any fun s => s.region.active && s.region.fileKind != .none &&
    decide (s.region.base ≤ va ∧ va < s.region.fin)

def discardBlocked (isSealed anonymous writable : Bool) : Bool := isSealed && anonymous && !writable

/-- Pages of files are dropped and come back on their next use; anonymous
pages stay and are cleared. -/
def madviseDontneed (s : Process) (base n : ℕ) : Process :=
  if (List.range n).any fun k => discardBlocked (sealed s.seals (base+k*4096) 4096)
      (!fileBacked s.space.mm (base+k*4096)) (((s.entry (base/4096+k)).getD 0).testBit 1) then s
  else { s with
    entry := fun page =>
      if inPages base n page ∧ fileBacked s.space.mm (page*4096) = true then none else s.entry page }

inductive Call where
  | mseal (addr len flags : ℕ)
  | munmap (base n : ℕ)
  | mmap (base n : ℕ) (md : Option RegionFileMeta) (prot : ℕ) (shared : Bool) (huge : ℕ) (anonymous : Bool)
  | mprotect (addr n prot : ℕ)
  | split (idx oldAddr pages : ℕ)
  | merge (a b : ℕ)
  | replace (i prot asLimit dataLimit : ℕ)
  | grow (i oldPages newPages : ℕ)
  | move (i newBase oldPages newPages : ℕ)
  | brk (addr : ℕ) (granted : Bool)
  | madvise (base n : ℕ)
  | fault (page prot : ℕ)

def Call.step (s : Process) : Call → Process
  | .mseal addr len flags => (Vma.mseal s addr len flags).getD s
  | .munmap base n => Vma.munmap s base n
  | .mmap base n md prot shared huge anonymous => Vma.mmap s base n md prot shared huge anonymous
  | .mprotect addr n prot => Vma.mprotect s addr n prot
  | .split idx oldAddr pages => s.withTable (TableOp.perform s.space.mm (.split idx oldAddr pages))
  | .merge a b => s.withTable (mergeIfAdjacent s.space.mm a b)
  | .replace i prot asLimit dataLimit => replaceFixed s i prot asLimit dataLimit
  | .grow i oldPages newPages => mremapGrow s i oldPages newPages
  | .move i newBase oldPages newPages => mremapMove s i newBase oldPages newPages
  | .brk addr granted => sysBrk s addr granted
  | .madvise base n => madviseDontneed s base n
  | .fault page prot => { s with entry := fun p => if p = page then some prot else s.entry p }

def pagesFree (s : Process) (base n : ℕ) : Prop := ∀ k < n, s.entry (base/4096+k) = none

def Call.ready (s : Process) : Call → Prop
  | .mseal .. | .merge .. => True
  | .munmap base n => TableOp.ready s.space.mm (.untrack base n)
  | .mmap base n md prot shared huge anonymous =>
    TableOp.ready s.space.mm (.track base n md prot shared huge anonymous) ∧ pagesFree s base n
  | .mprotect addr n prot => TableOp.ready s.space.mm (.protect addr n prot)
  | .split idx oldAddr pages => TableOp.ready s.space.mm (.split idx oldAddr pages)
  | .replace i prot asLimit dataLimit => SpaceOp.ready s.space (.replace i prot asLimit dataLimit)
  | .grow i oldPages newPages => SpaceOp.ready s.space (.grow i oldPages newPages) ∧
      ∀ t ∈ s.space.mm.slots[i]?,
        pagesFree s (t.region.base+oldPages*4096) (newPages-oldPages) ∧
        ∀ j < s.space.mm.slots.length, ∀ t' ∈ s.space.mm.slots[j]?, j ≠ i → t'.region.active = true →
          t'.region.fin ≤ t.region.base+oldPages*4096 ∨ t.region.base+newPages*4096 ≤ t'.region.base
  | .move i newBase oldPages newPages => SpaceOp.ready s.space (.move i newBase oldPages newPages) ∧
      rangeFree s.space.mm newBase newPages ∧ pagesFree s newBase newPages
  | .brk addr granted => ∀ page < pageCeil (Vma.brk s.space addr granted).brkCurrent,
      pageCeil s.space.brkCurrent ≤ page → s.mapped page = false
  | .madvise base n => base%4096 = 0 ∧ 0 < n
  | .fault page prot => s.entry page = none ∧
      ∃ t ∈ s.space.mm.slots, t.region.active = true ∧ t.region.fileKind ≠ .none ∧
        t.region.base ≤ page*4096 ∧ page*4096 < t.region.fin ∧ t.region.prot = prot

/-- The break gives back no sealed page, and `mremap` is given the whole
region it grows. -/
def Call.spares (s : Process) : Call → Prop
  | .grow i oldPages newPages => SpaceOp.settled s.space (.grow i oldPages newPages)
  | .brk addr granted =>
    let newPage := pageCeil (Vma.brk s.space addr granted).brkCurrent
    sealed s.seals (newPage*4096) ((pageCeil s.space.brkCurrent-newPage)*4096) = false
  | _ => True

variable {m : Mm} {i : ℕ} {t : Slot}

lemma Ordered.aligned (h : Ordered m) (ht : m.slots[i]? = some t)
    (ha : t.region.active) : t.region.base%4096 = 0 := by
  obtain ⟨top,-,hv⟩ := h.2
  exact (hv _ (live_mem ht ha)).aligned

/-- The table stays in order and no other page sees a change. -/
structure Touches (touched : ℕ → Prop) (m m' : Mm) : Prop where
  ordered : Ordered m'
  views : ∀ va, ¬touched va → m'.viewsAt va = m.viewsAt va

variable {touched : ℕ → Prop}

lemma Touches.of_put {m₀ : Mm} {p : MmapRegion} (h : Ordered m)
    (hslots : m₀.slots = m.slots) (hcount : m₀.count = m.count) (ht : m.slots[i]? = some t)
    (ha : t.region.active) (hp : p.active) (hal : p.base%4096 = 0) (hpos : 0 < p.numPages)
    (hviews : ∀ va, ¬touched va → Vma.views va p = Vma.views va t.region) :
    Touches touched m (m₀.put i p) := by
  obtain ⟨ho,hl,-⟩ := h.put hslots hcount ht ha hp hal hpos
  refine ⟨ho,fun va hva => ?_⟩
  have := congrArg (fun u => u.bind (Vma.views va)) hl
  simp only [add_bind,singleton_bind,hviews va hva] at this
  exact add_right_cancel this

lemma table_touches (h : Ordered m) (c : TableOp) (hr : c.ready m) :
    Touches c.touched m (c.perform m) := by
  obtain ⟨hlay,top,htop,hv⟩ := h
  obtain ⟨m',hm',hx⟩ := TableOp.redone hlay hv htop hr
  rw [TableOp.perform,hm',getD_some]
  exact ⟨⟨hx.layout,top,htop,hx.valid⟩,hx.views⟩

variable {base n prot : ℕ} (h : Ordered m)
include h

lemma Touches.refl : Touches touched m m :=
  ⟨h,fun _ _ => rfl⟩

omit h

variable {s : Space}

lemma replace_touches {asLimit dataLimit : ℕ} (h : Ordered s.mm)
    (ht : s.mm.slots[i]? = some t) (hr : SpaceOp.ready s (.replace i prot asLimit dataLimit)) :
    Touches (fun va => t.region.base ≤ va ∧ va < t.region.fin) s.mm
      (replaceFixedAnonymous s.mm i prot asLimit dataLimit) := by
  obtain ⟨-,t',ht',ha,-⟩ := hr
  obtain rfl : t = t' := Option.mem_unique ht ht'
  obtain ⟨top,-,hv⟩ := h.2
  have hvt := hv _ (live_mem ht ha)
  simp only [replaceFixedAnonymous,ht]
  split
  · refine Touches.of_put h rfl rfl ht ha ha hvt.aligned hvt.pages ?_
    intro va hva
    rw [views_outside (r := t.region) (by omega)]
    exact views_outside (show va < t.region.base ∨ t.region.fin ≤ va by omega)
  · exact Touches.refl h

variable {oldPages newPages : ℕ}

lemma grow_touches (h : Ordered s.mm)
    (ht : s.mm.slots[i]? = some t) (hr : SpaceOp.ready s (.grow i oldPages newPages)) :
    Touches (fun va => min t.region.fin (t.region.base+newPages*4096) ≤ va ∧
      va < max t.region.fin (t.region.base+newPages*4096)) s.mm (growRegion s.mm i oldPages newPages) := by
  obtain ⟨hlt,t',ht',ha,-⟩ := hr
  obtain rfl : t = t' := Option.mem_unique ht ht'
  obtain ⟨top,-,hv⟩ := h.2
  have hvt := hv _ (live_mem ht ha)
  simp only [growRegion,ht]
  refine Touches.of_put h rfl rfl ht ha ha hvt.aligned (Nat.zero_lt_of_lt hlt) ?_
  intro va hva
  have hfin : t.region.fin = t.region.base+t.region.numPages*4096 := rfl
  have hnew : ({t.region with numPages := newPages} : MmapRegion).fin = t.region.base+newPages*4096 := rfl
  have hview : ({t.region with numPages := newPages} : MmapRegion).view va = t.region.view va := rfl
  simp only [views,hnew,hview]
  split_ifs <;> first | rfl | omega

lemma move_touches {newBase : ℕ} (h : Ordered s.mm)
    (ht : s.mm.slots[i]? = some t) (hr : SpaceOp.ready s (.move i newBase oldPages newPages)) :
    Touches (fun va => (t.region.base ≤ va ∧ va < t.region.fin) ∨
      (newBase ≤ va ∧ va < newBase+newPages*4096)) s.mm
      (moveMapping s.mm i newBase oldPages newPages) := by
  obtain ⟨hb,hpos,t',ht',ha,-⟩ := hr
  obtain rfl : t = t' := Option.mem_unique ht ht'
  have hviews : ∀ va, ¬((t.region.base ≤ va ∧ va < t.region.fin) ∨
      (newBase ≤ va ∧ va < newBase+newPages*4096)) →
      views va {t.region with base := newBase, numPages := newPages, hugePages := 0} =
        views va t.region := by
    intro va hva
    rw [views_outside (r := t.region) (by omega)]
    exact views_outside (show va < newBase ∨ newBase+newPages*4096 ≤ va by omega)
  simp only [moveMapping,ht]
  split_ifs
  · exact Touches.of_put h rfl rfl ht ha ha hb hpos hviews
  · exact Touches.of_put h rfl rfl ht ha ha hb hpos hviews

lemma brk_table (s : Space) (addr : ℕ) (granted : Bool) : (brk s addr granted).mm.slots = s.mm.slots ∧
    (brk s addr granted).mm.count = s.mm.count := by
  simp only [brk]
  split_ifs <;> exact ⟨rfl,rfl⟩

lemma brk_touches (h : Ordered s.mm) (addr : ℕ) (granted : Bool) :
    Touches (fun _ => False) s.mm (brk s addr granted).mm := by
  obtain ⟨hslots,hcount⟩ := brk_table s addr granted
  have hlive : (brk s addr granted).mm.live = s.mm.live := by rw [Mm.live,Mm.live,hslots]
  refine ⟨⟨⟨by rw [hslots]; exact h.1.length,by rw [hslots]; exact h.1.bits,
    by rw [hcount,hlive]; exact h.1.count⟩,by rw [hlive]; exact h.2⟩,?_⟩
  intro va _
  rw [Mm.viewsAt,Mm.viewsAt,hlive]

end MoQiOS.Vma
