import MoQiOS.VmaReferences

/-!
# The memory ledgers

`asUsed` and `dataUsed` are adjusted by hand on every path that changes the
region table or the break. A successful call is a sequence of the operations
below. They keep the ledgers equal to the sums over the table plus the heap,
except where `mprotect` turns a private file region writable or back, and
where `mremap` grows a file region of which it was shown a part.
-/

namespace MoQiOS.Vma
open SlotTables Runs Multiset
set_option maxRecDepth 9000

@[irreducible] def userStackTop : ℕ := 0x800000

@[irreducible] def userHeapMax : ℕ := 0x100000000

structure Space where
  mm : Mm
  brkStart : ℕ
  brkCurrent : ℕ

def pageCeil (a : ℕ) : ℕ := (a+4095)/4096

def Space.heapPages (s : Space) : ℕ := pageCeil s.brkCurrent-pageCeil s.brkStart

def brkCeiling (s : Space) : ℕ := if s.brkStart < userStackTop then userStackTop-4096 else userHeapMax

/-- `granted` stands for the limits, the pages in the way and the frames that
a growing break asks for. -/
def brk (s : Space) (addr : ℕ) (granted : Bool) : Space :=
  if addr = 0 ∨ s.brkStart = 0 ∨ s.brkCurrent = 0 ∨ addr < s.brkStart ∨ brkCeiling s < addr then s
  else
    let oldPage := pageCeil s.brkCurrent
    let newPage := pageCeil addr
    if oldPage < newPage then
      if !granted then s
      else { s with
        mm := { s.mm with asUsed := s.mm.asUsed+(newPage-oldPage)*4096
                          dataUsed := s.mm.dataUsed+(newPage-oldPage)*4096 }
        brkCurrent := addr }
    else if newPage < oldPage then
      { s with
        mm := { s.mm with asUsed := s.mm.asUsed-(oldPage-newPage)*4096
                          dataUsed := s.mm.dataUsed-(oldPage-newPage)*4096 }
        brkCurrent := addr }
    else { s with brkCurrent := addr }

variable (m : Mm)

def growRegion (i oldPages newPages : ℕ) : Mm :=
  match m.slots[i]? with
  | none => m
  | some s => (m.charge (newPages-oldPages) s.region.writablePrivate).put i
      { s.region with numPages := newPages }

def Mm.refund (pages : ℕ) (writablePrivate : Bool) : Mm :=
  { m with asUsed := m.asUsed-pages*4096
           dataUsed := if writablePrivate then m.dataUsed-pages*4096 else m.dataUsed }

def moveMapping (i newBase oldPages newPages : ℕ) : Mm :=
  match m.slots[i]? with
  | none => m
  | some s =>
    let m' := if oldPages < newPages then m.charge (newPages-oldPages) s.region.writablePrivate
      else m.refund (oldPages-newPages) s.region.writablePrivate
    m'.put i { s.region with base := newBase, numPages := newPages, hugePages := 0 }

def chargeAfterReplacement (used oldCharge newCharge softLimit : ℕ) : Option ℕ :=
  if used < oldCharge then none
  else
    let result := used-oldCharge+newCharge
    if 2^64 ≤ result ∨ softLimit ≠ 2^64-1 ∧ softLimit < result then none else some result

/-- The region at `i`, private, anonymous and writable, gives its place to
fresh pages. -/
def replaceFixedAnonymous (i prot asLimit dataLimit : ℕ) : Mm :=
  match m.slots[i]? with
  | none => m
  | some s =>
    let bytes := s.region.numPages*4096
    let oldCharge := if s.region.writablePrivate then bytes else 0
    let newCharge := if prot.testBit 1 then bytes else 0
    match chargeAfterReplacement m.asUsed bytes bytes asLimit,
        chargeAfterReplacement m.dataUsed oldCharge newCharge dataLimit with
    | some nextAs, some nextData =>
      { m with asUsed := nextAs, dataUsed := nextData }.put i
        { s.region with prot := prot%8, shared := false }
    | _, _ => m

inductive SpaceOp where
  | table (c : TableOp)
  | replace (i prot asLimit dataLimit : ℕ)
  | grow (i oldPages newPages : ℕ)
  | move (i newBase oldPages newPages : ℕ)
  | brk (addr : ℕ) (granted : Bool)

def SpaceOp.step (s : Space) : SpaceOp → Space
  | .table c => { s with mm := c.perform s.mm }
  | .replace i prot asLimit dataLimit =>
    { s with mm := replaceFixedAnonymous s.mm i prot asLimit dataLimit }
  | .grow i oldPages newPages => { s with mm := growRegion s.mm i oldPages newPages }
  | .move i newBase oldPages newPages => { s with mm := moveMapping s.mm i newBase oldPages newPages }
  | .brk addr granted => Vma.brk s addr granted

/-- The region `mremap` grows is at least as large as the range it was given;
only a whole anonymous region moves. -/
def SpaceOp.ready (s : Space) : SpaceOp → Prop
  | .table c => c.ready s.mm
  | .replace i prot _ _ => prot%4 = 3 ∧ ∃ t ∈ s.mm.slots[i]?, t.region.active = true ∧
      t.region.fileKind = .none ∧ t.region.shared = false ∧ t.region.prot%4 = 3
  | .grow i oldPages newPages =>
    oldPages < newPages ∧ ∃ t ∈ s.mm.slots[i]?, t.region.active = true ∧ oldPages ≤ t.region.numPages
  | .move i newBase oldPages newPages =>
    newBase%4096 = 0 ∧ 0 < newPages ∧ ∃ t ∈ s.mm.slots[i]?, t.region.active = true ∧
      t.region.fileKind = .none ∧ oldPages = t.region.numPages
  | .brk _ _ => True

/-- `mprotect` changes no region between charged and uncharged, and `mremap`
is given the whole region it grows. -/
def SpaceOp.settled (s : Space) : SpaceOp → Prop
  | .table (.protect addr pages newProt) =>
    ∀ t ∈ s.mm.slots, t.region.active → ∀ p ∈ protectPieces addr pages newProt t.region,
      p.writablePrivate = t.region.writablePrivate
  | .grow i oldPages _ => ∀ t ∈ s.mm.slots[i]?, oldPages = t.region.numPages
  | _ => True

structure Exact (s : Space) : Prop where
  layout : Layout s.mm
  valid : ∃ top, userAddrMax ≤ top ∧ ∀ r ∈ s.mm.live, Valid top r
  heap : s.brkStart ≤ s.brkCurrent
  space : s.mm.asUsed = (pagesIn s.mm.live+s.heapPages)*4096
  data : s.mm.dataUsed = (dataPagesIn s.mm.live+s.heapPages)*4096

variable {m' : Mm} {s : Space}

lemma Exact.follow (h : Exact s) (ho : Ordered m')
    (has : m'.asUsed+pagesIn s.mm.live*4096 = s.mm.asUsed+pagesIn m'.live*4096)
    (hdata : m'.dataUsed+dataPagesIn s.mm.live*4096 = s.mm.dataUsed+dataPagesIn m'.live*4096) :
    Exact {s with mm := m'} := by
  refine ⟨ho.1,ho.2,h.heap,?_,?_⟩
  · have := h.space
    change m'.asUsed = (pagesIn m'.live+s.heapPages)*4096
    omega
  · have := h.data
    change m'.dataUsed = (dataPagesIn m'.live+s.heapPages)*4096
    omega

lemma brk_exact (h : Exact s) (addr : ℕ) (granted : Bool) : Exact (brk s addr granted) := by
  simp only [brk]
  split_ifs with hrange hgrow
  · exact h
  · exact h
  all_goals
    simp only [not_or,Nat.not_lt] at hrange
    have hstart : pageCeil s.brkStart ≤ pageCeil addr := Nat.div_le_div_right (by omega)
    have hold : pageCeil s.brkStart ≤ pageCeil s.brkCurrent :=
      Nat.div_le_div_right (Nat.add_le_add_right h.heap _)
    have hspace := h.space
    have hdata := h.data
    refine ⟨⟨h.layout.length,h.layout.bits,h.layout.count⟩,h.valid,hrange.2.2.2.1,?_,?_⟩ <;>
      simp only [Space.heapPages] at hspace hdata ⊢
  · change s.mm.asUsed+_ = (pagesIn s.mm.live+_)*4096
    omega
  · change s.mm.dataUsed+_ = (dataPagesIn s.mm.live+_)*4096
    omega
  · change s.mm.asUsed-_ = (pagesIn s.mm.live+_)*4096
    omega
  · change s.mm.dataUsed-_ = (dataPagesIn s.mm.live+_)*4096
    omega
  · rw [hspace]
    omega
  · rw [hdata]
    omega

lemma refund_ledgers (n : ℕ) (r r' : MmapRegion) (hw : r'.writablePrivate = r.writablePrivate)
    (hn : r'.numPages+n = r.numPages) (has : n*4096 ≤ m.asUsed)
    (hdata : r.writablePrivate → n*4096 ≤ m.dataUsed) :
    (m.refund n r.writablePrivate).asUsed+r.numPages*4096 = m.asUsed+r'.numPages*4096 ∧
    (m.refund n r.writablePrivate).dataUsed+dataPages r*4096 = m.dataUsed+dataPages r'*4096 := by
  simp only [Mm.refund,dataPages,hw]
  cases hr : r.writablePrivate with
  | false => simp; omega
  | true =>
    have := hdata hr
    simp
    omega

variable {i : ℕ} {t : Slot} {p : MmapRegion}

lemma Exact.replace {m : Mm} (h : Exact s)
    (hm : m.slots = s.mm.slots) (hcount : m.count = s.mm.count) (ht : s.mm.slots[i]? = some t)
    (ha : t.region.active) (hpa : p.active) (hal : p.base%4096 = 0) (hpos : 0 < p.numPages)
    (has : m.asUsed+t.region.numPages*4096 = s.mm.asUsed+p.numPages*4096)
    (hdata : m.dataUsed+dataPages t.region*4096 = s.mm.dataUsed+dataPages p*4096) :
    Exact {s with mm := m.put i p} := by
  obtain ⟨ho,hl,hP⟩ := Ordered.put ⟨h.layout,h.valid⟩ hm hcount ht ha hpa hal hpos
  refine h.follow ho (ledger_follows ?_ (weight_exchange _ hl)) (ledger_follows ?_ (weight_exchange dataPages hl))
  · rw [hP.asUsed]
    simpa using has
  · rw [hP.dataUsed]
    simpa using hdata

lemma live_le (w : MmapRegion → ℕ) {m : Mm} (ht : m.slots[i]? = some t)
    (ha : t.region.active) : w t.region ≤ (m.live.map w).sum :=
  Multiset.single_le_sum (fun _ _ => Nat.zero_le _) _ (Multiset.mem_map_of_mem w (live_mem ht ha))

variable {oldPages newPages : ℕ}

lemma grow_exact (h : Exact s) (hr : SpaceOp.ready s (.grow i oldPages newPages))
    (hs : SpaceOp.settled s (.grow i oldPages newPages)) :
    Exact {s with mm := growRegion s.mm i oldPages newPages} := by
  obtain ⟨hlt,t,ht,ha,_⟩ := hr
  have hold := hs t ht
  rw [Option.mem_def] at ht
  obtain ⟨top,_,hv⟩ := h.valid
  have hvt := hv _ (live_mem ht ha)
  obtain ⟨h1,h2⟩ := charge_ledgers s.mm (newPages-oldPages) t.region
    {t.region with numPages := newPages} rfl (by simp only; omega)
  simp only [growRegion,ht]
  exact h.replace rfl rfl ht ha ha hvt.aligned (Nat.zero_lt_of_lt hlt) h1 h2

lemma move_exact {newBase : ℕ} (h : Exact s)
    (hr : SpaceOp.ready s (.move i newBase oldPages newPages)) :
    Exact {s with mm := moveMapping s.mm i newBase oldPages newPages} := by
  obtain ⟨hb,hpos,t,ht,ha,_,hold⟩ := hr
  rw [Option.mem_def] at ht
  have hpages : t.region.numPages ≤ pagesIn s.mm.live := live_le (·.numPages) ht ha
  have hdpages : dataPages t.region ≤ dataPagesIn s.mm.live := live_le dataPages ht ha
  have hspace := h.space
  have hdata := h.data
  simp only [moveMapping,ht]
  split_ifs with hlt
  · obtain ⟨h1,h2⟩ := charge_ledgers s.mm (newPages-oldPages) t.region
      {t.region with base := newBase, numPages := newPages, hugePages := 0} rfl
      (by simp only; omega)
    exact h.replace rfl rfl ht ha ha hb hpos h1 h2
  obtain ⟨h1,h2⟩ := refund_ledgers s.mm (oldPages-newPages) t.region
    {t.region with base := newBase, numPages := newPages, hugePages := 0} rfl
    (by simp only; omega) (by omega) (fun hw => by
      rw [dataPages,if_pos hw] at hdpages
      omega)
  exact h.replace rfl rfl ht ha ha hb hpos h1 h2

lemma chargeAfterReplacement_same {used charge limit next : ℕ}
    (h : chargeAfterReplacement used charge charge limit = some next) : next = used := by
  simp only [chargeAfterReplacement] at h
  split_ifs at h
  obtain rfl := Option.some.inj h
  omega

variable {prot : ℕ}

lemma writable_of_mod (h : prot%4 = 3) : prot.testBit 1 = true := by
  rw [Nat.testBit_eq_decide_div_mod_eq,decide_eq_true_eq]
  omega

lemma replaceFixedAnonymous_exact {asLimit dataLimit : ℕ} (h : Exact s)
    (hr : SpaceOp.ready s (.replace i prot asLimit dataLimit)) :
    Exact {s with mm := replaceFixedAnonymous s.mm i prot asLimit dataLimit} := by
  obtain ⟨hprot,t,ht,ha,_,hshared,hold⟩ := hr
  rw [Option.mem_def] at ht
  obtain ⟨top,_,hv⟩ := h.valid
  have hvt := hv _ (live_mem ht ha)
  have hw : t.region.writablePrivate = true := by
    rw [MmapRegion.writablePrivate,writable_of_mod hold,hshared]
    rfl
  have hw' : ({t.region with prot := prot%8, shared := false} : MmapRegion).writablePrivate = true := by
    rw [MmapRegion.writablePrivate,writable_of_mod (show prot%8%4 = 3 by omega)]
    rfl
  simp only [replaceFixedAnonymous,ht,hw,writable_of_mod hprot,if_true]
  split
  · next nextAs nextData has hdata =>
    refine h.replace rfl rfl ht ha ha hvt.aligned hvt.pages ?_ ?_
    · rw [chargeAfterReplacement_same has]
    · rw [chargeAfterReplacement_same hdata,dataPages,dataPages,hw,hw']
  · exact h

lemma table_exact (h : Exact s) {c : TableOp} (hr : c.ready s.mm)
    (hs : SpaceOp.settled s (.table c)) : Exact {s with mm := c.perform s.mm} := by
  obtain ⟨top,htop,hv⟩ := h.valid
  obtain ⟨m',hm',hx⟩ := TableOp.redone h.layout hv htop hr
  have hsteady : c.steady s.mm := by
    cases c with
    | protect addr pages newProt =>
      intro r hr
      obtain ⟨t,ht,ha,rfl⟩ := slot_of_live hr
      exact hs t ht ha
    | _ => trivial
  have hspace := h.space
  have hdata := h.data
  rw [TableOp.perform,hm',Option.getD_some]
  exact h.follow ⟨hx.layout,top,htop,hx.valid⟩ (hx.space (by omega)) (hx.data hsteady (by omega))

lemma step_exact (s : Space) (c : SpaceOp) (s' : Space) (h : Exact s)
    (hn : Guarded (fun s c => SpaceOp.ready s c ∧ SpaceOp.settled s c) SpaceOp.step s c s') :
    Exact s' := by
  obtain ⟨⟨hr,hs⟩,rfl⟩ := hn
  cases c with
  | table c => exact table_exact h hr hs
  | replace i prot asLimit dataLimit => exact replaceFixedAnonymous_exact h hr
  | grow i oldPages newPages => exact grow_exact h hr hs
  | move i newBase oldPages newPages => exact move_exact h hr
  | brk addr granted => exact brk_exact h addr granted

variable (refs : FsKind → ℕ → ℕ)

def loaded (start : ℕ) : Space := ⟨Mm.empty refs,start,start⟩

lemma loaded_exact (start : ℕ) : Exact (loaded refs start) := by
  have hs := empty_sound userAddrMax refs
  have hlive : (Mm.empty refs).live = 0 := by simp [Mm.live,Mm.empty,total,held]
  refine ⟨hs.layout,⟨userAddrMax,le_refl _,hs.valid⟩,le_refl _,?_,?_⟩
  · simp only [loaded,Space.heapPages,hlive]
    simp [pagesIn,Mm.empty]
  · simp only [loaded,Space.heapPages,hlive]
    simp [dataPagesIn,Mm.empty]

instance (s : Space) (c : SpaceOp) : Decidable (c.ready s) := by
  cases c <;> dsimp only [SpaceOp.ready] <;> infer_instance

instance (s : Space) (c : SpaceOp) : Decidable (c.settled s) := by
  unfold SpaceOp.settled
  split <;> infer_instance

/-- An anonymous mapping is replaced, grown and moved, a file mapping is made
executable in part, and the heap grows and shrinks. -/
def busySpace : List SpaceOp :=
  [.table (.track 65536 8 none 3 false 0 true),
   .replace 0 3 (2^64-1) (2^64-1),
   .grow 0 8 10,
   .move 0 1048576 10 6,
   .table (.track 131072 5 (some ⟨.ext2,false,true,1,4096,40960,3,0,77⟩) 1 false 0 false),
   .table (.protect 135168 2 5),
   .brk 0x1003000 true,
   .brk 0x1001000 true,
   .table (.untrack 1052672 2)]

end MoQiOS.Vma
