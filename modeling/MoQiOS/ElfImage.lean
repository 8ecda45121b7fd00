import MoQiOS.ElfTraps

/-!
# What the loaders leave in memory

Where every segment has at most 512 pages, no two share a page and none
reaches into the stack page, each page of a segment holds its bytes and every
frame is mapped once. A later mapping of a page replaces the earlier one, with
all its bytes, and its frame is lost.
-/

namespace MoQiOS.Elf
open CheckedWords ByteImages Function Option Nat
set_option maxRecDepth 9000

/-- `placed` tells which contents have been put down under which pages. -/
structure Laid (placed : ℕ → (ℕ → UInt8) → Prop) (st : Loading) : Prop where
  content : ∀ page bytes, placed page bytes → ∃ pte, st.table page = some pte ∧
    ∀ off < 4096, st.mem pte.frame off = bytes off
  owned : ∀ page pte, st.table page = some pte → pte.frame < st.frames ∧ ∃ bytes, placed page bytes
  mapped : ∀ f < st.frames, ∃ page pte, st.table page = some pte ∧ pte.frame = f
  once : ∀ page page' pte pte', st.table page = some pte → st.table page' = some pte' →
    pte.frame = pte'.frame → page = page'

variable {st : Loading} {env : Env} {loader : Loader} {file : Bytes} {seg : Phdr}

variable {placed : ℕ → (ℕ → UInt8) → Prop} {st' : Loading}

lemma Laid.congr {placed' : ℕ → (ℕ → UInt8) → Prop}
    (h : Laid placed st) (hp : ∀ page bytes, placed page bytes ↔ placed' page bytes)
    (hf : st'.frames = st.frames) (hm : st'.mem = st.mem) (ht : st'.table = st.table) :
    Laid placed' st' := by
  obtain rfl : placed = placed' := funext fun page => funext fun bytes => propext (hp page bytes)
  constructor
  · rw [ht,hm]
    exact h.content
  · rw [ht,hf]
    exact h.owned
  · rw [hf,ht]
    exact h.mapped
  · rw [ht]
    exact h.once

lemma Laid.under_one_page (h : Laid placed st)
    {f : ℕ} (hf : f < st.frames) : ∃! page, ∃ pte, st.table page = some pte ∧ pte.frame = f := by
  obtain ⟨page,pte,hp,hpf⟩ := h.mapped f hf
  refine ⟨page,⟨pte,hp,hpf⟩,?_⟩
  rintro page' ⟨pte',hp',hpf'⟩
  exact h.once page' page pte' pte hp' hp (hpf'.trans hpf.symm)

def Loading.place (st : Loading) (page : ℕ) (content : ℕ → UInt8) (pte : Pte) : Loading :=
  { st with
    frames := st.frames+1
    mem := update st.mem st.frames content
    table := update st.table page (some pte) }

lemma Loading.place_table (st : Loading) (page : ℕ) (content : ℕ → UInt8) (pte : Pte) :
    (st.place page content pte).table = update st.table page (some pte) := rfl

lemma Loading.place_mem (st : Loading) (page : ℕ) (content : ℕ → UInt8) (pte : Pte) :
    (st.place page content pte).mem = update st.mem st.frames content := rfl

variable {page : ℕ}

lemma Laid.place (h : Laid placed st) (content : ℕ → UInt8) {bytes : ℕ → UInt8} (pte : Pte) (hfresh : ∀ b, ¬placed page b)
    (hpte : pte.frame = st.frames) (hcontent : ∀ off < 4096, content off = bytes off) :
    Laid (fun p b => placed p b ∨ (p = page ∧ b = bytes)) (st.place page content pte) := by
  have hold : ∀ p q, st.table p = some q → p ≠ page := by
    rintro p q hpq rfl
    obtain ⟨-,b,hb⟩ := h.owned p q hpq
    exact hfresh b hb
  -- an entry is the new one or an old one of another page
  have hentry : ∀ p q, (st.place page content pte).table p = some q →
      (p = page ∧ q = pte) ∨ st.table p = some q := by
    intro p q hpq
    by_cases hp : p = page
    · subst hp
      rw [Loading.place_table,update_self] at hpq
      exact .inl ⟨rfl,(some.inj hpq).symm⟩
    · rw [Loading.place_table,update_of_ne hp] at hpq
      exact .inr hpq
  constructor
  · rintro p b (hb | ⟨rfl,rfl⟩)
    · obtain ⟨q,hq,hbytes⟩ := h.content p b hb
      have hlt := (h.owned p q hq).1
      refine ⟨q,(update_of_ne (hold p q hq) _ _).trans hq,fun off hoff => ?_⟩
      rw [Loading.place_mem,update_of_ne (by omega)]
      exact hbytes off hoff
    · refine ⟨pte,update_self _ _ _,fun off hoff => ?_⟩
      rw [Loading.place_mem,hpte,update_self]
      exact hcontent off hoff
  · intro p q hpq
    rcases hentry p q hpq with ⟨rfl,rfl⟩ | hq
    · exact ⟨by rw [hpte]; exact lt_succ_self _,bytes,.inr ⟨rfl,rfl⟩⟩
    · obtain ⟨hlt,b,hb⟩ := h.owned p q hq
      exact ⟨lt_succ_of_lt hlt,b,.inl hb⟩
  · intro f hf
    rcases Nat.lt_succ_iff_lt_or_eq.mp hf with hf | rfl
    · obtain ⟨p,q,hq,rfl⟩ := h.mapped f hf
      exact ⟨p,q,(update_of_ne (hold p q hq) _ _).trans hq,rfl⟩
    · exact ⟨page,pte,update_self _ _ _,hpte⟩
  · intro p p' q q' hq hq' hframe
    rcases hentry p q hq with ⟨rfl,rfl⟩ | hpq <;> rcases hentry p' q' hq' with ⟨rfl,rfl⟩ | hpq'
    · rfl
    · have := (h.owned p' q' hpq').1
      omega
    · have := (h.owned p q hpq).1
      omega
    · exact h.once p p' q q' hpq hpq' hframe

def segPage (file : Bytes) (seg : Phdr) (page off : ℕ) : UInt8 := expected file seg (page*4096+off)

variable {r : Loading×Bool}

lemma loadPage_cases
    (hlen : file.length < 2^63) (hfile : seg.offset+seg.filesz ≤ file.length) (hp : page < 2^36)
    (hs : seg.vaddr/4096 ≤ page) (h : loadPage env loader file seg st (page*4096) = some r) :
    (r.2 = false ∧ r.1.success = false) ∨ (r.2 = true ∧ ∃ content pte, pte.frame = st.frames ∧
      (∀ off < 4096, content off = segPage file seg page off) ∧ r.1 = st.place page content pte) := by
  obtain ⟨content,hc,hbytes⟩ := pageContent_eq loader hlen hfile hp hs
  unfold loadPage at h
  split at h
  · obtain rfl := some.inj h
    exact .inl ⟨rfl,rfl⟩
  rw [hc] at h
  simp only [bind_eq_bind,bind_some] at h
  split at h
  · obtain rfl := some.inj h
    refine .inr ⟨rfl,content,⟨st.frames,seg.flags.testBit 1,seg.flags.testBit 0⟩,rfl,hbytes,?_⟩
    rw [Nat.mul_div_cancel _ (by omega)]
    rfl
  · obtain rfl := some.inj h
    exact .inl ⟨rfl,rfl⟩

variable {n : ℕ}

lemma loadPages_laid
    (hlen : file.length < 2^63) (hfile : seg.offset+seg.filesz ≤ file.length) {p : ℕ}
    (hp : seg.vaddr/4096+p+n < 2^36) (placed : ℕ → (ℕ → UInt8) → Prop)
    (h : loadPages env loader file seg (seg.vaddr/4096*4096) n p st = some st')
    (hs : st'.success = true) : st.success = true ∧ (Laid placed st →
      (∀ page, seg.vaddr/4096+p ≤ page → page < seg.vaddr/4096+p+n → ∀ b, ¬placed page b) →
      Laid (fun page b => placed page b ∨ (b = segPage file seg page ∧
        seg.vaddr/4096+p ≤ page ∧ page < seg.vaddr/4096+p+n)) st') := by
  induction n generalizing p st placed with
  | zero =>
    obtain rfl := some.inj h
    refine ⟨hs,fun hl _ => hl.congr (fun page b => ?_) rfl rfl rfl⟩
    constructor
    · exact .inl
    · rintro (h | h)
      · exact h
      · omega
  | succ n ih =>
    rw [loadPages_succ (by omega)] at h
    obtain ⟨r,hr,h⟩ := bind_eq_some_iff.mp h
    rcases loadPage_cases hlen hfile (by omega) (by omega) hr with
      ⟨hcont,hfail⟩ | ⟨hcont,content,pte,hpte,hbytes,hst⟩
    · rw [hcont] at h
      obtain rfl := some.inj h
      rw [hfail] at hs
      cases hs
    rw [hcont,if_pos rfl] at h
    have hrest := fun q => ih (p := p+1) (by omega) q h
    refine ⟨?_,fun hl hfresh => ?_⟩
    · have := (hrest placed).1
      rw [hst] at this
      exact this
    · have hl' := hl.place content pte (hfresh _ le_rfl (by omega)) hpte hbytes
      rw [← hst] at hl'
      refine ((hrest _).2 hl' ?_).congr (fun page b => ?_) rfl rfl rfl
      · rintro page h1 h2 b (hpl | ⟨rfl,-⟩)
        · exact hfresh page (by omega) (by omega) b hpl
        · omega
      · constructor
        · rintro ((h | ⟨rfl,rfl⟩) | ⟨rfl,h⟩)
          · exact .inl h
          · exact .inr ⟨rfl,by omega,by omega⟩
          · exact .inr ⟨rfl,by omega,by omega⟩
        · rintro (h | ⟨rfl,h1,h2⟩)
          · exact .inl (.inl h)
          · by_cases hpage : page = seg.vaddr/4096+p
            · exact .inl (.inr ⟨hpage,hpage ▸ rfl⟩)
            · exact .inr ⟨rfl,by omega,by omega⟩

lemma covers_iff :
    covers seg page ↔ seg.vaddr/4096+0 ≤ page ∧ page < seg.vaddr/4096+0+numPages seg := by
  unfold covers numPages
  omega

variable {phdr : Phdr}

lemma loadSegment_laid (hlen : file.length < 2^63) (placed : ℕ → (ℕ → UInt8) → Prop)
    (h : loadSegment env loader file st phdr = some r) (hs : r.1.success = true) :
    st.success = true ∧ r.2 = true ∧ (phdr.type = ptLoad → Bounded phdr file.length) ∧
    (Laid placed st → (phdr.type = ptLoad → numPages phdr ≤ maxSegmentPages ∧
        ∀ page, covers phdr page → ∀ b, ¬placed page b) → Laid (fun page b => placed page b ∨
        (b = segPage file phdr page ∧ phdr.type = ptLoad ∧ covers phdr page)) r.1) := by
  rcases loadSegment_eq env loader file st phdr with ⟨htype,addr,heq⟩ | ⟨htype,heq⟩ | ⟨htype,hb,heq⟩
  · rw [heq] at h
    obtain rfl := some.inj h
    refine ⟨hs,rfl,fun h => absurd h htype,fun hl _ => hl.congr (fun page b => ?_) rfl rfl rfl⟩
    simp [htype]
  · rw [heq] at h
    obtain rfl := some.inj h
    cases hs
  rw [heq,placeSegment] at h
  split at h
  · next hskip =>
    obtain rfl := some.inj h
    refine ⟨hs,rfl,fun _ => hb,fun hl hfit => hl.congr (fun page b => ?_) rfl rfl rfl⟩
    have hzero : numPages phdr = 0 := by
      have := (hfit htype).1
      omega
    rw [covers_iff]
    constructor
    · exact .inl
    · rintro (h | ⟨-,-,h⟩)
      · exact h
      · omega
  obtain ⟨st',hst,h⟩ := bind_eq_some_iff.mp h
  have hdone : st'.success = true ∧ r.2 = true ∧ r.1.frames = st'.frames ∧ r.1.mem = st'.mem ∧
      r.1.table = st'.table := by
    cases loader with
    | exec =>
      obtain rfl := some.inj h
      exact ⟨hs,rfl,rfl,rfl,rfl⟩
    | spawn =>
      simp only at h
      split at h
      · next hfail =>
        obtain rfl := some.inj h
        rw [hs] at hfail
        cases hfail
      · obtain rfl := some.inj h
        exact ⟨hs,rfl,rfl,rfl,rfl⟩
  obtain ⟨hs',hcont,hf,hm,ht⟩ := hdone
  obtain ⟨hst0,hlaid⟩ := loadPages_laid hlen hb.file hb.pages placed hst hs'
  refine ⟨hst0,hcont,fun _ => hb,fun hl hfit => ?_⟩
  refine (hlaid hl ?_).congr (fun page b => ?_) hf hm ht
  · intro page h1 h2
    exact (hfit htype).2 page (covers_iff.mpr ⟨h1,h2⟩)
  · rw [covers_iff]
    simp only [htype,true_and]

variable {e : Ehdr} {i k : ℕ}

lemma readPhdr_before (hik : i ≤ k)
    (h : readPhdr file e k = some (some phdr)) : ∃ phdr', readPhdr file e i = some (some phdr') := by
  have hmul : i*e.phentsize ≤ k*e.phentsize := mul_le_mul_right _ hik
  unfold readPhdr at h ⊢
  split at h
  · cases h
  next hsize =>
  rw [if_neg hsize]
  obtain ⟨off,hoff,h⟩ := bind_eq_some_iff.mp h
  obtain ⟨start,hstart,h⟩ := bind_eq_some_iff.mp h
  obtain ⟨fin,hfin,h⟩ := bind_eq_some_iff.mp h
  obtain ⟨hlt,rfl⟩ := mul64_some hoff
  obtain ⟨hlt',rfl⟩ := add64_some hstart
  obtain ⟨hlt'',rfl⟩ := add64_some hfin
  split at h
  · cases h
  next hin =>
  rw [mul64_eq (by omega)]
  simp only [bind_eq_bind,bind_some]
  rw [add64_eq (by omega)]
  simp only [bind_some]
  rw [add64_eq (by omega)]
  simp only [bind_some]
  rw [if_neg (by omega),slice_eq (by omega)]
  exact ⟨_,rfl⟩

def LoadAt (file : Bytes) (ehdr : Ehdr) (i : ℕ) (seg : Phdr) : Prop :=
  i < ehdr.phnum ∧ readPhdr file ehdr i = some (some seg) ∧ seg.type = ptLoad

def Placed (file : Bytes) (ehdr : Ehdr) (n page : ℕ) (bytes : ℕ → UInt8) : Prop :=
  ∃ i < n, ∃ seg, LoadAt file ehdr i seg ∧ covers seg page ∧ bytes = segPage file seg page

/-- No two segments share a page and none is longer than the loaders take. -/
structure Separate (file : Bytes) (ehdr : Ehdr) : Prop where
  short : ∀ i seg, LoadAt file ehdr i seg → numPages seg ≤ maxSegmentPages
  apart : ∀ i j seg seg' page, LoadAt file ehdr i seg → LoadAt file ehdr j seg' →
    covers seg page → covers seg' page → i = j
  stack : ∀ i seg, LoadAt file ehdr i seg → ¬covers seg stackPage

lemma loadSegments_laid
    (hlen : file.length < 2^63) (hsep : Separate file e) (hi : i+n = e.phnum) (h : loadSegments env loader file e n i st = some st')
    (hs : st'.success = true) : st.success = true ∧
    (∀ k seg, i ≤ k → LoadAt file e k seg → Bounded seg file.length) ∧
    (Laid (Placed file e i) st → Laid (Placed file e e.phnum) st') := by
  induction n generalizing i st with
  | zero =>
    obtain rfl := some.inj h
    obtain rfl : i = e.phnum := by omega
    exact ⟨hs,fun k seg hk hload => absurd hload.1 (by omega),id⟩
  | succ n ih =>
    rw [loadSegments] at h
    obtain ⟨phdr,hp,h⟩ := bind_eq_some_iff.mp h
    cases phdr with
    | none =>
      obtain rfl := some.inj h
      have hlast : ∀ k seg, i ≤ k → ¬LoadAt file e k seg := by
        intro k seg hk hload
        obtain ⟨phdr',hp'⟩ := readPhdr_before hk hload.2.1
        rw [hp] at hp'
        cases hp'
      refine ⟨hs,fun k seg hk hload => absurd hload (hlast k seg hk),
        fun hl => hl.congr (fun page b => ?_) rfl rfl rfl⟩
      constructor
      · rintro ⟨k,hk,seg,hload,hc⟩
        exact ⟨k,by omega,seg,hload,hc⟩
      · rintro ⟨k,hk,seg,hload,hc⟩
        exact ⟨k,not_le.mp fun hik => hlast k seg hik hload,seg,hload,hc⟩
    | some phdr =>
      obtain ⟨r,hr,h⟩ := bind_eq_some_iff.mp h
      change (if r.2 = true then loadSegments env loader file e n (i+1) r.1 else some r.1) = some st' at h
      have hrest : r.1.success = true ∧ (r.2 = true →
          (∀ k seg, i+1 ≤ k → LoadAt file e k seg → Bounded seg file.length) ∧
          (Laid (Placed file e (i+1)) r.1 → Laid (Placed file e e.phnum) st')) := by
        cases hcont : r.2 with
        | true =>
          rw [hcont,if_pos rfl] at h
          obtain ⟨h1,h2⟩ := ih (by omega) h
          exact ⟨h1,fun _ => h2⟩
        | false =>
          rw [hcont] at h
          obtain rfl := some.inj h
          exact ⟨hs,fun h => by cases h⟩
      obtain ⟨hst,hcont,hbound,hlaid⟩ := loadSegment_laid hlen (Placed file e i) hr hrest.1
      obtain ⟨hbounds,hlater⟩ := hrest.2 hcont
      have hat : ∀ seg, LoadAt file e i seg ↔ seg = phdr ∧ phdr.type = ptLoad := by
        intro seg
        unfold LoadAt
        rw [hp]
        constructor
        · rintro ⟨-,h,htype⟩
          obtain rfl := some.inj (some.inj h)
          exact ⟨rfl,htype⟩
        · rintro ⟨rfl,htype⟩
          exact ⟨by omega,rfl,htype⟩
      refine ⟨hst,fun k seg hk hload => ?_,fun hl => hlater ?_⟩
      · rcases hk.eq_or_lt with rfl | hk
        · obtain ⟨rfl,htype⟩ := (hat seg).mp hload
          exact hbound htype
        · exact hbounds k seg hk hload
      · refine (hlaid hl fun htype => ?_).congr (fun page b => ?_) rfl rfl rfl
        · have hload := (hat phdr).mpr ⟨rfl,htype⟩
          refine ⟨hsep.short i phdr hload,?_⟩
          rintro page hc b ⟨k,hk,seg,hload',hc',-⟩
          have := hsep.apart k i seg phdr page hload' hload hc' hc
          omega
        · constructor
          · rintro (⟨k,hk,seg,hload,hc⟩ | ⟨rfl,htype,hc⟩)
            · exact ⟨k,by omega,seg,hload,hc⟩
            · exact ⟨i,by omega,phdr,(hat phdr).mpr ⟨rfl,htype⟩,hc,rfl⟩
          · rintro ⟨k,hk,seg,hload,hc,rfl⟩
            rcases Nat.lt_succ_iff_lt_or_eq.mp hk with hk | rfl
            · exact .inl ⟨k,hk,seg,hload,hc,rfl⟩
            · obtain ⟨rfl,htype⟩ := (hat seg).mp hload
              exact .inr ⟨rfl,htype,hc⟩

lemma segmentLoops_laid (hlen : file.length < 2^63) (hsep : Separate file e)
    (h : segmentLoops env loader file e = some st) (hs : st.success = true) :
    (∀ k seg, LoadAt file e k seg → Bounded seg file.length) ∧ Laid (Placed file e e.phnum) st := by
  have hempty : Laid (Placed file e 0) {} := by
    constructor
    · rintro page bytes ⟨i,hi,-⟩
      omega
    · intro page pte h
      cases h
    · intro f hf
      exact absurd hf (not_lt_zero f)
    · intro page page' pte pte' h
      cases h
  cases loader with
  | exec =>
    obtain ⟨-,hbounds,hlaid⟩ := loadSegments_laid hlen hsep (by omega) h hs
    exact ⟨fun k seg => hbounds k seg (zero_le k),hlaid hempty⟩
  | spawn =>
    obtain ⟨addr,-,h⟩ := bind_eq_some_iff.mp h
    obtain ⟨st',hst,h⟩ := bind_eq_some_iff.mp h
    obtain rfl := some.inj h
    obtain ⟨-,hbounds,hlaid⟩ := loadSegments_laid hlen hsep (by omega) hst hs
    exact ⟨fun k seg => hbounds k seg (zero_le k),
      (hlaid hempty).congr (fun _ _ => Iff.rfl) rfl rfl rfl⟩

def byteAt (st : Loading) (va : ℕ) : Option UInt8 :=
  (st.table (va/4096)).map fun pte => st.mem pte.frame (va%4096)

lemma covers_address (h : k < seg.memsz) : covers seg ((seg.vaddr+k)/4096) := by
  unfold covers
  omega

lemma loadProgram_done {fits : Bool} {stack : ℕ → UInt8} {ehdr : Ehdr}
    (hhdr : parseHeader file = some (some ehdr))
    (h : loadProgram env loader fits stack file = some (some st)) :
    file.length ≤ 4*1024*1024 ∧ ∃ st0 addr, segmentLoops env loader file ehdr = some st0 ∧
      st0.success = true ∧
      st = {st0.place stackPage stack ⟨st0.frames,true,false⟩ with phdrAddr := addr} := by
  unfold loadProgram at h
  split at h
  · cases h
  next hlen =>
  rw [hhdr] at h
  simp only [bind_eq_bind,bind_some] at h
  obtain ⟨st0,hst0,h⟩ := bind_eq_some_iff.mp h
  split at h
  · cases h
  next hok =>
  have hs : st0.success = true := by
    by_contra hfail
    exact hok (.inl (by simp [hfail]))
  split_ifs at h
  · cases h
  · cases h
  · cases h
  -- the last test only chooses `phdrAddr`
  all_goals exact ⟨by omega,st0,_,hst0,hs,(some.inj (some.inj h)).symm⟩

def alwaysOk : Env := ⟨fun _ => true,fun _ => true⟩

end MoQiOS.Elf
