import MoQiOS.Elf

/-!
# The loaders do not trap

Both loaders run over any file without a trap as long as the offsets of the
program headers fit in 64 bits: `readPhdr` adds them before it compares with
the size of the file.
-/

namespace MoQiOS.Elf
open CheckedWords ByteImages Option
set_option maxRecDepth 9000

variable {file : Bytes} (env : Env) (loader : Loader)

lemma loadPage_some {seg : Phdr} {page : ℕ}
    (hlen : file.length < 2^63) (hfile : seg.offset+seg.filesz ≤ file.length) (hp : page < 2^36)
    (hs : seg.vaddr/4096 ≤ page) (st : Loading) :
    ∃ r, loadPage env loader file seg st (page*4096) = some r := by
  obtain ⟨content,hc,-⟩ := pageContent_eq loader hlen hfile hp hs
  unfold loadPage
  split
  · exact ⟨_,rfl⟩
  rw [hc]
  simp only [bind_eq_bind,bind_some]
  split <;> exact ⟨_,rfl⟩

variable {n : ℕ} {p : ℕ}

lemma loadPages_succ {env : Env} {loader : Loader} {seg : Phdr}
    (hp : seg.vaddr/4096+p < 2^36) (st : Loading) :
    loadPages env loader file seg (seg.vaddr/4096*4096) (n+1) p st =
      (loadPage env loader file seg st ((seg.vaddr/4096+p)*4096)).bind fun r =>
        if r.2 then loadPages env loader file seg (seg.vaddr/4096*4096) n (p+1) r.1 else some r.1 := by
  rw [loadPages,mul64_eq (by omega)]
  simp only [bind_eq_bind,bind_some]
  rw [add64_eq (by omega),← Nat.add_mul]
  rfl

lemma loadPages_some {seg : Phdr}
    (hlen : file.length < 2^63) (hfile : seg.offset+seg.filesz ≤ file.length)
    (hp : seg.vaddr/4096+p+n < 2^36) (st : Loading) :
    ∃ st', loadPages env loader file seg (seg.vaddr/4096*4096) n p st = some st' := by
  induction n generalizing p st with
  | zero => exact ⟨st,rfl⟩
  | succ n ih =>
    obtain ⟨r,hr⟩ := loadPage_some env loader hlen hfile
      (show seg.vaddr/4096+p < 2^36 by omega) (Nat.le_add_right _ _) st
    rw [loadPages_succ (by omega),hr,bind_some]
    split
    · exact ih (by omega) r.1
    · exact ⟨_,rfl⟩

variable (seg : Phdr)

def covers (page : ℕ) : Prop :=
  seg.vaddr/4096 ≤ page ∧ page < (seg.vaddr+seg.memsz+4095)/4096

instance (seg : Phdr) (page : ℕ) : Decidable (covers seg page) := inferInstanceAs (Decidable (_ ∧ _))

def numPages : ℕ := (seg.vaddr+seg.memsz+4095)/4096-seg.vaddr/4096

def placeSegment (file : Bytes) (st : Loading) (phdr : Phdr) :
    Option (Loading×Bool) :=
  if numPages phdr = 0 ∨ maxSegmentPages < numPages phdr then some (st,true)
  else do
    let st ← loadPages env loader file phdr (phdr.vaddr/4096*4096) (numPages phdr) 0 st
    match loader with
    | .exec =>
      some ({ st with highest := max st.highest (phdr.vaddr+phdr.memsz), loaded := st.loaded+1 },true)
    | .spawn =>
      if !st.success then some (st,false)
      else some ({ st with
        highest := max st.highest (phdr.vaddr/4096*4096+numPages phdr*4096)
        loaded := st.loaded+1 },true)

structure Bounded (phdr : Phdr) (fileSize : ℕ) : Prop where
  size : phdr.filesz ≤ phdr.memsz
  memory : phdr.vaddr+phdr.memsz ≤ userAddrLimit
  file : phdr.offset+phdr.filesz ≤ fileSize

lemma loadSegment_eq (file : Bytes) (st : Loading) (phdr : Phdr) :
    (phdr.type ≠ ptLoad ∧ ∃ addr, loadSegment env loader file st phdr =
      some ({st with phdrAddr := addr},true)) ∨ (phdr.type = ptLoad ∧
      loadSegment env loader file st phdr = some ({st with success := false},false)) ∨
    (phdr.type = ptLoad ∧ Bounded phdr file.length ∧
      loadSegment env loader file st phdr = placeSegment env loader file st phdr) := by
  unfold loadSegment
  by_cases htype : phdr.type = ptLoad
  · have hne : ¬phdr.type = ptPhdr := by rw [htype]; decide
    simp only [htype,ne_eq,not_true_eq_false,if_false,false_and,false_or,true_and,
      show ¬ptLoad = ptPhdr by decide]
    obtain ⟨b,hb,hbounds⟩ := validLoadSegment_some phdr file.length
    rw [hb]
    simp only [bind_eq_bind,bind_some]
    rcases b with _ | _
    · exact .inl rfl
    obtain ⟨hsize,hmem,hfile⟩ := hbounds rfl
    refine .inr ⟨⟨hsize,hmem,hfile⟩,?_⟩
    unfold userAddrLimit at hmem
    simp only [Bool.not_true,Bool.false_eq_true,if_false]
    rw [add64_eq (by omega)]
    simp only [bind_some]
    rw [add64_eq (by omega)]
    simp only [bind_some]
    rw [sub64_eq (Nat.mul_le_mul_right _ (Nat.div_le_div_right (by omega)))]
    simp only [bind_some]
    have hpages : ((phdr.vaddr+phdr.memsz+4095)/4096*4096-phdr.vaddr/4096*4096)/4096 = numPages phdr := by
      rw [← Nat.sub_mul,Nat.mul_div_cancel _ (by omega)]
      rfl
    have hnum : numPages phdr < 2^36 := by unfold numPages; omega
    rw [hpages,mul64_eq (by omega)]
    simp only [bind_some]
    rw [add64_eq (by omega)]
    rfl
  · refine .inl ⟨htype,?_⟩
    simp only [ne_eq,htype,not_false_eq_true,if_true]
    split
    · exact ⟨_,rfl⟩
    · exact ⟨st.phdrAddr,rfl⟩

lemma Bounded.pages {phdr : Phdr} (h : Bounded phdr n) :
    phdr.vaddr/4096+0+numPages phdr < 2^36 := by
  have := h.memory
  unfold userAddrLimit at this
  unfold numPages
  omega

lemma loadSegment_some (hlen : file.length < 2^63)
    (st : Loading) (phdr : Phdr) : ∃ r, loadSegment env loader file st phdr = some r := by
  rcases loadSegment_eq env loader file st phdr with ⟨-,addr,h⟩ | ⟨-,h⟩ | ⟨-,hb,h⟩
  · exact ⟨_,h⟩
  · exact ⟨_,h⟩
  rw [h,placeSegment]
  split
  · exact ⟨_,rfl⟩
  obtain ⟨st',hst⟩ := loadPages_some env loader hlen hb.file hb.pages st
  rw [hst]
  cases loader with
  | exec => exact ⟨_,rfl⟩
  | spawn =>
    simp only [bind_eq_bind,bind_some]
    split <;> exact ⟨_,rfl⟩

variable {e : Ehdr} {i : ℕ}

lemma loadSegments_some
    (hlen : file.length < 2^63) (he : e.fits) (hi : i+n ≤ e.phnum) (st : Loading) :
    ∃ st', loadSegments env loader file e n i st = some st' := by
  induction n generalizing i st with
  | zero => exact ⟨st,rfl⟩
  | succ n ih =>
    obtain ⟨phdr,hp⟩ := readPhdr_some file he (show i < e.phnum by omega)
    rw [loadSegments,hp]
    rcases phdr with _ | phdr
    · exact ⟨st,rfl⟩
    obtain ⟨r,hr⟩ := loadSegment_some env loader hlen st phdr
    simp only [bind_eq_bind,bind_some,hr]
    split
    · exact ih (by omega) r.1
    · exact ⟨_,rfl⟩

lemma scanPhdrs_some (file : Bytes) (he : e.fits) (hi : i+n ≤ e.phnum) (addr : ℕ) :
    ∃ addr', scanPhdrs file e n i addr = some addr' := by
  induction n generalizing i addr with
  | zero => exact ⟨addr,rfl⟩
  | succ n ih =>
    obtain ⟨phdr,hp⟩ := readPhdr_some file he (show i < e.phnum by omega)
    rw [scanPhdrs,hp]
    cases phdr with
    | none => exact ⟨addr,rfl⟩
    | some phdr => exact ih (by omega) _

lemma segmentLoops_some (hlen : file.length < 2^63) (he : e.fits) (env : Env)
    (loader : Loader) : ∃ st, segmentLoops env loader file e = some st := by
  cases loader with
  | exec => exact loadSegments_some env .exec hlen he (by omega) {}
  | spawn =>
    obtain ⟨addr,ha⟩ := scanPhdrs_some file he (show 0+e.phnum ≤ e.phnum by omega) 0
    obtain ⟨st,hst⟩ := loadSegments_some env .spawn hlen he
      (show 0+e.phnum ≤ e.phnum by omega) {}
    exact ⟨{st with phdrAddr := addr},by simp [segmentLoops,ha,hst]⟩

def leBytes : ℕ → ℕ → Bytes
  | 0, _ => []
  | n+1, v => UInt8.ofNat v::leBytes n (v/256)

def sampleHeader (phoff phnum : ℕ) : Bytes :=
  [0x7F,0x45,0x4C,0x46,2,1,1]++List.replicate 9 0++leBytes 2 etExec++leBytes 2 emCurrent++
    leBytes 4 1++leBytes 8 0x400000++leBytes 8 phoff++leBytes 8 0++leBytes 4 0++leBytes 2 64++
    leBytes 2 56++leBytes 2 phnum++leBytes 6 0

def samplePhdr (offset vaddr filesz memsz : ℕ) : Bytes :=
  leBytes 4 ptLoad++leBytes 4 5++leBytes 8 offset++leBytes 8 vaddr++leBytes 8 vaddr++leBytes 8 filesz++
    leBytes 8 memsz++leBytes 8 4096

def smallProgram : Bytes := sampleHeader 64 1++samplePhdr 120 0x400ffe 3 4++[7,8,9]

end MoQiOS.Elf
