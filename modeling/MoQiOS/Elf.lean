import MoQiOS.CheckedWords
import MoQiOS.ByteImages

/-!
# Loading ELF executables

The header parser, the segment loops of the two loaders and the pages they
map. No value of the outer option stands for a trap, an addition that does not
fit in 64 bits or a read outside the file; no value of an inner one is the
source's null. Whether an allocation or a mapping succeeds comes with the
environment; frames are numbered in the order they are given out.
-/

namespace MoQiOS.Elf
open CheckedWords ByteImages Function List Option

abbrev Bytes := List UInt8

def leValue : Bytes → ℕ
  | [] => 0
  | b::rest => b.toNat+256*leValue rest

variable (file : Bytes)

def slice (start len : ℕ) : Option Bytes :=
  if start+len ≤ file.length then some ((file.drop start).take len) else none

variable (buf : Bytes)

def field (off n : ℕ) : ℕ := leValue ((buf.drop off).take n)

structure Ehdr where
  identClass : ℕ
  identData : ℕ
  type : ℕ
  machine : ℕ
  entry : ℕ
  phoff : ℕ
  phentsize : ℕ
  phnum : ℕ
  deriving DecidableEq

structure Phdr where
  type : ℕ
  flags : ℕ
  offset : ℕ
  vaddr : ℕ
  filesz : ℕ
  memsz : ℕ
  deriving DecidableEq

def sizeofEhdr : ℕ := 64

def sizeofPhdr : ℕ := 56

def decodeEhdr : Ehdr where
  identClass := field buf 4 1
  identData := field buf 5 1
  type := field buf 16 2
  machine := field buf 18 2
  entry := field buf 24 8
  phoff := field buf 32 8
  phentsize := field buf 54 2
  phnum := field buf 56 2

def decodePhdr : Phdr where
  type := field buf 0 4
  flags := field buf 4 4
  offset := field buf 8 8
  vaddr := field buf 16 8
  filesz := field buf 32 8
  memsz := field buf 40 8

def ptLoad : ℕ := 1

def ptPhdr : ℕ := 6

/-- `EM_X86_64`. -/
def emCurrent : ℕ := 0x3E

def etExec : ℕ := 2

def etDyn : ℕ := 3

def hasMagic : Option Bool :=
  if file.length < 4 then some false else (slice file 0 4).map (· == [0x7F,0x45,0x4C,0x46])

def parseHeader : Option (Option Ehdr) :=
  if file.length < sizeofEhdr then some none
  else do
    let magic ← hasMagic file
    if !magic then some none
    else do
      let buf ← slice file 0 sizeofEhdr
      let ehdr := decodeEhdr buf
      if ehdr.identClass ≠ 2 ∨ ehdr.identData ≠ 1 ∨ ehdr.machine ≠ emCurrent ∨
          (ehdr.type ≠ etExec ∧ ehdr.type ≠ etDyn) then some none
      else some (some ehdr)

/-- A short entry is extended with zeros. -/
def readPhdr (ehdr : Ehdr) (i : ℕ) : Option (Option Phdr) :=
  if ehdr.phentsize = 0 then some none
  else do
    let off ← mul64 i ehdr.phentsize
    let start ← add64 ehdr.phoff off
    let fin ← add64 start ehdr.phentsize
    if file.length < fin then some none
    else do
      let bytes ← slice file start (min ehdr.phentsize sizeofPhdr)
      some (some (decodePhdr (bytes++List.replicate (sizeofPhdr-bytes.length) 0)))

def userAddrLimit : ℕ := 0x800000000000

variable (phdr : Phdr)

def validLoadSegment (fileSize : ℕ) : Option Bool :=
  if phdr.memsz < phdr.filesz then some false
  else if userAddrLimit ≤ phdr.vaddr then some false
  else do
    let room ← sub64 userAddrLimit phdr.vaddr
    if room < phdr.memsz then some false
    else if fileSize < phdr.offset then some false
    else do
      let left ← sub64 fileSize phdr.offset
      some (decide (phdr.filesz ≤ left))

structure Window where
  pageOff : ℕ
  len : ℕ
  fileOff : ℕ

/-- `segment_copy_policy.window`; its additions saturate. -/
def window (pageVaddr segVaddr segFilesz : ℕ) : Option Window :=
  let ps := pageVaddr-segVaddr
  let fcs := min ps segFilesz
  let fce := min (addSat64 ps 4096) segFilesz
  if fce ≤ fcs then none
  else
    let poff := if pageVaddr < segVaddr then segVaddr-pageVaddr else 0
    if 4096 ≤ poff then none
    else some ⟨poff,min (fce-fcs) (4096-poff),fcs⟩

/-- The same window as `loadElf` works it out. -/
def elfWindow (pageVaddr segVaddr segFilesz : ℕ) : Option (Option Window) := do
  let ps := pageVaddr-segVaddr
  let pe ← add64 ps 4096
  let fcs := if ps < segFilesz then ps else segFilesz
  let fce := min pe segFilesz
  if fcs < fce then do
    let poff := if pageVaddr < segVaddr then segVaddr-pageVaddr else 0
    let room ← sub64 4096 poff
    some (some ⟨poff,min (fce-fcs) room,fcs⟩)
  else some none

/-- `exec` is `loadProgramForExec`, `spawn` is `loadElf`. -/
inductive Loader where
  | exec | spawn
  deriving DecidableEq

def Loader.window : Loader → ℕ → ℕ → ℕ → Option (Option Window)
  | .exec, pageVaddr, segVaddr, segFilesz => some (Elf.window pageVaddr segVaddr segFilesz)
  | .spawn, pageVaddr, segVaddr, segFilesz => elfWindow pageVaddr segVaddr segFilesz

variable (loader : Loader)

def pageContent (file : Bytes) (seg : Phdr) (pageVaddr : ℕ) : Option (ℕ → UInt8) := do
  let w ← loader.window pageVaddr seg.vaddr seg.filesz
  match w with
  | none => some fun _ => 0
  | some w => do
    let soff ← add64 seg.offset w.fileOff
    let fin ← add64 soff w.len
    if fin ≤ file.length then do
      let bytes ← slice file soff w.len
      if w.pageOff+w.len ≤ 4096 then some (overwrite (fun _ => 0) w.pageOff bytes) else none
    else some fun _ => 0

structure Pte where
  frame : ℕ
  writable : Bool
  executable : Bool

structure Loading where
  frames : ℕ := 0
  mem : ℕ → ℕ → UInt8 := fun _ _ => 0
  table : ℕ → Option Pte := fun _ => none
  highest : ℕ := 0
  loaded : ℕ := 0
  success : Bool := true
  phdrAddr : ℕ := 0

structure Env where
  allocOk : ℕ → Bool
  mapOk : ℕ → Bool

variable (env : Env)

/-- One page of a segment; the flag tells the loop to go on. -/
def loadPage (loader : Loader) (file : Bytes) (seg : Phdr) (st : Loading) (pageVaddr : ℕ) :
    Option (Loading×Bool) :=
  if !env.allocOk st.frames then some ({ st with success := false },false)
  else do
    let content ← pageContent loader file seg pageVaddr
    let frame := st.frames
    let st := { st with frames := frame+1, mem := update st.mem frame content }
    if env.mapOk frame then
      let pte : Pte := ⟨frame,seg.flags.testBit 1,seg.flags.testBit 0⟩
      some ({ st with table := update st.table (pageVaddr/4096) (some pte) },true)
    else some ({ st with success := false },false)

def loadPages (env : Env) (loader : Loader) (file : Bytes) (seg : Phdr) (segStart : ℕ) :
    ℕ → ℕ → Loading → Option Loading
  | 0, _, st => some st
  | n+1, p, st => do
    let off ← mul64 p 4096
    let pageVaddr ← add64 segStart off
    let (st,continues) ← loadPage env loader file seg st pageVaddr
    if continues then loadPages env loader file seg segStart n (p+1) st else some st

def maxSegmentPages : ℕ := 512

/-- One program header; the flag tells the loop to go on. -/
def loadSegment (loader : Loader) (file : Bytes) (st : Loading) (phdr : Phdr) :
    Option (Loading×Bool) :=
  let st := if phdr.type = ptPhdr then { st with phdrAddr := phdr.vaddr } else st
  if phdr.type ≠ ptLoad then some (st,true)
  else do
    let valid ← validLoadSegment phdr file.length
    if !valid then some ({ st with success := false },false)
    else do
      let segStart := phdr.vaddr/4096*4096
      let fin ← add64 phdr.vaddr phdr.memsz
      let fin' ← add64 fin (4095)
      let bytes ← sub64 (fin'/4096*4096) segStart
      let numPages := bytes/4096
      if numPages = 0 ∨ maxSegmentPages < numPages then some (st,true)
      else do
        let st ← loadPages env loader file phdr segStart numPages 0 st
        match loader with
        | .exec =>
          some ({ st with highest := max st.highest fin, loaded := st.loaded+1 },true)
        | .spawn =>
          if !st.success then some (st,false)
          else do
            let len ← mul64 numPages 4096
            let segEnd ← add64 segStart len
            some ({ st with highest := max st.highest segEnd, loaded := st.loaded+1 },true)

def loadSegments (env : Env) (loader : Loader) (file : Bytes) (ehdr : Ehdr) :
    ℕ → ℕ → Loading → Option Loading
  | 0, _, st => some st
  | n+1, i, st => do
    let phdr ← readPhdr file ehdr i
    match phdr with
    | none => some st
    | some phdr => do
      let (st,continues) ← loadSegment env loader file st phdr
      if continues then loadSegments env loader file ehdr n (i+1) st else some st

/-- The scan for `PT_INTERP` and `PT_PHDR` that `loadElf` makes first. -/
def scanPhdrs (file : Bytes) (ehdr : Ehdr) : ℕ → ℕ → ℕ → Option ℕ
  | 0, _, phdrAddr => some phdrAddr
  | n+1, i, phdrAddr => do
    let phdr ← readPhdr file ehdr i
    match phdr with
    | none => some phdrAddr
    | some phdr => scanPhdrs file ehdr n (i+1) (if phdr.type = ptPhdr then phdr.vaddr else phdrAddr)

def segmentLoops (loader : Loader) (file : Bytes) (ehdr : Ehdr) : Option Loading :=
  match loader with
  | .exec => loadSegments env .exec file ehdr ehdr.phnum 0 {}
  | .spawn => do
    let phdrAddr ← scanPhdrs file ehdr ehdr.phnum 0 0
    let st ← loadSegments env .spawn file ehdr ehdr.phnum 0 {}
    some { st with phdrAddr := phdrAddr }

def userStackTop : ℕ := 0x800000

def stackPage : ℕ := (userStackTop-4096)/4096

/-- After the segments the stack gets a frame and its contents; the null
results give the address space back. -/
def loadProgram (loader : Loader) (fits : Bool) (stack : ℕ → UInt8) (file : Bytes) :
    Option (Option Loading) :=
  if file.length = 0 ∨ 4*1024*1024 < file.length then some none
  else do
    let header ← parseHeader file
    match header with
    | none => some none
    | some ehdr => do
      let st ← segmentLoops env loader file ehdr
      if !st.success ∨ st.loaded = 0 then some none
      else if loader = .exec ∧ !fits then some none
      else if !env.allocOk st.frames then some none
      else if !env.mapOk st.frames then some none
      else some (some { st with
        frames := st.frames+1
        mem := update st.mem st.frames stack
        table := update st.table stackPage (some ⟨st.frames,true,false⟩)
        phdrAddr := if st.phdrAddr = 0 ∧ 0 < ehdr.phoff then ehdr.phoff else st.phdrAddr })

lemma slice_eq {file : Bytes} {start len : ℕ} (h : start+len ≤ file.length) :
    slice file start len = some ((file.drop start).take len) := if_pos h

lemma leValue_lt : leValue buf < 256^buf.length := by
  induction buf with
  | nil => exact Nat.one_pos
  | cons b rest ih =>
    have := b.toNat_lt
    rw [leValue,length_cons,pow_succ]
    omega

lemma field_lt (off n : ℕ) : field buf off n < 256^n := by
  refine lt_of_lt_of_le (leValue_lt _) (Nat.pow_le_pow_right (by omega) ?_)
  exact length_take_le _ _

lemma parseHeader_some : ∃ header, parseHeader file = some header ∧
    ∀ ehdr ∈ header, ehdr.phentsize < 2^16 ∧ ehdr.phnum < 2^16 := by
  unfold parseHeader
  split
  · exact ⟨none,rfl,by simp⟩
  next hlen =>
  unfold sizeofEhdr at hlen
  rw [hasMagic,if_neg (by omega),slice_eq (by omega)]
  simp only [map_some,bind_eq_bind,bind_some]
  split
  · exact ⟨none,rfl,by simp⟩
  rw [slice_eq (by unfold sizeofEhdr; omega)]
  simp only [bind_some]
  split
  · exact ⟨none,rfl,by simp⟩
  refine ⟨_,rfl,?_⟩
  intro ehdr he
  obtain rfl := mem_some_iff.mp he
  exact ⟨field_lt _ 54 2,field_lt _ 56 2⟩

def Ehdr.fits (e : Ehdr) : Prop := e.phoff+e.phnum*e.phentsize < 2^64

instance (e : Ehdr) : Decidable e.fits := inferInstanceAs (Decidable (_ < _))

variable {e : Ehdr} {i : ℕ}

lemma entry_le (hi : i < e.phnum) : i*e.phentsize+e.phentsize ≤ e.phnum*e.phentsize := by
  rw [← Nat.succ_mul]
  exact Nat.mul_le_mul_right _ hi

lemma readPhdr_some (h : e.fits) (hi : i < e.phnum) : ∃ phdr, readPhdr file e i = some phdr := by
  unfold readPhdr
  split
  · exact ⟨none,rfl⟩
  have hle := entry_le hi
  unfold Ehdr.fits at h
  rw [mul64_eq (by omega)]
  simp only [bind_eq_bind,bind_some]
  rw [add64_eq (by omega)]
  simp only [bind_some]
  rw [add64_eq (by omega)]
  simp only [bind_some]
  split
  · exact ⟨none,rfl⟩
  · rw [slice_eq (by omega)]
    exact ⟨_,rfl⟩

lemma validLoadSegment_some (fileSize : ℕ) :
    ∃ b, validLoadSegment phdr fileSize = some b ∧ (b = true → phdr.filesz ≤ phdr.memsz ∧
      phdr.vaddr+phdr.memsz ≤ userAddrLimit ∧ phdr.offset+phdr.filesz ≤ fileSize) := by
  unfold validLoadSegment
  split
  · exact ⟨false,rfl,by simp⟩
  split
  · exact ⟨false,rfl,by simp⟩
  rw [sub64_eq (by omega)]
  simp only [bind_eq_bind,bind_some]
  split
  · exact ⟨false,rfl,by simp⟩
  split
  · exact ⟨false,rfl,by simp⟩
  rw [sub64_eq (by omega)]
  refine ⟨_,rfl,?_⟩
  intro h
  have := of_decide_eq_true h
  omega

variable {pageVaddr segVaddr segFilesz : ℕ}

lemma elfWindow_eq (hp : pageVaddr < 2^48) (hs : segVaddr/4096*4096 ≤ pageVaddr) :
    elfWindow pageVaddr segVaddr segFilesz = some (window pageVaddr segVaddr segFilesz) := by
  simp only [elfWindow,window]
  have hfit : pageVaddr-segVaddr+4096 < 2^64 := by omega
  simp only [add64_eq hfit,addSat64_eq hfit,bind_eq_bind,bind_some]
  rw [sub64_eq (by split <;> omega)]
  simp only [bind_some]
  have hfcs : (if pageVaddr-segVaddr < segFilesz then pageVaddr-segVaddr else segFilesz) =
      min (pageVaddr-segVaddr) segFilesz := by
    split <;> omega
  rw [hfcs]
  split_ifs <;> first | rfl | omega

lemma loader_window {loader : Loader} (hp : pageVaddr < 2^48)
    (hs : segVaddr/4096*4096 ≤ pageVaddr) :
    loader.window pageVaddr segVaddr segFilesz = some (window pageVaddr segVaddr segFilesz) := by
  cases loader with
  | exec => rfl
  | spawn => exact elfWindow_eq hp hs

def expected (seg : Phdr) (va : ℕ) : UInt8 :=
  if seg.vaddr ≤ va ∧ va < seg.vaddr+seg.filesz then file.getD (seg.offset+(va-seg.vaddr)) 0 else 0

lemma pageContent_eq {file : Bytes} {seg : Phdr} {page : ℕ}
    (hlen : file.length < 2^63) (hfile : seg.offset+seg.filesz ≤ file.length) (hp : page < 2^36)
    (hs : seg.vaddr/4096 ≤ page) :
    ∃ content, pageContent loader file seg (page*4096) = some content ∧
      ∀ off < 4096, content off = expected file seg (page*4096+off) := by
  unfold pageContent
  rw [loader_window (show page*4096 < 2^48 by omega) (by omega)]
  simp only [bind_eq_bind,bind_some,window]
  have hfit : page*4096-seg.vaddr+4096 < 2^64 := by omega
  simp only [addSat64_eq hfit]
  by_cases hnone : min (page*4096-seg.vaddr+4096) seg.filesz ≤ min (page*4096-seg.vaddr) seg.filesz
  · simp only [if_pos hnone]
    refine ⟨_,rfl,fun off hoff => ?_⟩
    rw [expected,if_neg (by omega)]
  simp only [if_neg hnone]
  have hpoff : ¬4096 ≤ (if page*4096 < seg.vaddr then seg.vaddr-page*4096 else 0) := by
    split <;> omega
  simp only [if_neg hpoff]
  generalize hq : (if page*4096 < seg.vaddr then seg.vaddr-page*4096 else 0) = poff at hpoff ⊢
  generalize hl : min (min (page*4096-seg.vaddr+4096) seg.filesz-min (page*4096-seg.vaddr) seg.filesz)
    (4096-poff) = len
  have hlen' : page*4096-seg.vaddr+len ≤ seg.filesz ∧ poff+len ≤ 4096 ∧
      min (page*4096-seg.vaddr) seg.filesz = page*4096-seg.vaddr := by omega
  rw [hlen'.2.2,add64_eq (by omega)]
  simp only [bind_some]
  rw [add64_eq (by omega)]
  simp only [bind_some]
  rw [if_pos (by omega),slice_eq (by omega)]
  simp only [bind_some]
  rw [if_pos (by omega)]
  refine ⟨_,rfl,fun off hoff => ?_⟩
  have hdrop : (List.take len (List.drop (seg.offset+(page*4096-seg.vaddr)) file)).length = len := by
    rw [length_take,length_drop]
    omega
  by_cases hin : poff ≤ off ∧ off < poff+len
  · have hva : seg.vaddr ≤ page*4096+off ∧ page*4096+off < seg.vaddr+seg.filesz := by
      split at hq <;> omega
    have hidx : seg.offset+(page*4096-seg.vaddr)+(off-poff) = seg.offset+(page*4096+off-seg.vaddr) := by
      split at hq <;> omega
    rw [overwrite_inside _ hin.1 (by omega),expected,if_pos hva,getElem_take,
      getElem_drop,getD_eq_getElem?_getD,← hidx, getElem?_eq_getElem (by omega),getD_some]
  · rw [overwrite_outside _ (by omega),expected,if_neg]
    split at hq <;> omega

end MoQiOS.Elf
