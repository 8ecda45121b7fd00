import MoQiOS.Runs
import MoQiOS.Writeback

/-!
# Runs of the writeback cache

Overlay and flush take the extents in slot order. That is the order of the
calls as long as no extent is written below one in a later slot.
-/

namespace MoQiOS.Writeback
open ByteImages Runs Function List
set_option maxRecDepth 9000

def apply (s : State) (file : File) (g : ℕ → UInt8) (i : ℕ) : ℕ → UInt8 :=
  if s.inUseBm i ∧ (s.buffers i).file = file then
    overwrite g (s.buffers i).byteOffset (s.buffers i).data
  else g

def view (s : State) (file : File) : ℕ → UInt8 :=
  (List.range bufferCount).foldl (apply s file) (s.disk file)

structure Staged (s : State) : Prop where
  view : ∀ file, view s file = s.written file
  slot : ∀ i, s.inUseBm i = true → i < bufferCount ∧ s.dirtyBm i = true ∧
    (s.buffers i).dirty = true ∧ (s.buffers i).byteOffset+(s.buffers i).data.length < 2^64 ∧
    s.opened (s.buffers i).file.fsType (s.buffers i).fileIdx = (s.buffers i).file.inodeId
  dirty : ∀ i, s.dirtyBm i = true → s.inUseBm i = true

lemma start_staged (opened : FsType → ℕ → UInt64) (disk : File → ℕ → UInt8) :
    Staged (start opened disk) := by
  refine ⟨fun file => ?_,fun i hi => (by cases hi),fun i hi => (by cases hi)⟩
  have hid : ∀ (l : List ℕ) (g : ℕ → UInt8), l.foldl (apply (start opened disk) file) g = g := by
    intro l
    induction l with
    | nil => exact fun g => rfl
    | cons i l ih => exact fun g => ih g
  exact hid _ _

def targetSlot (s : State) (file : File) (byteOffset : ℕ) : Option ℕ :=
  match findBufferLocked s file byteOffset with
  | some i => some i
  | none => freeSlot s

/-- Extents of the file in later slots lie apart from the bytes to be written. -/
def InOrder (s : State) (file : File) (byteOffset : ℕ) (data : Bytes) : Prop :=
  ∀ i ∈ targetSlot s file byteOffset, ∀ j, j < bufferCount → i < j →
    s.inUseBm j = true → (s.buffers j).file = file →
    byteOffset+data.length ≤ (s.buffers j).byteOffset ∨
      (s.buffers j).byteOffset+(s.buffers j).data.length ≤ byteOffset

variable {i byteOffset : ℕ} {s t : State} {file : File} {data : Bytes}

variable {l : List ℕ}

lemma foldl_same (hs : ∀ j ∈ l, ∀ g, apply t file g j = apply s file g j) (g : ℕ → UInt8) :
    l.foldl (apply t file) g = l.foldl (apply s file) g := by
  induction l generalizing g with
  | nil => rfl
  | cons j l ih =>
    rw [foldl_cons,foldl_cons,hs j mem_cons_self]
    exact ih (fun k hk => hs k (mem_cons_of_mem j hk)) _

lemma view_around (hi : i < bufferCount) (hother : ∀ j, j ≠ i → t.buffers j = s.buffers j ∧
      t.inUseBm j = s.inUseBm j ∧ t.dirtyBm j = s.dirtyBm j) : ∃ before after : List ℕ,
    (∀ j ∈ before, j < i) ∧ (∀ j ∈ after, i < j ∧ j < bufferCount) ∧ ∀ file,
      view s file = after.foldl (apply s file)
        (apply s file (before.foldl (apply s file) (s.disk file)) i) ∧
      view t file = after.foldl (apply s file)
        (apply t file (before.foldl (apply s file) (t.disk file)) i) := by
  obtain ⟨before,after,heq⟩ := append_of_mem (mem_range.mpr hi)
  have hsorted := pairwise_lt_range (n := bufferCount)
  rw [heq,pairwise_append,pairwise_cons] at hsorted
  have hlow : ∀ j ∈ before, j < i := fun j hj => hsorted.2.2 j hj i mem_cons_self
  have hhigh : ∀ j ∈ after, i < j ∧ j < bufferCount := by
    intro j hj
    refine ⟨hsorted.2.1.1 j hj,mem_range.mp ?_⟩
    rw [heq]
    simp [hj]
  have happly : ∀ file j, j ≠ i → ∀ g, apply t file g j = apply s file g j := by
    intro file j hj g
    rw [apply,apply,(hother j hj).1,(hother j hj).2.1]
  refine ⟨before,after,hlow,hhigh,fun file => ?_⟩
  rw [view,view,heq,foldl_append,foldl_append,foldl_cons,foldl_cons,
    foldl_same fun j hj => happly file j (hlow j hj).ne,
    foldl_same fun j hj => happly file j (hhigh j hj).1.ne']
  exact ⟨rfl,rfl⟩

lemma foldl_overwrite (hl : ∀ j ∈ l, s.inUseBm j = true → (s.buffers j).file = file →
      byteOffset+data.length ≤ (s.buffers j).byteOffset ∨
        (s.buffers j).byteOffset+(s.buffers j).data.length ≤ byteOffset) (g : ℕ → UInt8) :
    l.foldl (apply s file) (overwrite g byteOffset data) =
      overwrite (l.foldl (apply s file) g) byteOffset data := by
  induction l generalizing g with
  | nil => rfl
  | cons j l ih =>
    have hj : apply s file (overwrite g byteOffset data) j =
        overwrite (apply s file g j) byteOffset data := by
      rw [apply,apply]
      split_ifs with hin
      · exact overwrite_comm g (hl j mem_cons_self hin.1 hin.2)
      · rfl
    rw [foldl_cons,foldl_cons,hj]
    exact ih (fun k hk => hl k (mem_cons_of_mem j hk)) _

structure Stages (s t : State) (i : ℕ) (file : File) (byteOffset : ℕ) (data : Bytes) : Prop where
  lt : i < bufferCount
  other : ∀ j, j ≠ i → t.buffers j = s.buffers j ∧ t.inUseBm j = s.inUseBm j ∧
    t.dirtyBm j = s.dirtyBm j
  used : t.inUseBm i = true ∧ t.dirtyBm i = true ∧ (t.buffers i).dirty = true
  key : (t.buffers i).file = file ∧ (t.buffers i).byteOffset = byteOffset
  bytes : ∃ old, (t.buffers i).data = data++old.drop data.length ∧
    byteOffset+old.length < 2^64 ∧
    ∀ g, apply s file g i = overwrite g byteOffset old
  elsewhere : ∀ file', file' ≠ file → ∀ g, apply s file' g i = g
  target : t.opened file.fsType (t.buffers i).fileIdx = file.inodeId
  opened : t.opened = s.opened
  disk : t.disk = s.disk
  written : t.written = update s.written file
    (overwrite (s.written file) byteOffset data)

lemma Staged.stage (h : Staged s) (hs : Stages s t i file byteOffset data)
    (hlen : byteOffset+data.length < 2^64)
    (hlater : ∀ j, j < bufferCount → i < j → s.inUseBm j = true → (s.buffers j).file = file →
      byteOffset+data.length ≤ (s.buffers j).byteOffset ∨
        (s.buffers j).byteOffset+(s.buffers j).data.length ≤ byteOffset) : Staged t := by
  obtain ⟨before,after,-,hlt,hview⟩ := view_around hs.lt hs.other
  obtain ⟨old,hdata,hold,happly⟩ := hs.bytes
  refine ⟨fun file' => ?_,fun j hj => ?_,fun j hj => ?_⟩
  · rw [(hview file').2,hs.disk,hs.written]
    by_cases hf : file' = file
    · subst hf
      have hself : ∀ g, apply t file' g i = overwrite (apply s file' g i) byteOffset data := by
        intro g
        rw [apply,if_pos ⟨hs.used.1,hs.key.1⟩,hs.key.2,hdata,happly,overwrite_again]
      rw [hself,update_self,← h.view,(hview file').1]
      exact foldl_overwrite (fun j hj => hlater j (hlt j hj).2 (hlt j hj).1) _
    have hself : ∀ g, apply t file' g i = g := by
      intro g
      rw [apply,if_neg]
      rintro ⟨-,heq⟩
      exact hf (heq.symm.trans hs.key.1)
    rw [hself,update_of_ne hf,← h.view,(hview file').1,hs.elsewhere file' hf]
  · by_cases hji : j = i
    · subst hji
      rw [hs.key.1,hs.key.2,hdata]
      refine ⟨hs.lt,hs.used.2.1,hs.used.2.2,?_,hs.target⟩
      rw [length_append,length_drop]
      omega
    · obtain ⟨hbuf,huse,hdirty⟩ := hs.other j hji
      rw [hbuf,hdirty,hs.opened]
      rw [huse] at hj
      exact h.slot j hj
  · by_cases hji : j = i
    · rw [hji,hs.used.1]
    obtain ⟨-,huse,hdirty⟩ := hs.other j hji
    rw [huse]
    rw [hdirty] at hj
    exact h.dirty j hj

lemma findBuffer_some
    (hf : findBufferLocked s file byteOffset = some i) : i < bufferCount ∧ s.inUseBm i = true ∧
    (s.buffers i).file = file ∧ (s.buffers i).byteOffset = byteOffset := by
  have hmem := mem_of_find?_eq_some hf
  have htest := find?_some hf
  simp only [Bool.and_eq_true,decide_eq_true_eq] at htest
  exact ⟨mem_range.mp hmem,htest.1.1,htest.1.2,htest.2⟩

lemma freeSlot_some (hf : freeSlot s = some i) : i < bufferCount ∧ s.inUseBm i = false := by
  have hmem := mem_of_find?_eq_some hf
  have htest := find?_some hf
  simp only [Bool.not_eq_true'] at htest
  exact ⟨mem_range.mp hmem,htest⟩

variable {fileIdx : ℕ}

lemma Staged.extent (h : Staged s) (data : Bytes) (ht : targetSlot s file byteOffset = some i)
    (hopen : s.opened file.fsType fileIdx = file.inodeId) (hlen : byteOffset+data.length < 2^64) :
    ∃ t, writeExtentLocked true s file fileIdx byteOffset data = (t,true) ∧
      Stages s t i file byteOffset data := by
  rw [targetSlot] at ht
  rw [writeExtentLocked]
  rcases hf : findBufferLocked s file byteOffset with _ | k
  · rw [hf] at ht
    dsimp only at ht ⊢
    rw [findOrAllocBufferLocked,ht]
    obtain ⟨hlt,hfree⟩ := freeSlot_some ht
    refine ⟨_,rfl,hlt,fun j hj => ?_,⟨?_,?_,?_⟩,⟨?_,?_⟩,⟨[],?_,?_,fun g => ?_⟩,fun file' _ g => ?_,?_,
      rfl,rfl,?_⟩
    · simp [fill,claim,State.setBuffer,hj]
    · simp [fill,claim,State.setBuffer]
    · simp [fill,claim,State.setBuffer]
    · simp [fill,claim,State.setBuffer]
    · simp [fill,claim,State.setBuffer]
    · simp [fill,claim,State.setBuffer]
    · simp [fill,claim,State.setBuffer]
    · simp only [length_nil]
      omega
    · rw [apply,hfree,overwrite_nil]
      simp
    · rw [apply,hfree]
      simp
    · simpa [fill,claim,State.setBuffer] using hopen
    · simp [fill,claim,State.setBuffer]
  · rw [hf] at ht
    cases ht
    obtain ⟨hlt,huse,hfile,hoff⟩ := findBuffer_some hf
    obtain ⟨-,-,-,hroom,htarget⟩ := h.slot i huse
    refine ⟨_,rfl,hlt,fun j hj => ?_,⟨huse,?_,?_⟩,⟨?_,?_⟩,⟨(s.buffers i).data,?_,?_,fun g => ?_⟩,
      fun file' hne g => ?_,?_,rfl,rfl,?_⟩
    · simp [fill,hj]
    · simp [fill]
    · simp [fill]
    · simpa [fill] using hfile
    · simpa [fill] using hoff
    · simp [fill]
    · rw [← hoff]
      exact hroom
    · rw [apply,if_pos ⟨huse,hfile⟩,hoff]
    · rw [apply,if_neg]
      rintro ⟨-,heq⟩
      exact hne (heq.symm.trans hfile)
    · simpa [fill,hfile] using htarget
    · simp [fill,hfile,hoff]

/-- A condition on every extent of a write, in the state in which it is staged. -/
def Chunks (ok : State → ℕ → Bytes → Prop) (file : File) (fileIdx : ℕ) :
    ℕ → State → ℕ → Bytes → Prop
  | 0, _, _, _ => True
  | fuel+1, s, byteOffset, data => data = [] ∨ (ok s byteOffset (data.take pageSize) ∧
      Chunks ok file fileIdx fuel
        (writeExtentLocked true s file fileIdx byteOffset (data.take pageSize)).1
        (byteOffset+(data.take pageSize).length) (data.drop pageSize))

def Roomy (file : File) (s : State) (byteOffset : ℕ) (_ : Bytes) : Prop :=
  (targetSlot s file byteOffset).isSome = true

lemma Staged.writeLoop {fuel : ℕ} (h : Staged s) (hfuel : data.length ≤ fuel)
    (hopen : s.opened file.fsType fileIdx = file.inodeId) (hlen : byteOffset+data.length < 2^64)
    (hroom : Chunks (Roomy file) file fileIdx fuel s byteOffset data)
    (horder : Chunks (fun s => InOrder s file) file fileIdx fuel s byteOffset data) :
    Staged (writeLoop true file fileIdx fuel s byteOffset data).1 ∧
    (writeLoop true file fileIdx fuel s byteOffset data).2 = data.length ∧
    (writeLoop true file fileIdx fuel s byteOffset data).1.written =
      update s.written file (overwrite (s.written file) byteOffset data) := by
  induction fuel generalizing s byteOffset data with
  | zero =>
    obtain rfl : data = [] := length_eq_zero_iff.mp (Nat.le_zero.mp hfuel)
    exact ⟨h,rfl,by simp [Writeback.writeLoop]⟩
  | succ fuel ih =>
    rw [Writeback.writeLoop]
    by_cases hd : data = []
    · rw [if_pos hd,hd]
      exact ⟨h,rfl,by simp⟩
    rw [if_neg hd]
    rw [Chunks,or_iff_right hd] at hroom horder
    obtain ⟨i,hi⟩ := Option.isSome_iff_exists.mp hroom.1
    have htake : (data.take pageSize).length ≤ data.length := by simp
    obtain ⟨t,ht,hst⟩ := h.extent (data.take pageSize) hi hopen (by omega)
    have hstaged := h.stage hst (by omega) (horder.1 i hi)
    have hpos : 0 < data.length := length_pos_iff.mpr hd
    have hchunk : (data.take pageSize).length+(data.drop pageSize).length = data.length := by
      rw [← length_append,take_append_drop]
    have hsome : 0 < (data.take pageSize).length := by
      rw [length_take,pageSize]
      omega
    dsimp only
    rw [ht] at hroom horder ⊢
    obtain ⟨hs,hdone,hwritten⟩ := ih hstaged (by omega) (by rw [hst.opened]; exact hopen)
      (by omega) hroom.2 horder.2
    refine ⟨hs,?_,?_⟩
    · show _+(data.take pageSize).length = data.length
      rw [hdone]
      omega
    · refine hwritten.trans ?_
      rw [hst.written,update_self,update_idem,← overwrite_append,take_append_drop]

lemma overlaySlot_window (file : File)
    (hroom : s.inUseBm i = true → (s.buffers i).byteOffset+(s.buffers i).data.length < 2^64)
    (g : ℕ → UInt8) (off len reach : ℕ) :
    (overlaySlot s file off (window g off len,reach) i).1 = window (apply s file g i) off len := by
  rw [overlaySlot,apply]
  split_ifs with hin
  · have hb := hroom hin.1
    simp only [overlap,window_length,saturate]
    split_ifs with hzero hlo
    · refine ext_getElem (by simp) fun k hk hk' => ?_
      rw [window_getElem,window_getElem,overwrite_outside]
      simp at hk
      omega
    · refine ext_getElem (by simp) fun k hk hk' => ?_
      rw [window_getElem,window_getElem,overwrite_outside]
      simp at hk
      omega
    · dsimp only
      exact window_splice g (by omega) (by omega) (by omega) (by omega) (by omega)
  · rfl

lemma Staged.overlay (h : Staged s) (file : File) (off len : ℕ) :
    (overlayStaged s file off (window (s.disk file) off len)).1 = window (s.written file) off len := by
  have hfold : ∀ (l : List ℕ) (g : ℕ → UInt8) (reach : ℕ),
      (l.foldl (overlaySlot s file off) (window g off len,reach)).1 =
        window (l.foldl (apply s file) g) off len := by
    intro l
    induction l with
    | nil => exact fun g reach => rfl
    | cons i l ih =>
      intro g reach
      have hslot := overlaySlot_window file (fun hi => (h.slot i hi).2.2.2.1) g off len reach
      rw [foldl_cons,foldl_cons,← ih (apply s file g i)
        (overlaySlot s file off (window g off len,reach) i).2,← hslot]
  rw [overlayStaged,hfold,← h.view]
  rfl

def Unused (s : State) (file : File) (i : ℕ) : Prop :=
  ¬(s.inUseBm i = true ∧ (s.buffers i).file = file)

lemma Unused.apply (h : Unused s file i) (g : ℕ → UInt8) : apply s file g i = g := if_neg h

lemma foldl_unused (hl : ∀ i ∈ l, Unused s file i)
    (g : ℕ → UInt8) : l.foldl (apply s file) g = g := by
  induction l generalizing g with
  | nil => rfl
  | cons i l ih =>
    rw [foldl_cons,(hl i mem_cons_self).apply]
    exact ih (fun j hj => hl j (mem_cons_of_mem i hj)) g

lemma Staged.flushSlot (h : Staged s)
    (hi : i < bufferCount) (hbelow : ∀ j, j < i → Unused s file j) :
    ∃ t, flushSlot (fun _ => true) file (s,true) i = (t,true) ∧ Staged t ∧
      (∀ j, j < i+1 → Unused t file j) ∧ t.written = s.written := by
  rw [Writeback.flushSlot]
  by_cases huse : s.inUseBm i = true ∧ (s.buffers i).file = file
  · obtain ⟨-,hdirty,hflag,hlen,htarget⟩ := h.slot i huse.1
    rw [if_pos ⟨hdirty,huse.2,hflag⟩]
    refine ⟨_,rfl,?_⟩
    set t : State := {(s.setDirty i false).writeOut (s.buffers i) with
      inUseBm := update (s.setDirty i false).inUseBm i false} with ht
    have hfile : (⟨(s.buffers i).file.fsType,s.opened (s.buffers i).file.fsType
        (s.buffers i).fileIdx⟩ : File) = file := by
      rw [htarget,← huse.2]
    have hdisk : t.disk = update s.disk file (overwrite (s.disk file)
        (s.buffers i).byteOffset (s.buffers i).data) := by
      rw [← hfile]
      rfl
    have hother : ∀ j, j ≠ i → t.buffers j = s.buffers j ∧ t.inUseBm j = s.inUseBm j ∧
        t.dirtyBm j = s.dirtyBm j :=
      fun j hj => ⟨update_of_ne hj _ _,update_of_ne hj _ _, update_of_ne hj _ _⟩
    have hself : t.inUseBm i = false ∧ t.dirtyBm i = false :=
      ⟨update_self _ _ _,update_self _ _ _⟩
    have hunused : ∀ j, j < i+1 → Unused t file j := by
      intro j hj
      by_cases hji : j = i
      · rw [Unused,hji,hself.1]
        simp
      · rw [Unused,(hother j hji).1,(hother j hji).2.1]
        exact hbelow j (by omega)
    refine ⟨⟨fun file' => ?_,fun j hj => ?_,fun j hj => ?_⟩,hunused,rfl⟩
    · obtain ⟨before,after,hlow,-,hview⟩ := view_around hi hother
      refine (hview file').2.trans (Eq.trans ?_ ((hview file').1.symm.trans (h.view file')))
      rw [Unused.apply (by rw [Unused,hself.1]; simp),hdisk]
      by_cases hf : file' = file
      · subst hf
        have hun : ∀ g, before.foldl (apply s file') g = g :=
          foldl_unused fun j hj => hbelow j (hlow j hj)
        rw [hun,hun,update_self,Writeback.apply,if_pos huse]
      · rw [update_of_ne hf,Unused.apply fun hu => hf (hu.2.symm.trans huse.2)]
    · have hji : j ≠ i := by
        rintro rfl
        rw [hself.1] at hj
        cases hj
      rw [(hother j hji).2.1] at hj
      rw [(hother j hji).1,(hother j hji).2.2]
      exact h.slot j hj
    · have hji : j ≠ i := by
        rintro rfl
        rw [hself.2] at hj
        cases hj
      rw [(hother j hji).2.2] at hj
      rw [(hother j hji).2.1]
      exact h.dirty j hj
  · rw [if_neg fun hc => huse ⟨h.dirty i hc.1,hc.2.1⟩]
    refine ⟨s,rfl,h,fun j hj => ?_,rfl⟩
    by_cases hji : j = i
    · rw [hji]
      exact huse
    · exact hbelow j (by omega)

lemma Staged.flush (h : Staged s) (file : File) : ∃ t,
    flushFile (fun _ => true) s file = (t,true) ∧ Staged t ∧ t.written = s.written ∧
    t.disk file = s.written file := by
  have hprefix : ∀ n, n ≤ bufferCount → ∃ t,
      (List.range n).foldl (Writeback.flushSlot (fun _ => true) file) (s,true) = (t,true) ∧
      Staged t ∧ (∀ j, j < n → Unused t file j) ∧ t.written = s.written := by
    intro n
    induction n with
    | zero => exact fun _ => ⟨s,rfl,h,fun j hj => absurd hj (Nat.not_lt_zero j),rfl⟩
    | succ n ih =>
      intro hn
      obtain ⟨t,ht,hst,hun,hw⟩ := ih (by omega)
      obtain ⟨u,hu,hsu,hun',hw'⟩ := hst.flushSlot (Nat.lt_of_succ_le hn) hun
      refine ⟨u,?_,hsu,hun',hw'.trans hw⟩
      rw [range_succ,foldl_append,ht]
      exact hu
  obtain ⟨t,ht,hst,hun,hw⟩ := hprefix bufferCount le_rfl
  refine ⟨t,ht,hst,hw,?_⟩
  have hview := hst.view file
  rw [Writeback.view,foldl_unused fun j hj => hun j (mem_range.mp hj)] at hview
  rw [hview,hw]

/-- Every extent of a write finds a slot, and its offsets are words. -/
def Ready (s : State) : Op → Prop
  | .write file fileIdx byteOffset data => s.opened file.fsType fileIdx = file.inodeId ∧
    byteOffset+data.length < 2^64 ∧
    Chunks (Roomy file) file fileIdx data.length s byteOffset data
  | _ => True

def Ordered (s : State) : Op → Prop
  | .write file fileIdx byteOffset data =>
    Chunks (fun s => InOrder s file) file fileIdx data.length s byteOffset data
  | _ => True

def OrderedNext : State → Op → State → Prop :=
  Guarded (fun s op => Ready s op ∧ Ordered s op) step

def applied (written : File → ℕ → UInt8) : Op → File → ℕ → UInt8
  | .write file _ byteOffset data =>
    update written file (overwrite (written file) byteOffset data)
  | _ => written

lemma Staged.next (h : Staged s) (op : Op) (hn : OrderedNext s op t) :
    Staged t ∧ t.written = applied s.written op := by
  obtain ⟨⟨hr,ho⟩,rfl⟩ := hn
  cases op with
  | write file fileIdx byteOffset data =>
    obtain ⟨hs,-,hw⟩ := h.writeLoop le_rfl hr.1 hr.2.1 hr.2.2 ho
    exact ⟨hs,hw⟩
  | flush file =>
    obtain ⟨t,ht,hs,hw,-⟩ := h.flush file
    have heq : step s (.flush file) = t := congrArg Prod.fst ht
    rw [heq]
    exact ⟨hs,hw⟩
  | tick => exact ⟨⟨h.view,h.slot,h.dirty⟩,rfl⟩

/-- Reads and the flushed disk agree with the writes in the order of the calls. -/
structure ProgramOrder (disk : File → ℕ → UInt8) (ops : List Op) (s : State) : Prop where
  reads : ∀ file off len, (overlayStaged s file off (window (s.disk file) off len)).1 =
    window (ops.foldl applied disk file) off len
  flushed : ∀ file, ((flushFile (fun _ => true) s file).1).disk file = ops.foldl applied disk file

theorem staged_in_program_order (opened : FsType → ℕ → UInt64) (disk : File → ℕ → UInt8)
    (ops : List Op)
    (h : Admissible (fun s op => Ready s op ∧ Ordered s op) step (start opened disk) ops) :
    ProgramOrder disk ops (run step (start opened disk) ops) := by
  have hrun : ∀ (ops : List Op) (s : State), Staged s →
      Admissible (fun s op => Ready s op ∧ Ordered s op) step s ops →
      Staged (run step s ops) ∧ (run step s ops).written = ops.foldl applied s.written := by
    intro ops
    induction ops with
    | nil => exact fun s hs _ => ⟨hs,rfl⟩
    | cons op ops ih =>
      intro s hs hadm
      obtain ⟨hnext,hw⟩ := hs.next op ⟨hadm.1,rfl⟩
      obtain ⟨hst,hrest⟩ := ih _ hnext hadm.2
      refine ⟨hst,?_⟩
      rw [foldl_cons, ← hw]
      exact hrest
  obtain ⟨hs,hw⟩ := hrun ops _ (start_staged opened disk) h
  refine ⟨fun file off len => ?_,fun file => ?_⟩
  · rw [hs.overlay, hw]
    rfl
  · obtain ⟨t,ht,-,-,hd⟩ := hs.flush file
    rw [ht, hd, hw]
    rfl

instance decidableChunks {ok : State → ℕ → Bytes → Prop} [∀ s off data, Decidable (ok s off data)]
    (file : File) (fileIdx : ℕ) : ∀ (fuel : ℕ) (s : State) (off : ℕ) (data : Bytes),
    Decidable (Chunks ok file fileIdx fuel s off data)
  | 0, _, _, _ => .isTrue trivial
  | fuel+1, s, off, data =>
    haveI : Decidable (Chunks ok file fileIdx fuel _ _ _) := decidableChunks file fileIdx fuel
      (writeExtentLocked true s file fileIdx off (data.take pageSize)).1
      (off+(data.take pageSize).length) (data.drop pageSize)
    inferInstanceAs (Decidable (_ ∨ (_ ∧ _)))

instance decidableRoomy (file : File) (s : State) (off : ℕ) (data : Bytes) :
    Decidable (Roomy file s off data) := inferInstanceAs (Decidable (_ = true))

instance decidableInOrder (s : State) (file : File) (off : ℕ) (data : Bytes) :
    Decidable (InOrder s file off data) :=
  inferInstanceAs (Decidable (∀ i ∈ targetSlot s file off, ∀ j, j < bufferCount → i < j →
    s.inUseBm j = true → (s.buffers j).file = file → (_ ∨ _)))

instance decidableReady (s : State) : ∀ op, Decidable (Ready s op)
  | .write _ _ _ _ => inferInstanceAs (Decidable (_ ∧ _ ∧ _))
  | .flush _ | .tick => .isTrue trivial

instance decidableOrdered (s : State) : ∀ op, Decidable (Ordered s op)
  | .write file fileIdx off data => inferInstanceAs (Decidable (Chunks _ file fileIdx _ s off data))
  | .flush _ | .tick => .isTrue trivial

def file3 : File := ⟨.ext2,3⟩

def crossingWrites : List Op := [.write file3 0 0 [1,1],.write file3 0 1 [2],.write file3 0 0 [3,3]]

theorem crossing_writes_reordered :
    let s := run step (start (fun _ _ => 3) (fun _ _ => 0)) crossingWrites
    Admissible Ready step (start (fun _ _ => 3) (fun _ _ => 0)) crossingWrites ∧
      window (crossingWrites.foldl applied (fun _ _ => 0) file3) 0 2 = [3,3] ∧
      (overlayStaged s file3 0 (window (s.disk file3) 0 2)).1 = [3,2] ∧
      ((flushFile (fun _ => true) s file3).1).disk file3 1 = 2 := by
  with_unfolding_all decide

theorem staged_in_program_order_twice :
    let s := run step (start (fun _ _ => 3) (fun _ _ => 0)) (crossingWrites.take 2)
    (overlayStaged s file3 0 [0,0]).1 = [1,2] ∧
      ProgramOrder (fun _ _ => 0) (crossingWrites.take 2) s :=
  ⟨by with_unfolding_all decide,staged_in_program_order _ _ _ (by with_unfolding_all decide)⟩

end MoQiOS.Writeback
