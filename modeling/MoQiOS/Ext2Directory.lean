import Mathlib

/-!
# Directories of an ext2 volume

A directory is a list of blocks (or holes), each a chain of records. The
operations walk the chain with `readDirEntry` and patch the bytes of single
fields; a block that is tiled by records is the same as the list of them.
-/

namespace MoQiOS.Ext2Dir

open List

abbrev Bytes := List UInt8

def u16le (n : ℕ) : Bytes := [UInt8.ofNat n,UInt8.ofNat (n/2^8)]

def u32le (v : UInt32) : Bytes :=
  [UInt8.ofNat v.toNat,UInt8.ofNat (v.toNat/2^8),UInt8.ofNat (v.toNat/2^16),UInt8.ofNat (v.toNat/2^24)]

def byte (block : Bytes) (pos : ℕ) : ℕ := (block.getD pos 0).toNat

def readU16Le (block : Bytes) (pos : ℕ) : ℕ := byte block pos+byte block (pos+1)*2^8

def readU32Le (block : Bytes) (pos : ℕ) : UInt32 :=
  UInt32.ofNat (byte block pos+byte block (pos+1)*2^8+byte block (pos+2)*2^16+byte block (pos+3)*2^24)

def patch (block : Bytes) (pos : ℕ) (bytes : Bytes) : Bytes :=
  block.take pos++bytes++block.drop (pos+bytes.length)

structure DirEntryView where
  inode : UInt32
  recLen : ℕ
  nameLen : ℕ
  fileType : UInt8
  namePos : ℕ

def readDirEntry (block : Bytes) (pos bs : ℕ) : Option DirEntryView :=
  if pos%4 ≠ 0 then none
  else if bs < pos ∨ bs-pos < 8 then none
  else
    let recLen := readU16Le block (pos+4)
    let nameLen := byte block (pos+6)
    if recLen%4 ≠ 0 then none
    else if recLen < 8+nameLen then none
    else if bs-pos < recLen then none
    else some ⟨readU32Le block pos,recLen,nameLen,block.getD (pos+7) 0,pos+8⟩

def nameOf (block : Bytes) (view : DirEntryView) : Bytes := (block.drop view.namePos).take view.nameLen

/-- The records a loop over the block visits, with their positions. -/
def views (block : Bytes) (bs : ℕ) : ℕ → ℕ → List (ℕ×DirEntryView)
  | 0, _ => []
  | fuel+1, pos =>
    if pos < bs then
      match readDirEntry block pos bs with
      | none => []
      | some view => (pos,view)::views block bs fuel (pos+view.recLen)
    else []

/-- A record has at least eight bytes, so `bs` rounds are enough. -/
def records (bs : ℕ) (block : Bytes) : List (ℕ×DirEntryView) := views block bs bs 0

def isEntry (block name : Bytes) (view : DirEntryView) : Bool :=
  decide (view.inode ≠ 0) && decide (view.nameLen = name.length) && decide (nameOf block view = name)

abbrev Directory := List (Option Bytes)

def findDirEntry (bs : ℕ) (dir : Directory) (name : Bytes) : Option UInt32 :=
  dir.findSome? fun block => block.bind fun block =>
    ((records bs block).find? fun r => isEntry block name r.2).map (·.2.inode)

/-- Which block reads, writes and allocations go through. -/
structure Io where
  readOk : ℕ → Bool
  writeOk : ℕ → Bool
  allocOk : Bool

variable (inode : UInt32)

def header (recLen nameLen : ℕ) (fileType : UInt8) : Bytes :=
  u32le inode++u16le recLen++[UInt8.ofNat nameLen,fileType]

def align4 (n : ℕ) : ℕ := (n+3)/4*4

def splitLast (bs : ℕ) (block : Bytes) (target : UInt32) (name : Bytes) (fileType : UInt8) :
    Option Bytes :=
  match (records bs block).getLast? with
  | none => none
  | some (lastPos,last) =>
    let actual := align4 (8+last.nameLen)
    let wasted := last.recLen-actual
    if align4 (8+name.length) ≤ wasted then
      some (patch (patch block (lastPos+4) (u16le actual)) (lastPos+actual)
        (header target wasted name.length fileType++name))
    else none

def freshBlock (bs : ℕ) (target : UInt32) (name : Bytes) (fileType : UInt8) : Bytes :=
  header target bs name.length fileType++name++List.replicate (bs-8-name.length) 0

variable (io : Io)

def splitBlock (bs : ℕ) (dir : Directory) (target : UInt32) (name : Bytes) (fileType : UInt8) :
    Option Bytes :=
  match dir.getLast? with
  | some (some block) =>
    if io.readOk (dir.length-1) then splitLast bs block target name fileType else none
  | _ => none

/-- No value is a failure or a trap: the length of the name does not fit its
byte, or the size its 32 bits. -/
def addDirEntry (bs : ℕ) (dir : Directory) (target : UInt32) (name : Bytes) (fileType : UInt8) :
    Option Directory :=
  if 256 ≤ name.length then none
  else match splitBlock io bs dir target name fileType with
  | some block => if io.writeOk (dir.length-1) then some (dir.dropLast++[some block]) else none
  | none =>
    if io.allocOk ∧ (dir.length+1)*bs < 2^32 ∧ io.writeOk dir.length then
      some (dir++[some (freshBlock bs target name fileType)])
    else none

def editFirst (io : Io) (edit : Bytes → Option Bytes) : ℕ → Directory → Option Directory
  | _, [] => none
  | i, none::rest => (editFirst io edit (i+1) rest).map (none::·)
  | i, some block::rest =>
    if io.readOk i then
      match edit block with
      | some block' => if io.writeOk i then some (some block'::rest) else none
      | none => (editFirst io edit (i+1) rest).map (some block::·)
    else none

/-- The record before takes the length of the removed one; the first record of
a block only loses its inode. -/
def removeIn (block name : Bytes) : Option (ℕ×DirEntryView) → List (ℕ×DirEntryView) → Option Bytes
  | _, [] => none
  | prev, (pos,view)::rest =>
    if isEntry block name view then
      some (match prev with
        | some (prevPos,prev) => patch block (prevPos+4) (u16le (prev.recLen+view.recLen))
        | none => patch block pos (u32le 0))
    else removeIn block name (some (pos,view)) rest

def removeDirEntry (bs : ℕ) (dir : Directory) (name : Bytes) : Option Directory :=
  editFirst io (fun block => removeIn block name none (records bs block)) 0 dir

def retargetIn (block name : Bytes) (newInode : UInt32) (newType : Option UInt8)
    (rs : List (ℕ×DirEntryView)) : Option Bytes :=
  (rs.find? fun r => isEntry block name r.2).map fun r =>
    let block := patch block r.1 (u32le newInode)
    match newType with
    | some fileType => patch block (r.1+7) [fileType]
    | none => block

def retargetDirEntryTyped (bs : ℕ) (dir : Directory) (name : Bytes) (newInode : UInt32)
    (newType : Option UInt8) : Option Directory :=
  editFirst io (fun block => retargetIn block name newInode newType (records bs block)) 0 dir

structure Rec where
  inode : UInt32
  fileType : UInt8
  name : Bytes
  slack : Bytes
  name_lt : name.length < 256
  aligned : (8+name.length+slack.length)%4 = 0

variable (r : Rec)

def Rec.recLen : ℕ := 8+r.name.length+r.slack.length

def Rec.bytes : Bytes := header r.inode r.recLen r.name.length r.fileType++r.name++r.slack

variable (rs : List Rec)

def bytesOf : Bytes := rs.flatMap Rec.bytes

lemma header_length (recLen nameLen : ℕ) (fileType : UInt8) :
    (header inode recLen nameLen fileType).length = 8 := rfl

@[simp] lemma Rec.bytes_length : r.bytes.length = r.recLen := by
  rw [bytes,length_append,length_append,header_length,recLen]

@[simp] lemma bytesOf_nil : bytesOf [] = [] := rfl

lemma bytesOf_append (rs ts : List Rec) : bytesOf (rs++ts) = bytesOf rs++bytesOf ts :=
  flatMap_append

lemma bytesOf_cons (rs : List Rec) : bytesOf (r::rs) = r.bytes++bytesOf rs :=
  flatMap_cons

structure Tiled (bs : ℕ) (block : Bytes) (rs : List Rec) : Prop where
  eq : block = bytesOf rs
  length : block.length = bs

def viewOf (pos : ℕ) (r : Rec) : DirEntryView := ⟨r.inode,r.recLen,r.name.length,r.fileType,pos+8⟩

def layout : ℕ → List Rec → List (ℕ×DirEntryView)
  | _, [] => []
  | pos, r::rs => (pos,viewOf pos r)::layout (pos+r.recLen) rs

lemma layout_append (pos : ℕ) (rs ts : List Rec) :
    layout pos (rs++ts) = layout pos rs++layout (pos+(bytesOf rs).length) ts := by
  induction rs generalizing pos with
  | nil => rfl
  | cons r rs ih =>
    rw [cons_append,layout,layout,ih,bytesOf_cons,length_append,Rec.bytes_length,
      cons_append,add_assoc]

variable {block : Bytes} {pos : ℕ} {rest : Bytes}

lemma byte_drop (h : block.drop pos = rest) (k : ℕ) :
    byte block (pos+k) = (rest.getD k 0).toNat := by
  rw [byte,← h,getD_eq_getElem?_getD,getD_eq_getElem?_getD,getElem?_drop]

variable {bs : ℕ}

lemma readDirEntry_bytes {r : Rec}
    (h : block.drop pos = r.bytes++rest) (hpos : pos%4 = 0) (hle : pos+r.recLen ≤ bs) (hbs : bs ≤ 4096) :
    readDirEntry block pos bs = some (viewOf pos r) := by
  have hb := byte_drop h
  have hv := r.inode.toNat_lt
  have hname := r.name_lt
  have haligned := r.aligned
  have hlen : r.recLen < 2^16 := by omega
  have hrec : readU16Le block (pos+4) = r.recLen := by
    rw [readU16Le,hb 4,add_assoc,hb 5]
    simp only [Rec.bytes,header,u32le,u16le,cons_append,nil_append,getD_cons_zero,
      getD_cons_succ,UInt8.toNat_ofNat']
    omega
  have hnl : byte block (pos+6) = r.name.length := by
    rw [hb 6]
    simp only [Rec.bytes,header,u32le,u16le,cons_append,nil_append,getD_cons_zero,
      getD_cons_succ,UInt8.toNat_ofNat']
    omega
  have hinode : readU32Le block pos = r.inode := by
    have h0 := hb 0
    rw [add_zero] at h0
    rw [readU32Le,h0,hb 1,hb 2,hb 3]
    simp only [Rec.bytes,header,u32le,u16le,cons_append,nil_append,getD_cons_zero,
      getD_cons_succ,UInt8.toNat_ofNat']
    have : r.inode.toNat%2^8+r.inode.toNat/2^8%2^8*2^8+r.inode.toNat/2^16%2^8*2^16+
        r.inode.toNat/2^24%2^8*2^24 = r.inode.toNat := by omega
    rw [this,UInt32.ofNat_toNat]
  have htype : block.getD (pos+7) 0 = r.fileType := by
    have : block.getD (pos+7) 0 = (block.drop pos).getD 7 0 := by
      rw [getD_eq_getElem?_getD,getD_eq_getElem?_getD,getElem?_drop]
    rw [this,h]
    rfl
  unfold Rec.recLen at hle hlen hrec
  unfold readDirEntry
  simp only [hrec,hnl,hinode,htype]
  rw [if_neg (by omega),if_neg (by omega),if_neg (by omega),if_neg (by omega),if_neg (by omega)]
  rfl

lemma nameOf_bytes {r : Rec} (h : block.drop pos = r.bytes++rest) :
    nameOf block (viewOf pos r) = r.name := by
  have hdrop : block.drop (pos+8) = r.name++(r.slack++rest) := by
    rw [← drop_drop,h,Rec.bytes,append_assoc,append_assoc]
    rfl
  rw [nameOf,viewOf,hdrop,take_left]

lemma views_layout (hbs : bs ≤ 4096) {rs : List Rec} {fuel : ℕ}
    (h : block.drop pos = bytesOf rs) (hpos : pos%4 = 0) (hend : pos+(bytesOf rs).length = bs)
    (hfuel : (bytesOf rs).length ≤ fuel) : views block bs fuel pos = layout pos rs := by
  induction rs generalizing fuel pos with
  | nil =>
    have hge : ¬pos < bs := by
      rw [← hend]
      exact Nat.lt_irrefl _
    cases fuel with
    | zero => rfl
    | succ fuel => rw [views,if_neg hge,layout]
  | cons r rs ih =>
    -- each round moves past a record, eight bytes or more
    rw [bytesOf_cons,length_append,Rec.bytes_length] at hend hfuel
    rw [bytesOf_cons] at h
    have haligned := r.aligned
    have hlen : 8 ≤ r.recLen := by
      rw [Rec.recLen]
      omega
    cases fuel with
    | zero => omega
    | succ fuel =>
      rw [views,if_pos (by omega),readDirEntry_bytes h hpos (by omega) hbs,layout]
      have hnext : block.drop (pos+r.recLen) = bytesOf rs := by
        rw [← drop_drop,h,← Rec.bytes_length,drop_left]
      have hp : (pos+r.recLen)%4 = 0 := by
        rw [Rec.recLen]
        omega
      exact congrArg _ (ih hnext hp (by omega) (by omega))

lemma Tiled.records_eq {rs : List Rec} (h : Tiled bs block rs) (hbs : bs ≤ 4096) :
    records bs block = layout 0 rs := by
  refine views_layout hbs h.eq rfl ?_ ?_
  · rw [Nat.zero_add,← h.eq,h.length]
  · rw [← h.eq,h.length]

lemma patch_middle (a b c d : Bytes) (h : d.length = b.length) :
    patch (a++b++c) a.length d = a++d++c := by
  unfold patch
  rw [h,append_assoc a b c,take_left,← drop_drop,drop_left,drop_left]

lemma Tiled.replace {block' : Bytes} {as rs' ts : List Rec}
    (h : Tiled bs block (as++(rs++ts))) (hlen : (bytesOf rs').length = (bytesOf rs).length) (heq : block' = bytesOf (as++(rs'++ts))) :
    Tiled bs block' (as++(rs'++ts)) := by
  refine ⟨heq,?_⟩
  have hlength := h.length
  rw [h.eq,bytesOf_append,bytesOf_append,length_append,length_append] at hlength
  rw [heq,bytesOf_append,bytesOf_append,length_append,length_append,hlen,hlength]

end MoQiOS.Ext2Dir
