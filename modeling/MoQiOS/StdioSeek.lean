import Mathlib

/-!
# Seeking on a buffered stream

The read side of the C library's file layer over an arbitrary descriptor. The
buffer holds unread input or pending output. An interrupted system call is
repeated at once, so an answer here is the first that is not an interruption.
-/

namespace MoQiOS.Stdio
open List

abbrev Bytes := List UInt8

/-- No bytes from `read` mean an error, the empty list the end of the file; a
negative answer of `write` or `lseek` is an error. -/
structure Io (δ : Type) where
  read : δ → ℕ → δ×Option Bytes
  write : δ → Bytes → δ×ℤ
  lseek : δ → ℤ → ℤ → δ×ℤ
  alloc : δ → Bool

/-- A stream without a buffer has size 0. -/
structure Stream (δ : Type) where
  d : δ
  canRead : Bool
  eof : Bool
  err : Bool
  fresh : Bool
  buf : Bytes
  bufsize : ℕ
  rpos : ℕ
  rend : ℕ
  wpos : ℕ

def fileBufsize : ℕ := 4096

variable {δ : Type} (io : Io δ) (s : Stream δ)

def ensureBuf : Stream δ×Bool :=
  if s.bufsize ≠ 0 then (s,true)
  else if io.alloc s.d then ({ s with buf := replicate fileBufsize 0, bufsize := fileBufsize },true)
  else ({ s with err := true },false)

/-- Short writes are continued. Every round takes at least one byte. -/
def writeLoop : ℕ → δ → Bytes → δ×Bool
  | _, d, [] => (d,true)
  | 0, d, _ => (d,false)
  | fuel+1, d, p =>
    let a := io.write d p
    if a.2 ≤ 0 then (a.1,false) else writeLoop fuel a.1 (p.drop a.2.toNat)

def flushOut : Stream δ×Bool :=
  let p := s.buf.take s.wpos
  let a := writeLoop io p.length s.d p
  ({ s with d := a.1, err := s.err || !a.2, wpos := 0 },a.2)

/-- The answer says whether there are bytes to read. -/
def refill : Stream δ×Bool :=
  if s.eof then (s,false)
  else match io.read s.d s.bufsize with
  | (d, none) => ({ s with d := d, err := true, fresh := false },false)
  | (d, some []) => ({ s with d := d, eof := true, fresh := false, rpos := 0, rend := 0 },false)
  | (d, some p) =>
    ({ s with d := d, fresh := false, buf := p++s.buf.drop p.length, rpos := 0, rend := p.length },true)

def fill : Stream δ×Bool :=
  let a := ensureBuf io s
  if a.2 then refill io a.1 else a

def onward (a : Stream δ×Bool) (k : Stream δ → Stream δ×Bytes) : Stream δ×Bytes :=
  if a.2 then k a.1 else (a.1,[])

def beginRead (k : Stream δ → Stream δ×Bytes) : Stream δ×Bytes :=
  if s.canRead then onward (flushOut io s) k else ({ s with err := true },[])

/-- With a window that is not empty. -/
def withWindow (k : Stream δ → Stream δ×Bytes) : Stream δ×Bytes :=
  onward (if s.rpos < s.rend then (s,true) else fill io s) k

def fgetc : Stream δ×Bytes :=
  beginRead io s fun s => withWindow io s fun s =>
    ({ s with rpos := s.rpos+1 },s.buf[s.rpos]?.toList)

/-- Every round takes at least one byte. -/
def readLoop : ℕ → ℕ → Stream δ → Stream δ×Bytes
  | 0, _, s => (s,[])
  | _, 0, s => (s,[])
  | fuel+1, want+1, s => withWindow io s fun s =>
    let take := min (s.rend-s.rpos) (want+1)
    let b := readLoop fuel (want+1-take) { s with rpos := s.rpos+take }
    (b.1,(s.buf.drop s.rpos).take take++b.2)

def fread (size nmemb : ℕ) : Stream δ×Bytes :=
  if size = 0 ∨ nmemb = 0 ∨ 2^64 ≤ size*nmemb then (s,[])
  else beginRead io s (readLoop io (size*nmemb) (size*nmemb))

def getLine : ℕ → Stream δ → Stream δ×Bytes
  | 0, s => (s,[])
  | n+1, s => withWindow io s fun s =>
    let c := s.buf[s.rpos]?.toList
    let b := if c = [10] then ({ s with rpos := s.rpos+1 },[]) else getLine n { s with rpos := s.rpos+1 }
    (b.1,c++b.2)

def fgets (n : ℤ) : Stream δ×Bytes :=
  if n ≤ 1 then (s,[]) else beginRead io s (getLine io (n.toNat-1))

def ftell : ℤ :=
  let base := (io.lseek s.d 0 1).2
  if base < 0 then -1
  else if s.fresh then base+s.wpos
  else base-(s.rend-s.rpos : ℕ)+s.wpos

def adj (off whence : ℤ) : ℤ :=
  if whence = 1 ∧ s.fresh = false then off-(s.rend-s.rpos : ℕ) else off

def fseek (off whence : ℤ) : Stream δ×Bool :=
  if whence < 0 ∨ 2 < whence then (s,false)
  else
    let a := flushOut io s
    if a.2 then
      let b := io.lseek a.1.d (adj s off whence) whence
      let t := { a.1 with d := b.1, rpos := 0, rend := 0, fresh := false }
      if b.2 < 0 then (t,false) else ({ t with eof := false },true)
    else a

inductive ReadOp where
  | fgetc
  | fread (size nmemb : ℕ)
  | fgets (n : ℤ)

def readStep : ReadOp → Stream δ×Bytes
  | .fgetc => fgetc io s
  | .fread size nmemb => fread io s size nmemb
  | .fgets n => fgets io s n

def reads (s : Stream δ) : List ReadOp → List Bytes
  | [] => []
  | op::ops => (readStep io s op).2::reads (readStep io s op).1 ops

/-- Two streams that differ at most in where an empty window stands. -/
inductive Alike : Stream δ → Stream δ → Prop
  | refl (s : Stream δ) : Alike s s
  | empty (s : Stream δ) {r e : ℕ} {f : Bool} (hs : s.rend ≤ s.rpos) (he : e ≤ r) :
    Alike s { s with rpos := r, rend := e, fresh := f }

variable {io} {s t : Stream δ}

def Same (a b : Stream δ×Bytes) : Prop := a.2 = b.2 ∧ Alike a.1 b.1

lemma Same.refl (a : Stream δ×Bytes) : Same a a := ⟨rfl,.refl _⟩

variable {k : Stream δ → Stream δ×Bytes}

lemma onward_same {a b : Stream δ×Bool} (hb : a.2 = b.2) (ha : Alike a.1 b.1)
    (hk : ∀ u v, Alike u v → Same (k u) (k v)) : Same (onward a k) (onward b k) := by
  rw [onward,onward,← hb]
  split_ifs
  · exact hk _ _ ha
  · exact ⟨rfl,ha⟩

lemma refill_same {r e : ℕ} {f : Bool} (hs : s.rend ≤ s.rpos) (he : e ≤ r) :
    Same (onward (refill io s) k) (onward (refill io {s with rpos := r, rend := e, fresh := f}) k) := by
  rw [refill,refill]
  by_cases heof : s.eof = true
  · rw [if_pos heof,if_pos heof]
    exact ⟨rfl,.empty _ hs he⟩
  rw [if_neg heof,if_neg heof]
  rcases io.read s.d s.bufsize with ⟨d,_ | _ | ⟨c,p⟩⟩
  · exact ⟨rfl,.empty _ hs he⟩
  · exact .refl _
  · exact .refl _

lemma Alike.withWindow (h : Alike s t) : Same (withWindow io s k) (withWindow io t k) := by
  cases h with
  | refl => exact .refl _
  | empty hs he =>
    rw [Stdio.withWindow,Stdio.withWindow,if_neg (not_lt.mpr hs),if_neg (not_lt.mpr he),fill,fill,
      ensureBuf,ensureBuf]
    by_cases hbuf : s.bufsize ≠ 0
    · rw [if_pos hbuf,if_pos hbuf]
      exact refill_same hs he
    rw [if_neg hbuf,if_neg hbuf]
    by_cases ha : io.alloc s.d = true
    · rw [if_pos ha,if_pos ha]
      exact refill_same (s := {s with buf := _, bufsize := _}) hs he
    · rw [if_neg ha,if_neg ha]
      exact ⟨rfl,.empty _ hs he⟩

lemma Alike.beginRead (h : Alike s t) (hk : ∀ u v, Alike u v → Same (k u) (k v)) :
    Same (beginRead io s k) (beginRead io t k) := by
  cases h with
  | refl => exact .refl _
  | empty hs he =>
    rw [Stdio.beginRead,Stdio.beginRead]
    by_cases hc : s.canRead = true
    · rw [if_pos hc,if_pos hc]
      exact onward_same rfl (.empty _ hs he) hk
    · rw [if_neg hc,if_neg hc]
      exact ⟨rfl,.empty _ hs he⟩

lemma Alike.readStep (h : Alike s t) (op : ReadOp) :
    Same (readStep io s op) (readStep io t op) := by
  cases op with
  | fgetc => exact h.beginRead fun _ _ h => h.withWindow
  | fread size nmemb =>
    simp only [Stdio.readStep,fread]
    split_ifs
    · exact ⟨rfl,h⟩
    refine h.beginRead fun u v huv => ?_
    cases size*nmemb with
    | zero => exact ⟨rfl,huv⟩
    | succ want =>
      rw [readLoop,readLoop]
      exact huv.withWindow
  | fgets n =>
    simp only [Stdio.readStep,fgets]
    split_ifs
    · exact ⟨rfl,h⟩
    refine h.beginRead fun u v huv => ?_
    cases n.toNat-1 with
    | zero => exact ⟨rfl,huv⟩
    | succ n => exact huv.withWindow

lemma Alike.reads (h : Alike s t) (ops : List ReadOp) : reads io s ops = reads io t ops := by
  induction ops generalizing s t with
  | nil => rfl
  | cons op ops ih =>
    obtain ⟨hb,ha⟩ := h.readStep op
    rw [Stdio.reads,Stdio.reads,hb,ih ha]

lemma readStep_cases (io : Io δ) (op : ReadOp) :
    (∀ s : Stream δ, readStep io s op = (s,[])) ∨ ∃ k, ∀ s, readStep io s op = beginRead io s k := by
  cases op with
  | fgetc => exact .inr ⟨_,fun _ => by rw [readStep,fgetc]⟩
  | fread size nmemb =>
    by_cases hz : size = 0 ∨ nmemb = 0 ∨ 2^64 ≤ size*nmemb
    · exact .inl fun _ => if_pos hz
    · exact .inr ⟨_,fun _ => if_neg hz⟩
  | fgets n =>
    by_cases hn : n ≤ 1
    · exact .inl fun _ => if_pos hn
    · exact .inr ⟨_,fun _ => if_neg hn⟩

lemma reads_unreadable (hc : s.canRead = false) (ops : List ReadOp) :
    reads io s ops = ops.map fun _ => [] := by
  induction ops generalizing s with
  | nil => rfl
  | cons op ops ih =>
    rcases readStep_cases io op with hskip | ⟨k,hk⟩
    · rw [reads,hskip,ih hc]; rfl
    rw [reads,hk,beginRead,if_neg (by simp [hc]),ih]
    · rfl
    · exact hc

lemma reads_flushed (hok : (flushOut io s).2 = true) (ops : List ReadOp) :
    reads io (flushOut io s).1 ops = reads io s ops := by
  have hc : (flushOut io s).1.canRead = s.canRead := rfl
  rcases hread : s.canRead with _ | _
  · rw [reads_unreadable (hc.trans hread),reads_unreadable hread]
  have hagain : flushOut io (flushOut io s).1 = ((flushOut io s).1,true) := by
    simp [flushOut,writeLoop]
  have hbegin : ∀ k, beginRead io (flushOut io s).1 k = beginRead io s k := by
    intro k
    rw [beginRead,beginRead,if_pos (hc.trans hread),if_pos hread,hagain]
    exact congrArg (onward · k) (Prod.ext rfl hok.symm)
  induction ops with
  | nil => rfl
  | cons op ops ih =>
    rcases readStep_cases io op with hskip | ⟨k,hk⟩
    · rw [reads,reads,hskip,hskip,ih]
    · rw [reads,reads,hk,hk,hbegin]

/-- A seek that the descriptor refuses, after the pending output went out. -/
def Refused (io : Io δ) (s : Stream δ) (off whence : ℤ) : Prop :=
  0 ≤ whence ∧ whence ≤ 2 ∧ (flushOut io s).2 = true ∧ (fseek io s off whence).2 = false

/-- Nothing unread, and the pending output goes where the position says. -/
def Settled (io : Io δ) (s : Stream δ) : Prop :=
  s.rend ≤ s.rpos ∧ ftell io (flushOut io s).1 = ftell io s

def file (p : Bytes) : Io ℕ where
  read d n := (d+((p.drop d).take n).length,some ((p.drop d).take n))
  write d q := (d+q.length,q.length)
  lseek d off whence :=
    let q := (if whence = 0 then 0 else if whence = 1 then (d : ℤ) else p.length)+off
    if q < 0 then (d,-22) else (q.toNat,q)
  alloc _ := true

lemma file_refuses (p : Bytes) (d : ℕ) (off whence : ℤ) (h : ((file p).lseek d off whence).2 < 0) :
    ((file p).lseek d off whence).1 = d := by
  simp only [file] at h ⊢
  split_ifs at h ⊢ <;> first | rfl | exact absurd h ‹_›

def opened : Stream ℕ := ⟨0,true,false,false,false,replicate 4 0,4,0,0,0⟩

end MoQiOS.Stdio
