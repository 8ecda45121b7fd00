import MoQiOS.RingMemory
import MoQiOS.Runs

/-!
# The kernel message ring

Positions count the bytes of the stream that were kept, from the first append
on. The ring holds the end of that stream, and a reader has a cursor in it.
-/

namespace MoQiOS.KmsgRing
open RingMemory Runs List

abbrev Bytes := List UInt8

structure Ring where
  buf : ℕ → UInt8
  start : ℕ
  len : ℕ
  total : ℕ

def Ring.oldestPos (r : Ring) : ℕ := r.total-r.len

variable (capacity : ℕ)

def dropOldestLine (r : Ring) : Ring :=
  match (List.range r.len).find? fun i => r.buf ((r.start+i)%capacity) == 10 with
  | some i => { r with start := (r.start+(i+1))%capacity, len := r.len-(i+1) }
  | none => { r with len := 0 }

/-- The loop that makes room for `n` bytes; a round drops at least one byte. -/
def makeRoom (n : ℕ) : ℕ → Ring → Ring
  | 0, r => r
  | fuel+1, r =>
    if n ≤ capacity-r.len ∨ r.len = 0 then r else makeRoom n fuel (dropOldestLine capacity r)

/-- The loop that copies up to the end of the buffer, then from its start. -/
def copyIn : ℕ → Bytes → Ring → Ring
  | 0, _, r => r
  | fuel+1, rest, r =>
    if rest.length = 0 then r
    else
      let writeIdx := (r.start+r.len)%capacity
      let chunk := min rest.length (capacity-writeIdx)
      copyIn fuel (rest.drop chunk)
        { r with
          buf := store r.buf writeIdx (rest.take chunk)
          len := r.len+chunk
          total := r.total+chunk }

def cut (line : Bytes) : Bytes :=
  if capacity < line.length then line.drop (line.length-capacity) else line

def appendLine (r : Ring) (lineIn : Bytes) : Ring :=
  let line := cut capacity lineIn
  copyIn capacity line.length line (makeRoom capacity line.length r.len r)

def read (r : Ring) (readPos n : ℕ) : Bytes×ℕ :=
  let pos := if readPos < r.oldestPos then r.oldestPos else readPos
  if r.total ≤ pos ∨ n = 0 then ([],pos)
  else
    let off := pos-r.oldestPos
    let idx := (r.start+off)%capacity
    let n := min (min n (r.len-off)) (capacity-idx)
    (load r.buf idx n,pos+n)

def Ring.stored (r : Ring) : Bytes := held r.buf capacity r.start r.len

/-- A log without its first line, or empty if no line ends in it. -/
def dropLine (log : Bytes) : Bytes := log.drop (log.findIdx (· == 10)+1)

/-- A ring, all that was kept, and a reader with the bytes it got and their positions. -/
structure Session where
  ring : Ring
  stream : Bytes
  cursor : ℕ
  got : List (UInt8×ℕ)

inductive Op where
  | append (line : Bytes)
  | read (n : ℕ)

def step (s : Session) : Op → Session
  | .append line =>
    { s with ring := appendLine capacity s.ring line, stream := s.stream++cut capacity line }
  | .read n =>
    let r := read capacity s.ring s.cursor n
    { s with cursor := r.2, got := s.got++r.1.zipIdx (r.2-r.1.length) }

def start (cursor : ℕ) : Session := ⟨⟨fun _ => 0,0,0,0⟩,[],cursor,[]⟩

structure Keeps (r : Ring) (stream : Bytes) : Prop where
  fits : r.len ≤ capacity
  total : r.total = stream.length
  stored : r.stored capacity <:+ stream

variable {r : Ring} {stream : Bytes} {c n : ℕ}

lemma stored_length (c : ℕ) (r : Ring) : (r.stored c).length = r.len := held_length ..

lemma dropLine_suffix (log : Bytes) (k : ℕ) : dropLine^[k] log <:+ log := by
  induction k generalizing log with
  | zero => exact suffix_refl log
  | succ k ih => exact (ih _).trans (drop_suffix _ _)

lemma dropOldestLine_spec (c : ℕ) (r : Ring) :
    (dropOldestLine c r).stored c = dropLine (r.stored c) ∧ (dropOldestLine c r).total = r.total := by
  rw [dropOldestLine,dropLine]
  split
  · rename_i i hi
    obtain ⟨hp,hmem,hfirst⟩ := find?_range_eq_some.mp hi
    rw [mem_range] at hmem
    have hat : (r.stored c).findIdx (· == 10) = i := by
      rw [findIdx_eq (by rwa [stored_length])]
      simpa [Ring.stored,held] using ⟨by simpa using hp,by simpa using hfirst⟩
    rw [hat]
    exact ⟨held_drop r.buf c r.start hmem,rfl⟩
  · rename_i hnone
    have hat : (r.stored c).findIdx (· == 10) = (r.stored c).length := by
      rw [findIdx_eq_length]
      simpa [Ring.stored,held] using hnone
    rw [hat,drop_of_length_le (Nat.le_succ _)]
    exact ⟨rfl,rfl⟩

lemma makeRoom_spec (c n fuel : ℕ) (r : Ring) : (makeRoom c n fuel r).total = r.total ∧
    (r.len ≤ fuel → n ≤ c-(makeRoom c n fuel r).len ∨ (makeRoom c n fuel r).len = 0) ∧
    ∃ k, (makeRoom c n fuel r).stored c = dropLine^[k] (r.stored c) ∧
      ∀ j < k, c-(dropLine^[j] (r.stored c)).length < n := by
  induction fuel generalizing r with
  | zero => exact ⟨rfl,fun h => .inr (Nat.le_zero.mp h),0,rfl,nofun⟩
  | succ fuel ih =>
    rw [makeRoom]
    split_ifs with hroom
    · exact ⟨rfl,fun _ => hroom,0,rfl,nofun⟩
    obtain ⟨hs,ht⟩ := dropOldestLine_spec c r
    obtain ⟨ht',hend,k,hk,hfull⟩ := ih (dropOldestLine c r)
    rw [hs] at hk hfull
    refine ⟨ht'.trans ht,fun hf => hend ?_,k+1,hk,fun j hj => ?_⟩
    · rw [← stored_length c,hs,dropLine,length_drop,stored_length]
      omega
    · cases j with
      | zero =>
        rw [Function.iterate_zero_apply,stored_length]
        omega
      | succ j => exact hfull j (by omega)

lemma copyIn_spec {fuel : ℕ} {rest : Bytes} (hfuel : rest.length ≤ fuel)
    (hroom : r.len+rest.length ≤ c) : (copyIn c fuel rest r).stored c = r.stored c++rest ∧
      (copyIn c fuel rest r).total = r.total+rest.length := by
  induction fuel generalizing rest r with
  | zero =>
    obtain rfl := length_eq_zero_iff.mp (Nat.le_zero.mp hfuel)
    exact ⟨(append_nil _).symm,rfl⟩
  | succ fuel ih =>
    rw [copyIn]
    split_ifs with hnil
    · obtain rfl := length_eq_zero_iff.mp hnil
      exact ⟨(append_nil _).symm,rfl⟩
    dsimp only
    have hidx : (r.start+r.len)%c < c := Nat.mod_lt _ (by omega)
    generalize hk : min rest.length (c-(r.start+r.len)%c) = chunk
    have htake : (rest.take chunk).length = chunk := by
      rw [length_take]
      omega
    have hheld := held_written (written_flat r.buf (show (r.start+r.len)%c+(rest.take chunk).length ≤ c by
      omega)) (show r.len+(rest.take chunk).length ≤ c by omega)
    rw [htake] at hheld
    obtain ⟨hs,ht⟩ := @ih ⟨store r.buf ((r.start+r.len)%c) (rest.take chunk),r.start,r.len+chunk,
      r.total+chunk⟩ (rest.drop chunk) (by rw [length_drop]; omega) (by rw [length_drop]; dsimp only; omega)
    constructor
    · rw [hs,Ring.stored,hheld,append_assoc,take_append_drop,Ring.stored]
    · rw [ht,length_drop]
      dsimp only
      omega

lemma cut_length (c : ℕ) (line : Bytes) : (cut c line).length ≤ c := by
  rw [cut]
  split_ifs
  · rw [length_drop]
    omega
  · omega

lemma appendLine_spec (h : Keeps c r stream) (line : Bytes) :
    Keeps c (appendLine c r line) (stream++cut c line) ∧
    ∃ k, (appendLine c r line).stored c = dropLine^[k] (r.stored c)++cut c line ∧
      ∀ j < k, c-(dropLine^[j] (r.stored c)).length < (cut c line).length := by
  obtain ⟨ht,hend,k,hk,hfull⟩ := makeRoom_spec c (cut c line).length r.len r
  have hcut := cut_length c line
  have hend := hend le_rfl
  have hsuf := dropLine_suffix (r.stored c) k
  have hlen := hsuf.length_le
  rw [← hk,stored_length,stored_length] at hlen
  have hfits := h.fits
  obtain ⟨hs,ht'⟩ := copyIn_spec (le_refl (cut c line).length)
    (show (makeRoom c (cut c line).length r.len r).len+_ ≤ c by omega)
  have hnew := congrArg List.length hs
  rw [stored_length,length_append,stored_length] at hnew
  rw [hk] at hs
  refine ⟨⟨hnew.trans_le (by omega),?_,?_⟩,k,hs,hfull⟩
  · rw [appendLine,ht',ht,h.total,length_append]
  · rw [appendLine,hs]
    obtain ⟨front,hfront⟩ := hsuf.trans h.stored
    exact ⟨front,by rw [← append_assoc,hfront]⟩

lemma Keeps.stored_eq (h : Keeps c r stream) : r.stored c = stream.drop r.oldestPos := by
  rw [suffix_iff_eq_drop.mp h.stored,stored_length,← h.total,Ring.oldestPos]

lemma Keeps.len_le (h : Keeps c r stream) : r.len ≤ r.total := by
  rw [h.total,← stored_length c]
  exact h.stored.length_le

lemma read_spec (h : Keeps c r stream) (pos n : ℕ) :
    (read c r pos n).1 = (stream.drop (max pos r.oldestPos)).take (read c r pos n).1.length ∧
    (read c r pos n).2 = max pos r.oldestPos+(read c r pos n).1.length ∧
    (0 < n → pos < r.total → pos < (read c r pos n).2) := by
  have hle := h.len_le
  have hold : r.oldestPos = r.total-r.len := rfl
  have hpos : (if pos < r.oldestPos then r.oldestPos else pos) = max pos r.oldestPos := by
    split_ifs <;> omega
  simp only [read,hpos]
  generalize hp : max pos r.oldestPos = p
  split_ifs with hend
  · exact ⟨rfl,rfl,by dsimp only; omega⟩
  have hc := h.fits
  have hidx : (r.start+(p-r.oldestPos))%c < c := Nat.mod_lt _ (by omega)
  generalize hm : min (min n (r.len-(p-r.oldestPos))) (c-(r.start+(p-r.oldestPos))%c) = m
  have hload : load r.buf ((r.start+(p-r.oldestPos))%c) m = (stream.drop p).take m := by
    rw [load_eq_held r.buf (show _ ≤ c by omega),held_take r.buf c _ (show m ≤ r.len-(p-r.oldestPos) by omega),
      held_drop r.buf c r.start (by omega)]
    change ((r.stored c).drop _).take m = _
    rw [h.stored_eq,drop_drop,show r.oldestPos+(p-r.oldestPos) = p by omega]
  have hlen : (load r.buf ((r.start+(p-r.oldestPos))%c) m).length = m := by simp [load]
  dsimp only
  rw [hlen]
  exact ⟨hload,rfl,by omega⟩

/-- What the reader got since its first cursor is what was kept there, in order,
and what is missing is not stored any more. -/
structure Follows (c first : ℕ) (s : Session) : Prop where
  keeps : Keeps c s.ring s.stream
  exact : ∀ x ∈ s.got, s.stream[x.2]? = some x.1
  behind : ∀ p ∈ s.got.map Prod.snd, p < s.cursor
  rising : (s.got.map Prod.snd).Pairwise (· < ·)
  gaps : ∀ p, first ≤ p → p < s.cursor → p ∈ s.got.map Prod.snd ∨ p < s.ring.oldestPos

variable {first : ℕ} {s : Session}

lemma Follows.step (h : Follows c first s) (op : Op) : Follows c first (step c s op) := by
  have hle := h.keeps.len_le
  cases op with
  | append line =>
    obtain ⟨hkeeps,k,hk,-⟩ := appendLine_spec h.keeps line
    have hlen := congrArg List.length hk
    have hsuf := (dropLine_suffix (s.ring.stored c) k).length_le
    have ht := hkeeps.total
    rw [stored_length,length_append] at hlen
    rw [stored_length] at hsuf
    rw [length_append,← h.keeps.total] at ht
    refine ⟨hkeeps,fun x hx => ?_,h.behind,h.rising,fun p hp hlt => (h.gaps p hp hlt).imp_right fun hold => ?_⟩
    · have hx := h.exact x hx
      exact (getElem?_append_left (List.getElem?_eq_some_iff.mp hx).1).trans hx
    · change p < (appendLine c s.ring line).total-(appendLine c s.ring line).len
      rw [Ring.oldestPos] at hold
      omega
  | read n =>
    obtain ⟨hbytes,hnew,-⟩ := read_spec h.keeps s.cursor n
    rw [KmsgRing.step]
    generalize KmsgRing.read c s.ring s.cursor n = r at hbytes hnew
    obtain ⟨bytes,pos⟩ := r
    dsimp only at hbytes hnew ⊢
    obtain rfl := hnew
    generalize hp : max s.cursor s.ring.oldestPos = p at hbytes
    rw [Nat.add_sub_cancel]
    refine ⟨h.keeps,fun x hx => ?_,?_,?_,?_⟩
    · rcases mem_append.mp hx with hx | hx
      · exact h.exact x hx
      obtain ⟨hge,hat⟩ := mk_mem_zipIdx_iff_le_and_getElem?_sub.mp hx
      have hlt := (List.getElem?_eq_some_iff.mp hat).1
      rw [hbytes,getElem?_take_of_lt hlt,getElem?_drop,Nat.add_sub_cancel' hge] at hat
      exact hat
    all_goals simp only [map_append,zipIdx_map_snd,mem_append,mem_range'_1]
    · rintro q (hq | hq)
      · have := h.behind q hq
        omega
      · omega
    · refine pairwise_append.mpr ⟨h.rising,pairwise_lt_range',fun a ha b hb => ?_⟩
      have := h.behind a ha
      have := (mem_range'_1.mp hb).1
      omega
    · intro q hq hlt
      by_cases hin : q < s.cursor
      · exact (h.gaps q hq hin).imp_left .inl
      · omega

lemma run_follows (first : ℕ) (ops : List Op) : Follows c first (run (step c) (start first) ops) := by
  refine foldlRecOn ops (step c) ?_ fun s h op _ => h.step op
  refine ⟨⟨Nat.zero_le _,rfl,nil_suffix⟩,nofun,nofun,.nil,fun p hp hlt => ?_⟩
  exact absurd hlt (Nat.not_lt.mpr hp)

/-- The ring holds the end of what was kept, an append drops whole lines from it
only while it does not fit, and a reader gets what was kept from its cursor on,
once and in order, but for what was dropped before it came there. -/
theorem ring_refines_suffix_log (capacity first : ℕ) (ops : List Op) :
    let s := run (step capacity) (start first) ops
    (s.ring.len ≤ capacity ∧ s.ring.total = s.stream.length ∧
      s.ring.stored capacity = s.stream.drop s.ring.oldestPos) ∧
    (∀ line, ∃ k, (appendLine capacity s.ring line).stored capacity =
        dropLine^[k] (s.ring.stored capacity)++cut capacity line ∧
      ∀ j < k, capacity-(dropLine^[j] (s.ring.stored capacity)).length < (cut capacity line).length) ∧
    (∀ x ∈ s.got, s.stream[x.2]? = some x.1) ∧ (s.got.map Prod.snd).Pairwise (· < ·) ∧
    (∀ p, first ≤ p → p < s.cursor → p ∈ s.got.map Prod.snd ∨ p < s.ring.oldestPos) ∧
    ∀ n, 0 < n → s.cursor < s.ring.total → s.cursor < (read capacity s.ring s.cursor n).2 := by
  intro s
  have h : Follows capacity first s := run_follows first ops
  exact ⟨⟨h.keeps.fits,h.keeps.total,h.keeps.stored_eq⟩,fun line => (appendLine_spec h.keeps line).2,
    h.exact,h.rising,h.gaps,fun n => (read_spec h.keeps s.cursor n).2.2⟩

/-- The reader loses the first of three lines to a ring for two. -/
theorem ring_refines_suffix_log_threeLines :
    let s := run (step 4) (start 0) [.append [1,10],.append [2,10],.read 1,.append [3,10],.read 9,.read 9]
    s.got = [(1,0),(2,2),(10,3),(3,4),(10,5)] ∧ s.ring.stored 4 = s.stream.drop 2 :=
  ⟨by decide,(ring_refines_suffix_log 4 0 _).1.2.2⟩

end MoQiOS.KmsgRing
