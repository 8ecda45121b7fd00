import MoQiOS.TcpConnection

/-!
# Rings and sequence numbers of a connection

The ring helpers move exactly the cells of the queue, the queue length is read
off the two cursors, and sequence comparison is serial number comparison.
-/

namespace MoQiOS.Tcp
open SerialNumbers RingMemory

lemma ringWrite_written (buffer : ℕ → UInt8) {size pos : ℕ} (src : List UInt8)
    (hpos : pos < size) (hlen : src.length ≤ size) :
    Written buffer (ringWrite buffer size pos src) size pos src := by
  rw [ringWrite]
  split_ifs with hz hflat
  · rw [List.length_eq_zero_iff.mp hz]
    exact written_nil buffer size pos
  · exact written_flat buffer (by omega)
  · exact written_wrapped buffer hpos (by omega) hlen

lemma ringRead_held (buffer : ℕ → UInt8) {size pos count : ℕ} (hpos : pos < size)
    (hcount : count ≤ size) : ringRead buffer size pos count = held buffer size pos count := by
  rw [ringRead]
  split_ifs with hz hflat
  · rw [hz,held_zero]
  · exact load_eq_held buffer (by omega)
  · exact load_wrapped buffer hpos (by omega) hcount

lemma sendBufSize_eq : sendBufSize = 65536 := by rw [sendBufSize]

lemma recvBufSize_eq : recvBufSize = 65536 := by rw [recvBufSize]

section
variable {size : ℕ} (hsize : size = 65536)
include hsize

lemma ringDataLen_cursors {head n : ℕ} (hhead : head < size) (hn : n < size) :
    ringDataLen head ((head+n)%size) size = n := by
  subst hsize
  rw [ringDataLen]
  omega

lemma ringDataLen_lt (head tail : ℕ) : ringDataLen head tail size < size := by
  subst hsize
  rw [ringDataLen]
  omega

lemma tail_of_len {head tail : ℕ} (hhead : head < size) (htail : tail < size) :
    tail = (head+ringDataLen head tail size)%size := by
  subst hsize
  rw [ringDataLen]
  omega

lemma cursor_lt (n : ℕ) : n%size < size := by
  subst hsize
  exact Nat.mod_lt _ (by decide)

end

lemma top_bit (x : Serial) : (x &&& 0x80000000#32).toNat = if 2^31 ≤ x.toNat then 2^31 else 0 := by
  have hx := x.isLt
  rw [BitVec.toNat_and,show (0x80000000#32).toNat = 2^31 from rfl,Nat.and_two_pow,
    Nat.testBit_eq_decide_div_mod_eq]
  split_ifs with h
  · rw [decide_eq_true (by omega),Bool.toNat_true,one_mul]
  · rw [decide_eq_false (by omega),Bool.toNat_false,zero_mul]

lemma seqLt_eq_before (a b : Serial) : seqLt a b = before a b := by
  rw [seqLt,before,Bool.eq_iff_iff,bne_iff_ne,ne_eq,decide_eq_true_eq,BitVec.toNat_eq,top_bit,
    show (0#32).toNat = 0 from rfl]
  split_ifs with h
  · exact iff_of_true (by decide) h
  · exact iff_of_false (fun hz => hz rfl) h

lemma seqLt_after (base : Serial) {n k : ℕ} (hn : n < k+2^31) (hk : k ≤ n+2^31) :
    seqLt (after base n) (after base k) = decide (n < k) := by
  rw [seqLt_eq_before,before_after base hn hk]

lemma seqLeq_after (base : Serial) {n k : ℕ} (hn : n ≤ k+2^31) (hk : k < n+2^31) :
    seqLeq (after base n) (after base k) = decide (n ≤ k) := by
  rw [seqLeq,seqGt,seqLt_after base hk hn]
  by_cases h : n ≤ k
  · simp [h]
  · simp [h,Nat.lt_of_not_le h]

end MoQiOS.Tcp
