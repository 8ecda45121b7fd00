import MoQiOS.OnesComplement

/-!
# Internet checksums

`checksum` adds four bytes at a time in a 64 bit accumulator and folds it to
32 and to 16 bits. The first fold wraps: it loses a carry when the two halves
of the accumulator add up to 2^32 or more. The UDP and the IPv6 variants add
two bytes at a time, where the upper half is always zero; they leave out the
checksum field of the segment and send 0xFFFF for zero.
-/

namespace MoQiOS.Net
open OnesComplement List

abbrev Bytes := List UInt8

def wordOf (a b : UInt8) : ℕ := a.toNat*2^8+b.toNat

/-- The loops of `checksum`: four bytes, then a pair, then an odd byte. -/
def accumulate (acc : ℕ) : Bytes → ℕ
  | a::b::c::d::rest =>
    accumulate (acc+(a.toNat*2^24+b.toNat*2^16+c.toNat*2^8+d.toNat)) rest
  | [a,b,c] => acc+wordOf a b+c.toNat*2^8
  | [a,b] => acc+wordOf a b
  | [a] => acc+a.toNat*2^8
  | [] => acc

/-- The folds from 64 to 32 and twice to 16 bits. -/
def foldAcc (acc : ℕ) : ℕ := fold (fold ((acc%2^32+acc/2^32%2^32)%2^32))

def complement (sum : ℕ) : ℕ := 65535-sum%65536

def checksum (buf : Bytes) : ℕ := complement (foldAcc (accumulate 0 buf))

structure Ip4 where
  a : UInt8
  b : UInt8
  c : UInt8
  d : UInt8

def Ip4.bytes (ip : Ip4) : Bytes := [ip.a,ip.b,ip.c,ip.d]

def pseudo (src dst : Ip4) (protocol : UInt8) (len : ℕ) : Bytes :=
  src.bytes++dst.bytes++[0,protocol,UInt8.ofNat (len/256),UInt8.ofNat len]

def protoTcp : UInt8 := 6

def protoUdp : UInt8 := 17

def tcpChecksum (src dst : Ip4) (seg : Bytes) : ℕ :=
  complement (fold (complement (checksum (pseudo src dst protoTcp seg.length))+complement (checksum seg)))

/-- The loop over the words of a segment that leaves out the word at `skip`. -/
def sumWords (skip i acc : ℕ) : Bytes → ℕ
  | a::b::rest => sumWords skip (i+2) (if i = skip then acc else acc+wordOf a b) rest
  | [a] => acc+a.toNat*2^8
  | [] => acc

def transmitted (folded : ℕ) : ℕ := if folded = 0 then 65535 else folded

def segmentChecksum (skip acc : ℕ) (seg : Bytes) : ℕ :=
  transmitted (complement (foldAcc (sumWords skip 0 acc seg)))

def udpChecksumV4 (src dst : Ip4) (seg : Bytes) : ℕ :=
  segmentChecksum 6 (complement (checksum (pseudo src dst protoUdp seg.length))) seg

structure Ip6 where
  bytes : Bytes
  length : bytes.length = 16

/-- The saturating fold of the source acts on a sum below 2^32. -/
def pseudoHeaderChecksum (src dst : Ip6) (nextHeader : UInt8) (len : ℕ) : ℕ :=
  let acc := sumWords 16 0 (sumWords 16 0 0 src.bytes) dst.bytes+len+nextHeader.toNat
  min (acc%2^32+acc/2^32%2^32) (2^32-1)

def tcpChecksumV6 (src dst : Ip6) (seg : Bytes) : ℕ :=
  segmentChecksum 16 (pseudoHeaderChecksum src dst protoTcp seg.length) seg

def udpChecksumV6 (src dst : Ip6) (seg : Bytes) : ℕ :=
  segmentChecksum 6 (pseudoHeaderChecksum src dst protoUdp seg.length) seg

def writeU16 : ℕ → ℕ → Bytes → Bytes
  | 0, v, _::_::rest => UInt8.ofNat (v/256)::UInt8.ofNat v::rest
  | j+1, v, a::b::rest => a::b::writeU16 j v rest
  | _, _, buf => buf

def readU16 : ℕ → Bytes → ℕ
  | 0, a::b::_ => wordOf a b
  | j+1, _::_::rest => readU16 j rest
  | _, _ => 0

def tcpVerified (src dst : Ip4) (seg : Bytes) : Bool :=
  readU16 8 seg != 0 && tcpChecksum src dst seg == 0

/-- The test `handlePacket` makes of a UDP datagram; no checksum is zero. -/
def udpVerified (src dst : Ip4) (seg : Bytes) : Bool :=
  readU16 3 seg == 0 || readU16 3 seg == udpChecksumV4 src dst seg

/-- Big-endian words; an odd byte is padded with zero. -/
def words : Bytes → List ℕ
  | a::b::rest => wordOf a b::words rest
  | [a] => [a.toNat*2^8]
  | [] => []

def rfc1071 (buf : Bytes) : ℕ := 65535-onesSum (words buf)

def pseudoV6 (src dst : Ip6) (nextHeader : UInt8) (len : ℕ) : Bytes :=
  src.bytes++dst.bytes++[0,0,UInt8.ofNat (len/256),UInt8.ofNat len,0,0,0,nextHeader]

/-- The first fold loses no carry. -/
def carryKept (buf : Bytes) : Prop := accumulate 0 buf%2^32+accumulate 0 buf/2^32 < 2^32

instance (buf : Bytes) : Decidable (carryKept buf) := inferInstanceAs (Decidable (_ < _))

lemma wordOf_le (a b : UInt8) : wordOf a b ≤ 65535 := by
  have := a.toNat_lt
  have := b.toNat_lt
  unfold wordOf
  omega

lemma words_le (buf : Bytes) : ∀ w ∈ words buf, w ≤ 65535 := by
  induction buf using words.induct with
  | case1 a b rest ih =>
    intro w hw
    rcases mem_cons.mp hw with rfl | hw
    · exact wordOf_le a b
    · exact ih w hw
  | case2 a =>
    have := a.toNat_lt
    intro w hw
    obtain rfl := mem_singleton.mp hw
    omega
  | case3 => intro w hw; cases hw

lemma rfc1071_eq (buf : Bytes) : rfc1071 buf = 65535-word (words buf).sum := by
  rw [rfc1071,onesSum_eq (words_le buf)]

lemma accumulate_same (buf : Bytes) (acc : ℕ) : Same (accumulate acc buf) (acc+(words buf).sum) := by
  induction acc, buf using accumulate.induct_unfolding with
  | case1 acc a b c d rest ih =>
    refine ih.trans ?_
    simp only [words,sum_cons,wordOf]
    constructor <;> omega
  | case2 acc a b c =>
    simp only [words,sum_cons,sum_nil,add_zero,← add_assoc]
    exact Same.refl _
  | case3 acc a b =>
    simp only [words,sum_cons,sum_nil,add_zero]
    exact Same.refl _
  | case4 acc a =>
    simp only [words,sum_cons,sum_nil,add_zero]
    exact Same.refl _
  | case5 acc => exact Same.refl _

lemma accumulate_lt (buf : Bytes) (acc : ℕ) : accumulate acc buf < acc+(buf.length/4+1)*2^32 := by
  induction acc, buf using accumulate.induct_unfolding with
  | case1 acc a b c d rest ih =>
    have := a.toNat_lt
    have := b.toNat_lt
    have := c.toNat_lt
    have := d.toNat_lt
    simp only [length_cons]
    omega
  | case2 acc a b c =>
    have := wordOf_le a b
    have := c.toNat_lt
    omega
  | case3 acc a b =>
    have := wordOf_le a b
    omega
  | case4 acc a =>
    have := a.toNat_lt
    omega
  | case5 acc => simp only [length_nil]; omega

variable {buf seg : Bytes} {j : ℕ} {src dst : Ip4}

lemma accumulate_bound (h : buf.length ≤ 65535) : accumulate 0 buf < 2^46 := by
  have := accumulate_lt buf 0
  omega

lemma foldAcc_kept {acc : ℕ} (hacc : acc < 2^64) (h : acc%2^32+acc/2^32 < 2^32) :
    foldAcc acc = word acc := by
  unfold foldAcc
  have hmod : (acc%2^32+acc/2^32%2^32)%2^32 = acc%2^32+acc/2^32 := by omega
  rw [hmod,fold_fold h]
  apply Same.word_eq
  constructor <;> omega

lemma complement_word (n : ℕ) : complement (word n) = 65535-word n := by
  have := word_le n
  unfold complement
  omega

lemma complement_complement (n : ℕ) : complement (65535-word n) = word n := by
  have := word_le n
  unfold complement
  omega

lemma checksum_kept (hlen : buf.length ≤ 65535) (h : carryKept buf) :
    checksum buf = rfc1071 buf := by
  have hacc := accumulate_bound hlen
  have hsame := accumulate_same buf 0
  rw [Nat.zero_add] at hsame
  rw [checksum,foldAcc_kept (by omega) h,complement_word,hsame.word_eq,rfc1071_eq]

/-- A buffer that sums to negative zero is recognised: the two halves of its
accumulator cannot add up to 2^32 and more, since 65535 would divide the sum. -/
lemma checksum_zero (hlen : buf.length ≤ 65535) (h : onesSum (words buf) = 65535) :
    checksum buf = 0 := by
  have hacc := accumulate_bound hlen
  have hsame := accumulate_same buf 0
  rw [Nat.zero_add] at hsame
  rw [onesSum_eq (words_le buf),← hsame.word_eq] at h
  have hkept : carryKept buf := by
    unfold carryKept
    unfold word at h
    split at h
    · omega
    · omega
  rw [checksum,foldAcc_kept (by omega) hkept,h]
  rfl

lemma writeU16_length (j v : ℕ) (buf : Bytes) : (writeU16 j v buf).length = buf.length := by
  induction j, v, buf using writeU16.induct_unfolding with
  | case1 v a b rest => rfl
  | case2 j v a b rest ih => simp only [length_cons,ih]
  | case3 j v buf h1 h2 => rfl

lemma words_writeU16 {v : ℕ} (hv : v ≤ 65535) (h : 2*j+2 ≤ buf.length) :
    (words (writeU16 j v buf)).sum = (words (writeU16 j 0 buf)).sum+v := by
  induction j generalizing buf with
  | zero =>
    match buf, h with
    | a::b::rest, _ =>
      simp only [writeU16,words,sum_cons,wordOf,UInt8.toNat_ofNat',Nat.reducePow]
      omega
  | succ j ih =>
    match buf, h with
    | a::b::rest, h =>
      simp only [length_cons] at h
      have hrest := ih (show 2*j+2 ≤ rest.length by omega)
      simp only [writeU16,words,sum_cons,hrest,add_assoc]

lemma readU16_writeU16 {v : ℕ} (hv : v ≤ 65535) (h : 2*j+2 ≤ buf.length) :
    readU16 j (writeU16 j v buf) = v := by
  induction j generalizing buf with
  | zero =>
    match buf, h with
    | a::b::rest, _ =>
      simp only [writeU16,readU16,wordOf,UInt8.toNat_ofNat',Nat.reducePow]
      omega
  | succ j ih =>
    match buf, h with
    | a::b::rest, h =>
      simp only [length_cons] at h
      exact ih (by omega)

lemma writeU16_writeU16 (j v w : ℕ) (buf : Bytes) : writeU16 j w (writeU16 j v buf) = writeU16 j w buf := by
  induction j, v, buf using writeU16.induct_unfolding with
  | case1 v a b rest => rfl
  | case2 j v a b rest ih => simp only [writeU16,ih]
  | case3 j v buf h1 h2 => rfl

lemma onesSum_filled (h : 2*j+2 ≤ buf.length) (n : ℕ) :
    word (n+(words (writeU16 j (65535-word (n+(words (writeU16 j 0 buf)).sum)) buf)).sum) = 65535 := by
  rw [words_writeU16 (Nat.sub_le _ _) h,← add_assoc]
  exact word_complement _

lemma header_filled (hlen : buf.length ≤ 65535) (h : 2*j+2 ≤ buf.length)
    (hkept : carryKept (writeU16 j 0 buf)) :
    checksum (writeU16 j (checksum (writeU16 j 0 buf)) buf) = 0 := by
  have hl : (writeU16 j 0 buf).length ≤ 65535 := by rwa [writeU16_length]
  apply checksum_zero (by rwa [writeU16_length])
  rw [onesSum_eq (words_le _),checksum_kept hl hkept,rfc1071_eq]
  have := onesSum_filled h 0
  simp only [Nat.zero_add] at this
  exact this

lemma words_append {a : Bytes} (h : a.length%2 = 0) (b : Bytes) :
    (words (a++b)).sum = (words a).sum+(words b).sum := by
  induction a using words.induct with
  | case1 x y rest ih =>
    simp only [length_cons] at h
    simp only [cons_append,words,sum_cons,ih (by omega),add_assoc]
  | case2 x => simp at h
  | case3 => simp [words]

lemma pseudo_length (src dst : Ip4) (protocol : UInt8) (len : ℕ) :
    (pseudo src dst protocol len).length = 12 := rfl

variable (hlen : seg.length ≤ 65535)
include hlen

lemma tcpChecksum_kept
    (hp : carryKept (pseudo src dst protoTcp seg.length)) (hs : carryKept seg) :
    tcpChecksum src dst seg = rfc1071 (pseudo src dst protoTcp seg.length++seg) := by
  rw [tcpChecksum,checksum_kept (by rw [pseudo_length]; omega) hp,checksum_kept hlen hs,rfc1071_eq,
    rfc1071_eq,rfc1071_eq,words_append (by rw [pseudo_length])]
  generalize (words (pseudo src dst protoTcp seg.length)).sum = m
  generalize (words seg).sum = n
  have hm := word_le m
  have hn := word_le n
  rw [complement_complement,complement_complement]
  have hfold : fold (word m+word n) = word (m+n) := by
    rw [← word_of_le (show fold (word m+word n) ≤ 65535 by unfold fold; omega)]
    exact ((fold_same _).trans ((word_same m).add (word_same n))).word_eq
  rw [hfold,complement_word]

lemma tcp_filled (hfield : 18 ≤ seg.length)
    (hp : carryKept (pseudo src dst protoTcp seg.length)) (hzero : carryKept (writeU16 8 0 seg))
    (hfilled : carryKept (writeU16 8 (tcpChecksum src dst (writeU16 8 0 seg)) seg)) :
    tcpChecksum src dst (writeU16 8 (tcpChecksum src dst (writeU16 8 0 seg)) seg) = 0 := by
  have hl : (writeU16 8 0 seg).length = seg.length := writeU16_length 8 0 seg
  have hc : tcpChecksum src dst (writeU16 8 0 seg) =
      65535-word ((words (pseudo src dst protoTcp seg.length)).sum+(words (writeU16 8 0 seg)).sum) := by
    rw [tcpChecksum_kept (by omega) (hl ▸ hp) hzero,hl,rfc1071_eq,
      words_append (by rw [pseudo_length])]
  rw [hc] at hfilled ⊢
  rw [tcpChecksum_kept (by rwa [writeU16_length]) (by rwa [writeU16_length]) hfilled,writeU16_length,
    rfc1071_eq,words_append (by rw [pseudo_length]),onesSum_filled (by omega)]

lemma tcp_accepted
    (hp : carryKept (pseudo src dst protoTcp seg.length)) (hs : carryKept seg)
    (hfield : readU16 8 seg ≠ 0)
    (hsum : onesSum (words (pseudo src dst protoTcp seg.length++seg)) = 65535) :
    tcpVerified src dst seg = true := by
  rw [tcpVerified,tcpChecksum_kept hlen hp hs,rfc1071,hsum]
  simpa using hfield

omit hlen

lemma sumWords_all (seg : Bytes) (acc : ℕ) {skip i : ℕ} (h : skip < i ∨ i+seg.length ≤ skip) :
    sumWords skip i acc seg = acc+(words seg).sum := by
  induction seg using words.induct generalizing i acc with
  | case1 a b rest ih =>
    simp only [length_cons] at h
    rw [sumWords,if_neg (by omega),ih _ (by omega),words,sum_cons,add_assoc]
  | case2 a => simp [sumWords,words]
  | case3 => simp [sumWords,words]

lemma sumWords_skip (i acc : ℕ) (h : 2*j+2 ≤ seg.length) :
    sumWords (i+2*j) i acc seg = acc+(words (writeU16 j 0 seg)).sum := by
  induction j generalizing i acc seg with
  | zero =>
    match seg, h with
    | a::b::rest, _ =>
      rw [sumWords,if_pos (by omega),sumWords_all _ _ (by omega)]
      simp [writeU16,words,wordOf]
  | succ j ih =>
    match seg, h with
    | a::b::rest, h =>
      simp only [length_cons] at h
      rw [sumWords,if_neg (by omega),show i+2*(j+1) = i+2+2*j by omega,ih _ _ (by omega),writeU16,words,
        sum_cons,add_assoc]

lemma words_sum_half (buf : Bytes) : 2*(words buf).sum ≤ 65535*(buf.length+1) := by
  induction buf using words.induct with
  | case1 a b rest ih =>
    have := wordOf_le a b
    simp only [words,sum_cons,length_cons]
    omega
  | case2 a =>
    have := a.toNat_lt
    simp only [words,sum_cons,sum_nil,length_cons,length_nil]
    omega
  | case3 => simp [words]

lemma segmentChecksum_eq {m acc : ℕ} (hlen : seg.length ≤ 65535)
    (h : 2*j+2 ≤ seg.length) (hacc : acc ≤ 2^21) (hsame : Same acc m) :
    segmentChecksum (2*j) acc seg = transmitted (65535-word (m+(words (writeU16 j 0 seg)).sum)) := by
  have hs := sumWords_skip 0 acc h
  rw [Nat.zero_add] at hs
  have hbound := words_sum_half (writeU16 j 0 seg)
  rw [writeU16_length] at hbound
  rw [segmentChecksum,hs,foldAcc_kept (by omega) (by omega),complement_word,
    (hsame.add (Same.refl _)).word_eq]

lemma transmitted_le (n : ℕ) : transmitted (65535-n) ≤ 65535 := by
  unfold transmitted
  split <;> omega

include hlen

lemma udpChecksumV4_eq (h : 8 ≤ seg.length)
    (hp : carryKept (pseudo src dst protoUdp seg.length)) : udpChecksumV4 src dst seg =
      transmitted (rfc1071 (pseudo src dst protoUdp seg.length++writeU16 3 0 seg)) := by
  rw [udpChecksumV4,checksum_kept (by rw [pseudo_length]; omega) hp,rfc1071_eq,
    complement_complement,rfc1071_eq,words_append (by rw [pseudo_length])]
  have hw := word_le (words (pseudo src dst protoUdp seg.length)).sum
  exact segmentChecksum_eq (j := 3) hlen h (by omega) (word_same _)

lemma udp_filled (h : 8 ≤ seg.length)
    (hp : carryKept (pseudo src dst protoUdp seg.length)) :
    udpVerified src dst (writeU16 3 (transmitted (rfc1071
      (pseudo src dst protoUdp seg.length++writeU16 3 0 seg))) seg) = true := by
  have hle : transmitted (rfc1071 (pseudo src dst protoUdp seg.length++writeU16 3 0 seg)) ≤ 65535 :=
    transmitted_le _
  rw [udpVerified,readU16_writeU16 hle h,udpChecksumV4_eq (by rwa [writeU16_length])
    (by rwa [writeU16_length]) (by rwa [writeU16_length]),writeU16_length,writeU16_writeU16]
  simp

omit hlen

lemma pseudoHeaderChecksum_eq (src dst : Ip6) (nextHeader : UInt8) {len : ℕ} (h : len ≤ 65535) :
    pseudoHeaderChecksum src dst nextHeader len = (words (pseudoV6 src dst nextHeader len)).sum ∧
      pseudoHeaderChecksum src dst nextHeader len ≤ 2^21 := by
  have hs := src.length
  have hd := dst.length
  have h1 := words_sum_half src.bytes
  have h2 := words_sum_half dst.bytes
  have hn := nextHeader.toNat_lt
  have hsum : (words (pseudoV6 src dst nextHeader len)).sum =
      (words src.bytes).sum+(words dst.bytes).sum+len+nextHeader.toNat := by
    rw [pseudoV6,words_append (by simp [hs,hd]),words_append (by omega)]
    simp only [words,sum_cons,sum_nil,wordOf,UInt8.toNat_ofNat',UInt8.toNat_zero, Nat.reducePow]
    omega
  rw [hsum,pseudoHeaderChecksum,sumWords_all _ _ (by omega),sumWords_all _ _ (by omega)]
  omega

lemma checksumV6_eq {src dst : Ip6} {protocol : UInt8} (hlen : seg.length ≤ 65535)
    (h : 2*j+2 ≤ seg.length) :
    segmentChecksum (2*j) (pseudoHeaderChecksum src dst protocol seg.length) seg =
      transmitted (rfc1071 (pseudoV6 src dst protocol seg.length++writeU16 j 0 seg)) := by
  obtain ⟨heq,hle⟩ := pseudoHeaderChecksum_eq src dst protocol hlen
  have heven : (pseudoV6 src dst protocol seg.length).length%2 = 0 := by
    simp [pseudoV6,src.length,dst.length]
  rw [segmentChecksum_eq hlen h hle (Same.refl _),rfc1071_eq,words_append heven,heq]

def plainHeader : Bytes := [0x45,0,0,60,0x1c,0x46,0x40,0,0x40,6,0,0,192,168,0,104,192,168,0,1]

/-- From 10.0.2.2:8080 to 192.168.51.58:50000, checksum 0x1234. -/
def carrySegment : Bytes :=
  [31,144,195,80,255,255,255,240,126,42,60,192,80,16,255,255,18,52,0,0]

end MoQiOS.Net
