import Mathlib

/-!
# TCP headers and their options

`fillTcpSegment` writes a header with its options and `parseTcpOptions` reads
options back. The data offset counts words in four bits, so a header may have
at most 60 bytes: timestamps with four SACK blocks do not fit.
-/

namespace MoQiOS.TcpHeader
open Function List

abbrev Bytes := List UInt8

def writeU16 (v : UInt16) : Bytes := [UInt8.ofNat (v.toNat/2^8),UInt8.ofNat v.toNat]

def writeU32 (v : UInt32) : Bytes :=
  [UInt8.ofNat (v.toNat/2^24),UInt8.ofNat (v.toNat/2^16),UInt8.ofNat (v.toNat/2^8),UInt8.ofNat v.toNat]

def byte (data : Bytes) (pos : ℕ) : ℕ := (data.getD pos 0).toNat

def readU16 (data : Bytes) (pos : ℕ) : UInt16 := UInt16.ofNat (byte data pos*2^8+byte data (pos+1))

def readU32 (data : Bytes) (pos : ℕ) : UInt32 :=
  UInt32.ofNat (byte data pos*2^24+byte data (pos+1)*2^16+byte data (pos+2)*2^8+byte data (pos+3))

structure SackBlock where
  left : UInt32 := 0
  right : UInt32 := 0
  deriving DecidableEq

structure TcpTcb where
  localPort : UInt16
  remotePort : UInt16
  isV6 : Bool
  sndNxt : UInt32
  rcvNxt : UInt32
  rcvWnd : UInt32
  wsEnabled : Bool
  rcvWndScale : Fin 16
  wsRequested : Fin 16
  tsEnabled : Bool
  tsRecent : UInt32
  tsValLast : UInt32
  accecnOk : Bool
  aceCeCount : Fin 8
  sackPermitted : Bool
  sackBlocks : ℕ → SackBlock
  sackBlockCount : ℕ
  count_le : sackBlockCount ≤ 4

def syn : UInt8 := 0x02

def ack : UInt8 := 0x10

def ae : UInt8 := 0x01

/-- `probeAcePackAe`. -/
def acePackAe (ace : Fin 8) : UInt8 := if ace.val.testBit 2 then ae else 0

def tcpMss : ℕ := 1460

def localMssForTcb (t : TcpTcb) (pmtu : UInt16) : UInt16 :=
  let overhead := if t.isV6 then 60 else 40
  if pmtu.toNat ≤ overhead then 1 else UInt16.ofNat (min tcpMss (pmtu.toNat-overhead))

/-- A DSACK range goes first and the last of four falls out. -/
def reportDsack (t : TcpTcb) (left right : UInt32) : TcpTcb :=
  if 2^31 ≤ (left-right).toNat then
    { t with
      sackBlocks := fun i => if i = 0 then ⟨left,right⟩ else
        if i ≤ min t.sackBlockCount 3 then t.sackBlocks (i-1) else t.sackBlocks i
      sackBlockCount := min (t.sackBlockCount+1) 4
      count_le := min_le_right _ _ }
  else t

def mssOption (offer : UInt16) : Bytes := [2,4]++writeU16 offer

def windowScaleOption (shift : Fin 16) : Bytes := [3,3,UInt8.ofNat shift.val]

def timestampOption (t : TcpTcb) (now : UInt32) : Bytes := [8,10]++writeU32 now++writeU32 t.tsRecent

def blockBytes (b : SackBlock) : Bytes := writeU32 b.left++writeU32 b.right

variable (blocks : ℕ → SackBlock)

def sackOption (n : ℕ) : Bytes :=
  [5,UInt8.ofNat (2+n*8)]++(List.range n).flatMap fun i => blockBytes (blocks i)

def sendsSack (t : TcpTcb) (flags : UInt8) : Bool :=
  t.sackPermitted && decide (0 < t.sackBlockCount) && (flags &&& ack != 0)

def isSyn (flags : UInt8) : Bool := flags &&& syn != 0

def padded (opts : Bytes) : Bytes := opts++List.replicate ((4-opts.length%4)%4) 1

def optBuf (t : TcpTcb) (flags : UInt8) (now : UInt32) (pmtu : UInt16) : Bytes :=
  if isSyn flags then
    padded (mssOption (localMssForTcb t pmtu)++windowScaleOption t.wsRequested++timestampOption t now++[4,2])
  else
    padded ((if t.tsEnabled then timestampOption t now else [])++
      (if sendsSack t flags then sackOption t.sackBlocks t.sackBlockCount else []))

def rawWindow (t : TcpTcb) : UInt16 :=
  UInt16.ofNat (if t.wsEnabled then min (t.rcvWnd.toNat/2^t.rcvWndScale.val) 0xFFFF else t.rcvWnd.toNat)

def byte12Lo (t : TcpTcb) (flags : UInt8) : UInt8 :=
  if isSyn flags then if t.accecnOk then ae else 0
  else if t.accecnOk then acePackAe t.aceCeCount else 0

def fillTcpSegment (t : TcpTcb) (flags : UInt8) (data : Bytes) (now : UInt32) (pmtu : UInt16)
    (seqOverride : Option UInt32) : TcpTcb×Bytes :=
  let seq := seqOverride.getD t.sndNxt
  let ackNum := if flags &&& ack != 0 then t.rcvNxt else 0
  let opts := optBuf t flags now pmtu
  let dataOffsetVal := UInt8.ofNat ((20+opts.length)/4)
  let header := writeU16 t.localPort++writeU16 t.remotePort++writeU32 seq++writeU32 ackNum++
    [dataOffsetVal <<< 4 ||| byte12Lo t flags,flags]++writeU16 (rawWindow t)++[0,0,0,0]
  ({ t with
      tsValLast := if isSyn flags || t.tsEnabled then now else t.tsValLast
      sackBlockCount := if !isSyn flags && sendsSack t flags then 0 else t.sackBlockCount
      count_le := by split; exacts [Nat.zero_le _,t.count_le] },
    header++opts++data)

def segmentOptLen (syn tsEnabled sackPermitted : Bool) (sackBlockCount : ℕ) (hasAck : Bool) : ℕ :=
  let len := if syn then 4+3+10+2
    else (if tsEnabled then 10 else 0)+
      (if sackPermitted && decide (0 < sackBlockCount) && hasAck then 2+8*sackBlockCount else 0)
  len+(4-len%4)%4

structure TcpOptions where
  mss : Option UInt16 := none
  wsShift : Option (Fin 16) := none
  tsVal : Option UInt32 := none
  tsEcr : Option UInt32 := none
  sackPermitted : Bool := false
  sackBlocks : ℕ → SackBlock := fun _ => {}
  sackBlockCount : ℕ := 0

def readBlocks (data : Bytes) (dataOffset pos n : ℕ) (blocks : ℕ → SackBlock) : ℕ → SackBlock :=
  (List.range n).foldl (fun blocks b =>
    let boff := pos+2+b*8
    if boff+7 < dataOffset then
      update blocks b ⟨readU32 data boff,readU32 data (boff+4)⟩
    else blocks) blocks

def parseLoop (data : Bytes) (dataOffset pos : ℕ) (opts : TcpOptions) : TcpOptions :=
  if pos+1 < dataOffset then
    let kind := byte data pos
    let len := byte data (pos+1)
    if kind = 0 then opts
    else if kind = 1 then parseLoop data dataOffset (pos+1) opts
    else if kind = 2 then
      parseLoop data dataOffset (pos+4)
        (if pos+3 < dataOffset ∧ len = 4 then { opts with mss := some (readU16 data (pos+2)) } else opts)
    else if kind = 3 then
      parseLoop data dataOffset (pos+3)
        (if pos+2 < dataOffset ∧ len = 3 then
          { opts with wsShift := some (Fin.ofNat 16 (byte data (pos+2))) } else opts)
    else if kind = 8 then
      parseLoop data dataOffset (pos+10)
        (if pos+9 < dataOffset ∧ len = 10 then
          { opts with tsVal := some (readU32 data (pos+2)), tsEcr := some (readU32 data (pos+6)) }
        else opts)
    else if kind = 4 then
      parseLoop data dataOffset (pos+2) (if len = 2 then { opts with sackPermitted := true } else opts)
    else if len < 2 then opts
    else if kind = 5 then
      parseLoop data dataOffset (pos+len)
        (if 10 ≤ len then
          let n := min ((len-2)/8) 4
          { opts with
            sackBlocks := readBlocks data dataOffset pos n opts.sackBlocks
            sackBlockCount := n }
        else opts)
    else parseLoop data dataOffset (pos+len) opts
  else opts
termination_by dataOffset-pos

def parseTcpOptions (data : Bytes) (dataOffset : ℕ) : TcpOptions := parseLoop data dataOffset 20 {}

def headerLength (data : Bytes) : ℕ := byte data 12/2^4*4

def encoded (t : TcpTcb) (flags : UInt8) (now : UInt32) (pmtu : UInt16) : TcpOptions :=
  if isSyn flags then
    { mss := some (localMssForTcb t pmtu), wsShift := some t.wsRequested
      tsVal := some now, tsEcr := some t.tsRecent, sackPermitted := true }
  else
    { tsVal := if t.tsEnabled then some now else none
      tsEcr := if t.tsEnabled then some t.tsRecent else none
      sackBlocks := fun i => if sendsSack t flags ∧ i < t.sackBlockCount then t.sackBlocks i else {}
      sackBlockCount := if sendsSack t flags then t.sackBlockCount else 0 }

variable {data rest : Bytes} {pos off : ℕ} {t : TcpTcb} {now : UInt32}

lemma byte_drop (h : data.drop pos = rest) (k : ℕ) :
    byte data (pos+k) = (rest.getD k 0).toNat := by
  rw [byte,← h,getD_eq_getElem?_getD,getD_eq_getElem?_getD,getElem?_drop]

variable {v : UInt16}

lemma readU16_write (h : data.drop pos = writeU16 v++rest) : readU16 data pos = v := by
  have h0 := byte_drop h 0
  have h1 := byte_drop h 1
  have hv := v.toNat_lt
  simp only [writeU16,cons_append,nil_append,getD_cons_zero,getD_cons_succ,
    UInt8.toNat_ofNat',add_zero] at h0 h1
  rw [readU16,h0,h1]
  have : v.toNat/2^8%2^8*2^8+v.toNat%2^8 = v.toNat := by omega
  rw [this,UInt16.ofNat_toNat]

lemma readU32_write {v : UInt32} (h : data.drop pos = writeU32 v++rest) :
    readU32 data pos = v := by
  have h0 := byte_drop h 0
  have h1 := byte_drop h 1
  have h2 := byte_drop h 2
  have h3 := byte_drop h 3
  have hv := v.toNat_lt
  simp only [writeU32,cons_append,nil_append,getD_cons_zero,getD_cons_succ,
    UInt8.toNat_ofNat',add_zero] at h0 h1 h2 h3
  rw [readU32,h0,h1,h2,h3]
  have : v.toNat/2^24%2^8*2^24+v.toNat/2^16%2^8*2^16+v.toNat/2^8%2^8*2^8+v.toNat%2^8 = v.toNat := by
    omega
  rw [this,UInt32.ofNat_toNat]

lemma drop_more {a : Bytes} {k : ℕ} (h : data.drop pos = a++rest) (hk : k = a.length) :
    data.drop (pos+k) = rest := by
  subst hk
  rw [← drop_drop,h,drop_left]

variable {opts : TcpOptions}

lemma parse_end (h : off ≤ pos+1) : parseLoop data off pos opts = opts := by
  rw [parseLoop,if_neg (by omega)]

variable {n : ℕ}

lemma parse_nops (h : data.drop pos = List.replicate n 1++rest)
    (hoff : off = pos+n) : parseLoop data off pos opts = opts := by
  induction n generalizing pos with
  | zero => exact parse_end (by omega)
  | succ n ih =>
    by_cases hn : n = 0
    · exact parse_end (by omega)
    have hb := byte_drop h 0
    rw [add_zero,replicate_succ,cons_append,getD_cons_zero] at hb
    rw [parseLoop,if_pos (by omega)]
    simp only [hb]
    exact ih (drop_more (a := [1]) (by rw [h]; rfl) rfl) (by omega)

lemma parse_mss (h : data.drop pos = mssOption v++rest) (hoff : pos+4 ≤ off) :
    parseLoop data off pos opts = parseLoop data off (pos+4) {opts with mss := some v} := by
  have hk := byte_drop h 0
  have hl := byte_drop h 1
  have hv : readU16 data (pos+2) = v :=
    readU16_write (drop_more (a := [2,4]) (by rw [h,mssOption,append_assoc]) rfl)
  rw [parseLoop,if_pos (by omega)]
  simp only [mssOption,cons_append,getD_cons_zero,getD_cons_succ,add_zero] at hk hl
  simp only [hk,hl,hv]
  rw [if_neg (by decide),if_neg (by decide),if_pos (by decide),if_pos ⟨by omega,by decide⟩]

lemma parse_windowScale {v : Fin 16}
    (h : data.drop pos = windowScaleOption v++rest) (hoff : pos+3 ≤ off) :
    parseLoop data off pos opts = parseLoop data off (pos+3) {opts with wsShift := some v} := by
  have hk := byte_drop h 0
  have hl := byte_drop h 1
  have hs := byte_drop h 2
  rw [parseLoop,if_pos (by omega)]
  simp only [windowScaleOption,cons_append,getD_cons_zero,getD_cons_succ,add_zero] at hk hl hs
  have hv : Fin.ofNat 16 (UInt8.ofNat v.val).toNat = v := by
    ext
    rw [Fin.val_ofNat,UInt8.toNat_ofNat']
    omega
  simp only [hk,hl,hs,hv]
  rw [if_neg (by decide),if_neg (by decide),if_neg (by decide),if_pos (by decide),
    if_pos ⟨by omega,by decide⟩]

lemma parse_timestamp
    (h : data.drop pos = timestampOption t now++rest) (hoff : pos+10 ≤ off) :
    parseLoop data off pos opts =
      parseLoop data off (pos+10) {opts with tsVal := some now, tsEcr := some t.tsRecent} := by
  have hk := byte_drop h 0
  have hl := byte_drop h 1
  have hd : data.drop (pos+2) = writeU32 now++(writeU32 t.tsRecent++rest) :=
    drop_more (a := [8,10]) (by rw [h,timestampOption]; simp only [append_assoc]) rfl
  have hv := readU32_write hd
  have he := readU32_write (drop_more hd (show 4 = _ from rfl))
  rw [parseLoop,if_pos (by omega)]
  simp only [timestampOption,cons_append,getD_cons_zero,getD_cons_succ,add_zero] at hk hl
  simp only [hk,hl,hv,he]
  rw [if_neg (by decide),if_neg (by decide),if_neg (by decide),if_neg (by decide),
    if_pos (by decide),if_pos ⟨by omega,by decide⟩]

lemma parse_sackPermitted (h : data.drop pos = [4,2]++rest)
    (hoff : pos+2 ≤ off) :
    parseLoop data off pos opts = parseLoop data off (pos+2) {opts with sackPermitted := true} := by
  have hk := byte_drop h 0
  have hl := byte_drop h 1
  rw [parseLoop,if_pos (by omega)]
  simp only [cons_append,getD_cons_zero,getD_cons_succ,add_zero] at hk hl
  simp only [hk,hl]
  rw [if_neg (by decide),if_neg (by decide),if_neg (by decide),if_neg (by decide),
    if_neg (by decide),if_pos (by decide),if_pos (by decide)]

lemma blocks_length (n : ℕ) :
    ((List.range n).flatMap fun i => blockBytes (blocks i)).length = n*8 := by
  rw [length_flatMap]
  simp [blockBytes,writeU32]

lemma readBlocks_write {blocks : ℕ → SackBlock} (old : ℕ → SackBlock)
    (h : data.drop (pos+2) = ((List.range n).flatMap fun i => blockBytes (blocks i))++rest)
    (hoff : pos+2+n*8 ≤ off) :
    readBlocks data off pos n old = fun i => if i < n then blocks i else old i := by
  induction n generalizing rest with
  | zero => rfl
  | succ n ih =>
    rw [range_succ,flatMap_append,flatMap_singleton,append_assoc] at h
    have hlast : data.drop (pos+2+n*8) = blockBytes (blocks n)++rest :=
      drop_more h (blocks_length blocks n).symm
    rw [blockBytes,append_assoc] at hlast
    have hleft := readU32_write hlast
    have hright := readU32_write (drop_more hlast (show 4 = _ from rfl))
    have hprev := ih h (by omega)
    unfold readBlocks at hprev ⊢
    rw [range_succ,foldl_append,hprev]
    simp only [foldl_cons,foldl_nil,hleft,hright]
    rw [if_pos (by omega)]
    ext1 i
    by_cases hi : i = n
    · subst hi
      rw [update_self,if_pos (Nat.lt_succ_self i)]
    rw [update_of_ne hi]
    by_cases hlt : i < n
    · rw [if_pos hlt,if_pos (by omega)]
    · rw [if_neg hlt,if_neg (by omega)]

lemma parse_sack {blocks : ℕ → SackBlock}
    (h : data.drop pos = sackOption blocks n++rest) (hn : 0 < n) (hn4 : n ≤ 4)
    (hoff : pos+2+n*8 ≤ off) : parseLoop data off pos opts = parseLoop data off (pos+(2+n*8))
      {opts with
        sackBlocks := fun i => if i < n then blocks i else opts.sackBlocks i
        sackBlockCount := n} := by
  have hk := byte_drop h 0
  have hl := byte_drop h 1
  rw [sackOption,append_assoc] at h
  have hblocks := readBlocks_write opts.sackBlocks (drop_more h (show 2 = _ from rfl)) hoff
  rw [parseLoop,if_pos (by omega)]
  simp only [sackOption,cons_append,getD_cons_zero,getD_cons_succ,add_zero,
    UInt8.toNat_ofNat'] at hk hl
  have hlen : (2+n*8)%2^8 = 2+n*8 := by omega
  have hcount : min ((2+n*8-2)/8) 4 = n := by omega
  simp only [hk,hl,hlen,hcount,hblocks]
  rw [if_neg (by decide),if_neg (by decide),if_neg (by decide),if_neg (by decide),
    if_neg (by decide),if_neg (by decide),if_neg (by omega),if_pos (by decide),if_pos (by omega)]

lemma timestamp_length (t : TcpTcb) (now : UInt32) (ts : Bool) :
    (if ts then timestampOption t now else []).length = if ts then 10 else 0 := by
  cases ts <;> rfl

lemma sack_length (n : ℕ) (sack : Bool) :
    (if sack then sackOption blocks n else []).length = if sack then 2+n*8 else 0 := by
  cases sack with
  | false => rfl
  | true =>
    simp only [if_true]
    rw [sackOption,length_append,blocks_length]
    rfl

lemma optBuf_length (t : TcpTcb) (flags : UInt8) (now : UInt32) (pmtu : UInt16) :
    (optBuf t flags now pmtu).length =
      segmentOptLen (isSyn flags) t.tsEnabled t.sackPermitted t.sackBlockCount (flags &&& ack != 0) := by
  unfold optBuf segmentOptLen padded
  cases isSyn flags with
  | true => simp [mssOption,windowScaleOption,timestampOption,writeU16,writeU32]
  | false =>
    simp only [Bool.false_eq_true,if_false,length_append,length_replicate,
      timestamp_length,sack_length,Nat.mul_comm t.sackBlockCount]
    rfl

/-- Every state but timestamps together with four blocks. -/
def Fits (t : TcpTcb) (flags : UInt8) : Prop :=
  isSyn flags = true ∨ t.tsEnabled = false ∨ sendsSack t flags = false ∨ t.sackBlockCount < 4

variable {flags : UInt8}

lemma optLen_le (h : Fits t flags) :
    segmentOptLen (isSyn flags) t.tsEnabled t.sackPermitted t.sackBlockCount (flags &&& ack != 0) ≤ 40 := by
  have hcount := t.count_le
  unfold Fits sendsSack at h
  unfold segmentOptLen
  simp only
  split
  · decide
  · split <;> split <;> simp_all <;> omega

lemma offset_nibble {d : ℕ} (hd : d ≤ 15) {lo : UInt8} (hlo : lo = 0 ∨ lo = 1) :
    (UInt8.ofNat d <<< 4 ||| lo).toNat/2^4 = d := by
  rcases hlo with rfl | rfl <;> interval_cases d <;> decide

lemma byte12Lo_cases (t : TcpTcb) (flags : UInt8) : byte12Lo t flags = 0 ∨ byte12Lo t flags = 1 := by
  unfold byte12Lo acePackAe ae
  split_ifs <;> simp

variable {pmtu : UInt16}

lemma parse_syn (hsyn : isSyn flags = true) (h : data.drop 20 = optBuf t flags now pmtu++rest) :
    parseLoop data 40 20 {} = encoded t flags now pmtu := by
  have hopt : optBuf t flags now pmtu = mssOption (localMssForTcb t pmtu)++
      (windowScaleOption t.wsRequested++(timestampOption t now++([4,2]++List.replicate 1 1))) := by
    rw [optBuf,if_pos hsyn]
    simp [padded,mssOption,windowScaleOption,timestampOption,writeU16,writeU32]
  rw [hopt,append_assoc,append_assoc,append_assoc,append_assoc] at h
  have h24 := drop_more h (show 4 = _ from rfl)
  have h27 := drop_more h24 (show 3 = _ from rfl)
  have h37 := drop_more h27 (show 10 = _ from rfl)
  have h39 := drop_more h37 (show 2 = _ from rfl)
  rw [parse_mss h (by omega),parse_windowScale h24 (by omega),parse_timestamp h27 (by omega),
    parse_sackPermitted h37 (by omega),parse_nops h39 rfl,encoded,if_pos hsyn]

lemma parse_timestamps_and_blocks {pad : ℕ}
    (ts sack : Bool) (hsack : sack = true → 0 < t.sackBlockCount)
    (h : data.drop pos = (if ts then timestampOption t now else [])++
      ((if sack then sackOption t.sackBlocks t.sackBlockCount else [])++(List.replicate pad 1++rest)))
    (hoff : off = pos+(if ts then 10 else 0)+(if sack then 2+t.sackBlockCount*8 else 0)+pad) :
    parseLoop data off pos {} =
      { tsVal := if ts then some now else none
        tsEcr := if ts then some t.tsRecent else none
        sackBlocks := fun i => if sack ∧ i < t.sackBlockCount then t.sackBlocks i else {}
        sackBlockCount := if sack then t.sackBlockCount else 0} := by
  have hblocks : ∀ {pos opts}, data.drop pos =
        (if sack then sackOption t.sackBlocks t.sackBlockCount else [])++(List.replicate pad 1++rest) →
      off = pos+(if sack then 2+t.sackBlockCount*8 else 0)+pad → opts.sackBlocks = (fun _ => {}) →
      opts.sackBlockCount = 0 → parseLoop data off pos opts = {opts with
          sackBlocks := fun i => if sack ∧ i < t.sackBlockCount then t.sackBlocks i else {}
          sackBlockCount := if sack then t.sackBlockCount else 0} := by
    intro pos opts h hoff hold hzero
    rcases sack with _ | _
    · rw [parse_nops h hoff]
      simp only [Bool.false_eq_true,false_and,if_false,← hold,← hzero]
    simp only [if_true] at h hoff
    have hlen : 2+t.sackBlockCount*8 = (sackOption t.sackBlocks t.sackBlockCount).length :=
      (sack_length t.sackBlocks t.sackBlockCount true).symm
    rw [parse_sack h (hsack rfl) t.count_le (by omega),parse_nops (drop_more h hlen) (by omega)]
    simp only [true_and,if_true,hold]
  cases ts with
  | false => exact hblocks h (by simpa using hoff) rfl rfl
  | true =>
    simp only [if_true] at h hoff
    rw [parse_timestamp h (by omega)]
    exact hblocks (drop_more h rfl) (by omega) rfl rfl

lemma parse_plain
    (hsyn : isSyn flags = false) (h : data.drop 20 = optBuf t flags now pmtu++rest) :
    parseLoop data (20+(optBuf t flags now pmtu).length) 20 {} = encoded t flags now pmtu := by
  have hopt : optBuf t flags now pmtu =
      padded ((if t.tsEnabled then timestampOption t now else [])++
        (if sendsSack t flags then sackOption t.sackBlocks t.sackBlockCount else [])) := by
    rw [optBuf,hsyn]
    rfl
  rw [hopt,padded,append_assoc,append_assoc] at h
  rw [encoded,hsyn]
  refine parse_timestamps_and_blocks t.tsEnabled (sendsSack t flags) (fun hs => ?_) h ?_
  · simp only [sendsSack,Bool.and_eq_true,decide_eq_true_eq] at hs
    exact hs.1.2
  · rw [hopt,padded,length_append,length_append,length_replicate,timestamp_length,sack_length]
    omega

variable {seq : Option UInt32}

lemma fillTcpSegment_drop :
    (fillTcpSegment t flags data now pmtu seq).2.drop 20 = optBuf t flags now pmtu++data := by
  rw [fillTcpSegment]
  simp [writeU16,writeU32]

lemma fillTcpSegment_length : (fillTcpSegment t flags data now pmtu seq).2.length =
      20+(optBuf t flags now pmtu).length+data.length := by
  rw [fillTcpSegment]
  simp [writeU16,writeU32]
  omega

lemma fillTcpSegment_offset : byte (fillTcpSegment t flags data now pmtu seq).2 12 =
      (UInt8.ofNat ((20+(optBuf t flags now pmtu).length)/4) <<< 4 ||| byte12Lo t flags).toNat := by
  rw [fillTcpSegment]
  simp [writeU16,writeU32,byte]

/-- A connection that has seen `n` duplicate segments since its last ACK. -/
def duplicates (ts : Bool) : ℕ → TcpTcb
  | 0 => ⟨80,49152,false,1,1000,65535,false,2,2,ts,7,0,false,0,true,fun _ => {},0,by decide⟩
  | n+1 => reportDsack (duplicates ts n) (UInt32.ofNat (100*n)) (UInt32.ofNat (100*n+50))

end MoQiOS.TcpHeader
