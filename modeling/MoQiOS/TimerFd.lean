import MoQiOS.Runs

/-!
# Periodic timers behind descriptors

The timer pool, the scan of the scheduler tick with the hint that lets it be
skipped, and reads that drain the count. A scan is one step, and a read that
finds no expiration changes nothing. Each timer also records what reads returned
since it was armed, and the state how far the scans have come.
-/

namespace MoQiOS.TimerFd
open Runs Function

def maxTimerfdInstances : ℕ := 16
def maxU64 : ℕ := 2^64-1
def nsPerSec : ℕ := 1000000000
def ticksPerSec : ℕ := 100

def nsToTicks (ns : ℕ) : Option ℕ :=
  let ticksFromSec := ns/nsPerSec*ticksPerSec
  let ticksFromRem := (ns%nsPerSec*ticksPerSec+nsPerSec-1)/nsPerSec
  if ns = 0 then some 0
  else if maxU64/ticksPerSec < ns/nsPerSec ∨ maxU64-ticksFromRem < ticksFromSec then none
  else some (ticksFromSec+ticksFromRem)

structure TimerInstance where
  active : Bool
  intervalNs : ℕ
  expiryTick : ℕ
  expirations : ℕ
  valid : Bool
  reported : ℕ

def TimerInstance.armed (inst : TimerInstance) : Bool := inst.valid && inst.active

def TimerInstance.total (inst : TimerInstance) : ℕ := inst.reported+inst.expirations

/-- Every scan so far came before `scanned`. -/
structure State where
  pool : ℕ → TimerInstance
  hint : ℕ
  scanned : ℕ

def satAdd (a b : ℕ) : ℕ := min (a+b) maxU64

def expire (t : ℕ) (inst : TimerInstance) : TimerInstance :=
  if 0 < inst.intervalNs then
    let ticks := (nsToTicks inst.intervalNs).getD maxU64
    let missed := if 0 < ticks ∧ ticks ≠ maxU64 then 1+(t-inst.expiryTick)/ticks else 1
    { inst with
      expirations := satAdd inst.expirations missed
      expiryTick := if maxU64-t < ticks then maxU64 else t+ticks }
  else { inst with expirations := satAdd inst.expirations 1, active := false }

def scanOne (t : ℕ) (inst : TimerInstance) : TimerInstance :=
  if inst.armed ∧ inst.expiryTick ≤ t then expire t inst else inst

def scanAll (t : ℕ) (pool : ℕ → TimerInstance) (i : ℕ) : TimerInstance :=
  if i < maxTimerfdInstances then scanOne t (pool i) else pool i

/-- The hint begins at its largest value and is lowered by every timer still armed. -/
def rescan (pool : ℕ → TimerInstance) : ℕ :=
  (List.range maxTimerfdInstances).foldl
    (fun h i => if (pool i).armed then min h (pool i).expiryTick else h) maxU64

variable (s : State)

def due (t : ℕ) : Prop := s.hint ≠ maxU64 ∧ s.hint ≤ t

instance (t : ℕ) : Decidable (due s t) := inferInstanceAs (Decidable (_ ∧ _))

def timerTick (t : ℕ) : State :=
  if due s t then ⟨scanAll t s.pool,rescan (scanAll t s.pool),t+1⟩ else { s with scanned := t+1 }

variable (i : ℕ)

def timerfdRead : State :=
  let inst := s.pool i
  if maxTimerfdInstances ≤ i ∨ inst.valid = false ∨ inst.expirations = 0 then s
  else { s with pool := update s.pool i { inst with expirations := 0, reported := inst.total } }

/-- What `timerfdSettime` is given: the two times in nanoseconds if they are valid,
the delay that an absolute time leaves, and the tick count. -/
structure Setting where
  flagsOk : Bool
  value : Option ℕ
  interval : Option ℕ
  absolute : Option (Option ℕ)
  now : ℕ

def Setting.expiry (a : Setting) (valueTicks : ℕ) : Option ℕ :=
  let after d := if maxU64-a.now < d then none else some (a.now+d)
  match a.absolute with
  | none => after valueTicks
  | some none => none
  | some (some 0) => some a.now
  | some (some delta) => (nsToTicks delta).bind after

def timerfdSettime (a : Setting) : State × ℤ :=
  if maxTimerfdInstances ≤ i then (s,-9)
  else if !a.flagsOk then (s,-22)
  else
    match a.value, a.interval, a.value.bind nsToTicks with
    | some value, some interval, some valueTicks =>
      let inst := s.pool i
      if !inst.valid then (s,-9)
      else if value = 0 then
        ({ s with pool := update s.pool i { inst with active := false, expiryTick := 0, intervalNs := 0 } },0)
      else
        match a.expiry valueTicks with
        | none => ({ s with pool := update s.pool i { inst with intervalNs := interval } },-22)
        | some expiry =>
          ({ s with
             pool := update s.pool i ⟨true,interval,expiry,0,true,0⟩
             hint := min s.hint expiry },0)
    | _, _, _ => (s,-22)

inductive Op where
  | tick (t : ℕ)
  | read (i : ℕ)
  | settime (i : ℕ) (a : Setting)

def step (s : State) : Op → State
  | .tick t => timerTick s t
  | .read i => timerfdRead s i
  | .settime i a => (timerfdSettime s i a).1

variable (k interval : ℕ)

/-- Scan times increase, nothing saturates, and timer `k` is not set again. -/
def Ready : Op → Prop
  | .tick t => s.scanned ≤ t ∧ t+interval < maxU64
  | .read _ => True
  | .settime i _ => i ≠ k

/-- A scan that finds the timer expired comes a whole number of periods after the expiry. -/
def OnTime : Op → Prop
  | .tick t => (s.pool k).expiryTick ≤ t → interval ∣ t-(s.pool k).expiryTick
  | _ => True

/-- The next expiry follows the counted ones, and the last of these is not after
the scans so far. -/
structure Counts (first hint scanned : ℕ) (inst : TimerInstance) : Prop where
  live : inst.armed = true
  period : nsToTicks inst.intervalNs = some interval
  hint : hint ≤ inst.expiryTick
  expiry : inst.expiryTick = first+inst.total*interval
  recent : inst.total = 0 ∨ inst.expiryTick < scanned+interval

def Tracks (first : ℕ) (s : State) : Prop := Counts interval first s.hint s.scanned (s.pool k)

variable {s k interval} {first t : ℕ}

lemma nsToTicks_pos {ns : ℕ} (h : nsToTicks ns = some interval) (hp : 0 < interval) : 0 < ns := by
  rcases Nat.eq_zero_or_pos ns with rfl | hns
  · obtain rfl : 0 = interval := Option.some.inj h
    exact hp
  · exact hns

lemma rescan_le {pool : ℕ → TimerInstance} (hk : k < maxTimerfdInstances)
    (ha : (pool k).armed = true) : rescan pool ≤ (pool k).expiryTick := by
  rw [rescan,List.foldl_eq_foldr_reverse]
  generalize hl : (List.range maxTimerfdInstances).reverse = l
  have hmem : k ∈ l := by simpa [← hl] using hk
  clear hl
  induction l with
  | nil => cases hmem
  | cons i l ih =>
    rw [List.foldr_cons]
    rcases List.mem_cons.mp hmem with rfl | hin
    · rw [if_pos ha]
      exact min_le_right _ _
    split_ifs
    · exact (min_le_left _ _).trans (ih hin)
    · exact ih hin

lemma count_before_expiry {n : ℕ} (hlt : t < first+n*interval)
    (hle : n = 0 ∨ first+n*interval ≤ t+interval) :
    n = if t < first then 0 else 1+(t-first)/interval := by
  cases n with
  | zero => rw [if_pos (by omega)]
  | succ n =>
    have hle := hle.resolve_left n.succ_ne_zero
    rw [Nat.succ_mul] at hle
    have hdiv : (t-first)/interval = n := Nat.div_eq_of_lt_le (by omega) (by omega)
    rw [if_neg (by omega),hdiv,add_comm]

section
variable {hint scanned : ℕ} {inst : TimerInstance} (h : Counts interval first hint scanned inst)
include h

lemma Counts.moved {hint' scanned' : ℕ} (hh : hint' ≤ inst.expiryTick)
    (hs : scanned ≤ scanned') : Counts interval first hint' scanned' inst :=
  {h with hint := hh, recent := h.recent.imp_right fun hr => by omega}

variable (hp : 0 < interval) (hsat : t+interval < maxU64)
include hp hsat

lemma Counts.expired (ht : inst.expiryTick ≤ t) (hd : interval ∣ t-inst.expiryTick) :
    Counts interval first (expire t inst).expiryTick (t+1) (expire t inst) ∧
      t < (expire t inst).expiryTick := by
  obtain ⟨m,hm⟩ := hd
  have hmissed : (t-inst.expiryTick)/interval = m := by rw [hm,Nat.mul_div_cancel_left m hp]
  have hbig : t = first+(inst.total+m)*interval := by
    have he := h.expiry
    rw [add_mul,mul_comm m,← hm]
    omega
  have hle : inst.total+m ≤ t := by
    rw [hbig]
    exact (Nat.le_mul_of_pos_right _ hp).trans (Nat.le_add_left _ _)
  have hfit : inst.expirations+(1+m) ≤ maxU64 := by
    rw [TimerInstance.total] at hle
    omega
  have hnext : expire t inst =
      {inst with expirations := inst.expirations+(1+m), expiryTick := t+interval} := by
    rw [expire,if_pos (nsToTicks_pos h.period hp),h.period]
    simp only [Option.getD_some,hmissed]
    rw [if_neg (by omega),if_pos ⟨hp,by omega⟩,satAdd,min_eq_left hfit]
  rw [hnext]
  refine ⟨⟨h.live,h.period,le_rfl,?_,.inr ?_⟩,Nat.lt_add_of_pos_right hp⟩
  · simp only [TimerInstance.total] at hbig ⊢
    rw [hbig]
    ring
  · dsimp only
    omega

lemma Counts.scans (hinc : scanned ≤ t)
    (hd : inst.expiryTick ≤ t → interval ∣ t-inst.expiryTick) :
    Counts interval first (scanOne t inst).expiryTick (t+1) (scanOne t inst) ∧
      t < (scanOne t inst).expiryTick := by
  rw [scanOne]
  split_ifs with hc
  · exact h.expired hp hsat hc.2 (hd hc.2)
  · exact ⟨h.moved le_rfl (by omega),not_le.mp fun hle => hc ⟨h.live,hle⟩⟩

end

variable (h : Tracks k interval first s)
include h

lemma Tracks.tick (hk : k < maxTimerfdInstances) (hp : 0 < interval)
    (hr : Ready s k interval (.tick t)) (ho : OnTime s k interval (.tick t)) :
    Tracks k interval first (timerTick s t) ∧ t < ((timerTick s t).pool k).expiryTick := by
  have hpool : scanAll t s.pool k = scanOne t (s.pool k) := if_pos hk
  obtain ⟨hinc,hsat⟩ := hr
  rw [timerTick]
  split_ifs with hdue
  · have hscan := Counts.scans h hp hsat hinc ho
    rw [← hpool] at hscan
    exact ⟨hscan.1.moved (rescan_le hk hscan.1.live) le_rfl,hscan.2⟩
  · refine ⟨Counts.moved h h.hint (by dsimp only; omega),lt_of_lt_of_le ?_ h.hint⟩
    rw [due] at hdue
    omega

lemma Tracks.read (i : ℕ) : Tracks k interval first (timerfdRead s i) := by
  rw [timerfdRead]
  split_ifs
  · exact h
  rw [Tracks]
  by_cases hi : k = i
  · subst hi
    simp only [update_self]
    exact ⟨h.live,h.period,h.hint,h.expiry,h.recent⟩
  · simp only [update_of_ne hi]
    exact h

lemma Tracks.settime {i : ℕ} (hi : i ≠ k) (a : Setting) :
    Tracks k interval first (timerfdSettime s i a).1 := by
  have hsame : ∀ x hint, hint ≤ s.hint →
      Tracks k interval first ⟨update s.pool i x,hint,s.scanned⟩ := by
    intro x hint hle
    simp only [Tracks,update_of_ne hi.symm]
    exact Counts.moved h (hle.trans h.hint) le_rfl
  rw [timerfdSettime]
  split_ifs
  · exact h
  · exact h
  split
  · dsimp only
    split_ifs
    · exact h
    · exact hsame _ _ le_rfl
    split
    · exact hsame _ _ le_rfl
    · exact hsame _ _ (min_le_left _ _)
  · exact h

omit h
variable {a : Setting} {value ns : ℕ} (hv : a.value = some value) (hn : a.interval = some ns)
  (hvalue : value ≠ 0) (hticks : nsToTicks ns = some interval) (hs : (timerfdSettime s k a).2 = 0)
  (hfirst : ((timerfdSettime s k a).1.pool k).expiryTick = first)
include hv hn hvalue hticks hs hfirst

lemma timerfdSettime_tracks :
    k < maxTimerfdInstances ∧ Tracks k interval first (timerfdSettime s k a).1 := by
  rw [timerfdSettime] at hs hfirst ⊢
  split_ifs at hs hfirst ⊢ with hk hf
  · cases hs
  · cases hs
  rw [hv,hn] at hs hfirst ⊢
  rcases hvt : nsToTicks value with _ | valueTicks
  · simp [hvt] at hs
  simp only [Option.bind_some,hvt] at hs hfirst ⊢
  split_ifs at hs hfirst ⊢ with hvalid
  · cases hs
  rcases he : a.expiry valueTicks with _ | e
  · simp [he] at hs
  simp only [he,update_self] at hfirst
  subst hfirst
  simp only [Tracks,update_self]
  exact ⟨not_le.mp hk,rfl,hticks,min_le_right _ _,by simp [TimerInstance.total],.inl rfl⟩

theorem expirations_counted (hp : 0 < interval) {s' : State}
    (hr : Reaches (Guarded (fun s op => Ready s k interval op ∧ OnTime s k interval op) step)
      (timerfdSettime s k a).1 s')
    (hready : Ready s' k interval (.tick t)) (hon : OnTime s' k interval (.tick t)) :
    ((timerTick s' t).pool k).total = if t < first then 0 else 1+(t-first)/interval := by
  obtain ⟨hk,hset⟩ := timerfdSettime_tracks hv hn hvalue hticks hs hfirst
  have htracks : Tracks k interval first s' := by
    refine invariant ?_ hr hset
    rintro u op u' hu ⟨⟨hready,hon⟩,rfl⟩
    cases op with
    | tick t => exact (hu.tick hk hp hready hon).1
    | read i => exact hu.read i
    | settime i a => exact hu.settime hready a
  obtain ⟨hafter,hlt⟩ := htracks.tick hk hp hready hon
  have hscan : (timerTick s' t).scanned = t+1 := by
    rw [timerTick]
    split_ifs <;> rfl
  have hrecent := hafter.recent
  rw [hafter.expiry, hscan] at hrecent
  exact count_before_expiry (hafter.expiry ▸ hlt) (hrecent.imp_right fun hr => by omega)

omit hv hn hvalue hticks hs hfirst

def unset : State := ⟨fun _ => ⟨false,0,0,0,true,0⟩,maxU64,0⟩

def tenTicks : Setting := ⟨true,some 100000000,some 100000000,none,0⟩

theorem expirations_counted_on_time :
    ((timerTick (run step (timerfdSettime unset 0 tenTicks).1 [.tick 10, .read 0]) 20).pool 0).total =
      2 := by
  refine expirations_counted (s := unset) (k := 0) (a := tenTicks) (t := 20) rfl rfl (by decide)
    (by decide) (by decide) (by decide : _ = 10) (by decide : 0 < 10)
    (run_reaches (Reaches.start _ _) ?_) ?_ ?_
  · exact ⟨⟨⟨by decide,by decide⟩,fun _ => by decide⟩,⟨trivial,trivial⟩,trivial⟩
  · exact ⟨by decide,by decide⟩
  · exact fun _ => by decide

/-- Scanned at 15 and at 20, the timer has counted one of the expirations at 10 and 20. -/
theorem late_scan_loses_expiration :
    (timerfdSettime unset 0 tenTicks).2 = 0 ∧
    ((timerfdSettime unset 0 tenTicks).1.pool 0).expiryTick = 10 ∧
    Admissible (fun s op => Ready s 0 10 op) step (timerfdSettime unset 0 tenTicks).1
      [.tick 15, .tick 20] ∧
    ((timerTick (timerTick (timerfdSettime unset 0 tenTicks).1 15) 20).pool 0).total = 1 ∧
    1+(20-10)/10 = 2 :=
  ⟨by decide,by decide,
    ⟨⟨by decide,by decide⟩,⟨by decide,by decide⟩,trivial⟩,by decide,rfl⟩

end MoQiOS.TimerFd
