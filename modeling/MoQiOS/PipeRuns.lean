import MoQiOS.Pipes

/-!
# Runs of the pipes

Sixteen pipes and the read reservations handed out on them. A reservation is
committed at most once and then released. Nothing ties the reserved window of a
pipe to the reservation that made it: the release of one that is already
committed opens the window of the next.
-/

namespace MoQiOS.Pipes
open Runs RingMemory Function List Option

structure PipeReadToken where
  pipeIdx : Fin 16
  generation : ℕ
  copied : List UInt8
  committed : Bool

structure State where
  pipes : Fin 16 → Pipe
  tokens : ℕ → Option PipeReadToken

def start (refCount readRefs writeRefs generation : Fin 16 → ℕ) : State :=
  ⟨fun i => allocPipe (refCount i) (readRefs i) (writeRefs i) (generation i),fun _ => none⟩

def State.setPipe (s : State) (i : Fin 16) (p : Pipe) : State :=
  { s with pipes := update s.pipes i p }

def State.setToken (s : State) (k : ℕ) (t : Option PipeReadToken) : State :=
  { s with tokens := update s.tokens k t }

inductive Op where
  | write (i : Fin 16) (data : List UInt8) (n : ℕ)
  | read (i : Fin 16) (count : ℕ)
  | reserve (i : Fin 16) (count k : ℕ)
  | reserveWait (i : Fin 16) (count k : ℕ)
  | commit (k count : ℕ)
  | release (k : ℕ)
  | transfer (src dst : Fin 16) (count : ℕ)

def State.granted (s : State) (i : Fin 16) (k : ℕ) : Option (Pipe×List UInt8) → State
  | none => s
  | some (p,copied) => (s.setPipe i p).setToken k (some ⟨i,p.generation,copied,false⟩)

def State.onToken (s : State) (k : ℕ) (f : PipeReadToken → State) : State :=
  match s.tokens k with
  | none => s
  | some t => f t

def State.commit (s : State) (count k : ℕ) (t : PipeReadToken) : State :=
  (s.setPipe t.pipeIdx (pipeCommitRead (s.pipes t.pipeIdx) t.generation t.copied count)).setToken k
    (some { t with committed := true })

def State.release (s : State) (k : ℕ) (t : PipeReadToken) : State :=
  (s.setPipe t.pipeIdx (pipeReleaseRead (s.pipes t.pipeIdx) t.generation)).setToken k none

def State.transfer (s : State) (src dst : Fin 16) (count : ℕ) : State :=
  if src = dst then s
  else (s.setPipe src (pipeTransfer (s.pipes src) (s.pipes dst) count).1).setPipe dst
    (pipeTransfer (s.pipes src) (s.pipes dst) count).2

def step (s : State) : Op → State
  | .write i data n => s.setPipe i (pipeWrite (s.pipes i) data n).1
  | .read i count => s.setPipe i (pipeRead (s.pipes i) count)
  | .reserve i count k => s.granted i k (pipeReserveRead (s.pipes i) count)
  | .reserveWait i count k => s.granted i k (pipeReserveReadWait (s.pipes i) count)
  | .commit k count => s.onToken k (s.commit count k)
  | .release k => s.onToken k (s.release k)
  | .transfer src dst count => s.transfer src dst count

/-- New tokens have new numbers; a token is committed once and released at
its end. -/
def Ready (s : State) : Op → Prop
  | .reserve _ _ k => s.tokens k = none
  | .reserveWait _ _ k => s.tokens k = none
  | .commit k _ => ∃ t, s.tokens k = some t ∧ t.committed = false
  | .release k => ∃ t, s.tokens k = some t
  | _ => True

def Next : State → Op → State → Prop := Guarded Ready step

/-- A reservation is only made when the previous token of the pipe has been
released. -/
def ReadySolo (s : State) (c : Op) : Prop :=
  Ready s c ∧ match c with
    | .reserve i _ _ => ∀ k t, s.tokens k = some t → t.pipeIdx ≠ i
    | .reserveWait i _ _ => ∀ k t, s.tokens k = some t → t.pipeIdx ≠ i
    | _ => True

def Solo : State → Op → State → Prop := Guarded ReadySolo step

def AllBounded (s : State) : Prop := ∀ i, (s.pipes i).Bounded

variable {p : Pipe} {s s' : State}

lemma drain_bounded (h : p.Bounded) (n : ℕ) : (p.drain n).Bounded := by
  induction n generalizing p with
  | zero => exact h
  | succ n ih => exact ih h.get

lemma putAll_bounded (h : p.Bounded) (bytes : List UInt8) : (bytes.foldl Pipe.put p).Bounded :=
  foldlRecOn bytes Pipe.put h fun _ hq b _ => hq.put b

lemma AllBounded.setPipe (h : AllBounded s) (i : Fin 16) (hp : p.Bounded) :
    AllBounded (s.setPipe i p) := by
  intro j
  by_cases hj : j = i
  · subst hj
    simpa [State.setPipe] using hp
  · simpa [State.setPipe,update_of_ne hj] using h j

variable {k : ℕ}

lemma onToken_keeps {I : State → Prop} {f : PipeReadToken → State} (h : I s)
    (hf : ∀ t, s.tokens k = some t → I (f t)) : I (s.onToken k f) := by
  unfold State.onToken
  cases ht : s.tokens k with
  | none => exact h
  | some t => exact hf t ht

lemma AllBounded.granted (h : AllBounded s) (i : Fin 16) (k count : ℕ) :
    AllBounded (s.granted i k (pipeReserveRead (s.pipes i) count)) := by
  unfold pipeReserveRead
  split_ifs
  · exact h
  · exact h.setPipe i ⟨(h i).head,(h i).tail⟩

lemma AllBounded.transfer (h : AllBounded s) (src dst : Fin 16) (count : ℕ) :
    AllBounded (s.transfer src dst count) := by
  unfold State.transfer pipeTransfer
  split_ifs
  · exact h
  · exact (h.setPipe src (h src)).setPipe dst (h dst)
  · exact (h.setPipe src (drain_bounded (h src) _)).setPipe dst (putAll_bounded (h dst) _)

lemma AllBounded.step (h : AllBounded s) (c : Op) : AllBounded (step s c) := by
  cases c with
  | write i data n =>
    apply h.setPipe i
    unfold pipeWrite
    split_ifs
    · exact h i
    · exact (h i).fill _
    · exact h i
  | read i count =>
    apply h.setPipe i
    unfold pipeRead
    split_ifs
    · exact h i
    · exact drain_bounded (h i) _
  | reserve i count k => exact h.granted i k count
  | reserveWait i count k =>
    simp only [Pipes.step,pipeReserveReadWait]
    split_ifs
    · exact h
    · exact h.granted i k count
  | commit k count =>
    apply onToken_keeps h
    intro t _
    apply h.setPipe t.pipeIdx
    unfold pipeCommitRead
    split_ifs
    · exact h _
    · exact ⟨Nat.mod_lt _ (by decide),(h _).tail⟩
  | release k =>
    apply onToken_keeps h
    intro t _
    apply h.setPipe t.pipeIdx
    unfold pipeReleaseRead
    split_ifs
    · exact ⟨(h _).head,(h _).tail⟩
    · exact h _
  | transfer src dst count => exact h.transfer src dst count

/-- References, generation and window stay, and a reserved prefix stays. -/
structure Kept (p p' : Pipe) : Prop where
  refs : p'.refCount = p.refCount
  generation : p'.generation = p.generation
  window : p'.readReservation = p.readReservation
  content : p.readReservation = 0 ∨ p.content <+: p'.content

lemma Kept.refl (p : Pipe) : Kept p p := ⟨rfl,rfl,rfl,.inr (prefix_refl _)⟩

lemma Kept.trans {p₁ p₂ p₃ : Pipe} (h : Kept p₁ p₂) (h' : Kept p₂ p₃) : Kept p₁ p₃ := by
  refine ⟨h'.refs.trans h.refs,h'.generation.trans h.generation,h'.window.trans h.window,?_⟩
  rcases h.content with hz | hc
  · exact .inl hz
  rcases h'.content with hz | hc'
  · exact .inl (h.window ▸ hz)
  · exact .inr (hc.trans hc')

lemma put_kept (h : p.Bounded) (hroom : p.used < pipeBufSize-1) (b : UInt8) : Kept p (p.put b) := by
  refine ⟨rfl,rfl,rfl,.inr ?_⟩
  rw [h.put_content hroom b]
  exact prefix_append _ _

lemma fill_kept (h : p.Bounded) (data : List UInt8) : Kept p (p.fill data).1 := by
  induction data generalizing p with
  | nil => exact Kept.refl p
  | cons b rest ih =>
    unfold Pipe.fill
    split_ifs with hfull
    · exact Kept.refl p
    have hlt := h.used_lt
    rw [h.full_iff] at hfull
    exact (put_kept h (by omega) b).trans (ih (h.put b))

lemma putAll_kept (h : p.Bounded) (bytes : List UInt8)
    (hroom : p.used+bytes.length ≤ pipeBufSize-1) : Kept p (bytes.foldl Pipe.put p) := by
  induction bytes generalizing p with
  | nil => exact Kept.refl p
  | cons b rest ih =>
    simp only [length_cons] at hroom
    have hused := h.put_used (by omega) b
    exact (put_kept h (by omega) b).trans (ih (h.put b) (by omega))

lemma drain_kept (hz : p.readReservation = 0) (n : ℕ) : Kept p (p.drain n) := by
  induction n generalizing p with
  | zero => exact Kept.refl p
  | succ n ih =>
    have hget : Kept p p.get := ⟨rfl,rfl,rfl,.inl hz⟩
    exact hget.trans (ih hz)

lemma write_kept (h : p.Bounded) (data : List UInt8) (n : ℕ) : Kept p (pipeWrite p data n).1 := by
  unfold pipeWrite
  split_ifs
  · exact Kept.refl p
  · exact fill_kept h _
  · exact Kept.refl p

lemma read_kept (p : Pipe) (count : ℕ) : Kept p (pipeRead p count) := by
  unfold pipeRead
  split_ifs with hc
  · exact Kept.refl p
  · simp only [not_or,not_not] at hc
    exact drain_kept hc.2.1 _

lemma transfer_kept (src : Pipe) {dst : Pipe} (hd : dst.Bounded) (count : ℕ) :
    Kept src (pipeTransfer src dst count).1 ∧ Kept dst (pipeTransfer src dst count).2 := by
  unfold pipeTransfer
  split_ifs with hc
  · exact ⟨Kept.refl src,Kept.refl dst⟩
  simp only [not_or,not_not] at hc
  have hlt := hd.used_lt
  refine ⟨drain_kept hc.2.2.1 _,putAll_kept hd _ ?_⟩
  rw [held_length,Pipe.room]
  omega

/-- The window of a pipe is the one its only token reserved. -/
structure Inv (s : State) : Prop where
  sound : ∀ i, Sound (s.pipes i)
  only : ∀ k k' t t', s.tokens k = some t → s.tokens k' = some t' → t.pipeIdx = t'.pipeIdx → k = k'
  live : ∀ k t, s.tokens k = some t → (s.pipes t.pipeIdx).refCount ≠ 0 ∧
    (s.pipes t.pipeIdx).generation = t.generation
  idle : ∀ i, (∀ k t, s.tokens k = some t → t.pipeIdx ≠ i) → (s.pipes i).readReservation = 0
  window : ∀ k t, s.tokens k = some t → t.committed = false →
    (s.pipes t.pipeIdx).readReservation = t.copied.length ∧
      t.copied <+: (s.pipes t.pipeIdx).content

lemma start_inv (refCount readRefs writeRefs generation : Fin 16 → ℕ) :
    Inv (start refCount readRefs writeRefs generation) := by
  constructor
  · exact fun i => alloc_sound _ _ _ _
  · exact nofun
  · exact nofun
  · exact fun _ _ => rfl
  · exact nofun

lemma setPipe_at (s : State) (i j : Fin 16) (p : Pipe) :
    (s.setPipe i p).pipes j = if j = i then p else s.pipes j := by
  simp [State.setPipe,update_apply]

lemma Inv.setPipe (h : Inv s) (i : Fin 16) (hs : Sound p) (hk : Kept (s.pipes i) p) :
    Inv (s.setPipe i p) := by
  constructor
  · intro j
    rw [setPipe_at]
    split_ifs
    · exact hs
    · exact h.sound j
  · exact h.only
  · intro k t ht
    rw [setPipe_at]
    split_ifs with hi
    · rw [hk.refs,hk.generation,← hi]
      exact h.live k t ht
    · exact h.live k t ht
  · intro j hj
    rw [setPipe_at]
    split_ifs with hi
    · rw [hk.window,← hi]
      exact h.idle j hj
    · exact h.idle j hj
  · intro k t ht hc
    obtain ⟨hw,hp⟩ := h.window k t ht hc
    rw [setPipe_at]
    split_ifs with hi
    · rw [hi] at hw hp
      refine ⟨hk.window.trans hw,?_⟩
      rcases hk.content with hz | hc'
      · have : t.copied = [] := eq_nil_of_length_eq_zero (hw.symm.trans hz)
        rw [this]
        exact nil_prefix
      · exact hp.trans hc'
    · exact ⟨hw,hp⟩

lemma setToken_at (s : State) (k k' : ℕ) (t : Option PipeReadToken) :
    (s.setToken k t).tokens k' = if k' = k then t else s.tokens k' := by
  simp [State.setToken,update_apply]

variable {i : Fin 16}

/-- A pipe and the only token it may have change together. -/
lemma Inv.exchange (h : Inv s) {o : Option PipeReadToken} (hs : Sound p)
    (hold : ∀ t, s.tokens k = some t → t.pipeIdx = i)
    (halone : ∀ k' t, s.tokens k' = some t → k' ≠ k → t.pipeIdx ≠ i)
    (hnew : ∀ t, o = some t → t.pipeIdx = i ∧ (p.refCount ≠ 0 ∧ p.generation = t.generation) ∧
      (t.committed = false → p.readReservation = t.copied.length ∧ t.copied <+: p.content))
    (hnone : o = none → p.readReservation = 0) : Inv ((s.setPipe i p).setToken k o) := by
  have htoken : ∀ k' t, ((s.setPipe i p).setToken k o).tokens k' = some t →
      k' = k ∧ o = some t ∨ k' ≠ k ∧ s.tokens k' = some t := by
    intro k' t ht
    rw [setToken_at] at ht
    split_ifs at ht with hk
    · exact .inl ⟨hk,ht⟩
    · exact .inr ⟨hk,ht⟩
  have hat : ∀ j, ((s.setPipe i p).setToken k o).pipes j = if j = i then p else s.pipes j :=
    fun j => setPipe_at s i j p
  constructor
  · intro j
    rw [hat]
    split_ifs
    · exact hs
    · exact h.sound j
  · intro k₁ k₂ t₁ t₂ h1 h2 hi
    rcases htoken k₁ t₁ h1 with ⟨hk1,ho1⟩ | ⟨hk1,ht1⟩
    · rcases htoken k₂ t₂ h2 with ⟨hk2,_⟩ | ⟨hk2,ht2⟩
      · exact hk1.trans hk2.symm
      · exact absurd (hi.symm.trans (hnew t₁ ho1).1) (halone k₂ t₂ ht2 hk2)
    · rcases htoken k₂ t₂ h2 with ⟨_,ho2⟩ | ⟨_,ht2⟩
      · exact absurd (hi.trans (hnew t₂ ho2).1) (halone k₁ t₁ ht1 hk1)
      · exact h.only k₁ k₂ t₁ t₂ ht1 ht2 hi
  · intro k' t ht
    rw [hat]
    rcases htoken k' t ht with ⟨_,ho⟩ | ⟨hk,ht⟩
    · rw [if_pos (hnew t ho).1]
      exact (hnew t ho).2.1
    · rw [if_neg (halone k' t ht hk)]
      exact h.live k' t ht
  · intro j hj
    rw [hat]
    split_ifs with hji
    · apply hnone
      cases o with
      | none => rfl
      | some t =>
        have hk : ((s.setPipe i p).setToken k (some t)).tokens k = some t := by
          rw [setToken_at,if_pos rfl]
        exact absurd ((hnew t rfl).1.trans hji.symm) (hj k t hk)
    apply h.idle j
    intro k' t ht
    by_cases hk : k' = k
    · rw [hk] at ht
      exact (hold t ht) ▸ Ne.symm hji
    apply hj k' t
    rw [setToken_at,if_neg hk]
    exact ht
  · intro k' t ht hc
    rw [hat]
    rcases htoken k' t ht with ⟨_,ho⟩ | ⟨hk,ht⟩
    · rw [if_pos (hnew t ho).1]
      exact (hnew t ho).2.2 hc
    · rw [if_neg (halone k' t ht hk)]
      exact h.window k' t ht hc

variable {count : ℕ}

lemma Inv.reserve (h : Inv s) (hfree : s.tokens k = none)
    (hsolo : ∀ k t, s.tokens k = some t → t.pipeIdx ≠ i) :
    Inv (s.granted i k (pipeReserveRead (s.pipes i) count)) := by
  unfold pipeReserveRead
  split_ifs with hc
  · exact h
  simp only [not_or,not_not] at hc
  have hs := h.sound i
  apply h.exchange
  · exact ⟨⟨hs.bounded.head,hs.bounded.tail⟩,hs.stream⟩
  · intro t ht
    rw [hfree] at ht
    cases ht
  · exact fun k' t ht _ => hsolo k' t ht
  · intro t ht
    obtain rfl := some.inj ht
    refine ⟨rfl,⟨hc.1,rfl⟩,fun _ => ⟨(held_length _ _ _ _).symm,?_⟩⟩
    change held _ _ _ _ <+: held (s.pipes i).buf pipeBufSize (s.pipes i).head (s.pipes i).used
    rw [held_take _ _ _ (Nat.min_le_right count (s.pipes i).used)]
    exact take_prefix _ _
  · exact nofun

lemma commit_sound (h : Sound p) {generation : ℕ} {copied : List UInt8} (count : ℕ)
    (hw : p.readReservation = copied.length) (hp : copied <+: p.content) :
    Sound (pipeCommitRead p generation copied count) := by
  unfold pipeCommitRead
  split_ifs
  · exact h
  have hlen := hp.length_le
  rw [content_length] at hlen
  have hn : min count p.readReservation ≤ p.used := by omega
  refine ⟨⟨Nat.mod_lt _ (by decide),h.bounded.tail⟩,?_⟩
  have hdrop : Pipe.content {p with
      head := (p.head+min count p.readReservation)%pipeBufSize
      readReservation := p.readReservation-min count p.readReservation
      consumed := p.consumed++copied.take (min count p.readReservation)} =
      p.content.drop (min count p.readReservation) := h.bounded.advance_content hn
  have htake : copied.take (min count p.readReservation) =
      p.content.take (min count p.readReservation) := by
    obtain ⟨rest,hrest⟩ := hp
    rw [← hrest,take_append_of_le_length (by omega)]
  rw [hdrop]
  dsimp only
  rw [htake,append_assoc,take_append_drop]
  exact h.stream

variable {t : PipeReadToken}

lemma Inv.commit (h : Inv s) (ht : s.tokens k = some t)
    (hc : t.committed = false) : Inv (s.commit count k t) := by
  obtain ⟨hw,hp⟩ := h.window k t ht hc
  have hrefs : ∀ p : Pipe, (pipeCommitRead p t.generation t.copied count).refCount = p.refCount ∧
      (pipeCommitRead p t.generation t.copied count).generation = p.generation := by
    intro p
    unfold pipeCommitRead
    split_ifs <;> exact ⟨rfl,rfl⟩
  apply h.exchange
  · exact commit_sound (h.sound _) count hw hp
  · intro t' ht'
    rw [ht] at ht'
    rw [← some.inj ht']
  · exact fun k' t' ht' hk hi => hk (h.only k' k t' t ht' ht hi)
  · intro t' ht'
    obtain rfl := some.inj ht'
    refine ⟨rfl,?_,nofun⟩
    rw [(hrefs _).1,(hrefs _).2]
    exact h.live k t ht
  · exact nofun

lemma Inv.release (h : Inv s) (ht : s.tokens k = some t) : Inv (s.release k t) := by
  obtain ⟨href,hgen⟩ := h.live k t ht
  have hs := h.sound t.pipeIdx
  have hrel : pipeReleaseRead (s.pipes t.pipeIdx) t.generation =
      {s.pipes t.pipeIdx with readReservation := 0} := if_pos ⟨href,hgen⟩
  unfold State.release
  rw [hrel]
  apply h.exchange
  · exact ⟨⟨hs.bounded.head,hs.bounded.tail⟩,hs.stream⟩
  · intro t' ht'
    rw [ht] at ht'
    rw [← some.inj ht']
  · exact fun k' t' ht' hk hi => hk (h.only k' k t' t ht' ht hi)
  · exact nofun
  · exact fun _ => rfl

lemma Inv.transfer (h : Inv s) (src dst : Fin 16) (count : ℕ) :
    Inv (s.transfer src dst count) := by
  unfold State.transfer
  split_ifs with hsame
  · exact h
  have hs := h.sound src
  have hd := h.sound dst
  have hsound := hs.transfer hd count
  have hkept := transfer_kept (s.pipes src) hd.bounded count
  have hmid := h.setPipe src hsound.1 hkept.1
  apply hmid.setPipe dst hsound.2
  rw [setPipe_at,if_neg (Ne.symm hsame)]
  exact hkept.2

lemma Inv.solo (h : Inv s) {c : Op} (hn : Solo s c s') : Inv s' := by
  obtain ⟨⟨hr,hsolo⟩,rfl⟩ := hn
  cases c with
  | write i data n => exact h.setPipe i ((h.sound i).write data n) (write_kept (h.sound i).bounded data n)
  | read i count => exact h.setPipe i ((h.sound i).read count) (read_kept _ count)
  | reserve i count k => exact h.reserve hr hsolo
  | reserveWait i count k =>
    simp only [step,pipeReserveReadWait]
    split_ifs
    · exact h
    · exact h.reserve hr hsolo
  | commit k count =>
    apply onToken_keeps h
    intro t ht
    obtain ⟨t',ht',hc⟩ := hr
    obtain rfl := Option.mem_unique ht ht'
    exact h.commit ht hc
  | release k =>
    apply onToken_keeps h
    intro t ht
    exact h.release ht
  | transfer src dst count => exact h.transfer src dst count

theorem pipe_stream_integrity {refCount readRefs writeRefs generation : Fin 16 → ℕ}
    (h : Reaches Next (start refCount readRefs writeRefs generation) s) :
    (∀ i, (s.pipes i).used+(s.pipes i).room = 4095) ∧ (∀ i (data : List UInt8), data.length ≤ 4095 →
      pipeWrite (s.pipes i) data 0 = (s.pipes i,0) ∨
      (pipeWrite (s.pipes i) data 0).1.accepted = (s.pipes i).accepted++data ∧
        (pipeWrite (s.pipes i) data 0).2 = data.length) ∧
    (Reaches Solo (start refCount readRefs writeRefs generation) s →
      ∀ i, (s.pipes i).consumed <+: (s.pipes i).accepted) := by
  have hb : AllBounded s := invariant (I := AllBounded)
    (fun u c v hi hn => by obtain ⟨-,rfl⟩ := hn; exact hi.step c) h
    (fun i => (alloc_sound _ _ _ _).bounded)
  refine ⟨fun i => (hb i).used_room,fun i data hlen => write_whole_or_nothing (hb i) hlen,?_⟩
  intro hsolo i
  have hinv := invariant (I := Inv) (fun _ _ _ hi hn => hi.solo hn) hsolo (start_inv _ _ _ _)
  rw [(hinv.sound i).stream]
  exact prefix_append _ _

def openPipe (i : Fin 16) : ℕ := if i = 0 then 1 else 0

def opened : State := start openPipe openPipe openPipe (fun _ => 0)

/-- Token 0 is committed in full, token 1 reserves the next byte, the release
of token 0 opens the window of token 1 to a reader, token 2 reserves what
follows, and the commit of token 1 moves the head over it. -/
def crossed : List Op :=
  [.write 0 [65,66,67] 0,.reserve 0 1 0,.commit 0 1,.reserve 0 1 1,.release 0,.read 0 1,
    .reserve 0 1 2,.commit 1 1]

theorem byte_consumed_twice_and_byte_lost : Reaches Next opened (run step opened crossed) ∧
    ((run step opened crossed).pipes 0).accepted = [65,66,67] ∧
    ((run step opened crossed).pipes 0).consumed = [65,66,66] ∧
    ((run step opened crossed).pipes 0).used = 0 := by
  refine ⟨run_reaches (Reaches.start _ _) ?_,by decide,by decide,by decide⟩
  refine ⟨trivial,rfl,⟨_,rfl,rfl⟩,rfl,⟨_,rfl⟩,trivial,rfl,⟨_,rfl,rfl⟩,trivial⟩

theorem pipe_stream_integrity_opened :
    ((run step opened [.write 0 [65,66,67] 0,.read 0 2]).pipes 0).consumed = [65,66] ∧
    ((run step opened [.write 0 [65,66,67] 0,.read 0 2]).pipes 0).consumed <+:
      ((run step opened [.write 0 [65,66,67] 0,.read 0 2]).pipes 0).accepted := by
  have hnext : Reaches Next opened (run step opened [.write 0 [65,66,67] 0,.read 0 2]) :=
    run_reaches (Reaches.start _ _) ⟨trivial,trivial,trivial⟩
  have hsolo : Reaches Solo opened (run step opened [.write 0 [65,66,67] 0,.read 0 2]) :=
    run_reaches (Reaches.start _ _) ⟨⟨trivial,trivial⟩,⟨trivial,trivial⟩,trivial⟩
  exact ⟨by decide,(pipe_stream_integrity hnext).2.2 hsolo 0⟩

end MoQiOS.Pipes
