import MoQiOS.WritebackFlightSteps
import MoQiOS.WritebackRuns

/-!
# No accepted byte is lost

As long as a slot has one device write at a time and is not dropped during
it, every accepted byte is in a dirty buffer, under way or on the disk, and
device writes of a byte land in the order of staging. Two flushers of one
buffer, or an invalidation during a flush that fails, break this.
-/

namespace MoQiOS.WritebackFlights
open Writeback Runs Function List
set_option maxRecDepth 9000

lemma content_fill (b : DirtyBuffer) (tags : ℕ → ℕ) (r : Request) (n time : ℕ)
    (hkey : b.byteOffset = r.byteOffset) (k : ℕ) :
    content {b with data := r.data++b.data.drop r.data.length, dirty := true, dirtyTime := time}
      (fun k => if r.covers k then n else tags k) k =
      if r.covers k then r.cell n k else content b tags k := by
  unfold content Request.cell
  rw [hkey]
  by_cases hle : r.byteOffset ≤ k
  · rw [if_pos hle,if_pos hle]
    by_cases hlt : k < r.byteOffset+r.data.length
    · have hc : r.covers k := ⟨hle,hlt⟩
      rw [getElem?_append_left (by omega)]
      simp only [if_pos hc]
    have hc : ¬r.covers k := fun hc => hlt hc.2
    rw [getElem?_append_right (by omega),getElem?_drop,
      show r.data.length+(k-r.byteOffset-r.data.length) = k-r.byteOffset by omega]
    simp only [if_neg hc]
  · have hc : ¬r.covers k := fun hc => hle hc.1
    rw [if_neg hle,if_neg hle,if_neg hc]

variable {s : Live} {i : ℕ} {r : Request}

lemma put_stored (hi : i < bufferCount)
    (hused : s.cache.inUseBm i = true) (hfile : (s.cache.buffers i).file = r.file)
    (hkey : (s.cache.buffers i).byteOffset = r.byteOffset) : Stored s (put s i r) i r := by
  have hbuf : (put s i r).cache.buffers i = {s.cache.buffers i with
      data := r.data++(s.cache.buffers i).data.drop r.data.length
      dirty := true
      dirtyTime := s.cache.wbTick} := update_self _ _ _
  have htags : (put s i r).tags i = fun k => if r.covers k then s.clock else s.tags i k :=
    update_self _ _ _
  refine ⟨hi,fun j hj => ?_,hused,?_,?_,fun _ => ⟨hfile,hkey⟩,fun k => ?_,rfl,rfl,rfl,rfl,rfl⟩
  · exact ⟨update_of_ne hj _ _,update_of_ne hj _ _,rfl⟩
  · rw [hbuf]
  · rw [hbuf,hfile]
  · rw [Live.cell,hbuf,htags,if_pos hused]
    exact content_fill _ _ r _ _ hkey k

lemma claimFor_stored (hi : i < bufferCount)
    (hfree : s.cache.inUseBm i = false) : Stored s (claimFor s i r) i r := by
  have hbuf : (claim s.cache i r.file r.fileIdx r.byteOffset).buffers i =
      ⟨r.file,r.fileIdx,r.byteOffset,[],false,0⟩ := update_self _ _ _
  have hst := put_stored (s := {s with cache := claim s.cache i r.file r.fileIdx r.byteOffset}) (r := r)
    hi (update_self _ _ _) (by rw [hbuf]) (by rw [hbuf])
  refine ⟨hi,fun j hj => ?_,hst.used,hst.dirty,hst.file,fun h => ?_,fun k => ?_,rfl,rfl,rfl,rfl,rfl⟩
  · obtain ⟨h1,h2,h3⟩ := hst.other j hj
    exact ⟨h1.trans (update_of_ne hj _ _),h2,h3.trans (update_of_ne hj _ _)⟩
  · rw [hfree] at h
    cases h
  · have hempty : content ⟨r.file,r.fileIdx,r.byteOffset,[],false,0⟩ (s.tags i) k = none := by
      unfold content
      split <;> rfl
    have hcell := hst.cell k
    rw [if_pos (show (claim s.cache i r.file r.fileIdx r.byteOffset).inUseBm i = true from
      update_self _ _ _)] at hcell
    rw [hfree]
    refine hcell.trans ?_
    split
    · rfl
    · rw [Live.cell,hbuf]
      exact hempty

lemma claimFor_release (s : Live) (i : ℕ) (r : Request) : claimFor (release s i) i r = claimFor s i r := by
  unfold claimFor release claim State.setBuffer
  simp only [update_idem]

lemma freeSlot_none {c : State} (h : freeSlot c = none) (hi : i < bufferCount) :
    c.inUseBm i = true := by
  have := find?_eq_none.mp h i (mem_range.mpr hi)
  simpa using this

lemma oldestDirty_lt (c : State) : oldestDirty c < bufferCount := by
  have hpos : 0 < bufferCount := by with_unfolding_all decide
  have hfold : ∀ (l : List ℕ) (best : ℕ×ℕ), (∀ i ∈ l, i < bufferCount) → best.1 < bufferCount →
      (l.foldl (fun best i =>
        if c.dirtyBm i ∧ (c.buffers i).dirtyTime < best.2 then (i,(c.buffers i).dirtyTime) else best)
        best).1 < bufferCount := by
    intro l
    induction l with
    | nil => exact fun best _ hb => hb
    | cons i l ih =>
      intro best hl hb
      refine ih _ (fun j hj => hl j (mem_cons_of_mem i hj)) ?_
      dsimp only
      split
      · exact hl i mem_cons_self
      · exact hb
  exact hfold _ _ (fun i hi => mem_range.mp hi) hpos

variable {task : ℕ}

lemma Sound.stage (h : Sound s) (hready : Ready s (.stage task r))
    (hserial : Serial s (.stage task r)) : Sound (stage s task r) := by
  obtain ⟨ht,hidle⟩ := hready
  unfold WritebackFlights.stage
  cases hfind : findBufferLocked s.cache r.file r.byteOffset with
  | some i =>
    simp only [Serial,hfind] at hserial
    obtain ⟨hi,hused,hfile,hkey⟩ := findBuffer_some hfind
    exact h.store (put_stored hi hused hfile hkey) hserial
  | none =>
    cases hfree : freeSlot s.cache with
    | some i =>
      simp only [Serial,hfind,hfree] at hserial
      obtain ⟨hi,hunused⟩ := freeSlot_some hfree
      exact h.store (claimFor_stored hi hunused) hserial
    | none =>
      simp only [Serial,hfind,hfree] at hserial
      have hi := oldestDirty_lt s.cache
      exact h.depart (some r) ht (Option.isNone_iff_eq_none.mp hidle) hi (freeSlot_none hfree hi) hserial

lemma Sound.settle (h : Sound s) {f : Flight} (hft : s.flights task = some f)
    {ok : Bool} (hres : f.result = some ok) (hserial : ∀ r ∈ f.request, Apart s f.slot r) :
    Sound (settle s task f ok) := by
  cases ok with
  | false =>
    have ha := setDirty_alike s f.slot true (update s.flights task none)
    refine h.retire hft (c := s.cache.setDirty f.slot true) (fun j hj => ⟨?_,rfl⟩) (fun _ => ?_) rfl
      ha.holds.mp fun hx => .inl (ha.holds.mpr hx)
    · rw [setDirty_buffers,if_neg hj]
    · rw [setDirty_buffers,if_pos rfl]
  | true =>
    cases hdirty : (s.cache.buffers f.slot).dirty with
    | true =>
      have heq : WritebackFlights.settle s task f true =
          {s with cache := s.cache, flights := update s.flights task none} := by
        unfold WritebackFlights.settle
        simp only [hdirty]
        rfl
      rw [heq]
      exact h.retire hft (fun _ _ => ⟨rfl,rfl⟩) (fun _ => hdirty) rfl
        (fun hx => ⟨hx.lt,hx.used,hx.file,hx.cell⟩) fun hx => .inl ⟨hx.lt,hx.used,hx.file,hx.cell⟩
    | false =>
      have hfree := h.free hft hres hdirty
      cases hreq : f.request with
      | none =>
        have heq : WritebackFlights.settle s task f true =
            release {s with flights := update s.flights task none} f.slot := by
          unfold WritebackFlights.settle
          simp only [hdirty,hreq]
          rfl
        rw [heq]
        exact hfree
      | some r =>
        have heq : WritebackFlights.settle s task f true = claimFor
            (release {s with flights := update s.flights task none} f.slot) f.slot r := by
          rw [claimFor_release]
          unfold WritebackFlights.settle
          simp only [hdirty,hreq]
          rfl
        have hi := (h.slot task f hft).1
        have hap := hserial r hreq
        rw [heq]
        refine hfree.store (claimFor_stored hi (update_self _ _ _)) ?_
        intro j hj hji hju
        exact hap j hj hji ((update_of_ne hji _ _).symm.trans hju)

lemma Sound.drop (h : Sound s) {file : File} (hserial : Serial s (.drop file)) :
    drop s file = s := by
  have hnone : ∀ i, ¬dropped s file i := by
    rintro i ⟨hi,hused,hfile,hclean⟩
    obtain ⟨t,f,hf,rfl⟩ := h.idle i hi hused hclean
    exact hserial t (h.bounded t f hf) f hf hfile
  unfold WritebackFlights.drop
  simp only [if_neg (hnone _)]

lemma Sound.next {t : Live} (h : Sound s) {op : Op} (hn : SerialNext s op t) : Sound t := by
  obtain ⟨⟨hready,hserial⟩,rfl⟩ := hn
  cases op with
  | stage task r => exact h.stage hready hserial
  | flush task i =>
    obtain ⟨ht,hidle,hi,hused,-⟩ := hready
    exact h.depart none ht (Option.isNone_iff_eq_none.mp hidle) hi hused hserial
  | land task ok =>
    obtain ⟨f,hf,hres⟩ := hready
    have hf : s.flights task = some f := hf
    have heq : step s (.land task ok) = WritebackFlights.reach s task f ok := by
      rw [step,land]
      rw [hf]
    rw [heq]
    exact h.reach hf hres ok
  | finish task =>
    obtain ⟨f,hf,hres⟩ := hready
    obtain ⟨ok,hok⟩ := Option.isSome_iff_exists.mp hres
    have hf : s.flights task = some f := hf
    have heq : step s (.finish task) = WritebackFlights.settle s task f ok := by
      rw [step,finish]
      simp only [hf,hok]
    rw [heq]
    exact h.settle hf hok (hserial f hf)
  | drop file =>
    have heq : step s (.drop file) = s := h.drop hserial
    rw [heq]
    exact h

instance decidableReady (s : Live) (op : Op) : Decidable (Ready s op) := by
  cases op <;> dsimp only [Ready] <;> infer_instance

instance (s : Live) (i : ℕ) : Decidable (Grounded s i) :=
  inferInstanceAs (Decidable (∀ t < s.tasks, ∀ f ∈ s.flights t, f.slot ≠ i))

instance (s : Live) (i : ℕ) (r : Request) : Decidable (Apart s i r) :=
  inferInstanceAs (Decidable (∀ j < bufferCount, _ → _ → _ → _))

instance decidableSerial (s : Live) : ∀ op, Decidable (Serial s op)
  | .stage _ r => by
    unfold Serial
    dsimp only
    split <;> infer_instance
  | .flush _ i => inferInstanceAs (Decidable (Grounded s i))
  | .land _ _ => .isTrue trivial
  | .finish task =>
    inferInstanceAs (Decidable (∀ f ∈ s.flights task, ∀ r ∈ f.request, Apart s f.slot r))
  | .drop file =>
    inferInstanceAs (Decidable (∀ t < s.tasks, ∀ f ∈ s.flights t, (s.cache.buffers f.slot).file ≠ file))

def sampleFile : File := ⟨.ext2,3⟩

def sampleStart : Live := start 2 (fun _ _ => 3) (fun _ _ => 0)

def stagedAgain : List Op :=
  [.stage 0 ⟨sampleFile,0,0,[1]⟩,.flush 0 0,.stage 1 ⟨sampleFile,0,0,[2]⟩,.land 0 true,.finish 0]

/-- A second flush of the same slot overtakes the first one. -/
def overtaken : List Op :=
  [.stage 0 ⟨sampleFile,0,0,[1]⟩,.flush 0 0,.stage 1 ⟨sampleFile,0,0,[2]⟩,.flush 1 0,.land 1 true,
    .land 0 true,.finish 1,.finish 0]

/-- The buffer is dropped during a flush that fails. -/
def droppedUnderWay : List Op :=
  [.stage 0 ⟨sampleFile,0,0,[1]⟩,.flush 0 0,.drop sampleFile,.land 0 false,.finish 0]

def Overtaken (s : Live) : Prop :=
  s.accepted sampleFile 0 = some (1,2) ∧ s.log.map (fun e => e.cell 0) = [some (1,2),some (0,1)] ∧
    s.cache.disk sampleFile 0 = 1 ∧ ∀ i < bufferCount, s.cache.inUseBm i = false

def Lost (s : Live) : Prop :=
  s.accepted sampleFile 0 = some (0,1) ∧ s.log.length = 0 ∧
    (∀ t < s.tasks, (s.flights t).isNone = true) ∧ ∀ i < bufferCount, s.cell i 0 = none

end MoQiOS.WritebackFlights
