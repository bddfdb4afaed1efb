import Mathlib.Data.Real.Basic
import ReacJack.HalTimeline

/-! How far the slaved rate can be from the source's when the observations only lie near
a line: no further than the jitter over the window allows, and the little an old rate
may be off before it is replaced. -/
namespace ReacJack.SlavedRate
open TransitionRuns SharedAudio HalDriver HalTimeline

abbrev Observation := UInt64 × UInt64

structure Watch where
  session : Session
  fetched : List Observation

def fetchedBy {α : Type} (d : Driver) : Label α → List Observation
  | .getZeroTimeStamp fetched _ => if d.ringIsOpen then fetched.toList else []
  | _ => []

def watch {α : Type} (w : Watch) (label : Label α) : Option Watch :=
  (step w.session label).map fun session => ⟨session,w.fetched ++ fetchedBy w.session.driver label⟩

structure Steady (offset tau jitter : ℝ) (observations : List Observation) : Prop where
  ordered : observations.Pairwise (fun o p => o.1 ≤ p.1 ∧ o.2 ≤ p.2)
  near : ∀ o ∈ observations, |(o.1.toNat : ℝ) - (offset + tau * o.2.toNat)| ≤ jitter

def windowFrames (d : Driver) (o : Observation) : Nat := o.2.toNat - d.clockRefSamplePos.toNat

structure Unmoved (before after : Driver) : Prop where
  anchorHostTime : after.anchorHostTime = before.anchorHostTime
  anchorSampleTime : after.anchorSampleTime = before.anchorSampleTime
  slavedTicksPerFrame : after.slavedTicksPerFrame = before.slavedTicksPerFrame
  timelineSeed : after.timelineSeed = before.timelineSeed

structure Rebased (before after : Driver) : Prop where
  anchorHostTime : after.anchorHostTime = before.lastHostTime
  anchorSampleTime : after.anchorSampleTime = before.lastSampleTime
  slavedTicksPerFrame : after.slavedTicksPerFrame ≠ before.slavedTicksPerFrame
  timelineSeed : after.timelineSeed = before.timelineSeed + 1

theorem updateTogether {d : Driver} (positive : 0 ≤ d.slavedTicksPerFrame) (fetched : Option Observation) :
    Unmoved d (updateClockEstimate d fetched) ∨ Rebased d (updateClockEstimate d fetched) := by
  have spec := updates d fetched
  generalize updateClockEstimate d fetched = next at spec ⊢
  cases spec with
  | unfetched | reference | short | near => exact .inl ⟨rfl,rfl,rfl,rfl⟩
  | @rebased o _ _ _ far =>
    refine .inr ⟨rfl,rfl,?_,rfl⟩
    intro same
    have settled : estimateFrom d o = d.slavedTicksPerFrame := same
    apply far
    rw [settled, sub_self, abs_zero]
    positivity

theorem stepTogether {α : Type} {nominal : Rat} {s next : Session} (sound : Sound nominal s) {label : Label α}
    (taken : step s label = some next) : Unmoved s.driver next.driver ∨ Rebased s.driver next.driver := by
  obtain ⟨count,opened,rfl⟩ | ⟨fetched,now,_,_,rfl⟩ := stepCases taken
  · exact .inl ⟨rfl,rfl,rfl,rfl⟩
  · rcases updateTogether (ratePositive sound.timeline).le fetched with ⟨host,sample,rate,seed⟩ | ⟨host,sample,rate,seed⟩
    · exact .inl ⟨host,sample,rate,seed⟩
    · exact .inr ⟨host,sample,rate,seed⟩

theorem estimateReal {d : Driver} (positive : 0 < d.hostTicksPerFrame) {o : Observation}
    (later : d.clockRefHostTime ≤ o.1) (after : d.clockRefSamplePos ≤ o.2) :
    ((estimateFrom d o : Rat) : ℝ) =
      NoisyLine.clamp ((d.hostTicksPerFrame : ℝ) * (99 / 100)) ((d.hostTicksPerFrame : ℝ) * (101 / 100))
        ((o.1.toNat - d.clockRefHostTime.toNat) / (o.2.toNat - d.clockRefSamplePos.toNat)) := by
  have ticks := UInt64.toNat_sub_of_le o.1 d.clockRefHostTime later
  have frames := UInt64.toNat_sub_of_le o.2 d.clockRefSamplePos after
  have ticksCast : ((o.1.toNat - d.clockRefHostTime.toNat : Nat) : ℝ) = o.1.toNat - d.clockRefHostTime.toNat :=
    Nat.cast_sub (UInt64.le_iff_toNat_le.mp later)
  have framesCast : ((o.2.toNat - d.clockRefSamplePos.toNat : Nat) : ℝ) = o.2.toNat - d.clockRefSamplePos.toNat :=
    Nat.cast_sub (UInt64.le_iff_toNat_le.mp after)
  rw [estimateFrom, clampEstimateClamps positive, ticks, frames]
  simp only [NoisyLine.clamp, Rat.cast_max, Rat.cast_min, Rat.cast_mul, Rat.cast_div, Rat.cast_natCast,
    Rat.cast_ofNat, ticksCast, framesCast]

def NearNominal (nominal : Rat) (tau : ℝ) : Prop := |tau - nominal| ≤ nominal * (1 / 100)

theorem nearNominalRate {nominal rate : Rat} (slow : nominal * (99 / 100) ≤ rate)
    (fast : rate ≤ nominal * (101 / 100)) : NearNominal nominal rate := by
  have low : ((nominal * (99 / 100) : Rat) : ℝ) ≤ rate := Rat.cast_le.mpr slow
  have high : (rate : ℝ) ≤ ((nominal * (101 / 100) : Rat) : ℝ) := Rat.cast_le.mpr fast
  push_cast at low high
  exact abs_le.mpr ⟨by linarith,by linarith⟩

theorem estimateError {d : Driver} (positive : 0 < d.hostTicksPerFrame) {offset tau jitter : ℝ}
    (nominally : NearNominal d.hostTicksPerFrame tau) {observations : List Observation} {o : Observation}
    (steady : Steady offset tau jitter (observations ++ [o]))
    (reference : (d.clockRefHostTime,d.clockRefSamplePos) ∈ observations) (window : 24000 ≤ windowFrames d o) :
    |((estimateFrom d o : Rat) : ℝ) - tau| ≤ 2 * jitter / windowFrames d o := by
  obtain ⟨later,after⟩ := (List.pairwise_append.mp steady.ordered).2.2 _ reference o (List.mem_singleton_self o)
  have start := steady.near _ (List.mem_append_left _ reference)
  have stop := steady.near o (List.mem_append_right _ (List.mem_singleton_self o))
  have le := UInt64.le_iff_toNat_le.mp after
  have apart : d.clockRefSamplePos.toNat < o.2.toNat := by
    unfold windowFrames at window
    omega
  have slope := NoisyLine.slopeError start stop (Nat.cast_lt.mpr apart)
  have width : ((windowFrames d o : Nat) : ℝ) = o.2.toNat - d.clockRefSamplePos.toNat := Nat.cast_sub le
  obtain ⟨low,high⟩ := abs_le.mp nominally
  rw [estimateReal positive later after, width]
  exact NoisyLine.clampNear (by linarith) (by linarith) slope

theorem updateTracks {d : Driver} (positive : 0 < d.hostTicksPerFrame) {offset tau jitter : ℝ}
    (nominally : NearNominal d.hostTicksPerFrame tau) {observations : List Observation} {o : Observation}
    (steady : Steady offset tau jitter (observations ++ [o])) (opened : d.ringIsOpen = true)
    (reference : d.clockRefValid = true → (d.clockRefHostTime,d.clockRefSamplePos) ∈ observations)
    (window : 24000 ≤ windowFrames (updateClockEstimate d (some o)) o) :
    |((updateClockEstimate d (some o)).slavedTicksPerFrame : ℝ) - tau| ≤
      2 * jitter / windowFrames (updateClockEstimate d (some o)) o +
        2 / 1000000 * (updateClockEstimate d (some o)).slavedTicksPerFrame := by
  have spec := updates d (some o)
  generalize updateClockEstimate d (some o) = next at spec window ⊢
  cases spec with
  | unfetched nothing =>
    rcases nothing with closed | none
    · rw [opened] at closed
      contradiction
    · contradiction
  | reference =>
    simp only [windowFrames, Nat.sub_self] at window
    contradiction
  | short _ _ after less =>
    unfold windowFrames at window
    omega
  | near _ valid _ close =>
    have error := estimateError positive nominally steady (reference valid) window
    have kept : |((estimateFrom d o : Rat) : ℝ) - d.slavedTicksPerFrame| ≤
        2 / 1000000 * d.slavedTicksPerFrame := by
      have cast : ((|estimateFrom d o - d.slavedTicksPerFrame| : Rat) : ℝ) ≤
          ((d.slavedTicksPerFrame * (2 / 1000000) : Rat) : ℝ) := Rat.cast_le.mpr close
      push_cast at cast
      linarith
    exact NoisyLine.keptNear error kept
  | rebased _ valid far _ =>
    have error := estimateError positive nominally steady (reference valid) window
    have range := (clampEstimateRange positive
      ((o.1 - d.clockRefHostTime).toNat / (o.2 - d.clockRefSamplePos).toNat)).1
    have rate : (0 : ℝ) ≤ ((estimateFrom d o : Rat) : ℝ) := by
      have : (0 : Rat) ≤ estimateFrom d o := by
        unfold estimateFrom
        linarith
      exact Rat.cast_nonneg.mpr this
    have slack : 0 ≤ 2 / 1000000 * ((estimateFrom d o : Rat) : ℝ) := by positivity
    exact error.trans (le_add_of_nonneg_right slack)

structure Tracked (nominal : Rat) (w : Watch) : Prop where
  sound : Sound nominal w.session
  reference : w.session.driver.clockRefValid = true →
    (w.session.driver.clockRefHostTime,w.session.driver.clockRefSamplePos) ∈ w.fetched

theorem updateReference {d : Driver} {observations : List Observation} (fetched : Option Observation)
    (reference : d.clockRefValid = true → (d.clockRefHostTime,d.clockRefSamplePos) ∈ observations)
    (valid : (updateClockEstimate d fetched).clockRefValid = true) :
    ((updateClockEstimate d fetched).clockRefHostTime,(updateClockEstimate d fetched).clockRefSamplePos) ∈
      observations ++ (if d.ringIsOpen then fetched.toList else []) := by
  have spec := updates d fetched
  generalize updateClockEstimate d fetched = next at spec valid ⊢
  cases spec with
  | reference opened =>
    rw [if_pos opened]
    exact List.mem_append_right _ (List.mem_singleton_self _)
  | unfetched | short | near | rebased => exact List.mem_append_left _ (reference valid)

theorem watchTracked {α : Type} {nominal : Rat} (w : Watch) (label : Label α) (next : Watch)
    (tracked : Tracked nominal w) (taken : watch w label = some next) : Tracked nominal next := by
  obtain ⟨session,moved,rfl⟩ := Option.map_eq_some_iff.mp taken
  refine ⟨stepSound _ label _ tracked.sound moved,?_⟩
  obtain ⟨count,opened,rfl⟩ | ⟨fetched,now,rfl,_,rfl⟩ := stepCases moved
  · intro valid
    exact List.mem_append_left _ (tracked.reference valid)
  · exact updateReference fetched tracked.reference

def opening (session : Session) : Watch := ⟨session,[]⟩

theorem openingTracked {α : Type} {d : Driver} (idle : d.ioIsRunning = 0) (positive : 0 < d.hostTicksPerFrame)
    (shm : Option (SharedRing α)) (now : Nat) : Tracked d.hostTicksPerFrame (opening (begin_ d shm now)) := by
  refine ⟨beginSound idle positive shm now,?_⟩
  have unset : (begin_ d shm now).driver.clockRefValid = false := by simp [begin_, startIo, idle]
  intro valid
  rw [opening, unset] at valid
  contradiction

/-- In every session the rate is near the nominal one and moves only with the anchor and
the seed; after a call with half a second of frames behind it, it is as near to the
source's rate as the jitter of the observations allows. -/
theorem rateTracks {α : Type} (d : Driver) (idle : d.ioIsRunning = 0) (numer denom : UInt32)
    (hn : 0 < numer.toNat) (hd : 0 < denom.toNat) (shm : Option (SharedRing α)) (now : Nat)
    (calls : List (Label α)) (w : Watch)
    (reached : run watch (opening (begin_ (initialize_ d numer denom) shm now)) calls = some w) :
    NearNominal (initialize_ d numer denom).hostTicksPerFrame w.session.driver.slavedTicksPerFrame ∧
    (∀ (label : Label α) next, watch w label = some next →
      Unmoved w.session.driver next.session.driver ∨ Rebased w.session.driver next.session.driver) ∧
    (∀ (offset tau jitter : ℝ) o later next, NearNominal (initialize_ d numer denom).hostTicksPerFrame tau →
      w.session.driver.ringIsOpen = true →
      watch w (.getZeroTimeStamp (some o) later : Label α) = some next →
      Steady offset tau jitter next.fetched → 24000 ≤ windowFrames next.session.driver o →
        |(next.session.driver.slavedTicksPerFrame : ℝ) - tau| ≤
          2 * jitter / windowFrames next.session.driver o +
            2 / 1000000 * next.session.driver.slavedTicksPerFrame) := by
  have positive := initializePositive d hn hd
  have tracked := runInvariant watchTracked
    (openingTracked (d := initialize_ d numer denom) idle positive shm now) reached
  have rated := tracked.sound.rated
  refine ⟨?_,?_,?_⟩
  · have slow := tracked.sound.timeline.slow
    have fast := tracked.sound.timeline.fast
    rw [rated] at slow fast
    exact nearNominalRate slow fast
  · intro label next taken
    obtain ⟨session,moved,rfl⟩ := Option.map_eq_some_iff.mp taken
    exact stepTogether tracked.sound moved
  · intro offset tau jitter o later next nominally opened taken steady window
    obtain ⟨session,moved,rfl⟩ := Option.map_eq_some_iff.mp taken
    simp only [step] at moved
    split at moved
    · contradiction
    · cases Option.some.inj moved
      simp only [fetchedBy, opened, if_true, Option.toList_some] at steady
      rw [← rated] at nominally positive
      exact updateTracks positive nominally steady opened tracked.reference window

def jittered : List (Label Int) := [.getZeroTimeStamp (some (10,0)) 9000000]

def jitteredWatch : Option Watch :=
  run watch (opening (begin_ (initialize_ loaded 125 3) (some emptyRing) 100)) jittered

theorem rateTracksJittered : ∃ next,
    watch (jitteredWatch.get (by decide +kernel))
      (.getZeroTimeStamp (some (12050010,24000)) 21000000 : Label Int) = some next ∧
    |(next.session.driver.slavedTicksPerFrame : ℝ) - 502| ≤
      2 * 2000 / windowFrames next.session.driver (12050010,24000) +
        2 / 1000000 * next.session.driver.slavedTicksPerFrame := by
  have nominal : (initialize_ loaded 125 3).hostTicksPerFrame = 500 := by decide +kernel
  have result : (watch (jitteredWatch.get (by decide +kernel))
      (.getZeroTimeStamp (some (12050010,24000)) 21000000 : Label Int)).map
        (fun next => (next.fetched,windowFrames next.session.driver (12050010,24000))) =
      some ([(10,0),(12050010,24000)],24000) := by decide +kernel
  obtain ⟨next,taken,same⟩ := Option.map_eq_some_iff.mp result
  obtain ⟨fetched,window⟩ := Prod.mk.inj same
  have steady : Steady 10 502 2000 next.fetched := by
    rw [fetched]
    constructor
    · simp
    · intro o member
      simp only [List.mem_cons, List.not_mem_nil, or_false] at member
      rcases member with rfl | rfl
      · have time : (10 : UInt64).toNat = 10 := rfl
        have pos : (0 : UInt64).toNat = 0 := rfl
        norm_num [time, pos]
      · have time : (12050010 : UInt64).toNat = 12050010 := rfl
        have pos : (24000 : UInt64).toNat = 24000 := rfl
        norm_num [time, pos]
  have nominally : NearNominal (initialize_ loaded 125 3).hostTicksPerFrame 502 := by
    rw [nominal]
    norm_num [NearNominal]
  exact ⟨next,taken,(rateTracks loaded rfl 125 3 (by decide) (by decide) (some emptyRing) 100 jittered _
    (Option.some_get (by decide +kernel)).symm).2.2 10 502 2000 _ _ next nominally (by decide +kernel) taken steady
    (by rw [window])⟩

end ReacJack.SlavedRate
