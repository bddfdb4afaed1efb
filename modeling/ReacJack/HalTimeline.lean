import Mathlib.Tactic.Linarith
import Mathlib.Tactic.Positivity
import Mathlib.Tactic.FieldSimp
import Mathlib.Tactic.Ring
import ReacJack.HalDriver
import ReacJack.NoisyLine
import ReacJack.TransitionRuns

/-! The timeline of one IO session, from the first `StartIO` to the last `StopIO`.
Every emitted point lies on the line through the anchor whose slope is the slaved
rate, up to the truncation of its host time; a new rate starts a new line at the last
emitted point and a new seed. -/
namespace ReacJack.HalTimeline
open TransitionRuns SharedAudio HalDriver

theorem clampEstimateClamps {nominal : Rat} (positive : 0 < nominal) (estimate : Rat) :
    clampEstimate nominal estimate =
      NoisyLine.clamp (nominal * (99 / 100)) (nominal * (101 / 100)) estimate := by
  have low : nominal * (1 - kClockMaxRateSkew) = nominal * (99 / 100) := by
    norm_num [kClockMaxRateSkew]
  have high : nominal * (1 + kClockMaxRateSkew) = nominal * (101 / 100) := by
    norm_num [kClockMaxRateSkew]
  simp only [clampEstimate, NoisyLine.clamp, low, high]
  split <;> rename_i below
  · have less : estimate ≤ nominal * (101 / 100) := by linarith
    rw [min_eq_right less, max_eq_left below.le]
  · rw [not_lt] at below
    split <;> rename_i above
    · rw [min_eq_left above.le, max_eq_right (by linarith)]
    · rw [min_eq_right (not_lt.mp above), max_eq_right below]

theorem clampEstimateRange {nominal : Rat} (positive : 0 < nominal) (estimate : Rat) :
    nominal * (99 / 100) ≤ clampEstimate nominal estimate ∧
      clampEstimate nominal estimate ≤ nominal * (101 / 100) := by
  rw [clampEstimateClamps positive]
  exact NoisyLine.clampRange (by linarith) estimate

def estimateFrom (d : Driver) (o : UInt64 × UInt64) : Rat :=
  clampEstimate d.hostTicksPerFrame
    ((o.1 - d.clockRefHostTime).toNat / (o.2 - d.clockRefSamplePos).toNat)

inductive Updates (d : Driver) : Option (UInt64 × UInt64) → Driver → Prop where
  | unfetched {fetched : Option (UInt64 × UInt64)} (nothing : d.ringIsOpen = false ∨ fetched = none) :
    Updates d fetched d
  | reference {o : UInt64 × UInt64} (opened : d.ringIsOpen = true)
    (fresh : d.clockRefValid = false ∨ o.2.toNat < d.clockRefSamplePos.toNat) :
    Updates d (some o) {d with clockRefHostTime := o.1, clockRefSamplePos := o.2, clockRefValid := true}
  | short {o : UInt64 × UInt64} (opened : d.ringIsOpen = true) (valid : d.clockRefValid = true)
    (after : d.clockRefSamplePos.toNat ≤ o.2.toNat)
    (window : o.2.toNat < d.clockRefSamplePos.toNat + 24000) : Updates d (some o) d
  | near {o : UInt64 × UInt64} (opened : d.ringIsOpen = true) (valid : d.clockRefValid = true)
    (window : d.clockRefSamplePos.toNat + 24000 ≤ o.2.toNat)
    (close : |estimateFrom d o - d.slavedTicksPerFrame| ≤ d.slavedTicksPerFrame * (2 / 1000000)) :
    Updates d (some o) d
  | rebased {o : UInt64 × UInt64} (opened : d.ringIsOpen = true) (valid : d.clockRefValid = true)
    (window : d.clockRefSamplePos.toNat + 24000 ≤ o.2.toNat)
    (far : ¬ |estimateFrom d o - d.slavedTicksPerFrame| ≤ d.slavedTicksPerFrame * (2 / 1000000)) :
    Updates d (some o) {d with
      anchorHostTime := d.lastHostTime
      anchorSampleTime := d.lastSampleTime
      slavedTicksPerFrame := estimateFrom d o
      timelineSeed := d.timelineSeed + 1}

theorem updates (d : Driver) (fetched : Option (UInt64 × UInt64)) :
    Updates d fetched (updateClockEstimate d fetched) := by
  by_cases opened : d.ringIsOpen = true
  · cases fetched with
    | none =>
      have same : updateClockEstimate d none = d := by
        unfold updateClockEstimate
        rw [if_neg (by rw [opened]; decide)]
      rw [same]
      exact .unfetched (.inr rfl)
    | some o =>
      unfold updateClockEstimate
      rw [if_neg (by rw [opened]; decide)]
      dsimp only
      split
      · rename_i moved
        refine .reference opened ?_
        rw [Bool.or_eq_true, Bool.not_eq_true', decide_eq_true_eq, UInt64.lt_iff_toNat_lt] at moved
        exact moved
      · rename_i kept
        rw [Bool.or_eq_true, not_or, Bool.not_eq_true', Bool.not_eq_false, decide_eq_true_eq,
          UInt64.lt_iff_toNat_lt, Nat.not_lt] at kept
        obtain ⟨valid,after⟩ := kept
        have frames := UInt64.toNat_sub_of_le o.2 d.clockRefSamplePos (UInt64.le_iff_toNat_le.mpr after)
        have minimum : kClockMinObservedFrames.toNat = 24000 := rfl
        split <;> rename_i window <;> rw [UInt64.lt_iff_toNat_lt, frames, minimum] at window
        · exact .short opened valid after (by omega)
        · split <;> rename_i close
          · exact .near opened valid (by omega) close
          · exact .rebased opened valid (by omega) close
  · have same : updateClockEstimate d fetched = d := by
      unfold updateClockEstimate
      rw [if_pos (by simpa using opened)]
    rw [same]
    exact .unfetched (.inl (Bool.not_eq_true _ ▸ opened))

theorem updateCases {d : Driver} (positive : 0 < d.hostTicksPerFrame) (fetched : Option (UInt64 × UInt64)) :
    (∃ valid time pos, updateClockEstimate d fetched =
      {d with clockRefValid := valid, clockRefHostTime := time, clockRefSamplePos := pos}) ∨
    (∃ rate, d.hostTicksPerFrame * (99 / 100) ≤ rate ∧ rate ≤ d.hostTicksPerFrame * (101 / 100) ∧
      updateClockEstimate d fetched = {d with
        anchorHostTime := d.lastHostTime
        anchorSampleTime := d.lastSampleTime
        slavedTicksPerFrame := rate
        timelineSeed := d.timelineSeed + 1}) := by
  -- Either only the reference observation changes, or the timeline is rebased at the last emitted
  -- point with a rate near the nominal one.
  have spec := updates d fetched
  generalize updateClockEstimate d fetched = next at spec ⊢
  cases spec with
  | unfetched | short | near => exact .inl ⟨d.clockRefValid,d.clockRefHostTime,d.clockRefSamplePos,rfl⟩
  | reference => exact .inl ⟨true,_,_,rfl⟩
  | rebased => exact .inr ⟨_,(clampEstimateRange positive _).1,(clampEstimateRange positive _).2,rfl⟩

def period (d : Driver) : Rat := d.slavedTicksPerFrame * 8192

def pointHost (d : Driver) (n : Nat) : Nat := d.anchorHostTime + truncate (n * period d)
def pointSample (d : Driver) (n : Nat) : Rat := d.anchorSampleTime + 8192 * n

structure Timeline (d : Driver) (clock : Nat) : Prop where
  nominal : 0 < d.hostTicksPerFrame
  slow : d.hostTicksPerFrame * (99 / 100) ≤ d.slavedTicksPerFrame
  fast : d.slavedTicksPerFrame ≤ d.hostTicksPerFrame * (101 / 100)
  grid : ∃ k : Nat, d.anchorSampleTime = 8192 * k
  onLine : ∃ n : Nat, d.lastHostTime = pointHost d n ∧ d.lastSampleTime = pointSample d n ∧
    d.anchorHostTime + n * period d ≤ clock

theorem ratePositive {d : Driver} {clock : Nat} (timeline : Timeline d clock) : 0 < d.slavedTicksPerFrame := by
  have := timeline.nominal
  have := timeline.slow
  linarith

theorem periodPositive {d : Driver} {clock : Nat} (timeline : Timeline d clock) : 0 < period d := by
  have := ratePositive timeline
  unfold period
  linarith

theorem pointNear {d : Driver} {clock : Nat} (timeline : Timeline d clock) (n : Nat) :
    (pointHost d n : Rat) ≤ d.anchorHostTime + n * period d ∧
      d.anchorHostTime + n * period d < pointHost d n + 1 := by
  have nonneg : 0 ≤ n * period d := mul_nonneg n.cast_nonneg (periodPositive timeline).le
  have below := Nat.floor_le nonneg
  have above := Nat.lt_floor_add_one (n * period d)
  simp only [pointHost, truncate, Nat.cast_add]
  constructor <;> linarith

theorem pointMono {d : Driver} {clock : Nat} (timeline : Timeline d clock) {m n : Nat} (le : m ≤ n) :
    pointHost d m ≤ pointHost d n ∧ pointSample d m ≤ pointSample d n := by
  have cast : (m : Rat) ≤ n := Nat.cast_le.mpr le
  have scaled := mul_le_mul_of_nonneg_right cast (periodPositive timeline).le
  have floors : truncate (m * period d) ≤ truncate (n * period d) := Nat.floor_mono scaled
  unfold pointHost pointSample
  exact ⟨by omega,by linarith⟩

theorem pointSlope {d : Driver} {clock : Nat} (timeline : Timeline d clock) (m n : Nat) :
    |(pointHost d n : Rat) - pointHost d m - d.slavedTicksPerFrame * (pointSample d n - pointSample d m)| < 1 := by
  obtain ⟨lowM,highM⟩ := pointNear timeline m
  obtain ⟨lowN,highN⟩ := pointNear timeline n
  have slope : d.slavedTicksPerFrame * (pointSample d n - pointSample d m) = n * period d - m * period d := by
    unfold pointSample period
    ring
  rw [slope, abs_lt]
  constructor <;> linarith

theorem emitSpec {d : Driver} {clock now : Nat} (timeline : Timeline d clock) (later : clock ≤ now) :
    ∃ n : Nat, emitTimeStamp d now =
        ({d with lastHostTime := pointHost d n, lastSampleTime := pointSample d n},
          ⟨pointSample d n,pointHost d n,d.timelineSeed,now,false⟩) ∧
      d.lastHostTime ≤ pointHost d n ∧ d.lastSampleTime ≤ pointSample d n ∧
      d.anchorHostTime + n * period d ≤ now ∧ now < d.anchorHostTime + (n + 1) * period d := by
  obtain ⟨last,host,sample,past⟩ := timeline.onLine
  have positive := periodPositive timeline
  have reached : (clock : Rat) ≤ now := Nat.cast_le.mpr later
  have nonneg : 0 ≤ last * period d := mul_nonneg last.cast_nonneg positive.le
  have anchored : d.anchorHostTime ≤ now := by
    have : (d.anchorHostTime : Rat) ≤ now := by linarith
    exact Nat.cast_le.mp this
  have elapsed : ((now - d.anchorHostTime : Nat) : Rat) = now - d.anchorHostTime := Nat.cast_sub anchored
  let x : Rat := (now - d.anchorHostTime : Nat) / period d
  have whole : x * period d = now - d.anchorHostTime := by
    rw [← elapsed]
    exact div_mul_cancel₀ _ positive.ne'
  have floorLe : (truncate x : Rat) ≤ x := Nat.floor_le (by positivity)
  have ltFloor : x < truncate x + 1 := Nat.lt_floor_add_one x
  have before : last ≤ truncate x := by
    refine Nat.le_floor ?_
    rw [le_div_iff₀ positive, elapsed]
    linarith
  obtain ⟨hosts,samples⟩ := pointMono timeline before
  rw [← host] at hosts
  rw [← sample] at samples
  refine ⟨truncate x,?_,hosts,samples,?_,?_⟩
  · have unclamped : ¬ pointHost d (truncate x) < d.lastHostTime := by omega
    have periods : d.slavedTicksPerFrame * kDeviceRingFrames = period d := by
      unfold period kDeviceRingFrames
      norm_cast
    have frames : ∀ n : Nat, ((n * kDeviceRingFrames : Nat) : Rat) = 8192 * n := by
      intro n
      rw [kDeviceRingFrames, Nat.cast_mul, mul_comm]
      norm_cast
    have clamp : decide (d.anchorHostTime + truncate (truncate x * period d) < d.lastHostTime) = false :=
      decide_eq_false unclamped
    simp only [x] at clamp
    simp only [emitTimeStamp, periods, frames, clamp, Bool.false_eq_true, if_false]
    rfl
  · have := mul_le_mul_of_nonneg_right floorLe positive.le
    linarith
  · have := mul_lt_mul_of_pos_right ltFloor positive
    linarith

theorem updateTimeline {d : Driver} {clock : Nat} (timeline : Timeline d clock)
    (fetched : Option (UInt64 × UInt64)) : Timeline (updateClockEstimate d fetched) clock := by
  rcases updateCases timeline.nominal fetched with ⟨valid,time,pos,same⟩ | ⟨rate,low,high,rebased⟩
  · rw [same]
    obtain ⟨nominal,slow,fast,grid,onLine⟩ := timeline
    exact ⟨nominal,slow,fast,grid,onLine⟩
  · obtain ⟨n,host,sample,past⟩ := timeline.onLine
    obtain ⟨k,grid⟩ := timeline.grid
    have near := (pointNear timeline n).1
    rw [← host] at near
    rw [rebased]
    refine ⟨timeline.nominal,low,high,⟨k + n,?_⟩,⟨0,?_,?_,?_⟩⟩
    · simp only [sample, pointSample, grid, Nat.cast_add]
      ring
    · simp [pointHost, truncate]
    · simp [pointSample]
    · simp only [Nat.cast_zero, zero_mul, add_zero]
      linarith

theorem emitTimeline {d : Driver} {clock now n : Nat} (timeline : Timeline d clock)
    (past : d.anchorHostTime + n * period d ≤ now) :
    Timeline {d with lastHostTime := pointHost d n, lastSampleTime := pointSample d n} now := by
  obtain ⟨nominal,slow,fast,grid,_⟩ := timeline
  exact ⟨nominal,slow,fast,grid,⟨n,rfl,rfl,past⟩⟩

structure Emitted where
  stamp : Stamp
  rate : Rat

structure Session where
  driver : Driver
  clock : Nat
  log : List Emitted

inductive Label (α : Type) where
  | startIo (shm : Option (SharedRing α))
  | stopIo
  | getZeroTimeStamp (fetched : Option (UInt64 × UInt64)) (now : Nat)

/-- The calls of a running device. Time never runs backwards, and nothing follows the
`StopIO` that ends the session. -/
def step {α : Type} (s : Session) : Label α → Option Session
  | .startIo shm =>
    if s.driver.ioIsRunning = 0 then none
    else some {s with driver := (startIo s.driver shm s.clock).2.1}
  | .stopIo =>
    if s.driver.ioIsRunning = 0 then none else some {s with driver := (stopIo s.driver).2}
  | .getZeroTimeStamp fetched now =>
    if s.driver.ioIsRunning = 0 ∨ now < s.clock then none
    else
      let (driver,stamp) := getZeroTimeStamp s.driver fetched now
      some ⟨driver,now,s.log ++ [⟨stamp,driver.slavedTicksPerFrame⟩]⟩

def begin_ {α : Type} (d : Driver) (shm : Option (SharedRing α)) (now : Nat) : Session :=
  ⟨(startIo d shm now).2.1,now,[]⟩

structure WellFormed (nominal : Rat) (e : Emitted) : Prop where
  onGrid : ∃ k : Nat, e.stamp.sampleTime = 8192 * k
  past : e.stamp.hostTime ≤ e.stamp.now
  recent : (e.stamp.now : Rat) < e.stamp.hostTime + 8192 * e.rate + 1
  unclamped : e.stamp.clamped = false
  slow : nominal * (99 / 100) ≤ e.rate
  fast : e.rate ≤ nominal * (101 / 100)

structure Follows (a b : Emitted) : Prop where
  sampleTime : a.stamp.sampleTime ≤ b.stamp.sampleTime
  hostTime : a.stamp.hostTime ≤ b.stamp.hostTime
  seed : a.stamp.seed ≤ b.stamp.seed
  slope : a.stamp.seed = b.stamp.seed → a.rate = b.rate ∧
    |(b.stamp.hostTime : Rat) - a.stamp.hostTime -
      a.rate * (b.stamp.sampleTime - a.stamp.sampleTime)| < 1

structure Before (d : Driver) (e : Emitted) : Prop where
  sampleTime : e.stamp.sampleTime ≤ d.lastSampleTime
  hostTime : e.stamp.hostTime ≤ d.lastHostTime
  seed : e.stamp.seed ≤ d.timelineSeed
  onLine : e.stamp.seed = d.timelineSeed → e.rate = d.slavedTicksPerFrame ∧
    ∃ n, e.stamp.hostTime = pointHost d n ∧ e.stamp.sampleTime = pointSample d n

structure Sound (nominal : Rat) (s : Session) : Prop where
  timeline : Timeline s.driver s.clock
  rated : s.driver.hostTicksPerFrame = nominal
  past : ∀ e ∈ s.log, WellFormed nominal e ∧ Before s.driver e
  ordered : s.log.Pairwise Follows

theorem updateBefore {d : Driver} {e : Emitted} (nominal : 0 < d.hostTicksPerFrame) (before : Before d e)
    (fetched : Option (UInt64 × UInt64)) : Before (updateClockEstimate d fetched) e := by
  rcases updateCases nominal fetched with ⟨valid,time,pos,same⟩ | ⟨rate,_,_,rebased⟩
  · rw [same]
    obtain ⟨sampleTime,hostTime,seed,onLine⟩ := before
    exact ⟨sampleTime,hostTime,seed,onLine⟩
  · rw [rebased]
    obtain ⟨sampleTime,hostTime,seed,_⟩ := before
    refine ⟨sampleTime,hostTime,Nat.le_succ_of_le seed,fun same => ?_⟩
    simp only at same
    omega

theorem updateKeeps (d : Driver) (fetched : Option (UInt64 × UInt64)) :
    (updateClockEstimate d fetched).hostTicksPerFrame = d.hostTicksPerFrame ∧
      (updateClockEstimate d fetched).ringIsOpen = d.ringIsOpen ∧
      (updateClockEstimate d fetched).ioIsRunning = d.ioIsRunning := by
  have spec := updates d fetched
  generalize updateClockEstimate d fetched = next at spec ⊢
  cases spec <;> exact ⟨rfl,rfl,rfl⟩

theorem emitSound {nominal : Rat} {s : Session} (sound : Sound nominal s)
    (fetched : Option (UInt64 × UInt64)) {now : Nat} (later : s.clock ≤ now) :
    Sound nominal ⟨(getZeroTimeStamp s.driver fetched now).1,now,s.log ++
      [⟨(getZeroTimeStamp s.driver fetched now).2,
        (getZeroTimeStamp s.driver fetched now).1.slavedTicksPerFrame⟩]⟩ := by
  let d := updateClockEstimate s.driver fetched
  have timeline : Timeline d s.clock := updateTimeline sound.timeline fetched
  have rated : d.hostTicksPerFrame = nominal := (updateKeeps s.driver fetched).1.trans sound.rated
  obtain ⟨n,emitted,host,sample,past,recent⟩ := emitSpec timeline later
  have result : getZeroTimeStamp s.driver fetched now = _ := emitted
  have near := pointNear timeline n
  have wellFormed : WellFormed nominal
      ⟨⟨pointSample d n,pointHost d n,d.timelineSeed,now,false⟩,d.slavedTicksPerFrame⟩ := by
    obtain ⟨k,grid⟩ := timeline.grid
    refine ⟨⟨k + n,?_⟩,?_,?_,rfl,by rw [← rated]; exact timeline.slow,by rw [← rated]; exact timeline.fast⟩
    · simp only [pointSample, grid, Nat.cast_add]
      ring
    · have : (pointHost d n : Rat) ≤ now := near.1.trans past
      exact Nat.cast_le.mp this
    · have slope : 8192 * d.slavedTicksPerFrame = period d := by
        unfold period
        ring
      simp only [slope]
      linarith
  have earlier : ∀ e ∈ s.log, WellFormed nominal e ∧ Before d e := fun e member =>
    ⟨(sound.past e member).1,updateBefore sound.timeline.nominal (sound.past e member).2 fetched⟩
  rw [result]
  refine ⟨emitTimeline timeline past,rated,?_,?_⟩
  · intro e member
    rcases List.mem_append.mp member with old | new
    · obtain ⟨formed,before⟩ := earlier e old
      exact ⟨formed,before.sampleTime.trans sample,before.hostTime.trans host,before.seed,before.onLine⟩
    · obtain rfl := List.mem_singleton.mp new
      exact ⟨wellFormed,le_refl _,le_refl _,le_refl _,fun _ => ⟨rfl,n,rfl,rfl⟩⟩
  · refine List.pairwise_append.mpr ⟨sound.ordered,List.pairwise_singleton _ _,?_⟩
    intro a old b new
    obtain rfl := List.mem_singleton.mp new
    obtain ⟨_,before⟩ := earlier a old
    refine ⟨before.sampleTime.trans sample,before.hostTime.trans host,before.seed,fun same => ?_⟩
    obtain ⟨rate,m,hostM,sampleM⟩ := before.onLine same
    refine ⟨rate,?_⟩
    rw [rate, hostM, sampleM]
    exact pointSlope timeline m n

theorem countingSound {nominal : Rat} {s : Session} (sound : Sound nominal s) (count : Nat) (opened : Bool) :
    Sound nominal {s with driver := {s.driver with ioIsRunning := count, ringIsOpen := opened}} := by
  obtain ⟨⟨positive,slow,fast,grid,onLine⟩,rated,past,ordered⟩ := sound
  refine ⟨⟨positive,slow,fast,grid,onLine⟩,rated,fun e member => ?_,ordered⟩
  obtain ⟨formed,⟨sampleTime,hostTime,seed,line⟩⟩ := past e member
  exact ⟨formed,⟨sampleTime,hostTime,seed,line⟩⟩

theorem nestedStart {α : Type} {d : Driver} (running : d.ioIsRunning ≠ 0) (shm : Option (SharedRing α))
    (now : Nat) : ∃ count, (startIo d shm now).2.1 = {d with ioIsRunning := count} := by
  unfold startIo
  split
  · exact ⟨d.ioIsRunning,rfl⟩
  · exact ⟨d.ioIsRunning + 1,rfl⟩

theorem stopCounts (d : Driver) :
    ∃ count opened, (stopIo d).2 = {d with ioIsRunning := count, ringIsOpen := opened} := by
  unfold stopIo
  split
  · exact ⟨d.ioIsRunning,d.ringIsOpen,rfl⟩
  · exact ⟨_,_,rfl⟩

theorem stepCases {α : Type} {s next : Session} {label : Label α} (taken : step s label = some next) :
    (∃ count opened, next = {s with driver := {s.driver with ioIsRunning := count, ringIsOpen := opened}}) ∨
    ∃ fetched now, label = .getZeroTimeStamp fetched now ∧ s.clock ≤ now ∧
      next = ⟨(getZeroTimeStamp s.driver fetched now).1,now,
        s.log ++ [⟨(getZeroTimeStamp s.driver fetched now).2,
          (getZeroTimeStamp s.driver fetched now).1.slavedTicksPerFrame⟩]⟩ := by
  cases label with
  | startIo shm =>
    simp only [step] at taken
    split at taken
    · contradiction
    · rename_i running
      obtain ⟨count,same⟩ := nestedStart running shm s.clock
      rw [same] at taken
      exact .inl ⟨count,s.driver.ringIsOpen,(Option.some.inj taken).symm⟩
  | stopIo =>
    simp only [step] at taken
    split at taken
    · contradiction
    · obtain ⟨count,opened,same⟩ := stopCounts s.driver
      rw [same] at taken
      exact .inl ⟨count,opened,(Option.some.inj taken).symm⟩
  | getZeroTimeStamp fetched now =>
    simp only [step] at taken
    split at taken
    · contradiction
    · exact .inr ⟨fetched,now,rfl,by omega,(Option.some.inj taken).symm⟩

theorem stepSound {α : Type} {nominal : Rat} (s : Session) (label : Label α) (next : Session)
    (sound : Sound nominal s) (taken : step s label = some next) : Sound nominal next := by
  obtain ⟨count,opened,rfl⟩ | ⟨fetched,now,_,later,rfl⟩ := stepCases taken
  · exact countingSound sound count opened
  · exact emitSound sound fetched later

theorem beginSound {α : Type} {d : Driver} (idle : d.ioIsRunning = 0) (positive : 0 < d.hostTicksPerFrame)
    (shm : Option (SharedRing α)) (now : Nat) : Sound d.hostTicksPerFrame (begin_ d shm now) := by
  have started : (startIo d shm now).2.1 = {d with
      anchorHostTime := now
      anchorSampleTime := 0
      lastHostTime := now
      lastSampleTime := 0
      slavedTicksPerFrame := d.hostTicksPerFrame
      clockRefValid := false
      ringIsOpen := shm.isSome
      ioIsRunning := d.ioIsRunning + 1} := by
    simp [startIo, idle]
  unfold begin_
  rw [started]
  refine ⟨⟨positive,?_,?_,⟨0,?_⟩,⟨0,?_,?_,?_⟩⟩,rfl,nofun,List.Pairwise.nil⟩
  · simp only
    linarith
  · simp only
    linarith
  · simp
  · simp [pointHost, truncate]
  · simp [pointSample]
  · simp

theorem initializePositive (d : Driver) {numer denom : UInt32} (hn : 0 < numer.toNat) (hd : 0 < denom.toNat) :
    0 < (initialize_ d numer denom).hostTicksPerFrame := by
  have n : (0 : Rat) < numer.toNat := Nat.cast_pos.mpr hn
  have m : (0 : Rat) < denom.toNat := Nat.cast_pos.mpr hd
  simp only [initialize_, kDeviceSampleRate]
  positivity

/-- Every answer of a session is on the grid, just past and unclamped, later answers
never go back, and answers of one seed lie on one line. -/
theorem sessionTimeline {α : Type} (d : Driver) (idle : d.ioIsRunning = 0) (numer denom : UInt32)
    (hn : 0 < numer.toNat) (hd : 0 < denom.toNat) (shm : Option (SharedRing α)) (now : Nat)
    (calls : List (Label α)) (s : Session)
    (reached : run step (begin_ (initialize_ d numer denom) shm now) calls = some s) :
    (∀ e ∈ s.log, WellFormed (initialize_ d numer denom).hostTicksPerFrame e ∧
      0 < e.rate * kDeviceRingFrames) ∧ s.log.Pairwise Follows := by
  have positive := initializePositive d hn hd
  have sound := runInvariant stepSound (beginSound (d := initialize_ d numer denom) idle positive shm now) reached
  refine ⟨fun e member => ⟨(sound.past e member).1,?_⟩,sound.ordered⟩
  have slow := (sound.past e member).1.slow
  have rate : 0 < e.rate := by linarith
  have frames : (0 : Rat) < kDeviceRingFrames := by norm_num [kDeviceRingFrames]
  exact mul_pos rate frames

def twoClients : List (Label Int) :=
  [.getZeroTimeStamp none 5000000,.startIo none,.getZeroTimeStamp (some (10,0)) 9000000,.stopIo,
    .getZeroTimeStamp (some (12050010,24000)) 21000000,.stopIo]

def emptyRing : SharedRing Int := sharedAudioCreate 48000 2 4800

def twoClientsSession : Option Session :=
  run step (begin_ (initialize_ loaded 125 3) (some emptyRing) 100) twoClients

theorem sessionTimelineTwoClients : (twoClientsSession.get (by decide +kernel)).log.Pairwise Follows :=
  (sessionTimeline loaded rfl 125 3 (by decide) (by decide) (some emptyRing) 100 twoClients _
    (Option.some_get (by decide +kernel)).symm).2

end ReacJack.HalTimeline
