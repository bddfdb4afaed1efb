import ReacJack.SteadySource
import ReacJack.ReacWire

/-! From which moment on the driver's rate is the source's. The window is counted from
the first observation the driver fetched, not from the first one published, and that
observation, which may be older than the session, has to lie on the source's line. -/
namespace ReacJack.ClockReference
open TransitionRuns SharedAudio ReacDecode ReacWire Daemon HalDriver DeviceSystem ClockSlaving SteadySource

theorem actNominal {nominal : Rat} (s : System) (action : Action) (next : System)
    (rated : s.driver.hostTicksPerFrame = nominal) (taken : act s action = some next) :
    next.driver.hostTicksPerFrame = nominal := by
  cases action with
  | capture c =>
    obtain ⟨loop,_,rfl⟩ := Option.map_eq_some_iff.mp taken
    exact rated
  | startIo now =>
    cases Option.some.inj taken
    change (startIo s.driver s.ring now).2.1.hostTicksPerFrame = nominal
    unfold startIo
    split
    · exact rated
    split <;> exact rated
  | stopIo =>
    obtain ⟨count,opened,same⟩ := HalTimeline.stopCounts s.driver
    cases Option.some.inj taken
    rw [same]
    exact rated
  | getZeroTimeStamp contended now =>
    cases Option.some.inj taken
    exact (HalTimeline.updateKeeps s.driver (fetchClock s contended)).1.trans rated
  | readInput out frames =>
    cases Option.some.inj taken
    exact rated

theorem startedDriver {s : System} (idle : s.driver.ioIsRunning = 0) (now : Nat) :
    (start s now).driver.hostTicksPerFrame = s.driver.hostTicksPerFrame ∧
      (start s now).driver.clockRefValid = false := by
  simp [start, startIo, idle]

theorem beginSlaved {tau : Rat} {s : System} (idle : s.driver.ioIsRunning = 0) (now : Nat) :
    Slaved tau s.driver.hostTicksPerFrame (begin_ s now).fetched (begin_ s now).system.driver := by
  obtain ⟨rated,unset⟩ := startedDriver idle now
  refine ⟨rated,fun _ => unset,?_,?_⟩
  · intro first head
    contradiction
  · rintro ⟨first,head,_⟩
    contradiction

theorem beginSourced (s : System) (now : Nat) : Sourced (latest (start s now).ring) (begin_ s now) :=
  ⟨fun _ => ⟨rfl,fun _ member => absurd member List.not_mem_nil⟩,fun some => absurd rfl some,
    fun _ member => absurd member List.not_mem_nil⟩

theorem watchBackward {offset tau : Rat} (w : Watch) (action : Action) (next : Watch)
    (taken : watch w action = some next) (line : AllOnLine offset tau next) : AllOnLine offset tau w := by
  obtain ⟨system,_,rfl⟩ := Option.map_eq_some_iff.mp taken
  exact fun o member => line o (List.mem_append_left _ member)

/-- Whatever came before the session: when its observations and the first one it fetches
lie on a line, the rate is the line's from the first observation on that is fetched half
a second of frames past the first one. -/
theorem slavesToSource (loop : Loop) (numer denom : UInt32) (hn : 0 < numer.toNat) (hd : 0 < denom.toNat)
    (before : List Action) (s : System) (reached : run act (boot loop numer denom) before = some s)
    (idle : s.driver.ioIsRunning = 0) (now : Nat) (session : List Action) (w : Watch)
    (watched : run watch (begin_ s now) session = some w) (offset tau : Rat)
    (line : ∀ o ∈ w.published, OnLine offset tau o)
    (skew : |tau - (initialize_ loaded numer denom).hostTicksPerFrame| ≤
      (initialize_ loaded numer denom).hostTicksPerFrame / 100)
    (own : ∀ o, w.fetched.head? = some o → OnLine offset tau o) (far : Far w.fetched) :
    Close w.system.driver tau := by
  have positive := HalTimeline.initializePositive loaded hn hd
  have rated : s.driver.hostTicksPerFrame = (initialize_ loaded numer denom).hostTicksPerFrame :=
    runInvariant (I := fun t : System =>
      t.driver.hostTicksPerFrame = (initialize_ loaded numer denom).hostTicksPerFrame) actNominal rfl reached
  obtain ⟨low,high⟩ := abs_le.mp skew
  rw [← rated] at positive low high
  have sourced := runInvariant watchSourced (beginSourced s now) watched
  have all : AllOnLine offset tau w := by
    intro o member
    rcases sourced.fetched o member with among | head
    · exact line o among
    · exact own o head
  have slaved := runInvariantWhile (W := AllOnLine offset tau) watchBackward
    (fun w action next => watchSlaved positive (by linarith) (by linarith) w action next)
    (beginSlaved idle now) watched all
  exact slaved.settled far

theorem stampKeeps (d : Driver) (fetched : Option Observation) (now : Nat) :
    (getZeroTimeStamp d fetched now).1.ringIsOpen = d.ringIsOpen ∧
      (getZeroTimeStamp d fetched now).1.ioIsRunning = d.ioIsRunning := (HalTimeline.updateKeeps d fetched).2

def twoStamps (packet : Bytes) (times : Nat → UInt64) (k n early late : Nat) : List Action :=
  .getZeroTimeStamp false early :: (feed packet times k n ++ [.getZeroTimeStamp false late])

theorem twoStampsRun {channels : UInt16} {k n : Nat} {w : Watch} {ring : SharedRing Rat} {packet : Bytes}
    {o : Observation} (wellFormed : WellFormed packet channels.toNat)
    (supplied : Supplied channels k w.system ring) (published : 0 < k) (some_ : 0 < n) (room : k + n ≤ 4000)
    (opened : w.system.driver.ringIsOpen = true) (running : w.system.driver.ioIsRunning ≠ 0)
    (last : latest w.system.ring = o) (times : Nat → UInt64) (early late : Nat) :
    ∃ final, run watch w (twoStamps packet times k n early late) = some final ∧
      final.system.driver = (getZeroTimeStamp (getZeroTimeStamp w.system.driver (some o) early).1
        (some (observed times (k + n - 1))) late).1 ∧
      final.fetched = w.fetched ++ [o] ++ [observed times (k + n - 1)] ∧
      final.published = w.published ++ (List.range' k n).map (observed times) := by
  obtain ⟨first,stamped,after,driver,fetched,same⟩ :=
    watchedTimeStamp supplied published (by omega) opened running last early
  obtain ⟨fed,ring',ran,done,driver',fetched',published',newest⟩ := watchedRun wellFormed after room times
  obtain ⟨kept,counted⟩ := stampKeeps w.system.driver (some o) early
  have opened' : fed.system.driver.ringIsOpen = true := by rw [driver', driver, kept, opened]
  have running' : fed.system.driver.ioIsRunning ≠ 0 := by rw [driver', driver, counted]; exact running
  obtain ⟨final,stamped',_,driver'',fetched'',published''⟩ :=
    watchedTimeStamp done (by omega) room opened' running' (newest some_) late
  have whole : run watch w ([.getZeroTimeStamp false early] ++
      (feed packet times k n ++ [.getZeroTimeStamp false late])) = some final :=
    runAppend stamped (runAppend ran stamped')
  refine ⟨final,whole,?_,?_,?_⟩
  · rw [driver'', driver', driver]
  · rw [fetched'', fetched', fetched]
  · rw [published'', published', same]

theorem stereoSupplied : Supplied 2 0 (boot stereoLoop 125 3) (sharedAudioCreate 48000 2 48000) :=
  ⟨rfl,readyCreated 2,rfl,rfl,rfl,rfl⟩

theorem stereoRate : (initialize_ loaded 125 3).hostTicksPerFrame = 500 := by decide +kernel

def startedStereo (now : Nat) : Driver :=
  {initialize_ loaded 125 3 with
    ioIsRunning := 1
    anchorHostTime := now
    lastHostTime := now
    slavedTicksPerFrame := 500
    ringIsOpen := true}

theorem startSupplied {k : Nat} {s : System} {ring : SharedRing Rat} (supplied : Supplied 2 k s ring)
    (little : k ≤ 400) (driver : s.driver = initialize_ loaded 125 3) (now : Nat) :
    (∃ ring', Supplied 2 k (start s now) ring') ∧ (start s now).driver = startedStereo now := by
  have opened : startIo (initialize_ loaded 125 3) (some ring) now =
      (.ok,startedStereo now,some (sharedAudioSeekToFill ring kDeviceTargetFill).2) := by
    simp only [startedStereo, ← stereoRate]
    rfl
  have started : start s now = {s.withRing (some (sharedAudioSeekToFill ring kDeviceTargetFill).2) with
      driver := startedStereo now} := by
    rw [start, driver, supplied.there, opened]
  have filled := suppliedFill supplied (by omega)
  have count := seekCount supplied.ready.sound kDeviceTargetFill
  have target : kDeviceTargetFill.toNat = 4800 := rfl
  have written : ring.header.writePos.toNat = 12 * k := by
    rw [supplied.writePos, positionToNat (by omega)]
  rw [filled, target] at count
  refine ⟨⟨(sharedAudioSeekToFill ring kDeviceTargetFill).2,?_⟩,by rw [started]⟩
  rw [started]
  refine ⟨rfl,⟨⟨supplied.ready.sound.positive,?_⟩,supplied.ready.capacity,supplied.ready.channelsEq⟩,
    supplied.shape,?_,supplied.writePos,supplied.clockSeq⟩
  · rw [seekFill supplied.ready.sound]
    exact (Nat.min_le_left _ _).trans supplied.ready.sound.bounded
  · rw [seekRing, ← UInt64.toNat_inj]
    simp only [UInt64.toNat_sub, UInt32.toNat_toUInt64, count, written, UInt64.toNat_zero]
    omega

def steadySession (times : Nat → UInt64) (k m n early late : Nat) : List Action :=
  feed quietPacket times k m ++ twoStamps quietPacket times (k + m) n early late

theorem steadyRun {k m n : Nat} {s : System} {ring : SharedRing Rat} (supplied : Supplied 2 k s ring)
    (little : k ≤ 400) (driver : s.driver = initialize_ loaded 125 3) (times : Nat → UInt64)
    (published : 0 < k + m) (some_ : 0 < n) (room : k + m + n ≤ 4000) (now early late : Nat) {o : Observation}
    (first : o = if m = 0 then latest s.ring else observed times (k + m - 1)) :
    ∃ w, run watch (begin_ s now) (steadySession times k m n early late) = some w ∧
      w.system.driver = (getZeroTimeStamp (getZeroTimeStamp (startedStereo now) (some o) early).1
        (some (observed times (k + m + n - 1))) late).1 ∧
      w.fetched = [o,observed times (k + m + n - 1)] ∧
      w.published = (List.range' k (m + n)).map (observed times) := by
  obtain ⟨⟨ring',supplied'⟩,started⟩ := startSupplied supplied little driver now
  obtain ⟨fed,ring'',ran,done,driver',fetched,published',newest⟩ :=
    watchedRun (n := m) (w := begin_ s now) quietWellFormed supplied' (by omega) times
  have opened : fed.system.driver = startedStereo now := driver'.trans started
  have last : latest fed.system.ring = o := by
    rw [first]
    split
    · rename_i none
      subst none
      have same : begin_ s now = fed := Option.some.inj ran
      rw [← same]
      exact startClock s.driver s.ring now
    · exact newest (by omega)
  obtain ⟨w,stamped,driver'',fetched',published''⟩ := twoStampsRun quietWellFormed done published some_ room
    (by rw [opened]; rfl) (by rw [opened]; exact Nat.one_ne_zero) last times early late
  refine ⟨w,runAppend ran stamped,?_,?_,?_⟩
  · rw [driver'', opened]
  · rw [fetched', fetched]
    rfl
  · rw [published'', published', ← List.range'_append_1, List.map_append]
    rfl

def slowSource (offset k : Nat) : UInt64 := UInt64.ofNat (offset + 6012 * (k + 1))

theorem slowSourceOnLine {offset k : Nat} (early : offset ≤ 2 ^ 32) (small : k < 4000) :
    OnLine offset 501 (observed (slowSource offset) k) := by
  have time : (slowSource offset k).toNat = offset + 6012 * (k + 1) := by
    rw [slowSource, UInt64.toNat_ofNat']
    omega
  simp only [OnLine, observed, time, positionToNat (show k + 1 ≤ 4000 by omega)]
  push_cast
  ring

theorem slowRangeOnLine (offset : Nat) {k n : Nat} (early : offset ≤ 2 ^ 32) (small : k + n ≤ 4000) :
    ∀ o ∈ (List.range' k n).map (observed (slowSource offset)), OnLine offset 501 o := by
  intro o member
  obtain ⟨j,inside,rfl⟩ := List.mem_map.mp member
  rw [List.mem_range'_1] at inside
  exact slowSourceOnLine early (by omega)

theorem slavesToSourceSteady : ∃ w,
    run watch (begin_ (boot stereoLoop 125 3) 0) (steadySession (slowSource 0) 0 1 2000 6012 12030012) = some w ∧
      Close w.system.driver 501 := by
  obtain ⟨w,ran,_,fetched,published⟩ := steadyRun stereoSupplied (by decide) rfl (slowSource 0) (m := 1)
    (n := 2000) (by decide) (by decide) (by decide) 0 6012 12030012 rfl
  refine ⟨w,ran,slavesToSource stereoLoop 125 3 (by decide) (by decide) [] _ rfl rfl 0 _ w ran 0 501 ?_ ?_ ?_ ?_⟩
  · rw [published]
    exact slowRangeOnLine 0 (by decide) (by decide)
  · rw [stereoRate]
    norm_num [abs_le]
  · intro o head
    rw [fetched] at head
    obtain rfl := Option.some.inj head
    exact slowSourceOnLine (by decide) (by decide)
  · rw [fetched]
    refine ⟨_,rfl,observed (slowSource 0) 2000,by simp,?_⟩
    simp only [observed, positionToNat (show 2000 + 1 ≤ 4000 by decide), if_neg Nat.one_ne_zero]
    rw [positionToNat (by decide)]

/-- All that is asked of the source, counted from the first observation published,
with a driver that has not found its rate. -/
structure Unslaved (offset tau : Rat) (w : Watch) : Prop where
  line : ∀ o ∈ w.published, OnLine offset tau o
  skew : |tau - 500| ≤ 500 / 100
  far : ∃ first, w.published.head? = some first ∧ ∃ o ∈ w.fetched, first.2.toNat + 24000 ≤ o.2.toNat
  notClose : ¬ Close w.system.driver tau

/-- Either the driver first asked a quarter of a second into the session, or it asked
before the session's first packet and measured from an observation of an older time. -/
theorem windowFromFirstPublished :
    (∃ w, run watch (begin_ (boot stereoLoop 125 3) 0)
      (steadySession (slowSource 0) 0 1000 1001 6012000 12030012) = some w ∧ Unslaved 0 501 w) ∧
    (∃ s w, run act (boot stereoLoop 125 3) (feed quietPacket (slowSource 0) 0 1) = some s ∧
      run watch (begin_ s 240000000)
        (steadySession (slowSource 240000000) 1 0 2001 240000001 252036024) = some w ∧
      Unslaved 240000000 501 w) := by
  constructor
  · obtain ⟨w,ran,driver,fetched,published⟩ := steadyRun stereoSupplied (by decide) rfl (slowSource 0)
      (m := 1000) (n := 1001) (by decide) (by decide) (by decide) 0 6012000 12030012 rfl
    refine ⟨w,ran,?_,by norm_num [abs_le],?_,?_⟩
    · rw [published]
      exact slowRangeOnLine 0 (by decide) (by decide)
    · rw [published, fetched, Nat.add_comm, List.range'_succ]
      refine ⟨_,rfl,observed (slowSource 0) 2000,by simp,?_⟩
      simp only [observed, positionToNat (show 0 + 1 ≤ 4000 by decide),
        positionToNat (show 2000 + 1 ≤ 4000 by decide)]
      decide
    · have rate : w.system.driver.slavedTicksPerFrame = 500 := by
        rw [driver]
        decide +kernel
      rw [Close, rate]
      norm_num [abs_le]
  · obtain ⟨s,ring,taken,supplied,driver,last⟩ :=
      supplyStep quietWellFormed stereoSupplied (by decide) (slowSource 0)
    have before : run act (boot stereoLoop 125 3) (feed quietPacket (slowSource 0) 0 1) = some s := by
      simp only [feedCons, run, taken, Option.bind_some]
      rfl
    obtain ⟨w,ran,driver',fetched,published⟩ := steadyRun supplied (by decide) driver (slowSource 240000000)
      (m := 0) (n := 2001) (by decide) (by decide) (by decide) 240000000 240000001 252036024 rfl
    rw [last, if_pos rfl] at driver' fetched
    refine ⟨s,w,before,ran,?_,by norm_num [abs_le],?_,?_⟩
    · rw [published]
      exact slowRangeOnLine 240000000 (by decide) (by decide)
    · rw [published, fetched, Nat.add_comm, List.range'_succ]
      refine ⟨_,rfl,observed (slowSource 240000000) 2001,by simp,?_⟩
      simp only [observed, positionToNat (show 1 + 1 ≤ 4000 by decide),
        positionToNat (show 2001 + 1 ≤ 4000 by decide)]
      decide
    · have rate : w.system.driver.slavedTicksPerFrame = 505 := by
        rw [driver']
        decide +kernel
      rw [Close, rate]
      norm_num [abs_le]

end ReacJack.ClockReference
