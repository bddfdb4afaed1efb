import ReacJack.HalPlugin
import ReacJack.HalTimeline
import ReacJack.MappedSamples
import ReacJack.RegulatedRead

/-! However the starts and stops of the host's clients nest: the mapping is open during a
session at most, each open one is closed once, and a client that comes or goes while
others run leaves the timeline and the ring to them. -/
namespace ReacJack.HalSessions
open TransitionRuns BufferLoops SharedAudio SharedMapping HalPlugin
open HalDriver hiding startIo stopIo getZeroTimeStamp doIOOperation
open RegulatedRead (RowIs frameAt silence plainRow insertRow)

variable {α : Type}

def mappingStep : Bool → RingCall → Option Bool
  | false, .opened succeeded => some succeeded
  | true, .closed => some false
  | _, _ => none

structure Mapping (audio : Handle) (opened : Bool) : Prop where
  header : opened = true ↔ audio.header ≠ none
  samples : opened = true ↔ audio.samples ≠ none

def unmapped : Handle := {header := none, samples := none, mappedBytes := 0, owner := 0, name := kDeviceRingName}

theorem unmappedMapping : Mapping unmapped false := ⟨by decide,by decide⟩

theorem openMapping (audio : Handle) (shm : Shm) (calls : OpenCalls) :
    Mapping (sharedAudioOpen audio shm kDeviceRingName calls).2
      (decide ((sharedAudioOpen audio shm kDeviceRingName calls).1 = 0)) := by
  have fresh : initHandle kDeviceRingName = some unmapped := initHandleValid (by decide) (by decide)
  simp only [sharedAudioOpen, fresh]
  split
  · exact unmappedMapping
  split
  · exact unmappedMapping
  split
  · exact unmappedMapping
  rename_i mapped
  simp only [mapShared] at mapped
  split at mapped
  · cases Option.some.inj mapped
    split
    · exact ⟨by simp,by simp⟩
    · exact ⟨by simp [sharedAudioClose],by simp [sharedAudioClose]⟩
  · contradiction

theorem closeMapping {audio : Handle} (mapping : Mapping audio true) : Mapping (sharedAudioClose audio) false := by
  rw [sharedAudioClose, if_neg (mapping.header.mp rfl)]
  exact ⟨by simp,by simp⟩

theorem ringFound {s : Plugin α} {audio : Handle} {opened : Bool} (mapping : Mapping audio opened) :
    (if opened then ringOf s audio else none).isSome = opened := by
  cases opened with
  | false => rfl
  | true =>
    cases here : audio.header with
    | none => exact absurd here (mapping.header.mp rfl)
    | some object => simp [ringOf, here]

theorem firstStart {d : Driver} (first : d.ioIsRunning = 0) (shm : Option (SharedRing α)) (now : Nat) :
    ∃ driver, HalDriver.startIo d shm now =
        (.ok,driver,shm.map (fun ring => (sharedAudioSeekToFill ring kDeviceTargetFill).2)) ∧
      driver.ioIsRunning = 1 ∧ driver.ringIsOpen = shm.isSome := by
  have room : ¬ d.ioIsRunning = 2 ^ 64 - 1 := by omega
  rw [HalDriver.startIo, if_neg room, if_pos first]
  exact ⟨_,rfl,by simp only [first],rfl⟩

structure Opened (s : Plugin α) (opened : Bool) (next : Plugin α) : Prop where
  samples : next.samples = s.samples
  count : next.driver.ioIsRunning = 1
  ringIsOpen : next.driver.ringIsOpen = opened
  mapping : Mapping next.ring opened
  log : next.log = s.log ++ [.opened opened]

theorem startCases (s : Plugin α) (inDriver : Bool) (inDeviceObjectID : UInt32) (calls : OpenCalls) (now : Nat) :
    (∃ status, status ≠ .ok ∧ startIo s inDriver inDeviceObjectID calls now = (status,s)) ∨
      (s.driver.ioIsRunning = 0 ∧ ∃ opened next,
        startIo s inDriver inDeviceObjectID calls now = (.ok,next) ∧ Opened s opened next) ∨
      (s.driver.ioIsRunning ≠ 0 ∧ s.driver.ioIsRunning ≠ 2 ^ 64 - 1 ∧
        startIo s inDriver inDeviceObjectID calls now =
          (.ok,{s with driver := {s.driver with ioIsRunning := s.driver.ioIsRunning + 1}})) := by
  by_cases bad : badObject inDriver inDeviceObjectID = true
  · exact .inl ⟨.badObject,by simp,by rw [startIo, if_pos bad]⟩
  by_cases first : s.driver.ioIsRunning = 0
  · right; left
    refine ⟨first,?_⟩
    have mapping := openMapping s.ring s.shm calls
    rcases result : sharedAudioOpen s.ring s.shm kDeviceRingName calls with ⟨code,ring⟩
    rw [result] at mapping
    have found := ringFound (s := s) mapping
    simp only [decide_eq_true_eq] at found
    obtain ⟨driver,started,count,opened⟩ := firstStart first (if code = 0 then ringOf s ring else none) now
    refine ⟨decide (code = 0),(startIo s inDriver inDeviceObjectID calls now).2,?_,?_⟩
    · rw [startIo, if_neg bad, if_pos first]
      simp only [result, started, statusOf]
    · rw [startIo, if_neg bad, if_pos first]
      simp only [result, started]
      exact ⟨rfl,count,opened.trans found,mapping,rfl⟩
  by_cases full : s.driver.ioIsRunning = 2 ^ 64 - 1
  · refine .inl ⟨.illegalOperation,by simp,?_⟩
    rw [startIo, if_neg bad, if_neg first]
    simp only [HalDriver.startIo, full, if_true, statusOf]
  · refine .inr (.inr ⟨first,full,?_⟩)
    rw [startIo, if_neg bad, if_neg first]
    simp only [HalDriver.startIo, full, first, if_false, statusOf]

theorem stopCases (s : Plugin α) (inDriver : Bool) (inDeviceObjectID : UInt32) :
    (∃ status, status ≠ .ok ∧ stopIo s inDriver inDeviceObjectID = (status,s)) ∨
      (s.driver.ioIsRunning = 1 ∧ s.driver.ringIsOpen = true ∧ stopIo s inDriver inDeviceObjectID =
        (.ok,{s with
          driver := {s.driver with ioIsRunning := 0, ringIsOpen := false}
          ring := sharedAudioClose s.ring
          log := s.log ++ [.closed]})) ∨
      (s.driver.ioIsRunning ≠ 0 ∧ (s.driver.ioIsRunning = 1 → s.driver.ringIsOpen = false) ∧
        stopIo s inDriver inDeviceObjectID =
          (.ok,{s with driver := {s.driver with ioIsRunning := s.driver.ioIsRunning - 1}})) := by
  by_cases bad : badObject inDriver inDeviceObjectID = true
  · exact .inl ⟨.badObject,by simp,by rw [stopIo, if_pos bad]⟩
  by_cases none : s.driver.ioIsRunning = 0
  · refine .inl ⟨.illegalOperation,by simp,?_⟩
    rw [stopIo, if_neg bad]
    simp [HalDriver.stopIo, none, statusOf]
  by_cases last : s.driver.ioIsRunning - 1 = 0 ∧ s.driver.ringIsOpen = true
  · refine .inr (.inl ⟨by omega,last.2,?_⟩)
    rw [stopIo, if_neg bad]
    simp [HalDriver.stopIo, none, last, statusOf]
  · refine .inr (.inr ⟨none,?_,?_⟩)
    · intro one
      by_contra opened
      exact last ⟨by omega,by simpa using opened⟩
    · rw [stopIo, if_neg bad]
      simp [HalDriver.stopIo, none, last, statusOf]

theorem stampKeeps (d : Driver) (fetched : Option (UInt64 × UInt64)) (now : Nat) :
    (HalDriver.getZeroTimeStamp d fetched now).1.ioIsRunning = d.ioIsRunning ∧
      (HalDriver.getZeroTimeStamp d fetched now).1.ringIsOpen = d.ringIsOpen := by
  obtain ⟨_,opened,count⟩ := HalTimeline.updateKeeps d fetched
  exact ⟨count,opened⟩

theorem regulatedShape [Zero α] (ring : SharedRing α) (outChannels : UInt16) (frames targetFill tolerance : UInt32) :
    (∃ ring', ∀ out, sharedAudioReadInterleavedRegulated ring out outChannels frames targetFill tolerance =
      sharedAudioReadInterleaved ring' out outChannels frames) ∨
    ∃ insert : UInt32, insert.toNat ≤ frames.toNat ∧ ∀ out,
      sharedAudioReadInterleavedRegulated ring out outChannels frames targetFill tolerance =
        fillTail (sharedAudioReadInterleaved ring out outChannels (frames - insert)) outChannels
          (frames - insert) insert := by
  -- A regulated read is a read, or one that is cut short and whose tail is filled in. No assumption
  -- on the header is needed.
  simp only [sharedAudioReadInterleavedRegulated]
  split
  · exact .inl ⟨_,fun _ => rfl⟩
  split
  · refine .inr ⟨_,?_,fun _ => rfl⟩
    split
    · exact Nat.le_refl _
    · rename_i fits
      rw [UInt32.lt_iff_toNat_lt, Nat.not_lt] at fits
      exact fits
  · exact .inl ⟨ring,fun _ => rfl⟩

theorem regulatedWrites [Zero α] (ring : SharedRing α) (outChannels : UInt16)
    (frames targetFill tolerance : UInt32) : ∃ rows : Nat → Nat → α, ∀ out,
      let r := sharedAudioReadInterleavedRegulated ring out outChannels frames targetFill tolerance
      (∀ f < frames.toNat, RowIs r.out outChannels.toNat f (rows f)) ∧
        ∀ i, frames.toNat * outChannels.toNat ≤ i → r.out i = out i := by
  rcases regulatedShape ring outChannels frames targetFill tolerance with ⟨ring',result⟩ | ⟨insert,le,result⟩
  · refine ⟨fun f => if f < (readCount ring'.header frames).toNat then frameAt ring' f else silence,fun out => ?_⟩
    rw [result out]
    exact ⟨fun f inside => plainRow ring' out outChannels frames inside,
      fun i beyond => readInterleavedBeyond ring' out beyond⟩
  · refine ⟨fun f => if f < (readCount ring.header (frames - insert)).toNat then frameAt ring f
      else if frames.toNat - insert.toNat ≤ f ∧ 0 < (readCount ring.header (frames - insert)).toNat
        then frameAt ring ((readCount ring.header (frames - insert)).toNat - 1)
      else silence,fun out => ?_⟩
    have kept := subToNat le
    rw [result out]
    refine ⟨fun f inside => insertRow ring out outChannels le inside,fun i beyond => ?_⟩
    have whole : (frames - insert).toNat + insert.toNat = frames.toNat := by omega
    rw [fillTailOutside _ (.inr (by rw [whole]; exact beyond))]
    refine readInterleavedBeyond ring out ((Nat.mul_le_mul_right _ ?_).trans beyond)
    omega

theorem silenceWrites [Zero α] (out : Nat → α) (frames width : Nat) :
    (∀ f < frames, RowIs (memset out 0 0 (frames * width)) width f silence) ∧
      ∀ i, frames * width ≤ i → memset out 0 0 (frames * width) i = out i := by
  refine ⟨?_,fun i beyond => memsetOutside _ _ (by omega)⟩
  intro f inside ch channel
  have cell := cellBound inside channel
  exact memsetInside _ _ (Nat.zero_le _) (by omega)

structure Consistent (s : Hosted α) : Prop where
  balance : s.plugin.driver.ioIsRunning + s.stops = s.starts
  bounded : s.plugin.driver.ioIsRunning < 2 ^ 64
  running : s.plugin.driver.ringIsOpen = true → 0 < s.plugin.driver.ioIsRunning
  mapping : Mapping s.plugin.ring s.plugin.driver.ringIsOpen
  record : run mappingStep false s.plugin.log = some s.plugin.driver.ringIsOpen

inductive Touches (before : Plugin α) : Call α → Plugin α → Prop where
  | neither {call after} (log : after.log = before.log) : Touches before call after
  | opens {inDriver inDeviceObjectID calls now after} (succeeded : Bool)
    (log : after.log = before.log ++ [.opened succeeded]) (closed : before.driver.ringIsOpen = false)
    (first : before.driver.ioIsRunning = 0 ∧ after.driver.ioIsRunning = 1) :
    Touches before (.startIo inDriver inDeviceObjectID calls now) after
  | closes {inDriver inDeviceObjectID after} (log : after.log = before.log ++ [.closed])
    (opened : before.driver.ringIsOpen = true)
    (last : before.driver.ioIsRunning = 1 ∧ after.driver.ioIsRunning = 0) :
    Touches before (.stopIo inDriver inDeviceObjectID) after

theorem notOpen {s : Hosted α} (consistent : Consistent s) (none : s.plugin.driver.ioIsRunning = 0) :
    s.plugin.driver.ringIsOpen = false := by
  by_contra opened
  have some_ := consistent.running (by simpa using opened)
  omega

theorem sameConsistent {s : Hosted α} (consistent : Consistent s) {plugin : Plugin α}
    (count : plugin.driver.ioIsRunning = s.plugin.driver.ioIsRunning)
    (opened : plugin.driver.ringIsOpen = s.plugin.driver.ringIsOpen) (ring : plugin.ring = s.plugin.ring)
    (log : plugin.log = s.plugin.log) : Consistent {s with plugin} := by
  obtain ⟨balance,bounded,running,mapping,record⟩ := consistent
  refine ⟨?_,?_,?_,?_,?_⟩
  · simp only [count]
    exact balance
  · simp only [count]
    exact bounded
  · simp only [count, opened]
    exact running
  · simp only [ring, opened]
    exact mapping
  · simp only [log, opened]
    exact record

theorem startConsistent {s : Hosted α} (consistent : Consistent s) (inDriver : Bool) (inDeviceObjectID : UInt32)
    (calls : OpenCalls) (now : Nat) :
    Consistent ⟨(startIo s.plugin inDriver inDeviceObjectID calls now).2,
        s.starts + counted (startIo s.plugin inDriver inDeviceObjectID calls now).1,s.stops⟩ ∧
      Touches s.plugin (.startIo inDriver inDeviceObjectID calls now)
        (startIo s.plugin inDriver inDeviceObjectID calls now).2 := by
  have balance := consistent.balance
  have bounded := consistent.bounded
  rcases startCases s.plugin inDriver inDeviceObjectID calls now with
    ⟨status,failed,result⟩ | ⟨first,opened,next,result,done⟩ | ⟨some_,room,result⟩
  · rw [result]
    refine ⟨?_,.neither rfl⟩
    simp only [counted, failed, if_false, Nat.add_zero]
    exact consistent
  · rw [result]
    have closed := notOpen consistent first
    have record := consistent.record
    rw [closed] at record
    refine ⟨⟨?_,?_,?_,?_,?_⟩,.opens opened done.log closed ⟨first,done.count⟩⟩
    · simp only [counted, done.count, if_true]
      omega
    · simp only [done.count]
      omega
    · simp only [done.count]
      omega
    · simp only [done.ringIsOpen]
      exact done.mapping
    · simp only [done.ringIsOpen, done.log]
      exact runAppend record rfl
  · rw [result]
    refine ⟨⟨?_,?_,?_,consistent.mapping,consistent.record⟩,.neither rfl⟩
    · simp only [counted, if_true]
      omega
    · simp only
      omega
    · intro _
      simp only
      omega

theorem stopConsistent {s : Hosted α} (consistent : Consistent s) (inDriver : Bool) (inDeviceObjectID : UInt32) :
    Consistent ⟨(stopIo s.plugin inDriver inDeviceObjectID).2,s.starts,
        s.stops + counted (stopIo s.plugin inDriver inDeviceObjectID).1⟩ ∧
      Touches s.plugin (.stopIo inDriver inDeviceObjectID) (stopIo s.plugin inDriver inDeviceObjectID).2 := by
  have balance := consistent.balance
  have bounded := consistent.bounded
  rcases stopCases s.plugin inDriver inDeviceObjectID with
    ⟨status,failed,result⟩ | ⟨one,opened,result⟩ | ⟨some_,last,result⟩
  · rw [result]
    refine ⟨?_,.neither rfl⟩
    simp only [counted, failed, if_false, Nat.add_zero]
    exact consistent
  · rw [result]
    have mapping := consistent.mapping
    have record := consistent.record
    rw [opened] at mapping record
    refine ⟨⟨?_,Nat.two_pow_pos 64,by simp,closeMapping mapping,runAppend record rfl⟩,.closes rfl opened ⟨one,rfl⟩⟩
    simp only [counted, if_true]
    omega
  · rw [result]
    refine ⟨⟨?_,?_,?_,consistent.mapping,consistent.record⟩,.neither rfl⟩
    · simp only [counted, if_true]
      omega
    · simp only
      omega
    · intro opened
      by_cases one : s.plugin.driver.ioIsRunning = 1
      · exact absurd (last one) (by simpa using opened)
      · simp only
        omega

theorem stampConsistent {s : Hosted α} (consistent : Consistent s) (inDriver : Bool) (inDeviceObjectID : UInt32)
    (outputs : Bool) (fetched : Option (UInt64 × UInt64)) (now : Nat) : ∃ status stamp plugin,
      getZeroTimeStamp s.plugin inDriver inDeviceObjectID outputs fetched now =
          some (status,stamp,plugin) ∧
        Consistent {s with plugin} ∧ plugin.log = s.plugin.log := by
  rw [getZeroTimeStamp]
  split
  · exact ⟨_,_,_,rfl,consistent,rfl⟩
  · have followed : ¬ (s.plugin.driver.ringIsOpen = true ∧ s.plugin.ring.header = none) :=
      fun both => consistent.mapping.header.mp both.1 both.2
    rw [if_neg followed]
    obtain ⟨count,opened⟩ := stampKeeps s.plugin.driver fetched now
    exact ⟨_,_,_,rfl,sameConsistent consistent count opened rfl rfl,rfl⟩

theorem operationConsistent [Zero α] {s : Hosted α} (consistent : Consistent s) (inDriver : Bool)
    (inDeviceObjectID inOperationID inIOBufferFrameSize : UInt32) (ioMainBuffer : Option (Nat → α)) :
    ∃ status buffer plugin, doIOOperation s.plugin inDriver inDeviceObjectID inOperationID
        inIOBufferFrameSize ioMainBuffer = some (status,buffer,plugin) ∧
      Consistent {s with plugin} ∧ plugin.log = s.plugin.log := by
  unfold doIOOperation
  split
  · exact ⟨_,_,_,rfl,consistent,rfl⟩
  split
  · exact ⟨_,_,_,rfl,consistent,rfl⟩
  split
  · exact ⟨_,_,_,rfl,consistent,rfl⟩
  split
  · rename_i opened
    cases here : s.plugin.ring.header with
    | none => exact absurd here (consistent.mapping.header.mp opened)
    | some object =>
      simp only [ringOf, here, Option.map_some]
      exact ⟨_,_,_,rfl,sameConsistent consistent rfl rfl rfl rfl,rfl⟩
  · exact ⟨_,_,_,rfl,consistent,rfl⟩

theorem stepConsistent [Zero α] {s next : Hosted α} {call : Call α} (consistent : Consistent s)
    (taken : step s call = some next) : Consistent next ∧ Touches s.plugin call next.plugin := by
  cases call with
  | startIo inDriver inDeviceObjectID calls now =>
    cases Option.some.inj taken
    exact startConsistent consistent inDriver inDeviceObjectID calls now
  | stopIo inDriver inDeviceObjectID =>
    cases Option.some.inj taken
    exact stopConsistent consistent inDriver inDeviceObjectID
  | getZeroTimeStamp inDriver inDeviceObjectID outputs fetched now =>
    obtain ⟨status,stamp,plugin,result,kept,log⟩ :=
      stampConsistent consistent inDriver inDeviceObjectID outputs fetched now
    simp only [step, result, Option.map_some] at taken
    split at taken
    · contradiction
    · cases Option.some.inj taken
      exact ⟨kept,.neither log⟩
  | doIOOperation inDriver inDeviceObjectID inOperationID inIOBufferFrameSize ioMainBuffer =>
    obtain ⟨status,buffer,plugin,result,kept,log⟩ := operationConsistent consistent inDriver inDeviceObjectID
      inOperationID inIOBufferFrameSize ioMainBuffer
    simp only [step, result, Option.map_some] at taken
    cases Option.some.inj taken
    exact ⟨kept,.neither log⟩
  | others shm samples =>
    cases Option.some.inj taken
    exact ⟨sameConsistent consistent rfl rfl rfl rfl,.neither rfl⟩

theorem initializedConsistent (numer denom : UInt32) (shm : Shm) (samples : Nat → Nat → α) :
    Consistent (initialized numer denom shm samples) :=
  ⟨rfl,Nat.two_pow_pos 64,by simp [initialized, initialize_, loaded],
    ⟨by simp [initialized, initialize_, loaded],by simp [initialized, initialize_, loaded]⟩,rfl⟩

theorem inputWritten [Zero α] {s : Hosted α} (consistent : Consistent s) (frames : UInt32) :
    ∃ rows : Nat → Nat → α, ∀ buffer, ∃ out plugin,
      doIOOperation s.plugin true kObjectIDDevice kAudioServerPlugInIOOperationReadInput frames
          (some buffer) = some (.ok,some out,plugin) ∧
        (∀ f < frames.toNat, RowIs out 40 f (rows f)) ∧ ∀ i, frames.toNat * 40 ≤ i → out i = buffer i := by
  have device : ¬ badObject true kObjectIDDevice = true := by decide
  cases opened : s.plugin.driver.ringIsOpen with
  | false =>
    refine ⟨fun _ => silence,fun buffer => ⟨_,s.plugin,?_,silenceWrites buffer frames.toNat 40⟩⟩
    unfold doIOOperation
    rw [if_neg device]
    simp [opened, kDeviceChannelCount]
  | true =>
    cases here : s.plugin.ring.header with
    | none => exact absurd here (consistent.mapping.header.mp opened)
    | some object =>
      let ring : SharedRing α := ⟨(s.plugin.shm.objects object).header,s.plugin.samples object⟩
      let read := fun buffer => sharedAudioReadInterleavedRegulated ring buffer kDeviceChannelCount frames
        kDeviceTargetFill kDeviceFillTolerance
      obtain ⟨rows,written⟩ := regulatedWrites ring kDeviceChannelCount frames kDeviceTargetFill kDeviceFillTolerance
      refine ⟨rows,fun buffer => ⟨(read buffer).out,
        {s.plugin with shm := store s.plugin s.plugin.ring (some (read buffer).ring)},?_,written buffer⟩⟩
      unfold doIOOperation
      rw [if_neg device]
      simp only [opened, if_true, ringOf, here, Option.map_some, HalDriver.doIOOperation, ne_eq,
        not_true_eq_false, if_false, read, ring]

theorem nestedStartKeeps {s : Plugin α} (running : 0 < s.driver.ioIsRunning) (inDriver : Bool)
    (inDeviceObjectID : UInt32) (calls : OpenCalls) (now : Nat) : ∃ count,
      (startIo s inDriver inDeviceObjectID calls now).2 = {s with driver := {s.driver with ioIsRunning := count}} := by
  rcases startCases s inDriver inDeviceObjectID calls now with
    ⟨status,_,result⟩ | ⟨first,_⟩ | ⟨_,_,result⟩
  · exact ⟨s.driver.ioIsRunning,by rw [result]⟩
  · omega
  · exact ⟨s.driver.ioIsRunning + 1,by rw [result]⟩

theorem stopRefused {s : Plugin α} (none : s.driver.ioIsRunning = 0) (inDriver : Bool) (inDeviceObjectID : UInt32) :
    (stopIo s inDriver inDeviceObjectID).1 ≠ .ok ∧ (stopIo s inDriver inDeviceObjectID).2 = s := by
  rcases stopCases s inDriver inDeviceObjectID with ⟨status,failed,result⟩ | ⟨one,_⟩ | ⟨some_,_⟩
  · rw [result]
    exact ⟨failed,rfl⟩
  · omega
  · exact absurd none some_

theorem sessionsConsistent [Zero α] (numer denom : UInt32) (shm : Shm) (samples : Nat → Nat → α)
    (calls : List (Call α)) (t : Hosted α)
    (reached : run step (initialized numer denom shm samples) calls = some t) :
    t.plugin.driver.ioIsRunning + t.stops = t.starts ∧ t.plugin.driver.ioIsRunning < 2 ^ 64 ∧
      (t.plugin.driver.ioIsRunning = 0 → ∀ inDriver inDeviceObjectID,
        (stopIo t.plugin inDriver inDeviceObjectID).1 ≠ .ok ∧
          (stopIo t.plugin inDriver inDeviceObjectID).2 = t.plugin) ∧
      (t.plugin.driver.ringIsOpen = true → 0 < t.plugin.driver.ioIsRunning ∧
        t.plugin.ring.header ≠ none ∧ t.plugin.ring.samples ≠ none) ∧
      run mappingStep false t.plugin.log = some t.plugin.driver.ringIsOpen ∧
      (∀ call next, step t call = some next → Touches t.plugin call next.plugin) ∧
      (0 < t.plugin.driver.ioIsRunning → ∀ inDriver inDeviceObjectID calls now, ∃ count,
        (startIo t.plugin inDriver inDeviceObjectID calls now).2 =
          {t.plugin with driver := {t.plugin.driver with ioIsRunning := count}}) ∧
      ∀ frames, ∃ rows : Nat → Nat → α, ∀ buffer, ∃ out plugin,
        doIOOperation t.plugin true kObjectIDDevice kAudioServerPlugInIOOperationReadInput frames
            (some buffer) = some (.ok,some out,plugin) ∧
          (∀ f < frames.toNat, RowIs out 40 f (rows f)) ∧ ∀ i, frames.toNat * 40 ≤ i → out i = buffer i := by
  have consistent : Consistent t := runInvariant (fun s call next before taken => (stepConsistent before taken).1)
    (initializedConsistent numer denom shm samples) reached
  refine ⟨consistent.balance,consistent.bounded,stopRefused,?_,consistent.record,?_,nestedStartKeeps,
    inputWritten consistent⟩
  · intro opened
    exact ⟨consistent.running opened,consistent.mapping.header.mp opened,consistent.mapping.samples.mp opened⟩
  · intro call next taken
    exact (stepConsistent consistent taken).2

def noRing : Shm := ObjectNames.noNames blank

def stereoRing : Shm :=
  (SharedMapping.sharedAudioCreate unmapped noRing kDeviceRingName ⟨48000,2,48000⟩ ⟨true,true,true⟩).2.2

def twoSessions : List (Call Int) :=
  [.startIo true 2 ⟨true,true,true⟩ 7,.startIo true 2 ⟨true,true,true⟩ 8,.stopIo true 2,.stopIo true 2,
    .others stereoRing (fun _ _ => 0),.startIo true 2 ⟨true,true,true⟩ 9,.stopIo true 2]

theorem sessionsConsistentTwo : ∃ t, run step (initialized 1 1 noRing (fun _ _ => 0)) twoSessions = some t ∧
    t.plugin.log = [.opened false,.opened true,.closed] ∧ t.plugin.driver.ioIsRunning + t.stops = t.starts ∧
    run mappingStep false t.plugin.log = some t.plugin.driver.ringIsOpen := by
  have seen : (run step (initialized 1 1 noRing (fun _ _ => 0)) twoSessions).map (·.plugin.log) =
      some [.opened false,.opened true,.closed] := by decide +kernel
  obtain ⟨t,reached,log⟩ := Option.map_eq_some_iff.mp seen
  obtain ⟨balance,_,_,_,record,_⟩ := sessionsConsistent 1 1 noRing (fun _ _ => 0) twoSessions t reached
  exact ⟨t,reached,log,balance,record⟩

end ReacJack.HalSessions
