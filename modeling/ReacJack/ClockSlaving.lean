import Mathlib.Tactic.Linarith
import Mathlib.Tactic.Positivity
import Mathlib.Tactic.FieldSimp
import Mathlib.Tactic.Ring
import ReacJack.DeviceSystem
import ReacJack.HalTimeline

/-! How the driver finds the rate of the source from the observations that the daemon
publishes, whatever happened before recording started. The driver measures from the
first observation it fetches; from half a second of frames past that one on, its rate
is that of the line on which the observations lie. -/
namespace ReacJack.ClockSlaving
open TransitionRuns SharedAudio ReacDecode Daemon HalDriver DeviceSystem

abbrev Observation := UInt64 × UInt64

def latest (ring : Option (SharedRing Rat)) : Observation :=
  (ring.map (fun ring => (ring.header.clockHostTime,ring.header.clockSamplePos))).getD (0,0)

def clockSequence (ring : Option (SharedRing Rat)) : UInt64 :=
  (ring.map (fun ring => ring.header.clockSeq)).getD 0

structure Watch where
  system : System
  published : List Observation
  fetched : List Observation

def publication (before after : Option (SharedRing Rat)) : List Observation :=
  if clockSequence after = clockSequence before then [] else [latest after]

def fetch (s : System) : Action → List Observation
  | .getZeroTimeStamp contended _ =>
    if s.driver.ringIsOpen then (fetchClock s contended).toList else []
  | _ => []

def watch (w : Watch) (action : Action) : Option Watch :=
  (inSession w.system action).map fun system =>
    ⟨system,w.published ++ publication w.system.ring system.ring,w.fetched ++ fetch w.system action⟩

def begin_ (s : System) (now : Nat) : Watch := ⟨start s now,[],[]⟩

theorem writeClock (ring : SharedRing Rat) (storage : Nat → Nat → Rat) :
    (sharedAudioWrite ring storage 12).2.header.clockSeq = ring.header.clockSeq ∧
      (sharedAudioWrite ring storage 12).2.header.clockHostTime = ring.header.clockHostTime ∧
      (sharedAudioWrite ring storage 12).2.header.clockSamplePos = ring.header.clockSamplePos := by
  simp only [sharedAudioWrite]
  split <;> exact ⟨rfl,rfl,rfl⟩

theorem storeClock (ring : SharedRing Rat) (storage : Nat → Nat → Rat) (hostTime : UInt64)
    (same : clockSequence (some (storePacket ring storage hostTime)) = clockSequence (some ring)) :
    latest (some (storePacket ring storage hostTime)) = latest (some ring) := by
  obtain ⟨seq,time,pos⟩ := writeClock ring storage
  by_cases accepted : (sharedAudioWrite ring storage 12).1 = 0
  · simp [clockSequence, storePacket, accepted, sharedAudioPublishClock, seq] at same
  · simp only [latest, storePacket, accepted, ne_eq, not_false_eq_true, if_true, Option.map_some,
      Option.getD_some, time, pos]

theorem roundClock {s next : Loop} {c : Capture} (taken : captureRound s c = some next)
    (same : clockSequence next.daemon.ring = clockSequence s.daemon.ring) :
    latest next.daemon.ring = latest s.daemon.ring := by
  cases c with
  | timeout =>
    cases Option.some.inj taken
    rfl
  | error =>
    cases Option.some.inj taken
    rfl
  | frame packet created hostTime =>
    rcases captureFrameCases taken with now | now | ⟨channels,ring,counter,storage,_,opened,_,now⟩
    · rw [now]
    · rw [now]
      rfl
    · rw [now] at same ⊢
      have before : clockSequence s.daemon.ring = clockSequence (some ring) ∧ latest s.daemon.ring = latest (some ring) := by
        rcases opened with ⟨there,_⟩ | ⟨missing,rfl⟩
        · rw [there]
          exact ⟨rfl,rfl⟩
        · rw [missing]
          exact ⟨rfl,rfl⟩
      rw [before.1] at same
      rw [before.2]
      exact storeClock ring storage hostTime same

theorem tailClock (r : ReadResult Rat (Nat → Rat)) (outChannels : UInt16) (kept insert : UInt32) :
    latest (some (fillTail r outChannels kept insert).ring) = latest (some r.ring) := by
  rw [fillTailRing]
  split <;> rfl

theorem regulatedClock (ring : SharedRing Rat) (out : Nat → Rat) (outChannels : UInt16)
    (frames targetFill tolerance : UInt32) :
    latest (some (sharedAudioReadInterleavedRegulated ring out outChannels frames targetFill tolerance).ring) =
      latest (some ring) := by
  unfold sharedAudioReadInterleavedRegulated
  simp only
  split
  · rfl
  split
  · rw [tailClock]
    rfl
  · rfl

theorem readClock (s : System) (ring : SharedRing Rat) (out : Nat → Rat) (frames : UInt32) :
    latest (some (readInput s ring out frames).ring) = latest (some ring) := by
  unfold readInput doIOOperation
  split
  · exact regulatedClock ring out _ _ _ _
  · rfl

theorem startClock (d : Driver) (ring : Option (SharedRing Rat)) (now : Nat) :
    latest (startIo d ring now).2.2 = latest ring := by
  unfold startIo
  split
  · rfl
  split
  · cases ring <;> rfl
  · rfl

theorem sessionCapture {s next : System} {c : Capture} (taken : inSession s (.capture c) = some next) :
    next.driver = s.driver ∧ captureRound s.loop c = some next.loop := by
  obtain ⟨loop,round,rfl⟩ := Option.map_eq_some_iff.mp taken
  exact ⟨rfl,round⟩

theorem publicationCases {s next : System} {action : Action} (taken : inSession s action = some next) :
    (publication s.ring next.ring = [] ∧ latest next.ring = latest s.ring) ∨
      publication s.ring next.ring = [latest next.ring] := by
  by_cases same : clockSequence next.ring = clockSequence s.ring
  · refine .inl ⟨if_pos same,?_⟩
    cases action with
    | capture c => exact roundClock (sessionCapture taken).2 same
    | startIo now =>
      simp only [inSession, act] at taken
      split at taken
      · contradiction
      · cases Option.some.inj taken
        exact startClock s.driver s.ring now
    | stopIo =>
      simp only [inSession, act] at taken
      split at taken
      · contradiction
      · cases Option.some.inj taken
        rfl
    | getZeroTimeStamp contended now =>
      simp only [inSession, act] at taken
      split at taken
      · contradiction
      · cases Option.some.inj taken
        rfl
    | readInput out frames =>
      simp only [inSession, act] at taken
      split at taken
      · contradiction
      · cases Option.some.inj taken
        change latest (s.ring.map (fun ring => (readInput s ring out frames).ring)) = latest s.ring
        cases s.ring with
        | none => rfl
        | some ring => exact readClock s ring out frames
  · exact .inr (if_neg same)

theorem getClockLatest {ring : SharedRing Rat} {o : Observation} (got : sharedAudioGetClock ring = some o) :
    o = latest (some ring) := by
  unfold sharedAudioGetClock at got
  generalize 16 = attempts at got
  induction attempts with
  | zero => contradiction
  | succ attempts ih =>
    simp only [sharedAudioGetClock.attempt] at got
    split at got
    · contradiction
    split at got
    · exact ih got
    · exact (Option.some.inj got).symm

theorem fetchLatest {s : System} {action : Action} {o : Observation} (member : o ∈ fetch s action) :
    o = latest s.ring := by
  cases action with
  | getZeroTimeStamp contended now =>
    simp only [fetch] at member
    split at member
    · rw [Option.mem_toList] at member
      unfold fetchClock at member
      split at member
      · contradiction
      · obtain ⟨ring,there,got⟩ := Option.bind_eq_some_iff.mp member
        rw [there]
        exact getClockLatest got
    · exact absurd member List.not_mem_nil
  | capture c => exact absurd member List.not_mem_nil
  | startIo now => exact absurd member List.not_mem_nil
  | stopIo => exact absurd member List.not_mem_nil
  | readInput out frames => exact absurd member List.not_mem_nil

theorem fetchAtMostOne (s : System) (action : Action) : fetch s action = [] ∨ ∃ o, fetch s action = [o] := by
  cases action with
  | getZeroTimeStamp contended now =>
    simp only [fetch]
    split
    · cases fetchClock s contended with
      | none => exact .inl rfl
      | some o => exact .inr ⟨o,rfl⟩
    · exact .inl rfl
  | capture c => exact .inl rfl
  | startIo now => exact .inl rfl
  | stopIo => exact .inl rfl
  | readInput out frames => exact .inl rfl

/-- Every fetched observation is one of the session's own, except perhaps the first,
which may be older; `stale` is what the header held when the session began. -/
structure Sourced (stale : Observation) (w : Watch) : Prop where
  unpublished : w.published = [] → latest w.system.ring = stale ∧ ∀ o ∈ w.fetched, o = stale
  published : w.published ≠ [] → latest w.system.ring ∈ w.published
  fetched : ∀ o ∈ w.fetched, o ∈ w.published ∨ w.fetched.head? = some o

theorem sourcedFetch {stale : Observation} {w : Watch} (sourced : Sourced stale w) (action : Action) :
    Sourced stale {w with fetched := w.fetched ++ fetch w.system action} := by
  obtain ⟨unpublished,published,fetched⟩ := sourced
  rcases fetchAtMostOne w.system action with nothing | ⟨o,one⟩
  · rw [nothing, List.append_nil]
    exact ⟨unpublished,published,fetched⟩
  · have now : o = latest w.system.ring := fetchLatest (by rw [one]; exact List.mem_singleton_self o)
    rw [one]
    refine ⟨fun none => ?_,published,fun p member => ?_⟩
    · obtain ⟨same,all⟩ := unpublished none
      refine ⟨same,fun p member => ?_⟩
      rcases List.mem_append.mp member with old | new
      · exact all p old
      · rw [List.mem_singleton.mp new, now, same]
    · rcases List.mem_append.mp member with old | new
      · rcases fetched p old with among | head
        · exact .inl among
        · exact .inr (by rw [List.head?_append, head]; rfl)
      · rw [List.mem_singleton.mp new]
        by_cases none : w.published = []
        · obtain ⟨same,all⟩ := unpublished none
          refine .inr ?_
          rw [List.head?_append]
          cases h : w.fetched with
          | nil => rfl
          | cons first rest =>
            have : first = stale := all first (by rw [h]; exact List.mem_cons_self)
            rw [List.head?_cons, this, now, same]
            rfl
        · rw [now]
          exact .inl (published none)

theorem watchSourced {stale : Observation} (w : Watch) (action : Action) (next : Watch)
    (sourced : Sourced stale w) (taken : watch w action = some next) : Sourced stale next := by
  obtain ⟨system,step,rfl⟩ := Option.map_eq_some_iff.mp taken
  obtain ⟨unpublished,published,fetched⟩ := sourcedFetch sourced action
  rcases publicationCases step with ⟨nothing,same⟩ | one
  · rw [nothing, List.append_nil]
    exact ⟨by rw [same]; exact unpublished,by rw [same]; exact published,fetched⟩
  · rw [one]
    refine ⟨fun none => by simp at none,fun _ => ?_,fun o member => ?_⟩
    · exact List.mem_append_right _ (List.mem_singleton_self _)
    · rcases fetched o member with among | head
      · exact .inl (List.mem_append_left _ among)
      · exact .inr head

def OnLine (offset tau : Rat) (o : Observation) : Prop := (o.1.toNat : Rat) = offset + tau * o.2.toNat

def Close (d : Driver) (tau : Rat) : Prop :=
  |d.slavedTicksPerFrame - tau| ≤ 2 / 1000000 * d.slavedTicksPerFrame

def Far (fetched : List Observation) : Prop :=
  ∃ first, fetched.head? = some first ∧ ∃ o ∈ fetched, first.2.toNat + 24000 ≤ o.2.toNat

structure Slaved (tau nominal : Rat) (fetched : List Observation) (d : Driver) : Prop where
  rated : d.hostTicksPerFrame = nominal
  unset : fetched = [] → d.clockRefValid = false
  reference : ∀ first, fetched.head? = some first → d.clockRefValid = true ∧
    (d.clockRefHostTime,d.clockRefSamplePos) ∈ fetched ∧ d.clockRefSamplePos.toNat ≤ first.2.toNat
  settled : Far fetched → Close d tau

theorem slavedSame {tau nominal : Rat} {fetched : List Observation} {d d' : Driver}
    (slaved : Slaved tau nominal fetched d) (rated : d'.hostTicksPerFrame = d.hostTicksPerFrame)
    (valid : d'.clockRefValid = d.clockRefValid) (time : d'.clockRefHostTime = d.clockRefHostTime)
    (pos : d'.clockRefSamplePos = d.clockRefSamplePos)
    (rate : d'.slavedTicksPerFrame = d.slavedTicksPerFrame) : Slaved tau nominal fetched d' := by
  obtain ⟨rated_,unset,reference,settled⟩ := slaved
  refine ⟨by rw [rated]; exact rated_,by rw [valid]; exact unset,?_,?_⟩
  · rw [valid, time, pos]
    exact reference
  · unfold Close
    rw [rate]
    exact settled

theorem estimateOnLine {offset tau : Rat} {o ref : Observation} (positive : 0 < tau)
    (line : OnLine offset tau o) (refLine : OnLine offset tau ref) (after : ref.2.toNat < o.2.toNat) :
    ((o.1 - ref.1).toNat : Rat) / (o.2 - ref.2).toNat = tau := by
  unfold OnLine at line refLine
  have frames : (0 : Rat) < o.2.toNat - ref.2.toNat := by
    have : (ref.2.toNat : Rat) < o.2.toNat := Nat.cast_lt.mpr after
    linarith
  have later : ref.1.toNat ≤ o.1.toNat := by
    have scaled := mul_pos positive frames
    have : (ref.1.toNat : Rat) ≤ o.1.toNat := by linarith
    exact Nat.cast_le.mp this
  have ticks := UInt64.toNat_sub_of_le o.1 ref.1 (UInt64.le_iff_toNat_le.mpr later)
  have window := UInt64.toNat_sub_of_le o.2 ref.2 (UInt64.le_iff_toNat_le.mpr (Nat.le_of_lt after))
  rw [ticks, window, Nat.cast_sub later, Nat.cast_sub (Nat.le_of_lt after), line, refLine,
    div_eq_iff frames.ne']
  ring

theorem farAppend {fetched : List Observation} {o : Observation} (far : Far (fetched ++ [o])) :
    Far fetched ∨ ∃ first, (fetched ++ [o]).head? = some first ∧ first.2.toNat + 24000 ≤ o.2.toNat := by
  obtain ⟨first,head,p,member,past⟩ := far
  rcases List.mem_append.mp member with old | new
  · cases h : fetched with
    | nil =>
      rw [h] at old
      exact absurd old List.not_mem_nil
    | cons f rest =>
      rw [h, List.cons_append, List.head?_cons] at head
      rw [h] at old
      exact .inl ⟨first,head,p,old,past⟩
  · obtain rfl := List.mem_singleton.mp new
    exact .inr ⟨first,head,past⟩

theorem headAppend {fetched : List Observation} {o first : Observation}
    (head : (fetched ++ [o]).head? = some first) :
    (fetched = [] ∧ first = o) ∨ fetched.head? = some first := by
  cases fetched with
  | nil => exact .inl ⟨rfl,(Option.some.inj head).symm⟩
  | cons f rest => exact .inr head

theorem referenceSlaved {tau nominal : Rat} {fetched : List Observation} {d : Driver} {o : Observation}
    (slaved : Slaved tau nominal fetched d)
    (back : fetched = [] ∨ o.2.toNat < d.clockRefSamplePos.toNat) :
    Slaved tau nominal (fetched ++ [o])
      {d with clockRefHostTime := o.1, clockRefSamplePos := o.2, clockRefValid := true} := by
  have first : ∀ first, (fetched ++ [o]).head? = some first → o.2.toNat ≤ first.2.toNat := by
    intro first head
    rcases headAppend head with ⟨_,rfl⟩ | old
    · exact Nat.le_refl _
    · rcases back with none | less
      · rw [none] at old
        contradiction
      · have := (slaved.reference first old).2.2
        omega
  refine ⟨slaved.rated,fun none => by simp at none,fun f head => ⟨rfl,?_,first f head⟩,fun far => ?_⟩
  · exact List.mem_append_right _ (List.mem_singleton_self o)
  · rcases farAppend far with old | ⟨f,head,past⟩
    · exact slaved.settled old
    · have := first f head
      omega

theorem referenceStays {tau nominal : Rat} {fetched : List Observation} {d : Driver} (o : Observation)
    (slaved : Slaved tau nominal fetched d) (valid : d.clockRefValid = true) :
    fetched ≠ [] ∧ ∀ first, (fetched ++ [o]).head? = some first →
      d.clockRefValid = true ∧ (d.clockRefHostTime,d.clockRefSamplePos) ∈ fetched ++ [o] ∧
        d.clockRefSamplePos.toNat ≤ first.2.toNat := by
  have nonempty : fetched ≠ [] := by
    intro none
    rw [slaved.unset none] at valid
    contradiction
  refine ⟨nonempty,fun first head => ?_⟩
  rcases headAppend head with ⟨none,_⟩ | old
  · exact absurd none nonempty
  · obtain ⟨_,member,le⟩ := slaved.reference first old
    exact ⟨valid,List.mem_append_left _ member,le⟩

theorem referenceSet {tau nominal : Rat} {fetched : List Observation} {d : Driver}
    (slaved : Slaved tau nominal fetched d) (nonempty : fetched ≠ []) :
    d.clockRefValid = true ∧ (d.clockRefHostTime,d.clockRefSamplePos) ∈ fetched := by
  obtain ⟨first,rest,shape⟩ := List.exists_cons_of_ne_nil nonempty
  obtain ⟨valid,member,_⟩ := slaved.reference first (by rw [shape]; rfl)
  exact ⟨valid,member⟩

theorem estimateSlaved {offset tau nominal : Rat} (positive : 0 < nominal)
    (low : nominal * (99 / 100) ≤ tau) (high : tau ≤ nominal * (101 / 100))
    {fetched : List Observation} {d : Driver} {o : Observation} (slaved : Slaved tau nominal fetched d)
    (line : ∀ p ∈ fetched ++ [o], OnLine offset tau p) (valid : d.clockRefValid = true)
    (window : d.clockRefSamplePos.toNat + 24000 ≤ o.2.toNat) : HalTimeline.estimateFrom d o = tau := by
  have rate : 0 < tau := by linarith
  have member := (referenceSet slaved (referenceStays o slaved valid).1).2
  have slope := estimateOnLine rate (line o (List.mem_append_right _ (List.mem_singleton_self o)))
    (line _ (List.mem_append_left _ member)) (show d.clockRefSamplePos.toNat < o.2.toNat by omega)
  rw [HalTimeline.estimateFrom, slope, slaved.rated, HalTimeline.clampEstimateClamps positive,
    NoisyLine.clampInside low high]

theorem updateSlaved {offset tau nominal : Rat} (positive : 0 < nominal)
    (low : nominal * (99 / 100) ≤ tau) (high : tau ≤ nominal * (101 / 100))
    {fetched : List Observation} {d : Driver} {o : Observation} (slaved : Slaved tau nominal fetched d)
    (opened : d.ringIsOpen = true) (line : ∀ p ∈ fetched ++ [o], OnLine offset tau p) :
    Slaved tau nominal (fetched ++ [o]) (updateClockEstimate d (some o)) := by
  have rate : 0 < tau := by linarith
  have unset : fetched ++ [o] = [] → d.clockRefValid = false := fun none => by simp at none
  have spec := HalTimeline.updates d (some o)
  generalize updateClockEstimate d (some o) = next at spec ⊢
  cases spec with
  | unfetched nothing =>
    rcases nothing with closed | none
    · rw [opened] at closed
      contradiction
    · contradiction
  | reference _ fresh =>
    refine referenceSlaved slaved ?_
    rcases fresh with invalid | less
    · refine .inl (Classical.byContradiction fun some => ?_)
      rw [(referenceSet slaved some).1] at invalid
      contradiction
    · exact .inr less
  | short _ valid _ window =>
    have reference := (referenceStays o slaved valid).2
    refine ⟨slaved.rated,unset,reference,fun far => ?_⟩
    rcases farAppend far with old | ⟨first,head,past⟩
    · exact slaved.settled old
    · have := (reference first head).2.2
      omega
  | near _ valid window close =>
    refine ⟨slaved.rated,unset,(referenceStays o slaved valid).2,fun _ => ?_⟩
    rw [estimateSlaved positive low high slaved line valid window, abs_sub_comm, mul_comm] at close
    exact close
  | rebased _ valid window _ =>
    refine ⟨slaved.rated,unset,(referenceStays o slaved valid).2,fun _ => ?_⟩
    simp only [Close, estimateSlaved positive low high slaved line valid window, sub_self, abs_zero]
    positivity

def AllOnLine (offset tau : Rat) (w : Watch) : Prop := ∀ o ∈ w.fetched, OnLine offset tau o

theorem stampSlaved {offset tau nominal : Rat} (positive : 0 < nominal)
    (low : nominal * (99 / 100) ≤ tau) (high : tau ≤ nominal * (101 / 100)) {w : Watch} {contended : Bool} {now : Nat}
    (slaved : Slaved tau nominal w.fetched w.system.driver)
    (line : ∀ o ∈ w.fetched ++ fetch w.system (.getZeroTimeStamp contended now), OnLine offset tau o) :
    Slaved tau nominal (w.fetched ++ fetch w.system (.getZeroTimeStamp contended now))
      (updateClockEstimate w.system.driver (fetchClock w.system contended)) := by
  simp only [fetch] at line ⊢
  cases opened : w.system.driver.ringIsOpen with
  | false =>
    simp only [updateClockEstimate, opened, Bool.not_false, if_true, Bool.false_eq_true, if_false,
      List.append_nil]
    exact slaved
  | true =>
    cases got : fetchClock w.system contended with
    | none =>
      simp only [updateClockEstimate, opened, if_true, Option.toList_none, List.append_nil,
        Bool.not_true, Bool.false_eq_true, if_false]
      exact slaved
    | some o =>
      simp only [opened, got, if_true, Option.toList_some] at line
      simp only [if_true, Option.toList_some]
      exact updateSlaved positive low high slaved opened line

theorem watchSlaved {offset tau nominal : Rat} (positive : 0 < nominal)
    (low : nominal * (99 / 100) ≤ tau) (high : tau ≤ nominal * (101 / 100)) (w : Watch) (action : Action)
    (next : Watch) (slaved : Slaved tau nominal w.fetched w.system.driver)
    (line : AllOnLine offset tau next) (taken : watch w action = some next) :
    Slaved tau nominal next.fetched next.system.driver := by
  obtain ⟨system,step,rfl⟩ := Option.map_eq_some_iff.mp taken
  cases action with
  | capture c =>
    simp only [fetch, List.append_nil]
    rw [(sessionCapture step).1]
    exact slaved
  | startIo now =>
    simp only [inSession, act] at step
    split at step
    · contradiction
    · rename_i running
      obtain ⟨count,same⟩ := HalTimeline.nestedStart running w.system.ring now
      cases Option.some.inj step
      simp only [fetch, List.append_nil, start, same]
      exact slavedSame slaved rfl rfl rfl rfl rfl
  | stopIo =>
    simp only [inSession, act] at step
    split at step
    · contradiction
    · obtain ⟨count,opened,same⟩ := HalTimeline.stopCounts w.system.driver
      cases Option.some.inj step
      simp only [fetch, List.append_nil, same]
      exact slavedSame slaved rfl rfl rfl rfl rfl
  | getZeroTimeStamp contended now =>
    simp only [inSession, act] at step
    split at step
    · contradiction
    · cases Option.some.inj step
      exact slavedSame (stampSlaved positive low high slaved line) rfl rfl rfl rfl rfl
  | readInput out frames =>
    simp only [inSession, act] at step
    split at step
    · contradiction
    · cases Option.some.inj step
      simp only [fetch, List.append_nil]
      exact slaved

end ReacJack.ClockSlaving
