import ReacJack.ClockSlaving

/-! A source that sends one and the same packet over and over, as long as the ring has
room for it. -/
namespace ReacJack.SteadySource
open TransitionRuns SharedAudio ReacDecode Daemon HalDriver DeviceSystem ClockSlaving

def feed (packet : Bytes) (times : Nat → UInt64) (first n : Nat) : List Action :=
  (List.range' first n).map fun k => .capture (.frame packet true (times k))

def observed (times : Nat → UInt64) (k : Nat) : Observation := (times k,12 * UInt64.ofNat (k + 1))

structure Supplied (channels : UInt16) (k : Nat) (s : System) (ring : SharedRing Rat) : Prop where
  there : s.ring = some ring
  ready : Ready ring channels
  shape : s.loop.daemon.channels = channels
  unread : ring.header.readPos = 0
  writePos : ring.header.writePos = 12 * UInt64.ofNat k
  clockSeq : ring.header.clockSeq = 2 * UInt64.ofNat k

theorem positionToNat {k : Nat} (small : k ≤ 4000) : (12 * UInt64.ofNat k).toNat = 12 * k := by
  have twelve : (12 : UInt64).toNat = 12 := rfl
  rw [UInt64.toNat_mul, UInt64.toNat_ofNat', twelve]
  omega

theorem suppliedFill {channels : UInt16} {k : Nat} {s : System} {ring : SharedRing Rat}
    (supplied : Supplied channels k s ring) (small : k ≤ 4000) : fill ring.header = 12 * k := by
  rw [fill, supplied.unread, supplied.writePos, UInt64.sub_zero, positionToNat small]

theorem nextNumber (k : Nat) : UInt64.ofNat (k + 1) = UInt64.ofNat k + 1 := by
  rw [UInt64.ofNat_add]
  rfl

theorem supplyStep {channels : UInt16} {k : Nat} {s : System} {ring : SharedRing Rat} {packet : Bytes}
    (wellFormed : WellFormed packet channels.toNat) (supplied : Supplied channels k s ring)
    (room : k < 4000) (times : Nat → UInt64) :
    ∃ next ring', act s (.capture (.frame packet true (times k))) = some next ∧
      Supplied channels (k + 1) next ring' ∧ next.driver = s.driver ∧
      latest next.ring = observed times k := by
  have filled := suppliedFill supplied (Nat.le_of_lt room)
  have capacity := readyCapacity supplied.ready
  obtain ⟨storage,counter,_,taken⟩ :=
    captureTaken wellFormed supplied.there supplied.shape true (times k)
  have accepted := storeAccepted supplied.ready.sound storage (times k) (by omega)
  have kept := readyStored supplied.ready storage (times k)
  refine ⟨⟨⟨takePacket s.loop.daemon channels (storePacket ring storage (times k)) counter,storage⟩,s.driver⟩,
    storePacket ring storage (times k),by simp only [act, captureRound, taken, Option.map_some],
    ⟨rfl,kept,rfl,?_,?_,?_⟩,rfl,?_⟩
  · rw [accepted]
    exact supplied.unread
  · rw [accepted, nextNumber]
    simp only [supplied.writePos]
    grind
  · rw [accepted, nextNumber]
    simp only [supplied.clockSeq]
    grind
  · change latest (some (storePacket ring storage (times k))) = observed times k
    rw [accepted, observed, nextNumber]
    simp only [latest, Option.map_some, Option.getD_some, supplied.writePos]
    congr 1
    grind

theorem feedCons (packet : Bytes) (times : Nat → UInt64) (first n : Nat) :
    feed packet times first (n + 1) =
      .capture (.frame packet true (times first)) :: feed packet times (first + 1) n := by
  rw [feed, List.range'_succ]
  rfl

theorem watchedRun {channels : UInt16} {k n : Nat} {w : Watch} {ring : SharedRing Rat} {packet : Bytes}
    (wellFormed : WellFormed packet channels.toNat) (supplied : Supplied channels k w.system ring)
    (room : k + n ≤ 4000) (times : Nat → UInt64) :
    ∃ final ring', run watch w (feed packet times k n) = some final ∧
      Supplied channels (k + n) final.system ring' ∧ final.system.driver = w.system.driver ∧
      final.fetched = w.fetched ∧
      final.published = w.published ++ (List.range' k n).map (observed times) ∧
      (0 < n → latest final.system.ring = observed times (k + n - 1)) := by
  induction n generalizing k w ring with
  | zero => exact ⟨w,ring,rfl,supplied,rfl,rfl,by simp,by omega⟩
  | succ n ih =>
    obtain ⟨next,ring',taken,after,driver,last⟩ := supplyStep wellFormed supplied (by omega) times
    have moved : ¬ clockSequence next.ring = clockSequence w.system.ring := by
      rw [after.there, supplied.there]
      simp only [clockSequence, Option.map_some, Option.getD_some, after.clockSeq, supplied.clockSeq, nextNumber]
      grind
    have watched : watch w (.capture (.frame packet true (times k))) =
        some ⟨next,w.published ++ [observed times k],w.fetched⟩ := by
      simp only [watch, inSession, taken, Option.map_some, publication, moved, if_false, last, fetch,
        List.append_nil]
    obtain ⟨final,ring'',reached,done,same,fetched,published,latest_⟩ :=
      ih (w := ⟨next,w.published ++ [observed times k],w.fetched⟩) after (by omega)
    have count : k + 1 + n = k + (n + 1) := by omega
    rw [count] at done latest_
    refine ⟨final,ring'',?_,done,same.trans driver,fetched,?_,fun _ => ?_⟩
    · simp only [feedCons, run, watched, Option.bind_some, reached]
    · rw [published, List.range'_succ, List.map_cons, List.append_assoc]
      rfl
    · rcases Nat.eq_zero_or_pos n with rfl | more
      · obtain rfl := Option.some.inj reached
        exact last
      · exact latest_ more

theorem watchedTimeStamp {channels : UInt16} {k : Nat} {w : Watch} {ring : SharedRing Rat} {o : Observation}
    (supplied : Supplied channels k w.system ring) (published : 0 < k) (small : k ≤ 4000)
    (opened : w.system.driver.ringIsOpen = true) (running : w.system.driver.ioIsRunning ≠ 0)
    (last : latest w.system.ring = o) (now : Nat) :
    ∃ final, run watch w [.getZeroTimeStamp false now] = some final ∧
      Supplied channels k final.system ring ∧
      final.system.driver = (getZeroTimeStamp w.system.driver (some o) now).1 ∧
      final.fetched = w.fetched ++ [o] ∧ final.published = w.published := by
  have got : sharedAudioGetClock ring = some o := by
    have even : ¬ ring.header.clockSeq &&& 1 ≠ 0 := by
      rw [not_not, ← UInt64.toNat_inj, UInt64.toNat_and, supplied.clockSeq, UInt64.toNat_mul, UInt64.toNat_ofNat']
      have two : (2 : UInt64).toNat = 2 := rfl
      have one : (1 : UInt64).toNat = 1 := rfl
      rw [two, one, Nat.and_one_is_mod, UInt64.toNat_zero]
      omega
    have some_ : ¬ ring.header.clockSeq = 0 := by
      rw [← UInt64.toNat_inj, supplied.clockSeq, UInt64.toNat_mul, UInt64.toNat_ofNat', UInt64.toNat_zero]
      have two : (2 : UInt64).toNat = 2 := rfl
      rw [two]
      omega
    rw [← last, supplied.there]
    simp only [sharedAudioGetClock, sharedAudioGetClock.attempt, some_, even, if_false]
    rfl
  have fetched : fetchClock w.system false = some o := by
    simp only [fetchClock, Bool.false_eq_true, if_false, supplied.there, Option.bind_some, got]
  refine ⟨⟨{w.system with driver := (getZeroTimeStamp w.system.driver (some o) now).1},w.published,
    w.fetched ++ [o]⟩,?_,⟨supplied.there,supplied.ready,supplied.shape,supplied.unread,supplied.writePos,
    supplied.clockSeq⟩,rfl,rfl,rfl⟩
  have same : publication w.system.ring w.system.ring = [] := if_pos rfl
  simp only [run, watch, inSession, running, if_false, act, Option.map_some, Option.bind_some, fetch, opened,
    if_true, fetched, Option.toList_some]
  simp only [System.ring] at same ⊢
  rw [same, List.append_nil]

end ReacJack.SteadySource
