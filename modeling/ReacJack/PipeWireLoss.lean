import ReacJack.PipeWireLedger
import ReacJack.ReacWire
import Mathlib.Data.List.Range

/-! The loss counter of `reacjack-pw.c`. A listener on the network notes every packet of
the stream; the capture thread notes only those the ring took. The two agree until a
packet is refused, and from then on the callback has a say in the count. -/
namespace ReacJack.PipeWireLoss
open ReacDecode TransitionRuns PipeWire PipeWireLedger
open PipeWireRing (fill)
open Daemon (counterGap)
open ReacWire (numberedPacket numberedWellFormed numberedCounter)

structure Count where
  haveLastCounter : Bool
  lastCounter : UInt16
  lostPackets : UInt64

def countOf (app : ReacPw) : Count := ⟨app.haveLastCounter,app.lastCounter,app.lostPackets⟩

def note (c : Count) (counter : UInt16) : Count :=
  ⟨true,counter,c.lostPackets + counterGap c.haveLastCounter c.lastCounter counter⟩

def counterOf (channels : UInt16) (bytes : Bytes) : Option UInt16 :=
  let (parseStatus,parsed) := reacParsePacket (some bytes) (some cleared)
  let packet := parsed.getD cleared
  if parseStatus = .ok ∧ packet.channels = channels then some packet.counter else none

def listen (channels : UInt16) (c : Count) (frames : List Bytes) : Count :=
  (frames.filterMap (counterOf channels)).foldl note c

def frameOf : Event → Option Bytes
  | .capture (.frame bytes) => some bytes
  | _ => none

def framesOf (events : List Event) : List Bytes := events.filterMap frameOf

def Refused (app : ReacPw) : Event → Prop
  | .capture (.frame bytes) => WellFormed bytes app.channels.toNat ∧ 96000 < fill app.ring + 12
  | _ => False

def NoneRefused (b : Books) (events : List Event) : Prop :=
  ∀ before event after reached, events = before ++ event :: after → run step b before = some reached →
    ¬ Refused reached.thread.app event

theorem counterOfPacket {channels : UInt16} {bytes : Bytes} (ours : WellFormed bytes channels.toNat) :
    counterOf channels bytes = some (viewOf bytes channels.toNat).counter := by
  have same : (viewOf bytes channels.toNat).channels = channels := by
    rw [← UInt16.toNat_inj]
    exact viewChannels bytes ours.most
  simp only [counterOf, parseWellFormed ours cleared, Option.getD_some, same, and_self, if_true]

theorem counterOfOther {channels : UInt16} {bytes : Bytes} (other : ¬ WellFormed bytes channels.toNat) :
    counterOf channels bytes = none := by
  cases parsed : reacParsePacket (some bytes) (some cleared) with
  | mk parseStatus view =>
    simp only [counterOf, parsed]
    refine if_neg ?_
    rintro ⟨rfl,same⟩
    obtain ⟨count,wellFormed,rfl⟩ := parsedWellFormed parsed
    apply other
    rw [← same, Option.getD_some, viewChannels bytes wellFormed.most]
    exact wellFormed

theorem noteMoves (c : Count) (counter : UInt16) : note c counter ≠ c := by
  intro same
  obtain ⟨have_,last,lost⟩ := c
  simp only [note, Count.mk.injEq] at same
  obtain ⟨rfl,rfl,total⟩ := same
  have behind : counterGap true counter counter = 1 := by
    have apart : ¬ counter = counter + 1 := by simp
    have far : ¬ counter - (counter + 1) < 32768 := by
      rw [UInt16.lt_iff_toNat_lt, UInt16.toNat_sub, UInt16.toNat_add, UInt16.toNat_one]
      have := counter.toNat_lt
      change ¬ _ < 32768
      omega
    simp only [counterGap, ne_eq, apart, not_false_eq_true, decide_true, Bool.and_self, if_true, far, if_false]
  rw [behind] at total
  simp at total

theorem listenAppend (channels : UInt16) (c : Count) (before after : List Bytes) :
    listen channels c (before ++ after) = listen channels (listen channels c before) after := by
  rw [listen, List.filterMap_append, List.foldl_append]
  rfl

theorem listenPacket {channels : UInt16} (c : Count) {bytes : Bytes} (ours : WellFormed bytes channels.toNat) :
    listen channels c [bytes] = note c (viewOf bytes channels.toNat).counter := by
  simp only [listen, List.filterMap_cons, counterOfPacket ours, List.filterMap_nil, List.foldl_cons, List.foldl_nil]

theorem listenOther {channels : UInt16} (c : Count) {bytes : Bytes} (other : ¬ WellFormed bytes channels.toNat) :
    listen channels c [bytes] = c := by
  simp only [listen, List.filterMap_cons, counterOfOther other, List.filterMap_nil, List.foldl_nil]

theorem gapless {c : Count} {counters : List UInt16} (chain : counters.IsChain (fun a b => b = a + 1))
    (first : c.haveLastCounter = true → ∀ counter ∈ counters.head?, counter = c.lastCounter + 1) :
    (counters.foldl note c).lostPackets = c.lostPackets := by
  induction counters generalizing c with
  | nil => rfl
  | cons counter rest ih =>
    have none : counterGap c.haveLastCounter c.lastCounter counter = 0 := by
      cases known : c.haveLastCounter with
      | false => simp [counterGap]
      | true =>
        have next : counter = c.lastCounter + 1 := first known counter rfl
        simp [counterGap, next]
    obtain ⟨joined,chained⟩ := List.isChain_cons.mp chain
    rw [List.foldl_cons, ih chained (fun _ => joined)]
    simp only [note, none, UInt64.add_zero]

structure Leaves (channels : UInt16) (count : Count) (filled : Nat) (app : ReacPw) : Prop where
  channels : app.channels = channels
  count : countOf app = count
  filled : fill app.ring = filled

theorem captureLeaves {s next : Thread} (ready : Ready s.app) {bytes : Bytes}
    (round : captureFrame s bytes = some next) :
    (¬ WellFormed bytes s.app.channels.toNat ∧
      Leaves s.app.channels (countOf s.app) (fill s.app.ring) next.app) ∨
    (WellFormed bytes s.app.channels.toNat ∧ 96000 < fill s.app.ring + 12 ∧
      Leaves s.app.channels (countOf s.app) (fill s.app.ring) next.app) ∨
    (WellFormed bytes s.app.channels.toNat ∧ fill s.app.ring + 12 ≤ 96000 ∧
      Leaves s.app.channels (note (countOf s.app) (viewOf bytes s.app.channels.toNat).counter)
        (fill s.app.ring + 12) next.app) := by
  obtain ⟨next',result,cases_⟩ := captureFrameCases ready bytes
  obtain rfl := Option.some.inj (result.symm.trans round)
  rcases cases_ with ⟨other,same | same⟩ | ⟨ours,full,same⟩ | ⟨interleaved,ours,fits,_,same⟩ <;> rw [same]
  · exact .inl ⟨other,rfl,rfl,rfl⟩
  · exact .inl ⟨other,rfl,rfl,rfl⟩
  · exact .inr (.inl ⟨ours,full,rfl,rfl,rfl⟩)
  · refine .inr (.inr ⟨ours,fits,rfl,rfl,?_⟩)
    exact packetFill fits

theorem processLeaves {b next : Books} (ready : Ready b.thread.app) {buffer : PwBuffer}
    (taken : step b (.process buffer) = some next) :
    Leaves b.thread.app.channels (countOf b.thread.app)
      (fill b.thread.app.ring - min (fill b.thread.app.ring) (asked b.thread.app buffer).toNat) next.thread.app := by
  obtain ⟨readPos,underruns,out,read,left⟩ := processSpec ready buffer
  rw [step, read, Option.map_some] at taken
  cases Option.some.inj taken
  exact ⟨rfl,rfl,left⟩

theorem stepNotes {b next : Books} (balanced : Balanced b) {event : Event} (taken : step b event = some next) :
    countOf next.thread.app = listen b.thread.app.channels (countOf b.thread.app) (framesOf [event]) ↔
      ¬ Refused b.thread.app event := by
  -- A step notes what a listener notes, except where a packet is refused.
  cases event with
  | process buffer =>
    have leaves := processLeaves balanced.ready taken
    exact iff_of_true leaves.count id
  | capture c =>
    cases c with
    | nothing | error =>
      cases Option.some.inj taken
      exact iff_of_true rfl id
    | frame bytes =>
      obtain ⟨thread,round,rfl⟩ := Option.map_eq_some_iff.mp taken
      have one : framesOf [.capture (.frame bytes)] = [bytes] := rfl
      rw [one]
      rcases captureLeaves balanced.ready round with ⟨other,leaves⟩ | ⟨ours,full,leaves⟩ | ⟨ours,fits,leaves⟩
      · rw [listenOther _ other]
        exact iff_of_true leaves.count (fun refused => other refused.1)
      · rw [listenPacket _ ours]
        refine iff_of_false ?_ (not_not.mpr ⟨ours,full⟩)
        intro same
        exact noteMoves _ _ (same.symm.trans leaves.count)
      · rw [listenPacket _ ours]
        exact iff_of_true leaves.count (fun refused => absurd refused.2 (by omega))

theorem stepFill {b next : Books} (balanced : Balanced b) {event : Event} (taken : step b event = some next) :
    next.thread.app.channels = b.thread.app.channels ∧
      fill next.thread.app.ring ≤ fill b.thread.app.ring + 12 * (framesOf [event]).length := by
  cases event with
  | process buffer =>
    have leaves := processLeaves balanced.ready taken
    rw [leaves.filled]
    exact ⟨leaves.channels,Nat.le_add_right_of_le (Nat.sub_le _ _)⟩
  | capture c =>
    cases c with
    | nothing | error =>
      cases Option.some.inj taken
      exact ⟨rfl,Nat.le_refl _⟩
    | frame bytes =>
      obtain ⟨thread,round,rfl⟩ := Option.map_eq_some_iff.mp taken
      change thread.app.channels = _ ∧ fill thread.app.ring ≤ _ + 12
      rcases captureLeaves balanced.ready round with ⟨_,leaves⟩ | ⟨_,_,leaves⟩ | ⟨_,_,leaves⟩ <;>
        rw [leaves.filled]
      · exact ⟨leaves.channels,Nat.le_add_right ..⟩
      · exact ⟨leaves.channels,Nat.le_add_right ..⟩
      · exact ⟨leaves.channels,Nat.le_refl _⟩

theorem framesCons (event : Event) (rest : List Event) :
    framesOf (event :: rest) = framesOf [event] ++ framesOf rest := List.filterMap_append (l := [event])

theorem framesAppend (before after : List Event) :
    framesOf (before ++ after) = framesOf before ++ framesOf after := List.filterMap_append

theorem stepKeeps {b next : Books} (balanced : Balanced b) {event : Event} (taken : step b event = some next) :
    Balanced next := by
  obtain ⟨next',result,after⟩ := stepBalanced balanced event
  obtain rfl := Option.some.inj (result.symm.trans taken)
  exact after

theorem noneRefusedRest {b next : Books} {event : Event} {rest : List Event}
    (roomy : NoneRefused b (event :: rest)) (taken : step b event = some next) : NoneRefused next rest := by
  rintro before other after reached rfl later
  exact roomy (event :: before) other after reached rfl (by rw [run, taken]; exact later)

theorem runNotes {b final : Books} {events : List Event} (balanced : Balanced b) (roomy : NoneRefused b events)
    (reached : run step b events = some final) :
    countOf final.thread.app = listen b.thread.app.channels (countOf b.thread.app) (framesOf events) := by
  induction events generalizing b with
  | nil =>
    cases Option.some.inj reached
    rfl
  | cons event rest ih =>
    obtain ⟨next,taken,later⟩ := runCons reached
    have noted := (stepNotes balanced taken).mpr (roomy [] event rest b rfl rfl)
    rw [ih (stepKeeps balanced taken) (noneRefusedRest roomy taken) later, (stepFill balanced taken).1, noted,
      ← listenAppend, ← framesCons]

theorem runFill {b final : Books} {events : List Event} (balanced : Balanced b)
    (reached : run step b events = some final) :
    final.thread.app.channels = b.thread.app.channels ∧
      fill final.thread.app.ring ≤ fill b.thread.app.ring + 12 * (framesOf events).length := by
  induction events generalizing b with
  | nil =>
    cases Option.some.inj reached
    exact ⟨rfl,Nat.le_add_right ..⟩
  | cons event rest ih =>
    obtain ⟨next,taken,later⟩ := runCons reached
    obtain ⟨channels,now⟩ := stepFill balanced taken
    obtain ⟨kept,then_⟩ := ih (stepKeeps balanced taken) later
    rw [framesCons, List.length_append]
    exact ⟨kept.trans channels,by omega⟩

theorem runTotal {b : Books} (balanced : Balanced b) (events : List Event) :
    ∃ final, run step b events = some final := by
  induction events generalizing b with
  | nil => exact ⟨b,rfl⟩
  | cons event rest ih =>
    obtain ⟨next,taken,after⟩ := stepBalanced balanced event
    obtain ⟨final,reached⟩ := ih after
    exact ⟨final,by rw [run, taken]; exact reached⟩

theorem fewRoomy {b : Books} (balanced : Balanced b) {events : List Event}
    (few : fill b.thread.app.ring + 12 * (framesOf events).length ≤ 96000) : NoneRefused b events := by
  rintro before event after reached rfl arrived refused
  have held := (runFill balanced arrived).2
  rw [framesAppend, framesCons, List.length_append, List.length_append] at few
  match event, refused with
  | .capture (.frame bytes), ⟨_,full⟩ =>
    have one : (framesOf [.capture (.frame bytes)]).length = 1 := rfl
    omega

def starting (channels : UInt16) (storage : Nat → Nat → Rat) (interleaved : Nat → Rat) : Books :=
  opening ⟨appOf channels,storage,interleaved⟩

/-- A step departs from the listener's count exactly when a packet is refused; runs in
which none is are of one count, whatever the callback does, and lose nothing of a stream
without gaps. -/
theorem measuresNetwork (channels : UInt16) (storage : Nat → Nat → Rat) (interleaved : Nat → Rat)
    (events : List Event) (final : Books)
    (reached : run step (starting channels storage interleaved) events = some final) :
    (∀ event next, step final event = some next →
      (countOf next.thread.app = listen channels (countOf final.thread.app) (framesOf [event]) ↔
        ¬ Refused final.thread.app event)) ∧
    (NoneRefused (starting channels storage interleaved) events →
      (∀ storage' interleaved' events' final', framesOf events' = framesOf events →
        run step (starting channels storage' interleaved') events' = some final' →
        NoneRefused (starting channels storage' interleaved') events' →
          final'.thread.app.lostPackets = final.thread.app.lostPackets) ∧
      (((framesOf events).filterMap (counterOf channels)).IsChain (fun a b => b = a + 1) →
        final.thread.app.lostPackets = 0)) := by
  have balanced := openingBalanced channels storage interleaved
  constructor
  · intro event next taken
    have kept : final.thread.app.channels = channels := (runFill balanced reached).1
    rw [← kept]
    exact stepNotes (runBalanced balanced reached) taken
  · intro roomy
    have noted := runNotes balanced roomy reached
    have total : final.thread.app.lostPackets = (countOf final.thread.app).lostPackets := rfl
    rw [total, noted]
    constructor
    · intro storage' interleaved' events' final' same reached' roomy'
      have noted' := runNotes (openingBalanced channels storage' interleaved') roomy' reached'
      have total' : final'.thread.app.lostPackets = (countOf final'.thread.app).lostPackets := rfl
      rw [total', noted', same]
      rfl
    · intro chain
      refine gapless chain ?_
      intro known
      cases known

def hears (n : Nat) : Event := .capture (.frame (numberedPacket n))

def callback : Event := .process ⟨fun _ => 0,192,0⟩

theorem measuresNetworkPacket :
    ∃ final final', run step (starting 2 (fun _ _ => 0) (fun _ => 0)) [hears 7,callback,hears 9] = some final ∧
      run step (starting 2 (fun _ _ => 0) (fun _ => 0)) [hears 7,hears 9] = some final' ∧
      final'.thread.app.lostPackets = final.thread.app.lostPackets := by
  have balanced := openingBalanced 2 (fun _ _ => 0) (fun _ => 0)
  obtain ⟨final,reached⟩ := runTotal balanced [hears 7,callback,hears 9]
  obtain ⟨final',reached'⟩ := runTotal balanced [hears 7,hears 9]
  obtain ⟨_,holds⟩ := measuresNetwork 2 _ _ _ final reached
  have roomy : ∀ events, (framesOf events).length = 2 →
      NoneRefused (starting 2 (fun _ _ => 0) (fun _ => 0)) events := by
    intro events two
    refine fewRoomy balanced ?_
    have empty : fill (starting 2 (fun _ _ => 0) (fun _ => 0)).thread.app.ring = 0 := rfl
    rw [starting] at empty
    rw [two, empty]
    decide
  have same : framesOf [hears 7,hears 9] = framesOf [hears 7,callback,hears 9] := rfl
  exact ⟨final,final',reached,reached',(holds (roomy _ rfl)).1 _ _ _ _ same reached' (roomy _ rfl)⟩

theorem hearsRound {b : Books} (balanced : Balanced b) (n : Nat) :
    ∃ next, step b (hears n) = some next ∧ Balanced next ∧
      captureFrame b.thread (numberedPacket n) = some next.thread := by
  obtain ⟨next,taken,after⟩ := stepBalanced balanced (hears n)
  refine ⟨next,taken,after,?_⟩
  obtain ⟨thread,round,rfl⟩ := Option.map_eq_some_iff.mp taken
  exact round

theorem hearsTaken {b : Books} (balanced : Balanced b) {count : Count} {filled : Nat}
    (leaves : Leaves 2 count filled b.thread.app) (n : Nat) (fits : filled + 12 ≤ 96000) :
    ∃ next, step b (hears n) = some next ∧ Balanced next ∧
      Leaves 2 (note count (UInt16.ofNat n)) (filled + 12) next.thread.app := by
  obtain ⟨channels,rfl,rfl⟩ := leaves
  obtain ⟨next,taken,after,round⟩ := hearsRound balanced n
  refine ⟨next,taken,after,?_⟩
  have ours := numberedWellFormed n
  rcases captureLeaves balanced.ready round with ⟨other,_⟩ | ⟨_,full,_⟩ | ⟨_,_,leaves⟩
  · rw [channels] at other
    exact absurd ours other
  · omega
  · rw [channels, numberedCounter] at leaves
    exact leaves

theorem hearsRefused {b : Books} (balanced : Balanced b) {count : Count} {filled : Nat}
    (leaves : Leaves 2 count filled b.thread.app) (n : Nat) (full : 96000 < filled + 12) :
    ∃ next, step b (hears n) = some next ∧ Balanced next ∧ Leaves 2 count filled next.thread.app := by
  obtain ⟨channels,rfl,rfl⟩ := leaves
  obtain ⟨next,taken,after,round⟩ := hearsRound balanced n
  refine ⟨next,taken,after,?_⟩
  rw [← channels]
  rcases captureLeaves balanced.ready round with ⟨_,leaves⟩ | ⟨_,_,leaves⟩ | ⟨_,fits,_⟩
  · exact leaves
  · exact leaves
  · omega

theorem callbackTakes {b : Books} (balanced : Balanced b) {count : Count} {filled : Nat}
    (leaves : Leaves 2 count filled b.thread.app) :
    ∃ next, step b callback = some next ∧ Balanced next ∧
      Leaves 2 count (filled - min filled 24) next.thread.app := by
  obtain ⟨channels,rfl,rfl⟩ := leaves
  obtain ⟨next,taken,after⟩ := stepBalanced balanced callback
  have leaves := processLeaves balanced.ready taken
  have frames : (asked b.thread.app ⟨fun _ => 0,192,0⟩).toNat = 24 := by
    simp only [asked, channels]
    decide
  rw [channels, frames] at leaves
  exact ⟨next,taken,after,leaves⟩

theorem noteNext (n : Nat) :
    note ⟨true,UInt16.ofNat n,0⟩ (UInt16.ofNat (n + 1)) = ⟨true,UInt16.ofNat (n + 1),0⟩ := by
  have next : UInt16.ofNat (n + 1) = UInt16.ofNat n + 1 := UInt16.ofNat_add n 1
  simp [note, counterGap, next]

def packets (n : Nat) : List Event := (List.range n).map hears

theorem packetsMore (n : Nat) : packets (n + 1) = packets n ++ [hears n] := by
  rw [packets, List.range_succ, List.map_append]
  rfl

theorem packetsRun {n : Nat} (few : n < 8000) :
    ∃ b, run step (starting 2 (fun _ _ => 0) (fun _ => 0)) (packets (n + 1)) = some b ∧ Balanced b ∧
      Leaves 2 ⟨true,UInt16.ofNat n,0⟩ (12 * (n + 1)) b.thread.app := by
  induction n with
  | zero =>
    have balanced := openingBalanced 2 (fun _ _ => 0) (fun _ => 0)
    have fresh : Leaves 2 ⟨false,0,0⟩ 0 (starting 2 (fun _ _ => 0) (fun _ => 0)).thread.app := ⟨rfl,rfl,rfl⟩
    obtain ⟨b,taken,after,leaves⟩ := hearsTaken balanced fresh 0 (by decide)
    exact ⟨b,by rw [packets, List.range_one, List.map_singleton, run, starting, taken]; rfl,after,leaves⟩
  | succ n ih =>
    obtain ⟨b,reached,balanced,leaves⟩ := ih (by omega)
    obtain ⟨next,taken,after,leaves'⟩ := hearsTaken balanced leaves (n + 1) (by omega)
    rw [noteNext] at leaves'
    refine ⟨next,?_,after,leaves'⟩
    rw [packetsMore]
    exact runAppend reached (by rw [run, taken]; rfl)

theorem packetsGapless (n : Nat) :
    ((framesOf (packets n)).filterMap (counterOf 2)).IsChain (fun a b => b = a + 1) := by
  have counters : (framesOf (packets n)).filterMap (counterOf 2) = (List.range n).map UInt16.ofNat := by
    induction n with
    | zero => rfl
    | succ n ih =>
      have last : counterOf 2 (numberedPacket n) = some (UInt16.ofNat n) := by
        rw [counterOfPacket (numberedWellFormed n), numberedCounter]
      rw [packetsMore, List.range_succ, framesAppend, List.filterMap_append, List.map_append, ← ih]
      change _ ++ [numberedPacket n].filterMap (counterOf 2) = _
      rw [List.filterMap_cons_some last]
      rfl
  rw [counters, List.isChain_map, List.isChain_range]
  intro m _
  exact UInt16.ofNat_add m 1

theorem lateGapless (n : Nat) :
    ((framesOf (packets n ++ [hears n,callback,hears (n + 1)])).filterMap (counterOf 2)).IsChain
      (fun a b => b = a + 1) := by
  have same : framesOf (packets n ++ [hears n,callback,hears (n + 1)]) = framesOf (packets (n + 1 + 1)) := by
    rw [packetsMore, packetsMore, framesAppend, framesAppend, framesAppend, List.append_assoc]
    rfl
  rw [same]
  exact packetsGapless _

/-- The same packets without a gap, the callback before packet 8000 or behind it. -/
theorem callbackCounts :
    ∃ early late final final', framesOf early = framesOf late ∧
      ((framesOf late).filterMap (counterOf 2)).IsChain (fun a b => b = a + 1) ∧
      run step (starting 2 (fun _ _ => 0) (fun _ => 0)) early = some final ∧
      run step (starting 2 (fun _ _ => 0) (fun _ => 0)) late = some final' ∧
      final.thread.app.lostPackets = 0 ∧ final'.thread.app.lostPackets = 1 := by
  obtain ⟨b,reached,balanced,leaves⟩ := packetsRun (n := 7999) (by omega)
  -- the callback first
  obtain ⟨b₁,taken₁,balanced₁,leaves₁⟩ := callbackTakes balanced leaves
  obtain ⟨b₂,taken₂,balanced₂,leaves₂⟩ := hearsTaken balanced₁ leaves₁ 8000 (by decide)
  obtain ⟨b₃,taken₃,_,leaves₃⟩ := hearsTaken balanced₂ leaves₂ 8001 (by decide)
  -- the packet first
  obtain ⟨c₁,took₁,kept₁,left₁⟩ := hearsRefused balanced leaves 8000 (by decide)
  obtain ⟨c₂,took₂,kept₂,left₂⟩ := callbackTakes kept₁ left₁
  obtain ⟨c₃,took₃,_,left₃⟩ := hearsTaken kept₂ left₂ 8001 (by decide)
  refine ⟨packets 8000 ++ [callback,hears 8000,hears 8001],packets 8000 ++ [hears 8000,callback,hears 8001],b₃,c₃,
    ?_,?_,?_,?_,?_,?_⟩
  · rw [framesAppend, framesAppend]
    rfl
  · exact lateGapless 8000
  · exact runAppend reached (by rw [run, taken₁, Option.bind_some, run, taken₂, Option.bind_some, run, taken₃]; rfl)
  · exact runAppend reached (by rw [run, took₁, Option.bind_some, run, took₂, Option.bind_some, run, took₃]; rfl)
  · exact (congrArg Count.lostPackets leaves₃.count).trans (by decide)
  · exact (congrArg Count.lostPackets left₃.count).trans (by decide)

end ReacJack.PipeWireLoss
