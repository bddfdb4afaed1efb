import ReacJack.ToneClock
import ReacJack.DaemonLedger
import ReacJack.DeliveredAudio

/-! The tone that readers hear. The oscillator goes on through packets that the ring
refuses, so the stream is the tone with whole packets missing. -/
namespace ReacJack.ToneStream
open BufferLoops BoundedFifo TransitionRuns SharedAudio SharedFifo SharedLedger ReaderSide Daemon Tone
open ToneClock (counting booted countsOn)
open ReacDecode (reacFramesPerPacket)

variable {φ : Type}

structure Session (φ : Type) where
  generator : Generator φ
  due : UInt64
  ledger : Ledger Rat

inductive Event where
  | round (now : Timespec)
  | packet (hostTime : UInt64)
  | reader (call : Call Rat)

def sendOne (osc : Oscillator φ) (s : Session φ) (hostTime : UInt64) (ring : SharedRing Rat) : Session φ :=
  let generator := sendPacket osc (fun _ => hostTime) s.generator
  {s with generator, ledger := (perform (ring,s.ledger) (.write generator.channelStorage 12)).2}

def step (osc : Oscillator φ) (s : Session φ) : Event → Option (Session φ)
  | .round now =>
    if s.generator.sentFrames + 12 ≤ s.due then none
    else some {s with due := dueFrames s.generator.start now}
  | .packet hostTime =>
    if s.generator.sentFrames + 12 ≤ s.due then s.generator.daemon.ring.map (sendOne osc s hostTime) else none
  | .reader call =>
    if readerCall call then
      s.generator.daemon.ring.map (fun ring =>
        let (ring,ledger) := perform (ring,s.ledger) call
        {s with
          generator := {s.generator with daemon := {s.generator.daemon with ring := some ring}}
          ledger})
    else none

def toneFrame (osc : Oscillator φ) (channels : UInt16) (channelStorage : Nat → Nat → Rat) (n : Nat) : Frame Rat :=
  fun ch => if ch < channels.toNat then osc.sample (osc.advance^[n] osc.start) else channelStorage ch (n % 12)

def tonePacket (osc : Oscillator φ) (channels : UInt16) (channelStorage : Nat → Nat → Rat) (k : Nat) :
    List (Frame Rat) :=
  (List.range 12).map (fun f => toneFrame osc channels channelStorage (12 * k + f))

theorem packetFilled (osc : Oscillator φ) (channels : UInt16) (channelStorage : Nat → Nat → Rat) (phase : φ) :
    (fillPacket osc channels channelStorage phase).2 = osc.advance^[12] phase ∧
    ∀ ch f, (fillPacket osc channels channelStorage phase).1 ch f =
      if ch < channels.toNat ∧ f < 12 then osc.sample (osc.advance^[f] phase) else channelStorage ch f := by
  refine loopInvariant (P := fun n (t : (Nat → Nat → Rat) × φ) => t.2 = osc.advance^[n] phase ∧
    ∀ ch f, t.1 ch f = if ch < channels.toNat ∧ f < n then osc.sample (osc.advance^[f] phase)
      else channelStorage ch f) ⟨rfl,fun _ _ => by simp⟩ ?_
  rintro i ⟨storage,here⟩ _ ⟨rfl,filled⟩
  refine ⟨(Function.iterate_succ_apply' osc.advance i phase).symm,?_⟩
  intro ch f
  dsimp only at filled ⊢
  rw [loopEach channels.toNat (fun _ column => put column i (osc.sample (osc.advance^[i] phase)))]
  by_cases column : ch < channels.toNat
  · simp only [column, if_true, true_and] at filled ⊢
    by_cases last : f = i
    · rw [last, putHere, if_pos (Nat.lt_succ_self i)]
    · have iff : f < i + 1 ↔ f < i := by omega
      rw [putElsewhere _ _ last, filled]
      simp only [column, true_and, iff]
  · simp only [column, if_false, false_and, filled]

theorem packetTone (osc : Oscillator φ) (channels : UInt16) {storage initial : Nat → Nat → Rat} (k : Nat)
    (outside : ∀ ch, channels.toNat ≤ ch → storage ch = initial ch) :
    block (fillPacket osc channels storage (osc.advance^[12 * k] osc.start)).1 12 =
      tonePacket osc channels initial k := by
  obtain ⟨_,filled⟩ := packetFilled osc channels storage (osc.advance^[12 * k] osc.start)
  apply List.map_congr_left
  intro f inside
  rw [List.mem_range] at inside
  funext ch
  have place : (12 * k + f) % 12 = f := by omega
  rw [filled, toneFrame, place, Nat.add_comm (12 * k) f, Function.iterate_add_apply]
  by_cases column : ch < channels.toNat
  · rw [if_pos ⟨column,inside⟩, if_pos column]
  · rw [if_neg (fun both => column both.1), if_neg column, outside ch (Nat.le_of_not_lt column)]

theorem tonePackets (osc : Oscillator φ) (channels : UInt16) (initial : Nat → Nat → Rat) (ks : List Nat) :
    (ks.flatMap (tonePacket osc channels initial)).length = 12 * ks.length := by
  induction ks with
  | nil => rfl
  | cons k rest ih =>
    rw [List.flatMap_cons, List.length_append, ih, tonePacket, List.length_map, List.length_range, List.length_cons]
    omega

theorem storeBalanced {capacity : Nat} {ring : SharedRing Rat} {ledger : Ledger Rat} {q : Queue (Frame Rat) capacity}
    (balanced : Balanced (ring,ledger) q) (storage : Nat → Nat → Rat) (hostTime : UInt64)
    (small : ledger.accepted.length + 12 < 2 ^ 64) :
    Balanced (storePacket ring storage hostTime,(perform (ring,ledger) (.write storage 12)).2)
      (serve q (.write storage 12)) := by
  have short : (perform (ring,ledger) (.write storage 12)).2.accepted.length < 2 ^ 64 := by
    simp only [perform]
    split
    · rw [List.length_append, blockLength]
      exact small
    · exact Nat.lt_of_le_of_lt (Nat.le_add_right _ 12) small
  obtain ⟨_,accepted,read,fits⟩ := performWrite balanced storage 12 short
  have dropped : (storePacket ring storage hostTime).header.droppedFrames =
      (perform (ring,ledger) (.write storage 12)).1.header.droppedFrames := by
    simp only [storePacket, perform, sharedAudioWrite]
    split <;> rfl
  have stream : q.stream.length + 12 < 2 ^ 64 := by
    rw [balanced.accepted]
    exact small
  exact ⟨DeliveredAudio.storeRefines balanced.refines storage hostTime stream,accepted,dropped ▸ read,fits⟩

theorem dueSmall (start now : Timespec) : (dueFrames start now).toNat ≤ 2 ^ 35 := by
  have := (elapsedNs start now * 48000).toNat_lt
  rw [dueFrames, UInt64.toNat_div]
  simp only [UInt64.reduceToNat]
  omega

structure Playing (osc : Oscillator φ) (channels : UInt16) (initial : Nat → Nat → Rat) (s : Session φ)
    (ring : SharedRing Rat) (ks : List Nat) (q : Queue (Frame Rat) 48000) : Prop where
  there : s.generator.daemon.ring = some ring
  count : s.generator.daemon.channels = channels
  ready : Ready ring channels
  due : s.due.toNat ≤ 2 ^ 35
  sent : s.generator.sentFrames.toNat = 12 * s.generator.daemon.receivedPackets.toNat
  small : s.generator.sentFrames.toNat ≤ 2 ^ 35
  phase : s.generator.phase = osc.advance^[12 * s.generator.daemon.receivedPackets.toNat] osc.start
  outside : ∀ ch, channels.toNat ≤ ch → s.generator.channelStorage ch = initial ch
  increasing : ks.Pairwise (· < ·)
  below : ∀ k ∈ ks, k < s.generator.daemon.receivedPackets.toNat
  balanced : Balanced (ring,s.ledger) q
  accepted : s.ledger.accepted = ks.flatMap (tonePacket osc channels initial)
  refused : ring.header.droppedPackets.toNat + ks.length = s.generator.daemon.receivedPackets.toNat
  overruns : ring.header.overruns = ring.header.droppedPackets
  clockPos : ring.header.clockSamplePos = ring.header.writePos
  clockSeq : ring.header.clockSeq.toNat = 2 * ks.length

def Plays (osc : Oscillator φ) (channels : UInt16) (initial : Nat → Nat → Rat) (s : Session φ) : Prop :=
  ∃ ring ks q, Playing osc channels initial s ring ks q

theorem readerPlays {osc : Oscillator φ} {channels : UInt16} {initial : Nat → Nat → Rat} {s : Session φ}
    {ring : SharedRing Rat} {ks : List Nat} {q : Queue (Frame Rat) 48000}
    (playing : Playing osc channels initial s ring ks q) {call : Call Rat} (reads : readerCall call = true) :
    Plays osc channels initial {s with
      generator := {s.generator with
        daemon := {s.generator.daemon with ring := some (perform (ring,s.ledger) call).1}}
      ledger := (perform (ring,s.ledger) call).2} := by
  obtain ⟨there,count,ready,due,sent,low,phase,outside,increasing,below,balanced,accepted,refused,overruns,clockPos,
    clockSeq⟩ :=
    playing
  have moved : Moved ring (perform (ring,s.ledger) call).1 := movedCall (s := (ring,s.ledger)) ready.sound reads
  have same : (perform (ring,s.ledger) call).2.accepted = s.ledger.accepted := by
    cases call with
    | write => contradiction
    | read | readInterleaved | readInterleavedRegulated | seekToFill => rfl
  have small : SharedLedger.Small (perform (ring,s.ledger) call) := by
    rw [SharedLedger.Small, same, accepted, tonePackets]
    omega
  refine ⟨_,ks,_,rfl,count,⟨movedSound moved ready.sound,moved.capacityFrames.trans ready.capacity,
    moved.channels.trans ready.channelsEq⟩,due,sent,low,phase,outside,increasing,below,
    performBalanced _ q call balanced small,same.trans accepted,?_,?_,?_,?_⟩
  · rw [moved.droppedPackets]
    exact refused
  · rw [moved.overruns, moved.droppedPackets, overruns]
  · rw [moved.clockSamplePos, moved.writePos, clockPos]
  · rw [moved.clockSeq]
    exact clockSeq

structure Advanced (osc : Oscillator φ) (channels : UInt16) (initial : Nat → Nat → Rat) (before after : Generator φ) :
    Prop where
  count : after.daemon.channels = channels
  received : after.daemon.receivedPackets.toNat = before.daemon.receivedPackets.toNat + 1
  sent : after.sentFrames.toNat = 12 * after.daemon.receivedPackets.toNat
  small : after.sentFrames.toNat ≤ 2 ^ 35
  phase : after.phase = osc.advance^[12 * after.daemon.receivedPackets.toNat] osc.start
  outside : ∀ ch, channels.toNat ≤ ch → after.channelStorage ch = initial ch
  tone : block after.channelStorage 12 = tonePacket osc channels initial before.daemon.receivedPackets.toNat

section
variable {osc : Oscillator φ} {channels : UInt16} {initial : Nat → Nat → Rat} {s : Session φ}
  {ring : SharedRing Rat} {ks : List Nat} {q : Queue (Frame Rat) 48000}

theorem sendAdvances (playing : Playing osc channels initial s ring ks q) (hostTime : UInt64)
    (more : s.generator.sentFrames + 12 ≤ s.due) :
    Advanced osc channels initial s.generator (sendPacket osc (fun _ => hostTime) s.generator) := by
  have due := playing.due
  have sent := playing.sent
  have low := playing.small
  have next : (s.generator.sentFrames + 12).toNat = s.generator.sentFrames.toNat + 12 :=
    countsOn (n := 12) (by omega)
  have received : (s.generator.daemon.receivedPackets + 1).toNat = s.generator.daemon.receivedPackets.toNat + 1 :=
    countsOn (n := 1) (by omega)
  rw [UInt64.le_iff_toNat_le, next] at more
  obtain ⟨advanced,filled⟩ := packetFilled osc channels s.generator.channelStorage s.generator.phase
  have tone := packetTone osc channels s.generator.daemon.receivedPackets.toNat playing.outside
  rw [← playing.phase] at tone
  have count := playing.count
  refine ⟨count,received,?_,?_,?_,?_,?_⟩ <;> simp only [sendPacket, count]
  · omega
  · omega
  · rw [advanced, playing.phase, ← Function.iterate_add_apply]
    exact congrArg (fun n => osc.advance^[n] osc.start) (by omega)
  · intro ch beyond
    funext f
    rw [filled, if_neg (fun both => absurd both.1 (Nat.not_lt.mpr beyond)), playing.outside ch beyond]
  · exact tone

theorem refusedPlays (playing : Playing osc channels initial s ring ks q) {generator : Generator φ} {hostTime : UInt64}
    (advanced : Advanced osc channels initial s.generator generator)
    (there : generator.daemon.ring = some (storePacket ring generator.channelStorage hostTime))
    (full : ring.header.capacityFrames.toNat - fill ring.header < 12) :
    Plays osc channels initial
      {s with generator, ledger := (perform (ring,s.ledger) (.write generator.channelStorage 12)).2} := by
  have received := advanced.received
  have sent := advanced.sent
  have small := advanced.small
  have refused := playing.refused
  have stored := storeRefused playing.ready.sound generator.channelStorage hostTime full
  have code := writeRefused playing.ready.sound generator.channelStorage
    (show ring.header.capacityFrames.toNat - fill ring.header < (12 : UInt32).toNat from full)
  have same : (perform (ring,s.ledger) (.write generator.channelStorage 12)).2 = s.ledger := by
    simp only [perform, code]
    rfl
  have long : s.ledger.accepted.length + 12 < 2 ^ 64 := by
    rw [playing.accepted, tonePackets]
    omega
  have once : (ring.header.droppedPackets + 1).toNat = ring.header.droppedPackets.toNat + 1 :=
    countsOn (n := 1) (by omega)
  refine ⟨_,ks,_,there,advanced.count,readyStored playing.ready _ _,playing.due,sent,small,advanced.phase,
    advanced.outside,playing.increasing,?_,storeBalanced playing.balanced _ hostTime long,?_,?_,?_,?_,?_⟩
  · intro k member
    have := playing.below k member
    simp only
    omega
  · rw [same]
    exact playing.accepted
  · rw [stored]
    simp only [once]
    omega
  · rw [stored]
    simp only [playing.overruns]
  · rw [stored]
    exact playing.clockPos
  · rw [stored]
    exact playing.clockSeq

theorem storedPlays (playing : Playing osc channels initial s ring ks q) {generator : Generator φ} {hostTime : UInt64}
    (advanced : Advanced osc channels initial s.generator generator)
    (there : generator.daemon.ring = some (storePacket ring generator.channelStorage hostTime))
    (fits : 12 ≤ ring.header.capacityFrames.toNat - fill ring.header) :
    Plays osc channels initial
      {s with generator, ledger := (perform (ring,s.ledger) (.write generator.channelStorage 12)).2} := by
  have received := advanced.received
  have sent := advanced.sent
  have small := advanced.small
  have refused := playing.refused
  have clockSeq := playing.clockSeq
  have stored := storeAccepted playing.ready.sound generator.channelStorage hostTime fits
  have code := writeAccepted playing.ready.sound generator.channelStorage
    (show (12 : UInt32).toNat ≤ ring.header.capacityFrames.toNat - fill ring.header from fits)
  have more : (perform (ring,s.ledger) (.write generator.channelStorage 12)).2.accepted =
      s.ledger.accepted ++ block generator.channelStorage 12 := by
    simp only [perform, code, if_true]
    rfl
  have long : s.ledger.accepted.length + 12 < 2 ^ 64 := by
    rw [playing.accepted, tonePackets]
    omega
  have twice : (ring.header.clockSeq + 2).toNat = ring.header.clockSeq.toNat + 2 :=
    countsOn (n := 2) (by omega)
  refine ⟨_,ks ++ [s.generator.daemon.receivedPackets.toNat],_,there,advanced.count,readyStored playing.ready _ _,
    playing.due,sent,small,advanced.phase,advanced.outside,?_,?_,storeBalanced playing.balanced _ hostTime long,
    ?_,?_,?_,?_,?_⟩
  · refine List.pairwise_append.mpr ⟨playing.increasing,List.pairwise_singleton _ _,?_⟩
    intro k member last here
    obtain rfl := List.mem_singleton.mp here
    exact playing.below k member
  · intro k member
    simp only
    rcases List.mem_append.mp member with old | new
    · have := playing.below k old
      omega
    · rw [List.mem_singleton.mp new]
      omega
  · rw [more, playing.accepted, advanced.tone, List.flatMap_append, List.flatMap_singleton]
  · rw [stored, List.length_append, List.length_singleton]
    simp only
    omega
  · rw [stored]
    exact playing.overruns
  · rw [stored]
  · rw [stored, List.length_append, List.length_singleton]
    simp only [twice]
    omega

theorem packetPlays (playing : Playing osc channels initial s ring ks q) (hostTime : UInt64)
    (more : s.generator.sentFrames + 12 ≤ s.due) : Plays osc channels initial (sendOne osc s hostTime ring) := by
  have advanced := sendAdvances playing hostTime more
  have there : (sendPacket osc (fun _ => hostTime) s.generator).daemon.ring =
      some (storePacket ring (sendPacket osc (fun _ => hostTime) s.generator).channelStorage hostTime) := by
    simp only [sendPacket, playing.there, Option.map_some]
  rcases Nat.lt_or_ge (ring.header.capacityFrames.toNat - fill ring.header) 12 with full | fits
  · exact refusedPlays playing advanced there full
  · exact storedPlays playing advanced there fits

end

theorem stepPlays (osc : Oscillator φ) (channels : UInt16) (initial : Nat → Nat → Rat) (s : Session φ) (event : Event)
    (next : Session φ) (plays : Plays osc channels initial s) (taken : step osc s event = some next) :
    Plays osc channels initial next := by
  obtain ⟨ring,ks,q,playing⟩ := plays
  cases event with
  | round now =>
    simp only [step] at taken
    split at taken
    · contradiction
    · obtain rfl := Option.some.inj taken
      exact ⟨ring,ks,q,{playing with due := dueSmall _ now}⟩
  | packet hostTime =>
    simp only [step, playing.there, Option.map_some] at taken
    split at taken
    · rename_i more
      obtain rfl := Option.some.inj taken
      exact packetPlays playing hostTime more
    · contradiction
  | reader call =>
    simp only [step, playing.there, Option.map_some] at taken
    split at taken
    · rename_i reads
      obtain rfl := Option.some.inj taken
      exact readerPlays playing reads
    · contradiction

def opened (generator : Generator φ) : Session φ := ⟨generator,0,blank⟩

theorem openedPlays {osc : Oscillator φ} {channels : UInt16} {initial : Nat → Nat → Rat} {created : Bool}
    {start : Timespec} {tone : Generator φ}
    (begun : runTone osc (daemonOf channels) initial created start = some tone) :
    Plays osc channels initial (opened tone) := by
  obtain ⟨ready,ensured,rfl⟩ := Option.map_eq_some_iff.mp begun
  cases created with
  | false => contradiction
  | true =>
    obtain rfl := Option.some.inj ensured
    exact ⟨sharedAudioCreate 48000 channels 48000,[],empty,rfl,rfl,readyCreated channels,Nat.zero_le _,rfl,
      Nat.zero_le _,rfl,fun _ _ => rfl,.nil,fun _ member => absurd member List.not_mem_nil,
      openingBalanced 48000 channels (by decide),rfl,rfl,rfl,rfl,
      rfl⟩

theorem roundRuns (osc : Oscillator φ) (round : Round) {g t : Generator φ} (ring : g.daemon.ring.isSome)
    {due : UInt64} (idle : ¬ g.sentFrames + 12 ≤ due) (ledger : Ledger Rat) (done : toneRound osc g round = some t) :
    ∃ (hostTimes : List UInt64) (ledger' : Ledger Rat),
      run (step osc) ⟨g,due,ledger⟩ (.round round.now :: hostTimes.map .packet) =
        some ⟨t,dueFrames g.start round.now,ledger'⟩ := by
  suffices packets : ∀ fuel (g : Generator φ) ledger, g.daemon.ring.isSome → ∀ due,
      whileLoop (fun s => decide (s.sentFrames + 12 ≤ due)) (sendPacket osc round.hostTime) fuel g = some t →
      ∃ (hostTimes : List UInt64) (ledger' : Ledger Rat),
        run (step osc) ⟨g,due,ledger⟩ (hostTimes.map .packet) = some ⟨t,due,ledger'⟩ by
    obtain ⟨hostTimes,ledger',reached⟩ := packets _ g ledger ring _ done
    exact ⟨hostTimes,ledger',by simp only [run, step, if_neg idle, Option.bind_some, reached]⟩
  intro fuel
  induction fuel with
  | zero =>
    intro g ledger _ due ended
    simp only [whileLoop] at ended
    split at ended
    · contradiction
    · obtain rfl := Option.some.inj ended
      exact ⟨[],ledger,rfl⟩
  | succ fuel ih =>
    intro g ledger ring due ended
    simp only [whileLoop] at ended
    split at ended
    · rename_i more
      obtain ⟨r,there⟩ := Option.isSome_iff_exists.mp ring
      have kept : (sendPacket osc round.hostTime g).daemon.ring.isSome := by
        simp only [sendPacket, Option.isSome_map, ring]
      obtain ⟨hostTimes,ledger',reached⟩ := ih _
        (sendOne osc ⟨g,due,ledger⟩ (round.hostTime g.sentFrames) r).ledger kept due ended
      refine ⟨round.hostTime g.sentFrames :: hostTimes,ledger',?_⟩
      simp only [List.map_cons, run, step, there, if_pos (of_decide_eq_true more), Option.map_some, Option.bind_some]
      exact reached
    · obtain rfl := Option.some.inj ended
      exact ⟨[],ledger,rfl⟩

/-- However the rounds, the packets and the readers' calls fall, the ring has taken whole
packets of the running tone, in order, and every packet that was sent is among them or
counted as dropped. Readers get these frames, the same sample on every channel. -/
theorem readersHearTone (osc : Oscillator φ) (channels : UInt16) (initial : Nat → Nat → Rat) (created : Bool)
    (start : Timespec) (tone : Generator φ)
    (begun : runTone osc (daemonOf channels) initial created start = some tone) (events : List Event) (s : Session φ)
    (reached : run (step osc) (opened tone) events = some s) :
    ∃ (ring : SharedRing Rat) (ks : List Nat), s.generator.daemon.ring = some ring ∧
      ks.Pairwise (· < ·) ∧ (∀ k ∈ ks, k < s.generator.daemon.receivedPackets.toNat) ∧
      s.generator.sentFrames.toNat = 12 * s.generator.daemon.receivedPackets.toNat ∧
      ring.header.droppedPackets.toNat + ks.length = s.generator.daemon.receivedPackets.toNat ∧
      ring.header.writePos.toNat = 12 * ks.length ∧ ring.header.clockSamplePos = ring.header.writePos ∧
      Fits s.ledger.entries ((ks.flatMap (tonePacket osc channels initial)).take ring.header.readPos.toNat) := by
  obtain ⟨ring,ks,q,playing⟩ := runInvariant (I := Plays osc channels initial)
    (stepPlays osc channels initial) (openedPlays begun) reached
  have written := playing.balanced.refines.written
  have fits := playing.balanced.fits
  rw [playing.balanced.accepted, playing.accepted] at written
  rw [playing.balanced.accepted, playing.accepted, ← playing.balanced.refines.taken] at fits
  refine ⟨ring,ks,playing.there,playing.increasing,playing.below,playing.sent,playing.refused,?_,playing.clockPos,
    fits⟩
  rw [written, tonePackets]

def soonEvents : List Event :=
  [.round ⟨7,500000,by decide,by decide,by decide⟩,.packet 7,.reader (.seekToFill 7),.packet 8,
    .reader (.readInterleaved (fun _ => 0) 2 6),.reader (.read (fun _ _ => 0) 5)]

def soonTone : Generator Nat := (runTone counting (daemonOf 2) (fun _ _ => 0) true booted).get rfl

def soonSession : Session Nat := (run (step counting) (opened soonTone) soonEvents).get (by decide +kernel)

theorem readersHearToneSoon : ∃ (ring : SharedRing Rat) (ks : List Nat), soonSession.ledger.entries.length = 3 ∧
    soonSession.generator.daemon.ring = some ring ∧
      ks.Pairwise (· < ·) ∧ (∀ k ∈ ks, k < soonSession.generator.daemon.receivedPackets.toNat) ∧
      soonSession.generator.sentFrames.toNat = 12 * soonSession.generator.daemon.receivedPackets.toNat ∧
      ring.header.droppedPackets.toNat + ks.length = soonSession.generator.daemon.receivedPackets.toNat ∧
      ring.header.writePos.toNat = 12 * ks.length ∧ ring.header.clockSamplePos = ring.header.writePos ∧
      Fits soonSession.ledger.entries
        ((ks.flatMap (tonePacket counting 2 (fun _ _ => 0))).take ring.header.readPos.toNat) := by
  obtain ⟨ring,ks,heard⟩ := readersHearTone counting 2 (fun _ _ => 0) true booted soonTone rfl soonEvents soonSession
    (Option.some_get _).symm
  exact ⟨ring,ks,by decide +kernel,heard⟩

end ReacJack.ToneStream
