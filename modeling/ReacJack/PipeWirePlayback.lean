import ReacJack.PipeWireProgram
import ReacJack.ReacWire

/-! From the wire to PipeWire's buffers, whatever the two threads do in between: what is
played are the decoded samples of the accepted packets, in order and without a gap. -/
namespace ReacJack.PipeWirePlayback
open TransitionRuns ReacDecode PipeWire PipeWireThreads PipeWireCrossing PipeWireGuarantees PipeWireProgram
open Daemon (packetSample decodeParsed)
open DaemonLedger (packetFrames)

theorem packetRows {interleaved : Nat → Rat} {packet : Bytes} {channels : Nat}
    (holds : ∀ ch f, ch < channels → f < 12 →
      interleaved (f * channels + ch) = packetSample packet channels ch f) :
    (frameRows channels interleaved 12).map (samplesOf channels) = packetFrames packet channels := by
  simp only [frameRows, packetFrames, List.map_map]
  refine List.map_congr_left fun f inside => List.map_congr_left fun ch channel => ?_
  rw [List.mem_range] at inside channel
  exact holds ch f channel inside

theorem entryCases (s : Thread) (bytes : Bytes) :
    (∃ s', captureEntry s bytes = (s',none) ∧
      (s'.app = {s.app with nonReacPackets := s.app.nonReacPackets + 1} ∨ s'.app = countMalformed s.app)) ∨
    ∃ s' counter, captureEntry s bytes = (s',some counter) ∧ s'.app = s.app ∧
      WellFormed bytes s.app.channels.toNat ∧
      (frameRows s.app.channels.toNat s'.interleaved 12).map (samplesOf s.app.channels.toNat) =
        packetFrames bytes s.app.channels.toNat := by
  cases parsed : reacParsePacket (some (bytes.take reacjackPwPacketBytes)) (some cleared) with
  | mk parseStatus view =>
    simp only [captureEntry, parsed]
    split
    · exact .inl ⟨_,rfl,.inl rfl⟩
    split
    · exact .inl ⟨_,rfl,.inr rfl⟩
    rename_i ok
    rw [not_not.mp ok] at parsed
    obtain ⟨channels,wellFormed,rfl⟩ := parsedWellFormed parsed
    have whole := uncut wellFormed
    rw [whole] at wellFormed ⊢
    obtain ⟨outputs,decoded,holds⟩ := decodeParsed wellFormed s.channelStorage
    have toNat := viewChannels bytes wellFormed.most
    simp only [Option.getD_some, decoded, ne_eq, not_true_eq_false, if_false]
    split
    · exact .inl ⟨_,rfl,.inr rfl⟩
    rename_i same
    rw [not_not.mp same] at toNat
    rw [toNat]
    refine .inr ⟨_,_,rfl,rfl,wellFormed,packetRows fun ch f channel inside => ?_⟩
    have row := interleavedAt s.interleaved (Daemon.storageBehind outputs s.channelStorage)
      (show f < reacFramesPerPacket from inside) (show ch < s.app.channels.toNat by rw [toNat]; exact channel)
    rw [toNat] at row
    exact row.trans (holds ch f channel inside)

def Carries (interleaved : Nat → Rat) (frames : BitVec 64) : WriterPc 64 Rat → Prop
  | .idle => False
  | .entered interleaved' frames' | .checking interleaved' frames' _ | .moving interleaved' frames' ..
  | .copying interleaved' frames' .. => interleaved' = interleaved ∧ frames' = frames

theorem writerCases {s next : Threads 64 Rat} {choice : Nat} {interleaved : Nat → Rat} {frames : BitVec 64}
    (taken : stepWriter s choice = some next) (carries : Carries interleaved frames s.writer) :
    (next.ring.channels = s.ring.channels ∧ next.deliveries = s.deliveries) ∧
    (writeReturns s = none ∧ Carries interleaved frames next.writer ∧ next.accepted = s.accepted ∨
      next.writer = .idle ∧ (writeReturns s = some (-1) ∧ next.accepted = s.accepted ∨
        writeReturns s = some 0 ∧
          next.accepted = s.accepted ++ frameRows s.ring.channels.toNat interleaved frames.toNat)) := by
  cases writerActs taken with
  | loads at_ =>
    rw [at_] at carries
    exact ⟨⟨rfl,rfl⟩,.inl ⟨by simp only [writeReturns, at_],carries,rfl⟩⟩
  | refuses at_ full => exact ⟨⟨rfl,rfl⟩,.inr ⟨rfl,.inl ⟨by simp only [writeReturns, at_, full, if_true],rfl⟩⟩⟩
  | admits at_ room =>
    rw [at_] at carries
    exact ⟨⟨rfl,rfl⟩,.inl ⟨by simp only [writeReturns, at_, room, if_false],carries,rfl⟩⟩
  | begins at_ more =>
    rw [at_] at carries
    exact ⟨⟨rfl,rfl⟩,.inl ⟨by simp only [writeReturns, at_, more, if_true],carries,rfl⟩⟩
  | publishes at_ ended =>
    rw [at_] at carries
    obtain ⟨rfl,rfl⟩ := carries
    exact ⟨⟨rfl,rfl⟩,.inr ⟨rfl,.inr ⟨by simp only [writeReturns, at_, ended, if_false],rfl⟩⟩⟩
  | copied at_ | copies at_ =>
    rw [at_] at carries
    exact ⟨⟨rfl,rfl⟩,.inl ⟨by simp only [writeReturns, at_],carries,rfl⟩⟩

def short (d : Delivery 64 Rat) : Bool := decide (d.toRead < d.frames)

theorem readerCases {s next : Threads 64 Rat} {choice : Nat} (taken : stepReader s choice = some next) :
    next.ring.channels = s.ring.channels ∧
    (readReturns s = none ∧ next.deliveries = s.deliveries ∨
      ∃ d, readReturns s = some (short d) ∧ next.deliveries = s.deliveries ++ [d]) := by
  cases readerActs taken with
  | loads at_ | counts at_ | copied at_ | copies at_ => exact ⟨rfl,.inl ⟨by simp only [readReturns, at_],rfl⟩⟩
  | begins at_ more => exact ⟨rfl,.inl ⟨by simp only [readReturns, at_, more, if_true],rfl⟩⟩
  | returns at_ ended => exact ⟨rfl,.inr ⟨_,by simp only [readReturns, at_, ended, if_false, short],rfl⟩⟩

def underway (p : Program) : List Bytes := p.writing.toList.map Prod.fst

structure Counted (p : Program) : Prop where
  captured : p.thread.app.receivedPackets + p.thread.app.nonReacPackets + p.thread.app.malformedPackets +
    p.thread.app.ringOverruns + UInt64.ofNat (underway p).length = UInt64.ofNat p.captured.length
  received : p.thread.app.receivedPackets = UInt64.ofNat p.accepted.length
  underruns : p.thread.app.pipewireUnderruns = UInt64.ofNat (p.threads.deliveries.countP short)

def InCall (channels : Nat) (writing : Option (Bytes × UInt16)) (writer : WriterPc 64 Rat) : Prop :=
  match writing with
  | none => writer = .idle
  | some (bytes,_) => WellFormed bytes channels ∧ ∃ interleaved, Carries interleaved 12 writer ∧
      (frameRows channels interleaved 12).map (samplesOf channels) = packetFrames bytes channels

structure Kept (channels : UInt16) (p : Program) : Prop where
  appChannels : p.thread.app.channels = channels
  ringChannels : p.threads.ring.channels = channels
  inCall : InCall channels.toNat p.writing p.threads.writer
  rows : p.threads.accepted.map (samplesOf channels.toNat) =
    p.accepted.flatMap (fun packet => packetFrames packet channels.toNat)
  shape : ∀ packet ∈ p.accepted, WellFormed packet channels.toNat
  order : (p.accepted ++ underway p).Sublist p.captured
  counted : Counted p

theorem openingKept (channels : UInt16) (channelStorage : Nat → Nat → Rat) (interleaved : Nat → Rat) :
    Kept channels (opening channels channelStorage interleaved) :=
  ⟨rfl,rfl,rfl,rfl,fun _ member => absurd member List.not_mem_nil,List.Sublist.refl _,⟨rfl,rfl,rfl⟩⟩

section
variable {channels : UInt16} {p : Program}

theorem countedKept (kept : Kept channels p) (idle : p.writing = none) {bytes : Bytes} {thread : Thread}
    (cases_ : thread.app = {p.thread.app with nonReacPackets := p.thread.app.nonReacPackets + 1} ∨
      thread.app = countMalformed p.thread.app) :
    Kept channels {p with thread, captured := p.captured ++ [bytes]} := by
  obtain ⟨appChannels,ringChannels,inCall,rows,shape,order,⟨captured,received,underruns⟩⟩ := kept
  have none_ : underway p = [] := by simp only [underway, idle, Option.toList_none, List.map_nil]
  rw [none_] at captured order
  have order_ : (p.accepted ++ underway p).Sublist (p.captured ++ [bytes]) := by
    rw [none_]
    exact order.trans (List.sublist_append_left _ _)
  have sum : ∀ n m : UInt64, n + m + UInt64.ofNat ([] : List Bytes).length = UInt64.ofNat p.captured.length →
      n + m + 1 + UInt64.ofNat (underway p).length = UInt64.ofNat (p.captured ++ [bytes]).length := by
    intro n m before
    rw [none_, List.length_append, List.length_singleton, UInt64.ofNat_add, ← before]
    simp only [List.length_nil]
    grind
  have more : thread.app.receivedPackets + thread.app.nonReacPackets + thread.app.malformedPackets +
      thread.app.ringOverruns + UInt64.ofNat (underway p).length = UInt64.ofNat (p.captured ++ [bytes]).length := by
    have next := sum _ _ captured
    rcases cases_ with same | same <;> rw [same] <;> simp only [countMalformed] <;> grind
  refine ⟨?_,ringChannels,inCall,rows,shape,order_,⟨more,?_,?_⟩⟩
  · rcases cases_ with same | same <;> rw [same] <;> exact appChannels
  · rcases cases_ with same | same <;> rw [same] <;> exact received
  · rcases cases_ with same | same <;> rw [same] <;> exact underruns

theorem enteredKept (kept : Kept channels p) (idle : p.writing = none) {bytes : Bytes} {counter : UInt16}
    {thread : Thread} {threads : Threads 64 Rat} (app : thread.app = p.thread.app)
    (wellFormed : WellFormed bytes p.thread.app.channels.toNat)
    (rows : (frameRows p.thread.app.channels.toNat thread.interleaved 12).map
      (samplesOf p.thread.app.channels.toNat) = packetFrames bytes p.thread.app.channels.toNat)
    (taken : PipeWireThreads.step p.threads (.write thread.interleaved 12) = some threads) :
    Kept channels {p with threads, thread, writing := some (bytes,counter), captured := p.captured ++ [bytes]} := by
  obtain ⟨appChannels,ringChannels,_,rows_,shape,order,⟨captured,received,underruns⟩⟩ := kept
  have none_ : underway p = [] := by simp only [underway, idle, Option.toList_none, List.map_nil]
  rw [none_, List.append_nil] at order
  rw [none_] at captured
  rw [appChannels] at wellFormed rows
  obtain ⟨_,rfl⟩ := writeEnters taken
  refine ⟨by rw [app]; exact appChannels,ringChannels,⟨wellFormed,_,⟨rfl,rfl⟩,rows⟩,rows_,shape,
    order.append (List.Sublist.refl _),⟨?_,?_,?_⟩⟩
  · rw [List.length_append, List.length_singleton, UInt64.ofNat_add, ← captured, app]
    simp only [underway, Option.toList_some, List.map_cons, List.map_nil, List.length_cons, List.length_nil]
    grind
  · rw [app]
    exact received
  · rw [app]
    exact underruns

theorem returnedKept (kept : Kept channels p) {bytes : Bytes} {counter : UInt16} {threads : Threads 64 Rat}
    (writing : p.writing = some (bytes,counter)) (idle : threads.writer = .idle)
    (same : threads.ring.channels = p.threads.ring.channels ∧ threads.deliveries = p.threads.deliveries)
    (result : writeReturns p.threads = some (-1) ∧ threads.accepted = p.threads.accepted ∨
      ∃ interleaved, writeReturns p.threads = some 0 ∧
        threads.accepted = p.threads.accepted ++ frameRows channels.toNat interleaved 12 ∧
        (frameRows channels.toNat interleaved 12).map (samplesOf channels.toNat) =
          packetFrames bytes channels.toNat) :
    Kept channels (match writeReturns p.threads with
      | some code => writeDone {p with threads} code
      | none => {p with threads}) := by
  obtain ⟨appChannels,ringChannels,inCall,rows,shape,order,⟨captured,received,underruns⟩⟩ := kept
  have one : underway p = [bytes] := by
    simp only [underway, writing, Option.toList_some, List.map_cons, List.map_nil]
  rw [one] at captured order
  rw [writing] at inCall
  rcases result with ⟨code,accepted⟩ | ⟨interleaved,code,accepted,packet⟩
  · simp only [code, writeDone, writing]
    refine ⟨appChannels,same.1.trans ringChannels,idle,by rw [accepted]; exact rows,shape,?_,⟨?_,received,?_⟩⟩
    · simp only [underway, Option.toList_none, List.map_nil, List.append_nil]
      exact (List.sublist_append_left _ _).trans order
    · simp only [captureExit, underway, Option.toList_none, List.map_nil, List.length_nil, List.length_cons]
        at captured ⊢
      grind
    · simp only [same.2]
      exact underruns
  · simp only [code, writeDone, writing]
    refine ⟨appChannels,same.1.trans ringChannels,idle,?_,?_,?_,⟨?_,?_,?_⟩⟩
    · rw [accepted, List.map_append, rows, packet]
      simp
    · intro packet_ member
      rcases List.mem_append.mp member with old | new
      · exact shape packet_ old
      · rw [List.mem_singleton.mp new]
        exact inCall.1
    · simp only [underway, Option.toList_none, List.map_nil, List.append_nil]
      exact order
    · simp only [captureExit, noteCounter, underway, Option.toList_none, List.map_nil, List.length_nil,
        List.length_cons] at captured ⊢
      grind
    · change p.thread.app.receivedPackets + 1 = UInt64.ofNat (p.accepted ++ [bytes]).length
      rw [List.length_append, List.length_singleton, UInt64.ofNat_add, ← received]
      rfl
    · simp only [same.2]
      exact underruns

theorem writerKept (kept : Kept channels p) {choice : Nat} {threads : Threads 64 Rat}
    (taken : stepWriter p.threads choice = some threads) :
    Kept channels (match writeReturns p.threads with
      | some code => writeDone {p with threads} code
      | none => {p with threads}) := by
  have inCall := kept.inCall
  rcases Option.eq_none_or_eq_some p.writing with writing | ⟨⟨bytes,counter⟩,writing⟩
  · rw [writing] at inCall
    have idle : p.threads.writer = .idle := inCall
    simp [stepWriter, idle] at taken
  · rw [writing] at inCall
    obtain ⟨wellFormed,interleaved,carries,rows⟩ := inCall
    obtain ⟨same,result⟩ := writerCases taken carries
    rcases result with ⟨stays,carries_,accepted⟩ | ⟨idle,refused | ⟨published,accepted⟩⟩
    · simp only [stays]
      refine ⟨kept.appChannels,same.1.trans kept.ringChannels,?_,?_,kept.shape,kept.order,
        kept.counted.captured,kept.counted.received,?_⟩
      · rw [writing]
        exact ⟨wellFormed,interleaved,carries_,rows⟩
      · rw [accepted]
        exact kept.rows
      · rw [same.2]
        exact kept.counted.underruns
    · exact returnedKept kept writing idle same (.inl refused)
    · rw [kept.ringChannels] at accepted
      exact returnedKept kept writing idle same (.inr ⟨interleaved,published,accepted,rows⟩)

theorem readerKept (kept : Kept channels p) {choice : Nat} {threads : Threads 64 Rat}
    (taken : stepReader p.threads choice = some threads) :
    Kept channels (match readReturns p.threads with
      | some short => readDone {p with threads} short
      | none => {p with threads}) := by
  obtain ⟨appChannels,ringChannels,inCall,rows,shape,order,⟨captured,received,underruns⟩⟩ := kept
  obtain ⟨writer,accepted⟩ := readerKeeps taken
  obtain ⟨channels_,result⟩ := readerCases taken
  rw [← writer] at inCall
  rw [← accepted] at rows
  rcases result with ⟨stays,same⟩ | ⟨d,returns,more⟩
  · simp only [stays]
    exact ⟨appChannels,channels_.trans ringChannels,inCall,rows,shape,order,captured,received,
      by rw [same]; exact underruns⟩
  · simp only [returns]
    cases long : short d with
    | false =>
      refine ⟨appChannels,channels_.trans ringChannels,inCall,rows,shape,order,captured,received,?_⟩
      simp [readDone, more, List.countP_append, long, underruns]
    | true =>
      refine ⟨appChannels,channels_.trans ringChannels,inCall,rows,shape,order,captured,received,?_⟩
      simp [readDone, more, List.countP_append, long, underruns, UInt64.ofNat_add]

theorem stepKept (kept : Kept channels p) {event : Event} {next : Program} (taken : step p event = some next) :
    Kept channels next := by
  cases event with
  | capture c =>
    simp only [PipeWireProgram.step] at taken
    split at taken
    · contradiction
    rename_i free
    have idle : p.writing = none := by simpa using free
    cases c with
    | nothing =>
      cases Option.some.inj taken
      exact kept
    | error =>
      cases Option.some.inj taken
      exact ⟨kept.appChannels,kept.ringChannels,kept.inCall,kept.rows,kept.shape,kept.order,
        kept.counted.captured,kept.counted.received,kept.counted.underruns⟩
    | frame bytes =>
      simp only at taken
      rcases entryCases p.thread bytes with ⟨thread,entry,counts⟩ | ⟨thread,counter,entry,app,formed,rows⟩
      · rw [entry] at taken
        cases Option.some.inj taken
        exact countedKept kept idle counts
      · rw [entry] at taken
        obtain ⟨threads,entered,rfl⟩ := Option.map_eq_some_iff.mp taken
        exact enteredKept kept idle app formed rows entered
  | writer choice =>
    obtain ⟨threads,moved,rfl⟩ := Option.map_eq_some_iff.mp taken
    exact writerKept kept moved
  | process buffer =>
    obtain ⟨threads,entered,rfl⟩ := Option.map_eq_some_iff.mp taken
    obtain ⟨_,rfl⟩ := readEnters entered
    exact ⟨kept.appChannels,kept.ringChannels,kept.inCall,kept.rows,kept.shape,kept.order,
      kept.counted.captured,kept.counted.received,kept.counted.underruns⟩
  | reader choice =>
    obtain ⟨threads,moved,rfl⟩ := Option.map_eq_some_iff.mp taken
    exact readerKept kept moved

theorem promisedCaptured (kept : Kept channels p) : promised p.threads ≤ 12 * p.captured.length := by
  have accepted := congrArg List.length kept.rows
  have twelve : ∀ packets : List Bytes,
      (packets.flatMap (fun packet => packetFrames packet channels.toNat)).length = 12 * packets.length := by
    intro packets
    induction packets with
    | nil => rfl
    | cons packet rest ih =>
      rw [List.flatMap_cons, List.length_append, ih, List.length_cons]
      simp only [packetFrames, List.length_map, List.length_range]
      omega
  rw [List.length_map, twelve] at accepted
  have order := kept.order.length_le
  have inCall := kept.inCall
  rw [List.length_append] at order
  unfold promised
  cases writing : p.writing with
  | none =>
    rw [writing] at inCall
    have idle : p.threads.writer = .idle := inCall
    simp only [idle]
    omega
  | some packet =>
    rw [writing] at inCall
    obtain ⟨_,interleaved,carries,_⟩ := inCall
    have one : (underway p).length = 1 := by simp [underway, writing]
    cases at_ : p.threads.writer with
    | idle | entered | checking =>
      simp only
      omega
    | moving interleaved' frames | copying interleaved' frames =>
      rw [at_] at carries
      have frames_ : frames.toNat = 12 := by rw [carries.2]; rfl
      simp only [frames_]
      omega

theorem threadsStep {event : Event} {next : Program} (taken : step p event = some next) :
    next.threads = p.threads ∨ ∃ label, PipeWireThreads.step p.threads label = some next.threads := by
  cases event with
  | capture c =>
    simp only [PipeWireProgram.step] at taken
    split at taken
    · contradiction
    cases c with
    | nothing | error =>
      cases Option.some.inj taken
      exact .inl rfl
    | frame bytes =>
      simp only at taken
      split at taken
      · cases Option.some.inj taken
        exact .inl rfl
      · obtain ⟨threads,entered,rfl⟩ := Option.map_eq_some_iff.mp taken
        exact .inr ⟨_,entered⟩
  | writer choice =>
    obtain ⟨threads,moved,rfl⟩ := Option.map_eq_some_iff.mp taken
    refine .inr ⟨.writer choice,?_⟩
    split
    · unfold writeDone
      split <;> exact moved
    · exact moved
  | process buffer =>
    obtain ⟨threads,entered,rfl⟩ := Option.map_eq_some_iff.mp taken
    exact .inr ⟨_,entered⟩
  | reader choice =>
    obtain ⟨threads,moved,rfl⟩ := Option.map_eq_some_iff.mp taken
    refine .inr ⟨.reader choice,?_⟩
    split
    · unfold readDone
      split <;> exact moved
    · exact moved

theorem capturedGrows {event : Event} {next : Program} (taken : step p event = some next) :
    p.captured.length ≤ next.captured.length := by
  cases event with
  | capture c =>
    simp only [PipeWireProgram.step] at taken
    split at taken
    · contradiction
    cases c with
    | nothing | error =>
      cases Option.some.inj taken
      exact Nat.le_refl _
    | frame bytes =>
      simp only at taken
      split at taken
      · cases Option.some.inj taken
        simp
      · obtain ⟨threads,_,rfl⟩ := Option.map_eq_some_iff.mp taken
        simp
  | writer choice =>
    obtain ⟨threads,_,rfl⟩ := Option.map_eq_some_iff.mp taken
    split
    · unfold writeDone
      split <;> exact Nat.le_refl _
    · exact Nat.le_refl _
  | process buffer =>
    obtain ⟨threads,_,rfl⟩ := Option.map_eq_some_iff.mp taken
    exact Nat.le_refl _
  | reader choice =>
    obtain ⟨threads,_,rfl⟩ := Option.map_eq_some_iff.mp taken
    split
    · unfold readDone
      split <;> exact Nat.le_refl _
    · exact Nat.le_refl _

end

theorem playsCaptured (channels : UInt16) (channelStorage : Nat → Nat → Rat) (interleaved : Nat → Rat)
    (events : List Event) (p : Program)
    (reached : run step (opening channels channelStorage interleaved) events = some p)
    (small : 12 * p.captured.length < 2 ^ 64) :
    heard channels.toNat p.threads.deliveries =
      (p.accepted.flatMap (fun packet => packetFrames packet channels.toNat)).take
        p.threads.ring.readPos.toNat ∧
    (∀ d ∈ p.threads.deliveries, Padded channels.toNat d) ∧
    (∀ packet ∈ p.accepted, WellFormed packet channels.toNat) ∧
    (p.accepted ++ underway p).Sublist p.captured ∧
    Counted p := by
  have final : Kept channels p ∧ ∃ h : Passing Rat 96000 channels.toNat, Follows p.threads h := by
    refine runInvariantWhile
      (I := fun t : Program => Kept channels t ∧ ∃ h : Passing Rat 96000 channels.toNat, Follows t.threads h)
      (W := fun t => 12 * t.captured.length < 2 ^ 64) ?_ ?_
      ⟨openingKept channels channelStorage interleaved,
        ⟨_,startFollows channels (show 0 < (96000 : BitVec 64).toNat by decide)⟩⟩ reached small
    · intro t event next taken below
      have := capturedGrows taken
      omega
    · rintro t event next ⟨kept,h,follows⟩ below taken
      have kept_ := stepKept kept taken
      refine ⟨kept_,?_⟩
      rcases threadsStep taken with same | ⟨label,moved⟩
      · exact ⟨h,by rw [same]; exact follows⟩
      · exact stepFollows follows moved ((promisedCaptured kept_).trans_lt below)
  obtain ⟨kept,h,follows⟩ := final
  refine ⟨?_,follows.padded,kept.shape,kept.order,kept.counted⟩
  rw [follows.heard, List.map_take, follows.stream, kept.rows, follows.taken]

def oneBuffer : List Event :=
  [.capture (.frame [1,2,3]),.capture (.frame ReacWire.quietPacket),.process ⟨fun _ => 7,64,2⟩] ++
  List.replicate 29 (.writer 0) ++ List.replicate 9 (.reader 0)

def stereo : Program := opening 2 (fun _ _ => 5) (fun _ => 6)

theorem playsCapturedStereo :
    let p := (run step stereo oneBuffer).get (by decide +kernel)
    p.accepted.length = 1 ∧ p.threads.ring.readPos = 2 ∧
      heard 2 p.threads.deliveries =
        (p.accepted.flatMap (fun packet => packetFrames packet 2)).take p.threads.ring.readPos.toNat :=
  ⟨by decide +kernel,by decide +kernel,(playsCaptured 2 (fun _ _ => 5) (fun _ => 6) oneBuffer _
    (Option.some_get (by decide +kernel)).symm (by decide +kernel)).1⟩

end ReacJack.PipeWirePlayback
