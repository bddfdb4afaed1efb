import ReacJack.RingSafety

/-! Every interleaving of the two sides keeps the ring safe. -/
namespace ReacJack.RingRuns
open CircularBuffer BoundedFifo TransitionRuns SharedAudio SharedFifo RingThreads RingSafety

variable {α : Type} {capacity : Nat} {s : Threads α} {q : Queue (Frame α) capacity}

theorem writerMoves (safe : Safe s q) {pc : WriterPc α} (more : List (Frame α))
    (ok : WriterOk s.ring.header s.ring.samples s.stores pc)
    (grown : promised {s with writer := pc} = promised s ++ more) : Safe {s with writer := pc} q := by
  refine ⟨safe.refines,safe.stream,ok,safe.reader,?_,safe.complete,safe.loads⟩
  intro e stored
  rw [grown]
  exact storedLater (safe.stores e stored)

theorem readerMoves (safe : Safe s q) {pc : ReaderPc} (ok : ReaderOk s.ring.header pc) :
    Safe {s with reader := pc} q :=
  ⟨safe.refines,safe.stream,safe.writer,ok,safe.stores,safe.complete,safe.loads⟩

theorem readerAdvances (safe : Safe s q) {ring : SharedRing α} {pc : ReaderPc} {n : Nat}
    (samples : ring.samples = s.ring.samples) (channels : ring.header.channels = s.ring.header.channels)
    (capacityFrames : ring.header.capacityFrames = s.ring.header.capacityFrames)
    (writePos : ring.header.writePos = s.ring.header.writePos)
    (readPos : ring.header.readPos.toNat = q.taken + min n q.fill) (ok : ReaderOk ring.header pc) :
    Safe {s with ring, reader := pc} (advance q n) := by
  have grows : Grows s.ring.header ring.header := by
    have := safe.refines.taken
    exact ⟨capacityFrames,channels,by rw [writePos],by omega⟩
  refine ⟨advanceRefines safe.refines samples channels capacityFrames writePos readPos,safe.stream,
    ?_,ok,safe.stores,?_,?_⟩
  · change WriterOk ring.header ring.samples s.stores s.writer
    rw [samples]
    exact writerStable safe.writer grows writePos
  · simp only [channels]
    exact safe.complete
  · simp only [channels]
    exact safe.loads

theorem readerCopies (safe : Safe s q) {frames insert : UInt32} {readPos : UInt64} {count : UInt32}
    {pending rest : List (List Copy)} {copy : Copy} {choice : Nat}
    (at_ : s.reader = .copying frames insert readPos count pending)
    (taken : takeCopy choice pending = some (copy,rest)) :
    Safe {s with
      reader := .copying frames insert readPos count rest
      loads := s.loads ++ [⟨readPos.toNat + copy.frame,copy.channel,s.ring.samples copy.slot⟩]} q := by
  have ok := safe.reader
  rw [at_] at ok
  obtain ⟨rfl,live,tables⟩ := ok
  have member := takeCopyMember taken
  obtain ⟨channel,frame,slot_⟩ := tables copy ((member copy).mpr (.inl rfl))
  refine ⟨safe.refines,safe.stream,safe.writer,
    ⟨rfl,live,fun c inside => tables c ((member c).mpr (.inr inside))⟩,safe.stores,safe.complete,?_⟩
  intro e read
  rcases List.mem_append.mp read with old | new
  · exact safe.loads e old
  · obtain rfl := List.mem_singleton.mp new
    have written := safe.refines.written
    rw [safe.stream] at written
    obtain ⟨value,found⟩ : ∃ value, s.accepted[s.ring.header.readPos.toNat + copy.frame]? = some value :=
      ⟨_,List.getElem?_eq_getElem (by omega)⟩
    refine ⟨channel,value,found,?_⟩
    rw [← safe.stream] at found
    have stored := safe.refines.stored _ value (by rw [safe.refines.taken]; omega) found _ channel
    simp only [slot_, safe.refines.capacityEq, stored]

theorem putRefines {ring : SharedRing α} (refines : Refines ring q) {ch f : Nat} (value : α)
    (free : q.stream.length + f < q.taken + capacity) :
    Refines {ring with
      samples := BufferLoops.put ring.samples (slot capacity ch (q.stream.length + f)) value} q := by
  refine ⟨refines.capacityEq,refines.positive,refines.written,refines.taken,?_⟩
  intro p frame live found ch' channel
  have inside := (List.getElem?_eq_some_iff.mp found).1
  have apart : slot capacity ch' p ≠ slot capacity ch (q.stream.length + f) := by
    intro same
    have := slotInjective (a := q.taken) (by omega) (by omega) same
    omega
  exact (BufferLoops.putElsewhere _ _ apart).trans (refines.stored p frame live found ch' channel)

theorem writerCopies (safe : Safe s q) {channels : Nat → Nat → α} {frames : UInt32} {writePos : UInt64}
    {pending rest : List (List Copy)} {copy : Copy} {choice : Nat}
    (at_ : s.writer = .copying channels frames writePos pending)
    (taken : takeCopy choice pending = some (copy,rest)) :
    Safe {s with
      ring := {s.ring with
        samples := BufferLoops.put s.ring.samples copy.slot (channels copy.channel copy.frame)}
      writer := .copying channels frames writePos rest
      stores := s.stores ++
        [⟨writePos.toNat + copy.frame,copy.channel,channels copy.channel copy.frame⟩]} q := by
  have ok := safe.writer
  rw [at_] at ok
  obtain ⟨rfl,room,tables,done⟩ := ok
  have member := takeCopyMember taken
  obtain ⟨channel,frame,slot_⟩ := tables copy ((member copy).mpr (.inl rfl))
  have written := safe.refines.written
  have read := safe.refines.taken
  have capacityEq := safe.refines.capacityEq
  have ordered := q.takenLe
  have promise : promised s = s.accepted ++ block channels frames.toNat := by
    simp only [promised, at_]
  refine ⟨?_,safe.stream,⟨rfl,room,fun c inside => tables c ((member c).mpr (.inr inside)),?_⟩,
    safe.reader,?_,?_,safe.loads⟩
  · rw [slot_, capacityEq, written]
    exact putRefines safe.refines _ (by omega)
  · intro ch f inCh inFrames
    by_cases here : ch = copy.channel ∧ f = copy.frame
    · obtain ⟨rfl,rfl⟩ := here
      rw [← slot_]
      exact .inr ⟨BufferLoops.putHere _ _ _,List.mem_append_right _ (List.mem_singleton.mpr rfl)⟩
    · rcases done ch f inCh inFrames with ⟨c,inside,rfl,rfl⟩ | ⟨kept,logged⟩
      · rcases (member c).mp inside with rfl | later
        · exact absurd ⟨rfl,rfl⟩ here
        · exact .inl ⟨c,later,rfl,rfl⟩
      · refine .inr ⟨?_,List.mem_append_left _ logged⟩
        have apart : slot s.ring.header.capacityFrames.toNat ch (s.ring.header.writePos.toNat + f) ≠
            copy.slot := by
          rw [slot_]
          intro same
          have := slotInjective (a := s.ring.header.readPos.toNat) (by omega) (by omega) same
          exact here ⟨this.1,by omega⟩
        exact (BufferLoops.putElsewhere _ _ apart).trans kept
  · intro e logged
    change Stored (s.accepted ++ block channels frames.toNat) e
    rcases List.mem_append.mp logged with old | new
    · rw [← promise]
      exact safe.stores e old
    · obtain rfl := List.mem_singleton.mp new
      refine ⟨fun ch => channels ch copy.frame,?_,rfl⟩
      rw [written, safe.stream, List.getElem?_append_right (Nat.le_add_right _ _), Nat.add_sub_cancel_left]
      exact blockAt frame
  · intro p value ch found inCh
    exact List.mem_append_left _ (safe.complete p value ch found inCh)

theorem writerRefused (safe : Safe s q) {channels : Nat → Nat → α} {frames : UInt32}
    {w r : Option UInt64} (at_ : s.writer = .checking channels frames w r) :
    Safe {s with
      ring := {s.ring with header := {s.ring.header with overruns := s.ring.header.overruns + 1}}
      writer := .idle} q := by
  obtain ⟨⟨capacityEq,positive,written,taken,stored⟩,stream,_,reader,stores,complete,loads⟩ := safe
  have promise : promised s = s.accepted := by simp only [promised, at_]
  rw [promise] at stores
  refine ⟨⟨capacityEq,positive,written,taken,stored⟩,stream,trivial,?_,stores,complete,loads⟩
  exact readerStable reader ⟨rfl,rfl,Nat.le_refl _,Nat.le_refl _⟩ rfl

theorem copiedAll (safe : Safe s q) {channels : Nat → Nat → α} {frames : UInt32} {writePos : UInt64}
    {pending : List (List Copy)} (at_ : s.writer = .copying channels frames writePos pending)
    (finished : pending.flatten = []) {ch f : Nat} (channel : ch < s.ring.header.channels.toNat)
    (inside : f < frames.toNat) :
    s.ring.samples (slot capacity ch (q.stream.length + f)) = channels ch f ∧
      ⟨q.stream.length + f,ch,channels ch f⟩ ∈ s.stores := by
  have ok := safe.writer
  rw [at_] at ok
  obtain ⟨_,_,_,done⟩ := ok
  have stored := done ch f channel inside
  rw [safe.refines.capacityEq, safe.refines.written] at stored
  rcases stored with ⟨c,left,_⟩ | stored
  · rw [finished] at left
    contradiction
  · exact stored

theorem copyingOffers (safe : Safe s q) {channels : Nat → Nat → α} {frames : UInt32} {writePos : UInt64}
    {pending : List (List Copy)} (at_ : s.writer = .copying channels frames writePos pending) :
    writePos = s.ring.header.writePos ∧ ∃ next, offer q (block channels frames.toNat) = some next := by
  have written := safe.refines.written
  have taken := safe.refines.taken
  have capacityEq := safe.refines.capacityEq
  have sum := takenAddFill q
  have ok := safe.writer
  rw [at_] at ok
  obtain ⟨same,room,_⟩ := ok
  refine ⟨same,Option.ne_none_iff_exists'.mp ?_⟩
  intro refused
  rw [refusedIff, blockLength] at refused
  omega

theorem publishesRefines (safe : Safe s q) {next : Queue (Frame α) capacity} {channels : Nat → Nat → α}
    {frames : UInt32} {writePos : UInt64} {pending : List (List Copy)}
    (at_ : s.writer = .copying channels frames writePos pending) (finished : pending.flatten = [])
    (offer_ : offer q (block channels frames.toNat) = some next) {published : UInt64}
    (longer : published.toNat = q.stream.length + frames.toNat) :
    Refines {s.ring with header := {s.ring.header with writePos := published}} next := by
  obtain ⟨_,stream,taken⟩ := offered offer_
  refine ⟨safe.refines.capacityEq,safe.refines.positive,?_,?_,?_⟩
  · rw [stream, List.length_append, blockLength]
    exact longer
  · rw [taken]
    exact safe.refines.taken
  · intro p frame live found ch channel
    rw [taken] at live
    rw [stream] at found
    rcases Nat.lt_or_ge p q.stream.length with old | new
    · rw [List.getElem?_append_left old] at found
      exact safe.refines.stored p frame live found ch channel
    · obtain ⟨inside,rfl⟩ := blockBehind new found
      have kept := (copiedAll safe at_ finished channel inside).1
      rw [Nat.add_sub_cancel' new] at kept
      exact kept

theorem publishesComplete (safe : Safe s q) {channels : Nat → Nat → α} {frames : UInt32} {writePos : UInt64}
    {pending : List (List Copy)} (at_ : s.writer = .copying channels frames writePos pending)
    (finished : pending.flatten = []) {p ch : Nat} {frame : Frame α}
    (found : (s.accepted ++ block channels frames.toNat)[p]? = some frame)
    (channel : ch < s.ring.header.channels.toNat) : ⟨p,ch,frame ch⟩ ∈ s.stores := by
  rcases Nat.lt_or_ge p s.accepted.length with old | new
  · rw [List.getElem?_append_left old] at found
    exact safe.complete p frame ch found channel
  · obtain ⟨inside,rfl⟩ := blockBehind new found
    have logged := (copiedAll safe at_ finished channel inside).2
    rw [safe.stream, Nat.add_sub_cancel' new] at logged
    exact logged

theorem writerPublishes (safe : Safe s q) {channels : Nat → Nat → α} {frames : UInt32}
    {writePos : UInt64} {pending : List (List Copy)}
    (at_ : s.writer = .copying channels frames writePos pending) (finished : pending.flatten = [])
    (small : (s.accepted ++ block channels frames.toNat).length < 2 ^ 64) :
    ∃ next : Queue (Frame α) capacity, Safe {s with
      ring := {s.ring with header := {s.ring.header with writePos := writePos + frames.toUInt64}}
      writer := .idle
      accepted := s.accepted ++ block channels frames.toNat} next := by
  obtain ⟨same,next,offer_⟩ := copyingOffers safe at_
  have written := safe.refines.written
  have promise : promised s = s.accepted ++ block channels frames.toNat := by
    simp only [promised, at_]
  have longer : (writePos + frames.toUInt64).toNat = q.stream.length + frames.toNat := by
    rw [← safe.stream, List.length_append, blockLength] at small
    rw [same, UInt64.toNat_add, UInt32.toNat_toUInt64, written]
    omega
  refine ⟨next,publishesRefines safe at_ finished offer_ longer,by rw [(offered offer_).2.1, safe.stream],trivial,
    ?_,?_,?_,?_⟩
  · refine readerStable safe.reader ⟨rfl,rfl,?_,Nat.le_refl _⟩ rfl
    simp only [longer, written]
    omega
  · intro e logged
    have := safe.stores e logged
    rwa [promise] at this
  · exact fun p frame ch found channel => publishesComplete safe at_ finished found channel
  · intro e read
    exact ⟨(safe.loads e read).1,storedLater (safe.loads e read).2⟩

def Waits : WriterPc α → Prop
  | .copying .. => False
  | _ => True

theorem promisedWaiting (waits : Waits s.writer) : promised s = s.accepted := by
  unfold promised
  split
  · rename_i at_
    rw [at_] at waits
    exact waits.elim
  · rfl

theorem writerWaits (safe : Safe s q) {pc : WriterPc α} (before : Waits s.writer) (after : Waits pc)
    (ok : WriterOk s.ring.header s.ring.samples s.stores pc) : Safe {s with writer := pc} q := by
  refine writerMoves safe [] ok ?_
  rw [promisedWaiting before, List.append_nil]
  exact promisedWaiting (s := {s with writer := pc}) after

theorem checkedRoom (safe : Safe s q) {channels : Nat → Nat → α} {frames : UInt32} {w r : UInt64}
    (ok : WriterOk s.ring.header s.ring.samples s.stores (.checking channels frames (some w) (some r)))
    (fits : ¬ sharedAudioWritableFrames {s.ring.header with writePos := w, readPos := r} < frames) :
    s.ring.header.writePos.toNat + frames.toNat ≤
      s.ring.header.readPos.toNat + s.ring.header.capacityFrames.toNat := by
  -- The positions as the writer loaded them: `write_pos` is exact, `read_pos` may be stale, so
  -- there is at least the room that the writer finds.
  have ordered := q.takenLe
  have written := safe.refines.written
  have read := safe.refines.taken
  have capacityEq := safe.refines.capacityEq
  have := s.ring.header.writePos.toNat_lt
  obtain rfl := ok.1 w rfl
  obtain ⟨stale,near⟩ := ok.2 r rfl
  have used : fill {s.ring.header with readPos := r} = s.ring.header.writePos.toNat - r.toNat := by
    simp only [fill, UInt64.toNat_sub]
    omega
  have sound : Sound {s.ring.header with readPos := r} :=
    ⟨by rw [capacityEq]; exact safe.refines.positive,by rw [used]; simp only; omega⟩
  rw [UInt32.lt_iff_toNat_lt, writableToNat sound, used] at fits
  have room : frames.toNat ≤ s.ring.header.capacityFrames.toNat -
    (s.ring.header.writePos.toNat - r.toNat) := Nat.not_lt.mp fits
  omega

theorem writerChecks (safe : Safe s q) {channels : Nat → Nat → α} {frames : UInt32} {choice : Nat}
    {w r : Option UInt64} (at_ : s.writer = .checking channels frames w r) {next : Threads α}
    (taken : stepWriter s choice = some next) : Safe next q := by
  have bounded := q.bounded
  have written := safe.refines.written
  have read := safe.refines.taken
  have capacityEq := safe.refines.capacityEq
  have ok := safe.writer
  have waits : Waits s.writer := by rw [at_]; trivial
  have current : s.ring.header.readPos.toNat ≤ s.ring.header.readPos.toNat ∧
      s.ring.header.writePos.toNat ≤
        s.ring.header.readPos.toNat + s.ring.header.capacityFrames.toNat := by omega
  rw [at_] at ok
  cases w <;> cases r <;> simp only [stepWriter, at_] at taken
  case none.none =>
    split at taken <;> cases Option.some.inj taken
    · exact writerWaits safe waits trivial ⟨fun v eq => (Option.some.inj eq).symm,nofun⟩
    · exact writerWaits safe waits trivial ⟨nofun,fun v eq => Option.some.inj eq ▸ current⟩
  case none.some =>
    cases Option.some.inj taken
    exact writerWaits safe waits trivial ⟨fun v eq => (Option.some.inj eq).symm,ok.2⟩
  case some.none =>
    cases Option.some.inj taken
    exact writerWaits safe waits trivial ⟨ok.1,fun v eq => Option.some.inj eq ▸ current⟩
  case some.some =>
    split at taken <;> cases Option.some.inj taken
    · exact writerRefused safe at_
    · rename_i fits
      exact writerWaits safe waits trivial (checkedRoom safe ok fits)

theorem writerBegins (safe : Safe s q) {channels : Nat → Nat → α} {frames : UInt32}
    (at_ : s.writer = .admitted channels frames) :
    Safe {s with
      writer := .copying channels frames s.ring.header.writePos
        (blockCopies s.ring.header.channels.toNat s.ring.header.capacityFrames
          (ringIndex s.ring.header.writePos s.ring.header.capacityFrames) frames)} q := by
  have ordered := q.takenLe
  have written := safe.refines.written
  have read := safe.refines.taken
  have positive := safe.refines.positive
  rw [← safe.refines.capacityEq] at positive
  have ok := safe.writer
  rw [at_] at ok
  have room : frames.toNat ≤ s.ring.header.capacityFrames.toNat := by
    simp only [WriterOk] at ok
    omega
  have index := indexToNat s.ring.header.writePos positive
  refine writerMoves safe (block channels frames.toNat) ⟨rfl,ok,?_,?_⟩ ?_
  · intro c member
    exact blockCopiesInTable positive index room member
  · intro ch f channel frame
    exact .inl (blockCopiesCover (by rw [index]; exact Nat.mod_lt _ positive) channel frame)
  · simp only [promised, at_]

theorem writerSafe (safe : Safe s q) {choice : Nat} {next : Threads α}
    (taken : stepWriter s choice = some next) (small : next.accepted.length < 2 ^ 64) :
    ∃ q' : Queue (Frame α) capacity, Safe next q' := by
  cases at_ : s.writer with
  | idle => simp [stepWriter, at_] at taken
  | checking channels frames w r => exact ⟨q,writerChecks safe at_ taken⟩
  | admitted channels frames =>
    simp only [stepWriter, at_] at taken
    cases Option.some.inj taken
    exact ⟨q,writerBegins safe at_⟩
  | copying channels frames writePos pending =>
    simp only [stepWriter, at_] at taken
    split at taken
    · rename_i finished
      cases Option.some.inj taken
      exact writerPublishes safe at_ (List.isEmpty_iff.mp finished) small
    · obtain ⟨⟨copy,rest⟩,chosen,rfl⟩ := Option.map_eq_some_iff.mp taken
      exact ⟨q,writerCopies safe at_ chosen⟩

theorem positions (safe : Safe s q) : s.ring.header.readPos.toNat = q.taken ∧
    s.ring.header.readPos.toNat + q.fill = s.ring.header.writePos.toNat ∧
    s.ring.header.writePos.toNat < 2 ^ 64 ∧ Sound s.ring.header ∧ fill s.ring.header = q.fill := by
  have sum := takenAddFill q
  have written := safe.refines.written
  have read := safe.refines.taken
  exact ⟨read,by omega,s.ring.header.writePos.toNat_lt,refinesSound safe.refines,refinesFill safe.refines⟩

theorem regulateOk (safe : Safe s q) (outChannels : UInt16) (frames targetFill tolerance : UInt32) :
    ReaderOk s.ring.header (regulate outChannels frames targetFill tolerance s.ring.header.readPos
      (s.ring.header.writePos - s.ring.header.readPos)) := by
  obtain ⟨_,sum,_,sound,filled⟩ := positions safe
  unfold regulate
  split
  · rename_i full
    rw [tooFullIff] at full
    refine ⟨rfl,?_⟩
    rw [excessCorrection sound (by omega)]
    omega
  · split <;> exact trivial

section
variable {choice : Nat} {next : Threads α}

theorem readerMeasures (safe : Safe s q) {outChannels : UInt16} {frames targetFill tolerance : UInt32}
    {readPos : UInt64} (at_ : s.reader = .measuring outChannels frames targetFill tolerance readPos)
    (taken : stepReader s choice = some next) : Safe next q := by
  have ok := safe.reader
  rw [at_] at ok
  obtain rfl := ok
  simp only [stepReader, at_] at taken
  cases Option.some.inj taken
  exact readerMoves safe (regulateOk safe outChannels frames targetFill tolerance)

theorem readerDrops (safe : Safe s q) {outChannels : UInt16} {frames drop : UInt32} {readPos : UInt64}
    (at_ : s.reader = .dropping outChannels frames readPos drop) (taken : stepReader s choice = some next) :
    Safe next (advance q drop.toNat) := by
  obtain ⟨read,sum,small,_,_⟩ := positions safe
  have ok := safe.reader
  rw [at_] at ok
  obtain ⟨rfl,within⟩ := ok
  simp only [stepReader, at_] at taken
  cases Option.some.inj taken
  refine readerAdvances (n := drop.toNat) safe rfl rfl rfl rfl ?_ trivial
  simp only [dropFrames, UInt64.toNat_add, UInt32.toNat_toUInt64]
  omega

theorem readerCounts (safe : Safe s q) {shape : Shape} {frames insert : UInt32} {readPos : UInt64}
    (at_ : s.reader = .counting shape frames insert readPos) (taken : stepReader s choice = some next) :
    Safe next q := by
  obtain ⟨_,sum,small,sound,filled⟩ := positions safe
  have ok := safe.reader
  rw [at_] at ok
  obtain rfl := ok
  simp only [stepReader, at_] at taken
  cases Option.some.inj taken
  have count := toReadToNat sound frames
  refine readerMoves safe ⟨rfl,by omega,fun c member => ?_⟩
  exact readCopiesInTable sound (by omega) (by omega) member

theorem readerFinishes (safe : Safe s q) {frames insert count : UInt32} {readPos : UInt64}
    {pending : List (List Copy)} (at_ : s.reader = .copying frames insert readPos count pending)
    (finished : pending.flatten.isEmpty = true) (taken : stepReader s choice = some next) :
    Safe next (advance q count.toNat) := by
  obtain ⟨read,sum,small,_,_⟩ := positions safe
  have ok := safe.reader
  rw [at_] at ok
  obtain ⟨rfl,within,_⟩ := ok
  simp only [stepReader, at_, finished, if_true] at taken
  cases Option.some.inj taken
  refine readerAdvances (n := count.toNat) safe rfl rfl rfl rfl ?_ trivial
  simp only [finishRead, UInt64.toNat_add, UInt32.toNat_toUInt64]
  omega

theorem readerAims (safe : Safe s q) {targetFill : UInt32} {writePos : UInt64}
    (at_ : s.reader = .aiming targetFill writePos) (taken : stepReader s choice = some next) : Safe next q := by
  obtain ⟨_,sum,small,sound,filled⟩ := positions safe
  have bounded := sound.bounded
  have capacity := s.ring.header.capacityFrames.toNat_lt
  have ok := safe.reader
  rw [at_] at ok
  obtain ⟨low,high⟩ := ok
  simp only [stepReader, at_] at taken
  cases Option.some.inj taken
  refine readerMoves safe ⟨?_,high⟩
  have distance : (writePos - s.ring.header.readPos).toNat = writePos.toNat - s.ring.header.readPos.toNat :=
    UInt64.toNat_sub_of_le _ _ (UInt64.le_iff_toNat_le.mpr low)
  split <;> rename_i less <;>
    simp only [UInt64.lt_iff_toNat_lt, UInt64.toNat_toUInt32, UInt32.toNat_toUInt64, distance] at * <;>
    omega

theorem readerJumps (safe : Safe s q) {newFill : UInt32} {writePos : UInt64}
    (at_ : s.reader = .jumping writePos newFill) (taken : stepReader s choice = some next) :
    Safe next (advance q (writePos.toNat - newFill.toNat - s.ring.header.readPos.toNat)) := by
  obtain ⟨read,sum,small,_,_⟩ := positions safe
  have ok := safe.reader
  rw [at_] at ok
  obtain ⟨low,high⟩ := ok
  simp only [stepReader, at_] at taken
  cases Option.some.inj taken
  refine readerAdvances (n := writePos.toNat - newFill.toNat - s.ring.header.readPos.toNat) safe
    rfl rfl rfl rfl ?_ trivial
  simp only [UInt64.toNat_sub, UInt32.toNat_toUInt64]
  omega

theorem readerSafe (safe : Safe s q) (taken : stepReader s choice = some next) :
    ∃ q' : Queue (Frame α) capacity, Safe next q' := by
  cases at_ : s.reader with
  | idle => simp [stepReader, at_] at taken
  | regulating outChannels frames targetFill tolerance =>
    simp only [stepReader, at_] at taken
    cases Option.some.inj taken
    exact ⟨q,readerMoves safe rfl⟩
  | measuring outChannels frames targetFill tolerance readPos => exact ⟨q,readerMeasures safe at_ taken⟩
  | dropping outChannels frames readPos drop => exact ⟨_,readerDrops safe at_ taken⟩
  | reading shape frames insert =>
    simp only [stepReader, at_] at taken
    cases Option.some.inj taken
    exact ⟨q,readerMoves safe rfl⟩
  | counting shape frames insert readPos => exact ⟨q,readerCounts safe at_ taken⟩
  | copying frames insert readPos count pending =>
    cases finished : pending.flatten.isEmpty with
    | true => exact ⟨_,readerFinishes safe at_ finished taken⟩
    | false =>
      simp only [stepReader, at_, finished, if_false, Bool.false_eq_true] at taken
      obtain ⟨⟨copy,rest⟩,chosen,rfl⟩ := Option.map_eq_some_iff.mp taken
      exact ⟨q,readerCopies safe at_ chosen⟩
  | seeking targetFill =>
    obtain ⟨_,sum,_,_,_⟩ := positions safe
    simp only [stepReader, at_] at taken
    cases Option.some.inj taken
    exact ⟨q,readerMoves safe ⟨by omega,Nat.le_refl _⟩⟩
  | aiming targetFill writePos => exact ⟨q,readerAims safe at_ taken⟩
  | jumping writePos newFill => exact ⟨_,readerJumps safe at_ taken⟩

end

theorem stepSafe (safe : Safe s q) {label : Label α} {next : Threads α}
    (taken : step s label = some next) (small : next.accepted.length < 2 ^ 64) :
    ∃ q' : Queue (Frame α) capacity, Safe next q' := by
  cases label with
  | write channels frames =>
    obtain ⟨idle,rfl⟩ := writeEnters taken
    exact ⟨q,writerWaits safe (by rw [idle]; trivial) trivial ⟨nofun,nofun⟩⟩
  | read call =>
    obtain ⟨_,rfl⟩ := readEnters taken
    refine ⟨q,readerMoves safe ?_⟩
    cases call <;> exact trivial
  | writer choice => exact writerSafe safe taken small
  | reader choice => exact readerSafe safe taken

end ReacJack.RingRuns
