import ReacJack.RingThreads
import ReacJack.SharedAudioSpec

/-! The fill stays within the ring under any interleaving of its two sides, however long
they go on. A stale `read_pos` makes the writer see less room than there is, a stale
`write_pos` makes the reader see less to read, and both are compared by distances in
64-bit arithmetic, so the wrap of the positions does not matter. -/
namespace ReacJack.FillBounds
open SharedAudio RingThreads

variable {α : Type}

def WriterSees (h : Header) : WriterPc α → Prop
  | .idle => True
  | .checking _ _ writePos readPos =>
    (∀ v, writePos = some v → v = h.writePos) ∧
    ∀ v, readPos = some v → fill h ≤ (h.writePos - v).toNat ∧ (h.writePos - v).toNat ≤ h.capacityFrames.toNat
  | .admitted _ frames => fill h + frames.toNat ≤ h.capacityFrames.toNat
  | .copying _ frames writePos _ => writePos = h.writePos ∧ fill h + frames.toNat ≤ h.capacityFrames.toNat

def ReaderSees (h : Header) : ReaderPc → Prop
  | .idle | .regulating .. | .reading .. | .seeking _ => True
  | .measuring _ _ _ _ readPos | .counting _ _ _ readPos => readPos = h.readPos
  | .dropping _ _ readPos drop => readPos = h.readPos ∧ drop.toNat ≤ fill h
  | .copying _ _ readPos count _ => readPos = h.readPos ∧ count.toNat ≤ fill h
  | .aiming _ writePos => (writePos - h.readPos).toNat ≤ fill h
  | .jumping writePos newFill =>
    newFill.toNat ≤ (writePos - h.readPos).toNat ∧ (writePos - h.readPos).toNat ≤ fill h

structure Within (s : Threads α) : Prop where
  sound : Sound s.ring.header
  writer : WriterSees s.ring.header s.writer
  reader : ReaderSees s.ring.header s.reader

theorem writerUndisturbed {h h' : Header} {pc : WriterPc α} (sees : WriterSees h pc)
    (capacityFrames : h'.capacityFrames = h.capacityFrames) (writePos : h'.writePos = h.writePos)
    (less : fill h' ≤ fill h) : WriterSees h' pc := by
  cases pc with
  | idle => trivial
  | checking channels frames w r =>
    refine ⟨fun v seen => by rw [writePos]; exact sees.1 v seen,?_⟩
    intro v seen
    rw [writePos, capacityFrames]
    exact ⟨less.trans (sees.2 v seen).1,(sees.2 v seen).2⟩
  | admitted channels frames =>
    simp only [WriterSees, capacityFrames] at *
    omega
  | copying channels frames w pending =>
    simp only [WriterSees, capacityFrames, writePos] at *
    exact ⟨sees.1,by omega⟩

theorem readerUndisturbed {h h' : Header} {pc : ReaderPc} (sees : ReaderSees h pc)
    (readPos : h'.readPos = h.readPos) (more : fill h ≤ fill h') : ReaderSees h' pc := by
  cases pc with
  | idle | regulating | reading | seeking => trivial
  | measuring | counting =>
    simp only [ReaderSees, readPos] at *
    exact sees
  | dropping | copying | jumping =>
    simp only [ReaderSees, readPos] at *
    exact ⟨sees.1,sees.2.trans more⟩
  | aiming =>
    simp only [ReaderSees, readPos] at *
    exact sees.trans more

theorem readerStores {s : Threads α} (within : Within s) {ring : SharedRing α} {pc : ReaderPc}
    (capacityFrames : ring.header.capacityFrames = s.ring.header.capacityFrames)
    (writePos : ring.header.writePos = s.ring.header.writePos)
    (less : fill ring.header ≤ fill s.ring.header) (sees : ReaderSees ring.header pc) :
    Within {s with ring, reader := pc} := by
  refine ⟨⟨?_,?_⟩,writerUndisturbed within.writer capacityFrames writePos less,sees⟩
  · simp only [capacityFrames]
    exact within.sound.positive
  · simp only [capacityFrames]
    exact less.trans within.sound.bounded

theorem checkFinds {h : Header} (sound : Sound h) {channels : Nat → Nat → α} {frames : UInt32} {w r : UInt64}
    (sees : WriterSees h (.checking channels frames (some w) (some r)))
    (fits : ¬ sharedAudioWritableFrames {h with writePos := w, readPos := r} < frames) :
    fill h + frames.toNat ≤ h.capacityFrames.toNat := by
  obtain rfl := sees.1 w rfl
  obtain ⟨stale,near⟩ := sees.2 r rfl
  have seen : Sound {h with readPos := r} := ⟨sound.positive,near⟩
  rw [UInt32.lt_iff_toNat_lt, writableToNat seen] at fits
  have room : frames.toNat ≤ h.capacityFrames.toNat - (h.writePos - r).toNat := Nat.not_lt.mp fits
  omega

theorem writerWithin {s next : Threads α} (within : Within s) {choice : Nat}
    (taken : stepWriter s choice = some next) : Within next := by
  have sound := within.sound
  have sees := within.writer
  have current : fill s.ring.header ≤ (s.ring.header.writePos - s.ring.header.readPos).toNat ∧
      (s.ring.header.writePos - s.ring.header.readPos).toNat ≤ s.ring.header.capacityFrames.toNat :=
    ⟨Nat.le_refl _,sound.bounded⟩
  cases here : s.writer with
  | idle => simp [stepWriter, here] at taken
  | checking channels frames w r =>
    rw [here] at sees
    cases w <;> cases r <;> simp only [stepWriter, here] at taken
    case none.none =>
      split at taken <;> cases Option.some.inj taken
      · exact ⟨sound,⟨fun v eq => (Option.some.inj eq).symm,nofun⟩,within.reader⟩
      · exact ⟨sound,⟨nofun,fun v eq => Option.some.inj eq ▸ current⟩,within.reader⟩
    case none.some =>
      cases Option.some.inj taken
      exact ⟨sound,⟨fun v eq => (Option.some.inj eq).symm,sees.2⟩,within.reader⟩
    case some.none =>
      cases Option.some.inj taken
      exact ⟨sound,⟨sees.1,fun v eq => Option.some.inj eq ▸ current⟩,within.reader⟩
    case some.some =>
      split at taken <;> cases Option.some.inj taken
      · exact ⟨⟨sound.positive,sound.bounded⟩,trivial,readerUndisturbed within.reader rfl (Nat.le_refl _)⟩
      · rename_i fits
        exact ⟨sound,checkFinds sound sees fits,within.reader⟩
  | admitted channels frames =>
    rw [here] at sees
    simp only [stepWriter, here] at taken
    cases Option.some.inj taken
    exact ⟨sound,⟨rfl,sees⟩,within.reader⟩
  | copying channels frames writePos pending =>
    rw [here] at sees
    obtain ⟨rfl,room⟩ := sees
    simp only [stepWriter, here] at taken
    split at taken
    · cases Option.some.inj taken
      have small := s.ring.header.capacityFrames.toNat_lt
      have given := distanceGive (w := s.ring.header.writePos) (r := s.ring.header.readPos)
        (k := frames.toUInt64) (by rw [UInt32.toNat_toUInt64]; unfold fill at room; omega)
      rw [UInt32.toNat_toUInt64] at given
      have grown : fill {s.ring.header with writePos := s.ring.header.writePos + frames.toUInt64} =
          fill s.ring.header + frames.toNat := given
      refine ⟨⟨sound.positive,?_⟩,trivial,readerUndisturbed within.reader rfl ?_⟩
      · exact grown ▸ room
      · rw [grown]
        exact Nat.le_add_right _ _
    · obtain ⟨⟨copy,rest⟩,chosen,rfl⟩ := Option.map_eq_some_iff.mp taken
      exact ⟨sound,⟨rfl,room⟩,within.reader⟩

theorem regulateSees {h : Header} (sound : Sound h) (outChannels : UInt16) (frames targetFill tolerance : UInt32) :
    ReaderSees h (regulate outChannels frames targetFill tolerance h.readPos (h.writePos - h.readPos)) := by
  unfold regulate
  split
  · rename_i full
    rw [tooFullIff] at full
    refine ⟨rfl,?_⟩
    rw [excessCorrection sound (by omega)]
    omega
  · split <;> exact trivial

theorem newFillLe {distance : UInt64} (small : distance.toNat < 2 ^ 32) (targetFill : UInt32) :
    (if distance < targetFill.toUInt64 then distance.toUInt32 else targetFill).toNat ≤ distance.toNat := by
  split <;> rename_i less <;>
    simp only [UInt64.lt_iff_toNat_lt, UInt64.toNat_toUInt32, UInt32.toNat_toUInt64] at * <;> omega

theorem takesLess {h : Header} {k : UInt64} (le : k.toNat ≤ fill h) :
    (h.writePos - (h.readPos + k)).toNat ≤ fill h := by
  rw [distanceTake le]
  exact Nat.sub_le _ _

theorem readerWithin {s next : Threads α} (within : Within s) {choice : Nat}
    (taken : stepReader s choice = some next) : Within next := by
  have sound := within.sound
  have sees := within.reader
  have bounded := sound.bounded
  have small := s.ring.header.capacityFrames.toNat_lt
  cases here : s.reader with
  | idle => simp [stepReader, here] at taken
  | regulating outChannels frames targetFill tolerance =>
    simp only [stepReader, here] at taken
    cases Option.some.inj taken
    exact ⟨sound,within.writer,rfl⟩
  | measuring outChannels frames targetFill tolerance readPos =>
    rw [here] at sees
    obtain rfl := sees
    simp only [stepReader, here] at taken
    cases Option.some.inj taken
    exact ⟨sound,within.writer,regulateSees sound outChannels frames targetFill tolerance⟩
  | dropping outChannels frames readPos drop =>
    rw [here] at sees
    obtain ⟨rfl,le⟩ := sees
    simp only [stepReader, here] at taken
    cases Option.some.inj taken
    exact readerStores within rfl rfl (takesLess (by rw [UInt32.toNat_toUInt64]; exact le)) trivial
  | reading shape frames insert =>
    simp only [stepReader, here] at taken
    cases Option.some.inj taken
    exact ⟨sound,within.writer,rfl⟩
  | counting shape frames insert readPos =>
    rw [here] at sees
    obtain rfl := sees
    simp only [stepReader, here] at taken
    cases Option.some.inj taken
    have count := toReadToNat sound frames
    exact ⟨sound,within.writer,rfl,by rw [count]; exact Nat.min_le_left _ _⟩
  | copying frames insert readPos count pending =>
    rw [here] at sees
    obtain ⟨rfl,le⟩ := sees
    simp only [stepReader, here] at taken
    split at taken
    · cases Option.some.inj taken
      exact readerStores within rfl rfl (takesLess (by rw [UInt32.toNat_toUInt64]; exact le)) trivial
    · obtain ⟨⟨copy,rest⟩,chosen,rfl⟩ := Option.map_eq_some_iff.mp taken
      exact ⟨sound,within.writer,rfl,le⟩
  | seeking targetFill =>
    simp only [stepReader, here] at taken
    cases Option.some.inj taken
    exact ⟨sound,within.writer,Nat.le_refl _⟩
  | aiming targetFill writePos =>
    rw [here] at sees
    simp only [ReaderSees] at sees
    simp only [stepReader, here] at taken
    cases Option.some.inj taken
    exact ⟨sound,within.writer,newFillLe (by omega) targetFill,sees⟩
  | jumping writePos newFill =>
    rw [here] at sees
    obtain ⟨low,high⟩ := sees
    simp only [stepReader, here] at taken
    cases Option.some.inj taken
    refine readerStores within rfl rfl ?_ trivial
    unfold fill at *
    simp only [UInt64.toNat_sub, UInt32.toNat_toUInt64] at *
    have := s.ring.header.writePos.toNat_lt
    have := s.ring.header.readPos.toNat_lt
    have := writePos.toNat_lt
    omega

theorem stepWithin {s next : Threads α} (within : Within s) {label : Label α}
    (taken : step s label = some next) : Within next := by
  cases label with
  | write channels frames =>
    obtain ⟨_,rfl⟩ := writeEnters taken
    exact ⟨within.sound,⟨nofun,nofun⟩,within.reader⟩
  | read call =>
    obtain ⟨_,rfl⟩ := readEnters taken
    refine ⟨within.sound,within.writer,?_⟩
    cases call <;> exact trivial
  | writer choice => exact writerWithin within taken
  | reader choice => exact readerWithin within taken

theorem startWithin [Zero α] (sampleRate : UInt32) (channels : UInt16) {capacity : UInt32}
    (positive : 0 < capacity.toNat) : Within (start (sharedAudioCreate (α := α) sampleRate channels capacity)) :=
  ⟨⟨positive,by simp [fill, sharedAudioCreate, start]⟩,trivial,trivial⟩

end ReacJack.FillBounds
