import ReacJack.SharedMapping
import ReacJack.SharedAudioSpec

/-! The size check of `shared_audio_open` is made in 64-bit arithmetic with two
32-bit fields of a header nobody vouches for: their product with the sample size
can pass 2^64 and come back small. -/
namespace ReacJack.SharedMapping
open SharedAudio (Header)
open ObjectNames BufferLoops

theorem samplesOffsetToNat : samplesOffset.toNat = 128 := by decide

def neededBytes (channels capacityFrames : Nat) : Nat := 128 + channels * capacityFrames * 4

theorem mappingBytesToNat (channels capacityFrames : UInt32) :
    (mappingBytes channels capacityFrames).toNat = neededBytes channels.toNat capacityFrames.toNat % 2 ^ 64 := by
  have product : channels.toNat * capacityFrames.toNat < 2 ^ 32 * 2 ^ 32 :=
    Nat.mul_lt_mul'' channels.toNat_lt capacityFrames.toNat_lt
  have four : (4 : UInt64).toNat = 4 := rfl
  simp only [mappingBytes, neededBytes, UInt64.toNat_add, UInt64.toNat_mul, UInt32.toNat_toUInt64,
    samplesOffsetToNat, four]
  omega

structure Found (shm : Shm) (name : Name) (calls : OpenCalls) (object : Nat) : Prop where
  slash : name.head? = some 47
  short : name.length < nameMax
  opened : calls = ⟨true,true,true⟩
  refers : shm.refers name = some object
  header : headerBytes.toNat ≤ (shm.objects object).size.toNat

def mappedHandle (name : Name) (object : Nat) (size : UInt64) : Handle :=
  {header := some object, samples := some samplesOffset, mappedBytes := size, owner := 0, name}

theorem initHandleValid {name : Name} (slash : name.head? = some 47) (short : name.length < nameMax) :
    initHandle name = some {header := none, samples := none, mappedBytes := 0, owner := 0, name} := by
  rw [initHandle, if_neg]
  rintro (other | long)
  · exact other slash
  · omega

theorem openFound {shm : Shm} {name : Name} {calls : OpenCalls} {object : Nat} (audio : Handle)
    (found : Found shm name calls object) : sharedAudioOpen audio shm name calls =
      if headerAccepted (shm.objects object).header (shm.objects object).size then
        (0, mappedHandle name object (shm.objects object).size)
      else (-1, sharedAudioClose (mappedHandle name object (shm.objects object).size)) := by
  have big : ¬ (shm.objects object).size < headerBytes.toUInt64 := by
    rw [UInt64.lt_iff_toNat_lt, UInt32.toNat_toUInt64]
    exact Nat.not_lt.mpr found.header
  have calls := found.opened
  subst calls
  simp only [sharedAudioOpen, initHandleValid found.slash found.short, found.refers, if_true, big, mapShared,
    Bool.not_true, Bool.false_or, decide_false, if_false, Bool.false_eq_true]
  rfl

theorem initHandleName {name : Name} {audio : Handle} (h : initHandle name = some audio) :
    name.head? = some 47 ∧ name.length < nameMax := by
  unfold initHandle at h
  split at h
  · cases h
  · rename_i valid
    simp only [not_or, Decidable.not_not] at valid
    exact ⟨valid.1,by omega⟩

theorem openNotFound {shm : Shm} {name : Name} {calls : OpenCalls} (audio : Handle)
    (missing : ∀ object, ¬ Found shm name calls object) : (sharedAudioOpen audio shm name calls).1 = -1 := by
  unfold sharedAudioOpen
  split
  · rfl
  · rename_i valid
    obtain ⟨slash,short⟩ := initHandleName valid
    split
    · rfl
    · rename_i object opened
      cases called : calls.shmOpen with
      | false => simp [called] at opened
      | true =>
        rw [called, if_pos rfl] at opened
        simp only
        split
        · rfl
        · rename_i big
          simp only [Bool.or_eq_true, Bool.not_eq_true', decide_eq_true_eq, not_or, Bool.not_eq_false,
            UInt64.lt_iff_toNat_lt, UInt32.toNat_toUInt64] at big
          split
          · rfl
          · rename_i mapped
            cases maps : calls.mmap with
            | false => simp [mapShared, maps] at mapped
            | true =>
              refine absurd ⟨slash,short,?_,opened,by omega⟩ (missing object)
              cases calls
              simp only at called maps big
              rw [called, maps, big.1]

structure Accepted (header : Header) (size : Nat) : Prop where
  magic : header.magic = magic
  abiVersion : header.abiVersion = abiVersion
  headerBytes : header.headerBytes = headerBytes
  channels : 0 < header.channels.toNat
  capacity : 0 < header.capacityFrames.toNat
  covered : neededBytes header.channels.toNat header.capacityFrames.toNat % 2 ^ 64 ≤ size

theorem headerAcceptedIff (header : Header) (size : UInt64) :
    headerAccepted header size = true ↔ Accepted header size.toNat := by
  have nonzero : ∀ n : UInt32, n ≠ 0 ↔ 0 < n.toNat := by
    intro n
    rw [Ne, ← UInt32.toNat_inj, UInt32.toNat_zero]
    omega
  simp only [headerAccepted, Bool.and_eq_true, decide_eq_true_eq, nonzero, UInt64.le_iff_toNat_le,
    mappingBytesToNat]
  constructor
  · rintro ⟨⟨⟨⟨⟨magic,abi⟩,bytes⟩,channels⟩,capacity⟩,covered⟩
    exact ⟨magic,abi,bytes,channels,capacity,covered⟩
  · intro accepted
    exact ⟨⟨⟨⟨⟨accepted.magic,accepted.abiVersion⟩,accepted.headerBytes⟩,accepted.channels⟩,
      accepted.capacity⟩,accepted.covered⟩

theorem openZeroIff (audio : Handle) (shm : Shm) (name : Name) (calls : OpenCalls) :
    (sharedAudioOpen audio shm name calls).1 = 0 ↔
      ∃ object, Found shm name calls object ∧
        Accepted (shm.objects object).header (shm.objects object).size.toNat := by
  constructor
  · intro zero
    by_contra none
    by_cases some : ∃ object, Found shm name calls object
    · obtain ⟨object,found⟩ := some
      have rejected : ¬ headerAccepted (shm.objects object).header (shm.objects object).size = true := by
        rw [headerAcceptedIff]
        exact fun accepted => none ⟨object,found,accepted⟩
      rw [openFound audio found, if_neg rejected] at zero
      simp at zero
    · rw [openNotFound audio (not_exists.mp some)] at zero
      omega
  · rintro ⟨object,found,accepted⟩
    rw [openFound audio found, if_pos ((headerAcceptedIff _ _).mpr accepted)]

def SamplesInside (shm : Shm) (audio : Handle) : Prop :=
  ∃ object, audio.header = some object ∧
    ∀ c < (shm.objects object).header.channels.toNat, ∀ f < (shm.objects object).header.capacityFrames.toNat,
      samplesOffset.toNat + (c * (shm.objects object).header.capacityFrames.toNat + f) * 4 + 4 ≤
        audio.mappedBytes.toNat

def WrapsUnnoticed (shm : Shm) (name : Name) (calls : OpenCalls) : Prop :=
  ∃ object, Found shm name calls object ∧
    Accepted (shm.objects object).header (shm.objects object).size.toNat ∧
    2 ^ 64 ≤ neededBytes (shm.objects object).header.channels.toNat
      (shm.objects object).header.capacityFrames.toNat

theorem insideIff {channels capacity size : Nat} (some : 0 < channels) (positive : 0 < capacity) :
    (∀ c < channels, ∀ f < capacity, samplesOffset.toNat + (c * capacity + f) * 4 + 4 ≤ size) ↔
      neededBytes channels capacity ≤ size := by
  rw [samplesOffsetToNat]
  unfold neededBytes
  constructor
  · intro inside
    have last := inside (channels - 1) (by omega) (capacity - 1) (by omega)
    have row : (channels - 1) * capacity + capacity = channels * capacity := by
      rw [← Nat.succ_mul, Nat.succ_eq_add_one, Nat.sub_add_cancel some]
    omega
  · intro needed c channel f frame
    have cell := cellBound channel frame
    omega

theorem insideOfAccepted {shm : Shm} {name : Name} {calls : OpenCalls} {object : Nat} (audio : Handle)
    (found : Found shm name calls object)
    (accepted : Accepted (shm.objects object).header (shm.objects object).size.toNat) :
    SamplesInside shm (sharedAudioOpen audio shm name calls).2 ↔
      neededBytes (shm.objects object).header.channels.toNat (shm.objects object).header.capacityFrames.toNat ≤
        (shm.objects object).size.toNat := by
  rw [openFound audio found, if_pos ((headerAcceptedIff _ _).mpr accepted),
    ← insideIff accepted.channels accepted.capacity]
  constructor
  · rintro ⟨mapped,same,inside⟩
    cases Option.some.inj same
    exact inside
  · exact fun inside => ⟨object,rfl,inside⟩

/-- An accepted header keeps its samples inside the mapping unless its size wraps. -/
theorem acceptedSamplesInside (audio : Handle) (shm : Shm) (name : Name) (calls : OpenCalls) :
    ((sharedAudioOpen audio shm name calls).1 = 0 → SamplesInside shm (sharedAudioOpen audio shm name calls).2) ↔
      ¬ WrapsUnnoticed shm name calls := by
  constructor
  · rintro inside ⟨object,found,accepted,wraps⟩
    have zero := (openZeroIff audio shm name calls).mpr ⟨object,found,accepted⟩
    have needed := (insideOfAccepted audio found accepted).mp (inside zero)
    have small := (shm.objects object).size.toNat_lt
    omega
  · intro noWrap zero
    obtain ⟨object,found,accepted⟩ := (openZeroIff audio shm name calls).mp zero
    refine (insideOfAccepted audio found accepted).mpr ?_
    have whole : neededBytes (shm.objects object).header.channels.toNat
        (shm.objects object).header.capacityFrames.toNat < 2 ^ 64 := by
      by_contra wraps
      exact noWrap ⟨object,found,accepted,by omega⟩
    have covered := accepted.covered
    rwa [Nat.mod_eq_of_lt whole] at covered

/-- A file of 128 bytes whose header claims 2^31 channels of 2^31 frames. -/
def hugeHeader : Shm :=
  {refers := fun _ => some 0,
   objects := fun _ => ⟨128,{blankHeader with
    magic := magic, abiVersion := abiVersion, headerBytes := headerBytes, sampleRate := 48000,
    channels := 0x80000000, capacityFrames := 0x80000000}⟩,
   next := 1}

theorem hugeHeaderAccepted : ¬ ∀ (audio : Handle) (shm : Shm) (name : Name) (calls : OpenCalls),
    (sharedAudioOpen audio shm name calls).1 = 0 → SamplesInside shm (sharedAudioOpen audio shm name calls).2 := by
  intro inside
  obtain ⟨object,mapped,samples⟩ := inside ⟨none,none,0,0,[]⟩ hugeHeader [47, 114] ⟨true,true,true⟩ (by decide)
  have channels : (hugeHeader.objects object).header.channels.toNat = 2147483648 := rfl
  have capacity : (hugeHeader.objects object).header.capacityFrames.toNat = 2147483648 := rfl
  have bytes : (sharedAudioOpen ⟨none,none,0,0,[]⟩ hugeHeader [47, 114] ⟨true,true,true⟩).2.mappedBytes.toNat = 128 := by
    decide
  have last := samples 1 (by omega) 0 (by omega)
  rw [bytes, capacity] at last
  omega

theorem slotsInside {shm : Shm} {audio : Handle} {object : Nat} (inside : SamplesInside shm audio)
    (mapped : audio.header = some object) (positive : 0 < (shm.objects object).header.capacityFrames.toNat)
    (position : UInt64) {c : Nat} (channel : c < (shm.objects object).header.channels.toNat) :
    samplesOffset.toNat + (c * (shm.objects object).header.capacityFrames.toNat +
      (SharedAudio.ringIndex position (shm.objects object).header.capacityFrames).toNat) * 4 + 4 ≤
        audio.mappedBytes.toNat := by
  obtain ⟨same,found,samples⟩ := inside
  cases Option.some.inj (found.symm.trans mapped)
  refine samples c channel _ ?_
  rw [SharedAudio.indexToNat position positive]
  exact Nat.mod_lt _ positive

end ReacJack.SharedMapping
