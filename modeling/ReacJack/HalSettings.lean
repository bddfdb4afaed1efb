import ReacJack.HalObjectModel

/-! Setting properties of the HAL plug-in. Nothing can really be changed: the device has one
sample rate and the stream one format, and a host that sets them must bring these. -/
namespace ReacJack.HalSettings
open BufferLoops BufferedRecords HalDriver HalProperties HalObjectModel
open HalPlugin (kObjectIDDevice)

inductive SetStatus where
  | ok
  | badObject
  | unknownProperty
  | badPropertySize
  | unsupportedFormat
  deriving DecidableEq, Repr

def magnitude (bits : UInt64) : UInt64 := bits &&& 0x7FFFFFFFFFFFFFFF

def isNan (bits : UInt64) : Bool := 0x7FF0000000000000 < magnitude bits

/-- `==`: a NaN equals nothing, and zero has two signs. -/
def float64Equal (a b : UInt64) : Bool :=
  !isNan a && !isNan b && (a = b || (magnitude a = 0 && magnitude b = 0))

def loadUint32 (data : Buffer) (offset : Nat) : UInt32 := UInt32.ofNat (load 4 data offset)

def loadUint64 (data : Buffer) (offset : Nat) : UInt64 := UInt64.ofNat (load 8 data offset)

def loadFormat (data : Buffer) : AudioStreamBasicDescription where
  mSampleRate := loadUint64 data 0
  mFormatID := loadUint32 data 8
  mFormatFlags := loadUint32 data 12
  mBytesPerPacket := loadUint32 data 16
  mFramesPerPacket := loadUint32 data 20
  mBytesPerFrame := loadUint32 data 24
  mChannelsPerFrame := loadUint32 data 28
  mBitsPerChannel := loadUint32 data 32
  mReserved := loadUint32 data 36

def formatsEqual (a b : AudioStreamBasicDescription) : Bool :=
  float64Equal a.mSampleRate b.mSampleRate && a.mFormatID = b.mFormatID && a.mFormatFlags = b.mFormatFlags &&
  a.mBytesPerPacket = b.mBytesPerPacket && a.mFramesPerPacket = b.mFramesPerPacket &&
  a.mBytesPerFrame = b.mBytesPerFrame && a.mChannelsPerFrame = b.mChannelsPerFrame &&
  a.mBitsPerChannel = b.mBitsPerChannel

def isPropertySettable (inDriver : Bool) (inObjectID : UInt32) (inAddress : Option AudioObjectPropertyAddress)
    (outIsSettable : Option Bool) : HalProperties.Status × Option Bool :=
  match inDriver, inAddress, outIsSettable with
  | true, some address, some _ =>
    if hasProperty inDriver inObjectID inAddress = false then (.unknownProperty,outIsSettable)
    else
      let settable := false
      let settable :=
        if inObjectID = kObjectIDDevice ∧ address.mSelector = kAudioDevicePropertyNominalSampleRate then true
        else settable
      let settable :=
        if inObjectID = kObjectIDStreamInput ∧ (address.mSelector = kAudioStreamPropertyVirtualFormat ∨
          address.mSelector = kAudioStreamPropertyPhysicalFormat) then true
        else settable
      (.ok,some settable)
  | _, _, _ => (.badObject,outIsSettable)

def setPropertyData (inDriver : Bool) (inObjectID : UInt32) (inAddress : Option AudioObjectPropertyAddress)
    (inDataSize : UInt32) (inData : Option Buffer) : SetStatus :=
  match inDriver, inAddress, inData with
  | true, some address, some data =>
    if inObjectID = kObjectIDDevice ∧ address.mSelector = kAudioDevicePropertyNominalSampleRate then
      if inDataSize ≠ sizeofFloat64 then .badPropertySize
      else if float64Equal (loadUint64 data 0) sampleRateBits then .ok
      else .unsupportedFormat
    else if inObjectID = kObjectIDStreamInput ∧ (address.mSelector = kAudioStreamPropertyVirtualFormat ∨
        address.mSelector = kAudioStreamPropertyPhysicalFormat) then
      if inDataSize ≠ sizeofAudioStreamBasicDescription then .badPropertySize
      else
        let requested := loadFormat data
        let supported := deviceStreamFormat
        if formatsEqual requested supported then .ok else .unsupportedFormat
    else .unknownProperty
  | _, _, _ => .badObject

theorem float64EqualRate (bits : UInt64) : float64Equal bits sampleRateBits = true ↔ bits = sampleRateBits := by
  constructor
  · intro equal
    simp only [float64Equal, Bool.and_eq_true, Bool.or_eq_true, decide_eq_true_eq] at equal
    rcases equal.2 with same | ⟨_,zero⟩
    · exact same
    · exact absurd zero (by decide)
  · rintro rfl
    decide

theorem loadUint32Holds {data : Buffer} {offset : Nat} {value : UInt32} :
    loadUint32 data offset = value ↔ Holds data offset (uint32Bytes value) := by
  have bound : load 4 data offset < 2 ^ 32 := loadLt 4 data offset
  have small : value.toNat < 256 ^ 4 := value.toNat_lt
  rw [uint32Bytes, ← loadHolds small, loadUint32, ← UInt32.toNat_inj, UInt32.toNat_ofNat_of_lt' bound]

theorem loadUint64Holds {data : Buffer} {offset : Nat} {value : UInt64} :
    loadUint64 data offset = value ↔ Holds data offset (uint64Bytes value) := by
  have bound : load 8 data offset < 2 ^ 64 := loadLt 8 data offset
  have small : value.toNat < 256 ^ 8 := value.toNat_lt
  rw [uint64Bytes, ← loadHolds small, loadUint64, ← UInt64.toNat_inj, UInt64.toNat_ofNat_of_lt' bound]

def comparedBytes (format : AudioStreamBasicDescription) : List UInt8 :=
  uint64Bytes format.mSampleRate ++ uint32Bytes format.mFormatID ++ uint32Bytes format.mFormatFlags ++
  uint32Bytes format.mBytesPerPacket ++ uint32Bytes format.mFramesPerPacket ++
  uint32Bytes format.mBytesPerFrame ++ uint32Bytes format.mChannelsPerFrame ++
  uint32Bytes format.mBitsPerChannel

theorem formatEqualHolds {data : Buffer} :
    formatsEqual (loadFormat data) deviceStreamFormat = true ↔ Holds data 0 (comparedBytes deviceStreamFormat) := by
  have rate : float64Equal (loadUint64 data 0) deviceStreamFormat.mSampleRate = true ↔
      Holds data 0 (uint64Bytes deviceStreamFormat.mSampleRate) := (float64EqualRate _).trans loadUint64Holds
  simp only [comparedBytes, holdsAppend, List.length_append, uint32Bytes, uint64Bytes, littleEndianLength,
    formatsEqual, Bool.and_eq_true, decide_eq_true_eq]
  simp only [loadFormat, rate, loadUint32Holds]
  rfl

def Settable (inObjectID : UInt32) (address : AudioObjectPropertyAddress) : Prop :=
  inObjectID = kObjectIDDevice ∧ address.mSelector = kAudioDevicePropertyNominalSampleRate ∨
    inObjectID = kObjectIDStreamInput ∧ (address.mSelector = kAudioStreamPropertyVirtualFormat ∨
      address.mSelector = kAudioStreamPropertyPhysicalFormat)

theorem settableHas {inObjectID : UInt32} {address : AudioObjectPropertyAddress}
    (settable : Settable inObjectID address) :
    hasProperty true inObjectID (some address) = true := by
  rcases settable with ⟨rfl,rate⟩ | ⟨rfl,virtual | physical⟩
  · refine (deviceHas address).mpr (.inl ?_)
    rw [rate]
    decide
  · refine (streamHas address).mpr ?_
    rw [virtual]
    decide
  · refine (streamHas address).mpr ?_
    rw [physical]
    decide

theorem saysSettable (inObjectID : UInt32) (address : AudioObjectPropertyAddress) (old : Bool) :
    isPropertySettable true inObjectID (some address) (some old) = (.ok,some true) ↔ Settable inObjectID address := by
  constructor
  · intro said
    by_contra never
    simp only [Settable, not_or] at never
    simp only [isPropertySettable, never, if_false] at said
    split at said <;> cases said
  · intro settable
    have there : ¬ hasProperty true inObjectID (some address) = false := by
      rw [settableHas settable]
      decide
    simp only [isPropertySettable, if_neg there]
    rcases settable with ⟨rfl,rate⟩ | stream
    · have device : kObjectIDDevice = kObjectIDDevice ∧ address.mSelector = kAudioDevicePropertyNominalSampleRate :=
        ⟨rfl,rate⟩
      simp only [device, and_self, if_true]
      split <;> rfl
    · rw [if_pos stream]

def Wants (inObjectID : UInt32) (address : AudioObjectPropertyAddress) (size : UInt32) (content : List UInt8) : Prop :=
  ∀ inDataSize data, setPropertyData true inObjectID (some address) inDataSize (some data) =
    if inDataSize ≠ size then .badPropertySize
    else if Holds data 0 content then .ok
    else .unsupportedFormat

theorem wantsRate {address : AudioObjectPropertyAddress}
    (rate : address.mSelector = kAudioDevicePropertyNominalSampleRate) :
    Wants kObjectIDDevice address sizeofFloat64 (uint64Bytes sampleRateBits) := by
  intro inDataSize data
  simp only [setPropertyData, rate, true_and, if_true, float64EqualRate, loadUint64Holds]

theorem wantsFormat {address : AudioObjectPropertyAddress}
    (format : address.mSelector = kAudioStreamPropertyVirtualFormat ∨
      address.mSelector = kAudioStreamPropertyPhysicalFormat) :
    Wants kObjectIDStreamInput address sizeofAudioStreamBasicDescription (comparedBytes deviceStreamFormat) := by
  intro inDataSize data
  have other : ¬ (kObjectIDStreamInput = kObjectIDDevice ∧
      address.mSelector = kAudioDevicePropertyNominalSampleRate) := fun both => absurd both.1 (by decide)
  simp only [setPropertyData, if_neg other, format, and_self, if_true, formatEqualHolds]

theorem wantsNothing {inObjectID : UInt32} {address : AudioObjectPropertyAddress}
    (never : ¬ Settable inObjectID address) (inDataSize : UInt32) (data : Buffer) :
    setPropertyData true inObjectID (some address) inDataSize (some data) = .unknownProperty := by
  simp only [Settable, not_or] at never
  simp only [setPropertyData, never, if_false]

def Reads (cf : CoreFoundation) (d : Driver) (inObjectID : UInt32) (address : AudioObjectPropertyAddress)
    (size : UInt32) (content : List UInt8) : Prop :=
  ∀ inQualifierDataSize inQualifierData inDataSize outDataSize outData, size ≤ inDataSize → ∃ after,
    getPropertyData cf d true inObjectID (some address) inQualifierDataSize inQualifierData inDataSize
      (some outDataSize) (some outData) = (.ok,some size,some after) ∧ Holds after 0 content

theorem readsAnswered {cf : CoreFoundation} {d : Driver} {inObjectID : UInt32} {address : AudioObjectPropertyAddress}
    {size : UInt32} {content : List UInt8}
    (answered : ∀ inQualifierDataSize inQualifierData inDataSize outDataSize outData,
      objectPropertyData cf d inObjectID address inQualifierDataSize inQualifierData inDataSize outDataSize outData =
        if inDataSize < size then (.badPropertySize,outDataSize,outData)
        else (.ok,size,storeBytes outData 0 content)) : Reads cf d inObjectID address size content := by
  intro inQualifierDataSize inQualifierData inDataSize outDataSize outData fits
  refine ⟨storeBytes outData 0 content,?_,holdsStored outData 0 _⟩
  have large : ¬ inDataSize < size := UInt32.not_lt.mpr fits
  simp only [getPropertyData, answered, if_neg large]

theorem readsRate (cf : CoreFoundation) (d : Driver) {address : AudioObjectPropertyAddress}
    (rate : address.mSelector = kAudioDevicePropertyNominalSampleRate) :
    Reads cf d kObjectIDDevice address sizeofFloat64 (uint64Bytes sampleRateBits) := by
  apply readsAnswered
  intro inQualifierDataSize inQualifierData inDataSize outDataSize outData
  obtain ⟨selector,scope,element⟩ := address
  subst rate
  rfl

theorem readsFormat (cf : CoreFoundation) (d : Driver) {address : AudioObjectPropertyAddress}
    (format : address.mSelector = kAudioStreamPropertyVirtualFormat ∨
      address.mSelector = kAudioStreamPropertyPhysicalFormat) :
    Reads cf d kObjectIDStreamInput address sizeofAudioStreamBasicDescription (formatBytes deviceStreamFormat) := by
  apply readsAnswered
  intro inQualifierDataSize inQualifierData inDataSize outDataSize outData
  obtain ⟨selector,scope,element⟩ := address
  rcases format with virtual | physical
  · subst virtual
    rfl
  · subst physical
    rfl

theorem settableReads (cf : CoreFoundation) (d : Driver) {inObjectID : UInt32} {address : AudioObjectPropertyAddress}
    (settable : Settable inObjectID address) : ∃ (size : UInt32) (content : List UInt8),
      content.length = min size.toNat 36 ∧ Wants inObjectID address size content ∧
      Reads cf d inObjectID address size content := by
  rcases settable with ⟨rfl,rate⟩ | ⟨rfl,format⟩
  · exact ⟨_,_,rfl,wantsRate rate,readsRate cf d rate⟩
  · refine ⟨_,_,rfl,wantsFormat format,?_⟩
    intro inQualifierDataSize inQualifierData inDataSize outDataSize outData fits
    obtain ⟨after,answered,holds⟩ :=
      readsFormat cf d format inQualifierDataSize inQualifierData inDataSize outDataSize outData fits
    have parts : formatBytes deviceStreamFormat =
        comparedBytes deviceStreamFormat ++ uint32Bytes deviceStreamFormat.mReserved := rfl
    rw [parts, holdsAppend] at holds
    exact ⟨after,answered,holds.1⟩

/-- The host is told what it may set, and it may set what it has read and nothing else.
Of a format the last field, `mReserved`, makes no difference. -/
theorem settableIsRead (cf : CoreFoundation) (d : Driver) (inObjectID : UInt32) (address : AudioObjectPropertyAddress) :
    (∀ old, isPropertySettable true inObjectID (some address) (some old) = (.ok,some true) ↔
      ∃ inDataSize data, setPropertyData true inObjectID (some address) inDataSize (some data) = .ok) ∧
    (∀ old, isPropertySettable true inObjectID (some address) (some old) ≠ (.ok,some true) →
      ∀ inDataSize data,
        setPropertyData true inObjectID (some address) inDataSize (some data) = .unknownProperty) ∧
    (∀ old, isPropertySettable true inObjectID (some address) (some old) = (.ok,some true) → ∃ size,
      ∀ inQualifierDataSize inQualifierData inDataSize outDataSize outData, size ≤ inDataSize → ∃ after,
        getPropertyData cf d true inObjectID (some address) inQualifierDataSize inQualifierData inDataSize
          (some outDataSize) (some outData) = (.ok,some size,some after) ∧
        ∀ newSize data, setPropertyData true inObjectID (some address) newSize (some data) =
          if newSize ≠ size then .badPropertySize
          else if ∀ i < min size.toNat 36, data i = after i then .ok
          else .unsupportedFormat) := by
  simp only [saysSettable, ne_eq]
  refine ⟨fun _ => ⟨?_,?_⟩,fun _ => wantsNothing,fun _ settable => ?_⟩
  · intro settable
    obtain ⟨size,content,_,wants,reads⟩ := settableReads cf d settable
    obtain ⟨after,_,holds⟩ := reads 0 none size 0 (fun _ => 0) (UInt32.le_refl size)
    refine ⟨size,after,?_⟩
    rw [wants, if_neg (not_not.mpr rfl), if_pos holds]
  · rintro ⟨inDataSize,data,accepted⟩
    by_contra never
    rw [wantsNothing never] at accepted
    contradiction
  · obtain ⟨size,content,length,wants,reads⟩ := settableReads cf d settable
    refine ⟨size,fun inQualifierDataSize inQualifierData inDataSize outDataSize outData fits => ?_⟩
    obtain ⟨after,answered,holds⟩ := reads inQualifierDataSize inQualifierData inDataSize outDataSize outData fits
    refine ⟨after,answered,fun newSize data => ?_⟩
    have same : Holds data 0 content ↔ ∀ i < min size.toNat 36, data i = after i := by
      rw [holdsBeside holds, length]
      simp only [Nat.zero_add]
    rw [wants]
    simp only [same]

end ReacJack.HalSettings
