import ReacJack.BufferedRecords
import ReacJack.HalPlugin

/-! The property tables of the HAL plug-in. A pointer is what it points to, or `none` where
it is NULL; `outData` is the memory from that pointer on, `inDataSize` bytes of which are the
caller's. Integers and pointers have the sizes and the byte order of a 64-bit little-endian
machine. -/
namespace ReacJack.HalProperties
open BufferLoops BufferedRecords HalDriver
open HalPlugin (kObjectIDDevice)

inductive Status where
  | ok
  | badObject
  | unknownProperty
  | badPropertySize
  deriving DecidableEq, Repr

structure AudioObjectPropertyAddress where
  mSelector : UInt32
  mScope : UInt32
  mElement : UInt32
  deriving DecidableEq, Repr

/-- A `CFStringRef` is an address; a string constant stands for its text. -/
structure CoreFoundation where
  stringCreateCopy : String → UInt64
  stringCompare : UInt64 → String → Int

def fourCharCode (a b c d : Char) : UInt32 :=
  UInt32.ofNat (((a.toNat * 256 + b.toNat) * 256 + c.toNat) * 256 + d.toNat)

def kAudioObjectPropertyScopeGlobal : UInt32 := fourCharCode 'g' 'l' 'o' 'b'
def kAudioObjectPropertyScopeInput : UInt32 := fourCharCode 'i' 'n' 'p' 't'
def kAudioObjectPropertyScopeOutput : UInt32 := fourCharCode 'o' 'u' 't' 'p'

def kAudioObjectPropertyBaseClass : UInt32 := fourCharCode 'b' 'c' 'l' 's'
def kAudioObjectPropertyClass : UInt32 := fourCharCode 'c' 'l' 'a' 's'
def kAudioObjectPropertyOwner : UInt32 := fourCharCode 's' 't' 'd' 'v'
def kAudioObjectPropertyName : UInt32 := fourCharCode 'l' 'n' 'a' 'm'
def kAudioObjectPropertyManufacturer : UInt32 := fourCharCode 'l' 'm' 'a' 'k'
def kAudioObjectPropertyOwnedObjects : UInt32 := fourCharCode 'o' 'w' 'n' 'd'
def kAudioObjectPropertyControlList : UInt32 := fourCharCode 'c' 't' 'r' 'l'

def kAudioPlugInPropertyDeviceList : UInt32 := fourCharCode 'd' 'e' 'v' '#'
def kAudioPlugInPropertyTranslateUIDToDevice : UInt32 := fourCharCode 'u' 'i' 'd' 'd'
def kAudioPlugInPropertyResourceBundle : UInt32 := fourCharCode 'r' 's' 'r' 'c'

def kAudioDevicePropertyDeviceUID : UInt32 := fourCharCode 'u' 'i' 'd' ' '
def kAudioDevicePropertyModelUID : UInt32 := fourCharCode 'm' 'u' 'i' 'd'
def kAudioDevicePropertyTransportType : UInt32 := fourCharCode 't' 'r' 'a' 'n'
def kAudioDevicePropertyRelatedDevices : UInt32 := fourCharCode 'a' 'k' 'i' 'n'
def kAudioDevicePropertyClockDomain : UInt32 := fourCharCode 'c' 'l' 'k' 'd'
def kAudioDevicePropertyDeviceIsAlive : UInt32 := fourCharCode 'l' 'i' 'v' 'n'
def kAudioDevicePropertyDeviceIsRunning : UInt32 := fourCharCode 'g' 'o' 'i' 'n'
def kAudioDevicePropertyDeviceCanBeDefaultDevice : UInt32 := fourCharCode 'd' 'f' 'l' 't'
def kAudioDevicePropertyDeviceCanBeDefaultSystemDevice : UInt32 := fourCharCode 's' 'f' 'l' 't'
def kAudioDevicePropertyLatency : UInt32 := fourCharCode 'l' 't' 'n' 'c'
def kAudioDevicePropertyStreams : UInt32 := fourCharCode 's' 't' 'm' '#'
def kAudioDevicePropertySafetyOffset : UInt32 := fourCharCode 's' 'a' 'f' 't'
def kAudioDevicePropertyNominalSampleRate : UInt32 := fourCharCode 'n' 's' 'r' 't'
def kAudioDevicePropertyAvailableNominalSampleRates : UInt32 := fourCharCode 'n' 's' 'r' '#'
def kAudioDevicePropertyIsHidden : UInt32 := fourCharCode 'h' 'i' 'd' 'n'
def kAudioDevicePropertyZeroTimeStampPeriod : UInt32 := fourCharCode 'r' 'i' 'n' 'g'
def kAudioDevicePropertyPreferredChannelsForStereo : UInt32 := fourCharCode 'd' 'c' 'h' '2'
def kAudioDevicePropertyPreferredChannelLayout : UInt32 := fourCharCode 's' 'r' 'n' 'd'

def kAudioStreamPropertyIsActive : UInt32 := fourCharCode 's' 'a' 'c' 't'
def kAudioStreamPropertyDirection : UInt32 := fourCharCode 's' 'd' 'i' 'r'
def kAudioStreamPropertyTerminalType : UInt32 := fourCharCode 't' 'e' 'r' 'm'
def kAudioStreamPropertyStartingChannel : UInt32 := fourCharCode 's' 'c' 'h' 'n'
def kAudioStreamPropertyLatency : UInt32 := kAudioDevicePropertyLatency
def kAudioStreamPropertyVirtualFormat : UInt32 := fourCharCode 's' 'f' 'm' 't'
def kAudioStreamPropertyPhysicalFormat : UInt32 := fourCharCode 'p' 'f' 't' ' '
def kAudioStreamPropertyAvailableVirtualFormats : UInt32 := fourCharCode 's' 'f' 'm' 'a'
def kAudioStreamPropertyAvailablePhysicalFormats : UInt32 := fourCharCode 'p' 'f' 't' 'a'

def kAudioObjectClassID : UInt32 := fourCharCode 'a' 'o' 'b' 'j'
def kAudioPlugInClassID : UInt32 := fourCharCode 'a' 'p' 'l' 'g'
def kAudioDeviceClassID : UInt32 := fourCharCode 'a' 'd' 'e' 'v'
def kAudioStreamClassID : UInt32 := fourCharCode 'a' 's' 't' 'r'
def kAudioDeviceTransportTypeVirtual : UInt32 := fourCharCode 'v' 'i' 'r' 't'
def kAudioStreamTerminalTypeLine : UInt32 := fourCharCode 'l' 'i' 'n' 'e'
def kAudioFormatLinearPCM : UInt32 := fourCharCode 'l' 'p' 'c' 'm'
def kAudioFormatFlagsNativeFloatPacked : UInt32 := 9
def kAudioChannelLayoutTagUseChannelDescriptions : UInt32 := 0
def kAudioChannelLabelDiscrete0 : UInt32 := 65536

def kAudioObjectUnknown : UInt32 := 0
def kObjectIDPlugIn : UInt32 := 1
def kObjectIDStreamInput : UInt32 := 3

def kDeviceName : String := "ReacJack REAC"
def kDeviceManufacturer : String := "ReacJack"
def kDeviceUID : String := "ReacJackDevice_UID"
def kDeviceModelUID : String := "ReacJackDevice_ModelUID"

def sampleRateBits : UInt64 := 0x40E7700000000000

example : mkRat (2 ^ 52 + sampleRateBits.toNat % 2 ^ 52) (2 ^ (1075 - sampleRateBits.toNat / 2 ^ 52)) =
    kDeviceSampleRate := by decide +kernel

def sizeofUInt32 : UInt32 := 4
def sizeofAudioClassID : UInt32 := 4
def sizeofAudioObjectID : UInt32 := 4
def sizeofCFStringRef : UInt32 := 8
def sizeofFloat64 : UInt32 := 8
def sizeofAudioValueRange : UInt32 := 16
def sizeofAudioStreamBasicDescription : UInt32 := 40
def sizeofAudioStreamRangedDescription : UInt32 := 56
def sizeofAudioChannelDescription : UInt32 := 20

def channelLayoutSize : UInt32 := 12 + kDeviceChannelCount.toUInt32 * sizeofAudioChannelDescription

def uint32Bytes (value : UInt32) : List UInt8 := littleEndian 4 value.toNat
def uint64Bytes (value : UInt64) : List UInt8 := littleEndian 8 value.toNat

structure AudioStreamBasicDescription where
  mSampleRate : UInt64
  mFormatID : UInt32
  mFormatFlags : UInt32
  mBytesPerPacket : UInt32
  mFramesPerPacket : UInt32
  mBytesPerFrame : UInt32
  mChannelsPerFrame : UInt32
  mBitsPerChannel : UInt32
  mReserved : UInt32

def kDeviceBytesPerFrame : UInt32 := kDeviceChannelCount.toUInt32 * 4

def deviceStreamFormat : AudioStreamBasicDescription where
  mSampleRate := sampleRateBits
  mFormatID := kAudioFormatLinearPCM
  mFormatFlags := kAudioFormatFlagsNativeFloatPacked
  mBytesPerPacket := kDeviceBytesPerFrame
  mFramesPerPacket := 1
  mBytesPerFrame := kDeviceBytesPerFrame
  mChannelsPerFrame := kDeviceChannelCount.toUInt32
  mBitsPerChannel := 32
  mReserved := 0

def formatBytes (format : AudioStreamBasicDescription) : List UInt8 :=
  uint64Bytes format.mSampleRate ++ uint32Bytes format.mFormatID ++ uint32Bytes format.mFormatFlags ++
  uint32Bytes format.mBytesPerPacket ++ uint32Bytes format.mFramesPerPacket ++
  uint32Bytes format.mBytesPerFrame ++ uint32Bytes format.mChannelsPerFrame ++
  uint32Bytes format.mBitsPerChannel ++ uint32Bytes format.mReserved

def channelDescription (i : Nat) : List UInt8 :=
  uint32Bytes (kAudioChannelLabelDiscrete0 + UInt32.ofNat i) ++ uint32Bytes 0 ++
  uint32Bytes 0 ++ uint32Bytes 0 ++ uint32Bytes 0

def pluginHasProperty (address : AudioObjectPropertyAddress) : Bool :=
  switch false address.mSelector [
    ([kAudioObjectPropertyBaseClass, kAudioObjectPropertyClass, kAudioObjectPropertyOwner,
      kAudioObjectPropertyManufacturer, kAudioObjectPropertyOwnedObjects,
      kAudioPlugInPropertyDeviceList, kAudioPlugInPropertyTranslateUIDToDevice,
      kAudioPlugInPropertyResourceBundle],true)]

def deviceHasProperty (address : AudioObjectPropertyAddress) : Bool :=
  switch false address.mSelector [
    ([kAudioObjectPropertyBaseClass, kAudioObjectPropertyClass, kAudioObjectPropertyOwner,
      kAudioObjectPropertyName, kAudioObjectPropertyManufacturer, kAudioObjectPropertyOwnedObjects,
      kAudioObjectPropertyControlList, kAudioDevicePropertyDeviceUID, kAudioDevicePropertyModelUID,
      kAudioDevicePropertyTransportType, kAudioDevicePropertyRelatedDevices,
      kAudioDevicePropertyClockDomain, kAudioDevicePropertyDeviceIsAlive,
      kAudioDevicePropertyDeviceIsRunning, kAudioDevicePropertyDeviceCanBeDefaultDevice,
      kAudioDevicePropertyDeviceCanBeDefaultSystemDevice, kAudioDevicePropertyLatency,
      kAudioDevicePropertyStreams, kAudioDevicePropertySafetyOffset,
      kAudioDevicePropertyNominalSampleRate, kAudioDevicePropertyAvailableNominalSampleRates,
      kAudioDevicePropertyIsHidden, kAudioDevicePropertyZeroTimeStampPeriod],true),
    ([kAudioDevicePropertyPreferredChannelsForStereo, kAudioDevicePropertyPreferredChannelLayout],
      address.mScope = kAudioObjectPropertyScopeInput || address.mScope = kAudioObjectPropertyScopeGlobal)]

def streamHasProperty (address : AudioObjectPropertyAddress) : Bool :=
  switch false address.mSelector [
    ([kAudioObjectPropertyBaseClass, kAudioObjectPropertyClass, kAudioObjectPropertyOwner,
      kAudioStreamPropertyIsActive, kAudioStreamPropertyDirection, kAudioStreamPropertyTerminalType,
      kAudioStreamPropertyStartingChannel, kAudioStreamPropertyLatency,
      kAudioStreamPropertyVirtualFormat, kAudioStreamPropertyPhysicalFormat,
      kAudioStreamPropertyAvailableVirtualFormats, kAudioStreamPropertyAvailablePhysicalFormats],true)]

def objectHasProperty (inObjectID : UInt32) (address : AudioObjectPropertyAddress) : Bool :=
  switch false inObjectID [
    ([kObjectIDPlugIn],pluginHasProperty address),
    ([kObjectIDDevice],deviceHasProperty address),
    ([kObjectIDStreamInput],streamHasProperty address)]

def hasProperty (inDriver : Bool) (inObjectID : UInt32) (inAddress : Option AudioObjectPropertyAddress) :
    Bool :=
  match inDriver, inAddress with
  | true, some address => objectHasProperty inObjectID address
  | _, _ => false

def pluginPropertySize (address : AudioObjectPropertyAddress) (outSize : UInt32) : Status × UInt32 :=
  switch (.unknownProperty,outSize) address.mSelector [
    ([kAudioObjectPropertyBaseClass, kAudioObjectPropertyClass],(.ok,sizeofAudioClassID)),
    ([kAudioObjectPropertyOwner],(.ok,sizeofAudioObjectID)),
    ([kAudioObjectPropertyManufacturer, kAudioPlugInPropertyResourceBundle],(.ok,sizeofCFStringRef)),
    ([kAudioObjectPropertyOwnedObjects, kAudioPlugInPropertyDeviceList],(.ok,sizeofAudioObjectID)),
    ([kAudioPlugInPropertyTranslateUIDToDevice],(.ok,sizeofAudioObjectID))]

def devicePropertySize (address : AudioObjectPropertyAddress) (outSize : UInt32) : Status × UInt32 :=
  switch (.unknownProperty,outSize) address.mSelector [
    ([kAudioObjectPropertyBaseClass, kAudioObjectPropertyClass],(.ok,sizeofAudioClassID)),
    ([kAudioObjectPropertyOwner],(.ok,sizeofAudioObjectID)),
    ([kAudioObjectPropertyName, kAudioObjectPropertyManufacturer, kAudioDevicePropertyDeviceUID,
      kAudioDevicePropertyModelUID],(.ok,sizeofCFStringRef)),
    ([kAudioObjectPropertyOwnedObjects],(.ok,sizeofAudioObjectID)),
    ([kAudioObjectPropertyControlList],(.ok,0)),
    ([kAudioDevicePropertyTransportType, kAudioDevicePropertyClockDomain,
      kAudioDevicePropertyDeviceIsAlive, kAudioDevicePropertyDeviceIsRunning,
      kAudioDevicePropertyDeviceCanBeDefaultDevice, kAudioDevicePropertyDeviceCanBeDefaultSystemDevice,
      kAudioDevicePropertyLatency, kAudioDevicePropertySafetyOffset, kAudioDevicePropertyIsHidden,
      kAudioDevicePropertyZeroTimeStampPeriod],(.ok,sizeofUInt32)),
    ([kAudioDevicePropertyRelatedDevices],(.ok,sizeofAudioObjectID)),
    ([kAudioDevicePropertyStreams],
      (.ok,if address.mScope = kAudioObjectPropertyScopeOutput then 0 else sizeofAudioObjectID)),
    ([kAudioDevicePropertyNominalSampleRate],(.ok,sizeofFloat64)),
    ([kAudioDevicePropertyAvailableNominalSampleRates],(.ok,sizeofAudioValueRange)),
    ([kAudioDevicePropertyPreferredChannelsForStereo],(.ok,2 * sizeofUInt32)),
    ([kAudioDevicePropertyPreferredChannelLayout],(.ok,channelLayoutSize))]

def streamPropertySize (address : AudioObjectPropertyAddress) (outSize : UInt32) : Status × UInt32 :=
  switch (.unknownProperty,outSize) address.mSelector [
    ([kAudioObjectPropertyBaseClass, kAudioObjectPropertyClass],(.ok,sizeofAudioClassID)),
    ([kAudioObjectPropertyOwner],(.ok,sizeofAudioObjectID)),
    ([kAudioStreamPropertyIsActive, kAudioStreamPropertyDirection, kAudioStreamPropertyTerminalType,
      kAudioStreamPropertyStartingChannel, kAudioStreamPropertyLatency],(.ok,sizeofUInt32)),
    ([kAudioStreamPropertyVirtualFormat, kAudioStreamPropertyPhysicalFormat],
      (.ok,sizeofAudioStreamBasicDescription)),
    ([kAudioStreamPropertyAvailableVirtualFormats, kAudioStreamPropertyAvailablePhysicalFormats],
      (.ok,sizeofAudioStreamRangedDescription))]

def objectPropertySize (inObjectID : UInt32) (address : AudioObjectPropertyAddress) (outDataSize : UInt32) :
    Status × UInt32 :=
  switch (.badObject,outDataSize) inObjectID [
    ([kObjectIDPlugIn],pluginPropertySize address outDataSize),
    ([kObjectIDDevice],devicePropertySize address outDataSize),
    ([kObjectIDStreamInput],streamPropertySize address outDataSize)]

def getPropertyDataSize (inDriver : Bool) (inObjectID : UInt32)
    (inAddress : Option AudioObjectPropertyAddress) (outDataSize : Option UInt32) :
    Status × Option UInt32 :=
  match inDriver, inAddress, outDataSize with
  | true, some address, some size =>
    let (status,size) := objectPropertySize inObjectID address size
    (status,some size)
  | _, _, _ => (.badObject,outDataSize)

abbrev Answer := Status × UInt32 × Buffer

def writeUint32 (outData : Buffer) (inDataSize outDataSize value : UInt32) : Answer :=
  if inDataSize < sizeofUInt32 then (.badPropertySize,outDataSize,outData)
  else (.ok,sizeofUInt32,storeBytes outData 0 (uint32Bytes value))

def writeObjectId (outData : Buffer) (inDataSize outDataSize value : UInt32) : Answer :=
  if inDataSize < sizeofAudioObjectID then (.badPropertySize,outDataSize,outData)
  else (.ok,sizeofAudioObjectID,storeBytes outData 0 (uint32Bytes value))

def writeString (cf : CoreFoundation) (outData : Buffer) (inDataSize outDataSize : UInt32) (value : String) :
    Answer :=
  if inDataSize < sizeofCFStringRef then (.badPropertySize,outDataSize,outData)
  else (.ok,sizeofCFStringRef,storeBytes outData 0 (uint64Bytes (cf.stringCreateCopy value)))

def pluginPropertyData (cf : CoreFoundation) (address : AudioObjectPropertyAddress)
    (inQualifierDataSize : UInt32) (inQualifierData : Option UInt64) (inDataSize outDataSize : UInt32)
    (outData : Buffer) : Answer :=
  switch (.unknownProperty,outDataSize,outData) address.mSelector [
    ([kAudioObjectPropertyBaseClass],writeUint32 outData inDataSize outDataSize kAudioObjectClassID),
    ([kAudioObjectPropertyClass],writeUint32 outData inDataSize outDataSize kAudioPlugInClassID),
    ([kAudioObjectPropertyOwner],writeObjectId outData inDataSize outDataSize kAudioObjectUnknown),
    ([kAudioObjectPropertyManufacturer],
      writeString cf outData inDataSize outDataSize kDeviceManufacturer),
    ([kAudioPlugInPropertyResourceBundle],writeString cf outData inDataSize outDataSize ""),
    ([kAudioObjectPropertyOwnedObjects, kAudioPlugInPropertyDeviceList],
      if inDataSize < sizeofAudioObjectID then (.ok,0,outData)
      else writeObjectId outData inDataSize outDataSize kObjectIDDevice),
    ([kAudioPlugInPropertyTranslateUIDToDevice],
      if inQualifierDataSize ≠ sizeofCFStringRef then (.badPropertySize,outDataSize,outData)
      else match inQualifierData with
      | none => (.badPropertySize,outDataSize,outData)
      | some uid =>
        let found :=
          if uid ≠ 0 ∧ cf.stringCompare uid kDeviceUID = 0 then kObjectIDDevice else kAudioObjectUnknown
        writeObjectId outData inDataSize outDataSize found)]

def devicePropertyData (cf : CoreFoundation) (d : Driver) (address : AudioObjectPropertyAddress)
    (inDataSize outDataSize : UInt32) (outData : Buffer) : Answer :=
  switch (.unknownProperty,outDataSize,outData) address.mSelector [
    ([kAudioObjectPropertyBaseClass],writeUint32 outData inDataSize outDataSize kAudioObjectClassID),
    ([kAudioObjectPropertyClass],writeUint32 outData inDataSize outDataSize kAudioDeviceClassID),
    ([kAudioObjectPropertyOwner],writeObjectId outData inDataSize outDataSize kObjectIDPlugIn),
    ([kAudioObjectPropertyName],writeString cf outData inDataSize outDataSize kDeviceName),
    ([kAudioObjectPropertyManufacturer],
      writeString cf outData inDataSize outDataSize kDeviceManufacturer),
    ([kAudioDevicePropertyDeviceUID],writeString cf outData inDataSize outDataSize kDeviceUID),
    ([kAudioDevicePropertyModelUID],writeString cf outData inDataSize outDataSize kDeviceModelUID),
    ([kAudioObjectPropertyOwnedObjects],writeObjectId outData inDataSize outDataSize kObjectIDStreamInput),
    ([kAudioObjectPropertyControlList],(.ok,0,outData)),
    ([kAudioDevicePropertyTransportType],
      writeUint32 outData inDataSize outDataSize kAudioDeviceTransportTypeVirtual),
    ([kAudioDevicePropertyRelatedDevices],writeObjectId outData inDataSize outDataSize kObjectIDDevice),
    ([kAudioDevicePropertyClockDomain],writeUint32 outData inDataSize outDataSize 0),
    ([kAudioDevicePropertyDeviceIsAlive],writeUint32 outData inDataSize outDataSize 1),
    ([kAudioDevicePropertyDeviceIsRunning],
      let running := if 0 < d.ioIsRunning then 1 else 0
      writeUint32 outData inDataSize outDataSize running),
    ([kAudioDevicePropertyDeviceCanBeDefaultDevice],writeUint32 outData inDataSize outDataSize 1),
    ([kAudioDevicePropertyDeviceCanBeDefaultSystemDevice],writeUint32 outData inDataSize outDataSize 0),
    ([kAudioDevicePropertyLatency, kAudioDevicePropertySafetyOffset, kAudioDevicePropertyIsHidden],
      writeUint32 outData inDataSize outDataSize 0),
    ([kAudioDevicePropertyZeroTimeStampPeriod],
      writeUint32 outData inDataSize outDataSize (UInt32.ofNat kDeviceRingFrames)),
    ([kAudioDevicePropertyStreams],
      if address.mScope = kAudioObjectPropertyScopeOutput ∨ inDataSize < sizeofAudioObjectID then
        (.ok,0,outData)
      else writeObjectId outData inDataSize outDataSize kObjectIDStreamInput),
    ([kAudioDevicePropertyNominalSampleRate],
      if inDataSize < sizeofFloat64 then (.badPropertySize,outDataSize,outData)
      else (.ok,sizeofFloat64,storeBytes outData 0 (uint64Bytes sampleRateBits))),
    ([kAudioDevicePropertyAvailableNominalSampleRates],
      if inDataSize < sizeofAudioValueRange then (.ok,0,outData)
      else
        let outData := storeBytes outData 0 (uint64Bytes sampleRateBits)
        let outData := storeBytes outData 8 (uint64Bytes sampleRateBits)
        (.ok,sizeofAudioValueRange,outData)),
    ([kAudioDevicePropertyPreferredChannelsForStereo],
      if inDataSize < 2 * sizeofUInt32 then (.badPropertySize,outDataSize,outData)
      else
        let outData := storeBytes outData 0 (uint32Bytes 1)
        let outData := storeBytes outData 4 (uint32Bytes 2)
        (.ok,2 * sizeofUInt32,outData)),
    ([kAudioDevicePropertyPreferredChannelLayout],
      if inDataSize < channelLayoutSize then (.badPropertySize,outDataSize,outData)
      else
        let outData := storeBytes outData 0 (uint32Bytes kAudioChannelLayoutTagUseChannelDescriptions)
        let outData := storeBytes outData 4 (uint32Bytes 0)
        let outData := storeBytes outData 8 (uint32Bytes kDeviceChannelCount.toUInt32)
        let outData := loop kDeviceChannelCount.toNat
          (fun i outData => storeBytes outData (12 + i * 20) (channelDescription i)) outData
        (.ok,channelLayoutSize,outData))]

def streamPropertyData (address : AudioObjectPropertyAddress) (inDataSize outDataSize : UInt32)
    (outData : Buffer) : Answer :=
  switch (.unknownProperty,outDataSize,outData) address.mSelector [
    ([kAudioObjectPropertyBaseClass],writeUint32 outData inDataSize outDataSize kAudioObjectClassID),
    ([kAudioObjectPropertyClass],writeUint32 outData inDataSize outDataSize kAudioStreamClassID),
    ([kAudioObjectPropertyOwner],writeObjectId outData inDataSize outDataSize kObjectIDDevice),
    ([kAudioStreamPropertyIsActive],writeUint32 outData inDataSize outDataSize 1),
    ([kAudioStreamPropertyDirection],writeUint32 outData inDataSize outDataSize 1),
    ([kAudioStreamPropertyTerminalType],
      writeUint32 outData inDataSize outDataSize kAudioStreamTerminalTypeLine),
    ([kAudioStreamPropertyStartingChannel],writeUint32 outData inDataSize outDataSize 1),
    ([kAudioStreamPropertyLatency],writeUint32 outData inDataSize outDataSize 0),
    ([kAudioStreamPropertyVirtualFormat, kAudioStreamPropertyPhysicalFormat],
      if inDataSize < sizeofAudioStreamBasicDescription then (.badPropertySize,outDataSize,outData)
      else (.ok,sizeofAudioStreamBasicDescription,storeBytes outData 0 (formatBytes deviceStreamFormat))),
    ([kAudioStreamPropertyAvailableVirtualFormats, kAudioStreamPropertyAvailablePhysicalFormats],
      if inDataSize < sizeofAudioStreamRangedDescription then (.ok,0,outData)
      else
        let outData := storeBytes outData 0 (formatBytes deviceStreamFormat)
        let outData := storeBytes outData 40 (uint64Bytes sampleRateBits)
        let outData := storeBytes outData 48 (uint64Bytes sampleRateBits)
        (.ok,sizeofAudioStreamRangedDescription,outData))]

def objectPropertyData (cf : CoreFoundation) (d : Driver) (inObjectID : UInt32)
    (address : AudioObjectPropertyAddress) (inQualifierDataSize : UInt32) (inQualifierData : Option UInt64)
    (inDataSize outDataSize : UInt32) (outData : Buffer) : Answer :=
  switch (.badObject,outDataSize,outData) inObjectID [
    ([kObjectIDPlugIn],
      pluginPropertyData cf address inQualifierDataSize inQualifierData inDataSize outDataSize outData),
    ([kObjectIDDevice],devicePropertyData cf d address inDataSize outDataSize outData),
    ([kObjectIDStreamInput],streamPropertyData address inDataSize outDataSize outData)]

def getPropertyData (cf : CoreFoundation) (d : Driver) (inDriver : Bool) (inObjectID : UInt32)
    (inAddress : Option AudioObjectPropertyAddress) (inQualifierDataSize : UInt32)
    (inQualifierData : Option UInt64) (inDataSize : UInt32) (outDataSize : Option UInt32)
    (outData : Option Buffer) : Status × Option UInt32 × Option Buffer :=
  match inDriver, inAddress, outDataSize, outData with
  | true, some address, some size, some data =>
    let (status,size,data) :=
      objectPropertyData cf d inObjectID address inQualifierDataSize inQualifierData inDataSize size data
    (status,some size,some data)
  | _, _, _, _ => (.badObject,outDataSize,outData)

end ReacJack.HalProperties
