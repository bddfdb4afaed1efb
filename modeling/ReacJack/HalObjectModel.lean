import ReacJack.HalProperties

/-! What the three property tables of the HAL plug-in say of one object. The size and the data
table agree everywhere; the table of what there is knows two properties of the device in fewer
scopes than they do. -/
namespace ReacJack.HalObjectModel
open BufferLoops BufferedRecords HalDriver HalProperties
open HalPlugin (kObjectIDDevice)

inductive Offers (listed : Prop) (size : UInt32 → Status × UInt32) (data : UInt32 → UInt32 → Buffer → Answer) :
    Prop
  | record (member : listed) {s : UInt32} (sized : ∀ outSize, size outSize = (.ok,s)) (held : Record s)
      (answered : ∀ inDataSize outDataSize outData, data inDataSize outDataSize outData =
        answer .ok .badPropertySize held inDataSize outDataSize outData)
  | nothing (other : ¬ listed) {status : Status} (failed : status ≠ .ok)
      (unsized : ∀ outSize, size outSize = (status,outSize))
      (unanswered : ∀ inDataSize outDataSize outData, data inDataSize outDataSize outData =
        (status,outDataSize,outData))

section Tables
variable {listed : Prop} {size : UInt32 → Status × UInt32} {data : UInt32 → UInt32 → Buffer → Answer}

theorem offersSized (offers : Offers listed size data) (outSize : UInt32) :
    (size outSize).1 = .ok ↔ listed := by
  cases offers with
  | record member sized =>
    rw [sized]
    exact ⟨fun _ => member,fun _ => rfl⟩
  | nothing other failed unsized =>
    rw [unsized]
    exact ⟨fun succeeded => absurd succeeded failed,fun member => absurd member other⟩

theorem offersFits (offers : Offers listed size data) {outSize s inDataSize : UInt32}
    (sized : size outSize = (.ok,s)) (fits : s ≤ inDataSize) (outDataSize : UInt32) (outData : Buffer) :
    ∃ after, data inDataSize outDataSize outData = (.ok,s,after) := by
  cases offers with
  | record _ always held answered =>
    obtain rfl : _ = s := congrArg Prod.snd ((always outSize).symm.trans sized)
    rw [answered, answerFits held fits]
    exact ⟨_,rfl⟩
  | nothing _ failed unsized =>
    exact absurd (congrArg Prod.fst ((unsized outSize).symm.trans sized)) failed

def Respects (data : UInt32 → UInt32 → Buffer → Answer) : Prop :=
  ∀ inDataSize outDataSize outData,
    ((data inDataSize outDataSize outData).1 = .ok →
      (data inDataSize outDataSize outData).2.1 ≤ inDataSize ∧
      ∀ i, (data inDataSize outDataSize outData).2.1.toNat ≤ i →
        (data inDataSize outDataSize outData).2.2 i = outData i) ∧
    ((data inDataSize outDataSize outData).1 ≠ .ok →
      (data inDataSize outDataSize outData).2 = (outDataSize,outData))

theorem refusalRespects {status : Status} (failed : status ≠ .ok)
    (refused : ∀ inDataSize outDataSize outData, data inDataSize outDataSize outData =
      (status,outDataSize,outData)) : Respects data := by
  intro inDataSize outDataSize outData
  rw [refused]
  exact ⟨fun succeeded => absurd succeeded failed,fun _ => rfl⟩

theorem offersRespects (offers : Offers listed size data) : Respects data := by
  cases offers with
  | record _ _ held answered =>
    intro inDataSize outDataSize outData
    rw [answered]
    exact ⟨answerBounded held (by decide),fun failed => by rw [answerFailed held failed]⟩
  | nothing _ failed _ unanswered => exact refusalRespects failed unanswered

theorem offersRefused (member : listed) {s : UInt32} (sized : ∀ outSize, size outSize = (.ok,s))
    {content : List UInt8} (filled : content.length = s.toNat)
    (answered : ∀ inDataSize outDataSize outData, data inDataSize outDataSize outData =
      if inDataSize < s then (.badPropertySize,outDataSize,outData)
      else (.ok,s,storeBytes outData 0 content)) : Offers listed size data :=
  .record member sized ⟨content,filled,.refused⟩ fun inDataSize outDataSize outData => by
    rw [answered, answerRefused filled]

theorem offersEmpty (member : listed) {s : UInt32} (sized : ∀ outSize, size outSize = (.ok,s))
    {content : List UInt8} (filled : content.length = s.toNat)
    (answered : ∀ inDataSize outDataSize outData, data inDataSize outDataSize outData =
      if inDataSize < s then (.ok,0,outData) else (.ok,s,storeBytes outData 0 content)) :
    Offers listed size data :=
  .record member sized ⟨content,filled,.empty⟩ fun inDataSize outDataSize outData => by
    rw [answered, answerEmpty filled]

theorem offersUint32 (member : listed) (value : UInt32)
    (sized : ∀ outSize, size outSize = (.ok,sizeofUInt32))
    (written : ∀ inDataSize outDataSize outData, data inDataSize outDataSize outData =
      writeUint32 outData inDataSize outDataSize value) : Offers listed size data :=
  offersRefused member sized (littleEndianLength 4 value.toNat) written

theorem offersObjectId (member : listed) (value : UInt32)
    (sized : ∀ outSize, size outSize = (.ok,sizeofAudioObjectID))
    (written : ∀ inDataSize outDataSize outData, data inDataSize outDataSize outData =
      writeObjectId outData inDataSize outDataSize value) : Offers listed size data :=
  offersRefused member sized (littleEndianLength 4 value.toNat) written

theorem offersString (member : listed) (cf : CoreFoundation) (value : String)
    (sized : ∀ outSize, size outSize = (.ok,sizeofCFStringRef))
    (written : ∀ inDataSize outDataSize outData, data inDataSize outDataSize outData =
      writeString cf outData inDataSize outDataSize value) : Offers listed size data :=
  offersRefused member sized (littleEndianLength 8 (cf.stringCreateCopy value).toNat) written

theorem offersObjects (member : listed) (value : UInt32)
    (sized : ∀ outSize, size outSize = (.ok,sizeofAudioObjectID))
    (written : ∀ inDataSize outDataSize outData, data inDataSize outDataSize outData =
      if inDataSize < sizeofAudioObjectID then (.ok,0,outData)
      else writeObjectId outData inDataSize outDataSize value) : Offers listed size data := by
  -- Some lists of objects may be asked for with too small a buffer.
  refine offersEmpty member sized (littleEndianLength 4 value.toNat) fun inDataSize outDataSize outData => ?_
  rw [written]
  by_cases small : inDataSize < sizeofAudioObjectID
  · rw [if_pos small, if_pos small]
  · rw [if_neg small, if_neg small, writeObjectId, if_neg small]
    rfl

theorem offersNoObjects (member : listed) (sized : ∀ outSize, size outSize = (.ok,0))
    (written : ∀ inDataSize outDataSize outData, data inDataSize outDataSize outData = (.ok,0,outData)) :
    Offers listed size data := by
  refine offersEmpty member sized (show ([] : List UInt8).length = _ from rfl) fun inDataSize outDataSize outData => ?_
  rw [written, storeNothing, ite_self]

end Tables

@[simp] theorem uint32Length (value : UInt32) : (uint32Bytes value).length = 4 := littleEndianLength 4 _

@[simp] theorem uint64Length (value : UInt64) : (uint64Bytes value).length = 8 := littleEndianLength 8 _

@[simp] theorem formatLength (format : AudioStreamBasicDescription) : (formatBytes format).length = 40 := by
  simp only [formatBytes, List.length_append, uint32Length, uint64Length]

theorem rangeLength (minimum maximum : UInt64) : (uint64Bytes minimum ++ uint64Bytes maximum).length = 16 := by
  rw [List.length_append, uint64Length, uint64Length]

theorem rangeStored (outData : Buffer) (minimum maximum : UInt64) :
    storeBytes (storeBytes outData 0 (uint64Bytes minimum)) 8 (uint64Bytes maximum) =
      storeBytes outData 0 (uint64Bytes minimum ++ uint64Bytes maximum) :=
  storeAppend outData _ (by rw [uint64Length])

theorem pairLength (first second : UInt32) : (uint32Bytes first ++ uint32Bytes second).length = 8 := by
  rw [List.length_append, uint32Length, uint32Length]

theorem pairStored (outData : Buffer) (first second : UInt32) :
    storeBytes (storeBytes outData 0 (uint32Bytes first)) 4 (uint32Bytes second) =
      storeBytes outData 0 (uint32Bytes first ++ uint32Bytes second) :=
  storeAppend outData _ (by rw [uint32Length])

def rangedBytes (format : AudioStreamBasicDescription) (minimum maximum : UInt64) : List UInt8 :=
  formatBytes format ++ uint64Bytes minimum ++ uint64Bytes maximum

theorem rangedLength (format : AudioStreamBasicDescription) (minimum maximum : UInt64) :
    (rangedBytes format minimum maximum).length = 56 := by
  simp only [rangedBytes, List.length_append, formatLength, uint64Length]

theorem rangedStored (outData : Buffer) (format : AudioStreamBasicDescription) (minimum maximum : UInt64) :
    storeBytes (storeBytes (storeBytes outData 0 (formatBytes format)) 40 (uint64Bytes minimum)) 48
      (uint64Bytes maximum) = storeBytes outData 0 (rangedBytes format minimum maximum) := by
  rw [storeAppend outData _ (by rw [formatLength]), storeAppend outData _ (by simp)]
  rfl

theorem channelDescriptionLength (i : Nat) : (channelDescription i).length = 20 := by
  simp only [channelDescription, List.length_append, uint32Length]

def layoutBytes : List UInt8 :=
  uint32Bytes kAudioChannelLayoutTagUseChannelDescriptions ++ uint32Bytes 0 ++
  uint32Bytes kDeviceChannelCount.toUInt32 ++ (List.range kDeviceChannelCount.toNat).flatMap channelDescription

theorem layoutLength : layoutBytes.length = channelLayoutSize.toNat := by
  simp only [layoutBytes, List.length_append, uint32Length, flatMapLength channelDescriptionLength]
  rfl

theorem layoutStored (outData : Buffer) :
    loop kDeviceChannelCount.toNat (fun i outData => storeBytes outData (12 + i * 20) (channelDescription i))
      (storeBytes (storeBytes (storeBytes outData 0
        (uint32Bytes kAudioChannelLayoutTagUseChannelDescriptions)) 4 (uint32Bytes 0)) 8
        (uint32Bytes kDeviceChannelCount.toUInt32)) = storeBytes outData 0 layoutBytes := by
  rw [pairStored, storeAppend outData _ (by simp), storeLoop _ _ channelDescriptionLength,
    storeAppend outData _ (by simp)]
  rfl

def pluginSelectors : List UInt32 :=
  [kAudioObjectPropertyBaseClass, kAudioObjectPropertyClass, kAudioObjectPropertyOwner,
    kAudioObjectPropertyManufacturer, kAudioObjectPropertyOwnedObjects,
    kAudioPlugInPropertyDeviceList, kAudioPlugInPropertyTranslateUIDToDevice,
    kAudioPlugInPropertyResourceBundle]

theorem pluginHas (address : AudioObjectPropertyAddress) :
    pluginHasProperty address = true ↔ address.mSelector ∈ pluginSelectors := by
  change switch false address.mSelector [(pluginSelectors,true)] = true ↔ _
  by_cases listed : address.mSelector ∈ pluginSelectors <;> simp [switch, listed]

def Qualified (inQualifierDataSize : UInt32) (inQualifierData : Option UInt64) : Prop :=
  inQualifierDataSize = sizeofCFStringRef ∧ inQualifierData ≠ none

theorem pluginOffers (cf : CoreFoundation) (address : AudioObjectPropertyAddress)
    {inQualifierDataSize : UInt32} {inQualifierData : Option UInt64}
    (qualified : address.mSelector = kAudioPlugInPropertyTranslateUIDToDevice →
      Qualified inQualifierDataSize inQualifierData) :
    Offers (address.mSelector ∈ pluginSelectors) (pluginPropertySize address)
      (pluginPropertyData cf address inQualifierDataSize inQualifierData) := by
  obtain ⟨selector,scope,element⟩ := address
  by_cases listed : selector ∈ pluginSelectors
  · have member := listed
    simp only [pluginSelectors, List.mem_cons, List.not_mem_nil, or_false] at listed
    -- under each label both switches compute to their entries
    rcases listed with rfl | rfl | rfl | rfl | rfl | rfl | rfl | rfl
    · exact offersUint32 member kAudioObjectClassID (fun _ => rfl) (fun _ _ _ => rfl)
    · exact offersUint32 member kAudioPlugInClassID (fun _ => rfl) (fun _ _ _ => rfl)
    · exact offersObjectId member kAudioObjectUnknown (fun _ => rfl) (fun _ _ _ => rfl)
    · exact offersString member cf kDeviceManufacturer (fun _ => rfl) (fun _ _ _ => rfl)
    · exact offersObjects member kObjectIDDevice (fun _ => rfl) (fun _ _ _ => rfl)
    · exact offersObjects member kObjectIDDevice (fun _ => rfl) (fun _ _ _ => rfl)
    · obtain ⟨rfl,given⟩ := qualified rfl
      obtain ⟨uid,rfl⟩ := Option.ne_none_iff_exists'.mp given
      exact offersObjectId member
        (if uid ≠ 0 ∧ cf.stringCompare uid kDeviceUID = 0 then kObjectIDDevice else kAudioObjectUnknown)
        (fun _ => rfl) (fun _ _ _ => rfl)
    · exact offersString member cf "" (fun _ => rfl) (fun _ _ _ => rfl)
  · refine .nothing listed (show Status.unknownProperty ≠ .ok by decide) (fun _ => ?_) (fun _ _ _ => ?_)
    · exact switchOutside listed rfl
    · exact switchOutside listed rfl

theorem unqualifiedRefused (cf : CoreFoundation) {address : AudioObjectPropertyAddress}
    {inQualifierDataSize : UInt32} {inQualifierData : Option UInt64}
    (translated : address.mSelector = kAudioPlugInPropertyTranslateUIDToDevice)
    (unqualified : ¬ Qualified inQualifierDataSize inQualifierData) (inDataSize outDataSize : UInt32)
    (outData : Buffer) :
    pluginPropertyData cf address inQualifierDataSize inQualifierData inDataSize outDataSize outData =
      (.badPropertySize,outDataSize,outData) := by
  obtain ⟨selector,scope,element⟩ := address
  obtain rfl : selector = _ := translated
  by_cases sized : inQualifierDataSize = sizeofCFStringRef
  · subst sized
    cases inQualifierData with
    | none => rfl
    | some uid => exact absurd ⟨rfl,Option.some_ne_none uid⟩ unqualified
  · exact if_pos sized

def preferredSelectors : List UInt32 :=
  [kAudioDevicePropertyPreferredChannelsForStereo, kAudioDevicePropertyPreferredChannelLayout]

def deviceSelectors : List UInt32 :=
  [kAudioObjectPropertyBaseClass, kAudioObjectPropertyClass, kAudioObjectPropertyOwner,
    kAudioObjectPropertyName, kAudioObjectPropertyManufacturer, kAudioObjectPropertyOwnedObjects,
    kAudioObjectPropertyControlList, kAudioDevicePropertyDeviceUID, kAudioDevicePropertyModelUID,
    kAudioDevicePropertyTransportType, kAudioDevicePropertyRelatedDevices,
    kAudioDevicePropertyClockDomain, kAudioDevicePropertyDeviceIsAlive,
    kAudioDevicePropertyDeviceIsRunning, kAudioDevicePropertyDeviceCanBeDefaultDevice,
    kAudioDevicePropertyDeviceCanBeDefaultSystemDevice, kAudioDevicePropertyLatency,
    kAudioDevicePropertyStreams, kAudioDevicePropertySafetyOffset,
    kAudioDevicePropertyNominalSampleRate, kAudioDevicePropertyAvailableNominalSampleRates,
    kAudioDevicePropertyIsHidden, kAudioDevicePropertyZeroTimeStampPeriod]

theorem deviceHas (address : AudioObjectPropertyAddress) :
    deviceHasProperty address = true ↔ address.mSelector ∈ deviceSelectors ∨
      address.mSelector ∈ preferredSelectors ∧ (address.mScope = kAudioObjectPropertyScopeInput ∨
        address.mScope = kAudioObjectPropertyScopeGlobal) := by
  change switch false address.mSelector [(deviceSelectors,true),(preferredSelectors,
    address.mScope = kAudioObjectPropertyScopeInput || address.mScope = kAudioObjectPropertyScopeGlobal)] =
      true ↔ _
  by_cases listed : address.mSelector ∈ deviceSelectors
  · simp [switch, listed]
  · by_cases preferred : address.mSelector ∈ preferredSelectors <;> simp [switch, listed, preferred]

theorem deviceOffers (cf : CoreFoundation) (d : Driver) (address : AudioObjectPropertyAddress) :
    Offers (address.mSelector ∈ deviceSelectors ++ preferredSelectors) (devicePropertySize address)
      (devicePropertyData cf d address) := by
  obtain ⟨selector,scope,element⟩ := address
  by_cases listed : selector ∈ deviceSelectors ++ preferredSelectors
  · have member := listed
    simp only [deviceSelectors, preferredSelectors, List.cons_append, List.nil_append, List.mem_cons,
      List.not_mem_nil, or_false] at listed
    rcases listed with rfl | rfl | rfl | rfl | rfl | rfl | rfl | rfl | rfl | rfl | rfl | rfl | rfl | rfl |
      rfl | rfl | rfl | rfl | rfl | rfl | rfl | rfl | rfl | rfl | rfl
    · exact offersUint32 member kAudioObjectClassID (fun _ => rfl) (fun _ _ _ => rfl)
    · exact offersUint32 member kAudioDeviceClassID (fun _ => rfl) (fun _ _ _ => rfl)
    · exact offersObjectId member kObjectIDPlugIn (fun _ => rfl) (fun _ _ _ => rfl)
    · exact offersString member cf kDeviceName (fun _ => rfl) (fun _ _ _ => rfl)
    · exact offersString member cf kDeviceManufacturer (fun _ => rfl) (fun _ _ _ => rfl)
    · exact offersObjectId member kObjectIDStreamInput (fun _ => rfl) (fun _ _ _ => rfl)
    · exact offersNoObjects member (fun _ => rfl) (fun _ _ _ => rfl)
    · exact offersString member cf kDeviceUID (fun _ => rfl) (fun _ _ _ => rfl)
    · exact offersString member cf kDeviceModelUID (fun _ => rfl) (fun _ _ _ => rfl)
    · exact offersUint32 member kAudioDeviceTransportTypeVirtual (fun _ => rfl) (fun _ _ _ => rfl)
    · exact offersObjectId member kObjectIDDevice (fun _ => rfl) (fun _ _ _ => rfl)
    · exact offersUint32 member 0 (fun _ => rfl) (fun _ _ _ => rfl)
    · exact offersUint32 member 1 (fun _ => rfl) (fun _ _ _ => rfl)
    · exact offersUint32 member (if 0 < d.ioIsRunning then 1 else 0) (fun _ => rfl) (fun _ _ _ => rfl)
    · exact offersUint32 member 1 (fun _ => rfl) (fun _ _ _ => rfl)
    · exact offersUint32 member 0 (fun _ => rfl) (fun _ _ _ => rfl)
    · exact offersUint32 member 0 (fun _ => rfl) (fun _ _ _ => rfl)
    · by_cases output : scope = kAudioObjectPropertyScopeOutput
      · subst output
        exact offersNoObjects member (fun _ => rfl) (fun _ _ _ => rfl)
      · refine offersObjects member kObjectIDStreamInput (fun _ => ?_) (fun inDataSize _ _ => ?_)
        · exact congrArg (Prod.mk Status.ok) (if_neg output)
        · change (if scope = kAudioObjectPropertyScopeOutput ∨ inDataSize < sizeofAudioObjectID then _ else _) = _
          simp only [output, false_or]
    · exact offersUint32 member 0 (fun _ => rfl) (fun _ _ _ => rfl)
    · exact offersRefused member (fun _ => rfl) (littleEndianLength 8 sampleRateBits.toNat) (fun _ _ _ => rfl)
    · refine offersEmpty member (fun _ => rfl) (rangeLength sampleRateBits sampleRateBits) (fun _ _ outData => ?_)
      rw [← rangeStored]
      rfl
    · exact offersUint32 member 0 (fun _ => rfl) (fun _ _ _ => rfl)
    · exact offersUint32 member (UInt32.ofNat kDeviceRingFrames) (fun _ => rfl) (fun _ _ _ => rfl)
    · refine offersRefused member (fun _ => rfl) (pairLength 1 2) (fun _ _ outData => ?_)
      rw [← pairStored]
      rfl
    · refine offersRefused member (fun _ => rfl) layoutLength (fun _ _ outData => ?_)
      rw [← layoutStored]
      rfl
  · refine .nothing listed (show Status.unknownProperty ≠ .ok by decide) (fun _ => ?_) (fun _ _ _ => ?_)
    · exact switchOutside listed rfl
    · exact switchOutside listed rfl

def streamSelectors : List UInt32 :=
  [kAudioObjectPropertyBaseClass, kAudioObjectPropertyClass, kAudioObjectPropertyOwner,
    kAudioStreamPropertyIsActive, kAudioStreamPropertyDirection, kAudioStreamPropertyTerminalType,
    kAudioStreamPropertyStartingChannel, kAudioStreamPropertyLatency,
    kAudioStreamPropertyVirtualFormat, kAudioStreamPropertyPhysicalFormat,
    kAudioStreamPropertyAvailableVirtualFormats, kAudioStreamPropertyAvailablePhysicalFormats]

theorem streamHas (address : AudioObjectPropertyAddress) :
    streamHasProperty address = true ↔ address.mSelector ∈ streamSelectors := by
  change switch false address.mSelector [(streamSelectors,true)] = true ↔ _
  by_cases listed : address.mSelector ∈ streamSelectors <;> simp [switch, listed]

theorem streamOffers (address : AudioObjectPropertyAddress) :
    Offers (address.mSelector ∈ streamSelectors) (streamPropertySize address)
      (streamPropertyData address) := by
  obtain ⟨selector,scope,element⟩ := address
  by_cases listed : selector ∈ streamSelectors
  · have member := listed
    simp only [streamSelectors, List.mem_cons, List.not_mem_nil, or_false] at listed
    rcases listed with rfl | rfl | rfl | rfl | rfl | rfl | rfl | rfl | rfl | rfl | rfl | rfl
    · exact offersUint32 member kAudioObjectClassID (fun _ => rfl) (fun _ _ _ => rfl)
    · exact offersUint32 member kAudioStreamClassID (fun _ => rfl) (fun _ _ _ => rfl)
    · exact offersObjectId member kObjectIDDevice (fun _ => rfl) (fun _ _ _ => rfl)
    · exact offersUint32 member 1 (fun _ => rfl) (fun _ _ _ => rfl)
    · exact offersUint32 member 1 (fun _ => rfl) (fun _ _ _ => rfl)
    · exact offersUint32 member kAudioStreamTerminalTypeLine (fun _ => rfl) (fun _ _ _ => rfl)
    · exact offersUint32 member 1 (fun _ => rfl) (fun _ _ _ => rfl)
    · exact offersUint32 member 0 (fun _ => rfl) (fun _ _ _ => rfl)
    · exact offersRefused member (fun _ => rfl) (formatLength deviceStreamFormat) (fun _ _ _ => rfl)
    · exact offersRefused member (fun _ => rfl) (formatLength deviceStreamFormat) (fun _ _ _ => rfl)
    · refine offersEmpty member (fun _ => rfl) (rangedLength deviceStreamFormat sampleRateBits sampleRateBits)
        (fun _ _ outData => ?_)
      rw [← rangedStored]
      rfl
    · refine offersEmpty member (fun _ => rfl) (rangedLength deviceStreamFormat sampleRateBits sampleRateBits)
        (fun _ _ outData => ?_)
      rw [← rangedStored]
      rfl
  · refine .nothing listed (show Status.unknownProperty ≠ .ok by decide) (fun _ => ?_) (fun _ _ _ => ?_)
    · exact switchOutside listed rfl
    · exact switchOutside listed rfl

def Listed (inObjectID : UInt32) (address : AudioObjectPropertyAddress) : Prop :=
  switch False inObjectID [
    ([kObjectIDPlugIn],address.mSelector ∈ pluginSelectors),
    ([kObjectIDDevice],address.mSelector ∈ deviceSelectors ++ preferredSelectors),
    ([kObjectIDStreamInput],address.mSelector ∈ streamSelectors)]

def Scoped (inObjectID : UInt32) (address : AudioObjectPropertyAddress) : Prop :=
  inObjectID = kObjectIDDevice → address.mSelector ∈ preferredSelectors →
    address.mScope = kAudioObjectPropertyScopeInput ∨ address.mScope = kAudioObjectPropertyScopeGlobal

def objectIDs : List UInt32 := [kObjectIDPlugIn, kObjectIDDevice, kObjectIDStreamInput]

theorem objectOffers (cf : CoreFoundation) (d : Driver) {inObjectID : UInt32}
    {address : AudioObjectPropertyAddress} {inQualifierDataSize : UInt32} {inQualifierData : Option UInt64}
    (qualified : inObjectID = kObjectIDPlugIn →
      address.mSelector = kAudioPlugInPropertyTranslateUIDToDevice →
      Qualified inQualifierDataSize inQualifierData) :
    Offers (Listed inObjectID address) (objectPropertySize inObjectID address)
      (objectPropertyData cf d inObjectID address inQualifierDataSize inQualifierData) := by
  by_cases known : inObjectID ∈ objectIDs
  · simp only [objectIDs, List.mem_cons, List.not_mem_nil, or_false] at known
    rcases known with rfl | rfl | rfl
    · exact pluginOffers cf address (qualified rfl)
    · exact deviceOffers cf d address
    · exact streamOffers address
  · refine .nothing ?_ (show Status.badObject ≠ .ok by decide) (fun _ => switchOutside known rfl)
      (fun _ _ _ => switchOutside known rfl)
    rw [Listed, switchOutside known rfl]
    exact not_false

theorem preferredApart {selector : UInt32} (member : selector ∈ deviceSelectors) :
    selector ∉ preferredSelectors := by
  have apart : deviceSelectors.all (fun label => decide (label ∉ preferredSelectors)) = true := rfl
  rw [List.all_eq_true] at apart
  exact of_decide_eq_true (apart selector member)

theorem objectHas (inObjectID : UInt32) (address : AudioObjectPropertyAddress) :
    objectHasProperty inObjectID address = true ↔ Listed inObjectID address ∧ Scoped inObjectID address := by
  by_cases known : inObjectID ∈ objectIDs
  · simp only [objectIDs, List.mem_cons, List.not_mem_nil, or_false] at known
    rcases known with rfl | rfl | rfl
    · refine (pluginHas address).trans ⟨fun member => ⟨member,fun other => ?_⟩,fun both => both.1⟩
      exact absurd other (by decide)
    · refine (deviceHas address).trans ⟨?_,?_⟩
      · rintro (member | ⟨member,inScope⟩)
        · exact ⟨List.mem_append_left _ member,fun _ preferred => absurd preferred (preferredApart member)⟩
        · exact ⟨List.mem_append_right _ member,fun _ _ => inScope⟩
      · rintro ⟨member,inScope⟩
        rcases List.mem_append.mp member with member | preferred
        · exact .inl member
        · exact .inr ⟨preferred,inScope rfl preferred⟩
    · refine (streamHas address).trans ⟨fun member => ⟨member,fun other => ?_⟩,fun both => both.1⟩
      exact absurd other (by decide)
  · rw [objectHasProperty, Listed, switchOutside known rfl, switchOutside known rfl]
    exact ⟨fun there => absurd there Bool.false_ne_true,fun both => both.1.elim⟩

theorem unscopedListed {inObjectID : UInt32} {address : AudioObjectPropertyAddress}
    (unscoped : ¬ Scoped inObjectID address) : Listed inObjectID address := by
  by_contra other
  refine unscoped fun device preferred => absurd ?_ other
  subst device
  exact List.mem_append_right _ preferred

theorem objectRespects (cf : CoreFoundation) (d : Driver) (inObjectID : UInt32)
    (address : AudioObjectPropertyAddress) (inQualifierDataSize : UInt32) (inQualifierData : Option UInt64) :
    Respects (objectPropertyData cf d inObjectID address inQualifierDataSize inQualifierData) := by
  by_cases qualified : inObjectID = kObjectIDPlugIn →
      address.mSelector = kAudioPlugInPropertyTranslateUIDToDevice →
      Qualified inQualifierDataSize inQualifierData
  · exact offersRespects (objectOffers cf d qualified)
  · simp only [not_forall] at qualified
    obtain ⟨rfl,translated,unqualified⟩ := qualified
    exact refusalRespects (show Status.badPropertySize ≠ .ok by decide)
      (unqualifiedRefused cf translated unqualified)

theorem strangerRefused (cf : CoreFoundation) (d : Driver) {inDriver : Bool}
    {inAddress : Option AudioObjectPropertyAddress} (stranger : inDriver = false ∨ inAddress = none)
    (inObjectID inQualifierDataSize inDataSize : UInt32) (inQualifierData : Option UInt64)
    (outDataSize : Option UInt32) (outData : Option Buffer) :
    hasProperty inDriver inObjectID inAddress = false ∧
    getPropertyDataSize inDriver inObjectID inAddress outDataSize = (.badObject,outDataSize) ∧
    getPropertyData cf d inDriver inObjectID inAddress inQualifierDataSize inQualifierData inDataSize
      outDataSize outData = (.badObject,outDataSize,outData) := by
  rcases stranger with rfl | rfl
  · exact ⟨rfl,rfl,rfl⟩
  · cases inDriver <;> exact ⟨rfl,rfl,rfl⟩

structure OneModel (cf : CoreFoundation) (d : Driver) (inObjectID : UInt32)
    (address : AudioObjectPropertyAddress) : Prop where
  listed : ∀ size, hasProperty true inObjectID (some address) = true ↔
    (getPropertyDataSize true inObjectID (some address) (some size)).1 = .ok
  answered : ∀ size s, getPropertyDataSize true inObjectID (some address) (some size) = (.ok,some s) →
    -- the only selector with a qualifier
    ∀ inQualifierDataSize inQualifierData,
      (inObjectID = kObjectIDPlugIn → address.mSelector = kAudioPlugInPropertyTranslateUIDToDevice →
        Qualified inQualifierDataSize inQualifierData) →
    ∀ inDataSize, s ≤ inDataSize → ∀ outDataSize outData, ∃ after,
      getPropertyData cf d true inObjectID (some address) inQualifierDataSize inQualifierData inDataSize
        (some outDataSize) (some outData) = (.ok,some s,some after)
  bounded : ∀ inQualifierDataSize inQualifierData inDataSize outDataSize outData,
    (getPropertyData cf d true inObjectID (some address) inQualifierDataSize inQualifierData inDataSize
      (some outDataSize) (some outData)).1 = .ok →
    ∃ reported after, getPropertyData cf d true inObjectID (some address) inQualifierDataSize
        inQualifierData inDataSize (some outDataSize) (some outData) = (.ok,some reported,some after) ∧
      reported ≤ inDataSize ∧ ∀ i, reported.toNat ≤ i → after i = outData i
  untouched : ∀ inQualifierDataSize inQualifierData inDataSize outDataSize outData,
    (getPropertyData cf d true inObjectID (some address) inQualifierDataSize inQualifierData inDataSize
      (some outDataSize) (some outData)).1 ≠ .ok →
    (getPropertyData cf d true inObjectID (some address) inQualifierDataSize inQualifierData inDataSize
      (some outDataSize) (some outData)).2 = (some outDataSize,some outData)

/-- The tables describe one object model except where the device is asked for its preferred
channels in another scope. What is handed out fits everywhere. -/
theorem tablesAgree (cf : CoreFoundation) (d : Driver) (inObjectID : UInt32)
    (address : AudioObjectPropertyAddress) :
    OneModel cf d inObjectID address ↔ Scoped inObjectID address := by
  have sized (size : UInt32) : (getPropertyDataSize true inObjectID (some address) (some size)).1 = .ok ↔
      Listed inObjectID address :=
    offersSized (objectOffers cf d fun _ _ => show Qualified sizeofCFStringRef (some 0) from
      ⟨rfl,Option.some_ne_none 0⟩) size
  constructor
  · intro model
    by_contra unscoped
    have has := (model.listed 0).mpr ((sized 0).mpr (unscopedListed unscoped))
    exact unscoped ((objectHas inObjectID address).mp has).2
  · intro inScope
    refine ⟨fun size => ?_,?_,?_,?_⟩
    · rw [sized]
      exact (objectHas inObjectID address).trans ⟨fun both => both.1,fun listed => ⟨listed,inScope⟩⟩
    · intro size s known inQualifierDataSize inQualifierData qualified inDataSize fits outDataSize outData
      have status := congrArg Prod.fst known
      have announced := Option.some.inj (congrArg Prod.snd known)
      have same : objectPropertySize inObjectID address size = (.ok,s) := Prod.ext status announced
      obtain ⟨after,result⟩ := offersFits (objectOffers cf d qualified) same fits outDataSize outData
      refine ⟨after,?_⟩
      simp only [getPropertyData, result]
    · intro inQualifierDataSize inQualifierData inDataSize outDataSize outData succeeded
      obtain ⟨fits,beyond⟩ := (objectRespects cf d inObjectID address inQualifierDataSize inQualifierData
        inDataSize outDataSize outData).1 succeeded
      exact ⟨_,_,Prod.ext succeeded rfl,fits,beyond⟩
    · intro inQualifierDataSize inQualifierData inDataSize outDataSize outData failed
      have same := (objectRespects cf d inObjectID address inQualifierDataSize inQualifierData
        inDataSize outDataSize outData).2 failed
      simp only [getPropertyData, same]

/-- The output side of an input-only device has no preferred channels, and yet they take eight bytes. -/
theorem stereoAtOutput :
    let address : AudioObjectPropertyAddress :=
      ⟨kAudioDevicePropertyPreferredChannelsForStereo,kAudioObjectPropertyScopeOutput,0⟩
    hasProperty true kObjectIDDevice (some address) = false ∧
    getPropertyDataSize true kObjectIDDevice (some address) (some 0) = (.ok,some 8) ∧
    ¬ OneModel ⟨fun _ => 1,fun _ _ => 0⟩ loaded kObjectIDDevice address := by
  refine ⟨by decide,by decide,fun model => ?_⟩
  have has := (model.listed 0).mpr rfl
  exact absurd has (by decide)

end ReacJack.HalObjectModel
