import ReacJack.CircularBuffer

/-! The shared-memory ring of `shared_audio.c`: the header as it lies in the
mapping, channel-major samples behind it, and every operation on a mapped ring as
the code computes it, in the code's own fixed-width arithmetic. A sample is any
value with a zero: the ring only copies samples or writes silence. -/
namespace ReacJack.SharedAudio
open BufferLoops CircularBuffer

def maxCorrection : UInt32 := 8

structure Header where
  magic : UInt32
  abiVersion : UInt32
  headerBytes : UInt32
  sampleRate : UInt32
  channels : UInt32
  capacityFrames : UInt32
  writePos : UInt64
  readPos : UInt64
  underruns : UInt64
  overruns : UInt64
  droppedPackets : UInt64
  resets : UInt64
  insertedFrames : UInt64
  droppedFrames : UInt64
  clockSeq : UInt64
  clockHostTime : UInt64
  clockSamplePos : UInt64
  deriving DecidableEq, Repr

structure SharedRing (α : Type) where
  header : Header
  samples : Nat → α

variable {α : Type}

def sharedAudioCreate [Zero α] (sampleRate : UInt32) (channels : UInt16) (capacityFrames : UInt32) :
    SharedRing α where
  header := {
    magic := 0x524a5341, abiVersion := 3, headerBytes := 112,
    sampleRate, channels := channels.toUInt32, capacityFrames,
    writePos := 0, readPos := 0, underruns := 0, overruns := 0, droppedPackets := 0,
    resets := 0, insertedFrames := 0, droppedFrames := 0,
    clockSeq := 0, clockHostTime := 0, clockSamplePos := 0 }
  samples := fun _ => 0

def sharedAudioWritableFrames (h : Header) : UInt32 :=
  let used := h.writePos - h.readPos
  h.capacityFrames - used.toUInt32

def sharedAudioReadableFrames (h : Header) : UInt32 :=
  (h.writePos - h.readPos).toUInt32

def ringIndex (pos : UInt64) (capacity : UInt32) : UInt32 := (pos % capacity.toUInt64).toUInt32

def firstPart (frames capacity index : UInt32) : UInt32 :=
  if frames < capacity - index then frames else capacity - index

def writeChannel (samples : Nat → α) (base : Nat) (index first frames : UInt32) (src : Nat → α) :
    Nat → α :=
  let samples := memcpy samples (base + index.toNat) src first.toNat
  if first < frames then
    memcpy samples base (fun i => src (first.toNat + i)) (frames - first).toNat
  else samples

def sharedAudioWrite (ring : SharedRing α) (channels : Nat → Nat → α) (frames : UInt32) : Int × SharedRing α :=
  let header := ring.header
  if sharedAudioWritableFrames header < frames then
    (-1, {ring with header := {header with overruns := header.overruns + 1}})
  else
    let writePos := header.writePos
    let capacity := header.capacityFrames
    let index := ringIndex writePos capacity
    let first := firstPart frames capacity index
    let samples := loop header.channels.toNat (fun ch samples =>
      writeChannel samples (ch * capacity.toNat) index first frames (channels ch)) ring.samples
    (0, {ring with samples, header := {header with writePos := writePos + frames.toUInt64}})

structure ReadResult (α β : Type) where
  count : UInt32
  ring : SharedRing α
  out : β

def toRead (available : UInt64) (frames : UInt32) : UInt32 :=
  if available < frames.toUInt64 then available.toUInt32 else frames

def finishRead (header : Header) (readPos : UInt64) (count frames : UInt32) : Header :=
  {header with
    underruns := if count < frames then header.underruns + 1 else header.underruns
    readPos := readPos + count.toUInt64}

def sharedAudioReadInterleaved [Zero α] (ring : SharedRing α) (out : Nat → α) (outChannels : UInt16)
    (frames : UInt32) : ReadResult α (Nat → α) :=
  let header := ring.header
  let readPos := header.readPos
  let available := header.writePos - readPos
  let count := toRead available frames
  let capacity := header.capacityFrames
  let copyChannels :=
    if header.channels < outChannels.toUInt32 then header.channels else outChannels.toUInt32
  let out := memset out 0 0 (frames.toNat * outChannels.toNat)
  let out := loop copyChannels.toNat (fun ch out =>
    let base := ch * capacity.toNat
    loop count.toNat (fun frame out =>
      put out (frame * outChannels.toNat + ch)
        (ring.samples (base + (ringIndex (readPos + UInt64.ofNat frame) capacity).toNat))) out) out
  ⟨count, {ring with header := finishRead header readPos count frames}, out⟩

def readChannel [Zero α] (buffer samples : Nat → α) (base : Nat) (index first count frames : UInt32) :
    Nat → α :=
  let buffer := memcpy buffer 0 (fun i => samples (base + index.toNat + i)) first.toNat
  let buffer :=
    if first < count then
      memcpy buffer first.toNat (fun i => samples (base + i)) (count - first).toNat
    else buffer
  if count < frames then memset buffer count.toNat 0 (frames - count).toNat else buffer

def sharedAudioRead [Zero α] (ring : SharedRing α) (channels : Nat → Nat → α) (frames : UInt32) :
    ReadResult α (Nat → Nat → α) :=
  let header := ring.header
  let readPos := header.readPos
  let available := header.writePos - readPos
  let count := toRead available frames
  let capacity := header.capacityFrames
  let index := ringIndex readPos capacity
  let first := firstPart count capacity index
  let out := loop header.channels.toNat (fun ch out =>
    put out ch
      (readChannel (out ch) ring.samples (ch * capacity.toNat) index first count frames)) channels
  ⟨count, {ring with header := finishRead header readPos count frames}, out⟩

def sharedAudioSeekToFill (ring : SharedRing α) (targetFill : UInt32) : UInt32 × SharedRing α :=
  let header := ring.header
  let writePos := header.writePos
  let fill := writePos - header.readPos
  let newFill := if fill < targetFill.toUInt64 then fill.toUInt32 else targetFill
  (newFill, {ring with header := {header with
    readPos := writePos - newFill.toUInt64, resets := header.resets + 1}})

def tooFull (fill : UInt64) (targetFill tolerance : UInt32) : Bool :=
  targetFill.toUInt64 + tolerance.toUInt64 < fill

def tooEmpty (fill : UInt64) (targetFill tolerance : UInt32) : Bool :=
  fill + tolerance.toUInt64 < targetFill.toUInt64

def clampCorrection (frames : UInt32) : UInt32 :=
  if frames < maxCorrection then frames else maxCorrection

def dropFrames (ring : SharedRing α) (readPos : UInt64) (drop : UInt32) : SharedRing α :=
  {ring with header := {ring.header with
    readPos := readPos + drop.toUInt64
    droppedFrames := ring.header.droppedFrames + drop.toUInt64}}

/-- What follows the shortened read of the insert branch: the last real frame is
repeated into the tail, or the tail is silenced when there was none. -/
def fillTail [Zero α] (r : ReadResult α (Nat → α)) (outChannels : UInt16) (kept insert : UInt32) :
    ReadResult α (Nat → α) :=
  let width := outChannels.toNat
  let tail := kept.toNat * width
  if 0 < r.count then
    let last := (r.count - 1).toNat * width
    let out := loop insert.toNat (fun i out =>
      memcpy out (tail + i * width) (fun k => out (last + k)) width) r.out
    {r with out, ring := {r.ring with header := {r.ring.header with
      insertedFrames := r.ring.header.insertedFrames + insert.toUInt64}}}
  else
    {r with out := memset r.out tail 0 (insert.toNat * width)}

def sharedAudioReadInterleavedRegulated [Zero α] (ring : SharedRing α) (out : Nat → α)
    (outChannels : UInt16) (frames targetFill tolerance : UInt32) : ReadResult α (Nat → α) :=
  let header := ring.header
  let readPos := header.readPos
  let fill := header.writePos - readPos
  if tooFull fill targetFill tolerance then
    let excess := (fill - targetFill.toUInt64).toUInt32
    let drop := clampCorrection excess
    sharedAudioReadInterleaved (dropFrames ring readPos drop) out outChannels frames
  else if tooEmpty fill targetFill tolerance && decide (0 < frames) then
    let deficit := (targetFill.toUInt64 - fill).toUInt32
    let insert := clampCorrection deficit
    let insert := if frames < insert then frames else insert
    fillTail (sharedAudioReadInterleaved ring out outChannels (frames - insert)) outChannels
      (frames - insert) insert
  else
    sharedAudioReadInterleaved ring out outChannels frames

def sharedAudioPublishClock (ring : SharedRing α) (hostTime samplePos : UInt64) : SharedRing α :=
  let seq := ring.header.clockSeq
  {ring with header := {ring.header with
    clockSeq := seq + 2, clockHostTime := hostTime, clockSamplePos := samplePos}}

/-- Sixteen attempts against a ring nobody writes to meanwhile; the interleaved
version is in `ClockSeqlock`. -/
def sharedAudioGetClock (ring : SharedRing α) : Option (UInt64 × UInt64) :=
  let rec attempt : Nat → Option (UInt64 × UInt64)
    | 0 => none
    | attempts + 1 =>
      let seq := ring.header.clockSeq
      if seq = 0 then none
      else if seq &&& 1 ≠ 0 then attempt attempts
      else some (ring.header.clockHostTime, ring.header.clockSamplePos)
  attempt 16

end ReacJack.SharedAudio
