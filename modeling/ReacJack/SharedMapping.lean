import ReacJack.SharedAudio
import ReacJack.ObjectNames

/-! How a ring comes into being and is found again: `shared_audio_create`,
`shared_audio_open`, `shared_audio_close` and `shared_audio_unlink` over the names
and objects of POSIX shared memory. Which system calls fail is an input. -/
namespace ReacJack.SharedMapping
open SharedAudio (Header)
open ObjectNames

abbrev Name := List UInt8

-- the constants of `shared_audio.h`; the header's bytes are its `sizeof`
def magic : UInt32 := 0x524a5341
def abiVersion : UInt32 := 3
def headerBytes : UInt32 := 112
def nameMax : Nat := 32
def samplesAlign : UInt64 := 64

def samplesOffset : UInt64 := (headerBytes.toUInt64 + (samplesAlign - 1)) &&& ~~~(samplesAlign - 1)

def mappingBytes (channels capacityFrames : UInt32) : UInt64 :=
  samplesOffset + channels.toUInt64 * capacityFrames.toUInt64 * 4

structure RingObject where
  size : UInt64
  header : Header

def blankHeader : Header := {
  magic := 0, abiVersion := 0, headerBytes := 0, sampleRate := 0, channels := 0, capacityFrames := 0,
  writePos := 0, readPos := 0, underruns := 0, overruns := 0, droppedPackets := 0, resets := 0,
  insertedFrames := 0, droppedFrames := 0, clockSeq := 0, clockHostTime := 0, clockSamplePos := 0 }

def blank : RingObject := ⟨0,blankHeader⟩

abbrev Shm := NameTable Name RingObject

structure Handle where
  header : Option Nat
  samples : Option UInt64
  mappedBytes : UInt64
  owner : Nat
  name : Name
  deriving DecidableEq, Repr

def initHandle (name : Name) : Option Handle :=
  if name.head? ≠ some 47 ∨ nameMax ≤ name.length then none
  else some {header := none, samples := none, mappedBytes := 0, owner := 0, name}

def mapShared (audio : Handle) (fd : Nat) (bytes : UInt64) (mmap : Bool) : Option Handle :=
  if mmap then some {audio with header := some fd, samples := some samplesOffset, mappedBytes := bytes}
  else none

def sharedAudioClose (audio : Handle) : Handle :=
  if audio.header = none then audio
  else {audio with header := none, samples := none, mappedBytes := 0}

def sharedAudioUnlink (shm : Shm) (name : Name) : Shm := unlink shm name

structure RingFormat where
  sampleRate : UInt32
  channels : UInt16
  capacityFrames : UInt32
  deriving DecidableEq, Repr

def headerStore (format : RingFormat) : Nat → Header → Header
  | 0, h => {h with magic := magic}
  | 1, h => {h with abiVersion := abiVersion}
  | 2, h => {h with headerBytes := headerBytes}
  | 3, h => {h with sampleRate := format.sampleRate}
  | 4, h => {h with channels := format.channels.toUInt32}
  | 5, h => {h with capacityFrames := format.capacityFrames}
  | _, h => h

def headerStores (format : RingFormat) : Nat → Header → Header
  | 0, h => h
  | n + 1, h => headerStore format n (headerStores format n h)

structure CreateCalls where
  shmOpen : Bool
  ftruncate : Bool
  mmap : Bool
  deriving DecidableEq, Repr

def sharedAudioCreate (audio : Handle) (shm : Shm) (name : Name) (format : RingFormat) (calls : CreateCalls) :
    Int × Handle × Shm :=
  match initHandle name with
  | none => (-1, audio, shm)
  | some audio =>
    if format.sampleRate = 0 ∨ format.channels = 0 ∨ format.capacityFrames = 0 then (-1, audio, shm)
    else
      let shm := unlink shm name
      match if calls.shmOpen then createExclusive shm name blank else none with
      | none => (-1, audio, shm)
      | some (fd, shm) =>
        let bytes := mappingBytes format.channels.toUInt32 format.capacityFrames
        if calls.ftruncate then
          let shm := modify shm fd (fun o => {o with size := bytes})
          match mapShared audio fd bytes calls.mmap with
          | none => (-1, audio, unlink shm name)
          | some audio =>
            (0, {audio with owner := 1},
              modify shm fd (fun o => {o with header := headerStores format 6 o.header}))
        else (-1, audio, unlink shm name)

structure OpenCalls where
  shmOpen : Bool
  fstat : Bool
  mmap : Bool
  deriving DecidableEq, Repr

def headerAccepted (header : Header) (size : UInt64) : Bool :=
  header.magic = magic && header.abiVersion = abiVersion && header.headerBytes = headerBytes &&
    header.channels ≠ 0 && header.capacityFrames ≠ 0 &&
    mappingBytes header.channels header.capacityFrames ≤ size

def sharedAudioOpen (audio : Handle) (shm : Shm) (name : Name) (calls : OpenCalls) : Int × Handle :=
  match initHandle name with
  | none => (-1, audio)
  | some audio =>
    match if calls.shmOpen then shm.refers name else none with
    | none => (-1, audio)
    | some fd =>
      let size := (shm.objects fd).size
      if !calls.fstat || size < headerBytes.toUInt64 then (-1, audio)
      else
        match mapShared audio fd size calls.mmap with
        | none => (-1, audio)
        | some audio =>
          if headerAccepted (shm.objects fd).header size then (0, audio)
          else (-1, sharedAudioClose audio)

end ReacJack.SharedMapping
