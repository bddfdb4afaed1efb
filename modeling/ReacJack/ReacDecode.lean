import Mathlib.Data.Rat.Defs
import Mathlib.Algebra.Order.Field.Rat
import ReacJack.BufferLoops

/-! `reac_decode.c`: the packet parser and the sample decoder, statement by statement.
A pointer that may be NULL is an option; a pointer into a packet is the packet's
bytes from there on. A decoded `float` is the rational it stands for: the quotients
by 2^23 that occur are all exact. -/
namespace ReacJack.ReacDecode
open BufferLoops

abbrev Bytes := List UInt8

def reacEthertype : UInt16 := 0x8819
def reacMaxChannels : Nat := 40
def reacFramesPerPacket : Nat := 12
def reacBytesPerSample : Nat := 3
def reacEndMarker0 : UInt8 := 0xc2
def reacEndMarker1 : UInt8 := 0xea
def ethernetHeaderBytes : Nat := 14
def reacPacketHeaderBytes : Nat := 36
def reacEndMarkerBytes : Nat := 2

inductive ReacStatus where
  | ok
  | badArgument
  | notReac
  | shortPacket
  | badEndMarker
  | badPayloadSize
  | unsupportedChannelCount
  deriving DecidableEq, Repr

structure ReacPacketView where
  counter : UInt16
  channels : UInt16
  payloadSize : Nat
  payload : Option Bytes
  deriving DecidableEq, Repr

def cleared : ReacPacketView := ⟨0,0,0,none⟩

/-- `data[i]`; the callers stay inside. -/
def at_ (data : Bytes) (i : Nat) : UInt8 := data.getD i 0

def readBe16 (data : Bytes) : UInt16 := (at_ data 0).toUInt16 <<< 8 ||| (at_ data 1).toUInt16

def readLe16 (data : Bytes) : UInt16 := (at_ data 0).toUInt16 ||| (at_ data 1).toUInt16 <<< 8

def signExtend24 (value : UInt32) : Int32 :=
  let value := if value &&& 0x800000 ≠ 0 then value ||| 0xff000000 else value
  value.toInt32

def sample24ToFloat (value : Int32) : Rat := value.toInt / 2 ^ 23

def reacPacketOverhead : Nat := ethernetHeaderBytes + reacPacketHeaderBytes

/-- A `size_t` of 64 bits, so the product may wrap. -/
def reacPayloadBytesFor (channels frames : Nat) : Nat := channels * frames * reacBytesPerSample % 2 ^ 64

def reacParsePacket (frame : Option Bytes) (packet : Option ReacPacketView) :
    ReacStatus × Option ReacPacketView :=
  match frame, packet with
  | some frame, some _ =>
    let frameSize := frame.length
    let overhead := reacPacketOverhead
    if frameSize < overhead + reacEndMarkerBytes then (.shortPacket,some cleared)
    else if readBe16 (frame.drop 12) ≠ reacEthertype then (.notReac,some cleared)
    else if at_ frame (frameSize - 2) ≠ reacEndMarker0 ∨ at_ frame (frameSize - 1) ≠ reacEndMarker1 then
      (.badEndMarker,some cleared)
    else
      let payloadSize := frameSize - overhead - reacEndMarkerBytes
      let packetQuantum := reacPayloadBytesFor 1 reacFramesPerPacket
      if payloadSize = 0 ∨ payloadSize % packetQuantum ≠ 0 then (.badPayloadSize,some cleared)
      else
        let channels := payloadSize / packetQuantum
        if channels = 0 ∨ reacMaxChannels < channels ∨ channels % 2 ≠ 0 then
          (.unsupportedChannelCount,some cleared)
        else (.ok,some {
          counter := readLe16 (frame.drop ethernetHeaderBytes)
          channels := UInt16.ofNat channels
          payloadSize
          payload := some (frame.drop overhead) })
  | _, packet => (.badArgument,packet)

abbrev Outputs := Nat → Option (Nat → Rat)

def store (outputs : Outputs) (ch frame : Nat) (value : Rat) : Outputs :=
  put outputs ch ((outputs ch).map (fun buffer => put buffer frame value))

structure Cursor where
  input : Nat
  outputs : Outputs

def decodePair (samples : Bytes) (frame ch : Nat) (s : Cursor) : Cursor :=
  let byte (k : Nat) : UInt32 := (at_ samples (s.input + k)).toUInt32
  let sample1 := byte 3 ||| byte 0 <<< 8 ||| byte 1 <<< 16
  let sample2 := byte 4 ||| byte 5 <<< 8 ||| byte 2 <<< 16
  let outputs := store s.outputs ch frame (sample24ToFloat (signExtend24 sample1))
  let outputs := store outputs (ch + 1) frame (sample24ToFloat (signExtend24 sample2))
  ⟨s.input + 6,outputs⟩

def decodeFrame (samples : Bytes) (channels frame : Nat) (s : Cursor) : Cursor :=
  loop ((channels + 1) / 2) (fun pair s => decodePair samples frame (2 * pair) s) s

def reacDecodeSamplesToChannels (samples : Option Bytes) (sampleBytes : Nat) (channels : UInt16)
    (frames : Nat) (outputs : Option Outputs) : ReacStatus × Option Outputs :=
  match samples, outputs with
  | some samples, some outputs =>
    let channels := channels.toNat
    if channels = 0 ∨ reacMaxChannels < channels ∨ channels % 2 ≠ 0 then
      (.unsupportedChannelCount,some outputs)
    else if sampleBytes ≠ reacPayloadBytesFor channels frames then (.badPayloadSize,some outputs)
    else if ∃ ch < channels, (outputs ch).isNone then (.badArgument,some outputs)
    else
      let s := loop frames (fun frame s => decodeFrame samples channels frame s) ⟨0,outputs⟩
      (.ok,some s.outputs)
  | _, outputs => (.badArgument,outputs)

end ReacJack.ReacDecode
