import Mathlib.Data.List.Induction
import ReacJack.DriftControl
import ReacJack.TransitionRuns
import ReacJack.SharedAudioSpec

/-! The regulated reader as a controller of the ring's fill. One cycle is the
daemon's writes since the last read and the read itself. Only distances between the
two positions matter, so nothing is assumed about the positions themselves. -/
namespace ReacJack.DriftRegulation
open TransitionRuns SharedAudio DriftControl

variable {α : Type}

structure Write (α : Type) where
  channels : Nat → Nat → α
  frames : UInt32

structure Cycle (α : Type) where
  writes : List (Write α)
  out : Nat → α
  outChannels : UInt16
  frames : UInt32

def Cycle.written (c : Cycle α) : Nat := (c.writes.map (fun w => w.frames.toNat)).sum

def flow (c : Cycle α) : Flow := ⟨c.written,c.frames.toNat⟩

abbrev Log (α : Type) := List Int × SharedRing α

def writeStep (s : Log α) (w : Write α) : Log α :=
  let (code,ring) := sharedAudioWrite s.2 w.channels w.frames
  (s.1 ++ [code],ring)

def cycleStep [Zero α] (targetFill tolerance : UInt32) (s : Log α) (c : Cycle α) : Log α :=
  let (codes,ring) := c.writes.foldl writeStep s
  (codes,(sharedAudioReadInterleavedRegulated ring c.out c.outChannels c.frames targetFill tolerance).ring)

/-- Nothing was refused or missed since `ring`: `calls` writes brought `frames` frames,
and the fill is `level`. -/
structure Clean (ring : SharedRing α) (s : Log α) (calls frames level : Nat) : Prop where
  codes : s.1 = List.replicate calls 0
  moved : s.2.header.writePos = ring.header.writePos + UInt64.ofNat frames
  sound : Sound s.2.header
  capacity : s.2.header.capacityFrames = ring.header.capacityFrames
  overruns : s.2.header.overruns = ring.header.overruns
  underruns : s.2.header.underruns = ring.header.underruns
  level : fill s.2.header = level

theorem writeClean {ring : SharedRing α} {s : Log α} {calls frames level : Nat}
    (clean : Clean ring s calls frames level) (w : Write α)
    (room : level + w.frames.toNat ≤ ring.header.capacityFrames.toNat) :
    Clean ring (writeStep s w) (calls + 1) (frames + w.frames.toNat) (level + w.frames.toNat) := by
  obtain ⟨codes,moved,sound,capacity,overruns,underruns,rfl⟩ := clean
  rw [← capacity] at room
  have small := s.2.header.capacityFrames.toNat_lt
  have accepted := writeAccepted sound w.channels
    (show w.frames.toNat ≤ s.2.header.capacityFrames.toNat - fill s.2.header by omega)
  have fuller : (s.2.header.writePos + w.frames.toUInt64 - s.2.header.readPos).toNat =
      fill s.2.header + w.frames.toNat := by
    unfold fill at *
    rw [distanceGive (by rw [UInt32.toNat_toUInt64]; omega), UInt32.toNat_toUInt64]
  simp only [writeStep, accepted]
  refine ⟨?_,?_,⟨sound.positive,(Nat.le_of_eq fuller).trans room⟩,capacity,overruns,underruns,fuller⟩
  · rw [codes, List.replicate_succ']
  · have given : UInt64.ofNat w.frames.toNat = w.frames.toUInt64 := by
      rw [← UInt64.toNat_inj, UInt32.toNat_toUInt64, UInt64.toNat_ofNat']
      exact Nat.mod_eq_of_lt (by have := w.frames.toNat_lt; omega)
    rw [moved, UInt64.ofNat_add, given, ← UInt64.add_assoc]

theorem writesClean {ring : SharedRing α} {s : Log α} {calls frames level : Nat}
    (clean : Clean ring s calls frames level) (writes : List (Write α))
    (room : level + (writes.map (fun w => w.frames.toNat)).sum ≤ ring.header.capacityFrames.toNat) :
    Clean ring (writes.foldl writeStep s) (calls + writes.length)
      (frames + (writes.map (fun w => w.frames.toNat)).sum)
      (level + (writes.map (fun w => w.frames.toNat)).sum) := by
  induction writes generalizing s calls frames level with
  | nil => exact clean
  | cons w rest ih =>
    simp only [List.map_cons, List.sum_cons, List.foldl_cons, List.length_cons] at room ⊢
    rw [← Nat.add_assoc] at room
    rw [Nat.add_comm rest.length 1]
    simp only [← Nat.add_assoc]
    exact ih (writeClean clean w (by omega)) room

theorem readClean [Zero α] {ring : SharedRing α} {s : Log α} {calls given level : Nat}
    (clean : Clean ring s calls given level) (out : Nat → α) (outChannels : UInt16) (frames : UInt32)
    (there : frames.toNat ≤ level) :
    Clean ring (s.1,(sharedAudioReadInterleaved s.2 out outChannels frames).ring) calls given
      (level - frames.toNat) := by
  obtain ⟨codes,moved,sound,capacity,overruns,underruns,rfl⟩ := clean
  have count := readCountToNat sound frames
  have whole : ¬ readCount s.2.header frames < frames := by
    rw [UInt32.lt_iff_toNat_lt]
    omega
  refine ⟨codes,moved,finishReadSound sound frames,capacity,overruns,?_,finishReadFill sound frames⟩
  simp only [readInterleavedRing, finishRead, whole, if_false]
  exact underruns

theorem dropClean {ring : SharedRing α} {s : Log α} {calls given level : Nat}
    (clean : Clean ring s calls given level) (drop : UInt32) (there : drop.toNat ≤ level) :
    Clean ring (s.1,dropFrames s.2 s.2.header.readPos drop) calls given (level - drop.toNat) := by
  obtain ⟨codes,moved,sound,capacity,overruns,underruns,rfl⟩ := clean
  exact ⟨codes,moved,dropSound sound there,capacity,overruns,underruns,dropFill there⟩

theorem tailClean [Zero α] {ring : SharedRing α} {codes : List Int} {calls given level : Nat}
    {r : ReadResult α (Nat → α)} (clean : Clean ring (codes,r.ring) calls given level)
    (outChannels : UInt16) (kept insert : UInt32) :
    Clean ring (codes,(fillTail r outChannels kept insert).ring) calls given level := by
  obtain ⟨codes,moved,⟨positive,bounded⟩,capacity,overruns,underruns,filled⟩ := clean
  rw [fillTailRing]
  split <;> exact ⟨codes,moved,⟨positive,bounded⟩,capacity,overruns,underruns,filled⟩

def band (targetFill tolerance : UInt32) (readMax : Nat) (wide : 8 ≤ tolerance.toNat) : Band where
  target := targetFill.toNat
  tolerance := tolerance.toNat
  step := 8
  readMax := readMax
  stepLe := by omega
  stepNonneg := by omega

theorem regulatedClean [Zero α] {ring : SharedRing α} {s : Log α} {calls given level readMax : Nat}
    {frames targetFill tolerance : UInt32} (clean : Clean ring s calls given level)
    (wide : 8 ≤ tolerance.toNat) (out : Nat → α) (outChannels : UInt16) (least : 8 ≤ frames.toNat)
    (most : frames.toNat + tolerance.toNat ≤ targetFill.toNat) {next : Int} (nonneg : 0 ≤ next)
    (moved : next = level - frames.toNat + correction (band targetFill tolerance readMax wide) level) :
    Clean ring (s.1,(sharedAudioReadInterleavedRegulated s.2 out outChannels frames targetFill
      tolerance).ring) calls given next.toNat := by
  have sound := clean.sound
  have filled := clean.level
  let b := band targetFill tolerance readMax wide
  rcases Nat.lt_or_ge (targetFill.toNat + tolerance.toNat) level with full | notFull
  · obtain ⟨drop,amount,result⟩ := regulatedDrop sound out outChannels frames (by rw [filled]; exact full)
    rw [filled] at amount
    have pushed := correctionHigh (b := b) (show b.target + b.tolerance < (level : Int) by simp only [b, band]; omega)
    rw [pushed] at moved
    simp only [b, band] at moved
    have read := readClean (dropClean clean drop (by omega)) out outChannels frames (by omega)
    rw [result]
    convert read using 1
    omega
  · have notHigh : (level : Int) ≤ b.target + b.tolerance := by simp only [b, band]; omega
    by_cases low : level + tolerance.toNat < targetFill.toNat
    · obtain ⟨insert,amount,result⟩ := regulatedInsert sound out outChannels
        (by rw [filled]; exact low) (show 0 < frames.toNat by omega)
      rw [filled] at amount
      have pushed := correctionLow notHigh (by simp only [b, band]; omega)
      rw [pushed] at moved
      simp only [b, band] at moved
      have kept : (frames - insert).toNat = frames.toNat - insert.toNat := subToNat (by omega)
      have read := readClean clean out outChannels (frames - insert) (by omega)
      rw [result]
      convert tailClean read outChannels (frames - insert) insert using 1
      omega
    · have left := correctionNone notHigh (by simp only [b, band]; omega)
      rw [left] at moved
      have result : sharedAudioReadInterleavedRegulated s.2 out outChannels frames targetFill tolerance =
          sharedAudioReadInterleaved s.2 out outChannels frames :=
        regulatedHold sound out outChannels (by omega) (by omega)
      have read := readClean clean out outChannels frames (by omega)
      rw [result]
      convert read using 1
      omega

/-- The schedules the regulation is meant for: the two clocks differ by at most one
correction a cycle, up to `jitter`, and the band leaves room on both sides. -/
structure Schedule (targetFill tolerance : UInt32) (capacity readMax writeMax jitter : Nat)
    (cycles : List (Cycle α)) : Prop where
  wide : 8 ≤ tolerance.toNat
  least : ∀ c ∈ cycles, 8 ≤ c.frames.toNat
  most : ∀ c ∈ cycles, c.frames.toNat ≤ readMax
  burst : ∀ c ∈ cycles, c.written ≤ writeMax
  windows : Windowed 8 jitter (cycles.map flow)
  below : readMax + jitter + tolerance.toNat ≤ targetFill.toNat
  above : targetFill.toNat + tolerance.toNat + jitter + writeMax ≤ capacity

section Run
variable [Zero α] {targetFill tolerance : UInt32} {readMax writeMax jitter : Nat} {ring : SharedRing α}
  {cycles : List (Cycle α)}

def calls (cycles : List (Cycle α)) : Nat := (cycles.map (fun c => c.writes.length)).sum

def written (cycles : List (Cycle α)) : Nat := (cycles.map Cycle.written).sum

theorem cycleHeld (schedule : Schedule targetFill tolerance ring.header.capacityFrames.toNat readMax
      writeMax jitter cycles) {done rest : List (Cycle α)} {c : Cycle α} {s : Log α} {level : Nat}
    (split : cycles = done ++ [c] ++ rest) (clean : Clean ring s (calls done) (written done) level)
    (held : Held (band targetFill tolerance readMax schedule.wide) (done.map flow) level) :
    ∃ next : Nat, Clean ring (cycleStep targetFill tolerance s c) (calls (done ++ [c]))
        (written (done ++ [c])) next ∧
      Held (band targetFill tolerance readMax schedule.wide) ((done ++ [c]).map flow) next := by
  let b := band targetFill tolerance readMax schedule.wide
  have member : c ∈ cycles := by simp [split]
  have least := schedule.least c member
  have most := schedule.most c member
  have burst := schedule.burst c member
  have below := schedule.below
  have above := schedule.above
  have windows := schedule.windows
  rw [split, List.map_append, List.map_append] at windows
  have bounds := heldBounds held (windowedPrefix (windowedPrefix windows))
  have next := heldStep held (f := flow c) (by simp only [band, flow]; omega) (by simp only [band, flow]; omega)
  have bounds' := heldBounds next (windowedPrefix windows)
  have nonneg : 0 ≤ nextLevel b level (flow c) := by
    have := bounds'.1
    simp only [b, band] at this ⊢
    omega
  simp only [band] at bounds
  have fed := writesClean clean c.writes (show level + c.written ≤ _ by omega)
  have shorter : c.frames.toNat + tolerance.toNat ≤ targetFill.toNat := by omega
  have moved : nextLevel b level (flow c) = (level + c.written : Nat) - c.frames.toNat +
      correction b (level + c.written : Nat) := by
    simp only [nextLevel, flow, Nat.cast_add]
  have served := regulatedClean fed schedule.wide c.out c.outChannels least shorter nonneg moved
  have allCalls : calls (done ++ [c]) = calls done + c.writes.length := by simp [calls]
  have allWritten : written (done ++ [c]) = written done + c.written := by simp [written]
  rw [allCalls, allWritten]
  refine ⟨(nextLevel b level (flow c)).toNat,served,?_⟩
  rw [List.map_append, Int.toNat_of_nonneg nonneg]
  exact next

theorem runHeld (schedule : Schedule targetFill tolerance ring.header.capacityFrames.toNat readMax
      writeMax jitter cycles) (low : targetFill.toNat ≤ fill ring.header + tolerance.toNat)
    (high : fill ring.header ≤ targetFill.toNat + tolerance.toNat) (done rest : List (Cycle α))
    (split : cycles = done ++ rest) :
    ∃ level : Nat, Clean ring (done.foldl (cycleStep targetFill tolerance) ([],ring)) (calls done)
        (written done) level ∧
      Held (band targetFill tolerance readMax schedule.wide) (done.map flow) level := by
  have wide := schedule.wide
  have above := schedule.above
  induction done using List.reverseRecOn generalizing rest with
  | nil =>
    have sound : Sound ring.header := ⟨by omega,by omega⟩
    refine ⟨fill ring.header,⟨rfl,(UInt64.add_zero _).symm,sound,rfl,rfl,rfl,rfl⟩,heldStart ?_ ?_ ?_⟩ <;>
      simp only [band] <;> omega
  | append_singleton done c ih =>
    obtain ⟨level,clean,held⟩ := ih ([c] ++ rest) (by rw [split, List.append_assoc])
    rw [List.foldl_append]
    exact cycleHeld schedule split clean held

variable (ring) in
/-- After every regulated read: every write of the cycles was taken, nothing was
missed, and the fill is within the band up to one read and the jitter. -/
theorem fillStaysInBand (schedule : Schedule targetFill tolerance ring.header.capacityFrames.toNat readMax
      writeMax jitter cycles) (low : targetFill.toNat ≤ fill ring.header + tolerance.toNat)
    (high : fill ring.header ≤ targetFill.toNat + tolerance.toNat) (done rest : List (Cycle α))
    (split : cycles = done ++ rest) :
    let s := done.foldl (cycleStep targetFill tolerance) ([],ring)
    s.1 = List.replicate (calls done) 0 ∧
    s.2.header.writePos = ring.header.writePos + UInt64.ofNat (written done) ∧
    s.2.header.overruns = ring.header.overruns ∧ s.2.header.underruns = ring.header.underruns ∧
    targetFill.toNat ≤ fill s.2.header + tolerance.toNat + readMax + jitter ∧
    fill s.2.header ≤ targetFill.toNat + tolerance.toNat + jitter := by
  obtain ⟨level,clean,held⟩ := runHeld schedule low high done rest split
  have windows := schedule.windows
  rw [split, List.map_append] at windows
  have bounds := heldBounds held (windowedPrefix windows)
  simp only [band] at bounds
  have filled := clean.level
  exact ⟨clean.codes,clean.moved,clean.overruns,clean.underruns,by omega,by omega⟩

end Run

def fastCycle : Cycle Int := ⟨[⟨fun _ f => f,13⟩],fun _ => 0,1,12⟩

def primedRing : SharedRing Int := (sharedAudioWrite (sharedAudioCreate 48000 1 480) (fun _ _ => 1) 100).2

theorem fastWriterSchedule (n : Nat) :
    Schedule 100 10 480 12 13 0 (List.replicate n fastCycle) := by
  refine ⟨by decide,?_,?_,?_,?_,by decide,by decide⟩
  · intro c member
    rw [(List.mem_replicate.mp member).2]
    decide
  · intro c member
    rw [(List.mem_replicate.mp member).2]
    decide
  · intro c member
    rw [(List.mem_replicate.mp member).2]
    decide
  · refine windowedEach (by decide) ?_
    intro f member
    rw [List.map_replicate] at member
    rw [(List.mem_replicate.mp member).2]
    decide

theorem fillStaysInBandPrimed :
    let s := (List.replicate 100 fastCycle).foldl (cycleStep 100 10) ([],primedRing)
    s.1 = List.replicate 100 0 ∧ s.2.header.writePos = 1400 ∧ s.2.header.underruns = 0 ∧
      78 ≤ fill s.2.header ∧ fill s.2.header ≤ 110 := by
  obtain ⟨codes,moved,_,underruns,least,most⟩ := fillStaysInBand primedRing (fastWriterSchedule 100)
    (by decide) (by decide) (List.replicate 100 fastCycle) [] (List.append_nil _).symm
  have target : (100 : UInt32).toNat = 100 := rfl
  have tolerance : (10 : UInt32).toNat = 10 := rfl
  rw [target, tolerance] at least most
  exact ⟨codes,moved,underruns,by omega,most⟩

end ReacJack.DriftRegulation
