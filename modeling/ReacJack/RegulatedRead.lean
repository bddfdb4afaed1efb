import ReacJack.RingStates

/-! What a regulated read hands out and what its counters show of it, for every
reachable ring. A correction that meets a nearly dry ring, or a request no larger
than the correction itself, is where the three properties have their limits. -/
namespace ReacJack.RegulatedRead
open SharedAudio BufferLoops

variable {α : Type} [Zero α]

def frameAt (ring : SharedRing α) (p ch : Nat) : α :=
  if ch < ring.header.channels.toNat then ringSample ring ch p else 0

def silence (_ : Nat) : α := 0

def RowIs (out : Nat → α) (width f : Nat) (row : Nat → α) : Prop :=
  ∀ ch < width, out (f * width + ch) = row ch

def Low (h : Header) (frames targetFill tolerance : UInt32) : Prop :=
  fill h + tolerance.toNat < targetFill.toNat ∧ 0 < frames.toNat

def deficit (h : Header) (targetFill : UInt32) : Nat := min (targetFill.toNat - fill h) 8

/-- The call's frames are the returned ones, those `inserted_frames` shows and
missing ones that `underruns` shows. -/
def Accounted (before : Header) (frames : UInt32) (r : ReadResult α (Nat → α)) : Prop :=
  ∃ missing, frames.toNat =
      r.count.toNat + (r.ring.header.insertedFrames - before.insertedFrames).toNat + missing ∧
    (0 < missing → r.ring.header.underruns = before.underruns + 1)

def Degrades (ring : SharedRing α) (width frames : Nat) (r : ReadResult α (Nat → α)) : Prop :=
  ∃ start dups, start + r.count.toNat ≤ fill ring.header ∧ (0 < dups → 0 < r.count.toNat) ∧
    ∀ f < frames, RowIs r.out width f
      (if f < r.count.toNat then frameAt ring (start + f)
       else if f < r.count.toNat + dups then frameAt ring (start + (r.count.toNat - 1))
       else silence)

def Sustained (ring : SharedRing α) (width frames : Nat) (r : ReadResult α (Nat → α)) : Prop :=
  r.ring.header.underruns = ring.header.underruns ∧
    ∀ f < frames, ∃ p < fill ring.header, RowIs r.out width f (frameAt ring p)

theorem plainRow (ring : SharedRing α) (out : Nat → α) (outChannels : UInt16) (frames : UInt32) {f : Nat}
    (inside : f < frames.toNat) :
    RowIs (sharedAudioReadInterleaved ring out outChannels frames).out outChannels.toNat f
      (if f < (readCount ring.header frames).toNat then frameAt ring f else silence) := by
  intro ch channel
  rw [readInterleavedAt ring out outChannels frames inside channel]
  by_cases real : f < (readCount ring.header frames).toNat
  · simp only [real, and_true, if_true, frameAt]
  · simp only [real, and_false, if_false, silence]

omit [Zero α] in
theorem dropSample (ring : SharedRing α) (drop : UInt32) (ch f : Nat) :
    ringSample (dropFrames ring ring.header.readPos drop) ch f = ringSample ring ch (drop.toNat + f) := by
  have same : UInt64.ofNat drop.toNat = drop.toUInt64 := by
    have small := drop.toNat_lt
    rw [← UInt64.toNat_inj, UInt64.toNat_ofNat', UInt32.toNat_toUInt64]
    omega
  have shifted : ring.header.readPos + drop.toUInt64 + UInt64.ofNat f =
      ring.header.readPos + UInt64.ofNat (drop.toNat + f) := by
    rw [UInt64.ofNat_add, same, UInt64.add_assoc]
  simp only [ringSample, dropFrames, shifted]

theorem dropFrame (ring : SharedRing α) (drop : UInt32) (f : Nat) :
    frameAt (dropFrames ring ring.header.readPos drop) f = frameAt ring (drop.toNat + f) := by
  funext ch
  simp only [frameAt, dropSample]
  rfl

theorem tailKeptRow (r : ReadResult α (Nat → α)) {outChannels : UInt16} {kept : UInt32} (insert : UInt32) {f : Nat}
    {row : Nat → α} (inside : f < kept.toNat) (before : RowIs r.out outChannels.toNat f row) :
    RowIs (fillTail r outChannels kept insert).out outChannels.toNat f row := by
  intro ch channel
  rw [fillTailOutside r (.inl (cellBound inside channel))]
  exact before ch channel

theorem tailRow (r : ReadResult α (Nat → α)) {outChannels : UInt16} {kept : UInt32} (insert : UInt32) {j : Nat}
    (row : Nat → α) (real : r.count.toNat ≤ kept.toNat) (inside : j < insert.toNat)
    (last : 0 < r.count.toNat → RowIs r.out outChannels.toNat (r.count.toNat - 1) row) :
    RowIs (fillTail r outChannels kept insert).out outChannels.toNat (kept.toNat + j)
      (if 0 < r.count.toNat then row else silence) := by
  intro ch channel
  rw [fillTailCopies r real inside channel]
  by_cases some : 0 < r.count.toNat
  · rw [if_pos some, if_pos some]
    exact last some ch channel
  · rw [if_neg some, if_neg some]
    rfl

theorem insertRow (ring : SharedRing α) (out : Nat → α) (outChannels : UInt16) {frames insert : UInt32}
    (le : insert.toNat ≤ frames.toNat) {f : Nat} (inside : f < frames.toNat) :
    RowIs (fillTail (sharedAudioReadInterleaved ring out outChannels (frames - insert)) outChannels
        (frames - insert) insert).out outChannels.toNat f
      (if f < (readCount ring.header (frames - insert)).toNat then frameAt ring f
       else if frames.toNat - insert.toNat ≤ f ∧ 0 < (readCount ring.header (frames - insert)).toNat
        then frameAt ring ((readCount ring.header (frames - insert)).toNat - 1)
       else silence) := by
  have kept := subToNat le
  have short := readCountLe ring.header (frames - insert)
  rcases Nat.lt_or_ge f (frames.toNat - insert.toNat) with before | after
  · have row := tailKeptRow (sharedAudioReadInterleaved ring out outChannels (frames - insert)) insert
      (show f < (frames - insert).toNat by omega) (plainRow ring out outChannels (frames - insert) (by omega))
    have notTail : ¬ (frames.toNat - insert.toNat ≤ f ∧ 0 < (readCount ring.header (frames - insert)).toNat) := by
      omega
    rw [if_neg notTail]
    exact row
  · have row := tailRow (j := f - (frames - insert).toNat)
      (sharedAudioReadInterleaved ring out outChannels (frames - insert)) insert
      (frameAt ring ((readCount ring.header (frames - insert)).toNat - 1)) short (by omega) (by
        intro some
        have last := plainRow ring out outChannels (frames - insert)
          (f := (readCount ring.header (frames - insert)).toNat - 1)
          (by rw [readInterleavedCount] at some; omega)
        rw [if_pos (by rw [readInterleavedCount] at some; omega)] at last
        exact last)
    rw [Nat.add_sub_cancel' (by omega : (frames - insert).toNat ≤ f)] at row
    rw [if_neg (by omega : ¬ f < (readCount ring.header (frames - insert)).toNat)]
    simp only [after, true_and]
    exact row

theorem underrunsAfter (h : Header) (readPos : UInt64) (count frames : UInt32) :
    (finishRead h readPos count frames).underruns =
      if count.toNat < frames.toNat then h.underruns + 1 else h.underruns := by
  simp only [finishRead, UInt32.lt_iff_toNat_lt]

theorem counterMoves (n : UInt64) : n ≠ n + 1 := by
  have small := n.toNat_lt
  rw [Ne, ← UInt64.toNat_inj, UInt64.toNat_add, UInt64.toNat_one]
  omega

theorem counterGain (n k : UInt64) : n + k - n = k := by
  rw [UInt64.add_comm, UInt64.add_sub_cancel]

theorem plainAccounted (ring : SharedRing α) (out : Nat → α) (outChannels : UInt16) (frames : UInt32) :
    Accounted ring.header frames (sharedAudioReadInterleaved ring out outChannels frames) := by
  have short := readCountLe ring.header frames
  refine ⟨frames.toNat - (readCount ring.header frames).toNat,?_,?_⟩
  · rw [readInterleavedCount, readInterleavedRing]
    simp only [finishRead, UInt64.sub_self, UInt64.toNat_zero]
    omega
  · intro missing
    rw [readInterleavedRing, underrunsAfter, if_pos (by omega)]

theorem dropAccounted (ring : SharedRing α) (drop : UInt32) (out : Nat → α) (outChannels : UInt16)
    (frames : UInt32) : Accounted ring.header frames
      (sharedAudioReadInterleaved (dropFrames ring ring.header.readPos drop) out outChannels frames) :=
  plainAccounted (dropFrames ring ring.header.readPos drop) out outChannels frames

theorem insertAccounted (ring : SharedRing α) (out : Nat → α) (outChannels : UInt16) {frames insert : UInt32}
    (less : insert.toNat < frames.toNat) : Accounted ring.header frames
      (fillTail (sharedAudioReadInterleaved ring out outChannels (frames - insert)) outChannels
        (frames - insert) insert) := by
  have kept := subToNat (Nat.le_of_lt less)
  have short := readCountLe ring.header (frames - insert)
  simp only [Accounted, fillTailCount, fillTailRing, readInterleavedCount, readInterleavedRing]
  by_cases some : 0 < readCount ring.header (frames - insert)
  · refine ⟨frames.toNat - insert.toNat - (readCount ring.header (frames - insert)).toNat,?_,?_⟩
    · simp only [some, if_true, finishRead, counterGain, UInt32.toNat_toUInt64]
      omega
    · intro missing
      simp only [some, if_true]
      rw [underrunsAfter, if_pos (by omega)]
  · have none : (readCount ring.header (frames - insert)).toNat = 0 := by
      rw [UInt32.lt_iff_toNat_lt, UInt32.toNat_zero] at some
      omega
    refine ⟨frames.toNat,?_,?_⟩
    · simp only [some, if_false, finishRead, UInt64.sub_self, UInt64.toNat_zero, none]
      omega
    · intro missing
      simp only [some, if_false]
      rw [underrunsAfter, if_pos (by omega)]

theorem swallowedUnaccounted {ring : SharedRing α} (sound : Sound ring.header) (out : Nat → α)
    (outChannels : UInt16) {frames insert : UInt32} (wanted : 0 < frames.toNat) (all : insert.toNat = frames.toNat) :
    ¬ Accounted ring.header frames
      (fillTail (sharedAudioReadInterleaved ring out outChannels (frames - insert)) outChannels
        (frames - insert) insert) := by
  have kept := subToNat (Nat.le_of_eq all)
  have none := readCountToNat sound (frames - insert)
  have notSome : ¬ 0 < readCount ring.header (frames - insert) := by
    rw [UInt32.lt_iff_toNat_lt, UInt32.toNat_zero]
    omega
  simp only [Accounted, fillTailCount, fillTailRing, readInterleavedCount, readInterleavedRing, notSome,
    if_false, underrunsAfter]
  rintro ⟨missing,total,shown⟩
  simp only [finishRead, UInt64.sub_self, UInt64.toNat_zero] at total
  rw [if_neg (by omega)] at shown
  exact counterMoves _ (shown (by omega))

/-- Every frame of a regulated read is accounted for unless a correction swallows
the whole request. -/
theorem framesAccounted {ring : SharedRing α} (reachable : Reachable ring) (out : Nat → α)
    (outChannels : UInt16) (frames targetFill tolerance : UInt32) :
    Accounted ring.header frames
        (sharedAudioReadInterleavedRegulated ring out outChannels frames targetFill tolerance) ↔
      ¬ (Low ring.header frames targetFill tolerance ∧ frames.toNat ≤ deficit ring.header targetFill) := by
  have sound := reachableSound reachable
  rcases regulatedCases sound out outChannels frames targetFill tolerance with
    ⟨full,drop,_,result⟩ | ⟨low,insert,amount,result⟩ | ⟨_,notLow,result⟩
  · rw [result]
    exact iff_of_true (dropAccounted ring drop out outChannels frames) (by unfold Low; omega)
  · rw [result]
    rcases Nat.lt_or_ge (deficit ring.header targetFill) frames.toNat with room | swallowed
    · have less : insert.toNat < frames.toNat := by unfold deficit at room; omega
      exact iff_of_true (insertAccounted ring out outChannels less) (by omega)
    · have all : insert.toNat = frames.toNat := by unfold deficit at swallowed; omega
      exact iff_of_false (swallowedUnaccounted sound out outChannels low.2 all) (by
        intro kept
        exact kept ⟨low,swallowed⟩)
  · rw [result]
    exact iff_of_true (plainAccounted ring out outChannels frames) (fun swallowed => notLow swallowed.1)

def ones (frames : UInt32) : SharedRing Int :=
  (sharedAudioWrite (sharedAudioCreate 48000 1 64) (fun _ _ => 1) frames).2

theorem onesReachable (frames : UInt32) : Reachable (ones frames) :=
  .write _ _ (.created 48000 1 64 (by decide))

def shortRead : ReadResult Int (Nat → Int) := sharedAudioReadInterleavedRegulated (ones 6) (fun _ => 0) 1 16 20 0

theorem framesAccountedShort : shortRead.count = 6 ∧ shortRead.ring.header.insertedFrames = 8 ∧
    Accounted (ones 6).header 16 shortRead :=
  ⟨by decide +kernel,by decide +kernel,(framesAccounted (onesReachable 6) (fun _ => 0) 1 16 20 0).mpr
    (by unfold Low; decide +kernel)⟩

/-- Six frames are buffered and four asked for, against a target of 480: four silent frames come back. -/
theorem requestSwallowed : ¬ ∀ (ring : SharedRing Int), Reachable ring →
    ∀ (out : Nat → Int) (outChannels : UInt16) (frames targetFill tolerance : UInt32),
      Accounted ring.header frames
        (sharedAudioReadInterleavedRegulated ring out outChannels frames targetFill tolerance) := by
  intro accounted
  obtain ⟨missing,total,shown⟩ := accounted (ones 6) (onesReachable 6) (fun _ => 0) 1 4 480 48
  have none : (sharedAudioReadInterleavedRegulated (ones 6) (fun _ => 0) 1 4 480 48).count.toNat +
      ((sharedAudioReadInterleavedRegulated (ones 6) (fun _ => 0) 1 4 480 48).ring.header.insertedFrames -
        (ones 6).header.insertedFrames).toNat = 0 := by decide +kernel
  have quiet : (sharedAudioReadInterleavedRegulated (ones 6) (fun _ => 0) 1 4 480 48).ring.header.underruns =
      (ones 6).header.underruns := by decide +kernel
  have four : (4 : UInt32).toNat = 4 := rfl
  rw [quiet] at shown
  exact counterMoves _ (shown (by omega))

def LastSilent (ring : SharedRing α) (width : Nat) : Prop :=
  ∀ ch < width, frameAt ring (fill ring.header - 1) ch = 0

def RunsDry (h : Header) (frames targetFill tolerance : UInt32) : Prop :=
  Low h frames targetFill tolerance ∧ 0 < fill h ∧ fill h + deficit h targetFill < frames.toNat

theorem plainDegrades {ring : SharedRing α} (sound : Sound ring.header) (out : Nat → α) (outChannels : UInt16)
    (frames : UInt32) :
    Degrades ring outChannels.toNat frames.toNat (sharedAudioReadInterleaved ring out outChannels frames) := by
  have count := readCountToNat sound frames
  refine ⟨0,0,?_,by omega,?_⟩
  · rw [readInterleavedCount, count]
    omega
  · intro f inside
    simp only [readInterleavedCount, Nat.zero_add, Nat.add_zero]
    have row := plainRow ring out outChannels frames inside
    split at row
    · rename_i real
      rw [if_pos real]
      exact row
    · rename_i missing
      rw [if_neg missing, if_neg missing]
      exact row

theorem dropDegrades {ring : SharedRing α} (sound : Sound ring.header) {drop : UInt32}
    (le : drop.toNat ≤ fill ring.header) (out : Nat → α) (outChannels : UInt16) (frames : UInt32) :
    Degrades ring outChannels.toNat frames.toNat
      (sharedAudioReadInterleaved (dropFrames ring ring.header.readPos drop) out outChannels frames) := by
  obtain ⟨start,dups,bounded,some,rows⟩ := plainDegrades (dropSound sound le) out outChannels frames
  rw [dropFill le] at bounded
  refine ⟨drop.toNat + start,dups,by omega,some,?_⟩
  intro f inside
  have row := rows f inside
  simp only [dropFrame] at row
  simp only [Nat.add_assoc] at row ⊢
  exact row

theorem insertDegrades {ring : SharedRing α} (sound : Sound ring.header) (out : Nat → α) (outChannels : UInt16)
    {frames insert : UInt32} (le : insert.toNat ≤ frames.toNat)
    (enough : frames.toNat - insert.toNat ≤ fill ring.header ∨ fill ring.header = 0) :
    Degrades ring outChannels.toNat frames.toNat
      (fillTail (sharedAudioReadInterleaved ring out outChannels (frames - insert)) outChannels
        (frames - insert) insert) := by
  have kept := subToNat le
  have count := readCountToNat sound (frames - insert)
  unfold Degrades
  simp only [fillTailCount, readInterleavedCount]
  by_cases some : 0 < (readCount ring.header (frames - insert)).toNat
  · refine ⟨0,insert.toNat,by omega,fun _ => some,?_⟩
    intro f inside
    have row := insertRow ring out outChannels le inside
    simp only [Nat.zero_add]
    by_cases real : f < (readCount ring.header (frames - insert)).toNat
    · rw [if_pos real] at row ⊢
      exact row
    · rw [if_neg real, if_pos (by omega)] at row ⊢
      exact row
  · refine ⟨0,0,by omega,by omega,?_⟩
    intro f inside
    have row := insertRow ring out outChannels le inside
    rw [if_neg (by omega), if_neg (by omega)] at row ⊢
    exact row

theorem dryDegrades {ring : SharedRing α} (sound : Sound ring.header) (out : Nat → α) (outChannels : UInt16)
    {frames insert : UInt32} (le : insert.toNat ≤ frames.toNat) (some : 0 < fill ring.header)
    (added : 0 < insert.toNat) (dry : fill ring.header < frames.toNat - insert.toNat) :
    Degrades ring outChannels.toNat frames.toNat
        (fillTail (sharedAudioReadInterleaved ring out outChannels (frames - insert)) outChannels
          (frames - insert) insert) ↔ LastSilent ring outChannels.toNat := by
  have kept := subToNat le
  have count : (readCount ring.header (frames - insert)).toNat = fill ring.header := by
    rw [readCountToNat sound (frames - insert)]
    omega
  have rowsAre := fun f inside => insertRow ring out outChannels le (f := f) inside
  unfold Degrades
  simp only [fillTailCount, readInterleavedCount, count] at rowsAre ⊢
  constructor
  · rintro ⟨start,dups,bounded,_,rows⟩ ch channel
    have origin : start = 0 := by omega
    subst origin
    have lastRow := rowsAre (frames.toNat - 1) (by omega) ch channel
    have gapRow := rowsAre (fill ring.header) (by omega) ch channel
    have lastClaim := rows (frames.toNat - 1) (by omega) ch channel
    have gapClaim := rows (fill ring.header) (by omega) ch channel
    rw [if_neg (by omega), if_pos (by omega)] at lastRow
    rw [if_neg (by omega), if_neg (by omega)] at gapRow
    rw [← lastRow, lastClaim]
    rw [gapRow] at gapClaim
    by_cases reached : frames.toNat - 1 < fill ring.header + dups
    · rw [if_neg (by omega), if_pos reached]
      rw [if_neg (by omega), if_pos (by omega)] at gapClaim
      exact gapClaim.symm
    · rw [if_neg (by omega), if_neg reached]
      rfl
  · intro silent
    refine ⟨0,0,by omega,by omega,?_⟩
    intro f inside
    simp only [Nat.zero_add, Nat.add_zero]
    have row := rowsAre f inside
    by_cases real : f < fill ring.header
    · rw [if_pos real] at row ⊢
      exact row
    · rw [if_neg real] at row ⊢
      rw [if_neg real]
      intro ch channel
      rw [row ch channel]
      split
      · exact silent ch channel
      · rfl

/-- A regulated read degrades to silence unless the ring runs dry under a
correction whose repeated frame can be heard. -/
theorem readDegrades {ring : SharedRing α} (reachable : Reachable ring) (out : Nat → α)
    (outChannels : UInt16) (frames targetFill tolerance : UInt32) :
    Degrades ring outChannels.toNat frames.toNat
        (sharedAudioReadInterleavedRegulated ring out outChannels frames targetFill tolerance) ↔
      (RunsDry ring.header frames targetFill tolerance → LastSilent ring outChannels.toNat) := by
  have sound := reachableSound reachable
  rcases regulatedCases sound out outChannels frames targetFill tolerance with
    ⟨full,drop,amount,result⟩ | ⟨low,insert,amount,result⟩ | ⟨_,notLow,result⟩
  · rw [result]
    exact iff_of_true (dropDegrades sound (by omega) out outChannels frames) (by
      intro dry
      unfold RunsDry Low at dry
      omega)
  · rw [result]
    by_cases dry : RunsDry ring.header frames targetFill tolerance
    · have gap := dry.2
      unfold deficit at gap
      simp only [dry, true_implies]
      exact dryDegrades sound out outChannels (by omega) dry.2.1 (by omega) (by omega)
    · have enough : frames.toNat - insert.toNat ≤ fill ring.header ∨ fill ring.header = 0 := by
        unfold RunsDry Low deficit at dry
        omega
      exact iff_of_true (insertDegrades sound out outChannels (by omega) enough) (fun runs => absurd runs dry)
  · rw [result]
    exact iff_of_true (plainDegrades sound out outChannels frames) (fun dry => absurd dry.1 notLow)

def fedRead : ReadResult Int (Nat → Int) := sharedAudioReadInterleavedRegulated (ones 12) (fun _ => 0) 1 16 20 0

theorem readDegradesFed : fedRead.count = 8 ∧ fedRead.ring.header.insertedFrames = 8 ∧
    Degrades (ones 12) (1 : UInt16).toNat (16 : UInt32).toNat fedRead :=
  ⟨by decide +kernel,by decide +kernel,(readDegrades (onesReachable 12) (fun _ => 0) 1 16 20 0).mpr (by
    intro dry
    exact absurd dry.2.2 (by decide +kernel))⟩

/-- Three frames are buffered and sixteen asked for: the last of them comes back
after five silent frames. -/
theorem duplicatesAfterSilence : ¬ ∀ (ring : SharedRing Int), Reachable ring →
    ∀ (out : Nat → Int) (outChannels : UInt16) (frames targetFill tolerance : UInt32),
      Degrades ring outChannels.toNat frames.toNat
        (sharedAudioReadInterleavedRegulated ring out outChannels frames targetFill tolerance) := by
  intro degrades
  obtain ⟨start,dups,bounded,_,rows⟩ := degrades (ones 3) (onesReachable 3) (fun _ => 0) 1 16 20 0
  have count : (sharedAudioReadInterleavedRegulated (ones 3) (fun _ => 0) 1 16 20 0).count.toNat = 3 := by
    decide +kernel
  have gap : (sharedAudioReadInterleavedRegulated (ones 3) (fun _ => 0) 1 16 20 0).out 3 = 0 := by decide +kernel
  have replayed : (sharedAudioReadInterleavedRegulated (ones 3) (fun _ => 0) 1 16 20 0).out 15 = 1 := by
    decide +kernel
  have buffered : fill (ones 3).header = 3 := by decide +kernel
  have last : frameAt (ones 3) 2 0 = 1 := by decide +kernel
  have origin : start = 0 := by omega
  subst origin
  have gapRow := rows 3 (by decide) 0 (by decide)
  have lastRow := rows 15 (by decide) 0 (by decide)
  rw [count, if_neg (by omega)] at gapRow lastRow
  by_cases reached : 15 < 3 + dups
  · rw [if_pos (by omega)] at gapRow
    exact absurd (gapRow.symm.trans gap) (by simp [last])
  · rw [if_neg reached] at lastRow
    exact absurd (lastRow.symm.trans replayed) (by simp [silence])

theorem plainSustained {ring : SharedRing α} (sound : Sound ring.header) (out : Nat → α) (outChannels : UInt16)
    (frames : UInt32) (covered : frames.toNat ≤ fill ring.header) :
    Sustained ring outChannels.toNat frames.toNat (sharedAudioReadInterleaved ring out outChannels frames) := by
  have count := readCountToNat sound frames
  constructor
  · rw [readInterleavedRing, underrunsAfter, if_neg (by omega)]
  · intro f inside
    have row := plainRow ring out outChannels frames inside
    rw [if_pos (by omega)] at row
    exact ⟨f,by omega,row⟩

theorem dropSustained {ring : SharedRing α} (sound : Sound ring.header) {drop : UInt32} (out : Nat → α)
    (outChannels : UInt16) {frames : UInt32} (le : drop.toNat ≤ fill ring.header) :
    Sustained ring outChannels.toNat frames.toNat
        (sharedAudioReadInterleaved (dropFrames ring ring.header.readPos drop) out outChannels frames) ↔
      frames.toNat + drop.toNat ≤ fill ring.header := by
  have rest := dropFill le
  have count := readCountToNat (dropSound sound le) frames
  constructor
  · intro sustained
    by_contra short
    have shown := sustained.1
    rw [readInterleavedRing, underrunsAfter, if_pos (by omega)] at shown
    exact counterMoves _ shown.symm
  · intro covered
    obtain ⟨quiet,rows⟩ := plainSustained (dropSound sound le) out outChannels frames (by omega)
    refine ⟨quiet,?_⟩
    intro f inside
    obtain ⟨p,buffered,row⟩ := rows f inside
    rw [dropFrame] at row
    exact ⟨drop.toNat + p,by omega,row⟩

theorem insertSustained {ring : SharedRing α} (sound : Sound ring.header) (out : Nat → α) (outChannels : UInt16)
    {frames insert : UInt32} (less : insert.toNat < frames.toNat) (covered : frames.toNat ≤ fill ring.header) :
    Sustained ring outChannels.toNat frames.toNat
      (fillTail (sharedAudioReadInterleaved ring out outChannels (frames - insert)) outChannels
        (frames - insert) insert) := by
  have kept := subToNat (Nat.le_of_lt less)
  have count := readCountToNat sound (frames - insert)
  constructor
  · rw [fillTailRing, readInterleavedCount, if_pos (by rw [UInt32.lt_iff_toNat_lt, UInt32.toNat_zero]; omega),
      readInterleavedRing]
    simp only
    rw [underrunsAfter, if_neg (by omega)]
  · intro f inside
    have row := insertRow ring out outChannels (Nat.le_of_lt less) inside
    by_cases real : f < (readCount ring.header (frames - insert)).toNat
    · rw [if_pos real] at row
      exact ⟨f,by omega,row⟩
    · rw [if_neg real, if_pos (by omega)] at row
      exact ⟨(readCount ring.header (frames - insert)).toNat - 1,by omega,row⟩

/-- A correction costs a covered request no underrun unless what it drops was
needed for the request. -/
theorem correctionSustains {ring : SharedRing α} (reachable : Reachable ring) (out : Nat → α)
    (outChannels : UInt16) {frames : UInt32} (targetFill tolerance : UInt32) (large : 8 < frames.toNat)
    (covered : frames.toNat ≤ fill ring.header) :
    Sustained ring outChannels.toNat frames.toNat
        (sharedAudioReadInterleavedRegulated ring out outChannels frames targetFill tolerance) ↔
      ¬ (targetFill.toNat + tolerance.toNat < fill ring.header ∧
        fill ring.header < frames.toNat + min (fill ring.header - targetFill.toNat) 8) := by
  have sound := reachableSound reachable
  rcases regulatedCases sound out outChannels frames targetFill tolerance with
    ⟨full,drop,amount,result⟩ | ⟨low,insert,amount,result⟩ | ⟨notFull,_,result⟩
  · rw [result, dropSustained sound out outChannels (by omega)]
    omega
  · rw [result]
    exact iff_of_true (insertSustained sound out outChannels (by omega) covered) (by omega)
  · rw [result]
    exact iff_of_true (plainSustained sound out outChannels _ covered) (by omega)

theorem correctionSustainsFull : Sustained (ones 32) (1 : UInt16).toNat (16 : UInt32).toNat
      (sharedAudioReadInterleavedRegulated (ones 32) (fun _ => 0) 1 16 20 4) :=
  (correctionSustains (onesReachable 32) (fun _ => 0) 1 20 4 (by decide) (by decide +kernel)).mpr
    (by decide +kernel)

/-- Twenty frames are buffered and sixteen asked for: eight are dropped first. -/
theorem dropUnderruns : ¬ ∀ (ring : SharedRing Int), Reachable ring →
    ∀ (out : Nat → Int) (outChannels : UInt16) (frames targetFill tolerance : UInt32),
      8 < frames.toNat → frames.toNat ≤ fill ring.header →
        Sustained ring outChannels.toNat frames.toNat
          (sharedAudioReadInterleavedRegulated ring out outChannels frames targetFill tolerance) := by
  intro sustains
  have quiet := (sustains (ones 20) (onesReachable 20) (fun _ => 0) 1 16 10 0 (by decide) (by decide +kernel)).1
  exact absurd quiet (by decide +kernel)

end ReacJack.RegulatedRead
