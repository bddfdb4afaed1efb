import Mathlib.Data.List.Induction
import Mathlib.Order.Bounds.Basic
import ReacJack.TransitionRuns
import ReacJack.Tone

/-! How many frames the tone has sent. A round brings it to the last whole packet that is
due, and what is due is computed modulo 2^64 nanoseconds times 48000. -/
namespace ReacJack.ToneClock
open BufferLoops TransitionRuns Tone

variable {φ : Type}

def nanos (t : Timespec) : Nat := t.tvSec.toNatClampNeg * 1000000000 + t.tvNsec.toNatClampNeg

def scaled (start now : Timespec) : Nat := (nanos now - nanos start) * 48000

def trulyDue (start now : Timespec) : Nat := scaled start now / 1000000000

def wholePackets (frames : Nat) : Nat := 12 * (frames / 12)

def most : Nat := 18446744064

theorem dueToNat {start now : Timespec} (later : nanos start ≤ nanos now) :
    (dueFrames start now).toNat = scaled start now % 2 ^ 64 / 1000000000 := by
  have sec := Int64.toNat_toUInt64_of_le now.secNonneg
  have sec' := Int64.toNat_toUInt64_of_le start.secNonneg
  have nsec := Int64.toNat_toUInt64_of_le now.nsecNonneg
  have nsec' := Int64.toNat_toUInt64_of_le start.nsecNonneg
  have elapsed : (elapsedNs start now).toNat = (nanos now - nanos start) % 2 ^ 64 := by
    unfold nanos at *
    have := now.tvSec.toUInt64.toNat_lt
    have := start.tvSec.toUInt64.toNat_lt
    have := now.tvNsec.toUInt64.toNat_lt
    have := start.tvNsec.toUInt64.toNat_lt
    simp only [elapsedNs, Int64.toUInt64_sub, UInt64.toNat_add, UInt64.toNat_mul, UInt64.toNat_sub,
      UInt64.toNat_ofNat, sec, sec', nsec, nsec'] at *
    omega
  simp only [dueFrames, UInt64.toNat_div, UInt64.toNat_mul, UInt64.reduceToNat, elapsed, scaled]
  rw [Nat.mod_mul_mod]

theorem packetDue {sent due : Nat} (whole : sent % 12 = 0) (more : sent + 12 ≤ due) : sent + 12 ≤ wholePackets due := by
  unfold wholePackets
  omega

theorem dueMost {start now : Timespec} (later : nanos start ≤ nanos now) :
    wholePackets (dueFrames start now).toNat ≤ most := by
  rw [dueToNat later]
  unfold wholePackets most
  omega

structure Standing (start : Timespec) (s : Generator φ) : Prop where
  start : s.start = start
  whole : s.sentFrames.toNat % 12 = 0
  small : s.sentFrames.toNat ≤ most

theorem countsOn {x : UInt64} {n : Nat} (small : x.toNat + n < 2 ^ 64) :
    (x + UInt64.ofNat n).toNat = x.toNat + n := by
  rw [UInt64.toNat_add, UInt64.toNat_ofNat', Nat.mod_eq_of_lt (show n < 2 ^ 64 by omega), Nat.mod_eq_of_lt small]

theorem sentNext {s : Generator φ} (small : s.sentFrames.toNat ≤ most) :
    (s.sentFrames + 12).toNat = s.sentFrames.toNat + 12 := by
  unfold most at small
  exact countsOn (n := 12) (by omega)

theorem roundCatchesUp (osc : Oscillator φ) {start : Timespec} {s : Generator φ} (standing : Standing start s)
    (round : Round) (later : nanos start ≤ nanos round.now) : ∃ t, toneRound osc s round = some t ∧
      Standing start t ∧
      t.sentFrames.toNat = max s.sentFrames.toNat (wholePackets (dueFrames start round.now).toNat) := by
  have due := dueMost later
  have entered := standing.small
  let P : Generator φ → Prop := fun t => Standing start t ∧ s.sentFrames.toNat ≤ t.sentFrames.toNat ∧
    t.sentFrames.toNat ≤ max s.sentFrames.toNat (wholePackets (dueFrames start round.now).toNat)
  have keeps : ∀ t, P t → decide (t.sentFrames + 12 ≤ dueFrames start round.now) = true →
      P (sendPacket osc round.hostTime t) ∧
        (dueFrames start round.now).toNat - (sendPacket osc round.hostTime t).sentFrames.toNat <
          (dueFrames start round.now).toNat - t.sentFrames.toNat := by
    rintro t ⟨⟨start_,whole,small⟩,low,_⟩ more
    have next := sentNext small
    rw [decide_eq_true_eq, UInt64.le_iff_toNat_le, next] at more
    have sent : (sendPacket osc round.hostTime t).sentFrames.toNat = t.sentFrames.toNat + 12 := next
    have target := packetDue whole more
    exact ⟨⟨⟨start_,by omega,by omega⟩,by omega,by omega⟩,by omega⟩
  have begun : P s := ⟨standing,Nat.le_refl _,Nat.le_max_left _ _⟩
  obtain ⟨t,result,⟨standing',low,high⟩,stopped⟩ := whileInvariant
    (fun t : Generator φ => (dueFrames start round.now).toNat - t.sentFrames.toNat) keeps begun
    (Nat.sub_le _ _ : (dueFrames start round.now).toNat - s.sentFrames.toNat ≤ (dueFrames start round.now).toNat)
  refine ⟨t,by rw [toneRound, standing.start]; exact result,standing',?_⟩
  have next := sentNext standing'.small
  have whole := standing'.whole
  rw [decide_eq_false_iff_not, UInt64.le_iff_toNat_le, next] at stopped
  unfold wholePackets at *
  omega

def targets (start : Timespec) (rounds : List Round) : Set Nat :=
  {n | n = 0 ∨ ∃ round ∈ rounds, n = wholePackets (dueFrames start round.now).toNat}

theorem targetsMore {start : Timespec} {rounds : List Round} {m : Nat} (greatest : IsGreatest (targets start rounds) m)
    (round : Round) : IsGreatest (targets start (rounds ++ [round]))
      (max m (wholePackets (dueFrames start round.now).toNat)) := by
  obtain ⟨reached,above⟩ := greatest
  constructor
  · rcases Nat.le_total (wholePackets (dueFrames start round.now).toNat) m with behind | ahead
    · rw [Nat.max_eq_left behind]
      rcases reached with none | ⟨earlier,member,target⟩
      · exact .inl none
      · exact .inr ⟨earlier,List.mem_append_left _ member,target⟩
    · rw [Nat.max_eq_right ahead]
      exact .inr ⟨round,List.mem_append_right _ (List.mem_singleton.mpr rfl),rfl⟩
  · rintro n (rfl | ⟨earlier,member,rfl⟩)
    · exact Nat.zero_le _
    · rcases List.mem_append.mp member with old | new
      · exact (above (.inr ⟨earlier,old,rfl⟩)).trans (Nat.le_max_left _ _)
      · obtain rfl := List.mem_singleton.mp new
        exact Nat.le_max_right _ _

theorem runSends (osc : Oscillator φ) {start : Timespec} {s : Generator φ} (standing : Standing start s)
    (none : s.sentFrames = 0) (rounds : List Round) (later : ∀ round ∈ rounds, nanos start ≤ nanos round.now) :
    ∃ t, run (toneRound osc) s rounds = some t ∧ Standing start t ∧
      IsGreatest (targets start rounds) t.sentFrames.toNat := by
  induction rounds using List.reverseRecOn with
  | nil =>
    refine ⟨s,rfl,standing,.inl (by rw [none]; rfl),?_⟩
    rintro n (rfl | ⟨round,member,_⟩)
    · exact Nat.zero_le _
    · contradiction
  | append_singleton rounds round ih =>
    obtain ⟨middle,reached,standing',greatest⟩ :=
      ih (fun earlier member => later earlier (List.mem_append_left _ member))
    obtain ⟨t,result,standing'',sent⟩ := roundCatchesUp osc standing' round
      (later round (List.mem_append_right _ (List.mem_singleton.mpr rfl)))
    refine ⟨t,runAppend reached (by simp only [run, result, Option.bind_some]),standing'',?_⟩
    rw [sent]
    exact targetsMore greatest round

/-- The product of this reading does not overflow; or it is not 50 microseconds past that,
and an earlier round has sent the last packet before. -/
def InRange (start : Timespec) (before : List Round) (round : Round) : Prop :=
  scaled start round.now < 2 ^ 64 ∨ (trulyDue start round.now < most + 12 ∧
    ∃ earlier ∈ before, scaled start earlier.now < 2 ^ 64 ∧ most ≤ trulyDue start earlier.now)

section
variable {start : Timespec} {before : List Round} {round : Round} {sent : Nat}

theorem elapsedGrows (start : Timespec) (nondecreasing : ∀ earlier ∈ before, nanos earlier.now ≤ nanos round.now) :
    ∀ earlier ∈ before ++ [round], scaled start earlier.now ≤ scaled start round.now := by
  intro earlier member
  unfold scaled
  rcases List.mem_append.mp member with old | new
  · have := nondecreasing earlier old
    omega
  · obtain rfl := List.mem_singleton.mp new
    exact Nat.le_refl _

theorem sentWhileCounted (later : ∀ earlier ∈ before ++ [round], nanos start ≤ nanos earlier.now)
    (nondecreasing : ∀ earlier ∈ before, nanos earlier.now ≤ nanos round.now)
    (greatest : IsGreatest (targets start (before ++ [round])) sent) (counted : scaled start round.now < 2 ^ 64) :
    sent = wholePackets (trulyDue start round.now) := by
  obtain ⟨reached,above⟩ := greatest
  have last : round ∈ before ++ [round] := List.mem_append_right _ (List.mem_singleton.mpr rfl)
  have aimed := above (.inr ⟨round,last,rfl⟩)
  rw [dueToNat (later round last)] at aimed
  rcases reached with none | ⟨earlier,member,target⟩
  · unfold trulyDue wholePackets at *
    omega
  · have := elapsedGrows start nondecreasing earlier member
    rw [dueToNat (later earlier member)] at target
    unfold trulyDue wholePackets at *
    omega

theorem sentSinceOverflow (later : ∀ earlier ∈ before ++ [round], nanos start ≤ nanos earlier.now)
    (nondecreasing : ∀ earlier ∈ before, nanos earlier.now ≤ nanos round.now)
    (overflows : 2 ^ 64 ≤ scaled start round.now) (small : sent ≤ most)
    (reached : sent ∈ targets start (before ++ [round])) (all : sent = wholePackets (trulyDue start round.now)) :
    InRange start before round := by
  rcases reached with none | ⟨earlier,member,target⟩
  · unfold trulyDue wholePackets at *
    omega
  have before_ := elapsedGrows start nondecreasing earlier member
  rw [dueToNat (later earlier member)] at target
  have near : trulyDue start round.now < most + 12 := by
    unfold trulyDue wholePackets most at *
    omega
  have full : sent = most := by
    unfold trulyDue wholePackets most at *
    omega
  -- what has overflowed is small again
  have counted : scaled start earlier.now < 2 ^ 64 := by
    by_contra overflowed
    have little : scaled start earlier.now % 2 ^ 64 < 3000000000 := by
      unfold trulyDue most at near
      omega
    unfold wholePackets most at *
    omega
  rw [Nat.mod_eq_of_lt counted] at target
  have old : earlier ∈ before := by
    rcases List.mem_append.mp member with old | new
    · exact old
    · obtain rfl := List.mem_singleton.mp new
      omega
  refine .inr ⟨near,earlier,old,counted,?_⟩
  rw [full] at target
  unfold trulyDue wholePackets at *
  omega

theorem sentBeforeOverflow (later : ∀ earlier ∈ before ++ [round], nanos start ≤ nanos earlier.now)
    (overflows : 2 ^ 64 ≤ scaled start round.now) (small : sent ≤ most)
    (greatest : IsGreatest (targets start (before ++ [round])) sent) (inRange : InRange start before round) :
    sent = wholePackets (trulyDue start round.now) := by
  obtain ⟨reached,above⟩ := greatest
  rcases inRange with counted | ⟨near,earlier,member,counted,enough⟩
  · omega
  have old := List.mem_append_left [round] member
  have low := above (.inr ⟨earlier,old,rfl⟩)
  rw [dueToNat (later earlier old)] at low
  rcases reached with none | ⟨other,member',target⟩
  · unfold trulyDue wholePackets most at *
    omega
  · rw [dueToNat (later other member')] at target
    unfold trulyDue wholePackets most at *
    omega

theorem sentIffInRange (later : ∀ earlier ∈ before ++ [round], nanos start ≤ nanos earlier.now)
    (nondecreasing : ∀ earlier ∈ before, nanos earlier.now ≤ nanos round.now) (small : sent ≤ most)
    (greatest : IsGreatest (targets start (before ++ [round])) sent) :
    sent = wholePackets (trulyDue start round.now) ↔ InRange start before round := by
  rcases Nat.lt_or_ge (scaled start round.now) (2 ^ 64) with counted | overflows
  · exact iff_of_true (sentWhileCounted later nondecreasing greatest counted) (.inl counted)
  · exact ⟨sentSinceOverflow later nondecreasing overflows small greatest.1,
      sentBeforeOverflow later overflows small greatest⟩

end

/-- After every round of every run, the tone has sent what is due exactly as long as the
product of the elapsed nanoseconds and the rate fits 64 bits. -/
theorem toneKeepsTime (osc : Oscillator φ) (daemon : Daemon.ReacDaemon) (channelStorage : Nat → Nat → Rat)
    (created : Bool) (start : Timespec) (tone : Generator φ) (begun : runTone osc daemon channelStorage created start = some tone)
    (before : List Round) (round : Round)
    (nondecreasing : (start :: (before ++ [round]).map (·.now)).Pairwise (fun s t => nanos s ≤ nanos t)) :
    ∃ t, run (toneRound osc) tone (before ++ [round]) = some t ∧
      (t.sentFrames.toNat = wholePackets (trulyDue start round.now) ↔ InRange start before round) := by
  obtain ⟨later,ordered⟩ := List.pairwise_cons.mp nondecreasing
  rw [List.map_append, List.pairwise_append] at ordered
  obtain ⟨_,_,earlier⟩ := ordered
  have after : ∀ r ∈ before ++ [round], nanos start ≤ nanos r.now :=
    fun r member => later r.now (List.mem_map.mpr ⟨r,member,rfl⟩)
  obtain ⟨ready,_,rfl⟩ := Option.map_eq_some_iff.mp begun
  have standing : Standing start (⟨ready,channelStorage,start,0,osc.start⟩ : Generator φ) :=
    ⟨rfl,rfl,Nat.zero_le _⟩
  obtain ⟨t,reached,standing',greatest⟩ := runSends osc standing rfl (before ++ [round]) after
  refine ⟨t,reached,sentIffInRange after ?_ standing'.small greatest⟩
  intro r member
  exact earlier r.now (List.mem_map.mpr ⟨r,member,rfl⟩) round.now (List.mem_singleton.mpr rfl)

def counting : Oscillator Nat := ⟨0,(· + 1),fun n => n⟩

def booted : Timespec := ⟨5,999999999,by decide,by decide,by decide⟩

def soon : Round := ⟨⟨6,250000,by decide,by decide,by decide⟩,fun _ => 7⟩

def days : Round := ⟨⟨384313,168202282,by decide,by decide,by decide⟩,fun _ => 7⟩

theorem toneKeepsTimeSoon : ∃ tone t, runTone counting (Daemon.daemonOf 2) (fun _ _ => 0) true booted = some tone ∧
    run (toneRound counting) tone [soon] = some t ∧ t.sentFrames.toNat = wholePackets (trulyDue booted soon.now) := by
  obtain ⟨t,reached,iff⟩ := toneKeepsTime counting (Daemon.daemonOf 2) (fun _ _ => 0) true booted _ rfl [] soon
    (by decide +kernel)
  exact ⟨_,t,rfl,reached,iff.mpr (.inl (by decide +kernel))⟩

/-- 18446744073 frames are due and none is sent. -/
theorem toneStops : ¬ ∀ (round : Round), nanos booted ≤ nanos round.now → ∀ tone t,
    runTone counting (Daemon.daemonOf 2) (fun _ _ => 0) true booted = some tone →
      run (toneRound counting) tone [round] = some t →
        t.sentFrames.toNat = wholePackets (trulyDue booted round.now) := by
  intro always
  have sent : ((runTone counting (Daemon.daemonOf 2) (fun _ _ => 0) true booted).bind fun tone =>
      run (toneRound counting) tone [days]).map (·.sentFrames.toNat) = some 0 := by decide +kernel
  obtain ⟨t,both,none⟩ := Option.map_eq_some_iff.mp sent
  obtain ⟨tone,begun,reached⟩ := Option.bind_eq_some_iff.mp both
  have promised := always days (by decide +kernel) tone t begun reached
  rw [none] at promised
  exact absurd promised (by decide +kernel)

end ReacJack.ToneClock
