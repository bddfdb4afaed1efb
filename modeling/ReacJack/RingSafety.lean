import Mathlib.Data.List.Perm.Basic
import ReacJack.RingThreads

/-! What each side may rely on between two steps, and why neither can break it for
the other: the writer only moves `write_pos` up and only stores to free slots, the
reader only moves `read_pos` up, so a stale position is always on the safe side. -/
namespace ReacJack.RingSafety
open CircularBuffer BoundedFifo TransitionRuns SharedAudio SharedFifo RingThreads

variable {α : Type}

structure InTable (capacity channels pos count : Nat) (c : Copy) : Prop where
  channel : c.channel < channels
  frame : c.frame < count
  slot : c.slot = CircularBuffer.slot capacity c.channel (pos + c.frame)

theorem blockCopiesInTable {channels : Nat} {capacity index frames : UInt32} {pos : Nat}
    (positive : 0 < capacity.toNat) (index_ : index.toNat = pos % capacity.toNat)
    (fits : frames.toNat ≤ capacity.toNat) {c : Copy} (member : c ∈ (blockCopies channels capacity index frames).flatten) :
    InTable capacity.toNat channels pos frames.toNat c := by
  have inside := Nat.mod_lt pos positive
  have first : (firstPart frames capacity index).toNat = min frames.toNat (capacity.toNat - index.toNat) :=
    firstToNat frames (by omega)
  simp only [blockCopies, List.mem_flatten, List.mem_flatMap, List.mem_range] at member
  obtain ⟨copies,⟨ch,channel,here⟩,within⟩ := member
  rcases List.mem_cons.mp here with rfl | second
  · obtain ⟨i,small,rfl⟩ := List.mem_map.mp within
    rw [List.mem_range] at small
    refine ⟨channel,by simp only; omega,?_⟩
    simp only [slot]
    rw [firstSegment (by omega)]
    omega
  · split at second
    · rename_i less
      rw [UInt32.lt_iff_toNat_lt] at less
      obtain rfl := List.mem_singleton.mp second
      obtain ⟨i,small,rfl⟩ := List.mem_map.mp within
      rw [List.mem_range, subToNat (by omega)] at small
      refine ⟨channel,by simp only; omega,?_⟩
      simp only [slot]
      rw [secondSegment positive (by omega) (by omega)]
      omega
    · contradiction

theorem blockCopiesCover {channels : Nat} {capacity index frames : UInt32}
    (inside : index.toNat < capacity.toNat) {ch f : Nat} (channel : ch < channels)
    (frame : f < frames.toNat) :
    ∃ c ∈ (blockCopies channels capacity index frames).flatten, c.channel = ch ∧ c.frame = f := by
  have first := firstToNat frames inside
  have column : ∀ copies ∈ (List.range (firstPart frames capacity index).toNat).map
        (fun i => (⟨ch,ch * capacity.toNat + index.toNat + i,i⟩ : Copy)) ::
      (if firstPart frames capacity index < frames then
        [(List.range (frames - firstPart frames capacity index).toNat).map
          (fun i => (⟨ch,ch * capacity.toNat + i,(firstPart frames capacity index).toNat + i⟩ : Copy))]
      else []), ∀ c ∈ copies, c ∈ (blockCopies channels capacity index frames).flatten := by
    intro copies here c within
    exact List.mem_flatten.mpr ⟨copies,List.mem_flatMap.mpr ⟨ch,List.mem_range.mpr channel,here⟩,within⟩
  rcases Nat.lt_or_ge f (firstPart frames capacity index).toNat with before | after
  · exact ⟨_,column _ List.mem_cons_self _ (List.mem_map.mpr ⟨f,List.mem_range.mpr before,rfl⟩),rfl,rfl⟩
  · have less : firstPart frames capacity index < frames := by
      rw [UInt32.lt_iff_toNat_lt]
      omega
    have rest := subToNat (show (firstPart frames capacity index).toNat ≤ frames.toNat by omega)
    let i := f - (firstPart frames capacity index).toNat
    have frame_ : (firstPart frames capacity index).toNat + i = f := by omega
    have small : i < (frames - firstPart frames capacity index).toNat := by omega
    have second := column ((List.range (frames - firstPart frames capacity index).toNat).map
      (fun i => (⟨ch,ch * capacity.toNat + i,(firstPart frames capacity index).toNat + i⟩ : Copy)))
      (by rw [if_pos less]; exact List.mem_cons_of_mem _ List.mem_cons_self) _
      (List.mem_map.mpr ⟨i,List.mem_range.mpr small,rfl⟩)
    exact ⟨_,second,rfl,frame_⟩

theorem rowCopiesInTable {channels : Nat} {capacity : UInt32} {readPos : UInt64} {count : UInt32}
    (positive : 0 < capacity.toNat) (unwrapped : readPos.toNat + count.toNat < 2 ^ 64) {c : Copy}
    (member : c ∈ (rowCopies channels capacity readPos count).flatten) :
    InTable capacity.toNat channels readPos.toNat count.toNat c := by
  simp only [rowCopies, List.mem_flatten, List.mem_flatMap, List.mem_map, List.mem_range] at member
  obtain ⟨copies,⟨ch,channel,frame,inside,rfl⟩,within⟩ := member
  obtain rfl := List.mem_singleton.mp within
  refine ⟨channel,inside,?_⟩
  simp only [slot]
  rw [indexToNat _ positive, UInt64.toNat_add, UInt64.toNat_ofNat']
  congr 2
  omega

theorem readCopiesInTable {h : Header} (sound : Sound h) {shape : Shape} {count : UInt32}
    (available : count.toNat ≤ fill h) (unwrapped : h.readPos.toNat + count.toNat < 2 ^ 64) {c : Copy}
    (member : c ∈ (readCopies h shape h.readPos count).flatten) :
    InTable h.capacityFrames.toNat h.channels.toNat h.readPos.toNat count.toNat c := by
  have bounded := sound.bounded
  cases shape with
  | planar => exact blockCopiesInTable sound.positive (indexToNat _ sound.positive) (by omega) member
  | interleaved outChannels =>
    obtain ⟨channel,frame,slot⟩ := rowCopiesInTable sound.positive unwrapped member
    refine ⟨?_,frame,slot⟩
    split at channel
    · exact channel
    · rename_i more
      rw [UInt32.lt_iff_toNat_lt] at more
      omega

theorem takeCopyMember {choice : Nat} {pending rest : List (List Copy)} {copy : Copy}
    (taken : takeCopy choice pending = some (copy,rest)) :
    ∀ c, c ∈ pending.flatten ↔ c = copy ∨ c ∈ rest.flatten := by
  induction pending with
  | nil => contradiction
  | cons current later ih =>
    cases current with
    | nil => exact ih taken
    | cons c cs =>
      obtain ⟨chosen,here,both⟩ := Option.map_eq_some_iff.mp taken
      obtain ⟨inside,there⟩ := List.getElem?_eq_some_iff.mp here
      cases both
      intro d
      have split := (List.getElem_cons_eraseIdx_perm inside).mem_iff (a := d)
      rw [there, List.mem_cons] at split
      rw [List.flatten_cons, List.flatten_cons, List.mem_append, List.mem_append, ← split, or_assoc]

def WriterOk (h : Header) (samples : Nat → α) (stores : List (Access α)) : WriterPc α → Prop
  | .idle => True
  | .checking _ _ writePos readPos =>
    (∀ v, writePos = some v → v = h.writePos) ∧
    (∀ v, readPos = some v → v.toNat ≤ h.readPos.toNat ∧
      h.writePos.toNat ≤ v.toNat + h.capacityFrames.toNat)
  | .admitted _ frames => h.writePos.toNat + frames.toNat ≤ h.readPos.toNat + h.capacityFrames.toNat
  | .copying channels frames writePos pending =>
    writePos = h.writePos ∧
    h.writePos.toNat + frames.toNat ≤ h.readPos.toNat + h.capacityFrames.toNat ∧
    (∀ c ∈ pending.flatten,
      InTable h.capacityFrames.toNat h.channels.toNat h.writePos.toNat frames.toNat c) ∧
    ∀ ch f, ch < h.channels.toNat → f < frames.toNat →
      (∃ c ∈ pending.flatten, c.channel = ch ∧ c.frame = f) ∨
      samples (slot h.capacityFrames.toNat ch (h.writePos.toNat + f)) = channels ch f ∧
        ⟨h.writePos.toNat + f,ch,channels ch f⟩ ∈ stores

def ReaderOk (h : Header) : ReaderPc → Prop
  | .idle | .regulating .. | .reading .. | .seeking _ => True
  | .measuring _ _ _ _ readPos | .counting _ _ _ readPos => readPos = h.readPos
  | .dropping _ _ readPos drop =>
    readPos = h.readPos ∧ h.readPos.toNat + drop.toNat ≤ h.writePos.toNat
  | .copying _ _ readPos count pending =>
    readPos = h.readPos ∧ h.readPos.toNat + count.toNat ≤ h.writePos.toNat ∧
    ∀ c ∈ pending.flatten,
      InTable h.capacityFrames.toNat h.channels.toNat h.readPos.toNat count.toNat c
  | .aiming _ writePos => h.readPos.toNat ≤ writePos.toNat ∧ writePos.toNat ≤ h.writePos.toNat
  | .jumping writePos newFill =>
    h.readPos.toNat + newFill.toNat ≤ writePos.toNat ∧ writePos.toNat ≤ h.writePos.toNat

structure Grows (before after : Header) : Prop where
  capacityFrames : after.capacityFrames = before.capacityFrames
  channels : after.channels = before.channels
  writePos : before.writePos.toNat ≤ after.writePos.toNat
  readPos : before.readPos.toNat ≤ after.readPos.toNat

theorem writerStable {h h' : Header} {samples : Nat → α} {stores : List (Access α)} {pc : WriterPc α}
    (ok : WriterOk h samples stores pc) (grows : Grows h h') (own : h'.writePos = h.writePos) :
    WriterOk h' samples stores pc := by
  obtain ⟨capacityFrames,channels_,_,readPos⟩ := grows
  cases pc with
  | idle => trivial
  | checking channels frames w r =>
    refine ⟨fun v loaded => by rw [own]; exact ok.1 v loaded,fun v loaded => ?_⟩
    have := ok.2 v loaded
    rw [own, capacityFrames]
    omega
  | admitted channels frames =>
    simp only [WriterOk, own, capacityFrames] at *
    omega
  | copying channels frames writePos pending =>
    simp only [WriterOk, own, capacityFrames, channels_] at *
    exact ⟨ok.1,by omega,ok.2.2⟩

theorem readerStable {h h' : Header} {pc : ReaderPc} (ok : ReaderOk h pc) (grows : Grows h h')
    (own : h'.readPos = h.readPos) : ReaderOk h' pc := by
  obtain ⟨capacityFrames,channels,writePos,_⟩ := grows
  cases pc with
  | idle | regulating | reading | seeking => trivial
  | measuring | counting =>
    simp only [ReaderOk, own] at *
    exact ok
  | copying frames insert readPos count pending =>
    simp only [ReaderOk, own, capacityFrames, channels] at *
    exact ⟨ok.1,ok.2.1.trans writePos,ok.2.2⟩
  | dropping | aiming | jumping =>
    simp only [ReaderOk, own] at *
    exact ⟨ok.1,ok.2.trans writePos⟩

def promised (s : Threads α) : List (Frame α) :=
  match s.writer with
  | .copying channels frames _ _ => s.accepted ++ block channels frames.toNat
  | _ => s.accepted

def Stored (stream : List (Frame α)) (e : Access α) : Prop :=
  ∃ frame, stream[e.position]? = some frame ∧ frame e.channel = e.value

theorem storedLater {stream more : List (Frame α)} {e : Access α} (stored : Stored stream e) :
    Stored (stream ++ more) e := by
  obtain ⟨frame,found,value⟩ := stored
  have inside := (List.getElem?_eq_some_iff.mp found).1
  exact ⟨frame,by rw [List.getElem?_append_left inside]; exact found,value⟩

/-- Holds after every step. `q` is the queue that the live header describes. -/
structure Safe {capacity : Nat} (s : Threads α) (q : Queue (Frame α) capacity) : Prop where
  refines : Refines s.ring q
  stream : q.stream = s.accepted
  writer : WriterOk s.ring.header s.ring.samples s.stores s.writer
  reader : ReaderOk s.ring.header s.reader
  stores : ∀ e ∈ s.stores, Stored (promised s) e
  complete : ∀ p frame ch, s.accepted[p]? = some frame → ch < s.ring.header.channels.toNat →
    ⟨p,ch,frame ch⟩ ∈ s.stores
  loads : ∀ e ∈ s.loads, e.channel < s.ring.header.channels.toNat ∧ Stored s.accepted e

end ReacJack.RingSafety
