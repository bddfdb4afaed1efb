import ReacJack.RingSequential
import ReacJack.PipeWireFifo
import ReacJack.PipeWireGuarantees
import ReacJack.PipeWireWrap

/-! The two levels of the PipeWire client's ring, single steps of two threads and whole
calls one after the other, show the same frames accepted and the same reads. A read counts
as made when it loads `write_pos`, a write when it stores it. What a write is refused for
stays out: the room of a read that is under way is not free yet. -/
namespace ReacJack.PipeWireAtomic
open BufferLoops TransitionRuns BoundedFifo PipeWireThreads PipeWireCrossing
open PipeWireRing hiding step
open PipeWireGuarantees (startFollows runFollows promisedGrows)
open PipeWireFifo (Refines initRefines writeRefines readRefines)
open SharedFifo (Frame block)

variable {w : Nat} {α : Type}

structure Whole (w : Nat) (α : Type) where
  ring : AudioRing w α
  accepted : List (Nat → α)
  deliveries : List (Delivery w α)

def wholeCall [Zero α] (s : Whole w α) : Call w α → Option (Whole w α)
  | .write interleaved frames =>
    (audioRingWrite s.ring interleaved frames).map fun (code,ring) =>
      if code = 0 then
        {s with ring, accepted := s.accepted ++ frameRows s.ring.channels.toNat interleaved frames.toNat}
      else {s with ring}
  | .read out frames =>
    (audioRingRead s.ring out frames).map fun (count,ring,out) =>
      {s with ring, deliveries := s.deliveries ++ [⟨frames,count,out⟩]}

theorem whileReaches {σ τ ι : Type} {step : σ → ι → Option σ} {test : τ → Bool} {body : τ → τ} (at_ : τ → σ)
    (round : ∀ t, test t = true → Reaches step (at_ t) (at_ (body t))) {fuel : Nat} {t done : τ}
    (ended : whileLoop test body fuel t = some done) : Reaches step (at_ t) (at_ done) ∧ test done = false := by
  induction fuel generalizing t with
  | zero =>
    simp only [whileLoop] at ended
    split at ended
    · contradiction
    · rename_i stop
      cases ended
      exact ⟨reachesHere _,by simpa using stop⟩
  | succ fuel ih =>
    simp only [whileLoop] at ended
    split at ended
    · rename_i more
      obtain ⟨later,stop⟩ := ih ended
      exact ⟨reachesTrans (round t more) later,stop⟩
    · rename_i stop
      cases ended
      exact ⟨reachesHere _,by simpa using stop⟩

section
variable [Zero α]

theorem writerDrains (ring : AudioRing w α) (interleaved : Nat → α) (frames writePos written index todo : BitVec w)
    (pending : List Nat) (r : ReaderPc w α) (a : List (Nat → α)) (d : List (Delivery w α)) :
    Reaches step ⟨ring,.copying interleaved frames writePos written index todo pending,r,a,d⟩
      ⟨{ring with samples := pending.foldl (fun dst e => put dst (index.toNat * ring.channels.toNat + e)
          (interleaved (written.toNat * ring.channels.toNat + e))) ring.samples},
        .moving interleaved frames writePos (written + todo),r,a,d⟩ := by
  induction pending generalizing ring with
  | nil => exact reachesStep (l := .writer 0) rfl (reachesHere _)
  | cons e rest ih => exact reachesStep (l := .writer 0) rfl (ih {ring with samples := _})

theorem writerRound (ring : AudioRing w α) (interleaved : Nat → α) (frames : BitVec w) (r : ReaderPc w α)
    (a : List (Nat → α)) (d : List (Delivery w α)) (c : Copying w α) (more : c.moved < frames) :
    Reaches step ⟨{ring with samples := c.buffer},.moving interleaved frames ring.writePos c.moved,r,a,d⟩
      ⟨{ring with samples := (writeChunk ring interleaved frames c).buffer},
        .moving interleaved frames ring.writePos (writeChunk ring interleaved frames c).moved,r,a,d⟩ := by
  let round := chunk ring.capacityFrames ring.writePos frames c.moved
  have drained := writerDrains {ring with samples := c.buffer} interleaved frames ring.writePos c.moved
    round.1 round.2 (List.range (round.2.toNat * ring.channels.toNat)) r a d
  rw [RingSequential.putsMemcpy] at drained
  exact reachesStep (l := .writer 0) (if_pos more) drained

theorem wholeWrite {ring ring' : AudioRing w α} {interleaved : Nat → α} {frames : BitVec w} {code : Int}
    (called : audioRingWrite ring interleaved frames = some (code,ring')) (r : ReaderPc w α)
    (a : List (Nat → α)) (d : List (Delivery w α)) :
    Reaches step ⟨ring,.idle,r,a,d⟩
      ⟨ring',.idle,r,if code = 0 then a ++ frameRows ring.channels.toNat interleaved frames.toNat else a,d⟩ := by
  have entered : step ⟨ring,.idle,r,a,d⟩ (.write interleaved frames) =
    some ⟨ring,.entered interleaved frames,r,a,d⟩ := rfl
  have loaded : step ⟨ring,.entered interleaved frames,r,a,d⟩ (.writer 0) =
    some ⟨ring,.checking interleaved frames ring.readPos,r,a,d⟩ := rfl
  refine reachesStep entered (reachesStep loaded ?_)
  simp only [audioRingWrite] at called
  split at called
  · rename_i full
    cases called
    exact reachesStep (l := .writer 0) (if_pos full) (reachesHere _)
  · rename_i room
    obtain ⟨done,looped,same⟩ := Option.map_eq_some_iff.mp called
    cases same
    obtain ⟨moved,ended⟩ := whileReaches (fun c : Copying w α => (⟨{ring with samples := c.buffer},
      .moving interleaved frames ring.writePos c.moved,r,a,d⟩ : Threads w α))
      (fun c more => writerRound ring interleaved frames r a d c (of_decide_eq_true more)) looped
    refine reachesStep (l := .writer 0) (if_neg room) (reachesThen (l := .writer 0) moved ?_)
    exact if_neg (of_decide_eq_false ended)

theorem readerDrains (ring : AudioRing w α) (out : Nat → α) (frames readPos toRead readFrames index todo : BitVec w)
    (pending : List Nat) (p : WriterPc w α) (a : List (Nat → α)) (d : List (Delivery w α)) :
    Reaches step ⟨ring,p,.copying out frames readPos toRead readFrames index todo pending,a,d⟩
      ⟨ring,p,.moving (pending.foldl (fun dst e => put dst (readFrames.toNat * ring.channels.toNat + e)
        (ring.samples (index.toNat * ring.channels.toNat + e))) out)
          frames readPos toRead (readFrames + todo),a,d⟩ := by
  induction pending generalizing out with
  | nil => exact reachesStep (l := .reader 0) rfl (reachesHere _)
  | cons e rest ih => exact reachesStep (l := .reader 0) rfl (ih _)

theorem readerRound (ring : AudioRing w α) (frames toRead : BitVec w) (p : WriterPc w α)
    (a : List (Nat → α)) (d : List (Delivery w α)) (c : Copying w α) (more : c.moved < toRead) :
    Reaches step ⟨ring,p,.moving c.buffer frames ring.readPos toRead c.moved,a,d⟩
      ⟨ring,p,
        .moving (readChunk ring toRead c).buffer frames ring.readPos toRead (readChunk ring toRead c).moved,a,d⟩ := by
  let round := chunk ring.capacityFrames ring.readPos toRead c.moved
  have drained := readerDrains ring c.buffer frames ring.readPos toRead c.moved
    round.1 round.2 (List.range (round.2.toNat * ring.channels.toNat)) p a d
  rw [RingSequential.putsMemcpy] at drained
  exact reachesStep (l := .reader 0) (if_pos more) drained

theorem wholeRead {ring ring' : AudioRing w α} {out out' : Nat → α} {frames count : BitVec w}
    (called : audioRingRead ring out frames = some (count,ring',out')) (p : WriterPc w α)
    (a : List (Nat → α)) (d : List (Delivery w α)) :
    Reaches step ⟨ring,p,.idle,a,d⟩ ⟨ring',p,.idle,a,d ++ [⟨frames,count,out'⟩]⟩ := by
  have entered : step ⟨ring,p,.idle,a,d⟩ (.read out frames) = some ⟨ring,p,.entered out frames,a,d⟩ := rfl
  have loaded : step ⟨ring,p,.entered out frames,a,d⟩ (.reader 0) =
    some ⟨ring,p,.counting out frames ring.readPos,a,d⟩ := rfl
  have counted : step ⟨ring,p,.counting out frames ring.readPos,a,d⟩ (.reader 0) =
    some ⟨ring,p,.moving out frames ring.readPos (readCount ring frames) 0,a,d⟩ := rfl
  refine reachesStep entered (reachesStep loaded (reachesStep counted ?_))
  obtain ⟨done,looped,same⟩ := Option.map_eq_some_iff.mp called
  cases same
  obtain ⟨moved,ended⟩ := whileReaches (fun c : Copying w α => (⟨ring,p,
    .moving c.buffer frames ring.readPos (readCount ring frames) c.moved,a,d⟩ : Threads w α))
    (fun c more => readerRound ring frames (readCount ring frames) p a d c (of_decide_eq_true more)) looped
  refine reachesThen (l := .reader 0) moved ?_
  exact if_neg (of_decide_eq_false ended)

theorem wholeInterleaves {s t : Whole w α} {calls : List (Call w α)} (called : run wholeCall s calls = some t) :
    Reaches step ⟨s.ring,.idle,.idle,s.accepted,s.deliveries⟩ ⟨t.ring,.idle,.idle,t.accepted,t.deliveries⟩ := by
  induction calls generalizing s with
  | nil =>
    cases Option.some.inj called
    exact reachesHere _
  | cons call rest ih =>
    obtain ⟨next,made,later⟩ := runCons called
    refine reachesTrans ?_ (ih later)
    cases call with
    | write interleaved frames =>
      obtain ⟨⟨code,ring'⟩,result,rfl⟩ := Option.map_eq_some_iff.mp made
      have reached := wholeWrite result .idle s.accepted s.deliveries
      simp only at reached ⊢
      split <;> rename_i ok <;> simpa only [ok, if_true, if_false] using reached
    | read out frames =>
      obtain ⟨⟨count,ring',out'⟩,result,rfl⟩ := Option.map_eq_some_iff.mp made
      exact wholeRead result .idle s.accepted s.deliveries

end

def underWay : ReaderPc w α → Option (BitVec w × BitVec w)
  | .moving _ frames _ toRead _ | .copying _ frames _ toRead .. => some (frames,toRead)
  | _ => none

def look (width : Nat) (d : Delivery w α) : BitVec w × BitVec w × List (List α) :=
  (d.frames,d.toRead,rows d.out width d.frames.toNat)

def answer [Zero α] (width : Nat) (stream : List (Nat → α)) (pos : Nat) (granted : BitVec w × BitVec w) :
    BitVec w × BitVec w × List (List α) :=
  (granted.1,granted.2,(List.range granted.1.toNat).map (fun f =>
    samplesOf width (((stream.take (pos + granted.2.toNat))[pos + f]?).getD (fun _ => 0))))

theorem answerLater [Zero α] {width : Nat} {stream more : List (Nat → α)} {pos : Nat}
    {granted : BitVec w × BitVec w} (inside : pos + granted.2.toNat ≤ stream.length) :
    answer width (stream ++ more) pos granted = answer width stream pos granted := by
  simp only [answer, List.take_append_of_le_length inside]

def claimed (s : Threads w α) : Nat := ((underWay s.reader).map (fun granted => granted.2.toNat)).getD 0

def pendingLook [Zero α] (width : Nat) (s : Threads w α) : List (BitVec w × BitVec w × List (List α)) :=
  (underWay s.reader).toList.map (answer width s.accepted s.ring.readPos.toNat)

section
variable [Zero α] {capacity width : Nat}

theorem followsClaimed {s : Threads w α} {h : Passing α capacity width} (follows : Follows s h) :
    s.ring.readPos.toNat + claimed s ≤ s.accepted.length ∧ h.claimed = claimed s := by
  have ok := follows.reader
  have taken := follows.taken
  have claimedLe := h.claimedLe
  rw [follows.stream] at claimedLe
  suffices same : h.claimed = claimed s from ⟨by omega,same⟩
  cases at_ : s.reader <;> rw [at_] at ok <;> simp only [claimed, underWay, at_]
  · exact ok
  · exact ok
  · exact ok.1
  · exact ok.2.1
  · exact ok.2.1

/-- The ring of whole calls is ahead of the threads by the read under way. -/
structure Atomic (width : Nat) (s : Threads w α) (t : Whole w α) (q : Queue (Frame α) capacity) : Prop where
  refines : Refines t.ring q
  widthEq : t.ring.channels.toNat = width
  stream : q.stream = s.accepted
  taken : q.taken = s.ring.readPos.toNat + claimed s
  accepted : t.accepted = s.accepted
  looks : t.deliveries.map (look width) = s.deliveries.map (look width) ++ pendingLook width s

structure Quiet (s next : Threads w α) : Prop where
  accepted : next.accepted = s.accepted
  readPos : next.ring.readPos = s.ring.readPos
  deliveries : next.deliveries = s.deliveries
  underWay : underWay next.reader = underWay s.reader

theorem quietAtomic {s next : Threads w α} {t : Whole w α} {q : Queue (Frame α) capacity}
    (atomic : Atomic width s t q) (quiet : Quiet s next) : Atomic width next t q := by
  obtain ⟨accepted,readPos,deliveries,underWay⟩ := quiet
  refine ⟨atomic.refines,atomic.widthEq,?_,?_,?_,?_⟩
  · rw [accepted, atomic.stream]
  · rw [atomic.taken, readPos, claimed, claimed, underWay]
  · rw [accepted, atomic.accepted]
  · rw [atomic.looks, deliveries, pendingLook, pendingLook, underWay, readPos, accepted]

theorem publishAtomic {s : Threads w α} {h : Passing α capacity width} {t : Whole w α}
    {q : Queue (Frame α) capacity} (follows : Follows s h) (atomic : Atomic width s t q)
    {interleaved : Nat → α} {frames writePos written : BitVec w}
    (at_ : s.writer = .moving interleaved frames writePos written)
    (small : s.accepted.length + frames.toNat < 2 ^ w) :
    ∃ (t' : Whole w α) (q' : Queue (Frame α) capacity), Reaches wholeCall t t' ∧ Atomic width {s with
      ring := {s.ring with writePos := writePos + frames}
      writer := .idle
      accepted := s.accepted ++ frameRows s.ring.channels.toNat interleaved frames.toNat} t' q' := by
  have ok := follows.writer
  rw [at_] at ok
  obtain ⟨_,block_,_,_⟩ := ok
  have bounded := h.bounded
  rw [block_, frameRowsLength, follows.stream] at bounded
  have taken := atomic.taken
  have read := follows.taken
  obtain ⟨inside,_⟩ := followsClaimed follows
  have sum := takenAddFill q
  have stream := atomic.stream
  let channels : Nat → Nat → α := fun ch f => interleaved (f * width + ch)
  cases offered_ : offer q (block channels frames.toNat) with
  | none =>
    rw [refusedIff, SharedFifo.blockLength] at offered_
    have length := congrArg List.length stream
    have fillLe := fillLeCapacity q
    omega
  | some q' =>
    obtain ⟨_,stream',taken'⟩ := offered offered_
    obtain ⟨ring',called,refines,channels'⟩ := writeRefines atomic.refines
      (fun f _ ch _ => by rw [atomic.widthEq]) offered_
      (by rw [stream', List.length_append, SharedFifo.blockLength, stream]; exact small)
    have made : wholeCall t (.write interleaved frames) = some ⟨ring',
        t.accepted ++ frameRows t.ring.channels.toNat interleaved frames.toNat,t.deliveries⟩ := by
      simp only [wholeCall, called, Option.map_some, if_true]
    refine ⟨_,q',reachesStep made (reachesHere _),refines,?_,?_,?_,?_,?_⟩
    · rw [channels', atomic.widthEq]
    · rw [stream', stream, follows.widthEq]
      rfl
    · rw [taken', taken]
      rfl
    · rw [atomic.accepted, atomic.widthEq, follows.widthEq]
    · refine atomic.looks.trans (congrArg _ ?_)
      cases granted : underWay s.reader with
      | none => simp only [pendingLook, granted, Option.toList_none, List.map_nil]
      | some granted_ =>
        simp only [claimed, granted, Option.map_some, Option.getD_some] at inside
        simp only [pendingLook, granted, Option.toList_some, List.map_cons, List.map_nil]
        rw [answerLater inside]

theorem countAtomic {s : Threads w α} {h : Passing α capacity width} {t : Whole w α}
    {q : Queue (Frame α) capacity} (follows : Follows s h) (atomic : Atomic width s t q)
    {out : Nat → α} {frames readPos : BitVec w} (at_ : s.reader = .counting out frames readPos) :
    ∃ (t' : Whole w α) (q' : Queue (Frame α) capacity), Reaches wholeCall t t' ∧ Atomic width {s with
      reader := .moving out frames readPos
        (if s.ring.writePos - readPos < frames then s.ring.writePos - readPos else frames) 0} t' q' := by
  have ok := follows.reader
  rw [at_] at ok
  obtain ⟨_,rfl⟩ := ok
  have nothing : underWay s.reader = none := by rw [at_]; rfl
  have free : claimed s = 0 := by rw [claimed, nothing]; rfl
  have readPos : t.ring.readPos = s.ring.readPos := by
    apply BitVec.eq_of_toNat_eq
    rw [atomic.refines.taken, atomic.taken, free, Nat.add_zero]
  have writePos : t.ring.writePos = s.ring.writePos := by
    apply BitVec.eq_of_toNat_eq
    rw [atomic.refines.written, atomic.stream, follows.written, follows.stream]
  have granted : readCount t.ring frames =
      if s.ring.writePos - s.ring.readPos < frames then s.ring.writePos - s.ring.readPos else frames := by
    rw [readCount, readPos, writePos]
  have count := readCountToNat t.ring frames
  rw [PipeWireFifo.refinesFill atomic.refines] at count
  obtain ⟨ring',out',called,refines,channels',rows_⟩ := readRefines atomic.refines out frames
  have made : wholeCall t (.read out frames) = some ⟨ring',t.accepted,
      t.deliveries ++ [⟨frames,readCount t.ring frames,out'⟩]⟩ := by
    simp only [wholeCall, called, Option.map_some]
  rw [← granted]
  refine ⟨_,advance q frames.toNat,reachesStep made (reachesHere _),refines,?_,atomic.stream,?_,atomic.accepted,?_⟩
  · rw [channels', atomic.widthEq]
  · simp only [advance, claimed, underWay, Option.map_some, Option.getD_some]
    rw [atomic.taken, free, count, Nat.add_zero, Nat.min_comm]
  · have before := atomic.looks
    simp only [pendingLook, nothing, Option.toList_none, List.map_nil, List.append_nil] at before
    simp only [List.map_append, before, List.map_cons, List.map_nil, pendingLook, underWay, Option.toList_some]
    congr 2
    simp only [look, answer, rows, Prod.mk.injEq, true_and]
    refine List.map_congr_left fun f here => List.map_congr_left fun ch channel => ?_
    rw [List.mem_range] at here channel
    have taken := atomic.taken
    have sum := takenAddFill q
    have length := congrArg List.length atomic.stream
    have row_ := rows_ f here ch (by rw [atomic.widthEq]; exact channel)
    rw [atomic.widthEq] at row_
    rw [row_, frameOr, atomic.stream, taken, free, Nat.add_zero]
    -- a read that comes up short has taken the whole stream
    rcases Nat.lt_or_ge f (readCount t.ring frames).toNat with real | short
    · rw [List.getElem?_take_of_lt (by omega)]
    · rw [List.getElem?_eq_none (by omega), List.getElem?_eq_none (by rw [List.length_take]; omega)]

theorem deliveredLook {d : Delivery w α} {stream : List (Nat → α)} {pos : Nat} (padded : Padded width d)
    (inside : pos + d.toRead.toNat ≤ stream.length)
    (grown : (stream.take pos).map (samplesOf width) ++
        (frameRows width d.out d.toRead.toNat).map (samplesOf width) =
      (stream.take (pos + d.toRead.toNat)).map (samplesOf width)) :
    look width d = answer width stream pos (d.frames,d.toRead) := by
  rw [List.take_add, List.map_append] at grown
  have fresh := List.append_cancel_left grown
  obtain ⟨upTo,silent⟩ := padded
  simp only [look, answer, rows, Prod.mk.injEq, true_and]
  refine List.map_congr_left fun f here => ?_
  rw [List.mem_range] at here
  rcases Nat.lt_or_ge f d.toRead.toNat with real | short
  · have frame := congrArg (fun l => l[f]?) fresh
    simp only [List.getElem?_map, frameRowsAt _ real, Option.map_some,
      List.getElem?_take_of_lt real, List.getElem?_drop] at frame
    rw [List.getElem?_take_of_lt (by omega)]
    rw [List.getElem?_eq_getElem (by omega)] at frame ⊢
    exact Option.some.inj frame
  · rw [List.getElem?_eq_none (by rw [List.length_take]; omega)]
    refine List.map_congr_left fun ch channel => ?_
    exact silent f ch short here (List.mem_range.mp channel)

theorem returnAtomic {s next : Threads w α} {h h' : Passing α capacity width} {t : Whole w α}
    {q : Queue (Frame α) capacity} (follows : Follows s h) (follows' : Follows next h')
    (atomic : Atomic width s t q) {out out' : Nat → α} {frames readPos toRead readFrames : BitVec w}
    (at_ : s.reader = .moving out frames readPos toRead readFrames)
    (returned : next = {s with
      ring := {s.ring with readPos := readPos + toRead}
      reader := .idle
      deliveries := s.deliveries ++ [⟨frames,toRead,out'⟩]}) : Atomic width next t q := by
  subst returned
  have ok := follows.reader
  rw [at_] at ok
  obtain ⟨rfl,_⟩ := ok
  have granted : underWay s.reader = some (frames,toRead) := by rw [at_]; rfl
  have more : claimed s = toRead.toNat := by rw [claimed, granted]; rfl
  obtain ⟨inside,_⟩ := followsClaimed follows
  rw [more] at inside
  have written := follows.written
  have stream := follows.stream
  have below := s.ring.writePos.isLt
  have moved : (s.ring.readPos + toRead).toNat = s.ring.readPos.toNat + toRead.toNat := by
    rw [BitVec.toNat_add]
    refine Nat.mod_eq_of_lt ?_
    rw [stream] at written
    omega
  refine ⟨atomic.refines,atomic.widthEq,atomic.stream,?_,atomic.accepted,?_⟩
  · rw [atomic.taken, more]
    exact moved.symm
  · have promise : pendingLook width s = [answer width s.accepted s.ring.readPos.toNat (frames,toRead)] := by
      rw [pendingLook, granted]
      rfl
    have same : look width ⟨frames,toRead,out'⟩ = answer width s.accepted s.ring.readPos.toNat (frames,toRead) := by
      refine deliveredLook (follows'.padded _ (List.mem_append_right _ (List.mem_singleton.mpr rfl))) inside ?_
      have heard' := follows'.heard
      rw [PipeWireCrossing.heard, List.flatMap_append, List.flatMap_singleton, ← PipeWireCrossing.heard,
        follows.heard, stream, ← follows.taken, follows'.stream, ← follows'.taken] at heard'
      simp only [moved] at heard'
      exact heard'
    rw [atomic.looks, promise, ← same]
    simp only [List.map_append, List.map_cons, List.map_nil, pendingLook, underWay, Option.toList_none,
      List.append_nil]

theorem stepAtomic {s next : Threads w α} {h h' : Passing α capacity width} {t : Whole w α}
    {q : Queue (Frame α) capacity} (follows : Follows s h) (follows' : Follows next h')
    (atomic : Atomic width s t q) {label : Label w α} (taken : step s label = some next)
    (small : promised next < 2 ^ w) :
    ∃ (t' : Whole w α) (q' : Queue (Frame α) capacity), Reaches wholeCall t t' ∧ Atomic width next t' q' := by
  cases label with
  | write interleaved frames =>
    obtain ⟨_,rfl⟩ := writeEnters taken
    exact ⟨t,q,reachesHere t,quietAtomic atomic ⟨rfl,rfl,rfl,rfl⟩⟩
  | read out frames =>
    obtain ⟨idle,rfl⟩ := readEnters taken
    exact ⟨t,q,reachesHere t,quietAtomic atomic ⟨rfl,rfl,rfl,by rw [idle]; rfl⟩⟩
  | writer choice =>
    cases writerActs taken with
    | publishes at_ _ =>
      refine publishAtomic follows atomic at_ ?_
      simp only [promised, List.length_append, frameRowsLength] at small
      omega
    | loads | refuses | admits | begins | copied | copies =>
      exact ⟨t,q,reachesHere t,quietAtomic atomic ⟨rfl,rfl,rfl,rfl⟩⟩
  | reader choice =>
    cases readerActs taken with
    | counts at_ => exact countAtomic follows atomic at_
    | returns at_ _ => exact ⟨t,q,reachesHere t,returnAtomic follows follows' atomic at_ rfl⟩
    | loads at_ | begins at_ | copied at_ | copies at_ =>
      exact ⟨t,q,reachesHere t,quietAtomic atomic ⟨rfl,rfl,rfl,by simp only [underWay, at_]⟩⟩

theorem startAtomic (channels : UInt16) {capacityFrames : BitVec w} (positive : 0 < capacityFrames.toNat) :
    Atomic channels.toNat (start (audioRingInit channels capacityFrames : AudioRing w α))
      ⟨audioRingInit channels capacityFrames,[],[]⟩ (empty : Queue (Frame α) capacityFrames.toNat) :=
  ⟨initRefines channels positive,rfl,rfl,rfl,rfl,rfl⟩

theorem threadsAtomic (channels : UInt16) {capacityFrames : BitVec w} (positive : 0 < capacityFrames.toNat)
    {schedule : List (Label w α)} {s : Threads w α}
    (reached : run step (start (audioRingInit channels capacityFrames)) schedule = some s)
    (small : promised s < 2 ^ w) :
    ∃ t, Reaches wholeCall ⟨audioRingInit channels capacityFrames,[],[]⟩ t ∧ t.accepted = s.accepted ∧
      t.deliveries.map (look channels.toNat) =
        s.deliveries.map (look channels.toNat) ++ pendingLook channels.toNat s := by
  let opening : Whole w α := ⟨audioRingInit channels capacityFrames,[],[]⟩
  have inv : ∃ (h : Passing α capacityFrames.toNat channels.toNat) (t : Whole w α)
      (q : Queue (Frame α) capacityFrames.toNat), Follows s h ∧ Reaches wholeCall opening t ∧
        Atomic channels.toNat s t q := by
    refine runInvariantWhile (I := fun s : Threads w α =>
        ∃ (h : Passing α capacityFrames.toNat channels.toNat) (t : Whole w α)
          (q : Queue (Frame α) capacityFrames.toNat), Follows s h ∧ Reaches wholeCall opening t ∧
            Atomic channels.toNat s t q)
      (W := fun s => promised s < 2 ^ w) ?_ ?_
      ⟨_,opening,_,startFollows channels positive,reachesHere _,startAtomic channels positive⟩ reached small
    · exact fun s label next taken below => (promisedGrows taken).trans_lt below
    · rintro s label next ⟨h,t,q,follows,called,atomic⟩ below taken
      obtain ⟨h',follows'⟩ := stepFollows follows taken below
      obtain ⟨t',q',more,atomic'⟩ := stepAtomic follows follows' atomic taken below
      exact ⟨h',t',q',follows',reachesTrans called more,atomic'⟩
  obtain ⟨_,t,_,_,called,atomic⟩ := inv
  exact ⟨t,called,atomic.accepted,atomic.looks⟩

theorem interleavingsAreCalls (channels : UInt16) (capacityFrames : BitVec w)
    (positive : 0 < capacityFrames.toNat) (accepted : List (Nat → α))
    (looks : List (BitVec w × BitVec w × List (List α))) (small : accepted.length < 2 ^ w) :
    (∃ schedule s, run step (start (audioRingInit channels capacityFrames)) schedule = some s ∧
      s.writer = .idle ∧ s.reader = .idle ∧ s.accepted = accepted ∧
      s.deliveries.map (look channels.toNat) = looks) ↔
    ∃ calls t, run wholeCall ⟨audioRingInit channels capacityFrames,[],[]⟩ calls = some t ∧
      t.accepted = accepted ∧ t.deliveries.map (look channels.toNat) = looks := by
  constructor
  · rintro ⟨schedule,s,reached,writer,reader,rfl,rfl⟩
    obtain ⟨t,⟨calls,called⟩,accepted,looks⟩ := threadsAtomic channels positive reached
      (by rw [promised, writer]; exact small)
    refine ⟨calls,t,called,accepted,looks.trans ?_⟩
    rw [pendingLook, reader]
    exact List.append_nil _
  · rintro ⟨calls,t,called,accepted,looks⟩
    obtain ⟨schedule,reached⟩ := wholeInterleaves called
    exact ⟨schedule,_,reached,rfl,rfl,accepted,looks⟩

end

theorem interleavingsAreCallsCrossed :
    ∃ calls t, run wholeCall ⟨audioRingInit 2 3,[],[]⟩ calls = some t ∧
      t.accepted = PipeWireGuarantees.crossed.accepted ∧
      t.deliveries.map (look 2) = [(2#8,2#8,[[5,6],[7,8]])] :=
  (interleavingsAreCalls 2 3 (by decide) PipeWireGuarantees.crossed.accepted [(2#8,2#8,[[5,6],[7,8]])]
    (by decide)).mp ⟨PipeWireGuarantees.crossing,PipeWireGuarantees.crossed,rfl,rfl,rfl,rfl,by decide⟩

end ReacJack.PipeWireAtomic
