import ReacJack.RxRingOrder
import ReacJack.JackAlignment

/-! The Linux build of `reacjack.c` as a whole: the kernel, the accesses of `copyData`, the two
steps of `process` and the reset in `main`, all on the same globals and in any order. The
trail remembers what those of `RxRingOrder` and `JackAlignment` remember. -/
namespace ReacJack.LinuxBridge
open ReacDecode JackRingbuffer RxRing
open JackBridge (Bridge System Cycle CaptureResult)
open JackAlignment (Block)

variable {capacity : Nat}

structure Linux (capacity : Nat) where
  receiver : Receiver capacity
  processing : Option (Cycle × Nat)

inductive Event where
  | capture (action : Action)
  | processQuery (cycle : Cycle)
  | processRead
  | reset

def systemOf (s : Linux capacity) : System capacity := ⟨s.receiver.bridge,true,s.processing⟩

def callback (s : Linux capacity) (action : JackBridge.Action) : Option (Linux capacity) :=
  (JackBridge.act (systemOf s) action).map fun system =>
    ⟨{s.receiver with bridge := system.bridge},system.processing⟩

def act (s : Linux capacity) : Event → Option (Linux capacity)
  | .capture action => (RxRing.act s.receiver action).map fun receiver => {s with receiver}
  | .processQuery cycle => callback s (.processQuery cycle)
  | .processRead => callback s .processRead
  | .reset => callback s .reset

structure Trail (capacity : Nat) where
  linux : Linux capacity
  fills : List Slot
  results : List CaptureResult
  cleared : List Nat
  consumed : Nat
  accepted : List Bytes
  gone : Nat
  interruptions : Nat
  blocks : List Block

def rxTrailOf (t : Trail capacity) : RxRingOrder.Trail capacity :=
  ⟨t.linux.receiver,t.fills,t.results,t.cleared,t.consumed⟩

def audioOf (t : Trail capacity) : JackAlignment.Trail capacity :=
  ⟨systemOf t.linux,t.accepted,t.gone,t.interruptions,t.blocks⟩

def stored (before after : Receiver capacity) : Action → List Bytes
  | .copyData =>
    match before.pc with
    | .storing _ size =>
      if jackRingbufferReadSpace before.bridge.ringbuffer < jackRingbufferReadSpace after.bridge.ringbuffer
      then [frameData (header before) size] else []
    | _ => []
  | _ => []

def followCapture (t : Trail capacity) (action : Action) (linux : Linux capacity) : Trail capacity :=
  let order := RxRingOrder.follow (rxTrailOf t) action linux.receiver
  {t with
    linux
    fills := order.fills
    results := order.results
    cleared := order.cleared
    consumed := order.consumed
    accepted := t.accepted ++ stored t.linux.receiver linux.receiver action}

def followCallback (t : Trail capacity) (action : JackBridge.Action) (linux : Linux capacity) : Trail capacity :=
  let audio := JackAlignment.follow (audioOf t) action (systemOf linux)
  {t with
    linux
    accepted := audio.accepted
    gone := audio.gone
    interruptions := audio.interruptions
    blocks := audio.blocks}

def trace (t : Trail capacity) (event : Event) : Option (Trail capacity) :=
  (act t.linux event).map fun linux =>
    match event with
    | .capture action => followCapture t action linux
    | .processQuery cycle => followCallback t (.processQuery cycle) linux
    | .processRead => followCallback t .processRead linux
    | .reset => followCallback t .reset linux

def untouched (ring : Nat → Slot) (bridge : Bridge capacity) : Trail capacity :=
  ⟨⟨opened ring bridge,none⟩,[],[],[],0,[],0,0,[]⟩

end ReacJack.LinuxBridge
