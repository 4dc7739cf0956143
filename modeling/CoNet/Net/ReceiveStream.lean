import CoNet.Net.Receive

/-!
# What the connections of a thread receive

The thread of `Receive`, with (ghost) the bytes the kernel has delivered for each connection, and what
its `receive_buffer_` held after each `ring_buf_receive` that returned.
-/

set_option autoImplicit false

namespace CoNet.Net

open CoNet.Io

structure ReceiveStream (κ : Type) where
  thread : Receive κ
  delivered : κ → List UInt8 := fun _ => []
  /-- the contents of `receive_buffer_` after each call, in order -/
  returned : κ → List (List UInt8) := fun _ => []

namespace ReceiveStream

variable {κ : Type} [DecidableEq κ]

/-- A thread whose `RingBuffer` was constructed. -/
def start (cfg : Config) (setup : Int) : Option (ReceiveStream κ) :=
  (Receive.start cfg setup).map fun thread => { thread }

/-- The resumed call returns: its task finds a result that is no error. -/
def returns (s : ReceiveStream κ) (c : κ) : Bool :=
  match s.thread.phase c with
  | .completed res _ => 0 ≤ res
  | _ => false

/-- The record of a step from the thread to `thread`. -/
def record (s : ReceiveStream κ) (thread : Receive κ) : RecvEvent κ → ReceiveStream κ
  | .post c _ _ data =>
    { s with
      thread, delivered := Function.update s.delivered c (s.delivered c ++ data) }
  | .resume c _ =>
    { s with
      thread
      returned :=
        if s.returns c then
          Function.update s.returned c (s.returned c ++ [thread.receiveBuffer c])
        else s.returned }
  | _ => { s with thread }

def step (cfg : Config) (s : ReceiveStream κ) (e : RecvEvent κ) : Option (ReceiveStream κ) :=
  (s.thread.step cfg e).map fun thread => s.record thread e

end ReceiveStream

end CoNet.Net
