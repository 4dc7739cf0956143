import CoNet.Net.ReceiveStream
import CoNet.Net.Write

/-!
# The echo server (`example/multishot_echo.cpp`)

Any number of connections on one thread, each with the task `echo` of the example: it receives into the ring's
buffers, moves the bytes out, and writes them back with one `write_all`, again and again, until it receives
nothing. An exception of a receive or a write ends the task. The state has (ghost) the bytes that the kernel
has accepted from each connection's writes.
-/

set_option autoImplicit false

namespace CoNet.Net

open CoNet.Io

/-- Where the coroutine `echo` of a connection is. -/
inductive EchoPoint where
  /-- before `ring_buf_receive` or in it -/
  | receiving
  /-- in `write_all(msg)` -/
  | writing (msg : List UInt8)
  | returned
  | threw
  deriving DecidableEq, Repr

structure Echo (κ : Type) where
  stream : ReceiveStream κ
  point : κ → EchoPoint := fun _ => .receiving
  accepted : κ → List UInt8 := fun _ => []

inductive EchoEvent (κ : Type) where
  /-- a step of the receives of the thread -/
  | receive (e : RecvEvent κ)
  /-- The kernel completes the write of a connection, and the task goes on. -/
  | write (c : κ) (res : BitVec 32)
  deriving DecidableEq, Repr

namespace Echo

variable {κ : Type} [DecidableEq κ]

def start (cfg : Config) (setup : Int) : Option (Echo κ) :=
  (ReceiveStream.start cfg setup).map fun stream => { stream }

def setPoint (s : Echo κ) (c : κ) (p : EchoPoint) : Echo κ :=
  { s with point := Function.update s.point c p }

/-- `move_out_received`: what is moved out, and what it leaves. -/
def moveOutReceived (thread : Receive κ) (c : κ) : List UInt8 × Receive κ :=
  (thread.receiveBuffer c, { thread with receiveBuffer := Function.update thread.receiveBuffer c [] })

/-- The body of the loop, after `ring_buf_receive` has returned `nread`. -/
def afterReceive (s : Echo κ) (c : κ) (nread : Int) : Echo κ :=
  if nread = 0 then s.setPoint c .returned
  else
    let (msg, thread) := moveOutReceived s.stream.thread c
    { s.setPoint c (.writing msg) with stream := { s.stream with thread } }

/-- A task was resumed in `ring_buf_receive`, with this result: the call has returned or thrown, or it goes
on with another receive. -/
def resumed (s : Echo κ) (c : κ) (res : Int) : Echo κ :=
  match s.stream.thread.phase c with
  | .idle => if 0 ≤ res then s.afterReceive c res else s.setPoint c .threw
  | _ => s

/-- The events of a connection's task. -/
def receive (cfg : Config) (s : Echo κ) (e : RecvEvent κ) : Option (Echo κ) := do
  let stream ← s.stream.step cfg e
  let s' := { s with stream }
  match e with
  | .call c => if s.point c = .receiving then some s' else none
  | .resume c _ =>
    match s.stream.thread.phase c with
    | .completed res _ => some (s'.resumed c res)
    | _ => none
  | _ => some s'

/-- The write of a connection, whose result the loop does not look at. -/
def write (conns : κ → TcpConnection) (s : Echo κ) (c : κ) (res : BitVec 32) : Option (Echo κ) :=
  match s.point c with
  | .writing msg => do
    let (nwrite, kernel) ←
      (conns c).writeAll msg { results := [res], accepted := s.accepted c }
    let s := { s with accepted := Function.update s.accepted c kernel.accepted }
    match nwrite with
    | .ok _ => some (s.setPoint c .receiving)
    | .error _ => some (s.setPoint c .threw)
  | _ => none

def step (cfg : Config) (conns : κ → TcpConnection) (s : Echo κ) : EchoEvent κ → Option (Echo κ)
  | .receive e => s.receive cfg e
  | .write c res => s.write conns c res

end Echo

end CoNet.Net
