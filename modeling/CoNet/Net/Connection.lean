import CoNet.Io.Request

/-!
# `TcpConnection` (`net/tcp/connection.hpp`)

The connection object, with its constructors, moves, `release`, `set_subring_socket`, destructor
and the requests its reads and writes submit. A function returns every object it writes: a move
returns the new state of both sides.
-/

set_option autoImplicit false

namespace CoNet.Net

open CoNet.Io

/-- The fields of a `TcpConnection`, with the source's default initialisers. -/
structure TcpConnection where
  socket : Int := -1
  directFdInSysRing : Int := -1
  directFdInThisRing : Int := -1
  ownershipInSysRing : Bool := true
  sendBuffer : List UInt8 := []
  receiveBuffer : List UInt8 := []
  deriving DecidableEq, Repr

namespace TcpConnection

/-- `explicit TcpConnection(int direct_socket)` -/
def ofDirectSocket (directSocket : Int) : TcpConnection :=
  { socket := directSocket, directFdInSysRing := directSocket }

/-- What `rhs` is left with by a move from it: its descriptors are exchanged for -1 and its buffers
moved out. Its `ownership_in_sys_ring_` is read, not written. -/
def movedFrom (rhs : TcpConnection) : TcpConnection :=
  { rhs with
    socket := -1, directFdInSysRing := -1, directFdInThisRing := -1
    sendBuffer := [], receiveBuffer := [] }

/-- `TcpConnection(TcpConnection&& rhs)`: the new object, and `rhs` after it. -/
def moveConstruct (rhs : TcpConnection) : TcpConnection × TcpConnection :=
  ({ socket := rhs.socket
     directFdInSysRing := rhs.directFdInSysRing
     directFdInThisRing := rhs.directFdInThisRing
     sendBuffer := rhs.sendBuffer
     receiveBuffer := rhs.receiveBuffer
     ownershipInSysRing := rhs.ownershipInSysRing }, rhs.movedFrom)

/-- `operator=(TcpConnection&& rhs)` onto another object: every field of the target is overwritten,
and nothing is submitted for what it held. -/
def moveAssign (_lhs rhs : TcpConnection) : TcpConnection × TcpConnection :=
  ({ socket := rhs.socket
     directFdInSysRing := rhs.directFdInSysRing
     directFdInThisRing := rhs.directFdInThisRing
     sendBuffer := rhs.sendBuffer
     receiveBuffer := rhs.receiveBuffer
     ownershipInSysRing := rhs.ownershipInSysRing }, rhs.movedFrom)

/-- `operator=` with both sides the same object. Each `x = std::exchange(rhs.x, -1)` clears the
field and writes the old value back, each buffer goes through the temporary that
`move_out_sended` or `move_out_received` returns, and the flag is assigned to itself. -/
def moveAssignSelf (c : TcpConnection) : TcpConnection :=
  let old := c.socket
  let c := { c with socket := -1 }
  let c := { c with socket := old }
  let old := c.directFdInSysRing
  let c := { c with directFdInSysRing := -1 }
  let c := { c with directFdInSysRing := old }
  let old := c.directFdInThisRing
  let c := { c with directFdInThisRing := -1 }
  let c := { c with directFdInThisRing := old }
  let moved := c.sendBuffer
  let c := { c with sendBuffer := [] }
  let c := { c with sendBuffer := moved }
  let moved := c.receiveBuffer
  let c := { c with receiveBuffer := [] }
  { c with receiveBuffer := moved }

/-- `close_direct_socket` on a ring. -/
def closeDirectSocket (ring : RingRef) (directFd : Int) : Request := ⟨ring, .closeDirect, directFd⟩

/-- `~TcpConnection()`: the close request it submits, if any. -/
def destroy (c : TcpConnection) : Option Request :=
  if c.ownershipInSysRing then
    some (closeDirectSocket .sysUringLoop c.socket)
  else if c.directFdInThisRing > -1 then
    some (closeDirectSocket .localUringLoop c.socket)
  else
    none

/-- `release()`. -/
def release (c : TcpConnection) : Except String TcpConnection :=
  if c.ownershipInSysRing = false then
    .error "You cannot release the connection onwership in worker ring loop."
  else
    .ok { c with directFdInSysRing := -1, ownershipInSysRing := false }

/-- `set_subring_socket(int)`. -/
def setSubringSocket (c : TcpConnection) (subringDirectSocket : Int) : TcpConnection :=
  { c with
    socket := subringDirectSocket, directFdInThisRing := subringDirectSocket
    ownershipInSysRing := false }

/-- `fd()`. -/
def fd (c : TcpConnection) : Int := c.socket

/-- `read_some`: the request `prep_read` submits. -/
def readSome (c : TcpConnection) : Request := ⟨.localUringLoop, .read, c.socket⟩

/-- `write_some` and `write_all`: the request `prep_write` submits. -/
def writeSome (c : TcpConnection) : Request := ⟨.localUringLoop, .write, c.socket⟩

/-- `ring_buf_receive`: the request `prep_recv_in_ring_buf` submits. -/
def ringBufReceive (c : TcpConnection) : Request := ⟨.localUringLoop, .recv, c.socket⟩

/-! ## What each operation leaves -/

/-- A self-move leaves the object unchanged. -/
@[simp] theorem moveAssignSelf_eq (c : TcpConnection) : c.moveAssignSelf = c := rfl

@[simp] theorem moveConstruct_fst (c : TcpConnection) : c.moveConstruct.1 = c := rfl

@[simp] theorem moveConstruct_snd (c : TcpConnection) : c.moveConstruct.2 = c.movedFrom := rfl

@[simp] theorem moveAssign_fst (d c : TcpConnection) : (d.moveAssign c).1 = c := rfl

@[simp] theorem moveAssign_snd (d c : TcpConnection) : (d.moveAssign c).2 = c.movedFrom := rfl

@[simp] theorem movedFrom_socket (c : TcpConnection) : c.movedFrom.socket = -1 := rfl

@[simp] theorem movedFrom_this (c : TcpConnection) : c.movedFrom.directFdInThisRing = -1 := rfl

@[simp] theorem movedFrom_ownership (c : TcpConnection) :
    c.movedFrom.ownershipInSysRing = c.ownershipInSysRing := rfl

/-- A successful release, read backwards. -/
theorem release_eq_ok {c c' : TcpConnection} (h : c.release = .ok c') :
    c.ownershipInSysRing = true ∧
      c' = { c with directFdInSysRing := -1, ownershipInSysRing := false } := by
  unfold release at h
  split at h
  · cases h
  · rename_i owned
    exact ⟨by simpa using owned, (Except.ok.inj h).symm⟩

/-- An object with the flag closes its socket on the main ring, whatever the number. -/
theorem destroy_owned {c : TcpConnection} (h : c.ownershipInSysRing = true) :
    c.destroy = some ⟨.sysUringLoop, .closeDirect, c.socket⟩ := by
  simp only [destroy, h, if_true, closeDirectSocket]

/-- An object without the flag and without a descriptor of its thread's ring submits nothing. -/
theorem destroy_none {c : TcpConnection} (h : c.ownershipInSysRing = false)
    (hd : c.directFdInThisRing = -1) : c.destroy = none := by
  simp [destroy, h, hd]

/-- An object without the flag closes the descriptor of its thread's ring on that ring. -/
theorem destroy_sub {c : TcpConnection} (h : c.ownershipInSysRing = false)
    (hd : -1 < c.directFdInThisRing) :
    c.destroy = some ⟨.localUringLoop, .closeDirect, c.socket⟩ := by
  simp only [destroy, h, Bool.false_eq_true, if_false, closeDirectSocket, gt_iff_lt, hd, if_true]

end TcpConnection

end CoNet.Net
