import CoNet.Net.Connection
import Mathlib.Data.BitVec

/-!
# Writes (`net/tcp/connection.hpp`, `io/prep/prep_write.hpp`)

`prep_write` submits one request for the bytes it is given, whose length `io_uring_prep_write` takes as an
`unsigned`, and throws on a negative result. `write_some` and `write_all` return what it returns. The
kernel completes a request with an error, or with the number of bytes it has accepted, from the first
one on.
-/

set_option autoImplicit false

namespace CoNet.Net

open CoNet.Io

/-- The request of `io_uring_prep_write`. -/
structure WriteSqe where
  fd : Int
  /-- the bytes from `buffer.data()` on -/
  bytes : List UInt8
  len : BitVec 32
  deriving DecidableEq, Repr

/-- The kernel's side of a connection's writes. -/
structure WriteKernel where
  /-- how it will complete the requests, in order -/
  results : List (BitVec 32)
  /-- the bytes it has accepted -/
  accepted : List UInt8 := []
  deriving DecidableEq, Repr

/-- The completion of a request. A result is not more than the request offers. -/
def WriteKernel.complete (kernel : WriteKernel) (sqe : WriteSqe) : Option (Int × WriteKernel) :=
  match kernel.results with
  | [] => none
  | res :: results =>
    if res.toInt ≤ sqe.len.toNat then
      some (res.toInt, { results, accepted := kernel.accepted ++ sqe.bytes.take res.toInt.toNat })
    else none

/-- `prep_write(socket, buffer, len)`: what it returns or throws, once its request has completed. -/
def prepWriteLen (socket : Int) (buffer : List UInt8) (len : Nat) (kernel : WriteKernel) :
    Option (Except String Int × WriteKernel) := do
  let (res, kernel) ← kernel.complete { fd := socket, bytes := buffer, len := BitVec.ofNat 32 len }
  if res < 0 then some (.error "io_uring prep write failed.", kernel)
  else some (.ok res, kernel)

/-- `prep_write(socket, buffer)`. -/
def prepWrite (socket : Int) (buffer : List UInt8) (kernel : WriteKernel) :
    Option (Except String Int × WriteKernel) :=
  prepWriteLen socket buffer buffer.length kernel

namespace TcpConnection

/-- `write_some`, of bytes that are in the buffer. -/
def writeSomeOf (c : TcpConnection) (buf : List UInt8) (len : Nat) (kernel : WriteKernel) :
    Option (Except String Int × WriteKernel) :=
  prepWriteLen c.socket buf len kernel

/-- `write_all`. -/
def writeAll (c : TcpConnection) (buf : List UInt8) (kernel : WriteKernel) :
    Option (Except String Int × WriteKernel) :=
  prepWrite c.socket buf kernel

end TcpConnection

end CoNet.Net
