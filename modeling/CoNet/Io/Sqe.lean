import CoNet.Io.Token

/-!
# Submission-queue entries

The requests that one ring sends to another, with the flags the source sets on them. A `user_data`
of `none` is one the source does not set.
-/

set_option autoImplicit false

namespace CoNet.Io

inductive SqeOp (τ φ χ κ : Type) where
  /-- `io_uring_prep_msg_ring_fd_alloc`: install a descriptor of this ring in a free slot of
  another, whose completion carries the slot and `data` -/
  | msgRingFdAlloc (ring : Int) (sourceFd : Int) (data : κ × Object τ φ χ)
  /-- `io_uring_prep_msg_ring_cqe_flags`, and `io_uring_prep_msg_ring` with `cqeFlags` 0 -/
  | msgRing (ring : Int) (len : Int) (data : κ × Object τ φ χ) (cqeFlags : BitVec 32)
  /-- `io_uring_prep_close_direct` -/
  | closeDirect (directFd : Int)
  deriving DecidableEq, Repr

structure Sqe (τ φ χ κ : Type) where
  op : SqeOp τ φ χ κ
  /-- `IOSQE_IO_LINK` -/
  ioLink : Bool := false
  /-- `IOSQE_CQE_SKIP_SUCCESS` -/
  cqeSkipSuccess : Bool := false
  userData : Option (κ × Object τ φ χ) := none
  deriving DecidableEq, Repr

end CoNet.Io
