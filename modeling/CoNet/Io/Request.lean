import Mathlib.Algebra.Group.Int.Defs
import Mathlib.Algebra.Group.Nat.Defs

/-!
# Requests on direct descriptors

A request names a slot of the direct-descriptor table of the ring it is submitted to. The source
names rings in two ways: `sys_ctx::sys_uring_loop` is the main ring whatever the thread, and
`this_ctx::local_uring_loop` is the ring of the thread that runs.
-/

set_option autoImplicit false

namespace CoNet.Io

/-- How the source names the ring of a request. -/
inductive RingRef where
  /-- `sys_ctx::sys_uring_loop` -/
  | sysUringLoop
  /-- `this_ctx::local_uring_loop` -/
  | localUringLoop
  deriving DecidableEq, Repr

/-- The requests a connection submits. -/
inductive RequestOp where
  | read
  | write
  | recv
  | closeDirect
  deriving DecidableEq, Repr

/-- A request on a direct descriptor (`IOSQE_FIXED_FILE`, or a close of a table slot). -/
structure Request where
  ring : RingRef
  op : RequestOp
  fd : Int
  deriving DecidableEq, Repr

/-- `__io_uring_set_target_fixed_file`: the slot is stored as an unsigned 32-bit `index + 1`. -/
def fileIndex (directFd : Int) : Nat := ((directFd + 1) % 2 ^ 32).toNat

/-- What the kernel closes for an `IORING_OP_CLOSE` whose `fd` is 0. -/
inductive CloseTarget where
  /-- the process's ordinary descriptor -/
  | ordinary (fd : Nat)
  /-- a slot of the ring's direct-descriptor table -/
  | direct (slot : Nat)
  deriving DecidableEq, Repr

/-- `io_uring_prep_close_direct` sets `fd` to 0; the kernel reads a `file_index` of 0 as "close
`fd`", and any other one as slot `file_index - 1`. -/
def prepCloseDirect (directFd : Int) : CloseTarget :=
  match fileIndex directFd with
  | 0 => .ordinary 0
  | n + 1 => .direct n

/-- A slot number in range is the slot the kernel closes. -/
theorem prepCloseDirect_slot {slot : Nat} (h : slot + 1 < 2 ^ 32) :
    prepCloseDirect slot = .direct slot := by
  have hi : fileIndex slot = slot + 1 := by
    unfold fileIndex
    omega
  simp only [prepCloseDirect, hi]

/-- A close of direct descriptor -1 is a close of the process's ordinary descriptor 0. -/
theorem prepCloseDirect_neg_one : prepCloseDirect (-1) = .ordinary 0 := rfl

end CoNet.Io
