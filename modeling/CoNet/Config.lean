import Mathlib.Init

/-!
# Configuration (`config.hpp`)

The constants of `namespace config` that the model reads, as the fields of a structure with the
source's values as defaults, so that a result can be stated for every value.
-/

set_option autoImplicit false

namespace CoNet

structure Config where
  /-- `URING_MAIN_SQES`: the submission slots of the main ring -/
  uringMainSqes : Nat := 128
  /-- `URING_WOKERS_SQES`: the submission slots of a worker ring -/
  uringWokersSqes : Nat := 512
  /-- `URING_PEEK_CQES_BATCH`: the completions of one batch -/
  uringPeekCqesBatch : Nat := 256
  /-- `BUFFER_RING_SIZE`: the bytes of one buffer -/
  bufferRingSize : Nat := 512
  /-- `N_BUFFERS` -/
  nBuffers : Nat := 1024 * 16
  /-- `AUTO_EXTEND_WHEN_NOBUFS` -/
  autoExtendWhenNobufs : Bool := true
  deriving DecidableEq, Repr

end CoNet
