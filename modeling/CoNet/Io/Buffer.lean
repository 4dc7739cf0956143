import CoNet.Config
import Mathlib.Algebra.Group.Int.Defs
import Mathlib.Algebra.Group.Nat.Defs
import Mathlib.Data.BitVec
import Mathlib.Data.List.Nodup

/-!
# `RingBuffer` (`io/buffer.hpp`)

The buffers that receives on one thread share. `buffer_` is their memory; the buffer ring lists the
ones the kernel may take, by id. The kernel's side of the ring, which takes entries out, is here
too. `none` is undefined behaviour: an access outside `buffer_`, or an entry added through a null
`br_`.
-/

set_option autoImplicit false

namespace CoNet.Io

/-- An entry of the buffer ring: where its bytes are in `buffer_`, how many, and its id. -/
structure BufEntry where
  addr : Int
  len : Nat
  bid : Nat
  deriving DecidableEq, Repr

structure RingBuffer where
  bufCount : Nat := 0
  /-- null, or the published entries in order -/
  br : Option (List BufEntry) := none
  brMask : Int := 0
  buffer : List UInt8 := []
  deriving DecidableEq, Repr

namespace RingBuffer

/-- The ids the kernel may take. -/
def available (rb : RingBuffer) : List Nat := (rb.br.getD []).map (·.bid)

/-- `io_uring_buf_ring_mask`. -/
def bufRingMask (entries : Nat) : Int := entries - 1

/-- The kernel's condition on the size of a buffer ring: a power of two, of 32768 at most. -/
def setupAccepted (entries : Nat) : Bool :=
  entries ≠ 0 && entries &&& (entries - 1) = 0 && entries ≤ 32768

/-- The entry of `io_uring_buf_ring_add`, whose id is an `unsigned short`. -/
def bufEntry (cfg : Config) (bid : Int) : BufEntry :=
  ⟨bid * cfg.bufferRingSize, cfg.bufferRingSize, (bid % 2 ^ 16).toNat⟩

/-- `std::vector::resize`. -/
def resize (buffer : List UInt8) (size : Nat) : List UInt8 :=
  buffer.take size ++ List.replicate (size - buffer.length) 0

/-- `copy_data`. -/
def copyData (cfg : Config) (rb : RingBuffer) (output : List UInt8) (bid bytes : Int) :
    Option (List UInt8) :=
  let offset := bid * cfg.bufferRingSize
  if 0 ≤ offset ∧ 0 ≤ bytes ∧ offset + bytes ≤ rb.buffer.length then
    some (output ++ (rb.buffer.drop offset.toNat).take bytes.toNat)
  else none

/-- `repay`. -/
def repay (cfg : Config) (rb : RingBuffer) (bid : Int) : Option RingBuffer :=
  rb.br.map fun entries => { rb with br := some (entries ++ [bufEntry cfg bid]) }

/-- `release`. -/
def release (rb : RingBuffer) : RingBuffer :=
  match rb.br with
  | none => rb
  | some _ => { rb with br := none }

/-- `extend_buffer`, where `io_uring_setup_buf_ring` sets `res`: the pool it leaves, and the
exception it throws. -/
def extendBuffer (cfg : Config) (rb : RingBuffer) (res : Int) : RingBuffer × Option String :=
  let rb := if rb.bufCount ≠ 0 then rb.release else rb
  let rb := { rb with bufCount := rb.bufCount + 1 }
  let size := cfg.nBuffers * rb.bufCount
  let rb := { rb with brMask := bufRingMask size }
  let rb := { rb with
    buffer := resize rb.buffer (cfg.nBuffers * cfg.bufferRingSize * rb.bufCount) }
  if res < 0 then
    ({ rb with br := none }, some "Buffer extend error.")
  else
    ({ rb with br := some ((List.range size).map fun (i : Nat) => bufEntry cfg i) }, none)

/-- The size of the ring that the next `extend_buffer` asks for. -/
def nextSize (cfg : Config) (rb : RingBuffer) : Nat := cfg.nBuffers * (rb.bufCount + 1)

/-- The `nentries` of `io_uring_setup_buf_ring`, an `unsigned`. -/
def nentries (cfg : Config) (rb : RingBuffer) : Nat := rb.nextSize cfg % 2 ^ 32

/-- The place of an entry in a fresh ring: `io_uring_buf_ring_add` takes `(tail + buf_offset) & mask`,
in 32 bits. -/
def slot (mask : Int) (offset : Nat) : Nat :=
  (BitVec.ofNat 32 offset &&& BitVec.ofInt 32 mask).toNat

/-- What `io_uring_setup_buf_ring` may set: no success for a size the kernel does not accept. -/
def SetupResult (cfg : Config) (rb : RingBuffer) (res : Int) : Prop :=
  0 ≤ res → setupAccepted (rb.nentries cfg)

instance (cfg : Config) (rb : RingBuffer) (res : Int) : Decidable (SetupResult cfg rb res) := by
  unfold SetupResult
  exact inferInstance

/-- And none for `2 ^ 32` buffers or more, a number that `nentries` cuts: there is no memory for them. -/
def SetupWhole (cfg : Config) (rb : RingBuffer) (res : Int) : Prop :=
  SetupResult cfg rb res ∧ (0 ≤ res → rb.nextSize cfg < 2 ^ 32)

instance (cfg : Config) (rb : RingBuffer) (res : Int) : Decidable (SetupWhole cfg rb res) := by
  unfold SetupWhole
  exact inferInstance

/-- `RingBuffer(io_uring*)`: the pool, unless its `extend_buffer` throws. -/
def construct (cfg : Config) (res : Int) : Option RingBuffer :=
  if SetupWhole cfg {} res then
    match extendBuffer cfg {} res with
    | (rb, none) => some rb
    | (_, some _) => none
  else none

/-! ## The kernel's side -/

/-- Bytes written over a part of the memory. -/
def writeAt (buffer : List UInt8) (addr : Nat) (data : List UInt8) : List UInt8 :=
  buffer.take addr ++ data ++ buffer.drop (addr + data.length)

/-- The kernel takes an entry with this id out of the ring and writes into its buffer. -/
def kernelTake (rb : RingBuffer) (bid : Nat) (data : List UInt8) : Option RingBuffer :=
  match rb.br with
  | none => none
  | some entries =>
    match entries.find? (·.bid == bid) with
    | none => none
    | some entry =>
      if data.length ≤ entry.len then
        some { rb with
          br := some (entries.eraseP (·.bid == bid))
          buffer := writeAt rb.buffer entry.addr.toNat data }
      else none

end RingBuffer

end CoNet.Io
