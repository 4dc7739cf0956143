import CoNet.Io.Buffer
import CoNet.Lib.Circular

/-!
# `RingBuffer` over its shared ring (`io/buffer.hpp`)

The same class with `br_` as it is in memory: an array of entries that the task thread and the kernel share,
a tail of 16 bits that `io_uring_buf_ring_advance` moves, and the kernel's head. An entry is added where the
mask says, and the kernel takes the one at its head. `none` is undefined behaviour here too: an entry that is
added outside the array, or through a null `br_`.
-/

set_option autoImplicit false

namespace CoNet.Io

/-- `io_uring_buf_ring` -/
structure BufRing where
  nentries : Nat
  bufs : Circular.Queue BufEntry 16

namespace BufRing

/-- What `io_uring_setup_buf_ring` returns: the memory is zeros, and both counters are. -/
def setup (nentries : Nat) : BufRing := ⟨nentries, ⟨fun _ => ⟨0, 0, 0⟩, 0, 0⟩⟩

/-- The place of an entry: `(br->tail + buf_offset) & mask`, in 32 bits. -/
def place (tail : BitVec 16) (mask : Int) (bufOffset : Nat) : Nat :=
  ((tail.setWidth 32 + BitVec.ofNat 32 bufOffset) &&& BitVec.ofInt 32 mask).toNat

/-- `io_uring_buf_ring_add` -/
def add (br : BufRing) (entry : BufEntry) (mask : Int) (bufOffset : Nat) : Option BufRing :=
  let i := place br.bufs.tail mask bufOffset
  if i < br.nentries then
    some { br with bufs := { br.bufs with slots := Function.update br.bufs.slots i entry } }
  else none

/-- `io_uring_buf_ring_advance` -/
def advance (br : BufRing) (count : Nat) : BufRing := { br with bufs := br.bufs.advance count }

/-- The published entries, from the kernel's head on. -/
def entries (br : BufRing) : List BufEntry := br.bufs.entries br.nentries

/-- The kernel sees no entry. -/
def isEmpty (br : BufRing) : Bool := br.bufs.head == br.bufs.tail

/-- The kernel takes the entry at its head. -/
def select (br : BufRing) : Option (BufEntry × BufRing) :=
  if br.isEmpty then none
  else some (br.bufs.slots (Circular.slot br.nentries br.bufs.head), { br with bufs := br.bufs.pop })

end BufRing

/-- The fields of `RingBuffer`. -/
structure SharedBuffer where
  bufCount : Nat := 0
  br : Option BufRing := none
  brMask : Int := 0
  buffer : List UInt8 := []

namespace SharedBuffer

open RingBuffer

/-- The ring as the list of its entries. -/
def toRingBuffer (rb : SharedBuffer) : RingBuffer where
  bufCount := rb.bufCount
  br := rb.br.map BufRing.entries
  brMask := rb.brMask
  buffer := rb.buffer

/-- `copy_data`, which does not use the ring. -/
def copyData (cfg : Config) (rb : SharedBuffer) (output : List UInt8) (bid bytes : Int) :
    Option (List UInt8) :=
  let offset := bid * cfg.bufferRingSize
  if 0 ≤ offset ∧ 0 ≤ bytes ∧ offset + bytes ≤ rb.buffer.length then
    some (output ++ (rb.buffer.drop offset.toNat).take bytes.toNat)
  else none

/-- `repay` -/
def repay (cfg : Config) (rb : SharedBuffer) (bid : Int) : Option SharedBuffer := do
  let br ← rb.br
  let br ← br.add (bufEntry cfg bid) rb.brMask 0
  some { rb with br := some (br.advance 1) }

/-- `release` -/
def release (rb : SharedBuffer) : SharedBuffer :=
  match rb.br with
  | none => rb
  | some _ => { rb with br := none }

/-- `extend_buffer`, where `io_uring_setup_buf_ring` sets `res`. -/
def extendBuffer (cfg : Config) (rb : SharedBuffer) (res : Int) :
    Option (SharedBuffer × Option String) :=
  let rb := if rb.bufCount ≠ 0 then rb.release else rb
  let rb := { rb with bufCount := rb.bufCount + 1 }
  let size := cfg.nBuffers * rb.bufCount
  let rb := { rb with brMask := bufRingMask size }
  let rb := { rb with
    buffer := resize rb.buffer (cfg.nBuffers * cfg.bufferRingSize * rb.bufCount) }
  if res < 0 then some ({ rb with br := none }, some "Buffer extend error.")
  else do
    let br ← (List.range size).foldlM (fun br i => br.add (bufEntry cfg i) rb.brMask i)
      (BufRing.setup size)
    some ({ rb with br := some (br.advance size) }, none)

/-- What `io_uring_setup_buf_ring` may set. -/
def SetupWhole (cfg : Config) (rb : SharedBuffer) (res : Int) : Prop :=
  RingBuffer.SetupWhole cfg rb.toRingBuffer res

instance (cfg : Config) (rb : SharedBuffer) (res : Int) : Decidable (SetupWhole cfg rb res) := by
  unfold SetupWhole
  exact inferInstance

/-- `RingBuffer(io_uring*)` -/
def construct (cfg : Config) (res : Int) : Option SharedBuffer :=
  if SetupWhole cfg {} res then
    match extendBuffer cfg {} res with
    | some (rb, none) => some rb
    | _ => none
  else none

/-- The kernel takes the next entry, whose id it reports, and writes into its buffer. -/
def kernelTake (rb : SharedBuffer) (bid : Nat) (data : List UInt8) : Option SharedBuffer := do
  let br ← rb.br
  let (entry, br) ← br.select
  if entry.bid = bid ∧ data.length ≤ entry.len then
    some { rb with br := some br, buffer := writeAt rb.buffer entry.addr.toNat data }
  else none

/-- The kernel finds no buffer: there is no ring, or it is empty. -/
def noBuffer (rb : SharedBuffer) : Bool := rb.br.all BufRing.isEmpty

end SharedBuffer

end CoNet.Io
