import CoNet.Net.Write

/-!
# Short writes

`WritesAll` is what `write_all` should do: when it returns, the kernel has accepted every byte of the
buffer and the count is the buffer's size. It makes one request, so this depends on the first result
alone (`writesAll_iff_whole`). A result is less than 2 ^ 31, and the length that is asked for is the
buffer's modulo 2 ^ 32, so no longer buffer is ever written (`not_writesAll_of_long`).
-/

set_option autoImplicit false

namespace CoNet.Net

open CoNet.Io

variable {c : TcpConnection} {buf buffer : List UInt8} {kernel kernel' : WriteKernel} {socket : Int}
  {len : Nat} {res : BitVec 32} {results : List (BitVec 32)} {out : Except String Int}

/-- The result is one the kernel may give for a request of this length. -/
def Possible (len : Nat) (res : BitVec 32) : Prop := res.toInt ≤ (BitVec.ofNat 32 len).toNat

instance (len : Nat) (res : BitVec 32) : Decidable (Possible len res) :=
  inferInstanceAs (Decidable (_ ≤ _))

/-- **One request**: `prep_write` gives what the kernel gives for it. -/
theorem prepWriteLen_eq (head : kernel.results = res :: results) (possible : Possible len res) :
    prepWriteLen socket buffer len kernel =
      some (if res.toInt < 0 then .error "io_uring prep write failed." else .ok res.toInt,
        { results, accepted := kernel.accepted ++ buffer.take res.toInt.toNat }) := by
  have completes : res.toInt ≤ (BitVec.ofNat 32 len).toNat := possible
  simp only [prepWriteLen, WriteKernel.complete, head, completes, if_true, Option.bind_eq_bind,
    Option.bind_some]
  split <;> rfl

/-- A write that has ended took the kernel's next result. -/
theorem prepWriteLen_eq_some (h : prepWriteLen socket buffer len kernel = some (out, kernel')) :
    ∃ res results, kernel.results = res :: results ∧ Possible len res := by
  simp only [prepWriteLen, Option.bind_eq_bind, Option.bind_eq_some_iff] at h
  obtain ⟨⟨r, k⟩, complete, -⟩ := h
  unfold WriteKernel.complete at complete
  split at complete
  · cases complete
  · rename_i res results head
    split at complete
    · rename_i possible
      exact ⟨res, results, head, possible⟩
    · cases complete

/-- `write_all` makes one request, for the whole buffer, as `write_some` does. -/
theorem writeAll_eq (c : TcpConnection) (buf : List UInt8) (kernel : WriteKernel) :
    c.writeAll buf kernel = prepWriteLen c.socket buf buf.length kernel := rfl

/-- When `write_all` returns, all bytes of the buffer are accepted, in order, and counted. -/
def WritesAll (c : TcpConnection) (buf : List UInt8) (kernel : WriteKernel) : Prop :=
  ∀ n kernel', c.writeAll buf kernel = some (.ok n, kernel') →
    kernel'.accepted = kernel.accepted ++ buf ∧ n = buf.length

/-- The kernel's next result is an error, or the whole buffer. -/
def Whole (buf : List UInt8) (kernel : WriteKernel) : Prop :=
  ∀ res ∈ kernel.results.head?, Possible buf.length res → res.toInt < 0 ∨ res.toInt = buf.length

theorem whole_of_writesAll (h : WritesAll c buf kernel) : Whole buf kernel := by
  intro res head possible
  obtain ⟨results, results_eq⟩ := List.head?_eq_some_iff.mp head
  by_cases error : res.toInt < 0
  · exact .inl error
  · have run := (writeAll_eq c buf kernel).trans (prepWriteLen_eq results_eq possible)
    rw [if_neg error] at run
    exact .inr (h res.toInt _ run).2

theorem writesAll_of_whole (whole : Whole buf kernel) : WritesAll c buf kernel := by
  intro n kernel' h
  rw [writeAll_eq] at h
  obtain ⟨res, results, results_eq, possible⟩ := prepWriteLen_eq_some h
  rw [prepWriteLen_eq results_eq possible] at h
  obtain ⟨outcome, rfl⟩ := Prod.mk.inj (Option.some.inj h)
  rcases whole res (by rw [results_eq]; rfl) possible with error | all
  · rw [if_pos error] at outcome
    cases outcome
  · rw [if_neg (by omega)] at outcome
    obtain rfl := Except.ok.inj outcome
    refine ⟨?_, all⟩
    show kernel.accepted ++ buf.take res.toInt.toNat = kernel.accepted ++ buf
    rw [all, Int.toNat_natCast, List.take_length]

/-- **A buffer is written whole exactly when the first result says so**, or is an error. -/
theorem writesAll_iff_whole (c : TcpConnection) (buf : List UInt8) (kernel : WriteKernel) :
    WritesAll c buf kernel ↔ Whole buf kernel :=
  ⟨whole_of_writesAll, writesAll_of_whole⟩

/-- A buffer of 2 GiB or more is not written whole, whatever the kernel accepts. -/
theorem not_writesAll_of_long (long : 2 ^ 31 ≤ buf.length) (head : kernel.results = res :: results)
    (possible : Possible buf.length res) (accepts : 0 ≤ res.toInt) : ¬ WritesAll c buf kernel := by
  intro h
  have bound : res.toInt < 2 ^ 31 := BitVec.toInt_lt
  rcases whole_of_writesAll h res (by rw [head]; rfl) possible with error | all <;> omega

/-- The kernel accepts one of two bytes. -/
theorem not_writesAll_short :
    ¬ WritesAll (.ofDirectSocket 4) [104, 105] { results := [1] } := by
  intro h
  rcases whole_of_writesAll h 1 rfl (by decide) with error | all
  · revert error
    decide
  · revert all
    decide

end CoNet.Net
