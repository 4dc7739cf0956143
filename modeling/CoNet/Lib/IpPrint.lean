import CoNet.Lib.IpText
import Mathlib.Data.Nat.Digits.Lemmas

/-!
# Internet addresses printed

The texts that C's `inet_ntop` writes. An IPv4 address is its octets in decimal (`ntop4`). An IPv6 address
is its groups in hexadecimal, in lower case and without leading zeros, with `::` for the first one of the
longest runs of two zero groups or more, and with a dotted quad at the end where the groups before it are
the prefix of an IPv4-compatible or IPv4-mapped address (`ntop6`).

A printed address is a text of that address (`dottedQuad_ntop4`, `colonHex_ntop6`), so different addresses
are printed differently.
-/

set_option autoImplicit false

namespace IpText

variable {value : UInt8 → Option Nat} {base n : Nat} {text part left right : Text} {parts : List Text}
  {ws : List Nat} {quad : Bool}

/-! ## Numerals -/

/-- The symbol of a digit, in decimal or hexadecimal. -/
def symbol (d : Nat) : UInt8 := if d < 10 then (48 + d).toUInt8 else (87 + d).toUInt8

/-- A number without leading zeros. -/
def numeral (base n : Nat) : Text :=
  if n = 0 then [48] else (Nat.digits base n).reverse.map symbol

theorem digit_symbol : ∀ d < 10, digit (symbol d) = some d := by decide

theorem hexDigit_symbol : ∀ d < 16, hexDigit (symbol d) = some d := by decide

theorem symbol_ne_dot : ∀ d < 16, symbol d ≠ 46 := by decide

theorem symbol_ne_colon : ∀ d < 16, symbol d ≠ 58 := by decide

theorem symbol_ne_zero : ∀ d < 16, d ≠ 0 → symbol d ≠ 48 := by decide

/-- The digits of a number, the first one last. -/
theorem number_symbols (reads : ∀ d < base, value (symbol d) = some d) {ds : List Nat}
    (small : ∀ d ∈ ds, d < base) :
    number value base (ds.reverse.map symbol) = some (Nat.ofDigits base ds) := by
  induction ds with
  | nil => rfl
  | cons d ds ih =>
    have rest := ih fun d' mem => small d' (List.mem_cons_of_mem _ mem)
    unfold number at rest
    rw [number, List.reverse_cons, List.map_append, List.foldlM_append, rest]
    simp [reads d (small d List.mem_cons_self), Nat.ofDigits_cons, Nat.add_comm]

/-- **A numeral denotes its number.** -/
theorem number_numeral (two : 2 ≤ base) (reads : ∀ d < base, value (symbol d) = some d) (n : Nat) :
    number value base (numeral base n) = some n := by
  unfold numeral
  split
  · rename_i zero
    have first := reads 0 (by omega)
    rw [zero]
    simpa [number, symbol] using first
  · rw [number_symbols reads fun d mem => Nat.digits_lt_base two mem, Nat.ofDigits_digits]

theorem numeral_ne_nil (base n : Nat) : numeral base n ≠ [] := by
  unfold numeral
  split
  · exact List.cons_ne_nil _ _
  · simpa [Nat.digits_ne_nil_iff_ne_zero]

/-- A numeral has no byte that no digit has. -/
theorem not_mem_numeral (two : 2 ≤ base) {byte : UInt8} (other : ∀ d < base, symbol d ≠ byte) :
    byte ∉ numeral base n := by
  unfold numeral
  split
  · have zero := other 0 (by omega)
    rw [List.mem_singleton]
    exact zero.symm
  · intro mem
    obtain ⟨d, in_digits, eq⟩ := List.mem_map.mp mem
    exact other d (Nat.digits_lt_base two (List.mem_reverse.mp in_digits)) eq

theorem length_numeral (two : 2 ≤ base) {k : Nat} (pos : 0 < k) (small : n < base ^ k) :
    (numeral base n).length ≤ k := by
  unfold numeral
  split
  · exact pos
  · rw [List.length_map, List.length_reverse, Nat.digits_length_le_iff two]
    exact small

/-- Only the numeral of zero begins with a zero. -/
theorem head_numeral (two : 2 ≤ base) (le : base ≤ 16) (pos : n ≠ 0) :
    (numeral base n).head? ≠ some 48 := by
  rw [numeral, if_neg pos, List.head?_map, List.head?_reverse]
  have some_digit : Nat.digits base n ≠ [] := Nat.digits_ne_nil_iff_ne_zero.mpr pos
  rw [List.getLast?_eq_some_getLast some_digit, Option.map_some, ne_eq, Option.some_inj]
  have digit_lt := Nat.digits_lt_base two (List.getLast_mem some_digit)
  exact symbol_ne_zero _ (by omega) (Nat.getLast_digit_ne_zero base pos)

/-- **Numerals of different numbers are different.** -/
theorem numeral_injective {m : Nat} (h : numeral 10 m = numeral 10 n) : m = n := by
  have left := number_numeral (by decide) digit_symbol m
  rw [h, number_numeral (by decide) digit_symbol n] at left
  exact (Option.some.inj left).symm

theorem octet_numeral (byte : UInt8) : octet (numeral 10 byte.toNat) = some byte := by
  have small := byte.toNat_lt
  have head : (numeral 10 byte.toNat).head? = some 48 → (numeral 10 byte.toNat).length = 1 := by
    intro first
    by_cases zero : byte.toNat = 0
    · rw [zero]
      rfl
    · exact absurd first (head_numeral (by decide) (by decide) zero)
  rw [octet, if_pos ⟨numeral_ne_nil _ _, head⟩, number_numeral (by decide) digit_symbol,
    Option.bind_some, if_pos small]
  simp

/-- The two bytes of a group. -/
def groupBytes (w : Nat) : List UInt8 := [(w / 256).toUInt8, w.toUInt8]

theorem hexGroup_numeral (small : n < 65536) : hexGroup (numeral 16 n) = some (groupBytes n) := by
  have length : (numeral 16 n).length ≤ 4 := length_numeral (by decide) (by decide) small
  rw [hexGroup, if_pos ⟨numeral_ne_nil _ _, length⟩, number_numeral (by decide) hexDigit_symbol]
  rfl

/-! ## IPv4 addresses -/

def quadParts (bytes : List UInt8) : List Text := bytes.map fun byte => numeral 10 byte.toNat

def ntop4 (a : Vector UInt8 4) : Text := [46].intercalate (quadParts a.toList)

theorem dot_not_mem_quadParts {bytes : List UInt8} : ∀ part ∈ quadParts bytes, 46 ∉ part := by
  intro part mem
  obtain ⟨byte, -, rfl⟩ := List.mem_map.mp mem
  exact not_mem_numeral (by decide) fun d lt => symbol_ne_dot d (by omega)

theorem mapM_octet_quadParts (bytes : List UInt8) : (quadParts bytes).mapM octet = some bytes := by
  induction bytes with
  | nil => rfl
  | cons byte bytes ih =>
    unfold quadParts at ih ⊢
    rw [List.map_cons, List.mapM_cons, octet_numeral, ih]
    rfl

/-- Four octets between dots denote those octets. -/
theorem octets_quadParts {bytes : List UInt8} (some_octet : bytes ≠ []) :
    (([46].intercalate (quadParts bytes)).splitOn 46).mapM octet = some bytes := by
  have some_part : quadParts bytes ≠ [] := by simpa [quadParts] using some_octet
  rw [List.splitOn_intercalate 46 dot_not_mem_quadParts some_part, mapM_octet_quadParts]

theorem sized_toList {k : Nat} (a : Vector UInt8 k) : sized k a.toList = some a := by
  obtain ⟨bytes, size⟩ := a
  have length : bytes.toList.length = k := size
  exact dif_pos length

/-- **A printed IPv4 address denotes the address.** -/
theorem dottedQuad_ntop4 (a : Vector UInt8 4) : dottedQuad (ntop4 a) = some a := by
  have some_octet : a.toList ≠ [] := by
    intro none
    have four := a.length_toList
    rw [none] at four
    cases four
  rw [dottedQuad, ntop4, octets_quadParts some_octet, Option.bind_some, sized_toList]

/-! ## IPv6 addresses -/

/-- The groups of an address. -/
def groupsOf : List UInt8 → List Nat
  | hi :: lo :: bytes => (256 * hi.toNat + lo.toNat) :: groupsOf bytes
  | _ => []

/-- The number of zero groups at the beginning. -/
def zeros : List Nat → Nat
  | 0 :: ws => zeros ws + 1
  | _ => 0

/-- The longer one of a run and the run that begins at `i`. -/
def longer (ws : List Nat) (best : Nat × Nat) (i : Nat) : Nat × Nat :=
  if best.2 < zeros (ws.drop i) then (i, zeros (ws.drop i)) else best

/-- The first one of the longest runs of zero groups: where it begins, and its length, which is two at
least. -/
def longestRun (ws : List Nat) : Option (Nat × Nat) :=
  let best := (List.range ws.length).foldl (longer ws) (0, 0)
  if 2 ≤ best.2 then some best else none

/-- The groups before the run are the prefix of an IPv4-compatible or IPv4-mapped address. -/
def embedsQuad (ws : List Nat) (run : Nat × Nat) : Bool :=
  run.1 == 0 && (run.2 == 6 || (run.2 == 5 && ws[5]? == some 0xffff))

def groupParts (ws : List Nat) : List Text := ws.map (numeral 16)

/-- What is printed after the run. -/
def partsAfter (a : Vector UInt8 16) (ws : List Nat) (run : Nat × Nat) : List Text :=
  if embedsQuad ws run then
    groupParts ((ws.take 6).drop (run.1 + run.2)) ++ [[46].intercalate (quadParts (a.toList.drop 12))]
  else groupParts (ws.drop (run.1 + run.2))

def ntop6 (a : Vector UInt8 16) : Text :=
  let ws := groupsOf a.toList
  match longestRun ws with
  | none => [58].intercalate (groupParts ws)
  | some run =>
    [58].intercalate (groupParts (ws.take run.1)) ++ 58 :: 58 ::
      [58].intercalate (partsAfter a ws run)

/-! ### Groups and their bytes -/

theorem groupsOf_lt (bytes : List UInt8) : ∀ w ∈ groupsOf bytes, w < 65536 := by
  induction bytes using groupsOf.induct with
  | case1 hi lo bytes ih =>
    have hi_lt := hi.toNat_lt
    have lo_lt := lo.toNat_lt
    exact List.forall_mem_cons.mpr ⟨by omega, ih⟩
  | case2 bytes short =>
    intro w mem
    unfold groupsOf at mem
    split at mem
    · exact absurd rfl (short _ _ _)
    · exact absurd mem List.not_mem_nil

theorem groupBytes_group (hi lo : UInt8) : groupBytes (256 * hi.toNat + lo.toNat) = [hi, lo] := by
  have hi_lt := hi.toNat_lt
  have lo_lt := lo.toNat_lt
  have high : (256 * hi.toNat + lo.toNat) / 256 = hi.toNat := by omega
  have low : (256 * hi.toNat + lo.toNat) % 256 = lo.toNat := by omega
  rw [groupBytes, high]
  congr 1
  · simp
  · congr 1
    apply UInt8.toNat_inj.mp
    rw [← low]
    simp

/-- The groups of an even number of bytes have all of them. -/
theorem bytes_groupsOf {k : Nat} {bytes : List UInt8} (even : bytes.length = 2 * k) :
    (groupsOf bytes).flatMap groupBytes = bytes ∧ (groupsOf bytes).length = k := by
  induction k generalizing bytes with
  | zero =>
    obtain rfl := List.length_eq_zero_iff.mp even
    exact ⟨rfl, rfl⟩
  | succ k ih =>
    match bytes, even with
    | hi :: lo :: rest, even =>
      have even_rest : rest.length = 2 * k := by
        simp only [List.length_cons] at even
        omega
      obtain ⟨all, length⟩ := ih even_rest
      refine ⟨?_, congrArg (· + 1) length⟩
      rw [groupsOf, List.flatMap_cons, groupBytes_group, all]
      rfl
    | [_], even => simp only [List.length_cons, List.length_nil] at even; omega
    | [], even => simp only [List.length_nil] at even; omega

theorem length_flatMap_groupBytes (ws : List Nat) :
    (ws.flatMap groupBytes).length = 2 * ws.length := by
  induction ws with
  | nil => rfl
  | cons w ws ih =>
    rw [List.flatMap_cons, List.length_append, ih]
    simp only [groupBytes, List.length_cons, List.length_nil]
    omega

theorem flatMap_drop (ws : List Nat) (k : Nat) :
    (ws.drop k).flatMap groupBytes = (ws.flatMap groupBytes).drop (2 * k) := by
  induction k generalizing ws with
  | zero => rfl
  | succ k ih =>
    cases ws with
    | nil => simp
    | cons w ws => exact ih ws

theorem flatMap_zeros (n : Nat) :
    (List.replicate n 0).flatMap groupBytes = List.replicate (2 * n) 0 := by
  induction n with
  | zero => rfl
  | succ n ih =>
    rw [List.replicate_succ, List.flatMap_cons, ih, Nat.mul_succ, Nat.add_comm, List.replicate_add]
    rfl

/-! ### The run of zero groups -/

theorem take_zeros (ws : List Nat) : ws.take (zeros ws) = List.replicate (zeros ws) 0 := by
  induction ws using zeros.induct with
  | case1 ws ih => rw [zeros, List.take_succ_cons, ih, List.replicate_succ]
  | case2 ws other =>
    unfold zeros
    split
    · exact absurd rfl (other _)
    · rfl

theorem zeros_le (ws : List Nat) : zeros ws ≤ ws.length := by
  have length := congrArg List.length (take_zeros ws)
  rw [List.length_take, List.length_replicate] at length
  omega

/-- The best run so far is a run, if there is one. -/
theorem scan_zeros (ws : List Nat) (is : List Nat) (best : Nat × Nat)
    (ok : best.2 = 0 ∨ best.2 = zeros (ws.drop best.1)) :
    (is.foldl (longer ws) best).2 = 0 ∨
      (is.foldl (longer ws) best).2 = zeros (ws.drop (is.foldl (longer ws) best).1) := by
  induction is generalizing best with
  | nil => exact ok
  | cons i is ih =>
    apply ih
    unfold longer
    split
    · exact .inr rfl
    · exact ok

/-- A run that is found is one, from its beginning on. -/
theorem longestRun_eq {run : Nat × Nat} (h : longestRun ws = some run) :
    2 ≤ run.2 ∧ run.2 = zeros (ws.drop run.1) := by
  have found := scan_zeros ws (List.range ws.length) (0, 0) (.inl rfl)
  simp only [longestRun] at h
  split at h
  · rename_i two
    obtain rfl := Option.some.inj h
    exact ⟨two, found.resolve_left (by omega)⟩
  · cases h

/-- **The groups around a run**, and the zeros in it. -/
theorem run_splits {run : Nat × Nat} (h : longestRun ws = some run) :
    ws.take run.1 ++ List.replicate run.2 0 ++ ws.drop (run.1 + run.2) = ws ∧
      run.1 + run.2 ≤ ws.length := by
  obtain ⟨two, run_eq⟩ := longestRun_eq h
  have inside := zeros_le (ws.drop run.1)
  rw [← run_eq, List.length_drop] at inside
  have run_zeros := take_zeros (ws.drop run.1)
  rw [← run_eq] at run_zeros
  refine ⟨?_, by omega⟩
  rw [← run_zeros, ← List.drop_drop, List.append_assoc, List.take_append_drop, List.take_append_drop]

/-! ### The texts around a run -/

/-- Parts that are put together again by their colons. -/
structure Parts (parts : List Text) : Prop where
  some_part : parts ≠ []
  ne_nil : ∀ part ∈ parts, part ≠ []
  colon : ∀ part ∈ parts, 58 ∉ part

theorem Parts.splitOn (h : Parts parts) : ([58].intercalate parts).splitOn 58 = parts :=
  List.splitOn_intercalate 58 h.colon h.some_part

/-- A text with two colons in a row has an empty part. -/
theorem splitDouble_eq_none (h : ∀ part ∈ text.splitOn 58, part ≠ []) : splitDouble text = none := by
  cases found : splitDouble text with
  | none => rfl
  | some sides =>
    have eq : text = sides.1 ++ 58 :: 58 :: sides.2 := splitDouble_eq found
    have empty : [] ∈ text.splitOn 58 := by
      have second := List.splitOn_append_cons_self (a := 58) [] sides.2
      rw [List.nil_append, List.splitOn_nil] at second
      rw [eq, List.splitOn_append_cons_self, second]
      simp
    exact absurd rfl (h [] empty)

/-- A text that ends with a colon has an empty part. -/
theorem getLast_ne_colon (h : ∀ part ∈ text.splitOn 58, part ≠ []) : text.getLast? ≠ some 58 := by
  intro last
  obtain ⟨before, eq⟩ := List.getLast?_eq_some_iff.mp last
  have empty : [] ∈ text.splitOn 58 := by
    rw [eq, List.splitOn_append_cons_self, List.splitOn_nil]
    simp
  exact absurd rfl (h [] empty)

/-- The first `::` of a text is the one behind a text that has none. -/
theorem splitDouble_append (none : splitDouble left = none) (last : left.getLast? ≠ some 58) :
    splitDouble (left ++ 58 :: 58 :: right) = some (left, right) := by
  induction left using splitDouble.induct with
  | case1 a b rest colons =>
    unfold splitDouble at none
    rw [if_pos colons] at none
    cases none
  | case2 a b rest other ih =>
    unfold splitDouble at none
    rw [if_neg other, Option.map_eq_none_iff] at none
    have later := ih none (by rwa [List.getLast?_cons_cons] at last)
    simp only [List.cons_append] at later ⊢
    rw [splitDouble, if_neg other, later]
    rfl
  | case3 left short =>
    cases left with
    | nil => rfl
    | cons a left =>
      cases left with
      | nil =>
        have a_ne : a ≠ 58 := by simpa using last
        simp [splitDouble, a_ne]
      | cons b rest => exact absurd rfl (short a b rest)

/-- What stands before a run, and the run's colons. -/
theorem splitDouble_parts (h : parts = [] ∨ Parts parts) :
    splitDouble ([58].intercalate parts ++ 58 :: 58 :: right) =
      some ([58].intercalate parts, right) := by
  rcases h with rfl | h
  · rfl
  · have ne_nil : ∀ part ∈ ([58].intercalate parts).splitOn 58, part ≠ [] := by
      rw [h.splitOn]
      exact h.ne_nil
    exact splitDouble_append (splitDouble_eq_none ne_nil) (getLast_ne_colon ne_nil)

theorem side_parts {bytes : List UInt8} (h : parts = [] ∨ Parts parts)
    (denotes : groups quad parts = some bytes) : side quad ([58].intercalate parts) = some bytes := by
  unfold side
  rcases h with rfl | h
  · exact denotes
  · have some_text : [58].intercalate parts ≠ [] := by
      intro empty
      have parts_eq := h.splitOn
      rw [empty, List.splitOn_nil] at parts_eq
      exact h.ne_nil [] (parts_eq ▸ List.mem_singleton_self _) rfl
    rw [if_neg some_text, h.splitOn, denotes]

/-! ### Printed groups -/

theorem numeral_part (n : Nat) : numeral 16 n ≠ [] ∧ 58 ∉ numeral 16 n :=
  ⟨numeral_ne_nil _ _, not_mem_numeral (by decide) symbol_ne_colon⟩

theorem groups_groupParts (small : ∀ w ∈ ws, w < 65536) :
    groups quad (groupParts ws) = some (ws.flatMap groupBytes) := by
  induction ws with
  | nil => rfl
  | cons w ws ih =>
    have first := hexGroup_numeral (small w List.mem_cons_self)
    have rest := ih fun w' mem => small w' (List.mem_cons_of_mem _ mem)
    cases ws with
    | nil =>
      simp [groupParts, groups, lastGroup, first]
    | cons w' ws =>
      unfold groupParts at rest ⊢
      rw [List.map_cons] at rest ⊢
      rw [List.map_cons, groups, first]
      rw [rest]
      rfl

theorem groups_cons (some_part : parts ≠ []) :
    groups quad (part :: parts) =
      (hexGroup part).bind fun bytes => (groups quad parts).map (bytes ++ ·) := by
  obtain ⟨next, parts, rfl⟩ := List.exists_cons_of_ne_nil some_part
  rw [groups]
  cases hexGroup part with
  | none => rfl
  | some bytes => cases groups quad (next :: parts) <;> rfl

/-! ### A dotted quad at the end -/

/-- A text with a byte that is no digit denotes no number. -/
theorem number_eq_none {byte : UInt8} (other : value byte = none) (mem : byte ∈ text) :
    number value base text = none := by
  unfold number
  generalize 0 = sum
  induction text generalizing sum with
  | nil => exact absurd mem List.not_mem_nil
  | cons first text ih =>
    rw [List.foldlM_cons]
    rcases List.mem_cons.mp mem with rfl | later
    · rw [other]
      rfl
    · cases value first with
      | none => rfl
      | some d => exact ih later _

theorem quadText_splitOn {bytes : List UInt8} (four : bytes.length = 4) :
    (([46].intercalate (quadParts bytes)).splitOn 46).length = 4 := by
  have some_part : quadParts bytes ≠ [] := by
    apply List.ne_nil_of_length_pos
    simp [quadParts, four]
  rw [List.splitOn_intercalate 46 dot_not_mem_quadParts some_part, quadParts, List.length_map, four]

theorem dot_mem_quadText {bytes : List UInt8} (four : bytes.length = 4) :
    46 ∈ [46].intercalate (quadParts bytes) := by
  have length := quadText_splitOn four
  by_contra none
  rw [List.splitOn_eq_singleton none] at length
  cases length

theorem quadText_part {bytes : List UInt8} (four : bytes.length = 4) :
    [46].intercalate (quadParts bytes) ≠ [] ∧ 58 ∉ [46].intercalate (quadParts bytes) := by
  refine ⟨List.ne_nil_of_mem (dot_mem_quadText four), fun mem => ?_⟩
  have some_part : quadParts bytes ≠ [] := by
    apply List.ne_nil_of_length_pos
    simp [quadParts, four]
  have inside : (58 : UInt8) = 46 ∨
      ∃ part ∈ ([46].intercalate (quadParts bytes)).splitOn 46, 58 ∈ part := mem_splitOn mem
  rcases inside with eq | ⟨part, in_parts, in_part⟩
  · exact absurd eq (by decide)
  · rw [List.splitOn_intercalate 46 dot_not_mem_quadParts some_part] at in_parts
    obtain ⟨byte, -, rfl⟩ := List.mem_map.mp in_parts
    exact not_mem_numeral (by decide) (fun d lt => symbol_ne_colon d (by omega)) in_part

theorem lastGroup_quadText {bytes : List UInt8} (four : bytes.length = 4) :
    lastGroup true ([46].intercalate (quadParts bytes)) = some bytes := by
  have no_group : hexGroup ([46].intercalate (quadParts bytes)) = none := by
    rw [hexGroup, number_eq_none (by decide) (dot_mem_quadText four)]
    simp
  have some_octet : bytes ≠ [] := List.ne_nil_of_length_pos (by omega)
  rw [lastGroup, no_group, Option.none_or, if_pos rfl, dottedQuad, octets_quadParts some_octet,
    Option.bind_some, sized, dif_pos four]
  rfl

theorem groups_quadText {bytes : List UInt8} (small : ∀ w ∈ ws, w < 65536)
    (four : bytes.length = 4) :
    groups true (groupParts ws ++ [[46].intercalate (quadParts bytes)]) =
      some (ws.flatMap groupBytes ++ bytes) := by
  induction ws with
  | nil => exact lastGroup_quadText four
  | cons w ws ih =>
    have rest := ih fun w' mem => small w' (List.mem_cons_of_mem _ mem)
    unfold groupParts at rest ⊢
    rw [List.map_cons, List.cons_append, groups_cons (by simp),
      hexGroup_numeral (small w List.mem_cons_self), rest]
    simp

/-! ### The whole address -/

theorem parts_groupParts (ws : List Nat) : groupParts ws = [] ∨ Parts (groupParts ws) := by
  cases ws with
  | nil => exact .inl rfl
  | cons w ws =>
    refine .inr ⟨List.cons_ne_nil _ _, ?_, ?_⟩
    · intro part mem
      obtain ⟨n, -, rfl⟩ := List.mem_map.mp mem
      exact (numeral_part n).1
    · intro part mem
      obtain ⟨n, -, rfl⟩ := List.mem_map.mp mem
      exact (numeral_part n).2

theorem parts_of_length {k : Nat} (length : ws.length = k + 1) : Parts (groupParts ws) := by
  apply (parts_groupParts ws).resolve_left
  intro none
  have size := congrArg List.length none
  rw [groupParts, List.length_map, length] at size
  cases size

theorem parts_quadText {bytes : List UInt8} (ws : List Nat) (four : bytes.length = 4) :
    Parts (groupParts ws ++ [[46].intercalate (quadParts bytes)]) := by
  obtain ⟨ne_nil, colon⟩ := quadText_part four
  refine ⟨by simp, ?_, ?_⟩
  · intro part mem
    rcases List.mem_append.mp mem with group | quad
    · obtain ⟨n, -, rfl⟩ := List.mem_map.mp group
      exact (numeral_part n).1
    · obtain rfl := List.mem_singleton.mp quad
      exact ne_nil
  · intro part mem
    rcases List.mem_append.mp mem with group | quad
    · obtain ⟨n, -, rfl⟩ := List.mem_map.mp group
      exact (numeral_part n).2
    · obtain rfl := List.mem_singleton.mp quad
      exact colon

/-- What is printed after the run denotes the groups after it. -/
theorem groups_partsAfter (a : Vector UInt8 16) (run : Nat × Nat) :
    groups true (partsAfter a (groupsOf a.toList) run) =
        some (((groupsOf a.toList).drop (run.1 + run.2)).flatMap groupBytes) ∧
      (partsAfter a (groupsOf a.toList) run = [] ∨
        Parts (partsAfter a (groupsOf a.toList) run)) := by
  obtain ⟨all, length⟩ := bytes_groupsOf (k := 8) a.length_toList
  have small := groupsOf_lt a.toList
  generalize groupsOf a.toList = ws at all length small ⊢
  unfold partsAfter
  split
  · rename_i embeds
    have four : (a.toList.drop 12).length = 4 := by rw [List.length_drop, a.length_toList]
    have le : run.1 + run.2 ≤ 6 := by
      simp only [embedsQuad, Bool.and_eq_true, Bool.or_eq_true, beq_iff_eq] at embeds
      omega
    have small_part : ∀ w ∈ (ws.take 6).drop (run.1 + run.2), w < 65536 := fun w mem =>
      small w (List.mem_of_mem_take (List.mem_of_mem_drop mem))
    refine ⟨?_, .inr (parts_quadText _ four)⟩
    have last : (ws.drop 6).flatMap groupBytes = a.toList.drop 12 := by
      rw [flatMap_drop, all]
    have six : (ws.take 6).length = 6 := by
      rw [List.length_take, length]
      rfl
    have split_six : ws.drop (run.1 + run.2) = (ws.take 6).drop (run.1 + run.2) ++ ws.drop 6 := by
      conv_lhs => rw [← List.take_append_drop 6 ws]
      exact List.drop_append_of_le_length (by omega)
    rw [groups_quadText small_part four, split_six, List.flatMap_append, last]
  · exact ⟨groups_groupParts fun w mem => small w (List.mem_of_mem_drop mem), parts_groupParts _⟩

/-- An address without a run. -/
theorem ntop6_of_none {a : Vector UInt8 16} (found : longestRun (groupsOf a.toList) = none) :
    ntop6 a = [58].intercalate (groupParts (groupsOf a.toList)) := by
  simp only [ntop6, found]

theorem ntop6_of_some {a : Vector UInt8 16} {run : Nat × Nat}
    (found : longestRun (groupsOf a.toList) = some run) :
    ntop6 a = [58].intercalate (groupParts ((groupsOf a.toList).take run.1)) ++ 58 :: 58 ::
      [58].intercalate (partsAfter a (groupsOf a.toList) run) := by
  simp only [ntop6, found]

/-- **A printed IPv6 address denotes the address.** -/
theorem colonHex_ntop6 (a : Vector UInt8 16) : colonHex (ntop6 a) = some a := by
  obtain ⟨all, length⟩ := bytes_groupsOf (k := 8) a.length_toList
  have small := groupsOf_lt a.toList
  unfold colonHex
  cases found : longestRun (groupsOf a.toList) with
  | none =>
    have parts : Parts (groupParts (groupsOf a.toList)) := parts_of_length length
    have single : splitDouble ([58].intercalate (groupParts (groupsOf a.toList))) = none := by
      apply splitDouble_eq_none
      rw [parts.splitOn]
      exact parts.ne_nil
    simp only [ntop6_of_none found, single, parts.splitOn, groups_groupParts small,
      Option.bind_some, all, sized_toList]
  | some run =>
    obtain ⟨after, after_parts⟩ := groups_partsAfter a run
    obtain ⟨around, inside⟩ := run_splits found
    have two := (longestRun_eq found).1
    have small_before : ∀ w ∈ (groupsOf a.toList).take run.1, w < 65536 := fun w mem =>
      small w (List.mem_of_mem_take mem)
    have before : groups false (groupParts ((groupsOf a.toList).take run.1)) = _ :=
      groups_groupParts small_before
    simp only [ntop6_of_some found, splitDouble_parts (parts_groupParts _),
      side_parts (parts_groupParts _) before, side_parts after_parts after, Option.bind_eq_bind,
      Option.bind_some, length_flatMap_groupBytes, List.length_take, List.length_drop, length]
    rw [length] at inside
    have gap : 16 - (2 * min run.1 8 + 2 * (8 - (run.1 + run.2))) = 2 * run.2 := by omega
    rw [if_pos (by omega), gap, ← flatMap_zeros, ← List.flatMap_append, ← List.flatMap_append,
      around, all, sized_toList]

/-- A run in the middle, an IPv4-mapped address, and a zero group that is alone. -/
example : ntop6 #v[0x20, 1, 0x3c, 0xa1, 1, 0x0f, 0, 0x1a, 0x12, 0x1b, 0, 0, 0, 0, 0, 0x10] =
      ofString "2001:3ca1:10f:1a:121b::10" ∧
    ntop6 #v[0, 0, 0, 0, 0, 0, 0, 0, 0, 0, 0xff, 0xff, 60, 205, 141, 97] =
      ofString "::ffff:60.205.141.97" ∧
    ntop6 #v[0, 7, 0, 0, 0, 1, 0, 3, 0, 4, 0, 5, 0, 6, 0, 8] = ofString "7:0:1:3:4:5:6:8" := by
  decide

theorem colon_not_mem_ntop4 (a : Vector UInt8 4) : 58 ∉ ntop4 a := (quadText_part a.length_toList).2

theorem colon_mem_ntop6 (a : Vector UInt8 16) : 58 ∈ ntop6 a := by
  cases found : longestRun (groupsOf a.toList) with
  | none =>
    obtain ⟨-, length⟩ := bytes_groupsOf (k := 8) a.length_toList
    have parts : Parts (groupParts (groupsOf a.toList)) := parts_of_length length
    have eight := parts.splitOn
    rw [ntop6_of_none found]
    by_contra none
    rw [List.splitOn_eq_singleton none] at eight
    have one := congrArg List.length eight
    rw [groupParts, List.length_map, length] at one
    cases one
  | some run =>
    rw [ntop6_of_some found]
    exact List.mem_append_right _ List.mem_cons_self

/-! ## The room a printed address takes -/

/-- Nothing is behind the last part. -/
theorem length_intercalate_lt (sep : UInt8) {k : Nat} (some_part : parts ≠ [])
    (short : ∀ part ∈ parts, part.length ≤ k) :
    ([sep].intercalate parts).length < (k + 1) * parts.length := by
  induction parts with
  | nil => exact absurd rfl some_part
  | cons part parts ih =>
    have first := short part List.mem_cons_self
    by_cases empty : parts = []
    · subst empty
      rw [List.intercalate_singleton, List.length_cons, List.length_nil]
      omega
    · have rest := ih empty fun part' mem => short part' (List.mem_cons_of_mem _ mem)
      rw [List.intercalate_cons_of_ne_nil empty, List.length_append, List.length_append,
        List.length_singleton, List.length_cons, Nat.mul_succ]
      omega

theorem length_quadText {bytes : List UInt8} (four : bytes.length = 4) :
    ([46].intercalate (quadParts bytes)).length ≤ 15 := by
  have some_part : quadParts bytes ≠ [] := by
    apply List.ne_nil_of_length_pos
    simp [quadParts, four]
  have short : ∀ part ∈ quadParts bytes, part.length ≤ 3 := by
    intro part mem
    obtain ⟨byte, -, rfl⟩ := List.mem_map.mp mem
    have small := byte.toNat_lt
    exact length_numeral (by decide) (by decide) (by omega)
  have length := length_intercalate_lt 46 some_part short
  rw [quadParts, List.length_map, four] at length
  exact Nat.le_of_lt_succ length

/-- **An IPv4 address takes 15 characters at most.** -/
theorem length_ntop4 (a : Vector UInt8 4) : (ntop4 a).length ≤ 15 := length_quadText a.length_toList

theorem length_groupParts (small : ∀ w ∈ ws, w < 65536) :
    ([58].intercalate (groupParts ws)).length ≤ 5 * ws.length := by
  have short : ∀ part ∈ groupParts ws, part.length ≤ 4 := by
    intro part mem
    obtain ⟨w, in_ws, rfl⟩ := List.mem_map.mp mem
    exact length_numeral (by decide) (by decide) (small w in_ws)
  by_cases empty : groupParts ws = []
  · rw [empty]
    exact Nat.zero_le _
  · have length := length_intercalate_lt 58 empty short
    rw [groupParts, List.length_map] at length
    exact Nat.le_of_lt length

/-- What is behind a run takes less than the groups before the run leave. -/
theorem length_partsAfter (a : Vector UInt8 16) {run : Nat × Nat} (two : 2 ≤ run.2)
    (inside : run.1 + run.2 ≤ 8) :
    ([58].intercalate (partsAfter a (groupsOf a.toList) run)).length + 5 * run.1 ≤ 38 := by
  obtain ⟨-, length⟩ := bytes_groupsOf (k := 8) a.length_toList
  have small := groupsOf_lt a.toList
  generalize groupsOf a.toList = ws at length small ⊢
  unfold partsAfter
  split
  · rename_i embeds
    have four : (a.toList.drop 12).length = 4 := by rw [List.length_drop, a.length_toList]
    have short := length_quadText four
    simp only [embedsQuad, Bool.and_eq_true, Bool.or_eq_true, beq_iff_eq] at embeds
    have le : ((ws.take 6).drop (run.1 + run.2)).length ≤ 1 := by
      rw [List.length_drop, List.length_take, length]
      omega
    have small_part : ∀ w ∈ (ws.take 6).drop (run.1 + run.2), w < 65536 := fun w mem =>
      small w (List.mem_of_mem_take (List.mem_of_mem_drop mem))
    have before := length_groupParts small_part
    by_cases empty : groupParts ((ws.take 6).drop (run.1 + run.2)) = []
    · rw [empty, List.nil_append, List.intercalate_singleton]
      omega
    · generalize (ws.take 6).drop (run.1 + run.2) = ws' at le before empty
      match ws', le with
      | [w], _ =>
        rw [groupParts, List.map_singleton, List.singleton_append,
          List.intercalate_cons_cons, List.intercalate_singleton]
        simp only [groupParts, List.map_singleton, List.intercalate_singleton,
          List.length_singleton] at before
        simp only [List.length_append, List.length_singleton]
        omega
      | [], _ => exact absurd rfl empty
  · have small_after : ∀ w ∈ ws.drop (run.1 + run.2), w < 65536 := fun w mem =>
      small w (List.mem_of_mem_drop mem)
    have after := length_groupParts small_after
    rw [List.length_drop, length] at after
    omega

/-- **An IPv6 address takes 45 characters at most.** -/
theorem length_ntop6 (a : Vector UInt8 16) : (ntop6 a).length ≤ 45 := by
  obtain ⟨-, length⟩ := bytes_groupsOf (k := 8) a.length_toList
  have small := groupsOf_lt a.toList
  cases found : longestRun (groupsOf a.toList) with
  | none =>
    have groups := length_groupParts small
    rw [ntop6_of_none found]
    omega
  | some run =>
    obtain ⟨-, inside⟩ := run_splits found
    have two := (longestRun_eq found).1
    have after := length_partsAfter a two (by omega)
    have small_before : ∀ w ∈ (groupsOf a.toList).take run.1, w < 65536 := fun w mem =>
      small w (List.mem_of_mem_take mem)
    have before := length_groupParts small_before
    rw [List.length_take, length] at before
    rw [ntop6_of_some found, List.length_append, List.length_cons, List.length_cons]
    omega

end IpText
