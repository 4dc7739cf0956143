import Mathlib.Data.List.Basic

/-!
# Internet addresses as text

The texts of C's `inet_pton`, as bytes. An IPv4 address is four decimal octets between dots
(`dottedQuad`). An IPv6 address is eight groups of hexadecimal digits between colons, where `::` once
stands for groups of zeros and a dotted quad may stand for the last two groups (`colonHex`). An address
is its bytes in network order.

No text of an address contains a NUL (`dottedQuad_nul`, `colonHex_nul`), so each is a C string.
-/

set_option autoImplicit false

namespace IpText

abbrev Text := List UInt8

variable {text part : Text} {parts : List Text} {value : UInt8 → Option Nat} {base n : Nat}
  {quad : Bool} {bytes : List UInt8}

def ofString (s : String) : Text := s.toList.map fun c => c.toNat.toUInt8

/-! ## Numbers -/

def digit (byte : UInt8) : Option Nat :=
  if 48 ≤ byte ∧ byte ≤ 57 then some (byte.toNat - 48) else none

def hexDigit (byte : UInt8) : Option Nat :=
  if 97 ≤ byte ∧ byte ≤ 102 then some (byte.toNat - 87)
  else if 65 ≤ byte ∧ byte ≤ 70 then some (byte.toNat - 55)
  else digit byte

/-- The number that a text of digits denotes. -/
def number (value : UInt8 → Option Nat) (base : Nat) (text : Text) : Option Nat :=
  text.foldlM (fun sum byte => (value byte).map (base * sum + ·)) 0

/-- A number below 256, without leading zeros. -/
def octet (text : Text) : Option UInt8 :=
  if text ≠ [] ∧ (text.head? = some 48 → text.length = 1) then
    (number digit 10 text).bind fun n => if n < 256 then some n.toUInt8 else none
  else none

/-- One to four hexadecimal digits, as two bytes. -/
def hexGroup (text : Text) : Option (List UInt8) :=
  if text ≠ [] ∧ text.length ≤ 4 then
    (number hexDigit 16 text).map fun n => [(n / 256).toUInt8, n.toUInt8]
  else none

/-! ## Addresses -/

def sized (n : Nat) (bytes : List UInt8) : Option (Vector UInt8 n) :=
  if h : bytes.length = n then some ⟨bytes.toArray, h⟩ else none

def dottedQuad (text : Text) : Option (Vector UInt8 4) :=
  ((text.splitOn 46).mapM octet).bind (sized 4)

/-- The last group, or a dotted quad where `quad` allows it. -/
def lastGroup (quad : Bool) (text : Text) : Option (List UInt8) :=
  (hexGroup text).or (if quad then (dottedQuad text).map (·.toList) else none)

def groups (quad : Bool) : List Text → Option (List UInt8)
  | [] => some []
  | [last] => lastGroup quad last
  | part :: next :: parts => do
    let bytes ← hexGroup part
    let rest ← groups quad (next :: parts)
    some (bytes ++ rest)

/-- The groups on one side of `::`, which may be none. -/
def side (quad : Bool) (text : Text) : Option (List UInt8) :=
  if text = [] then some [] else groups quad (text.splitOn 58)

/-- The texts before and after the first `::`. -/
def splitDouble : Text → Option (Text × Text)
  | a :: b :: rest =>
    if a = 58 ∧ b = 58 then some ([], rest)
    else (splitDouble (b :: rest)).map fun sides => (a :: sides.1, sides.2)
  | _ => none

def colonHex (text : Text) : Option (Vector UInt8 16) :=
  match splitDouble text with
  | none => (groups true (text.splitOn 58)).bind (sized 16)
  | some (left, right) => do
    let l ← side false left
    let r ← side true right
    -- `::` stands for one group at least
    if l.length + r.length ≤ 14 then
      sized 16 (l ++ List.replicate (16 - (l.length + r.length)) 0 ++ r)
    else none

/-- The forms of an IPv6 address, and two texts that are none. -/
example : colonHex (ofString "2001:3CA1:010F:001A:121B:0000:0000:0010") =
      colonHex (ofString "2001:3ca1:10f:1a:121b::10") ∧
    colonHex (ofString "::ffff:60.205.141.97") =
      some #v[0, 0, 0, 0, 0, 0, 0, 0, 0, 0, 0xff, 0xff, 60, 205, 141, 97] ∧
    colonHex (ofString "1::2::3") = none ∧ dottedQuad (ofString "localhost") = none := by
  decide

/-! ## No text of an address contains a NUL -/

theorem number_nul (nul : value 0 = none) (h : number value base text = some n) : 0 ∉ text := by
  unfold number at h
  generalize 0 = sum at h
  induction text generalizing sum with
  | nil => exact List.not_mem_nil
  | cons byte text ih =>
    rw [List.foldlM_cons, Option.bind_eq_bind, Option.bind_eq_some_iff] at h
    obtain ⟨sum', first, rest⟩ := h
    have byte_ne : byte ≠ 0 := by
      rintro rfl
      rw [nul] at first
      cases first
    exact List.not_mem_cons_of_ne_of_not_mem byte_ne.symm (ih sum' rest)

theorem octet_nul {byte : UInt8} (h : octet text = some byte) : 0 ∉ text := by
  unfold octet at h
  split at h
  · obtain ⟨n, denotes, -⟩ := Option.bind_eq_some_iff.mp h
    exact number_nul (by decide) denotes
  · cases h

theorem hexGroup_nul (h : hexGroup text = some bytes) : 0 ∉ text := by
  unfold hexGroup at h
  split at h
  · obtain ⟨n, denotes, -⟩ := Option.map_eq_some_iff.mp h
    exact number_nul (by decide) denotes
  · cases h

/-- A byte of a text is a separator, or in one of the parts. -/
theorem mem_splitOn {sep byte : UInt8} (mem : byte ∈ text) :
    byte = sep ∨ ∃ part ∈ text.splitOn sep, byte ∈ part := by
  induction text with
  | nil => exact absurd mem List.not_mem_nil
  | cons first text ih =>
    obtain ⟨head, tail, split⟩ := List.exists_cons_of_ne_nil (List.splitOn_ne_nil sep text)
    rw [split] at ih
    rw [List.splitOn_cons_eq_if_modifyHead, split]
    by_cases here : first = sep
    · rw [if_pos (beq_iff_eq.mpr here)]
      rcases List.mem_cons.mp mem with rfl | later
      · exact .inl here
      · refine (ih later).imp_right ?_
        rintro ⟨part, in_parts, in_part⟩
        exact ⟨part, List.mem_cons_of_mem _ in_parts, in_part⟩
    · rw [if_neg (fun eq => here (beq_iff_eq.mp eq)), List.modifyHead_cons]
      rcases List.mem_cons.mp mem with rfl | later
      · exact .inr ⟨_, List.mem_cons_self, List.mem_cons_self⟩
      · refine (ih later).imp_right ?_
        rintro ⟨part, in_parts, in_part⟩
        rcases List.mem_cons.mp in_parts with rfl | in_tail
        · exact ⟨_, List.mem_cons_self, List.mem_cons_of_mem _ in_part⟩
        · exact ⟨part, List.mem_cons_of_mem _ in_tail, in_part⟩

theorem splitOn_nul {sep : UInt8} (sep_ne : sep ≠ 0) (h : ∀ part ∈ text.splitOn sep, 0 ∉ part) :
    0 ∉ text := by
  intro mem
  rcases mem_splitOn mem with eq | ⟨part, in_parts, in_part⟩
  · exact sep_ne eq.symm
  · exact h part in_parts in_part

theorem mapM_octet_nul (h : parts.mapM octet = some bytes) : ∀ part ∈ parts, 0 ∉ part := by
  induction parts generalizing bytes with
  | nil =>
    intro part mem
    exact absurd mem List.not_mem_nil
  | cons first parts ih =>
    rw [List.mapM_cons, Option.bind_eq_bind, Option.bind_eq_some_iff] at h
    obtain ⟨byte, head, rest⟩ := h
    obtain ⟨tail, rest, -⟩ := Option.bind_eq_some_iff.mp rest
    exact List.forall_mem_cons.mpr ⟨octet_nul head, ih rest⟩

theorem dottedQuad_nul {a : Vector UInt8 4} (h : dottedQuad text = some a) : 0 ∉ text := by
  obtain ⟨bytes, octets, -⟩ := Option.bind_eq_some_iff.mp h
  exact splitOn_nul (by decide) (mapM_octet_nul octets)

theorem lastGroup_nul (h : lastGroup quad text = some bytes) : 0 ∉ text := by
  unfold lastGroup at h
  rcases Option.or_eq_some_iff.mp h with group | ⟨-, address⟩
  · exact hexGroup_nul group
  · split at address
    · obtain ⟨a, address, -⟩ := Option.map_eq_some_iff.mp address
      exact dottedQuad_nul address
    · cases address

theorem groups_nul (h : groups quad parts = some bytes) : ∀ part ∈ parts, 0 ∉ part := by
  induction parts using groups.induct generalizing bytes with
  | case1 =>
    intro part mem
    exact absurd mem List.not_mem_nil
  | case2 last =>
    intro part mem
    obtain rfl := List.mem_singleton.mp mem
    exact lastGroup_nul h
  | case3 first next parts ih =>
    unfold groups at h
    rw [Option.bind_eq_bind, Option.bind_eq_some_iff] at h
    obtain ⟨head, group, rest⟩ := h
    obtain ⟨tail, rest, -⟩ := Option.bind_eq_some_iff.mp rest
    exact List.forall_mem_cons.mpr ⟨hexGroup_nul group, ih rest⟩

theorem side_nul (h : side quad text = some bytes) : 0 ∉ text := by
  unfold side at h
  split at h
  · rename_i empty
    rw [empty]
    exact List.not_mem_nil
  · exact splitOn_nul (by decide) (groups_nul h)

/-- The two sides and their colons are the text. -/
theorem splitDouble_eq {left right : Text} (h : splitDouble text = some (left, right)) :
    text = left ++ 58 :: 58 :: right := by
  induction text using splitDouble.induct generalizing left with
  | case1 a b rest colons =>
    unfold splitDouble at h
    rw [if_pos colons] at h
    obtain ⟨rfl, rfl⟩ := Prod.mk.inj (Option.some.inj h)
    obtain ⟨rfl, rfl⟩ := colons
    rfl
  | case2 a b rest other ih =>
    unfold splitDouble at h
    rw [if_neg other] at h
    obtain ⟨⟨left', right'⟩, later, eq⟩ := Option.map_eq_some_iff.mp h
    obtain ⟨rfl, rfl⟩ := Prod.mk.inj eq
    rw [ih later, List.cons_append]
  | case3 text short =>
    unfold splitDouble at h
    split at h
    · exact absurd rfl (short _ _ _)
    · cases h

theorem colonHex_nul {a : Vector UInt8 16} (h : colonHex text = some a) : 0 ∉ text := by
  unfold colonHex at h
  split at h
  · obtain ⟨bytes, all, -⟩ := Option.bind_eq_some_iff.mp h
    exact splitOn_nul (by decide) (groups_nul all)
  · rename_i left right double
    obtain ⟨l, left_groups, h⟩ := Option.bind_eq_some_iff.mp h
    obtain ⟨r, right_groups, -⟩ := Option.bind_eq_some_iff.mp h
    rw [splitDouble_eq double]
    intro mem
    rcases List.mem_append.mp mem with before | after
    · exact side_nul left_groups before
    · have after : 0 ∈ right := by simpa using after
      exact side_nul right_groups after

end IpText
