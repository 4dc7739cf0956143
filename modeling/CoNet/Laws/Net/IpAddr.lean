import CoNet.Net.IpAddr

/-!
# What the parsers return

`inet_pton` answers a malformed text with 0, and the parsers throw on -1: no text makes them throw
(`parse_eq`). They return what the C string at the view denotes, or their own uninitialised variable.
So a parser does what it should (`ParsesExactly`) exactly when this is what the view's text denotes
(`parsesExactly_iff_seen`); of a view that ends in a NUL, exactly when its text is an address
(`seen_iff_of_terminated`).

Two calls with the same text and port give the same address when `inet_pton` leaves the same bytes for
both, and the fields that the constructors do not assign were the same on the stack (`makeAddr_eq_iff`).
-/

set_option autoImplicit false

namespace CoNet.Net.Ip

open IpText

variable {β : Type} {family : Family} {text : View} {port : BitVec 16} {addr : family.Address}
  {message : String}

/-! ## What a parser returns -/

/-- The bytes that `inet_pton` leaves in `addr`. -/
def left (family : Family) (text : View) (addr : family.Address) : family.Address :=
  (family.denotes text.cString).getD addr

/-- The result is 1 or 0. -/
theorem inetPton_eq (family : Family) (text : View) (addr : family.Address) :
    ∃ res, inetPton family text.cString addr = (res, left family text addr) ∧ res ≠ -1 := by
  unfold inetPton left
  cases family.denotes text.cString with
  | some a => exact ⟨1, rfl, by decide⟩
  | none => exact ⟨0, rfl, by decide⟩

/-- **No text makes a parser throw.** -/
theorem parse_eq : parse family message text addr = .ok (left family text addr) := by
  obtain ⟨res, eq, res_ne⟩ := inetPton_eq family text addr
  unfold parse
  rw [eq]
  exact if_neg res_ne

theorem Ipv4Addr.parse_eq (text : View) (addr : Vector UInt8 4) :
    Ipv4Addr.parse text addr = .ok ⟨left .inet text addr⟩ := by
  rw [Ipv4Addr.parse, Ip.parse_eq]
  rfl

theorem Ipv6Addr.parse_eq (text : View) (addr : Vector UInt8 16) :
    Ipv6Addr.parse text addr = .ok ⟨left .inet6 text addr⟩ := by
  rw [Ipv6Addr.parse, Ip.parse_eq]
  rfl

theorem makeAddrV4_eq (text : View) (port : BitVec 16) (stack : StackV4) :
    makeAddrV4 text port stack =
      .ok (.ofIpv4 ⟨left .inet text stack.addr⟩ port stack.sockaddr) := by
  rw [makeAddrV4, Ipv4Addr.parse_eq]
  rfl

theorem makeAddrV6_eq (text : View) (port : BitVec 16) (stack : StackV6) :
    makeAddrV6 text port stack =
      .ok (.ofIpv6 ⟨left .inet6 text stack.addr⟩ port stack.sockaddr) := by
  rw [makeAddrV6, Ipv6Addr.parse_eq]
  rfl

/-! ## The text and the address -/

/-- The IP address of a `sockaddr`, if it is of the family. -/
def Sockaddr.ip : (family : Family) → Sockaddr → Option family.Address
  | .inet, .v4 addr => some addr.addr
  | .inet6, .v6 addr => some addr.addr
  | _, _ => none

/-- The call returns normally exactly when the text is an address, and then with that address. -/
def ParsesExactly (family : Family) (text : View) (result : Except String β)
    (ip : β → Option family.Address) : Prop :=
  ((∃ b, result = .ok b) ↔ ∃ a, family.denotes text.chars = some a) ∧
    ∀ b, result = .ok b → ip b = family.denotes text.chars

/-- The text is an address, and what is left in `addr` is that address. -/
def Seen (family : Family) (text : View) (addr : family.Address) : Prop :=
  ∃ a, family.denotes text.chars = some a ∧ left family text addr = a

/-- A call that returns what `inet_pton` has left. -/
theorem parsesExactly_iff_of_ok {result : Except String β} {ip : β → Option family.Address} {b : β}
    (ok : result = .ok b) (ip_eq : ip b = some (left family text addr)) :
    ParsesExactly family text result ip ↔ Seen family text addr := by
  constructor
  · rintro ⟨returns, address⟩
    obtain ⟨a, denotes⟩ := returns.mp ⟨b, ok⟩
    refine ⟨a, denotes, ?_⟩
    have eq := address b ok
    rw [ip_eq, denotes] at eq
    exact Option.some.inj eq
  · rintro ⟨a, denotes, rfl⟩
    refine ⟨⟨fun _ => ⟨_, denotes⟩, fun _ => ⟨b, ok⟩⟩, fun b' ok' => ?_⟩
    obtain rfl := Except.ok.inj (ok.symm.trans ok')
    rw [ip_eq, denotes]

/-- **The parsers and the addresses made of them are right exactly when `inet_pton` sees the text.** -/
theorem parsesExactly_iff_seen (text : View) (port : BitVec 16) (v4 : StackV4) (v6 : StackV6) :
    (ParsesExactly .inet text (Ipv4Addr.parse text v4.addr) (fun a => some a.ip) ↔
      Seen .inet text v4.addr) ∧
    (ParsesExactly .inet text (makeAddrV4 text port v4) (·.sockaddr.ip .inet) ↔
      Seen .inet text v4.addr) ∧
    (ParsesExactly .inet6 text (Ipv6Addr.parse text v6.addr) (fun a => some a.ip) ↔
      Seen .inet6 text v6.addr) ∧
    (ParsesExactly .inet6 text (makeAddrV6 text port v6) (·.sockaddr.ip .inet6) ↔
      Seen .inet6 text v6.addr) := by
  refine ⟨?_, ?_, ?_, ?_⟩
  · exact parsesExactly_iff_of_ok (Ipv4Addr.parse_eq text v4.addr) rfl
  · exact parsesExactly_iff_of_ok (makeAddrV4_eq text port v4) rfl
  · exact parsesExactly_iff_of_ok (Ipv6Addr.parse_eq text v6.addr) rfl
  · exact parsesExactly_iff_of_ok (makeAddrV6_eq text port v6) rfl

/-- A host name is taken for an address that was never written. -/
theorem not_parsesExactly_localhost :
    ¬ ParsesExactly .inet ⟨ofString "localhost", [0]⟩
      (makeAddrV4 ⟨ofString "localhost", [0]⟩ 20589
        ⟨.replicate 4 0, ⟨0, 0, .replicate 4 0, .replicate 8 0⟩⟩)
      (·.sockaddr.ip .inet) := by
  rintro ⟨returns, -⟩
  obtain ⟨a, denotes⟩ := returns.mp ⟨_, makeAddrV4_eq _ _ _⟩
  cases denotes

/-! ## Views that end in a NUL -/

theorem denotes_nul {s : Text} {a : family.Address} (h : family.denotes s = some a) : 0 ∉ s := by
  cases family with
  | inet => exact dottedQuad_nul h
  | inet6 => exact colonHex_nul h

/-- What `inet_pton` reads of a view is its text, when a NUL follows. -/
theorem cString_of_terminated {s after : Text} (no_nul : 0 ∉ s) :
    View.cString ⟨s, 0 :: after⟩ = s := by
  have all : ∀ byte ∈ s, decide (byte ≠ 0) = true := fun byte mem =>
    decide_eq_true (fun nul => no_nul (nul ▸ mem))
  show (s ++ 0 :: after).takeWhile _ = s
  rw [List.takeWhile_append_of_pos all, List.takeWhile_cons_of_neg (by decide), List.append_nil]

theorem left_of_terminated {s after : Text} {a : family.Address} (h : family.denotes s = some a) :
    left family ⟨s, 0 :: after⟩ addr = a := by
  rw [left, cString_of_terminated (denotes_nul h), h, Option.getD_some]

theorem seen_iff_of_terminated {s after : Text} :
    Seen family ⟨s, 0 :: after⟩ addr ↔ ∃ a, family.denotes s = some a := by
  constructor
  · rintro ⟨a, denotes, -⟩
    exact ⟨a, denotes⟩
  · rintro ⟨a, denotes⟩
    exact ⟨a, denotes, left_of_terminated denotes⟩

/-! ## Two calls -/

theorem ofIpv4_eq_iff {ip ip' : Vector UInt8 4} {addr addr' : SockaddrIn} :
    SocketAddr.ofIpv4 ⟨ip⟩ port addr = SocketAddr.ofIpv4 ⟨ip'⟩ port addr' ↔
      ip = ip' ∧ addr.zero = addr'.zero := by
  simp only [SocketAddr.ofIpv4, SocketAddr.mk.injEq, Sockaddr.v4.injEq, SockaddrIn.mk.injEq,
    and_true, true_and]

theorem ofIpv6_eq_iff {ip ip' : Vector UInt8 16} {addr addr' : SockaddrIn6} :
    SocketAddr.ofIpv6 ⟨ip⟩ port addr = SocketAddr.ofIpv6 ⟨ip'⟩ port addr' ↔
      addr.flowinfo = addr'.flowinfo ∧ ip = ip' ∧ addr.scopeId = addr'.scopeId := by
  simp only [SocketAddr.ofIpv6, SocketAddr.mk.injEq, Sockaddr.v6.injEq, SockaddrIn6.mk.injEq,
    and_true, true_and]

/-- **Two calls with one text and port give one address** exactly when `inet_pton` leaves the same
bytes for both, and the stack contains the same in the fields that are not assigned. -/
theorem makeAddr_eq_iff (chars after after' : Text) (port : BitVec 16) (v4 v4' : StackV4)
    (v6 v6' : StackV6) :
    (makeAddrV4 ⟨chars, after⟩ port v4 = makeAddrV4 ⟨chars, after'⟩ port v4' ↔
      left .inet ⟨chars, after⟩ v4.addr = left .inet ⟨chars, after'⟩ v4'.addr ∧
        v4.sockaddr.zero = v4'.sockaddr.zero) ∧
    (makeAddrV6 ⟨chars, after⟩ port v6 = makeAddrV6 ⟨chars, after'⟩ port v6' ↔
      v6.sockaddr.flowinfo = v6'.sockaddr.flowinfo ∧
        left .inet6 ⟨chars, after⟩ v6.addr = left .inet6 ⟨chars, after'⟩ v6'.addr ∧
        v6.sockaddr.scopeId = v6'.sockaddr.scopeId) := by
  constructor
  · rw [makeAddrV4_eq, makeAddrV4_eq, Except.ok.injEq]
    exact ofIpv4_eq_iff
  · rw [makeAddrV6_eq, makeAddrV6_eq, Except.ok.injEq]
    exact ofIpv6_eq_iff

/-- The loopback address with another scope, and an IPv4 address with another digit behind the view. -/
theorem not_makeAddr_eq_loopback :
    (∃ a, Family.inet6.denotes (ofString "::1") = some a) ∧
      makeAddrV6 ⟨ofString "::1", [0]⟩ 20589 ⟨.replicate 16 0, ⟨0, 0, 0, .replicate 16 0, 0⟩⟩ ≠
        makeAddrV6 ⟨ofString "::1", [0]⟩ 20589 ⟨.replicate 16 0, ⟨0, 0, 0, .replicate 16 0, 7⟩⟩ ∧
      (∃ a, Family.inet.denotes (ofString "127.0.0.1") = some a) ∧
      makeAddrV4 ⟨ofString "127.0.0.1", [0]⟩ 20589 ⟨.replicate 4 0, ⟨0, 0, .replicate 4 0, .replicate 8 0⟩⟩ ≠
        makeAddrV4 ⟨ofString "127.0.0.1", ofString "6" ++ [0]⟩ 20589
          ⟨.replicate 4 0, ⟨0, 0, .replicate 4 0, .replicate 8 0⟩⟩ := by
  refine ⟨⟨_, rfl⟩, fun eq => ?_, ⟨_, rfl⟩, fun eq => ?_⟩
  · rw [makeAddrV6_eq, makeAddrV6_eq, Except.ok.injEq, ofIpv6_eq_iff] at eq
    exact absurd eq.2.2 (by decide)
  · rw [makeAddrV4_eq, makeAddrV4_eq, Except.ok.injEq, ofIpv4_eq_iff] at eq
    exact absurd eq.1 (by decide)

end CoNet.Net.Ip
