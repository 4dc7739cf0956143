import CoNet.Laws.Net.IpAddr
import CoNet.Net.AddrText

/-!
# What is printed is read back

A text of `to_string` fits in the buffer that it is made in, so `to_string` does not throw, and the parser
of the same class reads the address back from it (`parse_toString`). A `SocketAddr` prints its address and
its port, and nothing else that it contains: two of them print the same exactly when they have the same
family, address and port (`toString_eq_iff`), and one that is made again of the address and the port prints
the same as before (`makeAddr_toString`).
-/

set_option autoImplicit false

namespace CoNet.Net.Ip

open IpText

variable {family : Family} {s t : SocketAddr}

/-! ## Texts of addresses -/

theorem denotes_print (a : family.Address) : family.denotes (family.print a) = some a := by
  cases family with
  | inet => exact dottedQuad_ntop4 a
  | inet6 => exact colonHex_ntop6 a

theorem length_print (a : family.Address) : (family.print a).length + 1 ≤ family.addrstrlen := by
  cases family with
  | inet => exact Nat.succ_le_succ (length_ntop4 a)
  | inet6 => exact Nat.succ_le_succ (length_ntop6 a)

/-- Every text fits in the buffers of the source. -/
theorem inetNtop_eq (a : family.Address) :
    inetNtop family a family.addrstrlen = some (family.print a) :=
  if_pos (length_print a)

theorem addrToString_eq (family : Family) {message : String} (a : family.Address) :
    addrToString family message a = .ok (family.print a) := by
  rw [addrToString, inetNtop_eq]

/-- What the parser of a family leaves of a text that was printed in it. -/
theorem left_print (a addr : family.Address) (after : Text) :
    left family ⟨family.print a, 0 :: after⟩ addr = a :=
  left_of_terminated (denotes_print a)

theorem Ipv4Addr.parse_print (a : Ipv4Addr) (after : Text) (addr : Vector UInt8 4) :
    Ipv4Addr.parse ⟨Family.inet.print a.ip, 0 :: after⟩ addr = .ok a := by
  rw [Ipv4Addr.parse_eq, left_print]

theorem Ipv6Addr.parse_print (a : Ipv6Addr) (after : Text) (addr : Vector UInt8 16) :
    Ipv6Addr.parse ⟨Family.inet6.print a.ip, 0 :: after⟩ addr = .ok a := by
  rw [Ipv6Addr.parse_eq, left_print]

/-- **Every address is printed, and read back.** The text of a `std::string` is followed by a NUL. -/
theorem parse_toString :
    (∀ a : Ipv4Addr, ∃ text, a.toString = .ok text ∧
      ∀ after addr, Ipv4Addr.parse ⟨text, 0 :: after⟩ addr = .ok a) ∧
    ∀ a : Ipv6Addr, ∃ text, a.toString = .ok text ∧
      ∀ after addr, Ipv6Addr.parse ⟨text, 0 :: after⟩ addr = .ok a := by
  constructor
  · intro a
    exact ⟨Family.inet.print a.ip, addrToString_eq .inet a.ip, a.parse_print⟩
  · intro a
    exact ⟨Family.inet6.print a.ip, addrToString_eq .inet6 a.ip, a.parse_print⟩

/-! ## Bytes in the order of the network -/

theorem ntohs_htons (port : BitVec 16) : ntohs (htons port) = port := by
  unfold ntohs htons
  ext i hi
  simp only [BitVec.getElem_append, BitVec.getElem_extractLsb', BitVec.getLsbD_append,
    BitVec.getLsbD_extractLsb']
  grind

/-- The two swaps of a port's bytes are the same. -/
theorem htons_ntohs (port : BitVec 16) : htons (ntohs port) = port := ntohs_htons port

/-! ## Texts of socket addresses -/

theorem colon_not_mem_port (port : BitVec 16) : 58 ∉ numeral 10 port.toNat :=
  not_mem_numeral (by decide) fun d lt => symbol_ne_colon d (by omega)

namespace SocketAddr

/-- Every `SocketAddr` has an address of one family. -/
theorem exists_ip (s : SocketAddr) : ∃ family ip, s.sockaddr.ip family = some ip := by
  obtain ⟨addr | addr, len⟩ := s
  · exact ⟨.inet, addr.addr, rfl⟩
  · exact ⟨.inet6, addr.addr, rfl⟩

theorem port_eq (s : SocketAddr) : s.port = ntohs s.nport := by
  obtain ⟨addr | addr, len⟩ := s <;> rfl

/-- **What is printed**: the text of the address, and the port. -/
theorem toString_eq {ip : family.Address} (h : s.sockaddr.ip family = some ip) :
    s.toString = formatted (family.print ip) s.port := by
  obtain ⟨addr | addr, len⟩ := s
  · cases family with
    | inet =>
      cases h
      simp only [toString, inetNtop_eq, Option.getD_some, port]
    | inet6 => cases h
  · cases family with
    | inet => cases h
    | inet6 =>
      cases h
      simp only [toString, inetNtop_eq, Option.getD_some, port]

theorem splitOn_formatted (buf : Text) (port : BitVec 16) :
    (formatted buf port).splitOn 58 = buf.splitOn 58 ++ [numeral 10 port.toNat] := by
  rw [formatted, List.splitOn_append_cons_self, List.splitOn_eq_singleton (colon_not_mem_port port)]

/-- The last colon is the one before the port. -/
theorem formatted_eq_iff {buf buf' : Text} {port port' : BitVec 16} :
    formatted buf port = formatted buf' port' ↔ buf = buf' ∧ port = port' := by
  constructor
  · intro h
    have parts := congrArg (List.splitOn 58) h
    rw [splitOn_formatted, splitOn_formatted] at parts
    obtain ⟨bufs, ports⟩ := List.append_inj' parts rfl
    constructor
    · have whole : [58].intercalate (buf.splitOn 58) = buf := List.intercalate_splitOn 58
      rwa [bufs, List.intercalate_splitOn, eq_comm] at whole
    · exact BitVec.eq_of_toNat_eq (numeral_injective (List.singleton_inj.mp ports))
  · rintro ⟨rfl, rfl⟩
    rfl

end SocketAddr

theorem print_injective {a b : family.Address} (h : family.print a = family.print b) : a = b := by
  have denotes := denotes_print a
  rw [h, denotes_print] at denotes
  exact (Option.some.inj denotes).symm

/-- Only an IPv6 address has colons. -/
theorem print_ne (a : Family.inet.Address) (b : Family.inet6.Address) :
    Family.inet.print a ≠ Family.inet6.print b := by
  intro h
  have same : ntop4 a = ntop6 b := h
  apply colon_not_mem_ntop4 a
  rw [same]
  exact colon_mem_ntop6 b

/-- Addresses have the same text when they are the same, of one family. -/
theorem print_eq_iff {g : Family} {a : family.Address} {b : g.Address}
    (left : s.sockaddr.ip family = some a) (right : t.sockaddr.ip g = some b) :
    family.print a = g.print b ↔ ∀ f, s.sockaddr.ip f = t.sockaddr.ip f := by
  obtain ⟨addr | addr, len⟩ := s <;> obtain ⟨addr' | addr', len'⟩ := t <;>
    cases family <;> cases g <;> cases left <;> cases right
  case v4.v4.inet.inet =>
    constructor
    · intro same
      have eq : addr.addr = addr'.addr := print_injective same
      rintro (_ | _)
      · exact congrArg some eq
      · rfl
    · intro same
      exact congrArg _ (Option.some.inj (same .inet))
  case v6.v6.inet6.inet6 =>
    constructor
    · intro same
      have eq : addr.addr = addr'.addr := print_injective same
      rintro (_ | _)
      · rfl
      · exact congrArg some eq
    · intro same
      exact congrArg _ (Option.some.inj (same .inet6))
  case v4.v6.inet.inet6 => exact iff_of_false (print_ne _ _) fun same => nomatch same .inet
  case v6.v4.inet6.inet => exact iff_of_false (print_ne _ _).symm fun same => nomatch same .inet

/-- **Two addresses print the same exactly when family, address and port are the same.** -/
theorem SocketAddr.toString_eq_iff (s t : SocketAddr) :
    s.toString = t.toString ↔
      (∀ family, s.sockaddr.ip family = t.sockaddr.ip family) ∧ s.port = t.port := by
  obtain ⟨f, a, left⟩ := s.exists_ip
  obtain ⟨g, b, right⟩ := t.exists_ip
  rw [toString_eq left, toString_eq right, formatted_eq_iff, print_eq_iff left right]

/-! ## Made again of its text and its port -/

/-- The address is the one of the text, the port is the one that was given, and so is what is printed. -/
structure SocketAddr.Again (s s' : SocketAddr) : Prop where
  ip : ∀ family, s'.sockaddr.ip family = s.sockaddr.ip family
  port : s'.port = s.port
  nport : s'.nport = s.nport
  text : s'.toString = s.toString

theorem SocketAddr.again_of_ip {s' : SocketAddr} (ip : ∀ f, s'.sockaddr.ip f = s.sockaddr.ip f)
    (nport : s'.nport = htons s.port) : s.Again s' := by
  have port : s'.port = s.port := by rw [s'.port_eq, nport, ntohs_htons]
  obtain ⟨family, own, found⟩ := s.exists_ip
  refine ⟨ip, port, ?_, ?_⟩
  · rw [nport, s.port_eq, htons_ntohs]
  · rw [toString_eq found, toString_eq ((ip family).trans found), port]

/-- **An address that is made of the text and the port of another one is that address**, whatever the
stack contains. -/
theorem makeAddr_toString (s : SocketAddr) :
    (∀ ip, s.sockaddr.ip .inet = some ip → ∃ text, Ipv4Addr.toString ⟨ip⟩ = .ok text ∧
      ∀ after stack, ∃ s', makeAddrV4 ⟨text, 0 :: after⟩ s.port stack = .ok s' ∧ s.Again s') ∧
    ∀ ip, s.sockaddr.ip .inet6 = some ip → ∃ text, Ipv6Addr.toString ⟨ip⟩ = .ok text ∧
      ∀ after stack, ∃ s', makeAddrV6 ⟨text, 0 :: after⟩ s.port stack = .ok s' ∧ s.Again s' := by
  constructor
  · intro ip found
    refine ⟨Family.inet.print ip, addrToString_eq .inet ip, fun after stack => ?_⟩
    refine ⟨_, makeAddrV4_eq _ _ _, SocketAddr.again_of_ip ?_ rfl⟩
    rw [left_print]
    obtain ⟨addr | addr, len⟩ := s <;> cases found
    rintro (_ | _) <;> rfl
  · intro ip found
    refine ⟨Family.inet6.print ip, addrToString_eq .inet6 ip, fun after stack => ?_⟩
    refine ⟨_, makeAddrV6_eq _ _ _, SocketAddr.again_of_ip ?_ rfl⟩
    rw [left_print]
    obtain ⟨addr | addr, len⟩ := s <;> cases found
    rintro (_ | _) <;> rfl

end CoNet.Net.Ip
