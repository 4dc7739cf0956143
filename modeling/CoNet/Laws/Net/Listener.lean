import CoNet.Net.Listener

/-!
# What `listen_on` returns

`listen_on` throws when `setsockopt` fails, as it does without a descriptor: out of the constructor, so
nothing closes the descriptor that there may be (`outcome_listenOn_error`). Past the constructor it
returns a listener, whatever becomes of `bind` and `listen` (`outcome_listenOn_ok`). So it is right
(`ListensExactly`) exactly when it has no descriptor, or when all calls on it succeed
(`listensExactly_iff`).
-/

set_option autoImplicit false

namespace CoNet.Net

open CoNet.Net.Ip

variable {α β : Type} {outcomes : Outcomes} {addr : SocketAddr} {backlog : Int}
  {log log' : List Syscall}

/-! ## One function after another -/

/-- The rest runs on the log, unless the first part throws. -/
theorem outcome_bind (body : SysM α) (next : α → SysM β) :
    outcome (body >>= next) log =
      match outcome body log with
      | (.ok a, log) => outcome (next a) log
      | (.error e, log) => (.error e, log) := by
  show (StateT.run (ExceptT.run body >>= ExceptT.bindCont next) log : Id _) = _
  rw [StateT.run_bind]
  show (StateT.run (ExceptT.bindCont next (outcome body log).1) (outcome body log).2 : Id _) = _
  cases outcome body log with
  | mk result log => cases result <;> rfl

theorem outcome_bind_ok {body : SysM α} {next : α → SysM β} {a : α}
    (h : outcome body log = (.ok a, log')) : outcome (body >>= next) log = outcome (next a) log' := by
  rw [outcome_bind, h]

theorem outcome_bind_error {body : SysM α} {next : α → SysM β} {e : String}
    (h : outcome body log = (.error e, log')) :
    outcome (body >>= next) log = (.error e, log') := by
  rw [outcome_bind, h]

theorem outcome_call {syscall : Syscall} {res : Int} :
    outcome (call syscall res) log = (.ok res, log ++ [syscall]) := rfl

/-! ## The functions -/

namespace Socket

theorem outcome_setReuse_ok {s : Socket} (h : resultOn s.fd outcomes.setsockopt ≠ -1) :
    outcome (s.setReuse outcomes true) log = (.ok (), log ++ [.setsockopt s.fd 1 15 1]) := by
  apply (outcome_bind_ok outcome_call).trans
  rw [if_neg h]
  rfl

theorem outcome_setReuse_error {s : Socket} (h : resultOn s.fd outcomes.setsockopt = -1) :
    outcome (s.setReuse outcomes true) log =
      (.error "Set socket resuable failed.\nNote: Direct Socket Cannot Set Reuse",
        log ++ [.setsockopt s.fd 1 15 1]) := by
  apply (outcome_bind_ok outcome_call).trans
  rw [if_pos h]
  rfl

theorem outcome_construct_ok {fd : Int} (h : resultOn fd outcomes.setsockopt ≠ -1) :
    outcome (construct outcomes fd addr) log =
      (.ok ⟨fd, addr⟩, log ++ [.setsockopt fd 1 15 1]) := by
  have reuse : resultOn (Socket.mk fd addr).fd outcomes.setsockopt ≠ -1 := h
  apply (outcome_bind_ok (outcome_setReuse_ok reuse)).trans
  rfl

/-- Nothing closes the descriptor of a socket that is not constructed. -/
theorem outcome_construct_error {fd : Int} (h : resultOn fd outcomes.setsockopt = -1) :
    outcome (construct outcomes fd addr) log =
      (.error "Set socket resuable failed.\nNote: Direct Socket Cannot Set Reuse",
        log ++ [.setsockopt fd 1 15 1]) := by
  have reuse : resultOn (Socket.mk fd addr).fd outcomes.setsockopt = -1 := h
  exact outcome_bind_error (outcome_setReuse_error reuse)

end Socket

/-- The domain that `create_tcp_socket` asks for. -/
def domainOf (addr : SocketAddr) : BitVec 16 :=
  if addr.isIpv4 then Family.inet.value else Family.inet6.value

/-- The calls up to the socket's constructor. -/
def socketCalls (outcomes : Outcomes) (addr : SocketAddr) : List Syscall :=
  [.socket (domainOf addr) 1 0 0, .setsockopt outcomes.socket.toInt 1 15 1]

theorem outcome_prepNormalSocket_ok {domain : BitVec 16} {type protocol flags : Int}
    (h : outcomes.socket.toInt ≠ -23) :
    outcome (prepNormalSocket outcomes domain type protocol flags) log =
      (.ok outcomes.socket.toInt, log ++ [.socket domain type protocol flags]) := by
  apply (outcome_bind_ok outcome_call).trans
  rw [if_neg h]
  rfl

theorem outcome_prepNormalSocket_error {domain : BitVec 16} {type protocol flags : Int}
    (h : outcomes.socket.toInt = -23) :
    outcome (prepNormalSocket outcomes domain type protocol flags) log =
      (.error "io_uring prep normal socket failed.", log ++ [.socket domain type protocol flags]) := by
  apply (outcome_bind_ok outcome_call).trans
  rw [if_pos h]
  rfl

theorem outcome_createTcpSocket_ok (h : resultOn outcomes.socket.toInt outcomes.setsockopt ≠ -1) :
    outcome (createTcpSocket outcomes addr) [] =
      (.ok ⟨outcomes.socket.toInt, addr⟩, socketCalls outcomes addr) := by
  have ne : outcomes.socket.toInt ≠ -23 := by
    intro eq
    rw [eq] at h
    exact h rfl
  apply (outcome_bind_ok (outcome_prepNormalSocket_ok ne)).trans
  apply (outcome_bind_ok (Socket.outcome_construct_ok h)).trans
  rfl

theorem outcome_createTcpSocket_error (addr : SocketAddr)
    (h : resultOn outcomes.socket.toInt outcomes.setsockopt = -1) :
    ∃ e log, outcome (createTcpSocket outcomes addr) [] = (.error e, log) ∧
      ∀ fd, .close fd ∉ log := by
  by_cases eq : outcomes.socket.toInt = -23
  · refine ⟨_, _, outcome_bind_error (outcome_prepNormalSocket_error eq), fun fd mem => ?_⟩
    cases List.mem_singleton.mp mem
  · refine ⟨_, socketCalls outcomes addr, (outcome_bind_ok (outcome_prepNormalSocket_ok eq)).trans
      (outcome_bind_error (Socket.outcome_construct_error h)), fun fd mem => ?_⟩
    simp [socketCalls] at mem

/-- **`listen_on` past the constructor**: it returns a listener on the descriptor. -/
theorem outcome_listenOn_ok (addr : SocketAddr) (backlog : Int)
    (h : resultOn outcomes.socket.toInt outcomes.setsockopt ≠ -1) :
    outcome (TcpListener.listenOn outcomes addr backlog) [] =
      (.ok ⟨⟨outcomes.socket.toInt, addr⟩⟩,
        socketCalls outcomes addr ++
          [.bind outcomes.socket.toInt addr.sockaddr addr.len,
            .listen outcomes.socket.toInt backlog]) := by
  apply (outcome_bind_ok (outcome_createTcpSocket_ok h)).trans
  rfl

/-- **`listen_on` up to the constructor**: it throws, and closes nothing. -/
theorem outcome_listenOn_error (addr : SocketAddr) (backlog : Int)
    (h : resultOn outcomes.socket.toInt outcomes.setsockopt = -1) :
    ∃ e log, outcome (TcpListener.listenOn outcomes addr backlog) [] = (.error e, log) ∧
      ∀ fd, .close fd ∉ log := by
  obtain ⟨e, log, throws, closes⟩ := outcome_createTcpSocket_error addr h
  exact ⟨e, log, outcome_bind_error throws, closes⟩

/-! ## The four outcomes -/

/-- What `listen_on` should do: it returns exactly when everything succeeds, and a throw leaves no
descriptor open. -/
structure ListensExactly (outcomes : Outcomes) (addr : SocketAddr) (backlog : Int) : Prop where
  returns : (∃ l, (outcome (TcpListener.listenOn outcomes addr backlog) []).1 = .ok l) ↔
    0 ≤ outcomes.socket.toInt ∧ outcomes.setsockopt ∧ outcomes.bind ∧ outcomes.listen
  closes : ∀ e, (outcome (TcpListener.listenOn outcomes addr backlog) []).1 = .error e →
    0 ≤ outcomes.socket.toInt →
      .close outcomes.socket.toInt ∈ (outcome (TcpListener.listenOn outcomes addr backlog) []).2

theorem resultOn_eq_iff {fd : Int} {succeeds : Bool} :
    resultOn fd succeeds = -1 ↔ ¬ (0 ≤ fd ∧ succeeds) := by
  unfold resultOn
  split <;> simp_all

/-- A call that throws is right when there was no descriptor. -/
theorem listensExactly_iff_of_error (h : resultOn outcomes.socket.toInt outcomes.setsockopt = -1) :
    ListensExactly outcomes addr backlog ↔ outcomes.socket.toInt < 0 := by
  obtain ⟨e, log, throws, closes⟩ := outcome_listenOn_error addr backlog h
  have failed := resultOn_eq_iff.mp h
  constructor
  · intro exactly
    by_contra nonneg
    have close := exactly.closes e (by rw [throws]) (by omega)
    rw [throws] at close
    exact closes _ close
  · intro neg
    constructor
    · rw [throws]
      constructor
      · rintro ⟨l, ok⟩
        cases ok
      · rintro ⟨nonneg, reuse, -⟩
        exact absurd ⟨nonneg, reuse⟩ failed
    · intro e' _ nonneg
      omega

/-- A call that returns is right when `bind` and `listen` succeed. -/
theorem listensExactly_iff_of_ok (h : resultOn outcomes.socket.toInt outcomes.setsockopt ≠ -1) :
    ListensExactly outcomes addr backlog ↔ outcomes.bind ∧ outcomes.listen := by
  have returned := outcome_listenOn_ok addr backlog h
  have succeeded := of_not_not (mt resultOn_eq_iff.mpr h)
  constructor
  · intro exactly
    exact (exactly.returns.mp ⟨_, by rw [returned]⟩).2.2
  · intro both
    constructor
    · rw [returned]
      exact ⟨fun _ => ⟨succeeded.1, succeeded.2, both⟩, fun _ => ⟨_, rfl⟩⟩
    · intro e threw
      rw [returned] at threw
      cases threw

/-- **`listen_on` is right exactly when** it gets no descriptor, or all calls on it succeed. -/
theorem listensExactly_iff (outcomes : Outcomes) (addr : SocketAddr) (backlog : Int) :
    ListensExactly outcomes addr backlog ↔
      outcomes.socket.toInt < 0 ∨ outcomes.setsockopt ∧ outcomes.bind ∧ outcomes.listen := by
  by_cases h : resultOn outcomes.socket.toInt outcomes.setsockopt = -1
  · rw [listensExactly_iff_of_error h]
    have failed := resultOn_eq_iff.mp h
    constructor
    · exact .inl
    · rintro (neg | ⟨reuse, -⟩)
      · exact neg
      · by_contra nonneg
        exact failed ⟨by omega, reuse⟩
  · rw [listensExactly_iff_of_ok h]
    have succeeded := of_not_not (mt resultOn_eq_iff.mpr h)
    constructor
    · exact fun both => .inr ⟨succeeded.2, both⟩
    · rintro (neg | ⟨-, both⟩)
      · exact absurd succeeded.1 (by omega)
      · exact both

/-- The port is in use, so `bind` fails; or `setsockopt` fails. The descriptor is 5. -/
theorem not_listensExactly_portInUse :
    ¬ ListensExactly ⟨5, true, false, true⟩
        ⟨.v4 ⟨2, htons 20589, .replicate 4 0, .replicate 8 0⟩, 16⟩ 4096 ∧
      ¬ ListensExactly ⟨5, false, true, true⟩
        ⟨.v4 ⟨2, htons 20589, .replicate 4 0, .replicate 8 0⟩, 16⟩ 4096 := by
  constructor
  · rw [listensExactly_iff_of_ok (by decide)]
    exact fun both => absurd both.1 (by decide)
  · rw [listensExactly_iff_of_error (by decide)]
    decide

end CoNet.Net
