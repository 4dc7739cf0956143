import CoNet.Laws.Io.BufRing
import CoNet.Laws.Net.PoolExtension
import CoNet.Net.SharedReceive

/-!
# The thread over the shared ring

The counters of the ring wrap, and an entry is written over whatever is in its place. In the runs that
repay only buffers that were taken, and extend the pool only while no other receive has one, the ring never
has more entries than places, and what the thread does over the ring is what it does over the list of its
entries (`refines`).

With as many buffers as connections, the kernel finds one for each receive: the pool is never extended and
no task sleeps (`supplied_always`).
-/

set_option autoImplicit false

namespace CoNet.Net

open CoNet.Io Transition

/-! ## Ids in the list -/

namespace Receive

variable {κ : Type} {cfg : Config} {s s' : Receive κ} {e : RecvEvent κ} {c : κ}

/-- A task that repays a buffer finds a place for it. -/
def Room (cfg : Config) (s : Receive κ) : RecvEvent κ → Prop
  | .resume c _ => ∀ res flags, s.phase c = .completed res flags → 0 ≤ res →
      s.pool.available.length < cfg.nBuffers * s.pool.bufCount
  | _ => True

/-- A call that repays a buffer has one. -/
def Repays (s : Receive κ) : RecvEvent κ → Prop
  | .resume c _ => ∀ r ∈ s.result c, 0 ≤ r.1 → hasBuffer r.2 = true
  | _ => True

theorem repays_completed {res setup : Int} {flags : BitVec 32}
    (h : s.phase c = .completed res flags) (repays : Repays s (.resume c setup)) (data : 0 ≤ res) :
    hasBuffer flags = true := by
  apply repays (res, flags) _ data
  rw [result, h]
  rfl

/-- What the steps keep, whatever errors there are. -/
structure Bounded (cfg : Config) (s : Receive κ) : Prop where
  sound : Pool.Sound s.pool.available s.held
  held_lt : ∀ c id, s.held c = some id → id < cfg.nBuffers * s.pool.bufCount
  available_lt : ∀ id ∈ s.pool.available, id < cfg.nBuffers * s.pool.bufCount

theorem bounded_start {setup : Int} (h : start cfg setup = some s) : Bounded cfg s := by
  obtain ⟨available, count, idle⟩ := start_eq h
  have none : ∀ c, s.held c = none := fun c => held_of_phase (idle c)
  refine ⟨?_, fun c id hc => ?_, fun id mem => ?_⟩
  · rw [available]
    exact .full List.nodup_range none
  · rw [none] at hc
    cases hc
  · rw [available] at mem
    rw [count, Nat.mul_one]
    exact List.mem_range.mp mem

theorem Bounded.keep (inv : Bounded cfg s) (pool : s'.pool = s.pool) (held : s'.held = s.held) :
    Bounded cfg s' where
  sound := by
    rw [pool, held]
    exact inv.sound
  held_lt := by
    rw [pool, held]
    exact inv.held_lt
  available_lt := by
    rw [pool]
    exact inv.available_lt

theorem Bounded.room (inv : Bounded cfg s) (repays : Repays s e) : Room cfg s e := by
  cases e with
  | resume c setup =>
    intro res flags completed data
    have held := held_buffered completed (repays_completed completed repays data)
    exact inv.sound.length_lt held (inv.held_lt c _ held) inv.available_lt
  | _ => trivial

variable [DecidableEq κ]

instance (s : Receive κ) : (e : RecvEvent κ) → Decidable (Repays s e)
  | .resume c _ =>
    inferInstanceAs (Decidable (∀ r ∈ s.result c, 0 ≤ r.1 → hasBuffer r.2 = true))
  | .call _ | .post _ _ _ _ | .handle _ | .wake _ => isTrue trivial

instance [Fintype κ] (cfg : Config) (s : Receive κ) : (e : RecvEvent κ) → Decidable (Alone cfg s e)
  | .resume c setup => inferInstanceAs (Decidable
      (Extends cfg s (.resume c setup) → 0 ≤ setup → ∀ d, d ≠ c → s.held d = none))
  | .call _ | .post _ _ _ _ | .handle _ | .wake _ => isTrue trivial

/-- A call loses the buffer it has. -/
theorem Bounded.forget (inv : Bounded cfg s) (c : κ) (p : RecvPhase) (free : p.buffer = none) :
    Bounded cfg (s.setPhase c p) where
  sound := by
    rw [held_setPhase, free]
    exact inv.sound.forget
  held_lt d id hd := by
    rw [held_setPhase, free] at hd
    rcases Pool.update_eq_some.mp hd with ⟨-, hv⟩ | ⟨-, hv⟩
    · cases hv
    · exact inv.held_lt d id hv
  available_lt := inv.available_lt

theorem Bounded.post (inv : Bounded cfg s) {res : Int} {flags : BitVec 32} {data : List UInt8}
    {pool : RingBuffer} (submitted : s.phase c = .submitted)
    (posted : kernelPost s.pool res flags data = some pool) :
    Bounded cfg { s.setPhase c (.posted res flags) with pool } := by
  have none : s.held c = none := held_of_phase submitted
  have held : (s.setPhase c (.posted res flags)).held = _ := held_setPhase _
  rcases kernelPost_cases posted with ⟨buffered, mem, available, count⟩ | ⟨plain, rfl⟩
  · rw [RecvPhase.buffer, if_pos buffered] at held
    refine ⟨?_, fun d id hd => ?_, fun id in_rest => ?_⟩
    · show Pool.Sound pool.available (s.setPhase c (.posted res flags)).held
      rw [available, held]
      exact inv.sound.take mem
    · replace hd : (s.setPhase c (.posted res flags)).held d = some id := hd
      show id < cfg.nBuffers * pool.bufCount
      rw [held] at hd
      rw [count]
      rcases Pool.update_eq_some.mp hd with ⟨-, hv⟩ | ⟨-, hv⟩
      · obtain rfl := Option.some.inj hv
        exact inv.available_lt _ mem
      · exact inv.held_lt d id hv
    · show id < cfg.nBuffers * pool.bufCount
      rw [available] at in_rest
      rw [count]
      exact inv.available_lt id (List.mem_of_mem_erase in_rest)
  · rw [RecvPhase.buffer, if_neg (by simp [plain]), Pool.update_none none] at held
    exact inv.keep rfl held

theorem Bounded.repay (inv : Bounded cfg s) {res : Int} {flags : BitVec 32} {received : List UInt8}
    {pool : RingBuffer} (completed : s.phase c = .completed res flags)
    (buffered : hasBuffer flags = true) (repaid : s.pool.repay cfg (bidOf flags) = some pool) :
    Bounded cfg { s.setPhase c .idle with
      pool, receiveBuffer := Function.update s.receiveBuffer c received } := by
  have has := held_buffered completed buffered
  obtain ⟨available, count⟩ := RingBuffer.repay_available repaid
  rw [bidOf_mod] at available
  have forgotten := inv.forget c .idle rfl
  refine ⟨?_, fun d id hd => ?_, fun id mem => ?_⟩
  · show Pool.Sound pool.available (s.setPhase c .idle).held
    rw [available, held_setPhase]
    exact inv.sound.giveBack has
  · show id < cfg.nBuffers * pool.bufCount
    rw [count]
    exact forgotten.held_lt d id hd
  · show id < cfg.nBuffers * pool.bufCount
    rw [count]
    rw [available] at mem
    rcases List.mem_append.mp mem with mem | mem
    · exact inv.available_lt id mem
    · obtain rfl := List.mem_singleton.mp mem
      exact inv.held_lt c _ has

/-- After an extension, with the buffers that calls still have. -/
theorem Bounded.extend (inv : Bounded cfg s) {setup : Int} (p : RecvPhase) (free : p.buffer = none)
    (sound : Pool.Sound (s.pool.extendBuffer cfg setup).1.available
      (Function.update s.held c none))
    (le : ∀ id ∈ (s.pool.extendBuffer cfg setup).1.available, id < s.pool.nextSize cfg) :
    Bounded cfg { s.setPhase c p with pool := (s.pool.extendBuffer cfg setup).1 } := by
  have forgotten := inv.forget c p free
  have size : cfg.nBuffers * (s.pool.extendBuffer cfg setup).1.bufCount = s.pool.nextSize cfg := by
    rw [RingBuffer.extendBuffer_bufCount, RingBuffer.nextSize]
  refine ⟨?_, fun d id hd => ?_, fun id mem => ?_⟩
  · show Pool.Sound _ (s.setPhase c p).held
    rw [held_setPhase, free]
    exact sound
  · show id < cfg.nBuffers * (s.pool.extendBuffer cfg setup).1.bufCount
    rw [RingBuffer.extendBuffer_bufCount, Nat.mul_succ]
    exact Nat.lt_add_right _ (forgotten.held_lt d id hd)
  · show id < cfg.nBuffers * (s.pool.extendBuffer cfg setup).1.bufCount
    rw [size]
    exact le id mem

/-- **What a step keeps.** -/
theorem bounded_step (inv : Bounded cfg s) (repays : Repays s e) (alone : Alone cfg s e)
    (h : s.step cfg e = some s') : Bounded cfg s' := by
  cases does_of_step h with
  | call idle => exact inv.keep rfl (held_setPhase_keep idle .submitted rfl)
  | post submitted posted => exact inv.post submitted posted
  | @handle c res flags posted =>
    exact inv.keep rfl (held_setPhase_keep posted (.completed res flags) rfl)
  | @throw c => exact inv.forget c .idle rfl
  | @sleep c => exact inv.forget c .sleeping rfl
  | extendThrow completed auto failed =>
    have available : (s.pool.extendBuffer cfg _).1.available = [] :=
      RingBuffer.extendBuffer_failed failed
    apply inv.extend .idle rfl
    · rw [available]
      exact inv.sound.forget.empty
    · rw [available]
      simp
  | @extend c setup flags completed auto succeeded accepted =>
    have available := RingBuffer.extendBuffer_succeeded succeeded accepted
    have others := alone (extends_completed completed auto) succeeded
    have none : ∀ d, Function.update s.held c none d = none := by
      intro d
      by_cases same : d = c
      · rw [same, Function.update_self]
      · rw [Function.update_of_ne same, others d same]
    apply inv.extend .submitted rfl
    · rw [available]
      exact .full List.nodup_range none
    · rw [available]
      exact fun id mem => List.mem_range.mp mem
  | repay completed data copied repaid =>
    exact inv.repay completed (repays_completed completed repays data) repaid
  | wake sleeping => exact inv.keep rfl (held_setPhase_keep sleeping .submitted rfl)

end Receive

namespace SharedReceive

open Receive SharedBuffer

variable {κ : Type} {cfg : Config} {s s' s₀ : SharedReceive κ} {e : RecvEvent κ} {c : κ}

/-! ## One step -/

theorem construct_refines {setup : Int} {rb : SharedBuffer}
    (h : SharedBuffer.construct cfg setup = some rb) :
    RingBuffer.construct cfg setup = some rb.toRingBuffer ∧ Registered cfg rb := by
  unfold SharedBuffer.construct at h
  split at h
  · rename_i accepted
    split at h
    · rename_i pool extended
      cases h
      obtain ⟨extended', registered⟩ := extendBuffer_refines accepted extended
      have accepted' : RingBuffer.SetupWhole cfg {} setup := accepted
      have same : RingBuffer.extendBuffer cfg {} setup = (rb.toRingBuffer, none) := extended'
      rw [RingBuffer.construct, if_pos accepted', same]
      exact ⟨rfl, registered⟩
    · cases h
  · cases h

theorem start_refines {setup : Int} (h : start cfg setup = some s₀) :
    Receive.start cfg setup = some s₀.toReceive ∧ Registered cfg s₀.pool := by
  obtain ⟨pool, constructed, rfl⟩ := Option.map_eq_some_iff.mp h
  obtain ⟨constructed', registered⟩ := construct_refines constructed
  rw [Receive.start, constructed']
  exact ⟨rfl, registered⟩

theorem kernelPost_refines {pool pool' : SharedBuffer} {res : Int} {flags : BitVec 32}
    {data : List UInt8} (registered : Registered cfg pool)
    (h : kernelPost pool res flags data = some pool') :
    Receive.kernelPost pool.toRingBuffer res flags data = some pool'.toRingBuffer ∧
      Registered cfg pool' := by
  unfold kernelPost at h
  unfold Receive.kernelPost
  split at h
  · cases h
  · rename_i possible
    rw [if_neg possible]
    split at h
    · cases h
    · split at h
      · rename_i buffered
        rw [if_pos buffered]
        exact kernelTake_refines registered h
      · rename_i plain
        rw [if_neg plain]
        split at h
        · rename_i without
          cases h
          exact ⟨if_pos without, registered⟩
        · cases h

variable [DecidableEq κ]

theorem resumeReceive_refines {res setup : Int} {flags : BitVec 32} (registered : Registered cfg s.pool)
    (room : 0 ≤ res → s.pool.toRingBuffer.available.length < cfg.nBuffers * s.pool.bufCount)
    (h : s.resumeReceive cfg c res flags setup = some s') :
    s.toReceive.resumeReceive cfg c res flags setup = some s'.toReceive ∧ Registered cfg s'.pool := by
  unfold resumeReceive at h
  unfold Receive.resumeReceive
  split at h
  · rename_i error
    cases h
    rw [if_pos error]
    exact ⟨rfl, registered⟩
  · rename_i noError
    rw [if_neg noError]
    split at h
    · rename_i nobufs
      rw [if_pos nobufs]
      split at h
      · rename_i auto
        rw [if_pos auto]
        split at h
        · rename_i accepted
          have same : RingBuffer.SetupWhole cfg s.toReceive.pool setup := accepted
          rw [if_pos same]
          split at h
          · cases h
          · rename_i pool exn extended
            cases h
            obtain ⟨extended', registered'⟩ := extendBuffer_refines accepted extended
            have there : s.toReceive.pool.extendBuffer cfg setup = _ := extended'
            rw [there]
            exact ⟨rfl, registered'⟩
          · rename_i pool extended
            cases h
            obtain ⟨extended', registered'⟩ := extendBuffer_refines accepted extended
            have there : s.toReceive.pool.extendBuffer cfg setup = _ := extended'
            rw [there]
            exact ⟨rfl, registered'⟩
        · cases h
      · rename_i auto
        cases h
        rw [if_neg auto]
        exact ⟨rfl, registered⟩
    · rename_i nobufs
      rw [if_neg nobufs]
      simp only [Option.bind_eq_bind, Option.bind_eq_some_iff] at h ⊢
      obtain ⟨received, copied, pool, repaid, eq⟩ := h
      cases eq
      obtain ⟨repaid', registered'⟩ := repay_refines registered (room (by omega)) repaid
      exact ⟨⟨received, copied, _, repaid', rfl⟩, registered'⟩

/-- **A step over the ring is a step over the list of its entries.** -/
theorem step_refines (registered : Registered cfg s.pool) (room : Room cfg s.toReceive e)
    (h : s.step cfg e = some s') :
    s.toReceive.step cfg e = some s'.toReceive ∧ Registered cfg s'.pool := by
  cases e with
  | call c =>
    simp only [step] at h
    split at h
    · rename_i idle
      cases h
      have there : s.toReceive.phase c = .idle := idle
      simp only [Receive.step, there]
      exact ⟨rfl, registered⟩
    · cases h
  | post c res flags data =>
    simp only [step] at h
    split at h
    · rename_i submitted
      obtain ⟨pool, posted, rfl⟩ := Option.map_eq_some_iff.mp h
      obtain ⟨posted', registered'⟩ := kernelPost_refines registered posted
      have there : s.toReceive.phase c = .submitted := submitted
      have posted_there : Receive.kernelPost s.toReceive.pool res flags data = _ := posted'
      simp only [Receive.step, there, posted_there]
      exact ⟨rfl, registered'⟩
    · cases h
  | handle c =>
    simp only [step] at h
    split at h
    · rename_i res flags posted
      obtain ⟨⟨ring, effects⟩, handled, rfl⟩ := Option.map_eq_some_iff.mp h
      have there : s.toReceive.phase c = .posted res flags := posted
      simp only [Receive.step, there, handled]
      exact ⟨rfl, registered⟩
    · cases h
  | resume c setup =>
    simp only [step] at h
    split at h
    · rename_i res flags completed
      have there : s.toReceive.phase c = .completed res flags := completed
      simp only [Receive.step, there]
      exact resumeReceive_refines registered (room res flags completed) h
    · cases h
  | wake c =>
    simp only [step] at h
    split at h
    · rename_i sleeping
      cases h
      have there : s.toReceive.phase c = .sleeping := sleeping
      simp only [Receive.step, there]
      exact ⟨rfl, registered⟩
    · cases h

/-! ## Runs -/

omit [DecidableEq κ] in
/-- The ring has no more entries than places. -/
def NoOverflow (s : SharedReceive κ) : Prop :=
  ∀ br, s.pool.br = some br → br.bufs.count ≤ br.nentries

/-- **The ring is the list of its entries**, in order, and an entry is never written over another one, in
the runs that repay only buffers that were taken and extend the pool only while no other receive has one. -/
theorem refines {setup : Int} {es : List (RecvEvent κ)} (constructed : start cfg setup = some s₀)
    (repays : Meets (step cfg) (fun s => Repays s.toReceive) s₀ es)
    (alone : Meets (step cfg) (fun s => Alone cfg s.toReceive) s₀ es)
    (run : exec (step cfg) s₀ es = some s) :
    Receive.start cfg setup = some s₀.toReceive ∧
      exec (Receive.step cfg) s₀.toReceive es = some s.toReceive ∧ NoOverflow s := by
  obtain ⟨constructed', registered⟩ := start_refines constructed
  have sim : ∀ (s : SharedReceive κ) e s', Registered cfg s.pool ∧ Bounded cfg s.toReceive →
      Repays s.toReceive e ∧ Alone cfg s.toReceive e → s.step cfg e = some s' →
      s.toReceive.step cfg e = some s'.toReceive ∧
        Registered cfg s'.pool ∧ Bounded cfg s'.toReceive := by
    intro s e s' inv guard h
    obtain ⟨step', registered'⟩ := step_refines inv.1 (inv.2.room guard.1) h
    exact ⟨step', registered', bounded_step inv.2 guard.1 guard.2 step'⟩
  obtain ⟨run', registered', -⟩ :=
    exec_refines sim ⟨registered, bounded_start constructed'⟩ (repays.and alone) run
  exact ⟨constructed', run', fun br found => (registered' br found).room⟩

/-- A thread with a pool of one buffer of one byte. -/
def oneShared : SharedReceive κ :=
  ⟨{ bufCount := 1, br := some ⟨1, ⟨Function.update (fun _ => ⟨0, 0, 0⟩) 0 ⟨0, 1, 0⟩, 0, 1⟩⟩,
     buffer := [0] }, fun _ => .idle, fun _ => []⟩

omit [DecidableEq κ] in
theorem start_oneShared : start oneByte 0 = some (oneShared : SharedReceive κ) := rfl

/-- Two receives on one buffer: the second one extends the pool, and takes the first buffer again. -/
def extended : List (RecvEvent Bool) :=
  twoReceives ++ [.resume false 0, .resume true 0, .post true 1 ioringCqeFBuffer [66], .handle true,
    .resume true 0]

theorem refines_extended :
    ∃ s : SharedReceive Bool, exec (step oneByte) oneShared extended = some s ∧
      s.pool.toRingBuffer.available = [1, 0] ∧
      Receive.start oneByte 0 = some (oneShared : SharedReceive Bool).toReceive ∧
      exec (Receive.step oneByte) (oneShared : SharedReceive Bool).toReceive extended =
        some s.toReceive ∧ NoOverflow s :=
  ⟨_, rfl, by decide, refines start_oneShared (by decide) (by decide) rfl⟩

/-! ## As many buffers as connections -/

end SharedReceive

/-- The kernel found no buffer for the call. -/
def RecvPhase.Refused : RecvPhase → Prop
  | .posted res _ | .completed res _ => res = -ENOBUFS
  | .sleeping => True
  | _ => False

namespace Receive

variable {κ : Type} {cfg : Config} {s s' : Receive κ} {e : RecvEvent κ}

theorem not_extends (found : ∀ c, ¬ (s.phase c).Refused) : ¬ Extends cfg s e := by
  cases e with
  | resume c setup =>
    rintro ⟨-, nobufs⟩
    have here := found c
    unfold result at nobufs
    split at nobufs
    · rename_i res flags completed
      rw [completed] at here
      exact here (Option.some.inj nobufs)
    · cases nobufs
  | _ => exact id

variable [DecidableEq κ]

theorem found_setPhase (found : ∀ c, ¬ (s.phase c).Refused) (c : κ) {p : RecvPhase}
    (here : ¬ p.Refused) : ∀ d, ¬ ((s.setPhase c p).phase d).Refused := by
  intro d
  show ¬ (Function.update s.phase c p d).Refused
  by_cases same : d = c
  · rw [same, Function.update_self]
    exact here
  · rw [Function.update_of_ne same]
    exact found d

/-- Where the kernel finds its buffers, no task sleeps or extends the pool. -/
theorem found_step (found : ∀ c, ¬ (s.phase c).Refused)
    (buffers : ∀ c res flags data, e = .post c res flags data → res ≠ -ENOBUFS)
    (h : s.step cfg e = some s') :
    (∀ c, ¬ (s'.phase c).Refused) ∧ s'.pool.bufCount = s.pool.bufCount := by
  cases does_of_step h with
  | @call c => exact ⟨found_setPhase found c id, rfl⟩
  | @post c res flags data pool submitted posted =>
    refine ⟨found_setPhase found c (buffers c res flags data rfl), ?_⟩
    rcases kernelPost_cases posted with ⟨-, -, -, count⟩ | ⟨-, rfl⟩
    · exact count
    · rfl
  | @handle c res flags posted =>
    have here := found c
    rw [posted] at here
    exact ⟨found_setPhase found c here, rfl⟩
  | @throw c => exact ⟨found_setPhase found c id, rfl⟩
  | @sleep c setup flags completed =>
    have here := found c
    rw [completed] at here
    exact absurd rfl here
  | @extendThrow c setup flags completed auto =>
    have extension : Extends cfg s (.resume c setup) := extends_completed completed auto
    exact absurd extension (not_extends found)
  | @extend c setup flags completed auto =>
    have extension : Extends cfg s (.resume c setup) := extends_completed completed auto
    exact absurd extension (not_extends found)
  | @repay c res setup flags received pool completed data copied repaid =>
    exact ⟨found_setPhase found c id, (RingBuffer.repay_available repaid).2⟩
  | @wake c sleeping =>
    have here := found c
    rw [sleeping] at here
    exact absurd trivial here

instance (s : Receive κ) : (e : RecvEvent κ) → Decidable (Carries s e)
  | .resume c _ =>
    match found : s.result c with
    | none => isTrue (by simp only [Carries, found])
    | some r => decidable_of_iff (0 ≤ r.1 ↔ hasBuffer r.2 = true) (by simp only [Carries, found])
  | .call _ | .post _ _ _ _ | .handle _ | .wake _ => isTrue trivial

omit [DecidableEq κ] in
theorem repays_of_carries (carries : Carries s e) : Repays s e := by
  cases e with
  | resume c setup =>
    rintro ⟨res, flags⟩ found data
    have here : s.result c = some (res, flags) := found
    simp only [Carries, here] at carries
    exact carries.mp data
  | _ => trivial

end Receive

namespace SharedReceive

open Receive SharedBuffer

variable {κ : Type} {cfg : Config} {s s' s₀ : SharedReceive κ} {e : RecvEvent κ} {c : κ}

/-- Every receive found a buffer, and the pool is the first one. -/
structure Supplied (s : SharedReceive κ) : Prop where
  found : ∀ c, ¬ (s.phase c).Refused
  first : s.pool.bufCount = 1

structure SuppliedInv (cfg : Config) (s : SharedReceive κ) : Prop extends Supplied s where
  registered : Registered cfg s.pool
  whole : Whole cfg s.toReceive

theorem suppliedInv_start {setup : Int} (h : start cfg setup = some s₀) : SuppliedInv cfg s₀ := by
  obtain ⟨constructed, registered⟩ := start_refines h
  obtain ⟨-, count, idle⟩ := start_eq constructed
  refine ⟨⟨fun c => ?_, count⟩, registered, whole_start constructed⟩
  have here : s₀.phase c = .idle := idle c
  rw [here]
  exact id

theorem SuppliedInv.bounded (inv : SuppliedInv cfg s) : Bounded cfg s.toReceive := by
  have size : cfg.nBuffers * s.toReceive.pool.bufCount = cfg.nBuffers := by
    show cfg.nBuffers * s.pool.bufCount = _
    rw [inv.first, Nat.mul_one]
  refine ⟨inv.whole.toSound, fun c id held => ?_, fun id mem => ?_⟩
  · rw [size]
    exact (inv.whole.all id).mpr (.inr ⟨c, held⟩)
  · rw [size]
    exact (inv.whole.all id).mpr (.inl mem)

variable [DecidableEq κ]

/-- **The kernel finds a buffer.** -/
theorem SuppliedInv.buffers [Fintype κ] (inv : SuppliedInv cfg s)
    (enough : Fintype.card κ ≤ cfg.nBuffers) {res : Int} {flags : BitVec 32} {data : List UInt8}
    (h : s.step cfg (.post c res flags data) = some s') : res ≠ -ENOBUFS := by
  simp only [step] at h
  split at h
  · rename_i submitted
    obtain ⟨pool, posted, -⟩ := Option.map_eq_some_iff.mp h
    have there : s.toReceive.phase c = .submitted := submitted
    have none : s.toReceive.held c = none := held_of_phase there
    have some_buffer := inv.whole.free_ne_nil enough none
    rintro rfl
    unfold kernelPost at posted
    have refused : ¬ s.pool.noBuffer := fun empty => some_buffer (noBuffer_iff.mp empty)
    split at posted
    · cases posted
    · rw [if_pos ⟨rfl, refused⟩] at posted
      cases posted
  · cases h

theorem suppliedInv_step [Fintype κ] (enough : Fintype.card κ ≤ cfg.nBuffers)
    (inv : SuppliedInv cfg s) (carries : Carries s.toReceive e) (h : s.step cfg e = some s') :
    SuppliedInv cfg s' := by
  have room := inv.bounded.room (repays_of_carries carries)
  obtain ⟨step', registered⟩ := step_refines inv.registered room h
  have buffers : ∀ c res flags data, e = .post c res flags data → res ≠ -ENOBUFS := by
    rintro c res flags data rfl
    exact inv.buffers enough h
  obtain ⟨found, count⟩ := found_step inv.found buffers step'
  have whole := whole_step inv.whole (not_extends inv.found) carries step'
  exact ⟨⟨found, count.trans inv.first⟩, registered, whole⟩

/-- **With as many buffers as connections, the kernel finds one for each receive.** -/
theorem supplied_always [Fintype κ] {setup : Int} {es : List (RecvEvent κ)}
    (enough : Fintype.card κ ≤ cfg.nBuffers) (constructed : start cfg setup = some s₀)
    (carries : Meets (step cfg) (fun s => Carries s.toReceive) s₀ es) :
    Always (step cfg) Supplied s₀ es :=
  always_of_meets (fun _ _ _ => suppliedInv_step enough) (fun _ inv => inv.toSupplied)
    (suppliedInv_start constructed) carries

/-- A thread with a pool of two buffers of one byte. -/
def bothShared : SharedReceive κ :=
  ⟨{ bufCount := 1
     br := some ⟨2, ⟨Function.update (Function.update (fun _ => ⟨0, 0, 0⟩) 0 ⟨0, 1, 0⟩) 1 ⟨1, 1, 1⟩, 0, 2⟩⟩
     brMask := 1
     buffer := [0, 0] }, fun _ => .idle, fun _ => []⟩

omit [DecidableEq κ] in
theorem start_bothShared : start twoBytes 0 = some (bothShared : SharedReceive κ) := rfl

theorem supplied_always_readBoth :
    (exec (step twoBytes) bothShared readBoth).isSome ∧
      Always (step twoBytes) Supplied bothShared readBoth :=
  ⟨by decide, supplied_always (by decide) start_bothShared (by decide)⟩

end SharedReceive

end CoNet.Net
