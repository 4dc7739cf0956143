import CoNet.Laws.Net.Receive

/-!
# Extensions of the pool

`extend_buffer` frees the ring, sets a larger one up and offers all its ids, the old ones among
them. A buffer that a receive has at that moment, because its completion was posted or handled and
its task has not repaid it, is offered again. `apart_iff_alone`: where every completion other than
`-ENOBUFS` carries a buffer, no id is in the ring while a receive has it, nor in the ring twice,
exactly in the runs whose extensions each find no other receive with a buffer.
-/

set_option autoImplicit false

namespace CoNet.Net

open CoNet.Io

/-- The result and flags of a completion with data, or of one that found no buffer. -/
def DataOrNobufs (res : Int) (flags : BitVec 32) : Prop :=
  (res = -ENOBUFS ∧ hasBuffer flags = false) ∨ (0 ≤ res ∧ hasBuffer flags = true)

instance (res : Int) (flags : BitVec 32) : Decidable (DataOrNobufs res flags) := by
  unfold DataOrNobufs
  exact inferInstance

theorem DataOrNobufs.nobufs {flags : BitVec 32} (h : DataOrNobufs (-ENOBUFS) flags) :
    ¬ hasBuffer flags = true := by
  rcases h with ⟨-, h⟩ | ⟨h, -⟩
  · simp [h]
  · exact absurd h (by decide)

theorem DataOrNobufs.data {res : Int} {flags : BitVec 32} (h : DataOrNobufs res flags)
    (hres : 0 ≤ res) : hasBuffer flags = true := by
  rcases h with ⟨h, -⟩ | ⟨-, h⟩
  · subst h
    exact absurd hres (by decide)
  · exact h

/-- A call whose completion, if it has one, is with data or found no buffer. -/
def RecvPhase.DataOrNobufs : RecvPhase → Prop
  | .posted res flags | .completed res flags => CoNet.Net.DataOrNobufs res flags
  | _ => True

namespace Receive

open Transition

variable {κ : Type} {cfg : Config} {s s' s₀ : Receive κ} {e : RecvEvent κ} {c : κ}

/-- Every completion is with data or found no buffer. -/
def PostsData (_ : Receive κ) : RecvEvent κ → Prop
  | .post _ res flags _ => DataOrNobufs res flags
  | _ => True

instance (s : Receive κ) : (e : RecvEvent κ) → Decidable (PostsData s e)
  | .post _ res flags _ => inferInstanceAs (Decidable (DataOrNobufs res flags))
  | .call _ | .handle _ | .resume _ _ | .wake _ => isTrue trivial

/-- No id is in the ring while a receive has it, nor in the ring twice. -/
structure Apart (s : Receive κ) : Prop where
  once : s.pool.available.Nodup
  apart : ∀ c id, s.held c = some id → id ∉ s.pool.available

/-- A step whose extension succeeds finds no other receive with a buffer. -/
def Alone (cfg : Config) (s : Receive κ) : RecvEvent κ → Prop
  | .resume c setup => Extends cfg s (.resume c setup) → 0 ≤ setup → ∀ d, d ≠ c → s.held d = none
  | _ => True

/-- What the steps keep: the ids are those of the present ring or of a smaller one before it. -/
structure Inv (cfg : Config) (s : Receive κ) : Prop where
  sound : Pool.Sound s.pool.available s.held
  held_lt : ∀ c id, s.held c = some id → id < cfg.nBuffers * s.pool.bufCount
  available_lt : ∀ id ∈ s.pool.available, id < cfg.nBuffers * s.pool.bufCount
  data : ∀ c, (s.phase c).DataOrNobufs

theorem Inv.completed (inv : Inv cfg s) {res : Int} {flags : BitVec 32}
    (h : s.phase c = .completed res flags) : DataOrNobufs res flags := by
  have := inv.data c
  rwa [h] at this

theorem inv_start {setup : Int} (h : start cfg setup = some s₀) : Inv cfg s₀ := by
  obtain ⟨havail, hcount, hidle⟩ := start_eq h
  have hnone : ∀ c, s₀.held c = none := fun c => held_of_phase (hidle c)
  refine ⟨?_, fun c id hc => ?_, fun id hid => ?_, fun c => ?_⟩
  · rw [havail]
    exact .full List.nodup_range hnone
  · rw [hnone] at hc
    cases hc
  · rw [hcount, Nat.mul_one]
    rw [havail] at hid
    exact List.mem_range.mp hid
  · rw [hidle c]
    trivial

/-- An extension leaves the ids that receives have smaller than the new size. -/
theorem Inv.held_lt_extended (inv : Inv cfg s) {setup : Int} {d : κ} {id : Nat}
    (h : s.held d = some id) :
    id < cfg.nBuffers * (s.pool.extendBuffer cfg setup).1.bufCount := by
  rw [RingBuffer.extendBuffer_bufCount, Nat.mul_succ]
  exact Nat.lt_add_right _ (inv.held_lt d id h)

section Run

variable [DecidableEq κ]

theorem data_setPhase (data : ∀ c, (s.phase c).DataOrNobufs) {p : RecvPhase}
    (hp : p.DataOrNobufs) : ∀ d, ((s.setPhase c p).phase d).DataOrNobufs := by
  intro d
  show (Function.update s.phase c p d).DataOrNobufs
  by_cases h : d = c
  · rw [h, Function.update_self]
    exact hp
  · rw [Function.update_of_ne h]
    exact data d

/-- A change of phase that keeps the call's buffer. -/
theorem Inv.setPhase (inv : Inv cfg s) {p : RecvPhase} (hp : p.DataOrNobufs)
    (hb : s.held c = p.buffer) : Inv cfg (s.setPhase c p) := by
  have hheld := held_setPhase_eq p hb
  refine ⟨?_, ?_, inv.available_lt, data_setPhase inv.data hp⟩
  · rw [hheld]
    exact inv.sound
  · rw [hheld]
    exact inv.held_lt

theorem Inv.post (inv : Inv cfg s) {res : Int} {flags : BitVec 32} {data : List UInt8}
    {pool : RingBuffer} (posts : DataOrNobufs res flags) (submitted : s.phase c = .submitted)
    (posted : kernelPost s.pool res flags data = some pool) :
    Inv cfg { s.setPhase c (.posted res flags) with pool } := by
  have hnone : s.held c = none := held_of_phase submitted
  have hdata := data_setPhase (c := c) inv.data (p := .posted res flags) posts
  rcases kernelPost_cases posted with ⟨buffered, hid, havail, hcount⟩ | ⟨plain, rfl⟩
  · have hheld : (s.setPhase c (.posted res flags)).held =
        Function.update s.held c (some (bufferId flags)) := by
      rw [held_setPhase, RecvPhase.buffer, if_pos buffered]
    refine ⟨?_, fun d id hd => ?_, fun id hmem => ?_, hdata⟩
    · show Pool.Sound pool.available (s.setPhase c (.posted res flags)).held
      rw [havail, hheld]
      exact inv.sound.take hid
    · replace hd : (s.setPhase c (.posted res flags)).held d = some id := hd
      show id < cfg.nBuffers * pool.bufCount
      rw [hcount]
      rw [hheld] at hd
      rcases Pool.update_eq_some.mp hd with ⟨-, hv⟩ | ⟨-, hv⟩
      · obtain rfl := Option.some.inj hv
        exact inv.available_lt _ hid
      · exact inv.held_lt d id hv
    · show id < cfg.nBuffers * pool.bufCount
      rw [hcount]
      rw [havail] at hmem
      exact inv.available_lt id (List.mem_of_mem_erase hmem)
  · have hb : s.held c = (RecvPhase.posted res flags).buffer := by
      rw [hnone, RecvPhase.buffer, if_neg (by simp [plain])]
    exact inv.setPhase posts hb

/-- Repaying the buffer a call has. -/
theorem Inv.repay (inv : Inv cfg s) {res : Int} {flags : BitVec 32} {received : List UInt8}
    {pool : RingBuffer} (completed : s.phase c = .completed res flags) (data : 0 ≤ res)
    (repaid : s.pool.repay cfg (bidOf flags) = some pool) :
    Inv cfg { s.setPhase c .idle with
      pool, receiveBuffer := Function.update s.receiveBuffer c received } := by
  have hc := held_buffered completed ((inv.completed completed).data data)
  obtain ⟨havail, hcount⟩ := RingBuffer.repay_available repaid
  rw [bidOf_mod] at havail
  have hheld : (s.setPhase c .idle).held = Function.update s.held c none := held_setPhase .idle
  refine ⟨?_, fun d id hd => ?_, fun id hmem => ?_, data_setPhase inv.data trivial⟩
  · show Pool.Sound pool.available (s.setPhase c .idle).held
    rw [havail, hheld]
    exact inv.sound.giveBack hc
  · replace hd : (s.setPhase c .idle).held d = some id := hd
    show id < cfg.nBuffers * pool.bufCount
    rw [hcount]
    rw [hheld] at hd
    rcases Pool.update_eq_some.mp hd with ⟨-, hv⟩ | ⟨-, hv⟩
    · cases hv
    · exact inv.held_lt d id hv
  · show id < cfg.nBuffers * pool.bufCount
    rw [hcount]
    rw [havail] at hmem
    rcases List.mem_append.mp hmem with hmem | hmem
    · exact inv.available_lt id hmem
    · obtain rfl := List.mem_singleton.mp hmem
      exact inv.held_lt c _ hc

theorem Inv.extendThrow (inv : Inv cfg s) {setup : Int} {flags : BitVec 32}
    (completed : s.phase c = .completed (-ENOBUFS) flags) (failed : setup < 0) :
    Inv cfg { s.setPhase c .idle with pool := (s.pool.extendBuffer cfg setup).1 } := by
  have hplain := held_plain completed (inv.completed completed).nobufs
  have hheld : (s.setPhase c .idle).held = s.held := held_setPhase_eq .idle hplain
  have havail : (s.pool.extendBuffer cfg setup).1.available = [] :=
    RingBuffer.extendBuffer_failed failed
  refine ⟨?_, fun d id hd => ?_, fun id hmem => ?_, data_setPhase inv.data trivial⟩
  · show Pool.Sound (s.pool.extendBuffer cfg setup).1.available (s.setPhase c .idle).held
    rw [havail, hheld]
    exact inv.sound.empty
  · replace hd : (s.setPhase c .idle).held d = some id := hd
    rw [hheld] at hd
    exact inv.held_lt_extended hd
  · replace hmem : id ∈ (s.pool.extendBuffer cfg setup).1.available := hmem
    rw [havail] at hmem
    cases hmem

theorem Inv.extend (inv : Inv cfg s) {setup : Int} {flags : BitVec 32}
    (completed : s.phase c = .completed (-ENOBUFS) flags) (succeeded : 0 ≤ setup)
    (accepted : RingBuffer.SetupWhole cfg s.pool setup)
    (alone : ∀ d, d ≠ c → s.held d = none) :
    Inv cfg { s.setPhase c .submitted with pool := (s.pool.extendBuffer cfg setup).1 } := by
  have hplain := held_plain completed (inv.completed completed).nobufs
  have hheld : (s.setPhase c .submitted).held = s.held := held_setPhase_eq .submitted hplain
  have hnone : ∀ d, s.held d = none := by
    intro d
    by_cases h : d = c
    · rw [h]
      exact hplain
    · exact alone d h
  have havail := RingBuffer.extendBuffer_succeeded succeeded accepted
  refine ⟨?_, fun d id hd => ?_, fun id hmem => ?_, data_setPhase inv.data trivial⟩
  · show Pool.Sound (s.pool.extendBuffer cfg setup).1.available (s.setPhase c .submitted).held
    rw [havail, hheld]
    exact .full List.nodup_range hnone
  · replace hd : (s.setPhase c .submitted).held d = some id := hd
    rw [hheld] at hd
    exact inv.held_lt_extended hd
  · replace hmem : id ∈ (s.pool.extendBuffer cfg setup).1.available := hmem
    show id < cfg.nBuffers * (s.pool.extendBuffer cfg setup).1.bufCount
    rw [havail] at hmem
    rw [RingBuffer.extendBuffer_bufCount]
    exact List.mem_range.mp hmem

/-- **What a step keeps**, if the extension it runs finds no other receive with a buffer. -/
theorem inv_step (inv : Inv cfg s) (posts : PostsData s e) (alone : Alone cfg s e)
    (h : s.step cfg e = some s') : Inv cfg s' := by
  cases does_of_step h with
  | @call c idle =>
    have hb : s.held c = none := held_of_phase idle
    exact inv.setPhase trivial hb
  | post submitted posted => exact inv.post posts submitted posted
  | @handle c res flags posted =>
    have hdata : (RecvPhase.posted res flags).DataOrNobufs := posted ▸ inv.data c
    have hb : s.held c = (RecvPhase.posted res flags).buffer := held_of_phase posted
    exact inv.setPhase hdata hb
  | throw completed error =>
    rcases inv.completed completed with ⟨h, -⟩ | ⟨h, -⟩
    · exact absurd h error.2
    · exact absurd h (Int.not_le.mpr error.1)
  | sleep completed auto =>
    exact inv.setPhase trivial (held_plain completed (inv.completed completed).nobufs)
  | extendThrow completed auto failed => exact inv.extendThrow completed failed
  | extend completed auto succeeded accepted =>
    have others := alone (extends_completed completed auto) succeeded
    exact inv.extend completed succeeded accepted others
  | repay completed data copied repaid => exact inv.repay completed data repaid
  | @wake c sleeping =>
    have hb : s.held c = none := held_of_phase sleeping
    exact inv.setPhase trivial hb

/-- **An extension that finds another receive with a buffer offers that buffer again.** -/
theorem not_apart_step (inv : Inv cfg s) (alone : ¬ Alone cfg s e)
    (h : s.step cfg e = some s') : ¬ Apart s' := by
  intro apart
  cases does_of_step h with
  | call idle => exact alone trivial
  | post submitted posted => exact alone trivial
  | handle posted => exact alone trivial
  | throw completed error =>
    refine alone fun ext => absurd ext.2 ?_
    simpa [result, completed] using error.2
  | sleep completed auto => exact alone fun ext => absurd ext.1 (by simp [auto])
  | extendThrow completed auto failed =>
    exact alone fun _ succeeded => absurd succeeded (Int.not_le.mpr failed)
  | @extend c setup flags completed auto succeeded accepted =>
    refine alone fun _ _ d hne => ?_
    by_contra hsome
    obtain ⟨id, hid⟩ := Option.ne_none_iff_exists'.mp hsome
    have hafter : (s.setPhase c .submitted).held d = some id := by
      rw [held_setPhase, Function.update_of_ne hne, hid]
    apply apart.apart d id hafter
    show id ∈ (s.pool.extendBuffer cfg setup).1.available
    rw [RingBuffer.extendBuffer_succeeded succeeded accepted, List.mem_range,
      RingBuffer.nextSize, Nat.mul_succ]
    exact Nat.lt_add_right _ (inv.held_lt d id hid)
  | @repay c res setup flags received pool completed data copied repaid =>
    refine alone fun ext => absurd ext.2 ?_
    have hne : ¬ res = -ENOBUFS := by
      rintro rfl
      exact absurd data (by decide)
    simpa [result, completed] using hne
  | wake sleeping => exact alone trivial

/-- **No id is in two places exactly in the runs whose extensions each find no other receive with a
buffer** (runs in which every completion is with data or found no buffer). -/
theorem apart_iff_alone {setup : Int} {es : List (RecvEvent κ)}
    (constructed : start cfg setup = some s₀) (posts : Meets (step cfg) PostsData s₀ es) :
    Always (step cfg) Apart s₀ es ↔ Meets (step cfg) (Alone cfg) s₀ es :=
  always_iff_meets_of (fun _ _ _ => inv_step)
    (fun _ inv => ⟨inv.sound.nodup, inv.sound.apart⟩)
    (fun _ _ _ inv _ alone h => not_apart_step inv alone h) (inv_start constructed) posts

/-- A pool of one buffer of one byte. -/
def oneByte : Config := { bufferRingSize := 1, nBuffers := 1 }

/-- A thread with that pool. -/
def oneBuffer : Receive κ :=
  ⟨{ bufCount := 1, br := some [⟨0, 1, 0⟩], buffer := [0] }, fun _ => .idle, fun _ => []⟩

omit [DecidableEq κ] in
theorem start_oneByte : start oneByte 0 = some (oneBuffer : Receive κ) := rfl

/-- Two receives on a pool of one buffer: the first takes it, the second finds none. -/
def twoReceives : List (RecvEvent Bool) :=
  [.call false, .call true, .post false 1 ioringCqeFBuffer [65], .post true (-ENOBUFS) 0 [],
    .handle false, .handle true]

/-- The first task repays its buffer before the second one extends the pool. -/
theorem apart_iff_alone_repaid :
    ∃ s, exec (step oneByte) oneBuffer (twoReceives ++ [.resume false 0, .resume true 0]) = some s ∧
      s.pool.available = [0, 1] ∧
      (Always (step oneByte) Apart oneBuffer (twoReceives ++ [.resume false 0, .resume true 0]) ↔
        Meets (step oneByte) (Alone oneByte) oneBuffer
          (twoReceives ++ [.resume false 0, .resume true 0])) :=
  ⟨_, rfl, by decide, apart_iff_alone start_oneByte (by decide)⟩

/-- The second task extends the pool while the first has its buffer, whose id 0 is then in the ring,
and twice after the repay. -/
theorem not_apart_held :
    ∃ s s', exec (step oneByte) oneBuffer (twoReceives ++ [.resume true 0]) = some s ∧
      s.phase false = .completed 1 ioringCqeFBuffer ∧ s.pool.available = [0, 1] ∧ ¬ Apart s ∧
      s.step oneByte (.resume false 0) = some s' ∧ s'.pool.available = [0, 1, 0] :=
  ⟨_, _, rfl, by decide, by decide, fun h => h.apart false 0 (by decide) (by decide), rfl,
    by decide⟩

end Run

end Receive

end CoNet.Net
