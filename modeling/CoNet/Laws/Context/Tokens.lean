import CoNet.Context.Tokens
import CoNet.Lib.Transition
import Mathlib.Data.List.Perm.Basic
import Mathlib.Data.List.Flatten

/-!
# Tokens that belong to what completes

`Owned` is what the completions handled so far should satisfy: each one that reached the token branch
came with no `user_data` or with its own object, which was not freed, and nothing was freed twice. A
request that sets its `user_data` keeps this, and so does a message. One that does not set it keeps it
when its slot held null (`owned_iff_clean`).

What carries the proof is the list of the completions that may still be posted or handled, each in it
once (`Books`): an object that was freed belongs to none of them.
-/

set_option autoImplicit false

namespace CoNet.Context

open CoNet.Io CoNet.Net Transition

/-! ## Completions to come, and objects that are gone -/

/-- The object was made before request `n`. -/
def TokenAddr.before (n : Nat) : TokenAddr → Prop
  | .awaiter m => m < n
  | .multishot => True
  | .object owner => owner.number < n

theorem TokenAddr.before_succ {a : TokenAddr} {n : Nat} (h : a.before n) : a.before (n + 1) := by
  cases a with
  | multishot => trivial
  | awaiter m | object owner => exact Nat.lt_succ_of_lt h

/-- What belongs to a completion or a message of request `m` was made with it. -/
theorem TokenAddr.lt_of_belongs {a : TokenAddr} {n : Nat} (h : a.before n) {source : Source}
    (belongs : a.belongs source = true) (single : a ≠ .multishot) : source.number < n := by
  cases a with
  | multishot => exact absurd rfl single
  | awaiter m =>
    cases source <;> simp only [TokenAddr.belongs, Bool.false_eq_true, decide_eq_true_eq] at belongs
    exact belongs ▸ h
  | object owner =>
    cases source <;> simp only [TokenAddr.belongs, Bool.false_eq_true, decide_eq_true_eq] at belongs
    all_goals exact belongs ▸ h

/-- An object, but for `multishot_token_`, belongs to one completion. -/
theorem TokenAddr.belongs_unique {a : TokenAddr} (single : a ≠ .multishot) {source source' : Source}
    (h : a.belongs source = true) (h' : a.belongs source' = true) : source' = source := by
  cases a with
  | multishot => exact absurd rfl single
  | awaiter m | object owner =>
    cases source <;> cases source' <;>
      simp only [TokenAddr.belongs, Bool.false_eq_true, decide_eq_true_eq] at h h'
    all_goals simp_all

theorem TokenAddr.before_of_belongs {a : TokenAddr} {n : Nat} {source : Source}
    (h : a.belongs source = true) (fresh : source.number < n) : a.before n := by
  cases a with
  | multishot => trivial
  | awaiter m | object owner =>
    cases source <;> simp only [TokenAddr.belongs, Bool.false_eq_true, decide_eq_true_eq] at h
    all_goals exact h ▸ fresh

/-- An earlier object does not belong to the next request. -/
theorem TokenAddr.not_belongs {a : TokenAddr} {n : Nat} (h : a.before n) :
    a.belongs (.request n) = false := by
  cases hb : a.belongs (.request n) with
  | false => rfl
  | true =>
    have single : a ≠ .multishot := by
      rintro rfl
      cases hb
    exact absurd (a.lt_of_belongs h hb single) (Nat.lt_irrefl _)

/-- No completion to come is the object's. -/
structure Settled (pending : List Source) (next : Nat) (a : TokenAddr) : Prop where
  single : a ≠ .multishot
  before : a.before next
  done : ∀ source, a.belongs source = true → source ∉ pending

structure Books (pending : List Source) (next : Nat) (freed ended : List TokenAddr) : Prop where
  nodup : pending.Nodup
  fresh : ∀ source ∈ pending, source.number < next
  freed_settled : ∀ a ∈ freed, Settled pending next a
  ended_settled : ∀ a ∈ ended, Settled pending next a
  once : freed.Nodup

section Books

variable {pending pending' added : List Source} {next : Nat} {freed ended : List TokenAddr}
  {a : TokenAddr}

theorem Settled.drop (settled : Settled pending next a) (sub : pending' ⊆ pending) :
    Settled pending' next a where
  single := settled.single
  before := settled.before
  done source h hmem := settled.done source h (sub hmem)

theorem Settled.add (settled : Settled pending next a) (new : ∀ source ∈ added, source.number = next) :
    Settled (pending ++ added) (next + 1) a where
  single := settled.single
  before := a.before_succ settled.before
  done source h hmem := by
    rcases List.mem_append.mp hmem with hmem | hmem
    · exact settled.done source h hmem
    · have hlt := a.lt_of_belongs settled.before h settled.single
      exact absurd (new source hmem) (Nat.ne_of_lt hlt)

theorem Books.drop (books : Books pending next freed ended) (nodup : pending'.Nodup)
    (sub : pending' ⊆ pending) : Books pending' next freed ended where
  nodup := nodup
  fresh source h := books.fresh source (sub h)
  freed_settled a h := (books.freed_settled a h).drop sub
  ended_settled a h := (books.ended_settled a h).drop sub
  once := books.once

theorem Books.add (books : Books pending next freed ended) (nodup : added.Nodup)
    (new : ∀ source ∈ added, source.number = next) :
    Books (pending ++ added) (next + 1) freed ended where
  nodup := by
    refine List.nodup_append'.mpr ⟨books.nodup, nodup, fun source h hadded => ?_⟩
    exact absurd (new source hadded) (Nat.ne_of_lt (books.fresh source h))
  fresh source h := by
    rcases List.mem_append.mp h with h | h
    · exact Nat.lt_succ_of_lt (books.fresh source h)
    · exact (new source h) ▸ Nat.lt_succ_self _
  freed_settled a h := (books.freed_settled a h).add new
  ended_settled a h := (books.ended_settled a h).add new
  once := books.once

theorem Books.free (books : Books pending next freed ended) (settled : Settled pending next a)
    (live : a ∉ freed) : Books pending next (freed ++ [a]) ended where
  nodup := books.nodup
  fresh := books.fresh
  freed_settled b h := by
    rcases List.mem_append.mp h with h | h
    · exact books.freed_settled b h
    · exact List.mem_singleton.mp h ▸ settled
  ended_settled := books.ended_settled
  once := by
    refine List.nodup_append'.mpr ⟨books.once, List.nodup_singleton _, ?_⟩
    exact List.disjoint_singleton.mpr live

theorem Books.finish (books : Books pending next freed ended) (settled : Settled pending next a) :
    Books pending next freed (ended ++ [a]) where
  nodup := books.nodup
  fresh := books.fresh
  freed_settled := books.freed_settled
  ended_settled b h := by
    rcases List.mem_append.mp h with h | h
    · exact books.ended_settled b h
    · exact List.mem_singleton.mp h ▸ settled
  once := books.once

/-- The object of a completion to come is not gone. -/
theorem Books.live (books : Books pending next freed ended) {source : Source}
    (belongs : a.belongs source = true) (here : source ∈ pending) : a ∉ freed ∧ a ∉ ended :=
  ⟨fun h => (books.freed_settled a h).done source belongs here,
    fun h => (books.ended_settled a h).done source belongs here⟩

end Books

/-- The completions that are posted once for a request in flight: its message's, and its own unless it
is a multishot accept. -/
def Inflight.sources (p : Inflight) : List Source :=
  (p.prep.message.toList.map fun _ => .message p.number) ++
    if p.prep.data = .multishot then [] else [.request p.number]

def Source.once : Source → List Source
  | .accept _ => []
  | source => [source]

theorem Inflight.sources_number (p : Inflight) : ∀ source ∈ p.sources, source.number = p.number := by
  intro source h
  rcases List.mem_append.mp h with h | h
  · obtain ⟨-, -, rfl⟩ := List.mem_map.mp h
    rfl
  · split at h
    · cases h
    · exact List.mem_singleton.mp h ▸ rfl

theorem Inflight.sources_nodup (p : Inflight) : p.sources.Nodup := by
  unfold Inflight.sources
  cases p.prep.message <;> split <;> simp

namespace TokenSystem

variable {s s' : TokenSystem} {e : TokenEvent} {a : TokenAddr}

/-- The completions to come that come once. -/
def pending (s : TokenSystem) : List Source :=
  s.posted.flatMap (·.source.once) ++ s.inflight.flatMap Inflight.sources

/-- Every completion that reached the token branch came without a `user_data`, or with its own object,
which was there; and no object was freed twice. -/
structure Owned (s : TokenSystem) : Prop where
  own : ∀ h ∈ s.handled, ∀ a, h.userData = some a → a.belongs h.source = true ∧ h.live = true
  freedOnce : s.freed.Nodup

/-- A completion that is handled is a message's, or of a request that set its `user_data`, or its
slot held null. -/
def Clean (s : TokenSystem) : TokenEvent → Prop
  | .handle i | .drain i => ∀ q, s.posted[i]? = some q → q.set = true ∨ q.userData = none
  | _ => True

/-- What a request carries. -/
structure Carried (userData : Option TokenAddr) (source : Source) (set : Bool) : Prop where
  own : set = true → ∃ a, userData = some a ∧ a.belongs source = true
  other : set = false → ∀ a, userData = some a → a.belongs source = false

structure Inv (s : TokenSystem) : Prop where
  books : Books s.pending s.next s.freed s.ended
  slots : ∀ t i a, (s.slots t).userData i = some a → a.before s.next
  inflight : ∀ p ∈ s.inflight, Carried p.userData p.source (p.prep.data ≠ .unset)
  posted : ∀ q ∈ s.posted, Carried q.userData q.source q.set
  /-- Only messages set the flag of a task message. -/
  plain : ∀ q ∈ s.posted, (∀ n, q.source ≠ .message n) → q.flags &&& netIoringCqeFTask = 0
  messages : ∀ q ∈ s.posted, (∃ n, q.source = .message n) → q.set = true
  static : s.objects .multishot = .token { op := .multishotAccept, chainTask := some () }
  handled : ∀ h ∈ s.handled, ∀ a, h.userData = some a → a.belongs h.source = true ∧ h.live = true

theorem Inv.owned (inv : Inv s) : Owned s := ⟨inv.handled, inv.books.once⟩

theorem inv_init (cfg : Config) : Inv (init cfg) where
  books := ⟨List.nodup_nil, fun _ h => (nomatch h), fun _ h => (nomatch h), fun _ h => (nomatch h),
    List.nodup_nil⟩
  slots t i a h := by cases t <;> cases h
  inflight _ h := nomatch h
  posted _ h := nomatch h
  plain _ h := nomatch h
  messages _ h := nomatch h
  static := rfl
  handled _ h := nomatch h

/-! ## Requests -/

theorem newObjects_multishot (objects : TokenAddr → TokenObject) (n : Nat) (prep : Prep) :
    newObjects objects n prep .multishot = objects .multishot := by
  unfold newObjects
  cases prep.data <;> cases prep.message <;> simp

/-- What preparing a request changes. -/
theorem request_eq {t : Thread} {prep : Prep} (h : s.request t prep = some s') :
    ∃ slot slots userData place,
      s' = { s with
        slots, objects := newObjects s.objects s.next prep, next := s.next + 1
        inflight := s.inflight ++ [⟨s.next, t, place, prep, userData⟩] } ∧
      (∀ u i, (slots u).userData i = (s.slots u).userData i ∨
        ∃ a, prep.data.addr s.next = some a ∧ (slots u).userData i = some a) ∧
      userData = (prep.data.addr s.next <|> (s.slots t).userData slot) := by
  obtain ⟨⟨slot, r⟩, hget, rfl⟩ := Option.map_eq_some_iff.mp h
  obtain ⟨⟨_, sq⟩, -, hr⟩ := Option.map_eq_some_iff.mp hget
  cases hr
  refine ⟨slot, _, _, _, rfl, fun u i => ?_, ?_⟩
  · by_cases hu : u = t
    · subst hu
      cases haddr : prep.data.addr s.next with
      | none => exact .inl (by simp [RingSlots.setData])
      | some a =>
        by_cases hi : i = slot
        · subst hi
          exact .inr ⟨a, rfl, by simp [RingSlots.setData]⟩
        · exact .inl (by simp [RingSlots.setData, hi])
    · exact .inl (by simp [hu])
  · cases haddr : prep.data.addr s.next <;> simp [RingSlots.setData]

theorem addr_before {data : SetData} {n : Nat} (h : data.addr n = some a) : a.before (n + 1) := by
  cases data <;> cases h
  · exact Nat.lt_succ_self n
  · trivial
  · exact Nat.lt_succ_self n

/-- A new request carries its own object, or what an earlier one left. -/
theorem carried_request {data : SetData} {n : Nat} {left : Option TokenAddr} {ring : Thread}
    {place : Nat} {prep : Prep} (hdata : prep.data = data)
    (earlier : ∀ a, left = some a → a.before n) :
    Carried (data.addr n <|> left) (Inflight.source ⟨n, ring, place, prep, data.addr n <|> left⟩)
      (prep.data ≠ .unset) := by
  subst hdata
  cases hdata : prep.data with
  | unset =>
    refine ⟨fun h => by simp at h, fun _ a ha => ?_⟩
    simp only [Inflight.source, hdata]
    exact a.not_belongs (earlier a ha)
  | awaiter op | multishot | new object =>
    refine ⟨fun _ => ⟨_, rfl, ?_⟩, fun h => by simp at h⟩
    simp [Inflight.source, hdata, TokenAddr.belongs]

/-- **Preparing a request keeps the invariant.** -/
theorem inv_request {t : Thread} {prep : Prep} (inv : Inv s) (h : s.request t prep = some s') :
    Inv s' := by
  obtain ⟨slot, slots, userData, place, rfl, hslots, rfl⟩ := request_eq h
  exact {
    books := by
      have books := inv.books.add (Inflight.sources_nodup ⟨s.next, t, place, prep, none⟩)
        (Inflight.sources_number _)
      simpa [pending, Inflight.sources, List.append_assoc] using books
    slots := fun u i a ha => by
      rcases hslots u i with hkeep | ⟨b, hb, hnew⟩
      · exact a.before_succ (inv.slots u i a (hkeep ▸ ha))
      · obtain rfl := Option.some.inj (hnew.symm.trans ha)
        exact addr_before hb
    inflight := fun p hp => by
      rcases List.mem_append.mp hp with hp | hp
      · exact inv.inflight p hp
      · obtain rfl := List.mem_singleton.mp hp
        exact carried_request rfl fun a ha => inv.slots t slot a ha
    posted := inv.posted
    plain := inv.plain
    messages := inv.messages
    static := (newObjects_multishot _ _ _).trans inv.static
    handled := inv.handled }

theorem inv_submit (inv : Inv s) (t : Thread) : Inv (s.submit t) :=
  { inv with
    slots := fun u i a h => by
      apply inv.slots u i a
      by_cases hu : u = t
      · subst hu
        simpa [submit, RingSlots.submit] using h
      · simpa [submit, hu] using h }

theorem inv_requests {t : Thread} {preps : List Prep} (inv : Inv s)
    (h : s.requests t preps = some s') : Inv s' := by
  induction preps generalizing s with
  | nil =>
    cases h
    exact inv
  | cons prep rest ih =>
    simp only [requests, List.foldlM_cons, Option.bind_eq_bind, Option.bind_eq_some_iff] at h
    obtain ⟨m, hm, h⟩ := h
    exact ih (inv_request inv hm) h

theorem inv_submitAll {t : Thread} {preps : List Prep} (inv : Inv s)
    (h : s.submitAll t preps = some s') : Inv s' := by
  obtain ⟨m, hm, rfl⟩ := Option.map_eq_some_iff.mp h
  exact inv_submit (inv_requests inv hm) t

/-! ## The kernel -/

theorem messagePosted_once (p : Inflight) (slot : Nat) :
    (messagePosted p slot).flatMap (·.source.once) =
      p.prep.message.toList.map fun _ => .message p.number := by
  unfold messagePosted
  cases p.prep.message <;> rfl

/-- What the kernel posts for a request is among what the request may still post. -/
theorem completions_once (p : Inflight) (res : Int) (flags : BitVec 32) (slot : Nat)
    (single : p.prep.data ≠ .multishot) :
    List.Sublist ((completions p res flags slot).flatMap (·.source.once)) p.sources := by
  have own : (completion p res flags).source.once = [.request p.number] := by
    cases hdata : p.prep.data <;> simp_all [completion, Inflight.source, Source.once]
  rw [completions, List.flatMap_append, Inflight.sources, if_neg single]
  apply List.Sublist.append
  · split
    · exact (messagePosted_once p slot) ▸ List.Sublist.refl _
    · exact List.nil_sublist _
  · split
    · exact List.nil_sublist _
    · simp [own]

/-- The completions to come, with those of one request apart. -/
theorem pending_perm {i : Nat} {p : Inflight} (hp : s.inflight[i]? = some p) :
    s.pending.Perm (s.posted.flatMap (·.source.once) ++
      (p.sources ++ (s.inflight.eraseIdx i).flatMap Inflight.sources)) := by
  obtain ⟨hlt, rfl⟩ := List.getElem?_eq_some_iff.mp hp
  refine List.Perm.append_left _ ?_
  have hperm := (List.getElem_cons_eraseIdx_perm hlt).flatMap_right Inflight.sources
  rw [List.flatMap_cons] at hperm
  exact hperm.symm

theorem mem_of_mem_eraseIdx {α : Type} {l : List α} {i : Nat} {x : α} (h : x ∈ l.eraseIdx i) :
    x ∈ l := (List.eraseIdx_sublist l i).subset h

/-- A message's completion names the object it was sent with. -/
theorem carried_message {p : Inflight} {slot : Nat} {q : Posted} (h : q ∈ messagePosted p slot) :
    q.source = .message p.number ∧ q.set = true ∧ Carried q.userData q.source q.set := by
  obtain ⟨m, -, rfl⟩ := List.mem_map.mp h
  refine ⟨rfl, rfl, fun _ => ⟨_, rfl, ?_⟩, fun h => by simp at h⟩
  simp [TokenAddr.belongs]

theorem mem_completions {p : Inflight} {res : Int} {flags : BitVec 32} {slot : Nat} {q : Posted}
    (h : q ∈ completions p res flags slot) :
    q ∈ messagePosted p slot ∨ q = completion p res flags := by
  rcases List.mem_append.mp h with h | h
  · split at h
    · exact .inl h
    · cases h
  · split at h
    · cases h
    · exact .inr (List.mem_singleton.mp h)

theorem source_ne_message (p : Inflight) (n : Nat) : p.source ≠ .message n := by
  unfold Inflight.source
  split <;> nofun

/-- New completions of requests in flight. -/
theorem inv_post {new : List Posted} {inflight : List Inflight} (inv : Inv s)
    (books : Books ((s.posted ++ new).flatMap (·.source.once) ++ inflight.flatMap Inflight.sources)
      s.next s.freed s.ended)
    (sub : ∀ p ∈ inflight, p ∈ s.inflight)
    (hnew : ∀ q ∈ new, (∃ p ∈ s.inflight, ∃ slot, q ∈ messagePosted p slot) ∨
      ∃ p ∈ s.inflight, ∃ res flags, q = completion p res flags ∧ flags &&& netIoringCqeFTask = 0) :
    Inv { s with inflight, posted := s.posted ++ new } where
  books := books
  slots := inv.slots
  inflight p hp := inv.inflight p (sub p hp)
  posted q hq := by
    rcases List.mem_append.mp hq with hq | hq
    · exact inv.posted q hq
    · rcases hnew q hq with ⟨p, hp, slot, hq⟩ | ⟨p, hp, res, flags, rfl, -⟩
      · exact (carried_message hq).2.2
      · exact inv.inflight p hp
  plain q hq h := by
    rcases List.mem_append.mp hq with hq | hq
    · exact inv.plain q hq h
    · rcases hnew q hq with ⟨p, hp, slot, hq⟩ | ⟨p, hp, res, flags, rfl, plain⟩
      · exact absurd (carried_message hq).1 (h _)
      · exact plain
  messages q hq h := by
    rcases List.mem_append.mp hq with hq | hq
    · exact inv.messages q hq h
    · rcases hnew q hq with ⟨p, hp, slot, hq⟩ | ⟨p, hp, res, flags, rfl, -⟩
      · exact (carried_message hq).2.1
      · obtain ⟨n, hn⟩ := h
        exact absurd hn (source_ne_message p n)
  static := inv.static
  handled := inv.handled

theorem inv_complete {i slot : Nat} {res : Int} {flags : BitVec 32} {p : Inflight} (inv : Inv s)
    (hp : s.inflight[i]? = some p) (single : p.prep.data ≠ .multishot)
    (plain : flags &&& netIoringCqeFTask = 0) :
    Inv { s with
      inflight := s.inflight.eraseIdx i
      posted := s.posted ++ completions p res flags slot } := by
  have mem := List.mem_of_getElem? hp
  refine inv_post inv ?_ (fun _ => mem_of_mem_eraseIdx) fun q hq => ?_
  · have hperm := pending_perm hp
    have hsub : List.Sublist ((s.posted ++ completions p res flags slot).flatMap (·.source.once) ++
        (s.inflight.eraseIdx i).flatMap Inflight.sources)
        (s.posted.flatMap (·.source.once) ++
          (p.sources ++ (s.inflight.eraseIdx i).flatMap Inflight.sources)) := by
      rw [List.flatMap_append, List.append_assoc]
      exact ((completions_once p res flags slot single).append_right _).append_left _
    exact inv.books.drop ((hperm.nodup_iff.mp inv.books.nodup).sublist hsub)
      fun source h => hperm.mem_iff.mpr (hsub.subset h)
  · rcases mem_completions hq with hq | rfl
    · exact .inl ⟨p, mem, slot, hq⟩
    · exact .inr ⟨p, mem, res, flags, rfl, plain⟩

theorem inv_acceptCompletion {i : Nat} {res : Int} {flags : BitVec 32} {more : Bool} {p : Inflight}
    (inv : Inv s) (hp : s.inflight[i]? = some p) (multi : p.prep.data = .multishot)
    (plain : flags &&& netIoringCqeFTask = 0) :
    Inv { s with
      inflight := if more then s.inflight else s.inflight.eraseIdx i
      posted := s.posted ++ [completion p res flags] } := by
  have mem := List.mem_of_getElem? hp
  have none_once : (completion p res flags).source.once = [] := by
    simp [completion, Inflight.source, multi, Source.once]
  have hsub : List.Sublist ((s.posted ++ [completion p res flags]).flatMap (·.source.once) ++
      (if more then s.inflight else s.inflight.eraseIdx i).flatMap Inflight.sources) s.pending := by
    simp only [List.flatMap_append, List.flatMap_singleton, none_once, List.append_nil]
    refine List.Sublist.append_left (List.Sublist.flatMap ?_ _) _
    split
    · exact List.Sublist.refl _
    · exact List.eraseIdx_sublist _ _
  refine inv_post inv (inv.books.drop (inv.books.nodup.sublist hsub) hsub.subset) ?_ fun q hq => ?_
  · intro p' hp'
    split at hp'
    · exact hp'
    · exact mem_of_mem_eraseIdx hp'
  · exact .inr ⟨p, mem, res, flags, List.mem_singleton.mp hq, plain⟩

/-! ## The handlers -/

/-- These objects can be freed: they are there, and belong to no completion to come. -/
structure Ready (s : TokenSystem) (ends : List TokenAddr) : Prop where
  nodup : ends.Nodup
  settled : ∀ a ∈ ends, Settled s.pending s.next a
  live : ∀ a ∈ ends, a ∉ s.freed

theorem ready_request {t : Thread} {prep : Prep} {ends : List TokenAddr} (ready : Ready s ends)
    (h : s.request t prep = some s') : Ready s' ends := by
  obtain ⟨slot, slots, userData, place, rfl, -, -⟩ := request_eq h
  refine ⟨ready.nodup, fun a ha => ?_, ready.live⟩
  have settled := (ready.settled a ha).add
    (Inflight.sources_number ⟨s.next, t, place, prep, userData⟩)
  simpa [pending, List.append_assoc] using settled

theorem ready_submitAll {t : Thread} {preps : List Prep} {ends : List TokenAddr}
    (ready : Ready s ends) (h : s.submitAll t preps = some s') : Ready s' ends := by
  obtain ⟨m, hm, rfl⟩ := Option.map_eq_some_iff.mp h
  suffices Ready m ends from ⟨this.nodup, this.settled, this.live⟩
  clear h
  induction preps generalizing s with
  | nil =>
    cases hm
    exact ready
  | cons prep rest ih =>
    simp only [requests, List.foldlM_cons, Option.bind_eq_bind, Option.bind_eq_some_iff] at hm
    obtain ⟨m', hm', h⟩ := hm
    exact ih (ready_request ready hm') h

/-- **The effects of a completion keep the invariant**, if they free what can be freed. -/
theorem inv_effects {t : Thread} {effects : List (Effect Unit Unit Unit TokenAddr)} (inv : Inv s)
    (ready : Ready s (effects.filterMap Uring.endsAt))
    (h : effects.foldlM (applyEffect t) s = some s') : Inv s' := by
  induction effects generalizing s with
  | nil =>
    cases h
    exact inv
  | cons effect rest ih =>
    simp only [List.foldlM_cons, Option.bind_eq_bind, Option.bind_eq_some_iff] at h
    obtain ⟨m, hm, h⟩ := h
    cases effect with
    | delete a =>
      obtain rfl := Option.some.inj hm
      have hnodup := List.nodup_cons.mp ready.nodup
      refine ih (s := { s with freed := s.freed ++ [a] }) { inv with
        books := inv.books.free (ready.settled a List.mem_cons_self)
          (ready.live a List.mem_cons_self) } ⟨hnodup.2, ?_, ?_⟩ h
      · exact fun b hb => ready.settled b (List.mem_cons_of_mem _ hb)
      · intro b hb hfreed
        rcases List.mem_append.mp hfreed with hfreed | hfreed
        · exact ready.live b (List.mem_cons_of_mem _ hb) hfreed
        · exact hnodup.1 (List.mem_singleton.mp hfreed ▸ hb)
    | storeResult a res flags =>
      obtain rfl := Option.some.inj hm
      refine ih (s := { s with ended := s.ended ++ [a] }) { inv with
        books := inv.books.finish (ready.settled a List.mem_cons_self) }
        ⟨(List.nodup_cons.mp ready.nodup).2, ?_, ?_⟩ h
      · exact fun b hb => ready.settled b (List.mem_cons_of_mem _ hb)
      · exact fun b hb => ready.live b (List.mem_cons_of_mem _ hb)
    | closeDirectSocket fd | notifyMainRingReleaseFd fd =>
      exact ih (inv_submitAll inv hm) (ready_submitAll ready hm) h
    | enqueue task | schedule func conn | setPending task pending =>
      obtain rfl := Option.some.inj hm
      exact ih inv ready h

/-- The object that a posted completion was sent with is there. -/
theorem Inv.live (inv : Inv s) {q : Posted} (hq : q ∈ s.posted)
    (belongs : a.belongs q.source = true) : a ∉ s.freed ∧ a ∉ s.ended := by
  cases hsource : q.source with
  | accept n =>
    obtain rfl : a = .multishot := by
      rw [hsource] at belongs
      cases a <;> simp [TokenAddr.belongs] at belongs ⊢
    exact ⟨fun h => (inv.books.freed_settled _ h).single rfl,
      fun h => (inv.books.ended_settled _ h).single rfl⟩
  | request n | message n =>
    refine inv.books.live belongs (List.mem_append_left _ (List.mem_flatMap.mpr ⟨q, hq, ?_⟩))
    simp [hsource, Source.once]

/-- A completion is taken out of the queue. -/
theorem posted_perm {i : Nat} {q : Posted} (hq : s.posted[i]? = some q) :
    s.pending.Perm (q.source.once ++ ((s.posted.eraseIdx i).flatMap (·.source.once) ++
      s.inflight.flatMap Inflight.sources)) := by
  obtain ⟨hlt, rfl⟩ := List.getElem?_eq_some_iff.mp hq
  have hperm := (List.getElem_cons_eraseIdx_perm hlt).flatMap_right
    fun (q : Posted) => q.source.once
  rw [List.flatMap_cons] at hperm
  rw [← List.append_assoc]
  exact (hperm.symm).append_right _

theorem inv_take {i : Nat} {q : Posted} (inv : Inv s) (hq : s.posted[i]? = some q)
    (clean : q.set = true ∨ q.userData = none) :
    Inv { s with posted := s.posted.eraseIdx i, handled := s.handled ++ s.record q } where
  books := by
    have hsub : List.Sublist ((s.posted.eraseIdx i).flatMap (·.source.once) ++
        s.inflight.flatMap Inflight.sources) s.pending :=
      ((List.eraseIdx_sublist _ _).flatMap _).append_right _
    exact inv.books.drop (inv.books.nodup.sublist hsub) hsub.subset
  slots := inv.slots
  inflight := inv.inflight
  posted p hp := inv.posted p (mem_of_mem_eraseIdx hp)
  plain p hp := inv.plain p (mem_of_mem_eraseIdx hp)
  messages p hp := inv.messages p (mem_of_mem_eraseIdx hp)
  static := inv.static
  handled h hh a ha := by
    have mem := List.mem_of_getElem? hq
    rcases List.mem_append.mp hh with hh | hh
    · exact inv.handled h hh a ha
    · unfold record at hh
      split at hh
      · obtain rfl := List.mem_singleton.mp hh
        change q.userData = some a at ha
        have hset : q.set = true := clean.resolve_right (by simp [ha])
        obtain ⟨b, hb, belongs⟩ := (inv.posted q mem).own hset
        obtain rfl := Option.some.inj (hb.symm.trans ha)
        obtain ⟨hfreed, hended⟩ := inv.live mem belongs
        exact ⟨belongs, by simp [ha, objectAt, hfreed, hended]⟩
      · cases hh

/-- The object of a completion that is taken out of the queue belongs to none to come. -/
theorem settled_take {i : Nat} {q : Posted} (inv : Inv s) (hq : s.posted[i]? = some q)
    (belongs : a.belongs q.source = true) (single : a ≠ .multishot) :
    Settled ((s.posted.eraseIdx i).flatMap (·.source.once) ++ s.inflight.flatMap Inflight.sources)
      s.next a := by
  have once : q.source.once = [q.source] := by
    cases hsource : q.source with
    | accept n =>
      rw [hsource] at belongs
      cases a <;> simp_all [TokenAddr.belongs]
    | request n | message n => rfl
  have hperm := posted_perm hq
  rw [once] at hperm
  have hnodup := hperm.nodup_iff.mp inv.books.nodup
  refine ⟨single, a.before_of_belongs belongs (inv.books.fresh q.source ?_), fun source h => ?_⟩
  · exact hperm.mem_iff.mpr List.mem_cons_self
  · obtain rfl := a.belongs_unique single belongs h
    exact (List.nodup_cons.mp hnodup).1

/-- A completion of the accept frees nothing. -/
theorem ends_multishot {ring ring' : Uring} {res : Int} {flags : BitVec 32}
    {effects : List (Effect Unit Unit Unit TokenAddr)}
    (h : ring.handleRequest { op := .multishotAccept, chainTask := some () }
      ⟨res, flags, some (.multishot, .token { op := .multishotAccept, chainTask := some () })⟩ =
        some (ring', effects)) :
    effects.filterMap Uring.endsAt = [] := by
  have handled := Uring.handleToken_of_handleRequest rfl h
  cases handled
  rfl

/-- **What the handler of a completion frees can be freed.** -/
theorem ready_take {i : Nat} {q : Posted} {ring ring' : Uring}
    {cqe : Cqe Unit Unit Unit TokenAddr} {effects : List (Effect Unit Unit Unit TokenAddr)}
    (inv : Inv s) (hq : s.posted[i]? = some q) (clean : q.set = true ∨ q.userData = none)
    (hcqe : s.readCqe q = some cqe)
    (handled : ring.handleRequest { op := .multishotAccept, chainTask := some () } cqe =
      some (ring', effects)) :
    Ready { s with posted := s.posted.eraseIdx i, handled := s.handled ++ s.record q }
      (effects.filterMap Uring.endsAt) := by
  have ends := Uring.handleRequest_ends handled
  unfold readCqe at hcqe
  cases hdata : q.userData with
  | none =>
    simp only [hdata] at hcqe
    cases hcqe
    rw [List.sublist_nil.mp ends]
    exact ⟨List.nodup_nil, fun _ h => (nomatch h), fun _ h => (nomatch h)⟩
  | some a =>
    have hset : q.set = true := clean.resolve_right (by simp [hdata])
    obtain ⟨b, hb, belongs⟩ := (inv.posted q (List.mem_of_getElem? hq)).own hset
    obtain rfl := Option.some.inj (hb.symm.trans hdata)
    obtain ⟨hfreed, hended⟩ := inv.live (List.mem_of_getElem? hq) belongs
    simp only [hdata, objectAt, hfreed, hended, or_self, if_false, Option.map_some] at hcqe
    cases hcqe
    by_cases hb : b = .multishot
    · subst hb
      rw [inv.static] at handled
      rw [ends_multishot handled]
      exact ⟨List.nodup_nil, fun _ h => (nomatch h), fun _ h => (nomatch h)⟩
    · have settled := settled_take inv hq belongs hb
      exact {
        nodup := (List.nodup_singleton b).sublist ends
        settled := fun x hx => (List.mem_singleton.mp (ends.subset hx)) ▸ settled
        live := fun x hx => (List.mem_singleton.mp (ends.subset hx)) ▸ hfreed }

theorem inv_handle {i : Nat} {q : Posted} (inv : Inv s) (hq : s.posted[i]? = some q)
    (clean : q.set = true ∨ q.userData = none) (h : s.handle i q = some s') : Inv s' := by
  have taken := inv_take inv hq clean
  simp only [handle] at h
  split at h
  · obtain rfl := Option.some.inj h
    exact { taken with }
  · rename_i ring effects hhandled
    obtain ⟨cqe, hcqe, handled⟩ := Option.bind_eq_some_iff.mp hhandled
    have ready := ready_take inv hq clean hcqe handled
    refine inv_effects (s := { s with
      posted := s.posted.eraseIdx i, handled := s.handled ++ s.record q
      rings := Function.update s.rings q.ring ring }) { taken with } ?_ h
    exact ⟨ready.nodup, ready.settled, ready.live⟩

/-- **Every step keeps the invariant**, if what it handles is clean. -/
theorem inv_step (inv : Inv s) (clean : Clean s e) (h : s.step e = some s') : Inv s' := by
  unfold step at h
  split at h
  · cases h
  cases e with
  | awaitOperation t op =>
    simp only [defined, Option.ite_none_right_eq_some] at h
    exact inv_request inv h.2
  | awaitMultishotAccept => exact inv_request inv h
  | parallelSpawn worker => exact inv_submitAll inv h
  | parallelSpawnConnection worker fd => exact inv_submitAll inv h
  | mshotAcceptSend workers => exact inv_submitAll inv h
  | closeDirectSocket t => exact inv_submitAll inv h
  | terminate workers => exact inv_submitAll inv h
  | cancelAny t =>
    simp only [defined, Option.ite_none_right_eq_some] at h
    exact inv_submitAll inv h.2
  | submit t =>
    obtain rfl := Option.some.inj h
    exact inv_submit inv t
  | complete i res flags slot =>
    simp only [defined] at h
    split at h
    · cases h
    · simp only [Option.ite_none_right_eq_some, Option.some.injEq] at h
      obtain ⟨⟨-, single, plain⟩, rfl⟩ := h
      exact inv_complete inv ‹_› single plain
  | acceptCompletion i res flags more =>
    simp only [defined] at h
    split at h
    · cases h
    · simp only [Option.ite_none_right_eq_some, Option.some.injEq] at h
      obtain ⟨⟨-, multi, plain⟩, rfl⟩ := h
      exact inv_acceptCompletion inv ‹_› multi plain
  | handle i =>
    simp only [defined] at h
    split at h
    · cases h
    · rename_i q hq
      simp only [Option.ite_none_left_eq_some] at h
      exact inv_handle inv hq (clean q hq) h.2
  | drain i =>
    simp only [defined] at h
    split at h
    · cases h
    · rename_i q hq
      simp only [Option.ite_none_right_eq_some] at h
      exact inv_handle inv hq (clean q hq) h.2

/-! ## What breaks it -/

theorem requests_handled {t : Thread} {preps : List Prep} (h : s.requests t preps = some s') :
    s'.handled = s.handled := by
  induction preps generalizing s with
  | nil =>
    cases h
    rfl
  | cons prep rest ih =>
    simp only [requests, List.foldlM_cons, Option.bind_eq_bind, Option.bind_eq_some_iff] at h
    obtain ⟨m, hm, h⟩ := h
    obtain ⟨slot, slots, userData, place, rfl, -, -⟩ := request_eq hm
    exact (ih h).trans rfl

theorem submitAll_handled {t : Thread} {preps : List Prep} (h : s.submitAll t preps = some s') :
    s'.handled = s.handled := by
  obtain ⟨m, hm, rfl⟩ := Option.map_eq_some_iff.mp h
  exact (requests_handled hm : m.handled = s.handled)

theorem effects_handled {t : Thread} {effects : List (Effect Unit Unit Unit TokenAddr)}
    (h : effects.foldlM (applyEffect t) s = some s') : s'.handled = s.handled := by
  induction effects generalizing s with
  | nil =>
    cases h
    rfl
  | cons effect rest ih =>
    simp only [List.foldlM_cons, Option.bind_eq_bind, Option.bind_eq_some_iff] at h
    obtain ⟨m, hm, h⟩ := h
    rw [ih h]
    cases effect with
    | closeDirectSocket fd | notifyMainRingReleaseFd fd => exact submitAll_handled hm
    | _ =>
      obtain rfl := Option.some.inj hm
      rfl

theorem handle_handled {i : Nat} {q : Posted} (h : s.handle i q = some s') :
    s'.handled = s.handled ++ s.record q := by
  simp only [handle] at h
  split at h
  · obtain rfl := Option.some.inj h
    rfl
  · exact effects_handled h

/-- A completion that is no message's reaches the token branch. -/
theorem reachesToken_of_plain {q : Posted} (plain : q.flags &&& netIoringCqeFTask = 0) :
    Posted.reachesToken q = true := by
  simp [Posted.reachesToken, Uring.isTaskMessage, Uring.isMessage, plain]

/-- **A completion that carries what an earlier request left in its slot breaks it.** -/
theorem not_owned_handle {i : Nat} {q : Posted} (inv : Inv s) (hq : s.posted[i]? = some q)
    (stale : ¬ (q.set = true ∨ q.userData = none)) (h : s.handle i q = some s') : ¬ Owned s' := by
  obtain ⟨hset, hdata⟩ := not_or.mp stale
  obtain ⟨a, ha⟩ := Option.ne_none_iff_exists'.mp hdata
  have mem := List.mem_of_getElem? hq
  have notMessage : ∀ n, q.source ≠ .message n := fun n hn => hset (inv.messages q mem ⟨n, hn⟩)
  have hhandled := handle_handled h
  rw [record, if_pos (reachesToken_of_plain (inv.plain q mem notMessage))] at hhandled
  intro owned
  have own := (owned.own ⟨q.source, q.userData, _⟩
    (hhandled ▸ List.mem_append_right _ (List.mem_singleton_self _)) a ha).1
  rw [(inv.posted q mem).other (by simpa using hset) a ha] at own
  cases own

theorem not_owned_step (inv : Inv s) (stale : ¬ Clean s e) (h : s.step e = some s') : ¬ Owned s' := by
  unfold step at h
  split at h
  · cases h
  cases e with
  | handle i =>
    simp only [Clean, Classical.not_forall] at stale
    obtain ⟨q, hq, stale⟩ := stale
    simp only [defined, hq, Option.ite_none_left_eq_some] at h
    exact not_owned_handle inv hq stale h.2
  | drain i =>
    simp only [Clean, Classical.not_forall] at stale
    obtain ⟨q, hq, stale⟩ := stale
    simp only [defined, hq, Option.ite_none_right_eq_some] at h
    exact not_owned_handle inv hq stale h.2
  | _ => exact absurd trivial stale

/-- **Every completion comes with its own object, and nothing is freed twice, exactly in the runs that
handle no completion of a request that left its `user_data` as an earlier request had set it.** -/
theorem owned_iff_clean (cfg : Config) (es : List TokenEvent) :
    Always step Owned (init cfg) es ↔ Meets step Clean (init cfg) es :=
  always_iff_meets (fun _ _ _ => inv_step) (fun _ => Inv.owned) (fun _ _ _ => not_owned_step)
    (inv_init cfg)

/-- The main ring: a spawned task's request in the first slot, whose token is freed, 127 closes, and a
close in the first slot again, which fails. -/
def reusedSlot : List TokenEvent :=
  [.parallelSpawn 0, .complete 0 0 0 0, .handle 1] ++
    (List.replicate 127 [.closeDirectSocket .main, .complete 0 0 0 0]).flatten ++
    [.closeDirectSocket .main, .complete 0 (-9) 0 0, .handle 1]

theorem not_owned_reusedSlot :
    ∃ s, exec step (init {}) reusedSlot = some s ∧
      (∃ h ∈ s.handled, h.source = .request 128 ∧ h.userData = some (.object (.request 0)) ∧
        h.live = false) ∧ ¬ Owned s := by
  have run : (exec step (init {}) reusedSlot).any (fun s => s.handled.any fun h =>
      h.source = .request 128 ∧ h.userData = some (.object (.request 0)) ∧ h.live = false) = true := by
    decide +kernel
  obtain ⟨s, hs, hany⟩ := (Option.any_eq_true _ _).mp run
  obtain ⟨h, hmem, hstale⟩ := List.any_eq_true.mp hany
  simp only [Bool.decide_and, Bool.and_eq_true, decide_eq_true_eq] at hstale
  refine ⟨s, hs, ⟨h, hmem, hstale⟩, fun owned => ?_⟩
  have live := (owned.own h hmem _ hstale.2.1).2
  rw [hstale.2.2] at live
  cases live

end TokenSystem

end CoNet.Context
