import CoNet.Config
import CoNet.Io.SubmissionQueue
import CoNet.Laws.Io.Uring
import CoNet.Net.Routing

/-!
# Completion tokens and reused slots (`io/uring.hpp`, `context/context.hpp`)

All rings, with the requests the source prepares on them and the completions these post. Some requests
set the `user_data` of their slot; the others leave what the slot's last request to set it left there,
and their completions carry that. The source asks to skip their completions on success, so it is a
failure, or a cancelled link, that shows it.

The `user_data` of a completion is the object it names: a pointer to a freed object is not one to a
later object at the same address. An object made with `new` is named by the completion or the message
it is made for, an awaiter's token by its request. A completion is handled once. A slot that is not
found, and what the handlers do outside of the rings, are left out.
-/

set_option autoImplicit false

namespace CoNet.Context

open CoNet.Io CoNet.Net

/-- Whose completion it is. Requests are numbered. -/
inductive Source where
  | request (n : Nat)
  /-- one of the completions of a multishot accept -/
  | accept (n : Nat)
  /-- the completion that a message posts on the ring it is sent to -/
  | message (n : Nat)
  deriving DecidableEq, Repr

def Source.number : Source → Nat
  | .request n => n
  | .accept n => n
  | .message n => n

/-- What a `user_data` points to. -/
inductive TokenAddr where
  /-- `token_` of the `UringAwaiter` of a request -/
  | awaiter (n : Nat)
  /-- `multishot_token_` -/
  | multishot
  /-- an object made with `new` -/
  | object (owner : Source)
  deriving DecidableEq, Repr

/-- The token belongs to the request, or the message, that completes. -/
def TokenAddr.belongs : TokenAddr → Source → Bool
  | .awaiter n, .request m => n = m
  | .multishot, .accept _ => true
  | .object owner, .request n => owner = .request n
  | .object owner, .message n => owner = .message n
  | _, _ => false

abbrev TokenObject := Object Unit Unit Unit

/-- What a request's code does with the `user_data` of its slot. -/
inductive SetData where
  /-- nothing -/
  | unset
  /-- `UringAwaiter` -/
  | awaiter (op : Op)
  /-- `MultishotAcceptDirectAwaiter` -/
  | multishot
  /-- `io_uring_sqe_set_data` of a new object -/
  | new (object : TokenObject)
  deriving DecidableEq, Repr

/-- A message to another ring, with its new object. A `len` of `none` is the slot the kernel installs
a descriptor in. -/
structure Message where
  target : Thread
  len : Option Int
  cqeFlags : BitVec 32 := 0
  object : TokenObject
  deriving DecidableEq, Repr

/-- What a request's code sets. -/
structure Prep where
  data : SetData := .unset
  /-- `IOSQE_CQE_SKIP_SUCCESS` -/
  cqeSkipSuccess : Bool := false
  message : Option Message := none
  deriving DecidableEq, Repr

/-! ## The requests of the source -/

/-- The operations of the classes derived from `UringAwaiter`. -/
def isAwaiterOp : Op → Bool
  | .timeout | .socket | .accept | .send | .receive | .close | .asyncCloseDirect => true
  | _ => false

/-- `parallel_spawn` of a task. -/
def sendTaskPrep (worker : Thread) : Prep where
  data := .new (.token { op := .ringTask })
  message := some
    { target := worker, len := some RingMsgType.ringTask.value, cqeFlags := netIoringCqeFTask
      object := .ringMsgTask () }

/-- The first request of `parallel_spawn` with a connection. -/
def sendFdPrep (worker : Thread) (fd : Int) : Prep where
  data := .new (.token { op := .ringFdSender })
  message := some
    { target := worker, len := none, object := .token { op := .ringFdReceiver, cqeRes := fd } }

/-- The second one. -/
def sendFuncTaskPrep (worker : Thread) (fd : Int) : Prep where
  cqeSkipSuccess := true
  message := some
    { target := worker, len := some RingMsgType.ringFuncTask.value, cqeFlags := netIoringCqeFTask
      object := .ringMsgConnTaskHelper () fd }

/-- The first request of a dispatch. -/
def dispatchFdPrep (worker : Thread) : Prep where
  cqeSkipSuccess := true
  message := some
    { target := worker, len := none, object := .token { op := .multishotAcceptFdReceiver } }

/-- The second one. -/
def dispatchTaskPrep (worker : Thread) : Prep where
  cqeSkipSuccess := true
  message := some
    { target := worker, len := some RingMsgType.multiAccTask.value, cqeFlags := netIoringCqeFTask
      object := .multishotAcceptTaskToken .multishotAcceptTaskReceiver () }

/-- `close_direct_socket`, and the third request of a dispatch. -/
def closePrep : Prep where
  cqeSkipSuccess := true

/-- `notify_main_ring_release_fd`. -/
def noticePrep (directFd : Int) : Prep where
  cqeSkipSuccess := true
  message := some
    { target := .main, len := some directFd, object := .token { op := .mainRingCloseDirectSocket } }

/-- `notify_workers_to_stop` and `notify_self_quit`. They set `IOSQE_CQE_SKIP_SUCCESS` before
`io_uring_prep_msg_ring`, which sets the flags anew. -/
def quitPrep (target : Thread) : Prep where
  message := some { target, len := some 0, object := .token { op := .quit } }

/-- The cancel request of a ring that has stopped. -/
def cancelPrep : Prep := {}

/-! ## The rings -/

structure RingSlots where
  entries : Nat
  sq : SubmissionQueue entries := .empty
  /-- the `user_data` of each slot -/
  userData : Nat → Option TokenAddr := fun _ => none

/-- A request that has not completed. -/
structure Inflight where
  number : Nat
  ring : Thread
  /-- the count of its slot -/
  place : Nat
  prep : Prep
  /-- as its slot has it -/
  userData : Option TokenAddr

structure Posted where
  ring : Thread
  source : Source
  res : Int
  flags : BitVec 32
  userData : Option TokenAddr
  /-- The request's code set the `user_data`. -/
  set : Bool

/-- A completion that reached the token branch of `handle_request`. -/
structure HandledToken where
  source : Source
  userData : Option TokenAddr
  /-- The object was not freed. -/
  live : Bool

structure TokenSystem where
  slots : Thread → RingSlots
  rings : Thread → Uring := fun _ => {}
  objects : TokenAddr → TokenObject :=
    fun _ => .token { op := .multishotAccept, chainTask := some () }
  next : Nat := 0
  inflight : List Inflight := []
  posted : List Posted := []
  freed : List TokenAddr := []
  /-- the awaiters whose task goes on, and whose frame may be gone -/
  ended : List TokenAddr := []
  handled : List HandledToken := []
  /-- An object was read that is gone, or is not of the type it is read as. -/
  undefined : Bool := false

inductive TokenEvent where
  | awaitOperation (t : Thread) (op : Op)
  | awaitMultishotAccept
  | parallelSpawn (worker : Nat)
  | parallelSpawnConnection (worker : Nat) (fd : Int)
  /-- a dispatch, with the worker picked for each descriptor -/
  | mshotAcceptSend (workers : List Nat)
  /-- `close_direct_socket` -/
  | closeDirectSocket (t : Thread)
  /-- `terminate` -/
  | terminate (workers : List Nat)
  /-- the cancel request of `process_batch` -/
  | cancelAny (t : Thread)
  | submit (t : Thread)
  /-- The kernel completes a request; `slot` is where it installs a descriptor. -/
  | complete (i : Nat) (res : Int) (flags : BitVec 32) (slot : Nat)
  /-- The kernel posts a completion of a multishot accept. -/
  | acceptCompletion (i : Nat) (res : Int) (flags : BitVec 32) (more : Bool)
  /-- `process_batch` of a ring handles a completion. -/
  | handle (i : Nat)
  /-- `process_all` of the main ring, in `terminate`, does. -/
  | drain (i : Nat)
  deriving DecidableEq, Repr

/-- The `user_data` that a request's code sets. -/
def SetData.addr (n : Nat) : SetData → Option TokenAddr
  | .unset => none
  | .awaiter _ => some (.awaiter n)
  | .multishot => some .multishot
  | .new _ => some (.object (.request n))

/-- Whose the completions of a request are. -/
def Inflight.source (p : Inflight) : Source :=
  match p.prep.data with
  | .multishot => .accept p.number
  | _ => .request p.number

namespace RingSlots

def getSqe (r : RingSlots) : Option (Nat × RingSlots) :=
  r.sq.getSqe.map fun (slot, sq) => (slot, { r with sq })

/-- `io_uring_sqe_set_data`, or nothing. -/
def setData (r : RingSlots) (slot : Nat) (addr : Option TokenAddr) : RingSlots :=
  match addr with
  | none => r
  | some a => { r with userData := Function.update r.userData slot (some a) }

def submit (r : RingSlots) : RingSlots := { r with sq := r.sq.submit }

end RingSlots

namespace TokenSystem

/-- The request was submitted. -/
def submitted (s : TokenSystem) (p : Inflight) : Bool := p.place < (s.slots p.ring).sq.sqHead

def init (cfg : Config) : TokenSystem where
  slots
    | .main => { entries := cfg.uringMainSqes }
    | .worker _ => { entries := cfg.uringWokersSqes }

/-- The objects after the ones that a request's code makes. -/
def newObjects (objects : TokenAddr → TokenObject) (n : Nat) (prep : Prep) :
    TokenAddr → TokenObject :=
  let objects :=
    match prep.data with
    | .awaiter op => Function.update objects (.awaiter n) (.token { op, chainTask := some () })
    | .new object => Function.update objects (.object (.request n)) object
    | .unset | .multishot => objects
  match prep.message with
  | some m => Function.update objects (.object (.message n)) m.object
  | none => objects

/-- A request is prepared on a ring. -/
def request (s : TokenSystem) (t : Thread) (prep : Prep) : Option TokenSystem :=
  (s.slots t).getSqe.map fun (slot, slots) =>
    let slots := slots.setData slot (prep.data.addr s.next)
    { s with
      slots := Function.update s.slots t slots
      objects := newObjects s.objects s.next prep
      next := s.next + 1
      inflight := s.inflight ++ [⟨s.next, t, (s.slots t).sq.sqeTail, prep, slots.userData slot⟩] }

/-- Several requests, one after the other. -/
def requests (s : TokenSystem) (t : Thread) (preps : List Prep) : Option TokenSystem :=
  preps.foldlM (fun s prep => s.request t prep) s

def submit (s : TokenSystem) (t : Thread) : TokenSystem :=
  { s with slots := Function.update s.slots t (s.slots t).submit }

/-- Requests, and a submit. -/
def submitAll (s : TokenSystem) (t : Thread) (preps : List Prep) : Option TokenSystem :=
  (s.requests t preps).map (·.submit t)

/-- The completion of a request itself. -/
def completion (p : Inflight) (res : Int) (flags : BitVec 32) : Posted :=
  ⟨p.ring, p.source, res, flags, p.userData, p.prep.data ≠ .unset⟩

/-- What a message posts. -/
def messagePosted (p : Inflight) (slot : Nat) : List Posted :=
  p.prep.message.toList.map fun (m : Message) =>
    ⟨m.target, .message p.number, m.len.getD slot, m.cqeFlags,
      some (.object (.message p.number)), true⟩

/-- What the kernel posts for a request: the message on success, and the completion, which is not
skipped on failure. -/
def completions (p : Inflight) (res : Int) (flags : BitVec 32) (slot : Nat) : List Posted :=
  (if 0 ≤ res then messagePosted p slot else []) ++
    if 0 ≤ res ∧ p.prep.cqeSkipSuccess then [] else [completion p res flags]

/-- The object that a `user_data` points to, unless it is gone. -/
def objectAt (s : TokenSystem) (a : TokenAddr) : Option TokenObject :=
  if a ∈ s.freed ∨ a ∈ s.ended then none else some (s.objects a)

/-- The completion as `handle_request` reads it. -/
def readCqe (s : TokenSystem) (q : Posted) : Option (Cqe Unit Unit Unit TokenAddr) :=
  match q.userData with
  | none => some ⟨q.res, q.flags, none⟩
  | some a => (s.objectAt a).map fun object => ⟨q.res, q.flags, some (a, object)⟩

/-- The completion reaches the token branch. -/
def Posted.reachesToken (q : Posted) : Bool :=
  !Uring.isTaskMessage (⟨q.res, q.flags, none⟩ : Cqe Unit Unit Unit TokenAddr)

def record (s : TokenSystem) (q : Posted) : List HandledToken :=
  if Posted.reachesToken q then
    [⟨q.source, q.userData, q.userData.all fun a => (s.objectAt a).isSome⟩]
  else []

/-- An effect of a completion of a ring. -/
def applyEffect (t : Thread) (s : TokenSystem) :
    Effect Unit Unit Unit TokenAddr → Option TokenSystem
  | .delete a => some { s with freed := s.freed ++ [a] }
  | .storeResult a _ _ => some { s with ended := s.ended ++ [a] }
  | .closeDirectSocket _ => s.submitAll t [closePrep]
  | .notifyMainRingReleaseFd directFd => s.submitAll t [noticePrep directFd]
  | .enqueue _ | .schedule _ _ | .setPending _ _ => some s

def handle (s : TokenSystem) (i : Nat) (q : Posted) : Option TokenSystem :=
  let taken : TokenSystem := { s with
    posted := s.posted.eraseIdx i, handled := s.handled ++ s.record q }
  let multishotToken : CompletionToken Unit := { op := .multishotAccept, chainTask := some () }
  match (s.readCqe q).bind ((s.rings q.ring).handleRequest multishotToken) with
  | none => some { taken with undefined := true }
  | some (ring, effects) =>
    effects.foldlM (applyEffect q.ring) { taken with rings := Function.update s.rings q.ring ring }

/-- The events of a run that is still defined. -/
def defined (s : TokenSystem) : TokenEvent → Option TokenSystem
  | .awaitOperation t op =>
    if isAwaiterOp op then s.request t { data := .awaiter op } else none
  | .awaitMultishotAccept => s.request .main { data := .multishot }
  | .parallelSpawn worker => s.submitAll .main [sendTaskPrep (.worker worker)]
  | .parallelSpawnConnection worker fd =>
    s.submitAll .main [sendFdPrep (.worker worker) fd, sendFuncTaskPrep (.worker worker) fd]
  | .mshotAcceptSend workers =>
    s.submitAll .main (workers.flatMap fun (worker : Nat) =>
      [dispatchFdPrep (.worker worker), dispatchTaskPrep (.worker worker), closePrep])
  | .closeDirectSocket t => s.submitAll t [closePrep]
  | .terminate workers =>
    s.submitAll .main (workers.map (fun (worker : Nat) => quitPrep (.worker worker)) ++
      [quitPrep .main])
  | .cancelAny t => if (s.rings t).stopped then s.submitAll t [cancelPrep] else none
  | .submit t => some (s.submit t)
  | .complete i res flags slot =>
    match s.inflight[i]? with
    | none => none
    | some p =>
      if s.submitted p ∧ p.prep.data ≠ .multishot ∧ flags &&& netIoringCqeFTask = 0 then
        some { s with
          inflight := s.inflight.eraseIdx i
          posted := s.posted ++ completions p res flags slot }
      else none
  | .acceptCompletion i res flags more =>
    match s.inflight[i]? with
    | none => none
    | some p =>
      if s.submitted p ∧ p.prep.data = .multishot ∧ flags &&& netIoringCqeFTask = 0 then
        some { s with
          inflight := if more then s.inflight else s.inflight.eraseIdx i
          posted := s.posted ++ [completion p res flags] }
      else none
  | .handle i =>
    match s.posted[i]? with
    | none => none
    -- `process_batch` handles nothing once the ring has stopped
    | some q => if (s.rings q.ring).stopped then none else s.handle i q
  | .drain i =>
    match s.posted[i]? with
    | none => none
    -- `process_all` also handles what is behind the `Quit` message
    | some q => if q.ring = .main then s.handle i q else none

def step (s : TokenSystem) (e : TokenEvent) : Option TokenSystem :=
  if s.undefined then none else s.defined e

end TokenSystem

end CoNet.Context
