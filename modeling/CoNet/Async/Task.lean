import CoNet.Io.Token
import CoNet.Lib.Calls

/-!
# Coroutine frames and promises (`async/task.hpp`, `promise_type.hpp`, `result.hpp`)

A `Task` coroutine is a frame with its promise. What the body does between two suspensions is a
value of `L`, the state from which it goes on; `V` are the values coroutines return, `X` the
exceptions and `O` the arguments of operations. A frame that is suspended holds how it goes on with
what it awaits.
-/

set_option autoImplicit false

namespace CoNet.Async

open CoNet.Io

/-- The address of a coroutine frame. -/
abbrev FrameId := Nat

/-- The list node of a `ScheduledTask`. -/
abbrev TaskId := Nat

/-- How a coroutine body ends, and what `await_resume` of its awaiter gives. -/
abbrev Outcome (V X : Type) := Calls.Outcome V X

/-- The union of `Result<T>`: raw storage, a constructed value, or one moved out and destroyed. -/
inductive Result (V : Type) where
  | raw
  | live (v : V)
  | destroyed
  deriving DecidableEq, Repr

/-- `BasicPromise`, with the `res_` of `TaskPromise<T>`. -/
structure Promise (V X : Type) where
  caller : Option FrameId := none
  exp : Option X := none
  thisChainTask : Option TaskId := none
  res : Result V := .raw
  deriving DecidableEq, Repr

/-- Where a coroutine is. -/
inductive Point (L V X : Type) where
  /-- at `initial_suspend` -/
  | initial (body : L)
  | executing
  /-- at the `co_await` of a `UringAwaiter`, whose token is in the frame; `id` (ghost) tells
  operations apart -/
  | atOperation (id : Nat) (token : CompletionToken TaskId) (k : Int → BitVec 32 → L)
  /-- at the `co_await` of a `Task`, whose temporary is in the frame -/
  | atTask (callee : FrameId) (k : Outcome V X → L)
  /-- at `final_suspend` -/
  | final

structure Frame (L V X : Type) where
  promise : Promise V X
  point : Point L V X

/-- What the body of a coroutine does next. -/
inductive Instr (L V X O : Type) where
  /-- `co_await` of an operation's awaiter -/
  | awaitOperation (op : Op) (arg : O) (k : Int → BitVec 32 → L)
  /-- `co_await` of a coroutine it calls -/
  | awaitTask (callee : L) (k : Outcome V X → L)
  /-- `co_spawn` of a coroutine -/
  | coSpawn (task : L) (k : L)
  | coReturn (v : V)
  /-- an exception leaves the body -/
  | throw (x : X)

/-- The `op_` of the awaiters derived from `UringAwaiter`. -/
def uringAwaiterOp : Op → Bool
  | .receive | .send | .accept | .socket | .timeout | .close | .asyncCloseDirect => true
  | _ => false

namespace Promise

variable {V X : Type}

/-- `return_value`. -/
def returnValue (p : Promise V X) (v : V) : Promise V X := { p with res := .live v }

/-- `unhandled_exception`. -/
def unhandledException (p : Promise V X) (x : X) : Promise V X := { p with exp := some x }

/-- `result`, and the promise it leaves. `none` is undefined behaviour: there is no value. -/
def result (p : Promise V X) : Option (Outcome V X × Promise V X) :=
  match p.exp with
  | some x => some (.thrown x, p)
  | none =>
    match p.res with
    | .live v => some (.value v, { p with res := .destroyed })
    | _ => none

/-- The promise when the body has ended. -/
def finished (p : Promise V X) : Outcome V X → Promise V X
  | .value v => p.returnValue v
  | .thrown x => p.unhandledException x

/-- Nothing was returned or thrown yet. -/
structure Unfinished (p : Promise V X) : Prop where
  exp : p.exp = none
  res : p.res = .raw

@[simp] theorem finished_caller (p : Promise V X) (out : Outcome V X) :
    (p.finished out).caller = p.caller := by
  cases out <;> rfl

@[simp] theorem finished_thisChainTask (p : Promise V X) (out : Outcome V X) :
    (p.finished out).thisChainTask = p.thisChainTask := by
  cases out <;> rfl

/-- **What a body ends with is what its awaiter gets.** -/
theorem result_finished {p : Promise V X} (h : p.Unfinished) (out : Outcome V X) :
    ∃ p', (p.finished out).result = some (out, p') := by
  cases out with
  | value v =>
    refine ⟨{ p with res := .destroyed }, ?_⟩
    simp only [finished, returnValue, result, h.exp]
  | thrown x =>
    refine ⟨{ p with exp := some x }, ?_⟩
    simp only [finished, unhandledException, result]

end Promise

end CoNet.Async
