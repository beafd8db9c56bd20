import Cando.Lib.Interleaving
import Mathlib.Tactic.Common

/-!
# Thread objects

`CdoThread` (`object/thread.h`) and everyone who acts on it: the trampoline that runs the thread
(`vm_thread_trampoline`, `vm/vm.c`), and the callers of `cdo_thread_wait` (`object/thread.c`), `thread.cancel`,
`thread.then` and `thread.catch` (`lib/thread.c`). A step is one load, store, compare-exchange, mutex or condition
operation, or a stretch of code that only its own thread can see. Callbacks are script functions of a type `φ`, values
have a type `β`; that a stored value turns out not to be a function is not modelled.
-/

namespace Cando

/-- `CdoThreadState`. -/
inductive ThreadState where
  | pending | running | done | error | cancelled
  deriving DecidableEq, Repr

/-- `cdo_thread_is_done`. -/
def ThreadState.isDone : ThreadState → Bool
  | .done | .error | .cancelled => true
  | .pending | .running => false

/-- `CDO_THREAD_MAX_RESULTS`. -/
def threadMaxResults : Nat := 8

/-- `CdoThread`. -/
structure CdoThread (φ β : Type) where
  state : ThreadState := .pending
  results : List β := []
  error : Option β := none
  thenFn : Option φ := none
  catchFn : Option φ := none
  deriving DecidableEq, Repr

/-- `thread.then` and `thread.catch` differ in the state that they wait for and in their field. -/
inductive Callback where
  | onDone | onError
  deriving DecidableEq, Repr

namespace Callback

/-- The state in which the callback is called. -/
def state : Callback → ThreadState
  | onDone => .done
  | onError => .error

variable {φ β : Type}

def get (t : CdoThread φ β) : Callback → Option φ
  | onDone => t.thenFn
  | onError => t.catchFn

def set (t : CdoThread φ β) (f : φ) : Callback → CdoThread φ β
  | onDone => { t with thenFn := some f }
  | onError => { t with catchFn := some f }

/-- What the callback is called with. -/
def args (t : CdoThread φ β) : Callback → List β
  | onDone => t.results
  | onError => t.error.toList

end Callback

/-- How the body of a thread ends. -/
inductive BodyEnd (β : Type) where
  | results (vals : List β)
  | error (e : β)
  /-- there is no function to run: the error is set, and no callback is looked for -/
  | invalid (e : β)
  deriving DecidableEq, Repr

namespace BodyEnd

variable {φ β : Type}

/-- The state that `cdo_thread_set_results` or `cdo_thread_set_error` stores. -/
def state : BodyEnd β → ThreadState
  | results _ => .done
  | error _ | invalid _ => .error

/-- The values that it writes. -/
def write (t : CdoThread φ β) : BodyEnd β → CdoThread φ β
  | results vals => { t with results := vals.take threadMaxResults }
  | error e | invalid e => { t with error := some e }

end BodyEnd

/-- Where `vm_thread_trampoline` is; in the middle stand the steps of `cdo_thread_set_results` and
`cdo_thread_set_error`. -/
inductive TrampolinePc (φ β : Type) where
  | begun
  | body
  | lock (e : BodyEnd β)
  | write (e : BodyEnd β)
  | store (e : BodyEnd β)
  | broadcast (e : BodyEnd β)
  | unlock (e : BodyEnd β)
  | load
  | lockCallback (final : ThreadState)
  | readCallback (final : ThreadState)
  | unlockCallback (cb : Option (Callback × φ))
  | call (k : Callback) (f : φ)
  | ended
  deriving DecidableEq, Repr

/-- Where a caller is. -/
inductive CallerPc (φ β : Type) where
  | idle
  /-- `cdo_thread_wait`: the lock, the two loads of the loop condition, `cando_os_cond_wait` -/
  | waitLock
  | waitRunning
  | waitPending
  | waitCond
  | asleep
  | waitUnlock
  | waited
  /-- `thread_cancel`: the two compare-exchanges and the broadcast -/
  | cancelPending
  | cancelRunning
  | cancelLock
  | cancelBroadcast
  | cancelUnlock
  | cancelReturned (changed : Bool)
  /-- `thread_then` and `thread_catch` -/
  | registerLock (k : Callback) (f : φ)
  | registerLoad (k : Callback) (f : φ)
  | registerCopy (k : Callback) (f : φ)
  | registerStore (k : Callback) (f : φ)
  | registerUnlock
  | unlockToCall (k : Callback) (f : φ) (args : List β)
  | call (k : Callback) (f : φ) (args : List β)
  | registered
  deriving DecidableEq, Repr

/-- What a caller can call. -/
inductive ThreadCall (φ : Type) where
  | wait
  | cancel
  | register (k : Callback) (f : φ)
  deriving DecidableEq, Repr

/-- The parties of a thread object: its trampoline and its callers. -/
inductive Party (ι : Type) where
  | trampoline
  | caller (i : ι)
  deriving DecidableEq, Repr

/-- What the parties share: the object with its `done_mutex` and `done_cond`, and, for the statements only, the
callbacks that were registered and those that were called, in order. -/
structure SharedThread (ι φ β : Type) where
  thread : CdoThread φ β := {}
  mutex : Option (Party ι) := none
  sleeping : ι → Bool := fun _ => false
  registered : Callback → List φ := fun _ => []
  called : Callback → List (φ × List β) := fun _ => []

namespace SharedThread

variable {ι φ β : Type} (s : SharedThread ι φ β)

def store (st : ThreadState) : SharedThread ι φ β := { s with thread := { s.thread with state := st } }

/-- `cando_os_mutex_lock`: possible when nobody holds the mutex. -/
def lock (p : Party ι) : Option (SharedThread ι φ β) :=
  match s.mutex with
  | none => some { s with mutex := some p }
  | some _ => none

def unlock : SharedThread ι φ β := { s with mutex := none }

/-- `cando_os_cond_broadcast`. -/
def broadcast : SharedThread ι φ β := { s with sleeping := fun _ => false }

/-- A registration takes effect. -/
def register (k : Callback) (f : φ) : SharedThread ι φ β :=
  { s with registered := Function.update s.registered k (s.registered k ++ [f]) }

def call (k : Callback) (f : φ) (args : List β) : SharedThread ι φ β :=
  { s with called := Function.update s.called k (s.called k ++ [(f, args)]) }

end SharedThread

/-- A thread object with all that go on around it. -/
structure ThreadSystem (ι φ β : Type) where
  shared : SharedThread ι φ β := {}
  trampoline : TrampolinePc φ β := .begun
  callers : ι → CallerPc φ β := fun _ => .idle

/-- An action: a step of the trampoline, whose body ends in some way, a call, a step of a caller, or a wake-up of
`cando_os_cond_wait` without a broadcast. -/
inductive ThreadAct (ι φ β : Type) where
  | trampoline
  | bodyEnds (e : BodyEnd β)
  | call (i : ι) (c : ThreadCall φ)
  | caller (i : ι)
  | wakeup (i : ι)
  deriving DecidableEq, Repr

section Steps

variable {ι φ β : Type} [DecidableEq ι]

/-- The callback that the trampoline finds for a final state. -/
def findCallback (t : CdoThread φ β) : ThreadState → Option (Callback × φ)
  | .done => t.thenFn.map (.onDone, ·)
  | .error => t.catchFn.map (.onError, ·)
  | _ => none

/-- `vm_thread_trampoline`, from one step to the next; the body ends by an action of its own. -/
def trampolineStep (s : SharedThread ι φ β) : TrampolinePc φ β → Option (TrampolinePc φ β × SharedThread ι φ β)
  | .begun => some (.body, s.store .running)
  | .body => none
  | .lock e => (s.lock .trampoline).map (.write e, ·)
  | .write e => some (.store e, { s with thread := e.write s.thread })
  | .store e => some (.broadcast e, s.store e.state)
  | .broadcast e => some (.unlock e, s.broadcast)
  | .unlock (.invalid _) => some (.ended, s.unlock)
  | .unlock _ => some (.load, s.unlock)
  | .load => some (.lockCallback s.thread.state, s)
  | .lockCallback final => (s.lock .trampoline).map (.readCallback final, ·)
  | .readCallback final => some (.unlockCallback (findCallback s.thread final), s)
  | .unlockCallback (some (k, f)) => some (.call k f, s.unlock)
  | .unlockCallback none => some (.ended, s.unlock)
  | .call k f => some (.ended, s.call k f (k.args s.thread))
  | .ended => none

/-- The first step of a call. -/
def callerBegin : ThreadCall φ → CallerPc φ β
  | .wait => .waitLock
  | .cancel => .cancelPending
  | .register k f => .registerLock k f

/-- `cdo_thread_wait`, `thread_cancel`, `thread_then` and `thread_catch`, from one step to the next. -/
def callerStep (i : ι) (s : SharedThread ι φ β) : CallerPc φ β → Option (CallerPc φ β × SharedThread ι φ β)
  | .idle => none
  | .waitLock => (s.lock (.caller i)).map (.waitRunning, ·)
  | .waitRunning => some (if s.thread.state = .running then .waitCond else .waitPending, s)
  | .waitPending => some (if s.thread.state = .pending then .waitCond else .waitUnlock, s)
  -- `cando_os_cond_wait` gives the mutex back and falls asleep in one step
  | .waitCond => some (.asleep, { s.unlock with sleeping := Function.update s.sleeping i true })
  | .asleep => if s.sleeping i then none else (s.lock (.caller i)).map (.waitRunning, ·)
  | .waitUnlock => some (.waited, s.unlock)
  | .waited => some (.idle, s)
  | .cancelPending =>
    if s.thread.state = .pending then some (.cancelLock, s.store .cancelled) else some (.cancelRunning, s)
  | .cancelRunning =>
    if s.thread.state = .running then some (.cancelLock, s.store .cancelled) else some (.cancelReturned false, s)
  | .cancelLock => (s.lock (.caller i)).map (.cancelBroadcast, ·)
  | .cancelBroadcast => some (.cancelUnlock, s.broadcast)
  | .cancelUnlock => some (.cancelReturned true, s.unlock)
  | .cancelReturned _ => some (.idle, s)
  | .registerLock k f => (s.lock (.caller i)).map (.registerLoad k f, ·)
  | .registerLoad k f =>
    if s.thread.state = k.state then some (.registerCopy k f, s.register k f)
    else if s.thread.state = .pending ∨ s.thread.state = .running then some (.registerStore k f, s.register k f)
    else some (.registerUnlock, s.register k f)
  | .registerCopy k f => some (.unlockToCall k f (k.args s.thread), s)
  | .registerStore k f => some (.registerUnlock, { s with thread := k.set s.thread f })
  | .registerUnlock => some (.registered, s.unlock)
  | .unlockToCall k f args => some (.call k f args, s.unlock)
  | .call k f args => some (.registered, s.call k f args)
  | .registered => some (.idle, s)

/-- The step of an action. -/
def threadStep (S : ThreadSystem ι φ β) : ThreadAct ι φ β → Option (ThreadSystem ι φ β)
  | .trampoline => (trampolineStep S.shared S.trampoline).map fun (pc, s) => { S with trampoline := pc, shared := s }
  | .bodyEnds e =>
    match S.trampoline with
    | .body => some { S with trampoline := .lock e }
    | _ => none
  | .call i c =>
    match S.callers i with
    | .idle => some { S with callers := Function.update S.callers i (callerBegin c) }
    | _ => none
  | .caller i =>
    (callerStep i S.shared (S.callers i)).map fun (pc, s) =>
      { S with callers := Function.update S.callers i pc, shared := s }
  | .wakeup i => some { S with shared := { S.shared with sleeping := Function.update S.shared.sleeping i false } }

/-- The interleavings of the parties of a thread object. -/
def threads : Interleaving (ThreadSystem ι φ β) (ThreadAct ι φ β) where
  step := threadStep

end Steps

end Cando
