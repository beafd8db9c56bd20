import Cando.Lib.Interleaving
import Mathlib.Tactic.Common

/-!
# A process and its threads

The threads that live around a root VM: those that `OP_THREAD` spawns, to any depth (`vm_thread_trampoline`,
`vm/vm.c`), and those that serve HTTP connections (`conn_thread_fn`, `lib/http.c`). Each runs a VM of its own, a child
of the VM that spawned it or that created the server: it copies the parent's pointers when it begins, and a spawned
thread comes back to the parent for the registry when it ends. The registry counts the spawned threads;
`cando_vm_wait_all_threads` waits until it counts none, and `cando_close` destroys the root VM after such a wait.
-/

namespace Cando

/-- A VM: the root, or that of a thread. -/
abbrev VmId := Option Nat

/-- Where a VM is: in a script, or in the part of `OP_THREAD` from the registration on. -/
inductive VmPc where
  | script
  | spawnLock
  | spawnCount
  | spawnUnlock
  | create (registered : Bool)
  | undoLock
  | undoCount
  | undoBroadcast
  | undoUnlock
  deriving DecidableEq, Repr

/-- What a thread is for: spawned, with or without a registration, or for a connection of the server in a slot. -/
inductive ThreadKind where
  | spawned (registered : Bool)
  | connection (slot : Nat)
  deriving DecidableEq, Repr

/-- Where a thread is: before `cando_vm_init_child`, while its VM lives, and from `cando_vm_destroy` on. -/
inductive OsPc where
  | begun
  | accepted
  | vm (pc : VmPc)
  | destroyed
  | deregLock
  | deregCount
  | deregBroadcast
  | deregUnlock
  | exited
  deriving DecidableEq, Repr

/-- A thread, with `parent_vm` and the registry pointer of its VM: `false` is `NULL`. -/
structure OsThread where
  kind : ThreadKind
  parent : VmId
  pc : OsPc := .begun
  registry : Bool := false
  deriving DecidableEq, Repr

/-- Where the thread of the root VM is; a wait belongs to `cando_vm_exec` or to `cando_close`. -/
inductive RootPc where
  | vm (pc : VmPc)
  | waitLock (close : Bool)
  | waitCheck (close : Bool)
  | waitCond (close : Bool)
  | asleep (close : Bool)
  | waitUnlock (close : Bool)
  | waited (close : Bool)
  | closed
  deriving DecidableEq, Repr

/-- `HTTP_MAX_SERVERS`. -/
def httpMaxServers : Nat := 32

/-- A slot of `g_servers`. -/
structure ServerSlot where
  inUse : Bool := false
  parent : VmId := none
  deriving DecidableEq, Repr

/-- The process: `count`, `mutex` and `cond` of the registry among it. `stale` records that a thread has read a VM, or
the tables that the root VM owns, after they were destroyed. -/
structure Process where
  root : RootPc := .vm .script
  threads : List OsThread := []
  servers : Nat → ServerSlot := fun _ => {}
  count : Nat := 0
  mutex : Option VmId := none
  sleeping : Bool := false
  stale : Bool := false

namespace Process

variable (S : Process)

def setThread (k : Nat) (t : OsThread) : Process := { S with threads := S.threads.set k t }

/-- Where a VM that lives is. -/
def vmPc : VmId → Option VmPc
  | none => match S.root with
    | .vm pc => some pc
    | _ => none
  | some k => match S.threads[k]? with
    | some ⟨_, _, .vm pc, _⟩ => some pc
    | _ => none

def setVmPc (pc : VmPc) : VmId → Process
  | none => { S with root := .vm pc }
  | some k => match S.threads[k]? with
    | some t => S.setThread k { t with pc := .vm pc }
    | none => S

/-- The VM has been set up and not been destroyed. -/
def alive : VmId → Bool
  | none => S.root != .closed
  | some k => match S.threads[k]? with
    | some ⟨_, _, .vm _, _⟩ => true
    | _ => false

/-- `vm->thread_registry`; `cando_vm_destroy` leaves `NULL`. -/
def registryOf : VmId → Bool
  | none => S.root != .closed
  | some k => match S.threads[k]? with
    | some ⟨_, _, .vm _, registry⟩ => registry
    | _ => false

/-- A read of a VM by a thread. -/
def readVm (p : VmId) : Process := { S with stale := S.stale || !S.alive p }

/-- A read of what the root VM owns: the globals, the handles, the registry. -/
def readTables : Process := S.readVm none

/-- `cando_os_mutex_lock` on the registry. -/
def lock (p : VmId) : Option Process :=
  match S.mutex with
  | none => some { S.readTables with mutex := some p }
  | some _ => none

def unlock : Process := { S.readTables with mutex := none }

/-- `cando_os_cond_broadcast` on the registry: only the root VM waits. -/
def broadcast : Process := { S.readTables with sleeping := false }

/-- The count is a `u32`. -/
def setCount (n : Nat) : Process := { S.readTables with count := n % 4294967296 }

/-- The threads that the operating system runs. -/
def live : Nat := (S.threads.map fun t => if t.pc = .exited then 0 else 1).sum

/-! ### Steps -/

/-- A step of `OP_THREAD`, in VM `p`. -/
def vmStep (p : VmId) : VmPc → Option Process
  | .script => none
  | .spawnLock => (S.lock p).map (·.setVmPc .spawnCount p)
  | .spawnCount => some ((S.setCount (S.count + 1)).setVmPc .spawnUnlock p)
  | .spawnUnlock => some (S.unlock.setVmPc (.create true) p)
  | .create _ => none
  | .undoLock => (S.lock p).map (·.setVmPc .undoCount p)
  | .undoCount => some ((S.setCount (S.count + 4294967295)).setVmPc .undoBroadcast p)
  | .undoBroadcast => some (S.broadcast.setVmPc .undoUnlock p)
  | .undoUnlock => some (S.unlock.setVmPc .script p)

/-- `cando_vm_init_child`. -/
def initChild (k : Nat) (t : OsThread) (parent : VmId) : Process :=
  (S.readVm parent).setThread k { t with parent, pc := .vm .script, registry := S.registryOf parent }

/-- A step of thread `k`. -/
def osStep (k : Nat) (t : OsThread) : Option Process :=
  match t.pc, t.kind with
  | .begun, .spawned _ => some (S.initChild k t t.parent)
  | .begun, .connection slot =>
    if (S.servers slot).inUse then some (S.setThread k { t with pc := .accepted })
    else some (S.setThread k { t with pc := .exited })
  | .accepted, .connection slot => some (S.initChild k t (S.servers slot).parent)
  | .accepted, .spawned _ => none
  | .vm pc, _ => S.vmStep (some k) pc
  | .destroyed, .spawned _ =>
    if S.registryOf t.parent then some ((S.readVm t.parent).setThread k { t with pc := .deregLock })
    else some ((S.readVm t.parent).setThread k { t with pc := .exited })
  | .destroyed, .connection _ => some (S.setThread k { t with pc := .exited })
  | .deregLock, _ => (S.lock (some k)).map (·.setThread k { t with pc := .deregCount })
  | .deregCount, _ =>
    some ((if S.count > 0 then S.setCount (S.count - 1) else S.readTables).setThread k { t with pc := .deregBroadcast })
  | .deregBroadcast, _ => some (S.broadcast.setThread k { t with pc := .deregUnlock })
  | .deregUnlock, _ => some (S.unlock.setThread k { t with pc := .exited })
  | .exited, _ => none

/-- A step of the root VM's thread: `cando_vm_wait_all_threads`, and what follows it. -/
def rootStep : Option Process :=
  match S.root with
  | .vm pc => S.vmStep none pc
  | .waitLock c => (S.lock none).map fun S => { S with root := .waitCheck c }
  | .waitCheck c => some { S with root := if S.count > 0 then .waitCond c else .waitUnlock c }
  | .waitCond c => some { S.unlock with root := .asleep c, sleeping := true }
  | .asleep c => if S.sleeping then none else (S.lock none).map fun S => { S with root := .waitCheck c }
  | .waitUnlock c => some { S.unlock with root := .waited c }
  | .waited false => some { S with root := .vm .script }
  | .waited true => some { S with root := .closed }
  | .closed => none

end Process

/-- An action: a step of a thread, what a script may do, how `cando_os_thread_create` ends, the end of a thread's
script, a wait, what servers do, and a wake-up without a broadcast. -/
inductive ProcessAct where
  | step (p : VmId)
  | spawn (p : VmId)
  | created (p : VmId) (ok : Bool)
  | finish (k : Nat)
  | wait (close : Bool)
  | use (p : VmId)
  | createServer (p : VmId) (slot : Nat)
  | closeServer (p : VmId) (slot : Nat)
  | accept (slot : Nat)
  | wakeup
  deriving DecidableEq, Repr

namespace Process

/-- The step of an action, when the operating system runs up to `limit` threads. -/
def next (limit : Nat) (S : Process) : ProcessAct → Option Process
  | .step none => S.rootStep
  | .step (some k) => S.threads[k]?.bind (S.osStep k)
  | .spawn p =>
    if S.vmPc p = some .script then
      some (S.readTables.setVmPc (if S.registryOf p then .spawnLock else .create false) p)
    else none
  | .created p true =>
    match S.vmPc p with
    | some (.create registered) =>
      if S.live < limit then
        let S' := S.setVmPc .script p
      some { S' with threads := S'.threads ++ [⟨.spawned registered, p, .begun, false⟩] }
      else none
    | _ => none
  | .created p false =>
    match S.vmPc p with
    | some (.create registered) => some (S.setVmPc (if registered then .undoLock else .script) p)
    | _ => none
  | .finish k =>
    match S.threads[k]? with
    | some t => if t.pc = .vm .script then some (S.setThread k { t with pc := .destroyed }) else none
    | none => none
  | .wait close => if S.root = .vm .script then some { S with root := .waitLock close } else none
  | .use p => if S.vmPc p = some .script then some S.readTables else none
  | .createServer p slot =>
    -- `server_alloc` takes the first free slot
    if S.vmPc p = some .script ∧ slot < httpMaxServers ∧ (S.servers slot).inUse = false ∧
        ∀ j < slot, (S.servers j).inUse = true then
      some { S.readTables with servers := Function.update S.servers slot ⟨true, p⟩ }
    else none
  | .closeServer p slot =>
    if S.vmPc p = some .script then
      some { S.readTables with servers := Function.update S.servers slot { S.servers slot with inUse := false } }
    else none
  | .accept slot =>
    if (S.servers slot).inUse = true ∧ S.live < limit then
      some { S with threads := S.threads ++ [⟨.connection slot, none, .begun, false⟩] }
    else none
  | .wakeup => some { S with sleeping := false }

end Process

/-- The interleavings of a process. -/
def processes (limit : Nat) : Interleaving Process ProcessAct where
  step := Process.next limit

end Cando
