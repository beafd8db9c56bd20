import Cando.Thread.Process

/-!
# The thread registry

What the registry counts. Every registration and every end of a thread passes through the count once, as long as an
ending thread still finds the registry: it asks its parent VM for it, and a VM that was destroyed has no registry. The
invariant covers the critical sections of the registry's mutex, too.
-/

namespace Cando

open Interleaving

/-- A spawn that has been counted and has neither led to a thread nor been undone. -/
def VmPc.weight : VmPc → Nat
  | .spawnUnlock | .create true | .undoLock | .undoCount => 1
  | _ => 0

/-- The place of a thread from its registration to its deregistration. -/
def OsPc.counted : OsPc → Bool
  | .deregBroadcast | .deregUnlock | .exited => false
  | _ => true

def OsPc.weight : OsPc → Nat
  | .vm pc => pc.weight
  | _ => 0

/-- The registrations that a thread stands for: its own, and the one that it is making. -/
def OsThread.weight (t : OsThread) : Nat :=
  (if t.kind = .spawned true ∧ t.pc.counted = true then 1 else 0) + t.pc.weight

def RootPc.weight : RootPc → Nat
  | .vm pc => pc.weight
  | _ => 0

/-- The threads that have been registered and have not been deregistered; one that is being created counts. -/
def Process.registered (S : Process) : Nat := S.root.weight + (S.threads.map OsThread.weight).sum

/-- The VM that a thread is about to read as its parent. -/
def Process.parentRead (S : Process) (t : OsThread) : Option VmId :=
  match t.kind, t.pc with
  | .spawned _, .begun | .spawned _, .destroyed => some t.parent
  | .connection slot, .accepted => some (S.servers slot).parent
  | _, _ => none

/-- The next step reads a parent VM that has been destroyed. -/
def Orphaned (S : Process) (a : ProcessAct) : Prop :=
  ∃ k t p, a = .step (some k) ∧ S.threads[k]? = some t ∧ S.parentRead t = some p ∧ S.alive p = false

/-! ### Critical sections -/

def VmPc.holds : VmPc → Bool
  | .spawnCount | .spawnUnlock | .undoCount | .undoBroadcast | .undoUnlock => true
  | _ => false

def OsPc.holds : OsPc → Bool
  | .vm pc => pc.holds
  | .deregCount | .deregBroadcast | .deregUnlock => true
  | _ => false

def RootPc.holds : RootPc → Bool
  | .vm pc => pc.holds
  | .waitCheck _ | .waitCond _ | .waitUnlock _ => true
  | _ => false

def Process.holds (S : Process) : VmId → Bool
  | none => S.root.holds
  | some k => S.threads[k]?.elim false (·.pc.holds)

/-! ### The invariant -/

/-- A thread that was registered if it was spawned, and whose VM registers the threads that it spawns. The condition
says whether there may be connections. -/
structure OsThread.Fine (connections : Prop) (t : OsThread) : Prop where
  kind : t.kind = .spawned true ∨ connections ∧ ∃ slot, t.kind = .connection slot
  vm : ∀ pc, t.pc = .vm pc → t.registry = true ∧ pc ≠ .create false
  dereg : t.pc = .deregLock ∨ t.pc = .deregCount → t.kind = .spawned true

/-- What the registry keeps. -/
structure Registers (limit : Nat) (connections : Prop) (S : Process) : Prop where
  fine : ∀ (k : Nat) (t : OsThread), S.threads[k]? = some t → t.Fine connections
  root : S.root ≠ .vm (.create false)
  live : S.live ≤ limit
  count : S.count = S.registered
  owned : Owned S.holds S.mutex

section Weights

variable {S S' : Process} {limit k : Nat} {C : Prop} {t t' : OsThread}

lemma VmPc.weight_le (pc : VmPc) : pc.weight ≤ 1 := by
  cases pc with
  | create registered => cases registered <;> decide
  | _ => decide

lemma RootPc.weight_le (r : RootPc) : r.weight ≤ 1 := by
  cases r with
  | vm pc => exact pc.weight_le
  | _ => exact Nat.zero_le _

lemma OsThread.weight_le (t : OsThread) : t.weight ≤ 2 * if t.pc = .exited then 0 else 1 := by
  unfold OsThread.weight
  by_cases gone : t.pc = .exited
  · rw [gone]
    simp [OsPc.counted, OsPc.weight]
  · rw [if_neg gone]
    have vm : t.pc.weight ≤ 1 := by
      cases t.pc with
      | vm pc => exact pc.weight_le
      | _ => exact Nat.zero_le _
    split <;> omega

/-- There are not more registrations than a `u32` can count. -/
lemma Process.registered_lt (live : S.live ≤ limit) (small : limit < 2147483648) : S.registered < 4294967296 := by
  have root := S.root.weight_le
  have threads : (S.threads.map OsThread.weight).sum ≤ 2 * S.live := sum_le_mul OsThread.weight_le
  rw [Process.registered]
  omega

/-- One thread moves. -/
lemma Process.owned_thread (o : Owned S.holds S.mutex) (there : S.threads[k]? = some t) (root : S'.root = S.root)
    (threads : S'.threads = S.threads.set k t')
    (mutex : MutexStep (some k) S.mutex t.pc.holds S'.mutex t'.pc.holds) : Owned S'.holds S'.mutex := by
  have inside : k < S.threads.length := (List.getElem?_eq_some_iff.mp there).1
  have own : S.holds (some k) = t.pc.holds := by simp only [Process.holds, there, Option.elim]
  have own' : S'.holds (some k) = t'.pc.holds := by
    simp only [Process.holds, threads, List.getElem?_set_self inside, Option.elim]
  refine o.step (p := some k) (by rw [own, own']; exact mutex) fun q ne => ?_
  cases q with
  | none => simp only [Process.holds, root]
  | some j =>
    have other : k ≠ j := fun e => ne (congrArg some e.symm)
    simp only [Process.holds, threads, List.getElem?_set_ne other]

lemma Registers.thread (h : Registers limit C S) (small : limit < 2147483648) (there : S.threads[k]? = some t)
    (root : S'.root = S.root) (threads : S'.threads = S.threads.set k t') (fine : t'.Fine C)
    (gone : t.pc = .exited → t'.pc = .exited) (mutex : MutexStep (some k) S.mutex t.pc.holds S'.mutex t'.pc.holds)
    (count : ∀ n, n < 4294967296 → n + t.weight = S.count + t'.weight → S'.count = n) : Registers limit C S' := by
  have moved := sum_set (y := t') (w := OsThread.weight) there
  have lives := sum_set (y := t') (w := fun t : OsThread => if t.pc = .exited then 0 else 1) there
  have live : S'.live ≤ limit := by
    have before := h.live
    rw [Process.live] at before ⊢
    rw [threads]
    by_cases e : t.pc = .exited
    · rw [if_pos e, if_pos (gone e)] at lives
      omega
    · rw [if_neg e] at lives
      split at lives <;> omega
  refine ⟨?_, root ▸ h.root, live, ?_, Process.owned_thread h.owned there root threads mutex⟩
  · rw [threads]
    exact forall_set (p := fun _ t => OsThread.Fine C t) fine fun j z _ => h.fine j z
  · refine count _ (Process.registered_lt live small) ?_
    rw [h.count, Process.registered, Process.registered, root, threads]
    omega

/-- The root VM's thread moves. -/
lemma Registers.main {r : RootPc} (h : Registers limit C S) (small : limit < 2147483648) (root : S'.root = r)
    (threads : S'.threads = S.threads) (fine : r ≠ .vm (.create false))
    (mutex : MutexStep none S.mutex S.root.holds S'.mutex r.holds)
    (count : ∀ n, n < 4294967296 → n + S.root.weight = S.count + r.weight → S'.count = n) : Registers limit C S' := by
  have live : S'.live ≤ limit := by
    have before := h.live
    rw [Process.live] at before ⊢
    rw [threads]
    exact before
  refine ⟨threads ▸ h.fine, root ▸ fine, live, count _ (Process.registered_lt live small) ?_, ?_⟩
  · rw [h.count, Process.registered, Process.registered, root, threads]
    omega
  · have own : S'.holds none = r.holds := by rw [Process.holds, root]
    refine h.owned.step (p := none) (by rw [own]; exact mutex) fun q ne => ?_
    cases q with
    | none => exact absurd rfl ne
    | some j => simp only [Process.holds, threads]

lemma Process.vmPc_thread {pc : VmPc} (h : S.vmPc (some k) = some pc) :
    ∃ t, S.threads[k]? = some t ∧ t.pc = .vm pc := by
  simp only [Process.vmPc] at h
  split at h
  case h_1 kind parent pc' registry there =>
    cases h
    exact ⟨_, there, rfl⟩
  case h_2 => cases h

lemma Process.vmPc_root {pc : VmPc} (h : S.vmPc none = some pc) : S.root = .vm pc := by
  simp only [Process.vmPc] at h
  split at h
  case h_1 pc' root =>
    cases h
    exact root
  case h_2 => cases h

/-- A VM moves. -/
lemma Registers.vm {T : Process} {p : VmId} {pc pc' : VmPc} (h : Registers limit C S) (small : limit < 2147483648)
    (here : S.vmPc p = some pc) (root : T.root = S.root) (threads : T.threads = S.threads) (fine : pc' ≠ .create false)
    (mutex : MutexStep p S.mutex pc.holds T.mutex pc'.holds)
    (count : ∀ n, n < 4294967296 → n + pc.weight = S.count + pc'.weight → T.count = n) :
    Registers limit C (T.setVmPc pc' p) := by
  cases p with
  | none =>
    have at_vm := Process.vmPc_root here
    refine h.main small (r := .vm pc') rfl threads (fun e => fine (RootPc.vm.inj e)) ?_ fun n b e => ?_
    · rw [at_vm]
      exact mutex
    · rw [at_vm] at e
      exact count n b e
  | some k =>
    obtain ⟨t, there, at_vm⟩ := Process.vmPc_thread here
    have set : T.setVmPc pc' (some k) = T.setThread k { t with pc := .vm pc' } := by
      simp only [Process.setVmPc, threads, there]
    have kept := h.fine k t there
    have weights : OsThread.weight { t with pc := .vm pc' } + pc.weight = t.weight + pc'.weight := by
      simp only [OsThread.weight, at_vm, OsPc.counted, OsPc.weight]
      omega
    have threads' : (T.setThread k { t with pc := .vm pc' }).threads = S.threads.set k { t with pc := .vm pc' } := by
      rw [Process.setThread, threads]
    rw [set]
    refine h.thread small there root threads' ⟨kept.kind, fun pc₁ e => ?_, fun e => e.elim nofun nofun⟩ (fun gone => ?_)
      ?_ fun n b e => count n b ?_
    · cases e
      exact ⟨(kept.vm pc at_vm).1, fine⟩
    · rw [at_vm] at gone
      cases gone
    · rw [at_vm]
      exact mutex
    · omega

end Weights

section Steps

variable {S S' : Process} {limit : Nat} {C : Prop} {p : VmId}

lemma Process.lock_some (h : S.lock p = some S') : S.mutex = none ∧ S' = { S.readTables with mutex := some p } := by
  unfold Process.lock at h
  split at h
  case h_1 free => exact ⟨free, (Option.some.inj h).symm⟩
  case h_2 => cases h

lemma Process.setCount_count (n : Nat) : (S.setCount n).count = n % 4294967296 := rfl

lemma Process.setCount_frame (n : Nat) : (S.setCount n).root = S.root ∧ (S.setCount n).threads = S.threads ∧
    (S.setCount n).mutex = S.mutex :=
  ⟨rfl, rfl, rfl⟩

/-- A step of `OP_THREAD`. -/
lemma Registers.vmStep {pc : VmPc} (h : Registers limit C S) (small : limit < 2147483648) (here : S.vmPc p = some pc)
    (step : S.vmStep p pc = some S') : Registers limit C S' := by
  cases pc with
  | script | create => cases step
  | spawnLock =>
    obtain ⟨T, locked, rfl⟩ := Option.map_eq_some_iff.mp step
    obtain ⟨free, rfl⟩ := Process.lock_some locked
    exact h.vm small here rfl rfl nofun (free ▸ .take) fun n _ e => e.symm
  | undoLock =>
    obtain ⟨T, locked, rfl⟩ := Option.map_eq_some_iff.mp step
    obtain ⟨free, rfl⟩ := Process.lock_some locked
    exact h.vm small here rfl rfl nofun (free ▸ .take) fun n _ e => (Nat.add_right_cancel e).symm
  | spawnCount =>
    cases step
    obtain ⟨root, threads, mutex⟩ := S.setCount_frame (S.count + 1)
    refine h.vm small here root threads nofun ?_ fun n b e => ?_
    · rw [mutex]
      exact .keep _ _
    · have e : n = S.count + 1 := e
      rw [Process.setCount_count]
      omega
  | undoCount =>
    cases step
    obtain ⟨root, threads, mutex⟩ := S.setCount_frame (S.count + 4294967295)
    refine h.vm small here root threads nofun ?_ fun n b e => ?_
    · rw [mutex]
      exact .keep _ _
    · have e : n + 1 = S.count := e
      rw [Process.setCount_count]
      omega
  | undoBroadcast =>
    cases step
    exact h.vm small here rfl rfl nofun (.keep _ _) fun n _ e => (Nat.add_right_cancel e).symm
  | spawnUnlock | undoUnlock =>
    cases step
    exact h.vm small here rfl rfl nofun (.release _) fun n _ e => (Nat.add_right_cancel e).symm

/-- Nothing moves. -/
lemma Registers.congr (h : Registers limit C S) (root : S'.root = S.root) (threads : S'.threads = S.threads)
    (mutex : S'.mutex = S.mutex) (count : S'.count = S.count) : Registers limit C S' := by
  refine ⟨threads ▸ h.fine, root ▸ h.root, ?_, ?_, ?_⟩
  · have live := h.live
    rw [Process.live] at live ⊢
    rw [threads]
    exact live
  · rw [count, h.count, Process.registered, Process.registered, root, threads]
  · have same : S'.holds = S.holds := by
      funext q
      cases q with
      | none => rw [Process.holds, Process.holds, root]
      | some j => rw [Process.holds, Process.holds, threads]
    rw [same, mutex]
    exact h.owned

/-- A VM that lives has the registry. -/
lemma Registers.registryOf (h : Registers limit C S) (alive : S.alive p = true) : S.registryOf p = true := by
  cases p with
  | none => exact alive
  | some k =>
    simp only [Process.alive] at alive
    split at alive
    case h_1 kind parent pc registry there =>
      simp only [Process.registryOf, there]
      exact ((h.fine k _ there).vm pc rfl).1
    case h_2 => cases alive

lemma Process.vmPc_alive {pc : VmPc} (here : S.vmPc p = some pc) : S.alive p = true := by
  cases p with
  | none =>
    rw [Process.alive, Process.vmPc_root here]
    rfl
  | some k =>
    obtain ⟨⟨kind, parent, pc', registry⟩, there, rfl⟩ := Process.vmPc_thread here
    simp only [Process.alive, there]

/-- A thread that deregisters is counted. -/
lemma Registers.dereg_counted {k : Nat} {t : OsThread} (h : Registers limit C S) (there : S.threads[k]? = some t)
    (dereg : t.pc = .deregCount) : 0 < S.count := by
  have one : t.weight = 1 := by
    simp only [OsThread.weight, (h.fine k t there).dereg (.inr dereg), dereg, OsPc.counted, OsPc.weight, and_self,
      if_true]
  have weight := le_sum (w := OsThread.weight) there
  rw [h.count, Process.registered]
  omega

/-- A thread moves in a step of its own. -/
lemma Registers.osStep {k : Nat} {t : OsThread} (h : Registers limit C S) (small : limit < 2147483648)
    (there : S.threads[k]? = some t) (parent : ∀ p, S.parentRead t = some p → S.alive p = true)
    (step : S.osStep k t = some S') : Registers limit C S' := by
  have fine := h.fine k t there
  -- the VM that is set up finds the registry in the one that it reads
  have init (q : VmId) (reads : S.parentRead t = some q) (begins : t.pc = .begun ∨ t.pc = .accepted) :
      Registers limit C (S.initChild k t q) := by
    have free : t.pc.holds = false := by
      obtain e | e := begins <;> rw [e] <;> rfl
    refine h.thread small there rfl rfl ⟨fine.kind, fun pc e => ?_, fun e => e.elim nofun nofun⟩ (fun gone => ?_)
      (free ▸ .keep _ _) fun n _ e => ?_
    · cases e
      exact ⟨h.registryOf (parent q reads), nofun⟩
    · obtain e | e := begins <;> rw [e] at gone <;> cases gone
    · have same : OsThread.weight { t with parent := q, pc := .vm .script, registry := S.registryOf q } = t.weight := by
        obtain e | e := begins <;> simp only [OsThread.weight, e, OsPc.counted, OsPc.weight, VmPc.weight]
      rw [same] at e
      exact (Nat.add_right_cancel e).symm
  obtain ⟨kind, par, pc, registry⟩ := t
  cases pc with
  | begun =>
    cases kind with
    | spawned b =>
      cases step
      exact init par rfl (.inl rfl)
    | connection slot =>
      simp only [Process.osStep] at step
      split at step <;> cases step <;> exact h.thread small there rfl rfl
        ⟨fine.kind, nofun, fun e => e.elim nofun nofun⟩
        nofun (.keep _ _) fun n _ e => (Nat.add_right_cancel e).symm
  | accepted =>
    cases kind with
    | spawned b => cases step
    | connection slot =>
      cases step
      exact init _ rfl (.inr rfl)
  | vm pc => exact h.vmStep small (by simp only [Process.vmPc, there]) step
  | destroyed =>
    cases kind with
    | spawned b =>
      have found := h.registryOf (parent par rfl)
      simp only [Process.osStep] at step
      rw [if_pos found] at step
      cases step
      have registered : ThreadKind.spawned b = .spawned true := fine.kind.elim id fun ⟨_, _, e⟩ => nomatch e
      exact h.thread small there rfl rfl ⟨fine.kind, nofun, fun _ => registered⟩ nofun (.keep _ _)
        fun n _ e => (Nat.add_right_cancel e).symm
    | connection slot =>
      cases step
      exact h.thread small there rfl rfl ⟨fine.kind, nofun, fun e => e.elim nofun nofun⟩ nofun (.keep _ _)
        fun n _ e => (Nat.add_right_cancel e).symm
  | deregLock =>
    obtain ⟨T, locked, rfl⟩ := Option.map_eq_some_iff.mp step
    obtain ⟨free, rfl⟩ := Process.lock_some locked
    exact h.thread small there rfl rfl ⟨fine.kind, nofun, fun _ => fine.dereg (.inl rfl)⟩ nofun (free ▸ .take)
      fun n _ e => (Nat.add_right_cancel e).symm
  | deregCount =>
    obtain rfl : kind = .spawned true := fine.dereg (.inr rfl)
    have counted : 0 < S.count := h.dereg_counted there rfl
    simp only [Process.osStep] at step
    rw [if_pos counted] at step
    cases step
    refine h.thread small there rfl rfl ⟨fine.kind, nofun, fun e => e.elim nofun nofun⟩ nofun (.keep S.mutex true)
      fun n b e => ?_
    have e : n + 1 = S.count := e
    show (S.setCount (S.count - 1)).count = n
    rw [Process.setCount_count]
    omega
  | deregBroadcast =>
    cases step
    exact h.thread small there rfl rfl ⟨fine.kind, nofun, fun e => e.elim nofun nofun⟩ nofun (.keep _ _)
      fun n _ e => (Nat.add_right_cancel e).symm
  | deregUnlock =>
    cases step
    exact h.thread small there rfl rfl ⟨fine.kind, nofun, fun e => e.elim nofun nofun⟩ (fun gone => by cases gone)
      (.release _) fun n _ e => (Nat.add_right_cancel e).symm
  | exited => cases step

/-- The root VM's thread moves in a step of its own. -/
lemma Registers.rootStep (h : Registers limit C S) (small : limit < 2147483648) (step : S.rootStep = some S') :
    Registers limit C S' := by
  obtain ⟨r, at_r⟩ : ∃ r, S.root = r := ⟨_, rfl⟩
  have still {r' : RootPc} (before : r.weight = 0) (after : r'.weight = 0) :
      ∀ n, n < 4294967296 → n + S.root.weight = S.count + r'.weight → S.count = n := by
    intro n _ e
    rw [at_r, before, after] at e
    exact e.symm
  unfold Process.rootStep at step
  rw [at_r] at step
  cases r with
  | vm pc => exact h.vmStep small (by simp only [Process.vmPc, at_r]) step
  | waitLock c =>
    obtain ⟨T, locked, rfl⟩ := Option.map_eq_some_iff.mp step
    obtain ⟨free, rfl⟩ := Process.lock_some locked
    exact h.main small rfl rfl nofun (at_r ▸ free ▸ .take) (still rfl rfl)
  | waitCheck c =>
    cases step
    refine h.main small rfl rfl ?_ ?_ (still rfl ?_)
    · split <;> nofun
    · rw [at_r]
      split <;> exact .keep _ _
    · split <;> rfl
  | waitCond c | waitUnlock c =>
    cases step
    exact h.main small rfl rfl nofun (at_r ▸ .release _) (still rfl rfl)
  | asleep c =>
    simp only at step
    split at step
    · cases step
    · obtain ⟨T, locked, rfl⟩ := Option.map_eq_some_iff.mp step
      obtain ⟨free, rfl⟩ := Process.lock_some locked
      exact h.main small rfl rfl nofun (at_r ▸ free ▸ .take) (still rfl rfl)
  | waited c =>
    cases c <;> cases step <;> exact h.main small rfl rfl nofun (at_r ▸ .keep _ _) (still rfl rfl)
  | closed => cases step

/-- A new thread: one that is spawned takes over the registration that its VM has made. -/
lemma Registers.concat {t : OsThread} (h : Registers limit C S) (room : S.live < limit) (fine : t.Fine C)
    (begun : t.pc = .begun) :
    Registers limit C { S with threads := S.threads ++ [t], count := S.count + t.weight } := by
  refine ⟨forall_concat (p := fun _ t => OsThread.Fine C t) fine h.fine, h.root, ?_, ?_, fun q => ?_⟩
  · have alive : t.pc ≠ .exited := by
      rw [begun]
      nofun
    have before := room
    simp only [Process.live, List.map_append, List.sum_append, List.map_singleton, List.sum_singleton,
      if_neg alive] at before ⊢
    exact before
  · have before := h.count
    simp only [Process.registered, List.map_append, List.sum_append, List.map_singleton, List.sum_singleton] at before ⊢
    rw [before, Nat.add_assoc]
  · cases q with
    | none => exact h.owned none
    | some j =>
      simp only [Process.holds]
      cases there : (S.threads ++ [t])[j]? with
      | none => nofun
      | some x =>
        refine forall_concat (p := fun j x => x.pc.holds = true → S.mutex = some (some j)) ?_
          (fun j x there held => ?_) j x
          there
        · rw [begun]
          nofun
        · refine h.owned (some j) ?_
          rw [Process.holds, there]
          exact held

lemma Process.setVmPc_live {pc pc' : VmPc} (here : S.vmPc p = some pc) : (S.setVmPc pc' p).live = S.live := by
  cases p with
  | none => rfl
  | some k =>
    obtain ⟨t, there, at_vm⟩ := Process.vmPc_thread here
    have lives := sum_set (y := { t with pc := .vm pc' }) (w := fun t : OsThread => if t.pc = .exited then 0 else 1)
      there
    simp only [Process.setVmPc, there, Process.setThread, Process.live]
    simp only [at_vm] at lives
    exact Nat.add_right_cancel lives

/-- Every thread that is being created has been registered. -/
lemma Registers.registering {registered : Bool} (h : Registers limit C S)
    (here : S.vmPc p = some (.create registered)) :
    registered = true := by
  cases registered with
  | true => rfl
  | false =>
    cases p with
    | none => exact absurd (Process.vmPc_root here) h.root
    | some k =>
      obtain ⟨t, there, at_vm⟩ := Process.vmPc_thread here
      exact absurd rfl ((h.fine k t there).vm _ at_vm).2

/-- The registration of a VM is counted. -/
lemma Registers.weight_le_count {pc : VmPc} (h : Registers limit C S) (here : S.vmPc p = some pc) :
    pc.weight ≤ S.count := by
  rw [h.count, Process.registered]
  cases p with
  | none =>
    rw [Process.vmPc_root here]
    exact Nat.le_add_right _ _
  | some k =>
    obtain ⟨t, there, at_vm⟩ := Process.vmPc_thread here
    have weight := le_sum (w := OsThread.weight) there
    have own : pc.weight ≤ t.weight := by
      rw [OsThread.weight, at_vm]
      exact Nat.le_add_left _ _
    omega

/-- A thread is created: the VM gives up its registration, and the thread takes it over. -/
lemma Registers.created (h : Registers limit C S) (small : limit < 2147483648) (here : S.vmPc p = some (.create true))
    (room : S.live < limit) : Registers limit C { S.setVmPc .script p with
      threads := (S.setVmPc .script p).threads ++ [⟨.spawned true, p, .begun, false⟩] } := by
  have counted : 0 < S.count := h.weight_le_count here
  obtain ⟨T, e⟩ : ∃ T, { S with count := S.count - 1 } = T := ⟨_, rfl⟩
  have given : Registers limit C (T.setVmPc .script p) := by
    rw [← e]
    refine h.vm small here rfl rfl nofun (.keep _ _) fun n _ e => ?_
    have e : n + 1 = S.count := e
    show S.count - 1 = n
    omega
  have same : (T.setVmPc .script p).root = (S.setVmPc .script p).root ∧
      (T.setVmPc .script p).threads = (S.setVmPc .script p).threads ∧
      (T.setVmPc .script p).mutex = (S.setVmPc .script p).mutex ∧
      (T.setVmPc .script p).count + 1 = S.count ∧ (S.setVmPc .script p).count = S.count := by
    have back : S.count - 1 + 1 = S.count := Nat.sub_add_cancel counted
    subst e
    cases p with
    | none => exact ⟨rfl, rfl, rfl, back, rfl⟩
    | some k =>
      obtain ⟨t, there, -⟩ := Process.vmPc_thread here
      simp only [Process.setVmPc, there]
      exact ⟨rfl, rfl, rfl, back, rfl⟩
  obtain ⟨root, threads, mutex, count, count'⟩ := same
  have room' : (T.setVmPc .script p).live < limit := by
    rw [Process.live, threads, ← Process.live, Process.setVmPc_live here]
    exact room
  have fine : OsThread.Fine C ⟨.spawned true, p, .begun, false⟩ := ⟨.inl rfl, nofun, fun e => e.elim nofun nofun⟩
  exact (given.concat room' fine rfl).congr root.symm (by rw [threads]) mutex.symm (count'.trans count.symm)

/-- What any action does, as long as the threads find their parents. -/
lemma Registers.next {a : ProcessAct} (h : Registers limit C S) (small : limit < 2147483648) (found : ¬ Orphaned S a)
    (accepts : ∀ slot, a = .accept slot → C) (step : (processes limit).step S a = some S') : Registers limit C S' := by
  cases a with
  | step p =>
    cases p with
    | none => exact h.rootStep small step
    | some k =>
      obtain ⟨t, there, stepped⟩ := Option.bind_eq_some_iff.mp step
      refine h.osStep small there (fun p reads => ?_) stepped
      by_contra dead
      exact found ⟨k, t, p, rfl, there, reads, Bool.eq_false_iff.mpr dead⟩
  | spawn p =>
    obtain ⟨here, moved⟩ := Option.ite_none_right_eq_some.mp step
    cases moved
    rw [if_pos (h.registryOf (Process.vmPc_alive here))]
    exact h.vm small here rfl rfl nofun (.keep _ _) fun n _ e => (Nat.add_right_cancel e).symm
  | created p ok =>
    cases ok with
    | true =>
      simp only [processes, Process.next] at step
      split at step
      case h_1 registered here =>
        obtain ⟨room, moved⟩ := Option.ite_none_right_eq_some.mp step
        cases moved
        obtain rfl := h.registering here
        exact h.created small here room
      case h_2 => cases step
    | false =>
      simp only [processes, Process.next] at step
      split at step
      case h_1 registered here =>
        cases step
        obtain rfl := h.registering here
        exact h.vm small here rfl rfl nofun (.keep _ _) fun n _ e => (Nat.add_right_cancel e).symm
      case h_2 => cases step
  | finish k =>
    simp only [processes, Process.next] at step
    split at step
    case h_1 t there =>
      obtain ⟨at_script, moved⟩ := Option.ite_none_right_eq_some.mp step
      cases moved
      have kind := (h.fine k t there).kind
      have weights : OsThread.weight { t with pc := .destroyed } = t.weight := by
        simp only [OsThread.weight, at_script, OsPc.counted, OsPc.weight, VmPc.weight]
      refine h.thread small there rfl rfl ⟨kind, nofun, fun e => e.elim nofun nofun⟩ (fun gone => ?_) ?_ fun n _ e => ?_
      · rw [at_script] at gone
        cases gone
      · rw [at_script]
        exact .keep _ _
      · rw [weights] at e
        exact (Nat.add_right_cancel e).symm
    case h_2 => cases step
  | wait close =>
    obtain ⟨at_script, moved⟩ := Option.ite_none_right_eq_some.mp step
    cases moved
    refine h.main small rfl rfl nofun (at_script ▸ .keep _ _) fun n _ e => ?_
    rw [at_script] at e
    exact (Nat.add_right_cancel e).symm
  | use p | createServer p slot | closeServer p slot =>
    obtain ⟨-, moved⟩ := Option.ite_none_right_eq_some.mp step
    cases moved
    exact h.congr rfl rfl rfl rfl
  | accept slot =>
    obtain ⟨⟨-, room⟩, moved⟩ := Option.ite_none_right_eq_some.mp step
    cases moved
    have fine : OsThread.Fine C ⟨.connection slot, none, .begun, false⟩ :=
      ⟨.inr ⟨accepts slot rfl, slot, rfl⟩, nofun, fun e => e.elim nofun nofun⟩
    exact (h.concat room fine rfl).congr rfl rfl rfl rfl
  | wakeup =>
    cases step
    exact h.congr rfl rfl rfl rfl

lemma Registers.init : Registers limit C {} := by
  refine ⟨nofun, nofun, Nat.zero_le _, rfl, fun q held => ?_⟩
  cases q <;> cases held

end Steps

end Cando
