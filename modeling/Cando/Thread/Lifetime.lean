import Cando.Thread.RegistryWait

/-!
# The lives of the virtual machines

A thread reads the VM that spawned it when it begins and when it ends, a connection thread reads the VM that created its
server, and all of them use the tables of the root VM meanwhile. A VM that ends while another thread still needs it is
read after its destruction; otherwise no such read takes place, as `cando_close` waits for the spawned threads.
-/

namespace Cando

open Interleaving

/-- The VM that a thread reads now or later: its spawner until it deregisters, or the VM of its server. -/
def Process.needs (S : Process) (t : OsThread) : Option VmId :=
  match t.kind, t.pc with
  | .spawned _, .begun | .spawned _, .vm _ | .spawned _, .destroyed => some t.parent
  | .connection slot, .accepted => some (S.servers slot).parent
  | _, _ => none

/-- A thread needs the VM, or a server that accepts connections does. -/
def Process.Needed (S : Process) (p : VmId) : Prop :=
  (∃ (k : Nat) (t : OsThread), S.threads[k]? = some t ∧ S.needs t = some p) ∨
    ∃ slot, (S.servers slot).inUse = true ∧ (S.servers slot).parent = p

/-- A server accepts connections, or a connection is being served. -/
def Process.Serving (S : Process) : Prop :=
  (∃ slot, (S.servers slot).inUse = true) ∨
    ∃ (k : Nat) (t : OsThread) (slot : Nat), S.threads[k]? = some t ∧ t.kind = .connection slot ∧ t.pc ≠ .exited

/-- The step ends a VM that is needed: a thread ends before one that it spawned or before a server that it created, or
`cando_close` has waited and there are connections. -/
def Forsakes (S : Process) (a : ProcessAct) : Prop :=
  (∃ k, a = .finish k ∧ S.Needed (some k)) ∨
    a = .step none ∧ S.root = .waitCheck true ∧ S.count = 0 ∧ S.Serving

/-- Nothing that was destroyed has been read, and what will be read is alive. -/
structure Kept (S : Process) : Prop where
  fresh : S.stale = false
  needed : ∀ p, S.Needed p → S.alive p = true
  unused : S.root.Over true → ∀ slot, (S.servers slot).inUse = false

def OsPc.isVm : OsPc → Bool
  | .vm _ => true
  | _ => false

section Frames

variable {S S' T : Process} {limit k : Nat} {C : Prop} {t t' : OsThread} {p q : VmId} {pc pc' : VmPc}

lemma Process.alive_thread (there : S.threads[k]? = some t) : S.alive (some k) = t.pc.isVm := by
  obtain ⟨kind, parent, pc, registry⟩ := t
  rw [Process.alive, there]
  cases pc <;> rfl

lemma Process.alive_root : S.alive none = true ↔ S.root ≠ .closed := bne_iff_ne

lemma Process.alive_inside (alive : S.alive (some k) = true) : ∃ t, S.threads[k]? = some t ∧ t.pc.isVm = true := by
  simp only [Process.alive] at alive
  split at alive
  case h_1 kind parent pc registry there => exact ⟨_, there, rfl⟩
  case h_2 => cases alive

/-- What is alive stays alive when a thread moves and does not leave its VM. -/
lemma Process.alive_set (there : S.threads[k]? = some t) (root : S'.root = S.root)
    (threads : S'.threads = S.threads.set k t') (vm : t.pc.isVm = true → t'.pc.isVm = true)
    (alive : S.alive q = true) : S'.alive q = true := by
  cases q with
  | none => exact Process.alive_root.mpr (root ▸ Process.alive_root.mp alive)
  | some j =>
    obtain ⟨x, at_x, in_vm⟩ := Process.alive_inside alive
    by_cases e : k = j
    · subst e
      rw [there] at at_x
      cases at_x
      have inside : k < S.threads.length := (List.getElem?_eq_some_iff.mp there).1
      have moved : S'.threads[k]? = some t' := by rw [threads, List.getElem?_set_self inside]
      rw [Process.alive_thread moved]
      exact vm in_vm
    · have moved : S'.threads[j]? = some x := by
        rw [threads, List.getElem?_set_ne e]
        exact at_x
      rw [Process.alive_thread moved]
      exact in_vm

/-- A thread moves, and needs nothing new that is not alive. -/
lemma Kept.thread (h : Kept S) (there : S.threads[k]? = some t) (root : S'.root = S.root)
    (threads : S'.threads = S.threads.set k t') (servers : S'.servers = S.servers) (stale : S'.stale = false)
    (vm : t.pc.isVm = true → t'.pc.isVm = true)
    (needs : ∀ p, S.needs t' = some p → S.needs t = some p ∨ S.alive p = true) : Kept S' := by
  have alive {q : VmId} : S.alive q = true → S'.alive q = true := Process.alive_set there root threads vm
  refine ⟨stale, ?_, ?_⟩
  · rintro p (⟨j, x, at_x, need⟩ | ⟨slot, used, parent⟩)
    · have same (y : OsThread) : S'.needs y = S.needs y := by simp only [Process.needs, servers]
      rw [same] at need
      rw [threads] at at_x
      refine forall_set (p := fun _ y => ∀ p, S.needs y = some p → S'.alive p = true) ?_ ?_ j x at_x p need
      · intro p need
        obtain old | lives := needs p need
        · exact alive (h.needed p (.inl ⟨k, t, there, old⟩))
        · exact alive lives
      · exact fun j y _ at_y p need => alive (h.needed p (.inl ⟨j, y, at_y, need⟩))
    · rw [servers] at used parent
      exact alive (h.needed p (.inr ⟨slot, used, parent⟩))
  · rw [root, servers]
    exact h.unused

/-- The root VM's thread moves. -/
lemma Kept.main (h : Kept S) (threads : S'.threads = S.threads) (servers : S'.servers = S.servers)
    (stale : S'.stale = false) (dead : S'.root = .closed → ¬ S.Needed none)
    (isOver : S'.root.Over true → ∀ slot, (S.servers slot).inUse = false) : Kept S' := by
  have needed {p : VmId} (need : S'.Needed p) : S.Needed p := by
    simp only [Process.Needed, Process.needs, threads, servers] at need ⊢
    exact need
  refine ⟨stale, fun p need => ?_, servers ▸ isOver⟩
  have alive := h.needed p (needed need)
  cases p with
  | none => exact Process.alive_root.mpr fun closed => dead closed (needed need)
  | some j =>
    obtain ⟨x, at_x, in_vm⟩ := Process.alive_inside alive
    have same : S'.threads[j]? = some x := threads ▸ at_x
    rw [Process.alive_thread same]
    exact in_vm

/-- Nothing moves. -/
lemma Kept.still (h : Kept S) (root : S'.root = S.root) (threads : S'.threads = S.threads)
    (servers : S'.servers = S.servers) (stale : S'.stale = false) : Kept S' := by
  refine h.main threads servers stale (fun closed need => ?_) (root ▸ h.unused)
  exact Process.alive_root.mp (h.needed none need) (root ▸ closed)

/-- A VM moves. -/
lemma Kept.vm (h : Kept S) (here : S.vmPc p = some pc) (root : T.root = S.root) (threads : T.threads = S.threads)
    (servers : T.servers = S.servers) (stale : T.stale = false) : Kept (T.setVmPc pc' p) := by
  cases p with
  | none => exact h.main threads servers stale nofun fun isOver => absurd isOver RootPc.not_over_vm
  | some k =>
    obtain ⟨t, there, at_vm⟩ := Process.vmPc_thread here
    have set : T.setVmPc pc' (some k) = T.setThread k { t with pc := .vm pc' } := by
      simp only [Process.setVmPc, threads, there]
    have threads' : (T.setThread k { t with pc := .vm pc' }).threads = S.threads.set k { t with pc := .vm pc' } := by
      rw [Process.setThread, threads]
    rw [set]
    refine h.thread there root threads' servers stale (fun _ => rfl) fun p need => .inl ?_
    obtain ⟨kind, parent, pc₁, registry⟩ := t
    obtain rfl : pc₁ = .vm pc := at_vm
    cases kind <;> exact need

/-- A new thread. -/
lemma Kept.concat (h : Kept S) (needs : ∀ p, S.needs t = some p → S.alive p = true) :
    Kept { S with threads := S.threads ++ [t] } := by
  have alive {q : VmId} (alive : S.alive q = true) : Process.alive { S with threads := S.threads ++ [t] } q = true := by
    cases q with
    | none => exact alive
    | some j =>
      obtain ⟨x, at_x, in_vm⟩ := Process.alive_inside alive
      have inside : j < S.threads.length := (List.getElem?_eq_some_iff.mp at_x).1
      have same : (S.threads ++ [t])[j]? = some x := (List.getElem?_append_left inside).trans at_x
      rw [Process.alive_thread (S := { S with threads := S.threads ++ [t] }) same]
      exact in_vm
  refine ⟨h.fresh, ?_, h.unused⟩
  rintro p (⟨j, x, at_x, need⟩ | server)
  · have all := forall_concat (p := fun _ y => ∀ q, S.needs y = some q → S.alive q = true) needs
      fun j y at_y q need => h.needed q (.inl ⟨j, y, at_y, need⟩)
    exact alive (all j x at_x p need)
  · exact alive (h.needed p (.inr server))

lemma Process.readVm_fresh (fresh : S.stale = false) (alive : S.alive p = true) : (S.readVm p).stale = false := by
  rw [Process.readVm, fresh, alive]
  rfl

end Frames

section Steps

variable {S S' T : Process} {limit k : Nat} {C : Prop} {t t' : OsThread} {p q : VmId} {pc pc' : VmPc}

/-- The root VM is not closed while a thread runs. -/
lemma Process.Quiet.tables (q : S.Quiet true) (there : S.threads[k]? = some t) (runs : t.pc ≠ .exited) :
    S.alive none = true :=
  Process.alive_root.mpr fun closed => runs (q (.inr (.inr ⟨rfl, closed⟩)) k t there)

lemma Process.Quiet.tables_vm (q : S.Quiet true) (here : S.vmPc p = some pc) : S.alive none = true := by
  cases p with
  | none => exact Process.alive_root.mpr (by rw [Process.vmPc_root here]; nofun)
  | some k =>
    obtain ⟨t, there, at_vm⟩ := Process.vmPc_thread here
    exact q.tables there (by rw [at_vm]; nofun)

lemma Process.setVmPc_alive (here : S.vmPc p = some pc) : (S.setVmPc pc' p).alive p = true := by
  cases p with
  | none => rfl
  | some k =>
    obtain ⟨t, there, -⟩ := Process.vmPc_thread here
    have inside : k < S.threads.length := (List.getElem?_eq_some_iff.mp there).1
    have moved : (S.setThread k { t with pc := .vm pc' }).threads[k]? = some { t with pc := .vm pc' } :=
      List.getElem?_set_self inside
    simp only [Process.setVmPc, there]
    rw [Process.alive_thread moved]
    rfl

lemma Process.setCount_kept (n : Nat) : (S.setCount n).servers = S.servers ∧
    (S.setCount n).stale = S.readTables.stale :=
  ⟨rfl, rfl⟩

/-- A step of `OP_THREAD`. -/
lemma Kept.vmStep (h : Kept S) (q : S.Quiet true) (here : S.vmPc p = some pc) (step : S.vmStep p pc = some S') :
    Kept S' := by
  have tables : S.readTables.stale = false := Process.readVm_fresh h.fresh (q.tables_vm here)
  cases pc with
  | script | create => cases step
  | spawnLock | undoLock =>
    obtain ⟨T, locked, rfl⟩ := Option.map_eq_some_iff.mp step
    obtain ⟨-, rfl⟩ := Process.lock_some locked
    exact h.vm here rfl rfl rfl tables
  | spawnCount =>
    cases step
    obtain ⟨⟨root, threads, -⟩, servers, stale⟩ := And.intro (S.setCount_frame (S.count + 1)) (S.setCount_kept _)
    exact h.vm here root threads servers (stale.trans tables)
  | undoCount =>
    cases step
    obtain ⟨⟨root, threads, -⟩, servers, stale⟩ :=
      And.intro (S.setCount_frame (S.count + 4294967295)) (S.setCount_kept _)
    exact h.vm here root threads servers (stale.trans tables)
  | spawnUnlock | undoBroadcast | undoUnlock =>
    cases step
    exact h.vm here rfl rfl rfl tables

/-- A thread moves in a step of its own. -/
lemma Kept.osStep (h : Kept S) (q : S.Quiet true) (there : S.threads[k]? = some t) (step : S.osStep k t = some S') :
    Kept S' := by
  -- what the thread reads is alive
  have reads {p : VmId} (need : S.needs t = some p) : (S.readVm p).stale = false :=
    Process.readVm_fresh h.fresh (h.needed p (.inl ⟨k, t, there, need⟩))
  have tables (runs : t.pc ≠ .exited) : S.readTables.stale = false := Process.readVm_fresh h.fresh (q.tables there runs)
  obtain ⟨kind, parent, pc, registry⟩ := t
  cases pc with
  | begun =>
    cases kind with
    | spawned b =>
      cases step
      exact h.thread there rfl rfl rfl (reads rfl) (by rintro ⟨⟩) fun p need => .inl need
    | connection slot =>
      simp only [Process.osStep] at step
      split at step
      case isTrue used =>
        cases step
        refine h.thread there rfl rfl rfl h.fresh (by rintro ⟨⟩) fun p need => .inr ?_
        cases need
        exact h.needed _ (.inr ⟨slot, used, rfl⟩)
      case isFalse =>
        cases step
        exact h.thread there rfl rfl rfl h.fresh (by rintro ⟨⟩) (by rintro p ⟨⟩)
  | accepted =>
    cases kind with
    | spawned b => cases step
    | connection slot =>
      cases step
      exact h.thread there rfl rfl rfl (reads rfl) (by rintro ⟨⟩) (by rintro p ⟨⟩)
  | vm pc =>
    have here : S.vmPc (some k) = some pc := by simp only [Process.vmPc, there]
    exact h.vmStep q here step
  | destroyed =>
    cases kind with
    | spawned b =>
      simp only [Process.osStep] at step
      split at step <;> cases step <;> exact h.thread there rfl rfl rfl (reads rfl) (by rintro ⟨⟩) (by rintro p ⟨⟩)
    | connection slot =>
      cases step
      exact h.thread there rfl rfl rfl h.fresh (by rintro ⟨⟩) (by rintro p ⟨⟩)
  | deregLock =>
    obtain ⟨T, locked, rfl⟩ := Option.map_eq_some_iff.mp step
    obtain ⟨-, rfl⟩ := Process.lock_some locked
    refine h.thread there rfl rfl rfl (tables (by rintro ⟨⟩)) (by rintro ⟨⟩) fun p need => ?_
    cases kind <;> cases need
  | deregCount =>
    cases step
    obtain ⟨T, e, root, threads, servers, stale⟩ :
      ∃ T, (if S.count > 0 then S.setCount (S.count - 1) else S.readTables) = T ∧
        T.root = S.root ∧ T.threads = S.threads ∧ T.servers = S.servers ∧ T.stale = S.readTables.stale := by
      refine ⟨_, rfl, ?_⟩
      split <;> exact ⟨rfl, rfl, rfl, rfl⟩
    rw [e]
    have set (t' : OsThread) : (T.setThread k t').threads = S.threads.set k t' := by rw [Process.setThread, threads]
    refine h.thread there root (set _) servers (stale.trans (tables (by rintro ⟨⟩))) (by rintro ⟨⟩) fun p need => ?_
    cases kind <;> cases need
  | deregBroadcast | deregUnlock =>
    cases step
    refine h.thread there rfl rfl rfl (tables (by rintro ⟨⟩)) (by rintro ⟨⟩) fun p need => ?_
    cases kind <;> cases need
  | exited => cases step

/-- The root VM's thread moves in a step of its own, and does not close the VM while there are connections. -/
lemma Kept.rootStep (h : Kept S) (q : S.Quiet true) (done : S.root = .waitCheck true → S.count = 0 → ¬ S.Serving)
    (step : S.rootStep = some S') : Kept S' := by
  obtain ⟨r, at_r⟩ : ∃ r, S.root = r := ⟨_, rfl⟩
  have tables (runs : r ≠ .closed) : S.readTables.stale = false :=
    Process.readVm_fresh h.fresh (Process.alive_root.mpr (at_r ▸ runs))
  unfold Process.rootStep at step
  rw [at_r] at step
  cases r with
  | vm pc =>
    have here : S.vmPc none = some pc := by simp only [Process.vmPc, at_r]
    exact h.vmStep q here step
  | waitLock c =>
    obtain ⟨T, locked, rfl⟩ := Option.map_eq_some_iff.mp step
    obtain ⟨-, rfl⟩ := Process.lock_some locked
    refine h.main rfl rfl (tables (by rintro ⟨⟩)) (by rintro ⟨⟩) fun isOver => ?_
    rcases isOver with e | e | ⟨-, e⟩ <;> cases e
  | waitCheck c =>
    cases step
    refine h.main rfl rfl h.fresh (fun closed => ?_) fun isOver slot => ?_
    · split at closed <;> cases closed
    · split at isOver
      case isTrue => rcases isOver with e | e | ⟨-, e⟩ <;> cases e
      case isFalse empty =>
        obtain rfl := RootPc.over_unlock isOver
        exact Bool.eq_false_iff.mpr fun used => done at_r (Nat.eq_zero_of_not_pos empty) (.inl ⟨slot, used⟩)
  | waitCond c =>
    cases step
    refine h.main rfl rfl (tables (by rintro ⟨⟩)) (by rintro ⟨⟩) fun isOver => ?_
    rcases isOver with e | e | ⟨-, e⟩ <;> cases e
  | asleep c =>
    simp only at step
    split at step
    · cases step
    · obtain ⟨T, locked, rfl⟩ := Option.map_eq_some_iff.mp step
      obtain ⟨-, rfl⟩ := Process.lock_some locked
      refine h.main rfl rfl (tables (by rintro ⟨⟩)) (by rintro ⟨⟩) fun isOver => ?_
      rcases isOver with e | e | ⟨-, e⟩ <;> cases e
  | waitUnlock c =>
    cases step
    refine h.main rfl rfl (tables (by rintro ⟨⟩)) (by rintro ⟨⟩) fun isOver => h.unused (at_r ▸ .inl ?_)
    rcases isOver with e | e | ⟨-, e⟩ <;> cases e
    rfl
  | waited c =>
    cases c with
    | false =>
      cases step
      exact h.main rfl rfl h.fresh (by rintro ⟨⟩) fun isOver => absurd isOver RootPc.not_over_vm
    | true =>
      cases step
      have isOver : S.root.Over true := at_r ▸ .inr (.inl rfl)
      refine h.main rfl rfl h.fresh (fun _ => ?_) fun _ => h.unused isOver
      -- all threads have ended, and no server accepts connections
      rintro (⟨k, t, there, need⟩ | ⟨slot, used, -⟩)
      · have ended := q isOver k t there
        rw [Process.needs, ended] at need
        cases kind : t.kind <;> rw [kind] at need <;> cases need
      · rw [h.unused isOver slot] at used
        cases used
  | closed => cases step

/-- A thread ends that no other thread needs. -/
lemma Kept.finish (h : Kept S) (there : S.threads[k]? = some t) (at_script : t.pc = .vm .script)
    (free : ¬ S.Needed (some k)) : Kept (S.setThread k { t with pc := .destroyed }) := by
  have inside : k < S.threads.length := (List.getElem?_eq_some_iff.mp there).1
  -- only the VM of the thread ends
  have alive {q : VmId} (need : S.Needed q) : (S.setThread k { t with pc := .destroyed }).alive q = true := by
    have alive := h.needed q need
    cases q with
    | none => exact alive
    | some j =>
      obtain ⟨x, at_x, in_vm⟩ := Process.alive_inside alive
      have other : k ≠ j := fun e => free (e ▸ need)
      have same : (S.setThread k { t with pc := .destroyed }).threads[j]? = some x := by
        rw [Process.setThread, List.getElem?_set_ne other]
        exact at_x
      rw [Process.alive_thread same]
      exact in_vm
  refine ⟨h.fresh, ?_, h.unused⟩
  rintro p (⟨j, x, at_x, need⟩ | server)
  · refine alive (forall_set (p := fun _ y => ∀ q, S.needs y = some q → S.Needed q) (fun q need => ?_) ?_ j x at_x p
      need)
    · refine .inl ⟨k, t, there, ?_⟩
      obtain ⟨kind, parent, pc, registry⟩ := t
      obtain rfl : pc = .vm .script := at_script
      cases kind <;> exact need
    · exact fun j y _ at_y q need => .inl ⟨j, y, at_y, need⟩
  · exact alive (.inr server)

/-- A server is created or closed. -/
lemma Kept.serve {slot : Nat} {new : ServerSlot} (h : Kept S) (tables : S.alive none = true)
    (isOver : ¬ S.root.Over true)
    (server : S.alive new.parent = true ∨ new = { S.servers slot with inUse := false }) :
    Kept { S.readTables with servers := Function.update S.servers slot new } := by
  have alive {q : VmId} (alive : S.alive q = true) :
      Process.alive { S.readTables with servers := Function.update S.servers slot new } q = true := by
    cases q <;> exact alive
  -- the parent in the slot is the old one or one that is alive
  have parent (j : Nat) (old : S.alive (S.servers j).parent = true) :
      S.alive (Function.update S.servers slot new j).parent = true := by
    by_cases e : j = slot
    · subst e
      rw [Function.update_self]
      obtain lives | rfl := server
      · exact lives
      · exact old
    · rw [Function.update_of_ne e]
      exact old
  refine ⟨Process.readVm_fresh h.fresh tables, ?_, fun o => absurd o isOver⟩
  rintro p (⟨j, x, at_x, need⟩ | ⟨j, used, rfl⟩)
  · have old {q : VmId} (need : S.needs x = some q) : S.alive q = true := h.needed q (.inl ⟨j, x, at_x, need⟩)
    obtain ⟨kind, par, pc, registry⟩ := x
    cases kind with
    | spawned b => cases pc <;> exact alive (old need)
    | connection s =>
      cases pc with
      | accepted =>
        cases need
        exact alive (parent s (old rfl))
      | _ => cases need
  · by_cases e : j = slot
    · subst e
      simp only [Function.update_self] at used ⊢
      obtain lives | rfl := server
      · exact alive lives
      · cases used
    · simp only [Function.update_of_ne e] at used ⊢
      exact alive (h.needed _ (.inr ⟨j, used, rfl⟩))

/-- A VM is read as a parent only by a thread that needs it. -/
lemma Process.needs_of_parentRead (reads : S.parentRead t = some p) : S.needs t = some p := by
  obtain ⟨kind, parent, pc, registry⟩ := t
  cases kind <;> cases pc <;> first | exact reads | cases reads

/-- What any action does that forsakes no thread. -/
lemma Kept.next {a : ProcessAct} (h : Kept S) (q : S.Quiet true) (keeps : ¬ Forsakes S a)
    (step : (processes limit).step S a = some S') : Kept S' := by
  cases a with
  | step p =>
    cases p with
    | none =>
      exact h.rootStep q (fun check empty serving => keeps (.inr ⟨rfl, check, empty, serving⟩)) step
    | some k =>
      obtain ⟨t, there, stepped⟩ := Option.bind_eq_some_iff.mp step
      exact h.osStep q there stepped
  | spawn p =>
    obtain ⟨here, moved⟩ := Option.ite_none_right_eq_some.mp step
    cases moved
    exact h.vm here rfl rfl rfl (Process.readVm_fresh h.fresh (q.tables_vm here))
  | created p ok =>
    cases ok with
    | true =>
      simp only [processes, Process.next] at step
      split at step
      case h_1 registered here =>
        obtain ⟨-, moved⟩ := Option.ite_none_right_eq_some.mp step
        cases moved
        have moved : Kept (S.setVmPc .script p) := h.vm here rfl rfl rfl h.fresh
        refine moved.concat fun q need => ?_
        cases need
        exact Process.setVmPc_alive here
      case h_2 => cases step
    | false =>
      simp only [processes, Process.next] at step
      split at step
      case h_1 registered here =>
        cases step
        exact h.vm here rfl rfl rfl h.fresh
      case h_2 => cases step
  | finish k =>
    simp only [processes, Process.next] at step
    split at step
    case h_1 t there =>
      obtain ⟨at_script, moved⟩ := Option.ite_none_right_eq_some.mp step
      cases moved
      exact h.finish there at_script fun need => keeps (.inl ⟨k, rfl, need⟩)
    case h_2 => cases step
  | wait c =>
    obtain ⟨-, moved⟩ := Option.ite_none_right_eq_some.mp step
    cases moved
    refine h.main rfl rfl h.fresh (by simp) fun isOver => ?_
    rcases isOver with e | e | ⟨-, e⟩ <;> cases e
  | use p =>
    obtain ⟨here, moved⟩ := Option.ite_none_right_eq_some.mp step
    cases moved
    exact h.still rfl rfl rfl (Process.readVm_fresh h.fresh (q.tables_vm here))
  | createServer p slot =>
    obtain ⟨⟨here, -⟩, moved⟩ := Option.ite_none_right_eq_some.mp step
    cases moved
    exact h.serve (q.tables_vm here) (q.not_over here) (.inl (Process.vmPc_alive here))
  | closeServer p slot =>
    obtain ⟨here, moved⟩ := Option.ite_none_right_eq_some.mp step
    cases moved
    exact h.serve (q.tables_vm here) (q.not_over here) (.inr rfl)
  | accept slot =>
    obtain ⟨-, moved⟩ := Option.ite_none_right_eq_some.mp step
    cases moved
    exact h.concat (by rintro p ⟨⟩)
  | wakeup =>
    cases step
    exact h.still rfl rfl rfl h.fresh

end Steps

/-! ### Runs -/

section Runs

variable {limit : Nat} {as : List ProcessAct} {S : Process}

lemma Kept.init : Kept {} := by
  refine ⟨rfl, ?_, fun isOver => absurd isOver RootPc.not_over_vm⟩
  rintro p (⟨k, t, there, -⟩ | ⟨slot, used, -⟩)
  · cases there
  · cases used

/-- As long as no VM ends that a thread or a server needs, no thread reads a VM that has been destroyed. The operating
system runs fewer than 2³¹ threads. -/
theorem parents_outlive (small : limit < 2147483648)
    (r : (processes limit).Run (fun S a => ¬ Forsakes S a) {} as S) : S.stale = false := by
  suffices all : Registers limit True S ∧ S.Quiet true ∧ Kept S from all.2.2.fresh
  refine r.invariant (I := fun S => Registers limit True S ∧ S.Quiet true ∧ Kept S) ?_ ⟨.init, .init, .init⟩
  rintro S a S' keeps step ⟨h, q, kept⟩
  -- a parent that is read is needed, and so it is alive
  have found : ¬ Orphaned S a := by
    rintro ⟨k, t, p, -, there, reads, dead⟩
    have alive := kept.needed p (.inl ⟨k, t, there, Process.needs_of_parentRead reads⟩)
    rw [dead] at alive
    cases alive
  refine ⟨h.next small found (fun _ _ => trivial) step, ?_, kept.next q keeps step⟩
  refine q.next h (fun main check empty k t there other => ?_) (fun isOver slot _ => kept.unused isOver slot) step
  obtain spawned | ⟨-, slot, connection⟩ := (h.fine k t there).kind
  · exact absurd spawned other
  · by_contra runs
    exact keeps (.inr ⟨main, check, empty, .inr ⟨k, t, slot, there, connection, runs⟩⟩)

end Runs

/-- The root VM spawns a thread, which uses its tables, and closes. -/
theorem parents_outlive_close : ∃ S : Process, S.root = .closed ∧ S.threads.map OsThread.pc = [.exited] ∧
    S.stale = false := by
  let mild (S : Process) : ProcessAct → Bool
    | .finish _ => false
    | .step none => S.root != .waitCheck true
    | _ => true
  have passes (S : Process) (a : ProcessAct) (h : mild S a = true) : ¬ Forsakes S a := by
    rintro (⟨k, rfl, -⟩ | ⟨rfl, check, -⟩)
    · cases h
    · exact bne_iff_ne.mp h check
  have begins : (processes 1).Run (fun S a => ¬ Forsakes S a) {} [.spawn none, .step none, .step none, .step none,
      .created none true, .step (some 0), .use (some 0)] _ := .of_restrict rfl passes
  -- the only thread has spawned none, and there is no server
  have ended := begins.snoc (a := .finish 0) (by
    rintro (⟨k, e, ⟨j, t, there, need⟩ | ⟨slot, used, -⟩⟩ | ⟨main, -⟩)
    · cases e
      match j with
      | 0 => cases there; cases need
      | j + 1 => cases there
    · cases used
    · cases main) rfl
  have waits := ended.append (.of_restrict rfl passes : (processes 1).Run (fun S a => ¬ Forsakes S a) _ [.step (some 0),
    .step (some 0), .step (some 0), .step (some 0), .step (some 0), .wait true, .step none] _)
  have waited := waits.snoc (a := .step none) (by
    rintro (⟨k, e, -⟩ | ⟨-, -, -, ⟨slot, used⟩ | ⟨j, t, slot, there, connection, -⟩⟩)
    · cases e
    · cases used
    · match j with
      | 0 => cases there; cases connection
      | j + 1 => cases there) rfl
  have closes := waited.append (.of_restrict rfl passes : (processes 1).Run (fun S a => ¬ Forsakes S a) _ [.step none,
    .step none] _)
  exact ⟨_, rfl, rfl, parents_outlive (by decide) closes⟩

/-- A connection is served while the root VM closes. -/
def servesOnClose : List ProcessAct :=
  [.createServer none 0, .accept 0, .step (some 0), .step (some 0), .wait true, .step none, .step none, .step none,
    .step none, .use (some 0)]

/-- A thread reads the VM that spawned it after that VM has ended, and a connection thread uses the tables of the root
VM after `cando_close`. -/
theorem parents_read_late : (∃ S, (processes 2).Run All {} outlives S ∧ S.stale = true) ∧
    ∃ S, (processes 1).Run All {} servesOnClose S ∧ S.root = .closed ∧ S.stale = true :=
  ⟨⟨_, .of_after rfl, rfl⟩, _, .of_after rfl, rfl, rfl⟩

end Cando
