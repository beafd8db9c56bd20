import Cando.Thread.Registry

/-!
# Waits for all threads

`cando_vm_wait_all_threads` sleeps until the registry counts nothing. It looks at the count in its critical section,
where no thread is deregistering, and so it finds every spawned thread at its end.
-/

namespace Cando

open Interleaving

/-- From the end of a wait on, as long as the root VM runs no script. -/
def RootPc.Over (close : Bool) (r : RootPc) : Prop :=
  r = .waitUnlock close ∨ r = .waited close ∨ close = true ∧ r = .closed

/-- Once a wait is over all threads have ended. -/
def Process.Quiet (close : Bool) (S : Process) : Prop :=
  S.root.Over close → ∀ (k : Nat) (t : OsThread), S.threads[k]? = some t → t.pc = .exited

section Waits

variable {S S' T : Process} {limit k : Nat} {C : Prop} {t : OsThread} {p : VmId} {pc pc' : VmPc} {close : Bool}

lemma RootPc.not_over_vm : ¬ (RootPc.vm pc).Over close := by
  rintro (e | e | ⟨-, e⟩) <;> cases e

lemma RootPc.over_unlock {c : Bool} (isOver : (RootPc.waitUnlock c).Over close) : c = close := by
  rcases isOver with e | e | ⟨-, e⟩
  · exact RootPc.waitUnlock.inj e
  · cases e
  · cases e

/-- A registered thread has ended when the root VM, in its critical section, finds that nothing is counted. -/
lemma Registers.ended (h : Registers limit C S) (empty : S.count = 0) (inside : S.root.holds = true)
    (there : S.threads[k]? = some t) (spawned : t.kind = .spawned true) : t.pc = .exited := by
  have weight : t.weight = 0 := by
    have le := le_sum (w := OsThread.weight) there
    have all := h.count
    rw [Process.registered] at all
    omega
  have out : t.pc.holds ≠ true := by
    intro held
    have held : S.holds (some k) = true := by
      rw [Process.holds, there]
      exact held
    cases h.owned.exclusive (p := none) inside held
  rw [OsThread.weight, spawned] at weight
  cases pc : t.pc with
  | exited => rfl
  | deregBroadcast | deregUnlock =>
    rw [pc] at out
    exact absurd rfl out
  | _ =>
    rw [pc] at weight
    simp [OsPc.counted] at weight

/-- No VM is in a script once a wait is over. -/
lemma Process.Quiet.not_over (q : S.Quiet close) (here : S.vmPc p = some pc) : ¬ S.root.Over close := by
  intro isOver
  cases p with
  | none =>
    rw [Process.vmPc_root here] at isOver
    exact RootPc.not_over_vm isOver
  | some k =>
    obtain ⟨t, there, at_vm⟩ := Process.vmPc_thread here
    rw [q isOver k t there] at at_vm
    cases at_vm

lemma Process.setVmPc_root (pc : VmPc) (k : Nat) : (S.setVmPc pc (some k)).root = S.root := by
  simp only [Process.setVmPc]
  split <;> rfl

lemma Process.Quiet.not_over_set (q : S.Quiet close) (here : S.vmPc p = some pc) (root : T.root = S.root) :
    ¬ (T.setVmPc pc' p).root.Over close := by
  cases p with
  | none => exact RootPc.not_over_vm
  | some k =>
    rw [Process.setVmPc_root, root]
    exact q.not_over here

lemma Process.Quiet.vmStep (q : S.Quiet close) (here : S.vmPc p = some pc) (step : S.vmStep p pc = some S') :
    ¬ S'.root.Over close := by
  cases pc with
  | script | create => cases step
  | spawnLock | undoLock =>
    obtain ⟨T, locked, rfl⟩ := Option.map_eq_some_iff.mp step
    obtain ⟨-, rfl⟩ := Process.lock_some locked
    exact q.not_over_set here rfl
  | spawnCount =>
    cases step
    exact q.not_over_set here (S.setCount_frame _).1
  | undoCount =>
    cases step
    exact q.not_over_set here (S.setCount_frame _).1
  | spawnUnlock | undoBroadcast | undoUnlock =>
    cases step
    exact q.not_over_set here rfl

/-- A thread that has not ended leaves the root VM where it is. -/
lemma Process.Quiet.osStep (q : S.Quiet close) (there : S.threads[k]? = some t) (step : S.osStep k t = some S') :
    ¬ S'.root.Over close := by
  intro isOver
  obtain ⟨kind, parent, pc, registry⟩ := t
  -- the thread has not ended, so that the wait is not over
  have still (root : S'.root = S.root) : OsPc.exited = pc := by
    rw [root] at isOver
    exact (q isOver k _ there).symm
  cases pc with
  | vm pc =>
    have here : S.vmPc (some k) = some pc := by simp only [Process.vmPc, there]
    exact q.vmStep here step isOver
  | begun =>
    cases kind with
    | spawned b =>
      cases step
      cases still rfl
    | connection slot =>
      simp only [Process.osStep] at step
      split at step <;> cases step <;> cases still rfl
  | accepted =>
    cases kind with
    | spawned b => cases step
    | connection slot =>
      cases step
      cases still rfl
  | destroyed =>
    cases kind with
    | spawned b =>
      simp only [Process.osStep] at step
      split at step <;> cases step <;> cases still rfl
    | connection slot =>
      cases step
      cases still rfl
  | deregLock =>
    obtain ⟨T, locked, rfl⟩ := Option.map_eq_some_iff.mp step
    obtain ⟨-, rfl⟩ := Process.lock_some locked
    cases still rfl
  | deregCount =>
    cases step
    have root : (if S.count > 0 then S.setCount (S.count - 1) else S.readTables).root = S.root := by
      split <;> rfl
    cases still root
  | deregBroadcast | deregUnlock =>
    cases step
    cases still rfl
  | exited => cases step

/-- The root VM's thread ends a wait when nothing is counted. -/
lemma Process.Quiet.rootStep (q : S.Quiet close) (h : Registers limit C S)
    (check : S.root = .waitCheck close → S.count = 0 → ∀ (k : Nat) (t : OsThread), S.threads[k]? = some t →
      t.kind ≠ .spawned true → t.pc = .exited) (step : S.rootStep = some S') : S'.Quiet close := by
  intro isOver
  obtain ⟨r, at_r⟩ : ∃ r, S.root = r := ⟨_, rfl⟩
  unfold Process.rootStep at step
  rw [at_r] at step
  cases r with
  | vm pc =>
    have here : S.vmPc none = some pc := by simp only [Process.vmPc, at_r]
    exact absurd isOver (q.vmStep here step)
  | waitLock c =>
    obtain ⟨T, locked, rfl⟩ := Option.map_eq_some_iff.mp step
    rcases isOver with e | e | ⟨-, e⟩ <;> cases e
  | waitCheck c =>
    cases step
    simp only at isOver ⊢
    split at isOver
    case isTrue => rcases isOver with e | e | ⟨-, e⟩ <;> cases e
    case isFalse empty =>
      obtain rfl := RootPc.over_unlock isOver
      intro k t there
      by_cases spawned : t.kind = .spawned true
      · exact h.ended (Nat.eq_zero_of_not_pos empty) (at_r ▸ rfl) there spawned
      · exact check at_r (Nat.eq_zero_of_not_pos empty) k t there spawned
  | waitCond c =>
    cases step
    rcases isOver with e | e | ⟨-, e⟩ <;> cases e
  | asleep c =>
    simp only at step
    split at step
    · cases step
    · obtain ⟨T, locked, rfl⟩ := Option.map_eq_some_iff.mp step
      rcases isOver with e | e | ⟨-, e⟩ <;> cases e
  | waitUnlock c =>
    cases step
    obtain rfl : c = close := by
      rcases isOver with e | e | ⟨-, e⟩
      · cases e
      · exact RootPc.waited.inj e
      · cases e
    exact q (at_r ▸ .inl rfl)
  | waited c =>
    cases c with
    | false =>
      cases step
      rcases isOver with e | e | ⟨-, e⟩ <;> cases e
    | true =>
      cases step
      obtain rfl : close = true := by
        rcases isOver with e | e | ⟨e, -⟩
        · cases e
        · cases e
        · exact e
      exact q (at_r ▸ .inr (.inl rfl))
  | closed => cases step

/-- A wait leaves no thread behind, unless connections come in. -/
lemma Process.Quiet.next {a : ProcessAct} (q : S.Quiet close) (h : Registers limit C S)
    (check : a = .step none → S.root = .waitCheck close → S.count = 0 → ∀ (k : Nat) (t : OsThread),
      S.threads[k]? = some t → t.kind ≠ .spawned true → t.pc = .exited) (accepts : S.root.Over close →
        ∀ slot, a = .accept slot → (S.servers slot).inUse = false)
    (step : (processes limit).step S a = some S') : S'.Quiet close := by
  cases a with
  | step p =>
    cases p with
    | none => exact q.rootStep h (check rfl) step
    | some k =>
      obtain ⟨t, there, stepped⟩ := Option.bind_eq_some_iff.mp step
      exact fun isOver => absurd isOver (q.osStep there stepped)
  | spawn p =>
    obtain ⟨here, moved⟩ := Option.ite_none_right_eq_some.mp step
    cases moved
    exact fun isOver => absurd isOver (q.not_over_set here rfl)
  | created p ok =>
    cases ok with
    | true =>
      simp only [processes, Process.next] at step
      split at step
      case h_1 registered here =>
        obtain ⟨-, moved⟩ := Option.ite_none_right_eq_some.mp step
        cases moved
        exact fun isOver => absurd isOver (q.not_over_set here rfl)
      case h_2 => cases step
    | false =>
      simp only [processes, Process.next] at step
      split at step
      case h_1 registered here =>
        cases step
        exact fun isOver => absurd isOver (q.not_over_set here rfl)
      case h_2 => cases step
  | finish k =>
    simp only [processes, Process.next] at step
    split at step
    case h_1 t there =>
      obtain ⟨at_script, moved⟩ := Option.ite_none_right_eq_some.mp step
      cases moved
      intro isOver
      rw [q isOver k t there] at at_script
      cases at_script
    case h_2 => cases step
  | wait c =>
    obtain ⟨-, moved⟩ := Option.ite_none_right_eq_some.mp step
    cases moved
    rintro (e | e | ⟨-, e⟩) <;> cases e
  | use p =>
    obtain ⟨here, moved⟩ := Option.ite_none_right_eq_some.mp step
    cases moved
    exact fun isOver => absurd isOver (q.not_over here)
  | createServer p slot =>
    obtain ⟨⟨here, -⟩, moved⟩ := Option.ite_none_right_eq_some.mp step
    cases moved
    exact fun isOver => absurd isOver (q.not_over here)
  | closeServer p slot =>
    obtain ⟨here, moved⟩ := Option.ite_none_right_eq_some.mp step
    cases moved
    exact fun isOver => absurd isOver (q.not_over here)
  | accept slot =>
    obtain ⟨⟨used, -⟩, moved⟩ := Option.ite_none_right_eq_some.mp step
    cases moved
    intro isOver
    rw [accepts isOver slot rfl] at used
    cases used
  | wakeup =>
    cases step
    exact q

lemma Process.Quiet.init : Process.Quiet close {} := fun isOver => absurd isOver RootPc.not_over_vm

end Waits

/-! ### Runs -/

section Runs

variable {limit : Nat} {as : List ProcessAct} {S : Process}

lemma run_registers (small : limit < 2147483648) (r : (processes limit).Run (fun S a => ¬ Orphaned S a) {} as S) :
    Registers limit True S :=
  r.invariant (fun _ _ _ found step h => h.next small found (fun _ _ => trivial) step) .init

lemma run_quiet {close : Bool} (small : limit < 2147483648)
    (r : (processes limit).Run (fun S a => ¬ Orphaned S a) {} as S) (spawning : ∀ slot, .accept slot ∉ as) :
    S.Quiet close := by
  have listed := r.listed (Q := fun a => ∀ slot, a ≠ .accept slot) fun a mem slot e => spawning slot (e ▸ mem)
  refine (listed.invariant (I := fun S => Registers limit False S ∧ S.Quiet close) ?_ ⟨.init, .init⟩).2
  rintro S a S' ⟨found, only⟩ step ⟨h, q⟩
  refine ⟨h.next small found (fun slot e => only slot e) step, q.next h (fun _ _ _ k t there other => ?_)
    (fun _ slot e => absurd e (only slot)) step⟩
  exact absurd ((h.fine k t there).kind.elim id fun ⟨never, _⟩ => never.elim) other

/-- The next step of a VM takes one off the count. -/
def Process.Decrements (S : Process) (p : VmId) : Prop :=
  S.vmPc p = some .undoCount ∨ ∃ k t, p = some k ∧ S.threads[k]? = some t ∧ t.pc = .deregCount

/-- As long as every thread finds the VM that spawned it alive, the count is the number of registered threads and it
does not underflow, and a wait leaves no registered thread behind. The operating system runs fewer than 2³¹ threads.
-/
theorem registry_sound (small : limit < 2147483648) (r : (processes limit).Run (fun S a => ¬ Orphaned S a) {} as S) :
    S.count = S.registered ∧ (∀ p, S.Decrements p → 0 < S.count) ∧
      ((∀ slot, .accept slot ∉ as) → ∀ close, S.root = .waited close → S.registered = 0) := by
  have h := run_registers small r
  refine ⟨h.count, ?_, fun spawning close waited => ?_⟩
  · rintro p (here | ⟨k, t, -, there, dereg⟩)
    · exact h.weight_le_count here
    · exact h.dereg_counted there dereg
  · have ended := (run_quiet small r spawning : S.Quiet close) (.inr (.inl waited))
    have none : (S.threads.map OsThread.weight).sum = 0 := by
      refine List.sum_eq_zero_iff_forall_eq_nat.mpr fun n mem => ?_
      obtain ⟨t, listed, rfl⟩ := List.mem_map.mp mem
      obtain ⟨k, there⟩ := List.mem_iff_getElem?.mp listed
      have weight := t.weight_le
      rw [if_pos (ended k t there)] at weight
      exact Nat.le_zero.mp weight
    rw [Process.registered, waited, none]
    rfl

end Runs

/-- The root VM spawns a thread and waits for it. -/
def spawnAndWait : List ProcessAct :=
  [.spawn none, .step none, .step none, .step none, .created none true, .step (some 0), .finish 0, .step (some 0),
    .step (some 0), .step (some 0), .step (some 0), .step (some 0), .wait false, .step none, .step none, .step none]

theorem registry_sound_wait : ∃ S : Process, S.root = .waited false ∧ S.threads.map OsThread.pc = [.exited] ∧
    S.count = S.registered ∧ (∀ p, S.Decrements p → 0 < S.count) ∧
      ((∀ slot, .accept slot ∉ spawnAndWait) → ∀ close, S.root = .waited close → S.registered = 0) := by
  -- the only thread is a child of the root VM
  have passes (S : Process) (a : ProcessAct) (h : decide (S.alive none = true ∧
      ∀ t ∈ S.threads, t.kind = .spawned true ∧ t.parent = none) = true) : ¬ Orphaned S a := by
    obtain ⟨alive, children⟩ := of_decide_eq_true h
    rintro ⟨k, t, p, -, there, reads, dead⟩
    obtain ⟨kind, parent⟩ := children t (List.mem_of_getElem? there)
    have root : p = none := by
      rw [Process.parentRead, kind] at reads
      cases pc : t.pc <;> rw [pc] at reads <;> cases reads <;> exact parent
    rw [root, alive] at dead
    cases dead
  exact ⟨_, rfl, rfl, registry_sound (by decide) (.of_restrict rfl passes : (processes 1).Run _ {} spawnAndWait _)⟩

/-- A thread outlives the thread that spawned it, and does not find the registry when it ends. -/
def outlives : List ProcessAct :=
  [.spawn none, .step none, .step none, .step none, .created none true, .step (some 0), .spawn (some 0), .step (some 0),
    .step (some 0), .step (some 0), .created (some 0) true, .step (some 1), .finish 0, .step (some 0), .finish 1,
    .step (some 1), .step (some 0), .step (some 0), .step (some 0), .step (some 0)]

/-- Both threads have ended, and the registry still counts one. -/
theorem registry_miscounts : ∃ S, (processes 2).Run All {} outlives S ∧ S.threads.map OsThread.pc = [.exited, .exited] ∧
    S.count = 1 ∧ S.registered = 0 :=
  ⟨_, .of_after rfl, rfl, rfl, rfl⟩

end Cando
