import Cando.Thread.Cancel

/-!
# Waiting for a thread

`cdo_thread_wait` loads the state twice in its loop condition. All changes of the state to a final one are followed by a
broadcast under the mutex, so no waiter sleeps on; but a thread that begins between the two loads is taken for one that
has finished.
-/

namespace Cando

open Interleaving

variable {ι φ β : Type} [DecidableEq ι]

/-! ### The mutex -/

/-- The places at which the trampoline has `done_mutex`. -/
def TrampolinePc.holds : TrampolinePc φ β → Bool
  | .write _ | .store _ | .broadcast _ | .unlock _ | .readCallback _ | .unlockCallback _ => true
  | _ => false

/-- The places at which a caller has it. -/
def CallerPc.holds : CallerPc φ β → Bool
  | .waitRunning | .waitPending | .waitCond | .waitUnlock | .cancelBroadcast | .cancelUnlock | .registerLoad _ _
  | .registerCopy _ _ | .registerStore _ _ | .registerUnlock | .unlockToCall _ _ _ => true
  | _ => false

/-- The places of the parties. -/
def ThreadSystem.holds (S : ThreadSystem ι φ β) : Party ι → Bool
  | .trampoline => S.trampoline.holds
  | .caller i => (S.callers i).holds

section Effects

variable {s s' : SharedThread ι φ β} {i : ι}

omit [DecidableEq ι] in
lemma trampolineStep_mutex {pc pc' : TrampolinePc φ β} (h : trampolineStep s pc = some (pc', s')) :
    MutexStep .trampoline s.mutex pc.holds s'.mutex pc'.holds := by
  cases pc with
  | lock | lockCallback =>
    obtain ⟨rfl, free, rfl⟩ := SharedThread.lock_to h
    rw [free]
    exact .take
  | unlock e => cases e <;> cases h <;> exact .release _
  | unlockCallback cb => cases cb <;> cases h <;> exact .release _
  | body | ended => cases h
  | _ =>
    cases h
    exact .keep _ _

lemma callerStep_mutex {pc pc' : CallerPc φ β} (h : callerStep i s pc = some (pc', s')) :
    MutexStep (.caller i) s.mutex pc.holds s'.mutex pc'.holds := by
  cases pc with
  | idle => cases h
  | waitLock | cancelLock | registerLock =>
    obtain ⟨rfl, free, rfl⟩ := SharedThread.lock_to h
    rw [free]
    exact .take
  | asleep =>
    simp only [callerStep] at h
    split at h
    · cases h
    · obtain ⟨rfl, free, rfl⟩ := SharedThread.lock_to h
      rw [free]
      exact .take
  | waitRunning | waitPending =>
    simp only [callerStep] at h
    cases h
    split <;> exact .keep _ _
  | cancelPending | cancelRunning =>
    simp only [callerStep] at h
    split at h <;> cases h <;> exact .keep _ _
  | registerLoad =>
    simp only [callerStep] at h
    split at h
    · cases h
      exact .keep _ _
    · split at h <;> cases h <;> exact .keep _ _
  | waitCond | waitUnlock | cancelUnlock | registerUnlock | unlockToCall =>
    cases h
    exact .release _
  | _ =>
    cases h
    exact .keep _ _

end Effects

/-- In every run the parties respect the mutex. -/
lemma run_owned {as : List (ThreadAct ι φ β)} {S : ThreadSystem ι φ β} (r : threads.Run All {} as S) :
    Owned S.holds S.shared.mutex := by
  refine r.invariant (I := fun S => Owned S.holds S.shared.mutex) ?_ ?_
  · refine threadStep_preserves ?_ ?_ ?_ ?_ ?_
    · intro S pc s _ stepped o
      refine o.step (trampolineStep_mutex stepped) fun q ne => ?_
      cases q with
      | trampoline => exact absurd rfl ne
      | caller i => rfl
    · intro S e _ at_body o p hp
      cases p with
      | trampoline => cases hp
      | caller i => exact o (.caller i) hp
    · intro S i c _ idle o p hp
      cases p with
      | trampoline => exact o .trampoline hp
      | caller j =>
        by_cases e : j = i
        · subst e
          simp only [ThreadSystem.holds, Function.update_self] at hp
          cases c <;> cases hp
        · simp only [ThreadSystem.holds, Function.update_of_ne e] at hp
          exact o (.caller j) hp
    · intro S i pc s _ stepped o
      refine o.step (p := .caller i) ?_ fun q ne => ?_
      · have st := callerStep_mutex stepped
        simp only [ThreadSystem.holds, Function.update_self]
        exact st
      · cases q with
        | trampoline => rfl
        | caller j =>
          have other : j ≠ i := fun e => ne (e ▸ rfl)
          simp only [ThreadSystem.holds, Function.update_of_ne other]
    · exact fun S i _ o => o
  · intro p hp
    cases p <;> cases hp

/-! ### No waiter sleeps on -/

/-- The caller sleeps in `cando_os_cond_wait`. -/
def ThreadSystem.Blocked (S : ThreadSystem ι φ β) (i : ι) : Prop :=
  S.callers i = .asleep ∧ S.shared.sleeping i = true

/-- Somebody has stored a final state and is yet to broadcast. -/
def ThreadSystem.Pending (S : ThreadSystem ι φ β) : Prop :=
  (∃ e, S.trampoline = .broadcast e) ∨ ∃ i, S.callers i = .cancelLock ∨ S.callers i = .cancelBroadcast

/-- Who sleeps or is about to do so waits for something: the thread has not finished, or a broadcast is to come. -/
def Roused (S : ThreadSystem ι φ β) : Prop :=
  ∀ i, S.callers i = .waitCond ∨ S.Blocked i → S.shared.thread.state.isDone = false ∨ S.Pending

section Effects

variable {s s' : SharedThread ι φ β} {i j : ι}

omit [DecidableEq ι] in
lemma trampolineStep_sleeping {pc pc' : TrampolinePc φ β} (h : trampolineStep s pc = some (pc', s'))
    (asleep : s'.sleeping i = true) : s.sleeping i = true ∧ ∀ e, pc ≠ .broadcast e := by
  cases pc with
  | lock | lockCallback =>
    obtain ⟨rfl, -, rfl⟩ := SharedThread.lock_to h
    exact ⟨asleep, nofun⟩
  | unlock e => cases e <;> cases h <;> exact ⟨asleep, nofun⟩
  | unlockCallback cb => cases cb <;> cases h <;> exact ⟨asleep, nofun⟩
  | body | ended => cases h
  | broadcast e =>
    cases h
    cases asleep
  | _ =>
    cases h
    exact ⟨asleep, nofun⟩

/-- A caller falls asleep at `cando_os_cond_wait` only, and its broadcast wakes all. -/
lemma callerStep_sleeping {pc pc' : CallerPc φ β} (h : callerStep i s pc = some (pc', s'))
    (asleep : s'.sleeping j = true) : (s.sleeping j = true ∨ j = i) ∧ pc ≠ .cancelBroadcast := by
  cases pc with
  | idle => cases h
  | waitLock | cancelLock | registerLock =>
    obtain ⟨rfl, -, rfl⟩ := SharedThread.lock_to h
    exact ⟨.inl asleep, by simp⟩
  | asleep =>
    simp only [callerStep] at h
    split at h
    · cases h
    · obtain ⟨rfl, -, rfl⟩ := SharedThread.lock_to h
      exact ⟨.inl asleep, by simp⟩
  | waitCond =>
    cases h
    refine ⟨?_, by simp⟩
    by_cases e : j = i
    · exact .inr e
    · simp only [Function.update_of_ne e] at asleep
      exact .inl asleep
  | cancelPending | cancelRunning =>
    simp only [callerStep] at h
    split at h <;> cases h <;> exact ⟨.inl asleep, by simp⟩
  | registerLoad =>
    simp only [callerStep] at h
    split at h
    · cases h
      exact ⟨.inl asleep, by simp⟩
    · split at h <;> cases h <;> exact ⟨.inl asleep, by simp⟩
  | cancelBroadcast =>
    cases h
    cases asleep
  | _ =>
    cases h
    exact ⟨.inl asleep, by simp⟩

/-- How a caller gets to `cando_os_cond_wait`, and to sleep. -/
lemma callerStep_waits {pc pc' : CallerPc φ β} (h : callerStep i s pc = some (pc', s')) :
    (pc' = .waitCond → s'.thread.state.isDone = false) ∧
      (pc' = .asleep → pc = .waitCond ∧ s'.thread.state = s.thread.state) := by
  cases pc with
  | idle => cases h
  | waitLock | cancelLock | registerLock =>
    obtain ⟨rfl, -, rfl⟩ := SharedThread.lock_to h
    exact ⟨by simp, by simp⟩
  | asleep =>
    simp only [callerStep] at h
    split at h
    · cases h
    · obtain ⟨rfl, -, rfl⟩ := SharedThread.lock_to h
      exact ⟨by simp, by simp⟩
  | waitCond =>
    cases h
    exact ⟨by simp, fun _ => ⟨rfl, rfl⟩⟩
  | waitRunning | waitPending =>
    simp only [callerStep] at h
    cases h
    split
    case isTrue here => exact ⟨fun _ => by rw [here]; rfl, by simp⟩
    case isFalse => exact ⟨by simp, by simp⟩
  | cancelPending | cancelRunning =>
    simp only [callerStep] at h
    split at h <;> cases h <;> exact ⟨by simp, by simp⟩
  | registerLoad =>
    simp only [callerStep] at h
    split at h
    · cases h
      exact ⟨by simp, by simp⟩
    · split at h <;> cases h <;> exact ⟨by simp, by simp⟩
  | _ =>
    cases h
    exact ⟨by simp, by simp⟩

/-- A caller that has cancelled goes on to its broadcast. -/
lemma callerStep_cancelLock {pc' : CallerPc φ β} (h : callerStep i s .cancelLock = some (pc', s')) :
    pc' = .cancelBroadcast := (SharedThread.lock_to h).1

end Effects

section Steps

variable {S : ThreadSystem ι φ β} {s : SharedThread ι φ β} {i : ι}

omit [DecidableEq ι] in
lemma trampoline_roused {pc : TrampolinePc φ β} (owned : Owned S.holds S.shared.mutex)
    (stepped : trampolineStep S.shared S.trampoline = some (pc, s)) (h : Roused S) :
    Roused { S with trampoline := pc, shared := s } := by
  intro j waits
  have before : (S.callers j = .waitCond ∨ S.Blocked j) ∧ ∀ e, S.trampoline ≠ .broadcast e := by
    obtain waits | ⟨asleep, sleeping⟩ := waits
    · refine ⟨.inl waits, fun e at_broadcast => ?_⟩
      have both := owned.exclusive (p := .trampoline) (q := .caller j) (by rw [ThreadSystem.holds, at_broadcast]; rfl)
        (by rw [ThreadSystem.holds, waits]; rfl)
      cases both
    · obtain ⟨sleeping, other⟩ := trampolineStep_sleeping stepped sleeping
      exact ⟨.inr ⟨asleep, sleeping⟩, other⟩
  have state := trampolineStep_state stepped
  have waiting := h j before.1
  cases pl : S.trampoline with
  | begun =>
    rw [pl] at state
    exact .inl (by show s.thread.state.isDone = false; rw [state]; rfl)
  | store e =>
    rw [pl] at stepped
    cases stepped
    exact .inr (.inl ⟨e, rfl⟩)
  | broadcast e => exact absurd pl (before.2 e)
  | _ =>
    rw [pl] at state
    obtain unfinished | ⟨e, at_broadcast⟩ | pending := waiting
    · exact .inl (by show s.thread.state.isDone = false; rw [state]; exact unfinished)
    · exact absurd at_broadcast (before.2 e)
    · exact .inr (.inr pending)

/-- What is pending stays so in a step of a caller that is not its broadcast. -/
lemma caller_pending {pc : CallerPc φ β} (stepped : callerStep i S.shared (S.callers i) = some (pc, s))
    (other : S.callers i ≠ .cancelBroadcast) (h : S.Pending) :
    ThreadSystem.Pending { S with callers := Function.update S.callers i pc, shared := s } := by
  obtain finishing | ⟨k, cancelling⟩ := h
  · exact .inl finishing
  · by_cases e : k = i
    · subst e
      have at_lock := cancelling.resolve_right other
      rw [at_lock] at stepped
      refine .inr ⟨k, .inr ?_⟩
      simp only [Function.update_self, callerStep_cancelLock stepped]
    · refine .inr ⟨k, ?_⟩
      simp only [Function.update_of_ne e]
      exact cancelling

lemma caller_roused {pc : CallerPc φ β} (owned : Owned S.holds S.shared.mutex)
    (stepped : callerStep i S.shared (S.callers i) = some (pc, s)) (h : Roused S) :
    Roused { S with callers := Function.update S.callers i pc, shared := s } := by
  have waits := callerStep_waits stepped
  -- a state that has become final is a pending cancellation, and what was pending still is
  have carry (j : ι) (before : S.callers j = .waitCond ∨ S.Blocked j)
      (other : S.callers i ≠ .cancelBroadcast) : s.thread.state.isDone = false ∨
        ThreadSystem.Pending { S with callers := Function.update S.callers i pc, shared := s } := by
    obtain ⟨same, -⟩ | ⟨-, -, rfl⟩ := callerStep_state stepped
    · obtain unfinished | pending := h j before
      · exact .inl (same ▸ unfinished)
      · exact .inr (caller_pending stepped other pending)
    · exact .inr (.inr ⟨i, .inl (by simp only [Function.update_self])⟩)
  intro j waiting
  by_cases e : j = i
  · subst e
    simp only [ThreadSystem.Blocked, Function.update_self] at waiting
    obtain at_cond | ⟨asleep, -⟩ := waiting
    · exact .inl (waits.1 at_cond)
    · have at_cond := (waits.2 asleep).1
      exact carry j (.inl at_cond) (by rw [at_cond]; nofun)
  · simp only [ThreadSystem.Blocked, Function.update_of_ne e] at waiting
    obtain at_cond | ⟨asleep, sleeping⟩ := waiting
    · refine carry j (.inl at_cond) fun at_broadcast => ?_
      have both := owned.exclusive (p := .caller i) (q := .caller j) (by rw [ThreadSystem.holds, at_broadcast]; rfl)
        (by rw [ThreadSystem.holds, at_cond]; rfl)
      cases both
      exact e rfl
    · obtain ⟨before, other⟩ := callerStep_sleeping stepped sleeping
      exact carry j (.inr ⟨asleep, before.resolve_right e⟩) other

end Steps

/-- In no run does a waiter sleep on when the thread has finished and all have broadcast. -/
lemma run_roused {as : List (ThreadAct ι φ β)} {S : ThreadSystem ι φ β} (r : threads.Run All {} as S) : Roused S := by
  induction r with
  | nil => exact fun i h => .inl rfl
  | @snoc as S a S' run _ step ih =>
    have owned := run_owned run
    refine threadStep_preserves (G := fun T _ => T = S) (I := Roused) ?_ ?_ ?_ ?_ ?_ S a S' rfl step ih
    · rintro T pc s rfl stepped ih
      exact trampoline_roused owned stepped ih
    · rintro T e rfl at_body ih i waits
      obtain unfinished | ⟨e', at_broadcast⟩ | pending := ih i waits
      · exact .inl unfinished
      · rw [at_body] at at_broadcast
        cases at_broadcast
      · exact .inr (.inr pending)
    · rintro T i c rfl idle ih j waits
      by_cases e : j = i
      · subst e
        simp only [ThreadSystem.Blocked, Function.update_self] at waits
        cases c <;> obtain e | ⟨e, -⟩ := waits <;> cases e
      · simp only [ThreadSystem.Blocked, Function.update_of_ne e] at waits
        obtain unfinished | finishing | pending := ih j waits
        · exact .inl unfinished
        · exact .inr (.inl finishing)
        · refine .inr (.inr (exists_update (p := fun pc : CallerPc φ β => pc = .cancelLock ∨
            pc = .cancelBroadcast) pending ?_))
          rw [idle]
          exact fun h => h.elim nofun nofun
    · rintro T i pc s rfl stepped ih
      exact caller_roused owned stepped ih
    · rintro T i rfl ih j waits
      refine ih j (waits.imp_right fun ⟨asleep, sleeping⟩ => ⟨asleep, ?_⟩)
      by_cases e : j = i
      · subst e
        simp only [Function.update_self] at sleeping
        cases sleeping
      · simp only [Function.update_of_ne e] at sleeping
        exact sleeping

/-! ### What a wait has waited for -/

/-- The thread is about to be marked as running while a waiter stands between its two loads. -/
def Misleads (S : ThreadSystem ι φ β) (a : ThreadAct ι φ β) : Prop :=
  a = .trampoline ∧ S.trampoline = .begun ∧ S.shared.thread.state = .pending ∧ ∃ i, S.callers i = .waitPending

/-- Somewhere along the schedule the thread had finished. -/
def HasFinished (as : List (ThreadAct ι φ β)) : Prop :=
  ∃ xs ys S, as = xs ++ ys ∧ threads.Run All {} xs S ∧ S.shared.thread.state.isDone = true

lemma HasFinished.snoc {as : List (ThreadAct ι φ β)} {a : ThreadAct ι φ β} (h : HasFinished as) :
    HasFinished (as ++ [a]) := by
  obtain ⟨xs, ys, S, rfl, run, done⟩ := h
  exact ⟨xs, ys ++ [a], S, List.append_assoc _ _ _, run, done⟩

/-- The second load of a waiter sees a finished thread, or one that has not begun. -/
structure Attentive (as : List (ThreadAct ι φ β)) (S : ThreadSystem ι φ β) : Prop where
  between : ∀ i, S.callers i = .waitPending → S.shared.thread.state = .pending ∨ HasFinished as
  ended : ∀ i, S.callers i = .waitUnlock ∨ S.callers i = .waited → HasFinished as

/-- How a caller gets out of the loop of `cdo_thread_wait`. -/
lemma callerStep_leaves {s s' : SharedThread ι φ β} {i : ι} {pc pc' : CallerPc φ β}
    (h : callerStep i s pc = some (pc', s')) :
    (pc' = .waitPending → s' = s ∧ s.thread.state ≠ .running) ∧
      (pc' = .waitUnlock → pc = .waitPending ∧ s.thread.state ≠ .pending) ∧ (pc' = .waited → pc = .waitUnlock) := by
  cases pc with
  | idle => cases h
  | waitLock | cancelLock | registerLock =>
    obtain ⟨rfl, -, rfl⟩ := SharedThread.lock_to h
    exact ⟨by simp, by simp, by simp⟩
  | asleep =>
    simp only [callerStep] at h
    split at h
    · cases h
    · obtain ⟨rfl, -, rfl⟩ := SharedThread.lock_to h
      exact ⟨by simp, by simp, by simp⟩
  | waitRunning =>
    simp only [callerStep] at h
    cases h
    split
    case isTrue => exact ⟨by simp, by simp, by simp⟩
    case isFalse other => exact ⟨fun _ => ⟨rfl, other⟩, by simp, by simp⟩
  | waitPending =>
    simp only [callerStep] at h
    cases h
    split
    case isTrue => exact ⟨by simp, by simp, by simp⟩
    case isFalse other => exact ⟨by simp, fun _ => ⟨rfl, other⟩, by simp⟩
  | waitUnlock =>
    cases h
    exact ⟨by simp, by simp, fun _ => rfl⟩
  | cancelPending | cancelRunning =>
    simp only [callerStep] at h
    split at h <;> cases h <;> exact ⟨by simp, by simp, by simp⟩
  | registerLoad =>
    simp only [callerStep] at h
    split at h
    · cases h
      exact ⟨by simp, by simp, by simp⟩
    · split at h <;> cases h <;> exact ⟨by simp, by simp, by simp⟩
  | _ =>
    cases h
    exact ⟨by simp, by simp, by simp⟩

/-- A state that is no longer pending is final, unless the thread has just begun. -/
lemma step_pending {S S' : ThreadSystem ι φ β} {a : ThreadAct ι φ β} (step : threads.step S a = some S')
    (expects : S.trampoline.Expects S.shared.thread.state) (pending : S.shared.thread.state = .pending) :
    S'.shared.thread.state = .pending ∨ S'.shared.thread.state.isDone = true ∨
      a = .trampoline ∧ S.trampoline = .begun := by
  refine threadStep_preserves (G := fun T b => T = S ∧ b = a) (I := fun T => T.shared.thread.state = .pending ∨
    T.shared.thread.state.isDone = true ∨ a = .trampoline ∧ S.trampoline = .begun) ?_ ?_ ?_ ?_ ?_ S a S' ⟨rfl, rfl⟩ step
    (.inl pending)
  · rintro T pc s ⟨rfl, rfl⟩ stepped -
    have state := trampolineStep_state stepped
    cases pl : T.trampoline with
    | begun => exact .inr (.inr ⟨rfl, rfl⟩)
    | store e =>
      rw [pl, pending] at expects
      exact absurd expects (by simp [TrampolinePc.Expects])
    | _ =>
      rw [pl] at state
      exact .inl (state.trans pending)
  · exact fun _ _ _ _ h => h
  · exact fun _ _ _ _ _ h => h
  · rintro T i pc s ⟨rfl, rfl⟩ stepped -
    obtain ⟨same, -⟩ | ⟨-, cancelled, -⟩ := callerStep_state stepped
    · exact .inl (same.trans pending)
    · exact .inr (.inl (by show s.thread.state.isDone = true; rw [cancelled]; rfl))
  · exact fun _ _ _ h => h

/-- The callers that are out of the loop, or between the two loads, after a step. -/
lemma step_leaves {S S' : ThreadSystem ι φ β} {a : ThreadAct ι φ β} (step : threads.step S a = some S') (i : ι) :
    (S'.callers i = .waitPending → S.callers i = .waitPending ∨
      S'.shared.thread.state = S.shared.thread.state ∧ S.shared.thread.state ≠ .running) ∧
    (S'.callers i = .waitUnlock → S.callers i = .waitUnlock ∨
      S.callers i = .waitPending ∧ S.shared.thread.state ≠ .pending) ∧
    (S'.callers i = .waited → S.callers i = .waited ∨ S.callers i = .waitUnlock) := by
  refine threadStep_preserves (G := fun T _ => T = S) (I := fun T => ∀ i, (T.callers i = .waitPending →
      S.callers i = .waitPending ∨ T.shared.thread.state = S.shared.thread.state ∧ S.shared.thread.state ≠ .running) ∧
    (T.callers i = .waitUnlock → S.callers i = .waitUnlock ∨
      S.callers i = .waitPending ∧ S.shared.thread.state ≠ .pending) ∧
    (T.callers i = .waited → S.callers i = .waited ∨ S.callers i = .waitUnlock)) ?_ ?_ ?_ ?_ ?_ S a S' rfl step
    (fun i => ⟨.inl, .inl, .inl⟩) i
  · rintro T pc s rfl _ -
    exact fun i => ⟨.inl, .inl, .inl⟩
  · exact fun _ _ _ _ h => h
  · rintro T i c rfl idle - j
    by_cases e : j = i
    · subst e
      simp only [Function.update_self]
      cases c <;> exact ⟨nofun, nofun, nofun⟩
    · simp only [Function.update_of_ne e]
      exact ⟨.inl, .inl, .inl⟩
  · rintro T i pc s rfl stepped - j
    by_cases e : j = i
    · subst e
      simp only [Function.update_self]
      obtain ⟨between, unlock, waited⟩ := callerStep_leaves stepped
      refine ⟨fun h => .inr ?_, fun h => .inr (unlock h), fun h => .inr (waited h)⟩
      obtain ⟨rfl, other⟩ := between h
      exact ⟨rfl, other⟩
    · simp only [Function.update_of_ne e]
      exact ⟨.inl, .inl, .inl⟩
  · exact fun _ _ _ h => h

/-- As long as no waiter is misled, every wait has waited for the end of the thread. -/
lemma run_waiting {as : List (ThreadAct ι φ β)} {S : ThreadSystem ι φ β}
    (r : threads.Run (fun S a => ¬ Misleads S a) {} as S) : Attentive as S := by
  induction r with
  | nil => exact ⟨nofun, fun i h => h.elim nofun nofun⟩
  | @snoc as S a S' run sound step ih =>
    have leaves := step_leaves step
    have now (done : S'.shared.thread.state.isDone = true) : HasFinished (as ++ [a]) :=
      ⟨as ++ [a], [], S', (List.append_nil _).symm, (run.snoc sound step).all, done⟩
    have before (done : S.shared.thread.state.isDone = true) : HasFinished (as ++ [a]) :=
      HasFinished.snoc ⟨as, [], S, (List.append_nil _).symm, run.all, done⟩
    constructor
    · intro i between
      obtain stood | ⟨same, other⟩ := (leaves i).1 between
      · obtain pending | finished := ih.between i stood
        · obtain pending' | done | ⟨rfl, begun⟩ := step_pending step (run_expects run.all) pending
          · exact .inl pending'
          · exact .inr (now done)
          · exact absurd ⟨rfl, begun, pending, i, stood⟩ sound
        · exact .inr finished.snoc
      · cases state : S.shared.thread.state with
        | pending => exact .inl (same.trans state)
        | running => exact absurd state other
        | done | error | cancelled => exact .inr (before (by rw [state]; rfl))
    · rintro i (unlock | waited)
      · obtain stood | ⟨stood, other⟩ := (leaves i).2.1 unlock
        · exact (ih.ended i (.inl stood)).snoc
        · exact ((ih.between i stood).resolve_left other).snoc
      · obtain stood | stood := (leaves i).2.2 waited
        · exact (ih.ended i (.inr stood)).snoc
        · exact (ih.ended i (.inl stood)).snoc

/-- As long as the thread is not marked as running between the two loads of a waiter, `cdo_thread_wait` returns only
when the thread has finished; and in every run no waiter is blocked when the thread has finished and all have
broadcast. -/
theorem wait_sound {as : List (ThreadAct ι φ β)} {S : ThreadSystem ι φ β}
    (r : threads.Run (fun S a => ¬ Misleads S a) {} as S) :
    (∀ i, S.callers i = .waited → HasFinished as) ∧
      (S.shared.thread.state.isDone = true → ¬ S.Pending → ∀ i, ¬ S.Blocked i) := by
  refine ⟨fun i waited => (run_waiting r).ended i (.inr waited), fun done quiet i blocked => ?_⟩
  obtain unfinished | pending := run_roused r.all i (.inr blocked)
  · rw [done] at unfinished
    cases unfinished
  · exact quiet pending

/-- A wait for a thread that is done. -/
def lateWait : List (ThreadAct Unit Unit Nat) :=
  [.trampoline, .bodyEnds (.results [1]), .trampoline, .trampoline, .trampoline, .trampoline, .trampoline,
    .call () .wait, .caller (), .caller (), .caller (), .caller ()]

theorem wait_sound_late : ∃ S : ThreadSystem Unit Unit Nat, S.callers () = .waited ∧ S.shared.thread.state = .done ∧
    (∀ i, S.callers i = .waited → HasFinished lateWait) ∧
      (S.shared.thread.state.isDone = true → ¬ S.Pending → ∀ i, ¬ S.Blocked i) := by
  have passes (S : ThreadSystem Unit Unit Nat) (a : ThreadAct Unit Unit Nat)
      (h : decide (S.callers () ≠ .waitPending ∨ a ≠ .trampoline) = true) : ¬ Misleads S a := by
    rintro ⟨rfl, -, -, ⟨⟩, between⟩
    obtain other | other := of_decide_eq_true h
    · exact other between
    · exact other rfl
  exact ⟨_, rfl, rfl, wait_sound (.of_restrict rfl passes)⟩

/-- The thread begins between the two loads of a waiter, and the waiter returns while it runs. -/
def earlyReturn : List (ThreadAct Unit Unit Nat) :=
  [.call () .wait, .caller (), .caller (), .trampoline, .caller (), .caller ()]

theorem wait_returns_early : ∃ S : ThreadSystem Unit Unit Nat, threads.Run All {} earlyReturn S ∧
    S.callers () = .waited ∧ S.shared.thread.state = .running ∧ ¬ HasFinished earlyReturn := by
  refine ⟨_, .of_after rfl, rfl, rfl, ?_⟩
  rintro ⟨xs, ys, T, e, run, done⟩
  have never : ∀ n < 7, (threads.after {} (earlyReturn.take n)).any (·.shared.thread.state.isDone) = false := by decide
  have short : xs.length < 7 := by
    have := congrArg List.length e
    rw [List.length_append] at this
    exact Nat.lt_succ_of_le (Nat.le.intro this.symm)
  have seen := never xs.length short
  rw [e, List.take_left, run.after_eq, Option.any_some, done] at seen
  cases seen

end Cando
