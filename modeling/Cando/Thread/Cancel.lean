import Cando.Thread.Object

/-!
# The state of a thread

The state is written from two sides: `thread.cancel` compares and exchanges, the trampoline stores without looking. So a
thread that was cancelled stays so unless the trampoline still has a store to make.
-/

namespace Cando

open Interleaving

variable {ι φ β : Type} [DecidableEq ι]

/-- What all the steps of the parties preserve, one by one. -/
lemma threadStep_preserves {G : ThreadSystem ι φ β → ThreadAct ι φ β → Prop} {I : ThreadSystem ι φ β → Prop}
    (trampoline : ∀ S pc s, G S .trampoline → trampolineStep S.shared S.trampoline = some (pc, s) → I S →
      I { S with trampoline := pc, shared := s })
    (bodyEnds : ∀ S e, G S (.bodyEnds e) → S.trampoline = .body → I S → I { S with trampoline := .lock e })
    (call : ∀ S i c, G S (.call i c) → S.callers i = .idle → I S →
      I { S with callers := Function.update S.callers i (callerBegin c) })
    (caller : ∀ S i pc s, G S (.caller i) → callerStep i S.shared (S.callers i) = some (pc, s) → I S →
      I { S with callers := Function.update S.callers i pc, shared := s })
    (wakeup : ∀ S i, G S (.wakeup i) → I S →
      I { S with shared := { S.shared with sleeping := Function.update S.shared.sleeping i false } })
    (S : ThreadSystem ι φ β) (a : ThreadAct ι φ β) (S' : ThreadSystem ι φ β) (admits : G S a)
    (step : threads.step S a = some S') (h : I S) : I S' := by
  cases a with
  | trampoline =>
    obtain ⟨⟨pc, s⟩, stepped, rfl⟩ := Option.map_eq_some_iff.mp step
    exact trampoline S pc s admits stepped h
  | bodyEnds e =>
    simp only [threads, threadStep] at step
    split at step
    case h_1 at_body =>
      cases step
      exact bodyEnds S e admits at_body h
    case h_2 => cases step
  | call i c =>
    simp only [threads, threadStep] at step
    split at step
    case h_1 idle =>
      cases step
      exact call S i c admits idle h
    case h_2 => cases step
  | caller i =>
    obtain ⟨⟨pc, s⟩, stepped, rfl⟩ := Option.map_eq_some_iff.mp step
    exact caller S i pc s admits stepped h
  | wakeup i =>
    cases step
    exact wakeup S i admits h

/-! ### Who writes the state -/

/-- The store of a state that the trampoline is about to make. -/
def TrampolinePc.stores : TrampolinePc φ β → Option ThreadState
  | .begun => some .running
  | .store e => some e.state
  | _ => none

section Effects

variable {s s' : SharedThread ι φ β} {p : Party ι} {i : ι}

omit [DecidableEq ι] in
/-- A step that takes the mutex. -/
lemma SharedThread.lock_to {κ : Type} {pc pc' : κ} (h : (s.lock p).map (pc, ·) = some (pc', s')) :
    pc' = pc ∧ s.mutex = none ∧ s' = { s with mutex := some p } := by
  obtain ⟨s₁, locked, e⟩ := Option.map_eq_some_iff.mp h
  cases e
  unfold SharedThread.lock at locked
  split at locked
  case h_1 free => exact ⟨rfl, free, (Option.some.inj locked).symm⟩
  case h_2 => cases locked

omit [DecidableEq ι] in
lemma BodyEnd.write_state (e : BodyEnd β) (t : CdoThread φ β) : (e.write t).state = t.state := by
  cases e <;> rfl

omit [DecidableEq ι] in
lemma Callback.set_state (k : Callback) (t : CdoThread φ β) (f : φ) : (k.set t f).state = t.state := by
  cases k <;> rfl

omit [DecidableEq ι] in
/-- The trampoline changes the state by its stores only. -/
lemma trampolineStep_state {pc pc' : TrampolinePc φ β} (h : trampolineStep s pc = some (pc', s')) :
    s'.thread.state = pc.stores.getD s.thread.state := by
  cases pc with
  | lock e =>
    obtain ⟨-, -, rfl⟩ := SharedThread.lock_to h
    rfl
  | lockCallback final =>
    obtain ⟨-, -, rfl⟩ := SharedThread.lock_to h
    rfl
  | write e =>
    cases h
    exact e.write_state _
  | unlock e => cases e <;> cases h <;> rfl
  | unlockCallback cb => cases cb <;> cases h <;> rfl
  | body => cases h
  | ended => cases h
  | _ => cases h; rfl

/-- A caller changes the state by cancelling a thread that has not finished. -/
lemma callerStep_state {pc pc' : CallerPc φ β} (h : callerStep i s pc = some (pc', s')) :
    s'.thread.state = s.thread.state ∧ pc' ≠ .cancelLock ∨
      s.thread.state.isDone = false ∧ s'.thread.state = .cancelled ∧ pc' = .cancelLock := by
  cases pc with
  | idle => cases h
  | waitLock | cancelLock | registerLock =>
    obtain ⟨rfl, -, rfl⟩ := SharedThread.lock_to h
    exact .inl ⟨rfl, nofun⟩
  | asleep =>
    simp only [callerStep] at h
    split at h
    · cases h
    · obtain ⟨rfl, -, rfl⟩ := SharedThread.lock_to h
      exact .inl ⟨rfl, nofun⟩
  | cancelPending =>
    simp only [callerStep] at h
    split at h
    case isTrue here =>
      cases h
      exact .inr ⟨by rw [here]; rfl, rfl, rfl⟩
    case isFalse =>
      cases h
      exact .inl ⟨rfl, nofun⟩
  | cancelRunning =>
    simp only [callerStep] at h
    split at h
    case isTrue here =>
      cases h
      exact .inr ⟨by rw [here]; rfl, rfl, rfl⟩
    case isFalse =>
      cases h
      exact .inl ⟨rfl, nofun⟩
  | waitRunning | waitPending =>
    simp only [callerStep] at h
    cases h
    refine .inl ⟨rfl, ?_⟩
    split <;> nofun
  | registerLoad k f =>
    simp only [callerStep] at h
    split at h
    · cases h
      exact .inl ⟨rfl, nofun⟩
    · split at h <;> cases h <;> exact .inl ⟨rfl, nofun⟩
  | registerStore k f =>
    cases h
    exact .inl ⟨k.set_state _ f, nofun⟩
  | _ =>
    cases h
    exact .inl ⟨rfl, nofun⟩

end Effects

/-! ### Where the trampoline is and what the state is -/

/-- The states that go with the place of the trampoline. -/
def TrampolinePc.Expects : TrampolinePc φ β → ThreadState → Prop
  | .begun => fun st => st = .pending ∨ st = .cancelled
  | .body | .lock _ | .write _ | .store _ => fun st => st = .running ∨ st = .cancelled
  | .broadcast e | .unlock e => fun st => st = e.state
  | .lockCallback final | .readCallback final => fun st => st = final ∧ (st = .done ∨ st = .error)
  | .unlockCallback (some (k, _)) | .call k _ => fun st => st = k.state
  | .load | .unlockCallback none | .ended => fun st => st = .done ∨ st = .error

lemma BodyEnd.state_eq (e : BodyEnd β) : e.state = .done ∨ e.state = .error := by
  cases e with
  | results => exact .inl rfl
  | _ => exact .inr rfl

lemma Callback.state_eq (k : Callback) : k.state = .done ∨ k.state = .error := by
  cases k with
  | onDone => exact .inl rfl
  | onError => exact .inr rfl

/-- A cancellation can come as long as a store is to come. -/
lemma TrampolinePc.Expects.cancel {pc : TrampolinePc φ β} {st : ThreadState} (h : pc.Expects st)
    (unfinished : st.isDone = false) : pc.Expects .cancelled := by
  have other (e : st = .done ∨ st = .error) : False := by
    obtain rfl | rfl := e <;> cases unfinished
  cases pc with
  | begun | body | lock | write | store => exact .inr rfl
  | broadcast e | unlock e => exact (other (h ▸ e.state_eq)).elim
  | lockCallback | readCallback => exact (other h.2).elim
  | unlockCallback cb =>
    cases cb with
    | none => exact (other h).elim
    | some c => exact (other (h ▸ c.1.state_eq)).elim
  | call k f => exact (other (h ▸ k.state_eq)).elim
  | load | ended => exact (other h).elim

omit [DecidableEq ι] in
lemma trampolineStep_expects {s s' : SharedThread ι φ β} {pc pc' : TrampolinePc φ β}
    (h : trampolineStep s pc = some (pc', s')) (e : pc.Expects s.thread.state) : pc'.Expects s'.thread.state := by
  have state := trampolineStep_state h
  cases pc with
  | begun =>
    cases h
    exact .inl rfl
  | body => cases h
  | lock b =>
    obtain ⟨rfl, -, -⟩ := SharedThread.lock_to h
    rw [state]
    exact e
  | write b =>
    cases h
    rw [state]
    exact e
  | store b =>
    cases h
    rfl
  | broadcast b =>
    cases h
    exact e
  | unlock b =>
    rw [state]
    have final : s.thread.state = .done ∨ s.thread.state = .error := e ▸ b.state_eq
    cases b <;> cases h <;> exact final
  | load =>
    cases h
    exact ⟨rfl, e⟩
  | lockCallback final =>
    obtain ⟨rfl, -, -⟩ := SharedThread.lock_to h
    rw [state]
    exact e
  | readCallback final =>
    cases h
    obtain ⟨rfl, done | error⟩ := e
    · rw [done, findCallback]
      cases s.thread.thenFn with
      | none => exact .inl rfl
      | some f => rfl
    · rw [error, findCallback]
      cases s.thread.catchFn with
      | none => exact .inr rfl
      | some f => rfl
  | unlockCallback cb =>
    cases cb with
    | none =>
      cases h
      exact e
    | some c =>
      cases h
      exact e
  | call k f =>
    cases h
    rw [state]
    exact e ▸ k.state_eq
  | ended => cases h

/-- In every run the state is one that goes with the place of the trampoline. -/
lemma run_expects {as : List (ThreadAct ι φ β)} {S : ThreadSystem ι φ β} (r : threads.Run All {} as S) :
    S.trampoline.Expects S.shared.thread.state := by
  refine r.invariant (I := fun S => S.trampoline.Expects S.shared.thread.state) ?_ (.inl rfl)
  refine threadStep_preserves ?_ ?_ ?_ ?_ ?_
  · exact fun S pc s _ stepped e => trampolineStep_expects stepped e
  · intro S b _ at_body e
    rw [at_body] at e
    exact e
  · exact fun _ _ _ _ _ e => e
  · intro S i pc s _ stepped e
    obtain ⟨same, -⟩ | ⟨unfinished, cancelled, -⟩ := callerStep_state stepped
    · exact same.symm ▸ e
    · exact cancelled.symm ▸ e.cancel unfinished
  · exact fun _ _ _ e => e

/-! ### Cancellation -/

/-- The trampoline is about to store a state over `CDO_THREAD_CANCELLED`. -/
def Overwrites (S : ThreadSystem ι φ β) (a : ThreadAct ι φ β) : Prop :=
  a = .trampoline ∧ S.trampoline.stores ≠ none ∧ S.shared.thread.state = .cancelled

/-- Along a run, a thread that has finished keeps its state, and one for which `thread.cancel` has returned `TRUE` stays
cancelled. -/
def Settles (as : List (ThreadAct ι φ β)) : Prop :=
  ∀ xs ys zs S S', as = xs ++ ys ++ zs → threads.Run All {} xs S → threads.Run All S ys S' →
    (S.shared.thread.state.isDone = true → S'.shared.thread.state = S.shared.thread.state) ∧
      ∀ i, S.callers i = .cancelReturned true → S'.shared.thread.state = .cancelled

/-- A step that overwrites nothing leaves the state of a finished thread. -/
lemma step_settled {S S' : ThreadSystem ι φ β} {a : ThreadAct ι φ β} (keeps : ¬ Overwrites S a)
    (step : threads.step S a = some S') (expects : S.trampoline.Expects S.shared.thread.state)
    (finished : S.shared.thread.state.isDone = true) : S'.shared.thread.state = S.shared.thread.state := by
  refine threadStep_preserves (G := fun T b => T = S ∧ b = a)
    (I := fun T => T.shared.thread.state = S.shared.thread.state) ?_ ?_ ?_ ?_ ?_ S a S' ⟨rfl, rfl⟩ step rfl
  · rintro T pc s ⟨rfl, rfl⟩ stepped -
    rw [trampolineStep_state stepped]
    cases pl : T.trampoline with
    | begun =>
      rw [pl] at expects
      obtain pending | cancelled := expects
      · rw [pending] at finished
        cases finished
      · exact absurd ⟨rfl, by rw [pl]; nofun, cancelled⟩ keeps
    | store e =>
      rw [pl] at expects
      obtain running | cancelled := expects
      · rw [running] at finished
        cases finished
      · exact absurd ⟨rfl, by rw [pl]; nofun, cancelled⟩ keeps
    | _ => rfl
  · exact fun _ _ _ _ h => h
  · exact fun _ _ _ _ _ h => h
  · rintro T i pc s ⟨rfl, rfl⟩ stepped -
    obtain ⟨same, -⟩ | ⟨unfinished, -, -⟩ := callerStep_state stepped
    · exact same
    · rw [finished] at unfinished
      cases unfinished
  · exact fun _ _ _ h => h

/-- The places of a caller that has cancelled the thread. -/
def CallerPc.HasCancelled : CallerPc φ β → Prop
  | .cancelLock | .cancelBroadcast | .cancelUnlock | .cancelReturned true => True
  | _ => False

lemma callerStep_hasCancelled {s s' : SharedThread ι φ β} {i : ι} {pc pc' : CallerPc φ β}
    (h : callerStep i s pc = some (pc', s')) (has : pc'.HasCancelled) : pc.HasCancelled ∨ pc' = .cancelLock := by
  cases pc with
  | cancelLock | cancelBroadcast | cancelUnlock => exact .inl trivial
  | cancelPending | cancelRunning =>
    simp only [callerStep] at h
    split at h
    · cases h
      exact .inr rfl
    · cases h
      exact has.elim
  | idle => cases h
  | waitLock | registerLock =>
    obtain ⟨rfl, -, -⟩ := SharedThread.lock_to h
    exact has.elim
  | asleep =>
    simp only [callerStep] at h
    split at h
    · cases h
    · obtain ⟨rfl, -, -⟩ := SharedThread.lock_to h
      exact has.elim
  | waitRunning | waitPending =>
    simp only [callerStep] at h
    cases h
    split at has <;> exact has.elim
  | registerLoad =>
    simp only [callerStep] at h
    split at h
    · cases h
      exact has.elim
    · split at h <;> cases h <;> exact has.elim
  | _ =>
    cases h
    exact has.elim

/-- What is true of cancelled threads as long as nothing is overwritten. -/
structure Cancelling (S : ThreadSystem ι φ β) : Prop where
  expects : S.trampoline.Expects S.shared.thread.state
  cancelled : ∀ i, (S.callers i).HasCancelled → S.shared.thread.state = .cancelled

/-- A caller that has cancelled the thread did so before, or just now. -/
lemma step_hasCancelled {S S' : ThreadSystem ι φ β} {a : ThreadAct ι φ β} (step : threads.step S a = some S') :
    ∀ i, (S'.callers i).HasCancelled → (∃ j, (S.callers j).HasCancelled) ∨ S'.shared.thread.state = .cancelled := by
  refine threadStep_preserves (G := fun T _ => T = S) (I := fun T => ∀ i, (T.callers i).HasCancelled →
    (∃ j, (S.callers j).HasCancelled) ∨ T.shared.thread.state = .cancelled) ?_ ?_ ?_ ?_ ?_ S a S' rfl step
    fun i has => .inl ⟨i, has⟩
  · rintro T pc s rfl _ -
    exact fun i has => .inl ⟨i, has⟩
  · exact fun T e same _ h => h
  · intro T i c same _ h
    refine forall_update (p := fun _ pc => CallerPc.HasCancelled pc → _) ?_ fun j _ => h j
    cases c <;> exact fun has => has.elim
  · rintro T i pc s rfl stepped -
    refine forall_update (p := fun _ pc => CallerPc.HasCancelled pc → _) (fun has => ?_) fun j _ has => .inl ⟨j, has⟩
    obtain before | rfl := callerStep_hasCancelled stepped has
    · exact .inl ⟨i, before⟩
    · obtain ⟨-, other⟩ | ⟨-, cancelled, -⟩ := callerStep_state stepped
      · exact absurd rfl other
      · exact .inr cancelled
  · exact fun _ _ _ h => h

/-- As long as nothing is overwritten, a thread that somebody has cancelled is cancelled. -/
lemma run_cancelling {as : List (ThreadAct ι φ β)} {S : ThreadSystem ι φ β}
    (r : threads.Run (fun S a => ¬ Overwrites S a) {} as S) : Cancelling S := by
  induction r with
  | nil => exact ⟨.inl rfl, fun i has => has.elim⟩
  | snoc run keeps step ih =>
    refine ⟨run_expects (run.snoc keeps step).all, fun i has => ?_⟩
    obtain ⟨j, before⟩ | cancelled := step_hasCancelled step i has
    · have cancelled := ih.cancelled j before
      rw [step_settled keeps step ih.expects (by rw [cancelled]; rfl), cancelled]
    · exact cancelled

lemma run_settled {as bs : List (ThreadAct ι φ β)} {S S' : ThreadSystem ι φ β}
    (before : threads.Run All {} as S) (r : threads.Run (fun S a => ¬ Overwrites S a) S bs S')
    (finished : S.shared.thread.state.isDone = true) : S'.shared.thread.state = S.shared.thread.state := by
  induction r with
  | nil => rfl
  | snoc run keeps step ih =>
    have expects := run_expects (before.append run.all)
    rw [step_settled keeps step expects (by rw [ih]; exact finished), ih]

omit [DecidableEq ι] in
lemma TrampolinePc.stores_ne {pc : TrampolinePc φ β} {st : ThreadState} (h : pc.stores = some st) :
    st ≠ .cancelled := by
  cases pc with
  | begun =>
    cases h
    nofun
  | store e =>
    cases h
    obtain e | e := e.state_eq <;> rw [e] <;> nofun
  | _ => cases h

/-- A thread keeps the state in which it finished, and one that was cancelled stays cancelled, just when the trampoline
makes no store after the cancellation. -/
theorem settles_iff {as : List (ThreadAct ι φ β)} {S : ThreadSystem ι φ β} (r : threads.Run All {} as S) :
    Settles as ↔ ∀ xs a ys T, as = xs ++ a :: ys → threads.Run All {} xs T → ¬ Overwrites T a := by
  constructor
  · rintro settles xs a ys T rfl before ⟨rfl, stores, cancelled⟩
    obtain ⟨T₁, r₁, r₂⟩ := r.cut
    obtain rfl := r₁.unique before
    obtain ⟨T₂, -, step, -⟩ := r₂.head
    have kept := (settles xs [.trampoline] ys T₁ T₂ (List.append_cons xs _ ys) before (.single trivial step)).1
      (by rw [cancelled]; rfl)
    obtain ⟨⟨pc, s⟩, moved, rfl⟩ := Option.map_eq_some_iff.mp step
    obtain ⟨st, stores⟩ := Option.ne_none_iff_exists'.mp stores
    have state := trampolineStep_state moved
    rw [stores, Option.getD_some] at state
    exact TrampolinePc.stores_ne stores (state.symm.trans (kept.trans cancelled))
  · rintro keeps xs ys zs S₁ S₂ rfl r₁ r₂
    obtain ⟨S₃, whole, -⟩ := r.cut
    obtain rfl := whole.unique (r₁.append r₂)
    have guarded := whole.guarded fun us a vs T e before =>
      keeps us a (vs ++ zs) T (by rw [e, List.append_assoc, List.cons_append]) before
    obtain ⟨S₄, front, back⟩ := guarded.cut
    obtain rfl := front.unique r₁
    refine ⟨run_settled r₁ back, fun i returned => ?_⟩
    have cancelled := (run_cancelling front).cancelled i (by rw [returned]; trivial)
    rw [run_settled r₁ back (by rw [cancelled]; rfl), cancelled]

/-- Before the thread begins, a cancellation overwrites nothing. -/
theorem settles_iff_cancel : Settles ([.call () .cancel, .caller ()] : List (ThreadAct Unit Unit Nat)) ↔
    ∀ xs a ys T, ([.call () .cancel, .caller ()] : List (ThreadAct Unit Unit Nat)) = xs ++ a :: ys →
      threads.Run All {} xs T → ¬ Overwrites T a :=
  settles_iff (.of_after rfl)

/-- A thread that is cancelled before it begins runs on, and ends in the state `DONE`. -/
theorem cancelled_thread_ends :
    ∃ S : ThreadSystem Unit Unit Nat, ∃ T : ThreadSystem Unit Unit Nat,
      threads.after {} [.call () .cancel, .caller (), .caller (), .caller (), .caller ()] = some S ∧
      S.callers () = .cancelReturned true ∧ S.shared.thread.state = .cancelled ∧
      threads.after S [.trampoline, .bodyEnds (.results []), .trampoline, .trampoline, .trampoline] = some T ∧
      T.shared.thread.state = .done :=
  ⟨_, _, rfl, rfl, rfl, rfl, rfl⟩

end Cando
