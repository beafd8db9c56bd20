import Cando.Thread.Wait

/-!
# Callbacks of a thread

A thread object has one field for each kind of callback. A registration before the end of the thread writes the field,
and the trampoline calls what it finds there; a registration afterwards is called at once, by its own caller.
-/

namespace Cando

open Interleaving

/-! ### Who owes a call -/

variable {ι φ β : Type}

/-- The callback that the trampoline is going to call, once the final state is stored. -/
def TrampolinePc.owes (t : CdoThread φ β) (k : Callback) : TrampolinePc φ β → Option φ
  | .broadcast (.invalid _) | .unlock (.invalid _) => none
  | .broadcast e | .unlock e => if e.state = k.state then k.get t else none
  | .load => if t.state = k.state then k.get t else none
  | .lockCallback final | .readCallback final => if final = k.state then k.get t else none
  | .unlockCallback (some (j, f)) | .call j f => if j = k then some f else none
  | _ => none

/-- The callback that a caller is going to call. -/
def CallerPc.owes (k : Callback) : CallerPc φ β → Option φ
  | .registerCopy j f | .unlockToCall j f _ | .call j f _ => if j = k then some f else none
  | _ => none

def ThreadSystem.owes (S : ThreadSystem ι φ β) (k : Callback) : Party ι → Option φ
  | .trampoline => S.trampoline.owes S.shared.thread k
  | .caller i => (S.callers i).owes k

lemma Callback.state_inj {j k : Callback} (h : j.state = k.state) : j = k := by
  cases j <;> cases k <;> first | rfl | cases h

section Effects

variable {s s' : SharedThread ι φ β} {k : Callback} {i : ι}

lemma SharedThread.call_same (s : SharedThread ι φ β) (f : φ) (args : List β) :
    (s.call k f args).called k = s.called k ++ [(f, args)] := Function.update_self ..

lemma SharedThread.call_other (s : SharedThread ι φ β) {j : Callback} (f : φ) (args : List β) (ne : k ≠ j) :
    (s.call j f args).called k = s.called k := Function.update_of_ne ne ..

/-- The trampoline finds the callback of the kind that the final state asks for. -/
lemma findCallback_owes (t : CdoThread φ β) (final : ThreadState) :
    (TrampolinePc.unlockCallback (β := β) (findCallback t final)).owes t k =
      if final = k.state then k.get t else none := by
  cases k <;> cases final <;> simp only [findCallback, Callback.state, Callback.get, TrampolinePc.owes]
  all_goals first | rfl | (cases t.thenFn <;> rfl) | (cases t.catchFn <;> rfl)

/-- What the trampoline does to the calls of a kind when the thread has ended in the state of that kind. -/
lemma trampolineStep_owes {pc pc' : TrampolinePc φ β} (h : trampolineStep s pc = some (pc', s'))
    (expects : pc.Expects s.thread.state) (state : s.thread.state = k.state) :
    s'.registered k = s.registered k ∧
      (pc'.owes s'.thread k = pc.owes s.thread k ∧ s'.called k = s.called k ∨
        ∃ f args, pc.owes s.thread k = some f ∧ pc'.owes s'.thread k = none ∧
          s'.called k = s.called k ++ [(f, args)]) := by
  have final : s.thread.state = .done ∨ s.thread.state = .error := state ▸ k.state_eq
  cases pc with
  | begun | store =>
    obtain e | e := expects <;> rw [e] at final <;> obtain final | final := final <;> cases final
  | body | ended => cases h
  | lock e =>
    obtain ⟨rfl, -, rfl⟩ := SharedThread.lock_to h
    exact ⟨rfl, .inl ⟨rfl, rfl⟩⟩
  | lockCallback e =>
    obtain ⟨rfl, -, rfl⟩ := SharedThread.lock_to h
    exact ⟨rfl, .inl ⟨rfl, rfl⟩⟩
  | write e =>
    cases h
    exact ⟨rfl, .inl ⟨rfl, rfl⟩⟩
  | broadcast e =>
    cases h
    exact ⟨rfl, .inl ⟨by cases e <;> rfl, rfl⟩⟩
  | unlock e =>
    -- the state that was stored is the one that is loaded next
    have stored : s.thread.state = e.state := expects
    cases e with
    | invalid =>
      cases h
      exact ⟨rfl, .inl ⟨rfl, rfl⟩⟩
    | _ =>
      cases h
      refine ⟨rfl, .inl ⟨?_, rfl⟩⟩
      simp only [TrampolinePc.owes, SharedThread.unlock, stored]
  | load =>
    cases h
    exact ⟨rfl, .inl ⟨rfl, rfl⟩⟩
  | readCallback final =>
    cases h
    exact ⟨rfl, .inl ⟨findCallback_owes _ _, rfl⟩⟩
  | unlockCallback cb =>
    cases cb <;> cases h <;> exact ⟨rfl, .inl ⟨rfl, rfl⟩⟩
  | call j f =>
    cases h
    obtain rfl : j = k := Callback.state_inj (expects.symm.trans state)
    exact ⟨rfl, .inr ⟨f, _, by simp only [TrampolinePc.owes, if_true], rfl, s.call_same f _⟩⟩

/-- Before that it calls no callback of the kind. -/
lemma trampolineStep_early {pc pc' : TrampolinePc φ β} (h : trampolineStep s pc = some (pc', s'))
    (expects : pc.Expects s.thread.state) (state : s.thread.state ≠ k.state) :
    s'.called k = s.called k ∧ s'.registered k = s.registered k := by
  cases pc with
  | lock | lockCallback =>
    obtain ⟨-, -, rfl⟩ := SharedThread.lock_to h
    exact ⟨rfl, rfl⟩
  | unlock e => cases e <;> cases h <;> exact ⟨rfl, rfl⟩
  | unlockCallback cb => cases cb <;> cases h <;> exact ⟨rfl, rfl⟩
  | body | ended => cases h
  | call j f =>
    cases h
    have other : k ≠ j := fun e => state (e ▸ expects)
    exact ⟨s.call_other f _ other, rfl⟩
  | _ =>
    cases h
    exact ⟨rfl, rfl⟩

variable [DecidableEq ι]

/-- What a caller does to the calls of a kind when the thread has ended in the state of that kind. -/
lemma callerStep_owes {pc pc' : CallerPc φ β} (h : callerStep i s pc = some (pc', s'))
    (state : s.thread.state = k.state) (storing : ∀ j f, pc ≠ .registerStore j f) :
    s'.thread = s.thread ∧
      (pc'.owes k = pc.owes k ∧ s'.registered k = s.registered k ∧ s'.called k = s.called k ∨
        (∃ f, pc = .registerLoad k f ∧ pc'.owes k = some f ∧ s'.registered k = s.registered k ++ [f] ∧
          s'.called k = s.called k) ∨
        ∃ f args, pc.owes k = some f ∧ pc'.owes k = none ∧ s'.registered k = s.registered k ∧
          s'.called k = s.called k ++ [(f, args)]) := by
  cases pc with
  | idle => cases h
  | waitLock | cancelLock | registerLock =>
    obtain ⟨rfl, -, rfl⟩ := SharedThread.lock_to h
    exact ⟨rfl, .inl ⟨rfl, rfl, rfl⟩⟩
  | asleep =>
    simp only [callerStep] at h
    split at h
    · cases h
    · obtain ⟨rfl, -, rfl⟩ := SharedThread.lock_to h
      exact ⟨rfl, .inl ⟨rfl, rfl, rfl⟩⟩
  | waitRunning | waitPending =>
    simp only [callerStep] at h
    cases h
    split <;> exact ⟨rfl, .inl ⟨rfl, rfl, rfl⟩⟩
  | cancelPending | cancelRunning =>
    simp only [callerStep, state] at h
    rw [if_neg (by cases k <;> simp [Callback.state])] at h
    cases h
    exact ⟨rfl, .inl ⟨rfl, rfl, rfl⟩⟩
  | registerLoad j f =>
    simp only [callerStep] at h
    by_cases e : j = k
    · subst e
      rw [if_pos state] at h
      cases h
      exact ⟨rfl, .inr (.inl ⟨f, rfl, by simp only [CallerPc.owes, if_true], Function.update_self .., rfl⟩)⟩
    · have other : k ≠ j := fun h => e h.symm
      split at h
      case isTrue same => exact absurd (Callback.state_inj (same.symm.trans state)) e
      case isFalse =>
        split at h <;> cases h <;> exact ⟨rfl, .inl ⟨rfl, Function.update_of_ne other .., rfl⟩⟩
  | registerCopy j f =>
    cases h
    exact ⟨rfl, .inl ⟨rfl, rfl, rfl⟩⟩
  | registerStore j f => exact absurd rfl (storing j f)
  | call j f args =>
    cases h
    by_cases e : j = k
    · subst e
      exact ⟨rfl, .inr (.inr ⟨f, args, by simp only [CallerPc.owes, if_true], rfl, rfl, s.call_same f args⟩)⟩
    · have other : k ≠ j := fun h => e h.symm
      refine ⟨rfl, .inl ⟨?_, rfl, s.call_other f args other⟩⟩
      simp only [CallerPc.owes, if_neg e]
  | _ =>
    cases h
    exact ⟨rfl, .inl ⟨rfl, rfl, rfl⟩⟩

/-- Before that it calls none. -/
lemma callerStep_early {pc pc' : CallerPc φ β} (h : callerStep i s pc = some (pc', s'))
    (state : s.thread.state ≠ k.state) (owes : pc.owes k = none) :
    s'.called k = s.called k ∧ pc'.owes k = none ∧ s'.thread.state ≠ k.state := by
  have state' : s'.thread.state ≠ k.state := by
    obtain ⟨same, -⟩ | ⟨-, cancelled, -⟩ := callerStep_state h
    · exact same ▸ state
    · rw [cancelled]
      cases k <;> nofun
  suffices s'.called k = s.called k ∧ pc'.owes k = none from ⟨this.1, this.2, state'⟩
  cases pc with
  | idle => cases h
  | waitLock | cancelLock | registerLock =>
    obtain ⟨rfl, -, rfl⟩ := SharedThread.lock_to h
    exact ⟨rfl, rfl⟩
  | asleep =>
    simp only [callerStep] at h
    split at h
    · cases h
    · obtain ⟨rfl, -, rfl⟩ := SharedThread.lock_to h
      exact ⟨rfl, rfl⟩
  | waitRunning | waitPending =>
    simp only [callerStep] at h
    cases h
    split <;> exact ⟨rfl, rfl⟩
  | cancelPending | cancelRunning =>
    simp only [callerStep] at h
    split at h <;> cases h <;> exact ⟨rfl, rfl⟩
  | registerLoad j f =>
    simp only [callerStep] at h
    split at h
    case isTrue same =>
      cases h
      have other : j ≠ k := fun e => state (e ▸ same)
      exact ⟨rfl, by simp only [CallerPc.owes, if_neg other]⟩
    case isFalse => split at h <;> cases h <;> exact ⟨rfl, rfl⟩
  | registerCopy j f =>
    cases h
    exact ⟨rfl, owes⟩
  | unlockToCall j f args =>
    cases h
    exact ⟨rfl, owes⟩
  | call j f args =>
    cases h
    have other : k ≠ j := by
      rintro rfl
      simp only [CallerPc.owes, if_true] at owes
      cases owes
    exact ⟨s.call_other f args other, rfl⟩
  | _ =>
    cases h
    exact ⟨rfl, rfl⟩

/-- A caller writes the field of a callback only before the thread has ended. -/
lemma callerStep_stores {pc pc' : CallerPc φ β} {j : Callback} {f : φ} (h : callerStep i s pc = some (pc', s'))
    (stores : pc' = .registerStore j f) : s'.thread.state ≠ .done ∧ s'.thread.state ≠ .error := by
  subst stores
  cases pc with
  | registerLoad k g =>
    simp only [callerStep] at h
    split at h
    · cases h
    · split at h
      case isTrue early =>
        cases h
        show s.thread.state ≠ .done ∧ s.thread.state ≠ .error
        obtain e | e := early <;> rw [e] <;> exact ⟨by simp, by simp⟩
      case isFalse => cases h
  | waitLock | cancelLock | registerLock => cases (SharedThread.lock_to h).1
  | asleep =>
    simp only [callerStep] at h
    split at h
    · cases h
    · cases (SharedThread.lock_to h).1
  | waitRunning | waitPending =>
    simp only [callerStep] at h
    split at h <;> cases h
  | cancelPending | cancelRunning =>
    simp only [callerStep] at h
    split at h <;> cases h
  | _ => cases h

end Effects

variable [DecidableEq ι]

/-! ### Delivery -/

/-- The next step spoils the delivery of callbacks: the thread is about to end, and of the callbacks of that kind that
were registered not just the one in the field is left (or none is looked for); or a callback is being registered after
the end while an earlier one has not been called yet. -/
def Spoils (S : ThreadSystem ι φ β) (a : ThreadAct ι φ β) : Prop :=
  a = .trampoline ∧ (∃ e k, S.trampoline = .store e ∧ e.state = k.state ∧
      S.shared.registered k ≠ (TrampolinePc.owes S.shared.thread k (.broadcast e)).toList) ∨
    ∃ i k f, a = .caller i ∧ S.callers i = .registerLoad k f ∧ S.shared.thread.state = k.state ∧
      (S.shared.called k).length ≠ (S.shared.registered k).length

/-- The functions that were called. -/
def SharedThread.calledFns (s : SharedThread ι φ β) (k : Callback) : List φ := (s.called k).map Prod.fst

/-- How the calls of a kind stand: nothing is called before the end, and then the books balance. -/
structure Delivering (k : Callback) (S : ThreadSystem ι φ β) : Prop where
  storing : ∀ i j f, S.callers i = .registerStore j f → S.shared.thread.state ≠ .done ∧ S.shared.thread.state ≠ .error
  early : S.shared.thread.state ≠ k.state → S.shared.called k = [] ∧ ∀ i, (S.callers i).owes k = none
  balanced : S.shared.thread.state = k.state →
    Balanced (S.owes k) (S.shared.registered k) (S.shared.calledFns k)

section Steps

variable {S : ThreadSystem ι φ β} {s : SharedThread ι φ β} {k : Callback} {i : ι}

omit [DecidableEq ι] in
lemma trampoline_delivering {pc : TrampolinePc φ β} (owned : Owned S.holds S.shared.mutex)
    (expects : S.trampoline.Expects S.shared.thread.state)
    (sound : ∀ e, S.trampoline = .store e → e.state = k.state →
      S.shared.registered k = (TrampolinePc.owes S.shared.thread k (.broadcast e)).toList)
    (stepped : trampolineStep S.shared S.trampoline = some (pc, s)) (h : Delivering k S) :
    Delivering k { S with trampoline := pc, shared := s } := by
  have state := trampolineStep_state stepped
  -- once the thread has ended, the trampoline has made its stores
  have stays (ended : S.shared.thread.state = k.state) : s.thread.state = k.state := by
    have final : S.shared.thread.state = .done ∨ S.shared.thread.state = .error := ended ▸ k.state_eq
    cases pl : S.trampoline with
    | begun | store =>
      rw [pl] at expects
      obtain e | e := expects <;> rw [e] at final <;> obtain final | final := final <;> cases final
    | _ =>
      rw [pl] at state
      exact state.trans ended
  refine ⟨fun i j f storing => ?_, fun unended => ?_, fun ended => ?_⟩
  · have before := h.storing i j f storing
    cases pl : S.trampoline with
    | store e =>
      have both := owned.exclusive (p := .trampoline) (q := .caller i) (by rw [ThreadSystem.holds, pl]; rfl)
        (by rw [ThreadSystem.holds, show S.callers i = _ from storing]; rfl)
      cases both
    | begun =>
      show s.thread.state ≠ .done ∧ s.thread.state ≠ .error
      rw [state, pl]
      exact ⟨by rintro ⟨⟩, by rintro ⟨⟩⟩
    | _ =>
      rw [pl] at state
      show s.thread.state ≠ .done ∧ s.thread.state ≠ .error
      rw [state]
      exact before
  · have before : S.shared.thread.state ≠ k.state := fun ended => unended (stays ended)
    obtain ⟨none, owes⟩ := h.early before
    exact ⟨(trampolineStep_early stepped expects before).1.trans none, owes⟩
  · by_cases before : S.shared.thread.state = k.state
    · obtain ⟨registered, ⟨owes, called⟩ | ⟨f, args, owed, paid, called⟩⟩ := trampolineStep_owes stepped expects before
      · have books := h.balanced before
        simp only [SharedThread.calledFns, registered, called] at books ⊢
        refine books.keep fun p => ?_
        cases p with
        | trampoline => exact owes
        | caller i => rfl
      · have others (q : Party ι) (ne : q ≠ .trampoline) :
            ThreadSystem.owes { S with trampoline := pc, shared := s } k q = S.owes k q := by
          cases q with
          | trampoline => exact absurd rfl ne
          | caller i => rfl
        have owed : S.owes k .trampoline = some f := owed
        have books := (h.balanced before).pay owed paid others
        simp only [SharedThread.calledFns, registered, called, List.map_append, List.map_singleton] at books ⊢
        exact books
    · obtain ⟨none, owes⟩ := h.early before
      obtain ⟨called, registered⟩ := trampolineStep_early stepped expects before
      cases pl : S.trampoline with
      | begun =>
        rw [pl] at state
        cases k <;> cases state.symm.trans ended
      | store e =>
        rw [pl] at state
        have all := sound e pl (state.symm.trans ended)
        rw [pl] at stepped
        cases stepped
        have books : Balanced
          (ThreadSystem.owes { S with trampoline := .broadcast e, shared := S.shared.store e.state } k)
            (TrampolinePc.owes S.shared.thread k (.broadcast e)).toList [] := by
          have same : TrampolinePc.owes S.shared.thread k (.broadcast e) =
              ThreadSystem.owes
                { S with trampoline := .broadcast e, shared := S.shared.store e.state } k .trampoline := by
            cases e <;> rfl
          rw [same]
          refine Balanced.single fun q ne => ?_
          cases q with
          | trampoline => exact absurd rfl ne
          | caller i => exact owes i
        rw [← all] at books
        simp only [SharedThread.calledFns, called, none, registered, List.map_nil]
        exact books
      | _ =>
        rw [pl] at state
        exact absurd (state.symm.trans ended) before

lemma caller_delivering {pc : CallerPc φ β}
    (sound : ∀ f, S.callers i = .registerLoad k f → S.shared.thread.state = k.state →
      (S.shared.called k).length = (S.shared.registered k).length)
    (stepped : callerStep i S.shared (S.callers i) = some (pc, s)) (h : Delivering k S) :
    Delivering k { S with callers := Function.update S.callers i pc, shared := s } := by
  have final (ended : S.shared.thread.state = k.state) : S.shared.thread.state = .done ∨
    S.shared.thread.state = .error :=
    ended ▸ k.state_eq
  have storing (ended : S.shared.thread.state = k.state) (j : Callback) (f : φ) : S.callers i ≠ .registerStore j f :=
    fun at_store => (final ended).elim (h.storing i j f at_store).1 (h.storing i j f at_store).2
  refine ⟨?_, fun unended => ?_, fun ended => ?_⟩
  · refine forall_update (p := fun _ (pc : CallerPc φ β) => ∀ j f, pc = .registerStore j f → _)
      (fun j f => callerStep_stores stepped)
      fun l _ j f storing => ?_
    have before := h.storing l j f storing
    obtain ⟨same, -⟩ | ⟨-, cancelled, -⟩ := callerStep_state stepped
    · rw [same]
      exact before
    · rw [cancelled]
      exact ⟨nofun, nofun⟩
  · by_cases before : S.shared.thread.state = k.state
    · obtain ⟨same, -⟩ := callerStep_owes stepped before (storing before)
      exact absurd (same ▸ before) unended
    · obtain ⟨none, owes⟩ := h.early before
      obtain ⟨called, owes', -⟩ := callerStep_early stepped before (owes i)
      exact ⟨called.trans none, forall_update (p := fun _ (pc : CallerPc φ β) => pc.owes k = Option.none) owes' fun j
        _ => owes j⟩
  · by_cases before : S.shared.thread.state = k.state
    · obtain ⟨same, moves⟩ := callerStep_owes stepped before (storing before)
      have books := h.balanced before
      obtain ⟨S', e⟩ : ∃ S', { S with callers := Function.update S.callers i pc, shared := s } = S' := ⟨_, rfl⟩
      have here : S'.owes k (.caller i) = pc.owes k := by
        rw [← e]
        simp only [ThreadSystem.owes, Function.update_self]
      have others (q : Party ι) (ne : q ≠ .caller i) : S'.owes k q = S.owes k q := by
        rw [← e]
        cases q with
        | trampoline => simp only [ThreadSystem.owes, same]
        | caller j =>
          have other : j ≠ i := fun e => ne (by rw [e])
          simp only [ThreadSystem.owes, Function.update_of_ne other]
      rw [e]
      have shared : S'.shared = s := by rw [← e]
      rw [shared]
      obtain ⟨owes, registered, called⟩ | ⟨f, load, owes, registered, called⟩ |
        ⟨f, args, owed, paid, registered, called⟩ := moves
      · simp only [SharedThread.calledFns, registered, called] at books ⊢
        refine books.keep fun p => ?_
        by_cases at_i : p = .caller i
        · rw [at_i, here, owes]
          rfl
        · exact others p at_i
      · have even : (S.shared.calledFns k).length = (S.shared.registered k).length := by
          rw [SharedThread.calledFns, List.length_map]
          exact sound f load before
        have books := books.incur even (here.trans owes) others
        simp only [SharedThread.calledFns, registered, called] at books ⊢
        exact books
      · have owed : S.owes k (.caller i) = some f := owed
        have books := books.pay owed (here.trans paid) others
        simp only [SharedThread.calledFns, registered, called, List.map_append, List.map_singleton] at books ⊢
        exact books
    · exact absurd ended (callerStep_early stepped before ((h.early before).2 i)).2.2

end Steps

/-- As long as nothing spoils the delivery, the books balance. -/
lemma run_delivering {as : List (ThreadAct ι φ β)} {S : ThreadSystem ι φ β} (k : Callback)
    (r : threads.Run (fun S a => ¬ Spoils S a) {} as S) : Delivering k S := by
  induction r with
  | nil =>
    refine ⟨nofun, fun _ => ⟨rfl, fun _ => rfl⟩, fun ended => ?_⟩
    cases k <;> cases ended
  | @snoc as S a S' run sound step ih =>
    have owned := run_owned run.all
    have expects := run_expects run.all
    refine threadStep_preserves (G := fun T b => T = S ∧ b = a) (I := Delivering k) ?_ ?_ ?_ ?_ ?_ S a S'
      ⟨rfl, rfl⟩ step ih
    · rintro T pc s ⟨rfl, rfl⟩ stepped h
      refine trampoline_delivering owned expects (fun e store ends => ?_) stepped h
      by_contra lost
      exact sound (.inl ⟨rfl, e, k, store, ends, lost⟩)
    · rintro T e ⟨rfl, rfl⟩ at_body h
      refine ⟨h.storing, h.early, fun ended => (h.balanced ended).keep fun p => ?_⟩
      cases p with
      | trampoline =>
        simp only [ThreadSystem.owes, at_body]
        rfl
      | caller i => rfl
    · rintro T i c ⟨rfl, rfl⟩ idle h
      have same : ∀ j, (Function.update T.callers i (callerBegin c) j).owes k = (T.callers j).owes k := by
        refine forall_update (p := fun j (pc : CallerPc φ β) => pc.owes k = (T.callers j).owes k) ?_ fun _ _ => rfl
        rw [idle]
        cases c <;> rfl
      refine ⟨?_, fun unended => ⟨(h.early unended).1, fun j => ?_⟩, fun ended => (h.balanced ended).keep fun p => ?_⟩
      · refine forall_update (p := fun _ (pc : CallerPc φ β) => ∀ j f, pc = .registerStore j f → _) ?_
          fun l _ => h.storing l
        cases c <;> exact nofun
      · exact (same j).trans ((h.early unended).2 j)
      · cases p with
        | trampoline => rfl
        | caller j => exact same j
    · rintro T i pc s ⟨rfl, rfl⟩ stepped h
      refine caller_delivering (fun f load ended => ?_) stepped h
      by_contra odd
      exact sound (.inr ⟨i, k, f, rfl, load, ended, odd⟩)
    · rintro T i ⟨rfl, rfl⟩ h
      refine ⟨h.storing, h.early, fun ended => (h.balanced ended).keep fun p => ?_⟩
      cases p <;> rfl

/-- Everybody has finished what he began. -/
def ThreadSystem.Quiet (S : ThreadSystem ι φ β) : Prop := S.trampoline = .ended ∧ ∀ i, S.callers i = .idle

/-- As long as nothing spoils the delivery, the callbacks of a kind are called in the order of their registration,
each at most once; they are called only when the thread has ended in the state of that kind, and then all are called.
-/
theorem callbacks_delivered {as : List (ThreadAct ι φ β)} {S : ThreadSystem ι φ β} (k : Callback)
    (r : threads.Run (fun S a => ¬ Spoils S a) {} as S) :
    S.shared.calledFns k <+: S.shared.registered k ∧
      (S.shared.calledFns k ≠ [] → S.shared.thread.state = k.state) ∧
      (S.shared.thread.state = k.state → S.Quiet → S.shared.calledFns k = S.shared.registered k) := by
  have h := run_delivering k r
  refine ⟨?_, fun called => ?_, fun ended quiet => (h.balanced ended).even fun p => ?_⟩
  · by_cases ended : S.shared.thread.state = k.state
    · exact (h.balanced ended).begins
    · rw [SharedThread.calledFns, (h.early ended).1]
      exact List.nil_prefix
  · by_contra unended
    exact called (by rw [SharedThread.calledFns, (h.early unended).1]; rfl)
  · cases p with
    | trampoline =>
      simp only [ThreadSystem.owes, quiet.1]
      rfl
    | caller i =>
      simp only [ThreadSystem.owes, quiet.2 i]
      rfl

/-- A single callback, registered before the thread ends. -/
def oneCallback : List (ThreadAct Unit Nat Nat) :=
  [.call () (.register .onDone 1), .caller (), .caller (), .caller (), .caller (), .caller (), .trampoline,
    .bodyEnds (.results [7]), .trampoline, .trampoline, .trampoline, .trampoline, .trampoline, .trampoline, .trampoline,
    .trampoline, .trampoline, .trampoline]

theorem callbacks_delivered_one : ∃ S : ThreadSystem Unit Nat Nat, S.shared.calledFns .onDone = [1] ∧
    S.shared.calledFns .onDone <+: S.shared.registered .onDone ∧
      (S.shared.calledFns .onDone ≠ [] → S.shared.thread.state = Callback.onDone.state) ∧
      (S.shared.thread.state = Callback.onDone.state → S.Quiet →
        S.shared.calledFns .onDone = S.shared.registered .onDone) := by
  -- the callback is registered for a pending thread, and nothing is lost when the thread ends
  have passes (S : ThreadSystem Unit Nat Nat) (a : ThreadAct Unit Nat Nat)
      (h : (decide (a = .caller () → S.shared.thread.state = .pending) &&
        match S.trampoline with
        | .store e => [Callback.onDone, .onError].all fun k => decide (e.state = k.state →
            S.shared.registered k = (TrampolinePc.owes S.shared.thread k (.broadcast e)).toList)
        | _ => true) = true) : ¬ Spoils S a := by
    obtain ⟨early, kept⟩ := Bool.and_eq_true_iff.mp h
    rintro (⟨-, e, k, store, ends, lost⟩ | ⟨⟨⟩, k, f, rfl, -, ended, -⟩)
    · rw [store] at kept
      exact lost (of_decide_eq_true (List.all_eq_true.mp kept k (by cases k <;> simp)) ends)
    · have pending := of_decide_eq_true early rfl
      cases k <;> cases pending.symm.trans ended
  exact ⟨_, rfl, callbacks_delivered .onDone (.of_restrict rfl passes : threads.Run _ {} oneCallback _)⟩

/-- Two callbacks, both registered before the thread ends. -/
def twoCallbacks : List (ThreadAct Unit Nat Nat) :=
  [.call () (.register .onDone 1), .caller (), .caller (), .caller (), .caller (), .caller (),
    .call () (.register .onDone 2), .caller (), .caller (), .caller (), .caller (), .caller (), .trampoline,
    .bodyEnds (.results [7]), .trampoline, .trampoline, .trampoline, .trampoline, .trampoline, .trampoline, .trampoline,
    .trampoline, .trampoline, .trampoline]

/-- The first of two callbacks is never called. -/
theorem first_callback_lost : ∃ S : ThreadSystem Unit Nat Nat, threads.Run All {} twoCallbacks S ∧ S.Quiet ∧
    S.shared.thread.state = .done ∧ S.shared.registered .onDone = [1, 2] ∧ S.shared.calledFns .onDone = [2] :=
  ⟨_, .of_after rfl, ⟨rfl, fun _ => rfl⟩, rfl, rfl, rfl⟩

end Cando
