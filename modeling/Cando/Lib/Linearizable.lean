import Cando.Lib.Interleaving
import Mathlib.Data.List.Nodup

/-!
# Linearizability

Operations on a shared state are carried out in sections, and the sections of any number of calls interleave. The calls
are linearizable when each one has a point between its beginning and its end such that the operations, applied one after
the other at their points, answer what the calls return.
-/

/-- A sequential object: what an operation answers and the state that it leaves. -/
structure SequentialObject (α ο ρ : Type) where
  apply : α → ο → ρ × α

/-- How operations are carried out on a shared state: the place where a call enters, and what the section at a place
does, which is to go on to another place or to return; `none` where it is undefined. -/
structure Sections (σ ο κ ρ : Type) where
  enter : ο → κ
  act : σ → κ → Option (σ × (κ ⊕ ρ))

/-- A call: when it began, and its place or else what it returned and when. -/
structure Call (ο κ ρ : Type) where
  op : ο
  began : Nat
  stage : κ ⊕ (ρ × Nat)

/-- The shared state and all calls that were made; an undefined section has been taken or not. -/
structure Calls (σ ο κ ρ : Type) where
  shared : σ
  calls : List (Call ο κ ρ) := []
  time : Nat := 0
  undefined : Bool := false

/-- A new call, or a section of a call that was made. -/
inductive CallAct (ο : Type) where
  | call (op : ο)
  | step (k : Nat)

variable {σ ο κ ρ α : Type}

namespace Calls

variable {S : Calls σ ο κ ρ} {k : Nat} {op : ο} {pc : κ}

/-- The place where the call `k` stands. -/
def place (S : Calls σ ο κ ρ) (k : Nat) : Option κ := do
  let c ← S.calls[k]?
  c.stage.getLeft?

/-- The call `k` of an operation stands at a place. -/
def At (S : Calls σ ο κ ρ) (k : Nat) (op : ο) (pc : κ) : Prop :=
  ∃ c, S.calls[k]? = some c ∧ c.op = op ∧ c.stage = .inl pc

/-- The call `k` has returned. -/
def Returned (S : Calls σ ο κ ρ) (k : Nat) (r : ρ) (t : Nat) : Prop :=
  ∃ c, S.calls[k]? = some c ∧ c.stage = .inr (r, t)

lemma At.place_eq (h : S.At k op pc) : S.place k = some pc := by
  obtain ⟨c, here, -, stage⟩ := h
  rw [place, here, Option.bind_eq_bind, Option.bind_some, stage]
  rfl

/-- An operation is called. -/
def begin (S : Calls σ ο κ ρ) (op : ο) (pc : κ) : Calls σ ο κ ρ :=
  { S with calls := S.calls ++ [⟨op, S.time, .inl pc⟩], time := S.time + 1 }

/-- The call `k` goes on or returns after a section. -/
def move (S : Calls σ ο κ ρ) (k : Nat) (c : Call ο κ ρ) (s : σ) (out : κ ⊕ ρ) : Calls σ ο κ ρ :=
  { S with
    shared := s
    calls := S.calls.set k { c with stage := out.map id (·, S.time) }
    time := S.time + 1 }

end Calls

namespace Sections

/-- A call or a section; nothing is done after an undefined section. -/
def step (P : Sections σ ο κ ρ) (S : Calls σ ο κ ρ) : CallAct ο → Option (Calls σ ο κ ρ)
  | .call op => if S.undefined then none else some (S.begin op (P.enter op))
  | .step k =>
    if S.undefined then none
    else do
      let c ← S.calls[k]?
      let pc ← c.stage.getLeft?
      match P.act S.shared pc with
      | none => some { S with undefined := true }
      | some (s, out) => some (S.move k c s out)

/-- Any number of calls, whose sections interleave. -/
def calls (P : Sections σ ο κ ρ) : Interleaving (Calls σ ο κ ρ) (CallAct ο) where
  step := P.step

end Sections

/-- The point where a call takes effect. -/
structure Point (ο ρ : Type) where
  call : Nat
  op : ο
  result : ρ
  time : Nat

/-- The operations, one after the other at their points, answer the results and lead from `a₀` to a state. -/
inductive Explains (obj : SequentialObject α ο ρ) (a₀ : α) : List (Point ο ρ) → α → Prop where
  | nil : Explains obj a₀ [] a₀
  | snoc {ps : List (Point ο ρ)} {a : α} (before : Explains obj a₀ ps a) (k : Nat) (op : ο) (t : Nat) :
      Explains obj a₀ (ps ++ [⟨k, op, (obj.apply a op).1, t⟩]) (obj.apply a op).2

/-- The points explain the calls: they follow each other in time, each is a call's only one and lies after its beginning
and, if it has returned, not after its end, with its result; and every call that has returned has one. -/
structure Linearized (obj : SequentialObject α ο ρ) (a₀ : α) (S : Calls σ ο κ ρ) (ps : List (Point ο ρ)) (a : α) :
    Prop where
  explains : Explains obj a₀ ps a
  ordered : ps.Pairwise fun p q => p.time < q.time
  once : (ps.map (·.call)).Nodup
  within : ∀ p ∈ ps, ∃ c, S.calls[p.call]? = some c ∧ c.op = p.op ∧ c.began < p.time ∧
    ∀ r t, c.stage = .inr (r, t) → p.result = r ∧ p.time ≤ t
  all : ∀ k r t, S.Returned k r t → ∃ p ∈ ps, p.call = k

/-- No undefined section has been taken, and the calls take effect at points between their beginnings and their ends. -/
def Linearizable (obj : SequentialObject α ο ρ) (Rep : σ → α → Prop) (a₀ : α) (S : Calls σ ο κ ρ) : Prop :=
  S.undefined = false ∧ ∃ ps a, Linearized obj a₀ S ps a ∧ Rep S.shared a

/-- A schedule that takes an undefined section. -/
lemma exists_not_linearizable {P : Sections σ ο κ ρ} (obj : SequentialObject α ο ρ) (Rep : σ → α → Prop) (a₀ : α)
    {S₀ : Calls σ ο κ ρ} {as : List (CallAct ο)} (h : (P.calls.after S₀ as).any (·.undefined) = true) :
    ∃ S, P.calls.Run Interleaving.All S₀ as S ∧ ¬ Linearizable obj Rep a₀ S := by
  obtain ⟨S, after, undefined⟩ := (Option.any_eq_true _ _).mp h
  refine ⟨S, .of_after after, ?_⟩
  rintro ⟨defined, -⟩
  exact absurd (undefined.symm.trans defined) (by decide)

namespace Linearized

variable {obj : SequentialObject α ο ρ} {a₀ a : α} {S : Calls σ ο κ ρ} {ps : List (Point ο ρ)} {k : Nat}
  {c : Call ο κ ρ}
  {pc : κ} {s : σ} {out : κ ⊕ ρ}

lemma unique (l : Linearized obj a₀ S ps a) {p q : Point ο ρ} (hp : p ∈ ps) (hq : q ∈ ps) (same : p.call = q.call) :
    p = q :=
  List.inj_on_of_nodup_map l.once hp hq same

/-- A new call. -/
lemma begin (l : Linearized obj a₀ S ps a) (op : ο) (pc : κ) : Linearized obj a₀ (S.begin op pc) ps a where
  explains := l.explains
  ordered := l.ordered
  once := l.once
  within := by
    intro p mem
    obtain ⟨c, here, rest⟩ := l.within p mem
    have inside := (List.getElem?_eq_some_iff.mp here).1
    exact ⟨c, (List.getElem?_append_left inside).trans here, rest⟩
  all := by
    rintro k r t ⟨c, here, ended⟩
    have old : ∀ (j : Nat) (d : Call ο κ ρ), (S.calls ++ [⟨op, S.time, .inl pc⟩])[j]? = some d →
        d.stage = .inr (r, t) → ∃ p ∈ ps, p.call = j := by
      apply Interleaving.forall_concat
      · intro ended
        cases ended
      · intro j d here ended
        exact l.all j r t ⟨d, here, ended⟩
    exact old k c here ended

/-- A call that has had no point takes effect. -/
lemma snoc (l : Linearized obj a₀ S ps a) (past : ∀ p ∈ ps, p.time < S.time) (here : S.calls[k]? = some c)
    (began : c.began < S.time) (stage : c.stage = .inl pc) (fresh : ∀ p ∈ ps, p.call ≠ k) :
    Linearized obj a₀ S (ps ++ [⟨k, c.op, (obj.apply a c.op).1, S.time⟩]) (obj.apply a c.op).2 where
  explains := l.explains.snoc k c.op S.time
  ordered := by
    apply List.pairwise_append.mpr
    refine ⟨l.ordered, List.pairwise_singleton _ _, ?_⟩
    intro p mem q last
    rw [List.mem_singleton.mp last]
    exact past p mem
  once := by
    rw [List.map_append, List.map_singleton, List.nodup_append]
    refine ⟨l.once, List.nodup_singleton _, ?_⟩
    intro i mem j last same
    obtain ⟨p, hp, rfl⟩ := List.mem_map.mp mem
    exact fresh p hp (same.trans (List.mem_singleton.mp last))
  within := by
    intro p mem
    rcases List.mem_append.mp mem with old | last
    · exact l.within p old
    · rw [List.mem_singleton.mp last]
      refine ⟨c, here, rfl, began, ?_⟩
      intro r t ended
      rw [stage] at ended
      cases ended
  all := by
    intro j r t returned
    obtain ⟨p, mem, same⟩ := l.all j r t returned
    exact ⟨p, List.mem_append_left _ mem, same⟩

/-- A section of a call, which returns the result of the call's point if it returns. -/
lemma move (l : Linearized obj a₀ S ps a) (past : ∀ p ∈ ps, p.time ≤ S.time) (here : S.calls[k]? = some c)
    (ends : ∀ r, out = .inr r → ∃ p ∈ ps, p.call = k ∧ p.result = r) :
    Linearized obj a₀ (S.move k c s out) ps a where
  explains := l.explains
  ordered := l.ordered
  once := l.once
  within := by
    intro p mem
    obtain ⟨d, at_, op, began, ended⟩ := l.within p mem
    by_cases own : p.call = k
    · obtain rfl : c = d := Option.some.inj (here.symm.trans (own ▸ at_))
      have inside := (List.getElem?_eq_some_iff.mp here).1
      refine ⟨{ c with stage := out.map id (·, S.time) }, ?_, op, began, ?_⟩
      · rw [own]
        exact List.getElem?_set_self inside
      · intro r t returned
        cases out with
        | inl pc' => cases returned
        | inr r' =>
          cases returned
          obtain ⟨q, hq, call, result⟩ := ends r rfl
          obtain rfl := l.unique mem hq (own.trans call.symm)
          exact ⟨result, past p mem⟩
    · exact ⟨d, (List.getElem?_set_ne (Ne.symm own)).trans at_, op, began, ended⟩
  all := by
    rintro j r t ⟨d, at_, ended⟩
    by_cases own : k = j
    · subst own
      have inside := (List.getElem?_eq_some_iff.mp here).1
      obtain rfl := Option.some.inj (at_.symm.trans (List.getElem?_set_self inside))
      cases out with
      | inl pc' => cases ended
      | inr r' =>
        cases ended
        obtain ⟨q, hq, call, -⟩ := ends r rfl
        exact ⟨q, hq, call⟩
    · exact l.all j r t ⟨d, (List.getElem?_set_ne own).symm.trans at_, ended⟩

end Linearized

/-- What a section does after the point: it keeps the promise of the result, or it returns it. -/
inductive Promise (Q : κ → ρ → Prop) (r : ρ) : κ ⊕ ρ → Prop where
  | goes {pc : κ} (keeps : Q pc r) : Promise Q r (.inl pc)
  | returns : Promise Q r (.inr r)

/-- A call is open until it takes effect and settled after it. An open call goes on or takes effect in its section, a
settled one changes nothing and does not depend on what others do. -/
structure Simulation (P : Sections σ ο κ ρ) (obj : SequentialObject α ο ρ) (Rep : σ → α → Prop)
    (G : Calls σ ο κ ρ → CallAct ο → Prop) where
  Opn : ο → κ → Prop
  Settled : σ → ο → κ → ρ → Prop
  enters : ∀ op, Opn op (P.enter op)
  opens : ∀ {S : Calls σ ο κ ρ} {k : Nat} {op : ο} {pc : κ} {a : α}, G S (.step k) → S.At k op pc → Rep S.shared a →
    Opn op pc → ∃ s out, P.act S.shared pc = some (s, out) ∧
      (Rep s a ∧ (∃ pc', out = .inl pc' ∧ Opn op pc') ∨
        Rep s (obj.apply a op).2 ∧ Promise (Settled s op) (obj.apply a op).1 out)
  settles : ∀ {S : Calls σ ο κ ρ} {k : Nat} {op : ο} {pc : κ} {a : α} {r : ρ}, G S (.step k) → S.At k op pc →
    Rep S.shared a → Settled S.shared op pc r → ∃ s out, P.act S.shared pc = some (s, out) ∧
      Rep s a ∧ Promise (Settled s op) r out
  frame : ∀ {S : Calls σ ο κ ρ} {k j : Nat} {op op' : ο} {pc pc' : κ} {s : σ} {out : κ ⊕ ρ} {r : ρ}, G S (.step k) →
    S.At k op pc → P.act S.shared pc = some (s, out) → j ≠ k → S.At j op' pc' → Settled S.shared op' pc' r →
    Settled s op' pc' r

namespace Simulation

variable {P : Sections σ ο κ ρ} {obj : SequentialObject α ο ρ} {Rep : σ → α → Prop} {G : Calls σ ο κ ρ → CallAct ο →
  Prop}
  {S S' : Calls σ ο κ ρ} {ps : List (Point ο ρ)} {a₀ a : α} {s₀ : σ} {act : CallAct ο} {as : List (CallAct ο)}

/-- Where a call stands: open without a point, or settled with the result of its point. -/
def Stands (sim : Simulation P obj Rep G) (s : σ) (ps : List (Point ο ρ)) (k : Nat) (op : ο) (pc : κ) : Prop :=
  sim.Opn op pc ∧ (∀ p ∈ ps, p.call ≠ k) ∨ ∃ p ∈ ps, p.call = k ∧ sim.Settled s op pc p.result

/-- What holds in all states. -/
structure Holds (sim : Simulation P obj Rep G) (a₀ : α) (S : Calls σ ο κ ρ) (ps : List (Point ο ρ)) (a : α) :
    Prop where
  defined : S.undefined = false
  linearized : Linearized obj a₀ S ps a
  past : ∀ p ∈ ps, p.time < S.time
  began : ∀ (k : Nat) (c : Call ο κ ρ), S.calls[k]? = some c → c.began < S.time
  rep : Rep S.shared a
  stands : ∀ (k : Nat) (c : Call ο κ ρ), S.calls[k]? = some c →
    ∀ pc, c.stage = .inl pc → sim.Stands S.shared ps k c.op pc

namespace Holds

variable {sim : Simulation P obj Rep G}

lemma begin (h : sim.Holds a₀ S ps a) (op : ο) : sim.Holds a₀ (S.begin op (P.enter op)) ps a where
  defined := h.defined
  linearized := h.linearized.begin op (P.enter op)
  past := by
    intro p mem
    exact Nat.lt_succ_of_lt (h.past p mem)
  began := by
    apply Interleaving.forall_concat
    · exact Nat.lt_succ_self _
    · intro k c here
      exact Nat.lt_succ_of_lt (h.began k c here)
  rep := h.rep
  stands := by
    apply Interleaving.forall_concat
    · intro pc stage
      cases stage
      refine .inl ⟨sim.enters op, ?_⟩
      intro p mem same
      obtain ⟨c, here, -⟩ := h.linearized.within p mem
      have inside := (List.getElem?_eq_some_iff.mp here).1
      rw [same] at inside
      exact absurd inside (Nat.lt_irrefl _)
    · exact h.stands

/-- A section after which the points explain the calls: the other calls still stand. -/
lemma move (h : sim.Holds a₀ S ps a) {k : Nat} {c : Call ο κ ρ} {pc : κ} {s : σ} {out : κ ⊕ ρ} {a' : α}
    {qs : List (Point ο ρ)} (admits : G S (.step k)) (here : S.calls[k]? = some c) (stage : c.stage = .inl pc)
    (acts : P.act S.shared pc = some (s, out)) (linearized : Linearized obj a₀ S (ps ++ qs) a')
    (now : ∀ q ∈ qs, q.call = k ∧ q.time = S.time) (rep : Rep s a')
    (ends : ∀ r, out = .inr r → ∃ p ∈ ps ++ qs, p.call = k ∧ p.result = r)
    (goes : ∀ pc', out = .inl pc' → sim.Stands s (ps ++ qs) k c.op pc') :
    sim.Holds a₀ (S.move k c s out) (ps ++ qs) a' := by
  have past : ∀ p ∈ ps ++ qs, p.time ≤ S.time := by
    intro p mem
    rcases List.mem_append.mp mem with old | new
    · exact Nat.le_of_lt (h.past p old)
    · exact Nat.le_of_eq (now p new).2
  refine ⟨h.defined, linearized.move past here ends, ?_, ?_, rep, ?_⟩
  · intro p mem
    exact Nat.lt_succ_of_le (past p mem)
  · apply Interleaving.forall_set
    · exact Nat.lt_succ_of_lt (h.began k c here)
    · intro j d _ at_
      exact Nat.lt_succ_of_lt (h.began j d at_)
  · apply Interleaving.forall_set
    · intro pc' stage'
      cases out with
      | inl pc'' =>
        cases stage'
        exact goes pc'' rfl
      | inr r => cases stage'
    · intro j d ne at_ pc' stage'
      rcases h.stands j d at_ pc' stage' with ⟨opn, fresh⟩ | ⟨p, mem, call, settled⟩
      · refine .inl ⟨opn, ?_⟩
        intro p mem same
        rcases List.mem_append.mp mem with old | new
        · exact fresh p old same
        · exact ne (same.symm.trans (now p new).1)
      · have kept := sim.frame admits ⟨c, here, rfl, stage⟩ acts ne ⟨d, at_, rfl, stage'⟩ settled
        exact .inr ⟨p, List.mem_append_left _ mem, call, kept⟩

/-- A section of a call that stands. -/
lemma acts (h : sim.Holds a₀ S ps a) {k : Nat} {c : Call ο κ ρ} {pc : κ} (admits : G S (.step k))
    (here : S.calls[k]? = some c) (stage : c.stage = .inl pc) : ∃ s out ps a,
      P.act S.shared pc = some (s, out) ∧ sim.Holds a₀ (S.move k c s out) ps a := by
  have at_ : S.At k c.op pc := ⟨c, here, rfl, stage⟩
  rcases h.stands k c here pc stage with ⟨opn, fresh⟩ | ⟨p, mem, call, settled⟩
  · obtain ⟨s, out, acts, ⟨rep, pc', rfl, opn'⟩ | ⟨rep, promise⟩⟩ := sim.opens admits at_ h.rep opn
    · -- the call goes on without a point
      have same := List.append_nil ps
      refine ⟨s, _, ps ++ [], a, acts, h.move admits here stage acts (same.symm ▸ h.linearized) ?_ rep ?_ ?_⟩
      · intro q none
        cases none
      · intro r returned
        cases returned
      · intro pc'' stays
        cases stays
        exact .inl ⟨opn', same.symm ▸ fresh⟩
    · -- this is the point of the call
      have point := h.linearized.snoc h.past here (h.began k c here) stage fresh
      have last : (⟨k, c.op, (obj.apply a c.op).1, S.time⟩ : Point ο ρ) ∈
          ps ++ [⟨k, c.op, (obj.apply a c.op).1, S.time⟩] := List.mem_append_right _ (List.mem_singleton_self _)
      refine ⟨s, out, _, _, acts, h.move admits here stage acts point ?_ rep ?_ ?_⟩
      · intro q new
        rw [List.mem_singleton.mp new]
        exact ⟨rfl, rfl⟩
      · rintro r rfl
        cases promise with
        | returns => exact ⟨_, last, rfl, rfl⟩
      · rintro pc' rfl
        cases promise with
        | goes keeps => exact .inr ⟨_, last, rfl, keeps⟩
  · obtain ⟨s, out, acts, rep, promise⟩ := sim.settles admits at_ h.rep settled
    have same := List.append_nil ps
    refine ⟨s, out, ps ++ [], a, acts, h.move admits here stage acts (same.symm ▸ h.linearized) ?_ rep ?_ ?_⟩
    · intro q none
      cases none
    · rintro r rfl
      cases promise with
      | returns => exact ⟨p, same.symm ▸ mem, call, rfl⟩
    · rintro pc' rfl
      cases promise with
      | goes keeps => exact .inr ⟨p, same.symm ▸ mem, call, keeps⟩

/-- A step that the guard admits. -/
lemma step (h : sim.Holds a₀ S ps a) (admits : G S act) (step : P.step S act = some S') :
    ∃ ps a, sim.Holds a₀ S' ps a := by
  cases act with
  | call op =>
    simp only [Sections.step, h.defined] at step
    obtain rfl := Option.some.inj step
    exact ⟨ps, a, h.begin op⟩
  | step k =>
    simp only [Sections.step, h.defined] at step
    obtain ⟨c, here, step⟩ := Option.bind_eq_some_iff.mp step
    obtain ⟨pc, left, step⟩ := Option.bind_eq_some_iff.mp step
    have stage : c.stage = .inl pc := Sum.getLeft?_eq_some_iff.mp left
    obtain ⟨s, out, ps', a', acts, holds⟩ := h.acts admits here stage
    rw [acts] at step
    obtain rfl := Option.some.inj step
    exact ⟨ps', a', holds⟩

end Holds

lemma start (sim : Simulation P obj Rep G) (rep : Rep s₀ a₀) : sim.Holds a₀ { shared := s₀ } [] a₀ where
  defined := rfl
  linearized :=
    { explains := .nil
      ordered := .nil
      once := List.nodup_nil
      within := by
        intro p none
        cases none
      all := by
        rintro k r t ⟨c, none, -⟩
        cases none }
  past := by
    intro p none
    cases none
  began := by
    intro k c none
    cases none
  rep := rep
  stands := by
    intro k c none
    cases none

/-- In every run that the guard admits, the calls are linearizable. -/
theorem linearizable (sim : Simulation P obj Rep G) (rep : Rep s₀ a₀)
    (run : P.calls.Run G { shared := s₀ } as S) : Linearizable obj Rep a₀ S := by
  have holds : ∃ ps a, sim.Holds a₀ S ps a := by
    apply run.invariant (I := fun S => ∃ ps a, sim.Holds a₀ S ps a)
    · rintro S act S' admits step ⟨ps, a, h⟩
      exact h.step admits step
    · exact ⟨[], a₀, sim.start rep⟩
  obtain ⟨ps, a, h⟩ := holds
  exact ⟨h.defined, ps, a, h.linearized, h.rep⟩

end Simulation
