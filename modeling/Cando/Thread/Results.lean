import Cando.Core.Value
import Cando.Lib.RefCount
import Cando.Thread.Object
import Mathlib.Tactic.Abel

/-!
# The results of a thread

How what a thread returns gets to those who wait for it: `OP_RETURN` at the boundary of the thread and `OP_AWAIT`
(`vm/vm.c`), `cdo_thread_set_results` and `cdo_thread_set_error` (`object/thread.c`) and `thread_join_one`
(`lib/thread.c`). A string is a pointer to a `CandoString`, which counts the references to it; an operation is `none`
where it reads a string that has been freed. Waiting is a step of its own in `Thread/Object`: here a thread that has
finished is asked in one step. The limit of the stack is not modelled.
-/

namespace Cando

/-- A `CandoValue` as it is in memory. -/
inductive CandoValue (ν : Type) where
  | null
  | bool (b : Bool)
  | number (x : ν)
  | string (p : Nat)
  | object (h : Nat)
  deriving DecidableEq, Repr

namespace CandoValue

variable {ν : Type}

/-- The strings that a value refers to. -/
def addrs : CandoValue ν → List Nat
  | .string p => [p]
  | _ => []

/-- The value that is meant; `none` for a string that has been freed. -/
def read (m : Blocks Str) : CandoValue ν → Option (Value ν)
  | .null => some .null
  | .bool b => some (.bool b)
  | .number x => some (.number x)
  | .string p => (m.dataAt p).map .string
  | .object h => some (.object h)

/-- `cando_value_copy`. -/
def copy (m : Blocks Str) : CandoValue ν → Option (Blocks Str)
  | .string p => m.retain p
  | _ => some m

/-- `cando_value_release`. -/
def release (m : Blocks Str) : CandoValue ν → Option (Blocks Str)
  | .string p => m.release p
  | _ => some m

/-- A loop that copies values. -/
def copyAll (m : Blocks Str) (vs : List (CandoValue ν)) : Option (Blocks Str) := vs.foldlM copy m

/-- A loop that releases values. -/
def releaseAll (m : Blocks Str) (vs : List (CandoValue ν)) : Option (Blocks Str) := vs.foldlM release m

end CandoValue

namespace BodyEnd

variable {β γ : Type}

def map (f : β → γ) : BodyEnd β → BodyEnd γ
  | results vals => results (vals.map f)
  | error e => error (f e)
  | invalid e => invalid (f e)

/-- The values that the body ends with. -/
def values : BodyEnd β → List β
  | results vals => vals
  | error e | invalid e => [e]

def raises : BodyEnd β → Option β
  | results _ => none
  | error e | invalid e => some e

end BodyEnd

/-- `CANDO_MAX_THROW_ARGS`. -/
def ThreadResults.maxThrowArgs : Nat := 32

/-- The two ways to take the results. -/
inductive Taker where
  | await | join
  deriving DecidableEq, Repr

/-- What one gets. -/
inductive Got (ν : Type) where
  | values (vs : List (Option (Value ν)))
  | raised (e : Option (Value ν))
  deriving DecidableEq, Repr

/-- Somebody took the results of a thread that had finished in the state `final`. -/
structure Receipt (ν : Type) where
  taker : Taker
  final : ThreadState
  got : Got ν
  deriving DecidableEq, Repr

/-- A thread object with the strings and with all who hold references to them. -/
structure ThreadResults (ν : Type) where
  strings : Blocks Str
  thread : CdoThread Unit (CandoValue ν) := {}
  begun : Bool := false
  /-- what the body ends with, as long as it runs -/
  body : Option (BodyEnd (CandoValue ν))
  /-- `thread_results` of the child VM, which `cando_vm_destroy` leaves as they are -/
  child : List (CandoValue ν) := []
  /-- what the other VMs hold: on their stacks, in variables and in `error_vals` -/
  held : List (CandoValue ν)
  /-- for the statements only: all that was taken, in order -/
  taken : List (Receipt ν) := []

inductive ResultsAct (ν : Type) where
  /-- the trampoline marks the thread as running -/
  | begin
  /-- the body of the thread ends -/
  | finish
  /-- `thread.cancel` -/
  | cancel
  /-- a callback is called on the child VM -/
  | callback
  /-- `await` by a VM whose `error_vals[0]` is `old` -/
  | await (old : CandoValue ν)
  /-- `thread.join` -/
  | join
  /-- somebody copies a value, gives one up, or makes a string -/
  | copy (v : CandoValue ν)
  | release (v : CandoValue ν)
  | create (s : Str) (p : Nat)
  deriving DecidableEq, Repr

section Steps

variable {ν : Type}

/-- `OP_RETURN` at the boundary of the thread: the values that are captured. -/
def ThreadResults.opReturn (m : Blocks Str) (rets : List (CandoValue ν)) :
    Option (List (CandoValue ν) × Blocks Str) := do
  let captured := rets.take maxThrowArgs
  let m ← CandoValue.copyAll m captured
  let m ← CandoValue.releaseAll m rets
  some (captured, m)

/-- `cdo_thread_set_results`. -/
def ThreadResults.setResults (m : Blocks Str) (t : CdoThread Unit (CandoValue ν)) (vals : List (CandoValue ν)) :
    Option (CdoThread Unit (CandoValue ν) × Blocks Str) := do
  let m ← CandoValue.copyAll m (vals.take threadMaxResults)
  some ({ (BodyEnd.results vals).write t with state := .done }, m)

/-- `cdo_thread_set_error`. -/
def ThreadResults.setError (m : Blocks Str) (t : CdoThread Unit (CandoValue ν)) (e : CandoValue ν) :
    Option (CdoThread Unit (CandoValue ν) × Blocks Str) := do
  let m ← CandoValue.releaseAll m t.error.toList
  let m ← e.copy m
  some ({ (BodyEnd.error e).write t with state := .error }, m)

/-- The trampoline, from the end of the body on. -/
def ThreadResults.finish (S : ThreadResults ν) : BodyEnd (CandoValue ν) → Option (ThreadResults ν)
  | .results rets => do
    let (captured, m) ← opReturn S.strings rets
    let (t, m) ← setResults m S.thread captured
    some { S with strings := m, thread := t, body := none, child := captured }
  | .error e | .invalid e => do
    let (t, m) ← setError S.strings S.thread e
    let m ← e.release m
    some { S with strings := m, thread := t, body := none }

/-- `OP_AWAIT`, after the wait. -/
def ThreadResults.await (S : ThreadResults ν) [DecidableEq ν] (old : CandoValue ν) : Option (ThreadResults ν) :=
  if S.thread.state = .error then do
    let e := S.thread.error.getD .null
    let m ← old.release S.strings
    let m ← e.copy m
    some { S with
      strings := m, held := e :: S.held.erase old
      taken := S.taken ++ [⟨.await, .error, .raised (e.read m)⟩] }
  else do
    let m ← CandoValue.copyAll S.strings S.thread.results
    let pushed := if S.thread.results.length = 0 then [.null] else S.thread.results
    some { S with
      strings := m, held := pushed ++ S.held,
      taken := S.taken ++ [⟨.await, S.thread.state, .values (pushed.map (·.read m))⟩] }

/-- `thread_join_one`, after the wait. -/
def ThreadResults.join (S : ThreadResults ν) : ThreadResults ν :=
  let pushed := if S.thread.state = .done then S.thread.results else [.null]
  { S with
    held := pushed ++ S.held,
    taken := S.taken ++ [⟨.join, S.thread.state, .values (pushed.map (·.read S.strings))⟩] }

variable [DecidableEq ν]

def resultsStep (S : ThreadResults ν) : ResultsAct ν → Option (ThreadResults ν)
  | .begin =>
    if S.begun then none else some { S with begun := true, thread := { S.thread with state := .running } }
  | .finish => if S.begun then S.body.bind S.finish else none
  | .cancel => if S.thread.state.isDone then none else some { S with thread := { S.thread with state := .cancelled } }
  | .callback =>
    if S.body.isSome then none
    else (CandoValue.releaseAll S.strings S.child).map fun m => { S with strings := m, child := [] }
  | .await old => if S.thread.state.isDone ∧ (old = .null ∨ old ∈ S.held) then S.await old else none
  | .join => if S.thread.state.isDone then some S.join else none
  | .copy v => if v ∈ S.held then (v.copy S.strings).map fun m => { S with strings := m, held := v :: S.held } else none
  | .release v =>
    if v ∈ S.held then (v.release S.strings).map fun m => { S with strings := m, held := S.held.erase v } else none
  | .create s p =>
    if S.strings p = none then some { S with strings := S.strings.create p s, held := .string p :: S.held } else none

/-- What goes on with the results of a thread. -/
def threadResults (ν : Type) [DecidableEq ν] : Interleaving (ThreadResults ν) (ResultsAct ν) where
  step := resultsStep

end Steps

/-! ### References -/

section References

open Blocks

variable {ν : Type} {m m' : Blocks Str} {R : Multiset Nat} {v : CandoValue ν} {vs : List (CandoValue ν)}

/-- The references that values hold. -/
def refs (vs : List (CandoValue ν)) : Multiset Nat := (vs.flatMap CandoValue.addrs : List Nat)

@[simp] lemma refs_nil : refs ([] : List (CandoValue ν)) = 0 := rfl

@[simp] lemma refs_append (us vs : List (CandoValue ν)) : refs (us ++ vs) = refs us + refs vs := by
  rw [refs, List.flatMap_append, ← Multiset.coe_add]
  rfl

@[simp] lemma refs_null (vs : List (CandoValue ν)) : refs (.null :: vs) = refs vs := rfl

lemma refs_cons (v : CandoValue ν) (vs : List (CandoValue ν)) : refs (v :: vs) = refs [v] + refs vs :=
  refs_append [v] vs

/-- A value that is taken out of a list takes its references with it. -/
lemma refs_erase [DecidableEq ν] (mem : v ∈ vs) : refs vs = refs [v] + refs (vs.erase v) := by
  induction vs with
  | nil => cases mem
  | cons u vs ih =>
    by_cases e : u = v
    · subst e
      rw [List.erase_cons_head, refs_cons]
    · have rest : v ∈ vs := (List.mem_cons.mp mem).resolve_left fun e' => e e'.symm
      rw [List.erase_cons_tail (by simpa using e), refs_cons u, ih rest, refs_cons u (vs.erase v)]
      abel

lemma refs_subset {us : List (CandoValue ν)} (sub : us ⊆ vs) : refs us ⊆ refs vs := by
  intro p mem
  obtain ⟨u, here, p_mem⟩ := List.mem_flatMap.mp (Multiset.mem_coe.mp mem)
  exact Multiset.mem_coe.mpr (List.mem_flatMap.mpr ⟨u, sub here, p_mem⟩)

lemma CandoValue.copy_eq (v : CandoValue ν) (m : Blocks Str) : v.copy m = m.retainAll v.addrs := by
  cases v with
  | string p => exact (bind_pure (m.retain p)).symm
  | _ => rfl

lemma CandoValue.release_eq (v : CandoValue ν) (m : Blocks Str) : v.release m = m.releaseAll v.addrs := by
  cases v with
  | string p => exact (bind_pure (m.release p)).symm
  | _ => rfl

lemma CandoValue.copyAll_eq (m : Blocks Str) (vs : List (CandoValue ν)) :
    copyAll m vs = m.retainAll (vs.flatMap addrs) := by
  induction vs generalizing m with
  | nil => rfl
  | cons v vs ih =>
    rw [copyAll, List.foldlM_cons, List.flatMap_cons, Blocks.retainAll, List.foldlM_append, copy_eq]
    exact congrArg _ (funext fun m => ih m)

lemma CandoValue.releaseAll_eq (m : Blocks Str) (vs : List (CandoValue ν)) :
    releaseAll m vs = m.releaseAll (vs.flatMap addrs) := by
  induction vs generalizing m with
  | nil => rfl
  | cons v vs ih =>
    rw [releaseAll, List.foldlM_cons, List.flatMap_cons, Blocks.releaseAll, List.foldlM_append, release_eq]
    exact congrArg _ (funext fun m => ih m)

lemma copyAll_spec (h : m.Balanced R) (held : refs vs ⊆ R) :
    ∃ m', CandoValue.copyAll m vs = some m' ∧ m'.Balanced (refs vs + R) ∧ Keeps R m m' := by
  rw [CandoValue.copyAll_eq]
  exact h.retainAll fun p mem => held (Multiset.mem_coe.mpr mem)

lemma releaseAll_spec (h : m.Balanced (refs vs + R)) :
    ∃ m', CandoValue.releaseAll m vs = some m' ∧ m'.Balanced R ∧ Keeps R m m' := by
  rw [CandoValue.releaseAll_eq]
  exact h.releaseAll

lemma copy_spec (h : m.Balanced R) (held : refs [v] ⊆ R) :
    ∃ m', v.copy m = some m' ∧ m'.Balanced (refs [v] + R) ∧ Keeps R m m' := by
  obtain ⟨m', step, spec⟩ := copyAll_spec h held
  rw [CandoValue.copyAll, List.foldlM_cons] at step
  exact ⟨m', (bind_pure (v.copy m)).symm.trans step, spec⟩

lemma release_spec (h : m.Balanced (refs [v] + R)) :
    ∃ m', v.release m = some m' ∧ m'.Balanced R ∧ Keeps R m m' := by
  obtain ⟨m', step, spec⟩ := releaseAll_spec h
  rw [CandoValue.releaseAll, List.foldlM_cons] at step
  exact ⟨m', (bind_pure (v.release m)).symm.trans step, spec⟩

lemma read_keeps (keeps : Keeps R m m') (held : refs [v] ⊆ R) : v.read m' = v.read m := by
  cases v with
  | string p =>
    have same := keeps p (held (Multiset.mem_singleton_self p))
    rw [CandoValue.read, CandoValue.read, same]
  | _ => rfl

lemma reads_keep (keeps : Keeps R m m') (held : refs vs ⊆ R) :
    vs.map (·.read m') = vs.map (·.read m) := by
  apply List.map_congr_left
  intro v mem
  apply read_keeps keeps
  intro p here
  exact held (refs_subset (List.cons_subset.mpr ⟨mem, List.nil_subset vs⟩) here)

end References

/-! ### Delivery -/

section Delivery

open Blocks Interleaving

variable {ν : Type} [DecidableEq ν] {S S' : ThreadResults ν} {b : BodyEnd (Value ν)} {a : ResultsAct ν}

/-- What a thread takes over from its body and keeps. -/
def ThreadResults.kept (S : ThreadResults ν) : List (CandoValue ν) :=
  (S.body.map BodyEnd.values).getD [] ++ S.thread.results ++ S.thread.error.toList

/-- All that is held, by whomever. -/
def ThreadResults.owned (S : ThreadResults ν) : List (CandoValue ν) := S.kept ++ S.child ++ S.held

/-- What is due to somebody who takes the results of a thread with the body `b`. -/
def Receipt.Correct (b : BodyEnd (Value ν)) (d : Receipt ν) : Prop :=
  match d.final with
  | .done => ∃ vals, b = .results vals ∧ d.got = .values (vals.map some)
  | .error => d.taker = .await → ∃ e, b.raises = some e ∧ d.got = .raised (some e)
  | .cancelled => d.taker = .await → ∃ e, d.got = .raised (some e)
  | .pending | .running => False

/-- The steps that are right: the body returns no more than the thread object has room for, nobody awaits a thread
that is cancelled or that returned nothing, and nobody joins one that returned strings. -/
def Faithful (S : ThreadResults ν) : ResultsAct ν → Prop
  | .finish => ((S.body.map BodyEnd.values).getD []).length ≤ threadMaxResults
  | .await _ => S.thread.state ≠ .cancelled ∧ (S.thread.state = .done → S.thread.results ≠ [])
  | .join => S.thread.state = .done → ∀ v ∈ S.thread.results, v.addrs = []
  | _ => True

instance (S : ThreadResults ν) : DecidablePred (Faithful S)
  | .finish => inferInstanceAs (Decidable (_ ≤ _))
  | .await _ => inferInstanceAs (Decidable (_ ∧ (_ → _)))
  | .join => inferInstanceAs (Decidable (_ → ∀ v ∈ S.thread.results, v.addrs = []))
  | .begin | .cancel | .callback | .copy _ | .release _ | .create .. => inferInstanceAs (Decidable True)

/-- A thread whose body is about to end, and those around it. -/
def startResults (m : Blocks Str) (held : List (CandoValue ν)) (body : BodyEnd (CandoValue ν)) : ThreadResults ν :=
  { strings := m, held, body := some body }

/-- Where a thread is, whose body means `b`. -/
inductive Phase (b : BodyEnd (Value ν)) (S : ThreadResults ν) : Prop where
  | running (e : BodyEnd (CandoValue ν)) (body : S.body = some e) (reads : e.map (·.read S.strings) = b.map some)
      (unfinished : S.thread.state ≠ .done ∧ S.thread.state ≠ .error) (results : S.thread.results = [])
      (error : S.thread.error = none) (child : S.child = [])
  | done (body : S.body = none) (vals : List (Value ν)) (returned : b = .results vals) (state : S.thread.state = .done)
      (reads : S.thread.results.map (·.read S.strings) = vals.map some)
  | error (body : S.body = none) (e : Value ν) (ended : b.raises = some e) (state : S.thread.state = .error)
      (v : CandoValue ν) (error : S.thread.error = some v) (reads : v.read S.strings = some e)

/-- What is true in all states that are reached. -/
structure Sound (b : BodyEnd (Value ν)) (S : ThreadResults ν) : Prop where
  balanced : S.strings.Balanced (refs S.owned)
  taken : ∀ d ∈ S.taken, d.Correct b
  phase : Phase b S

omit [DecidableEq ν] in
lemma BodyEnd.read_keeps {m m' : Blocks Str} {R : Multiset Nat} (e : BodyEnd (CandoValue ν)) (keeps : Keeps R m m')
    (held : refs e.values ⊆ R) : e.map (·.read m') = e.map (·.read m) := by
  cases e with
  | results vals => exact congrArg BodyEnd.results (reads_keep keeps held)
  | error v => exact congrArg BodyEnd.error (Cando.read_keeps keeps held)
  | invalid v => exact congrArg BodyEnd.invalid (Cando.read_keeps keeps held)

omit [DecidableEq ν] in
/-- As long as its references are held, a thread means the same. -/
lemma Phase.keep {m : Blocks Str} {R : Multiset Nat} (h : Phase b S) (keeps : Keeps R S.strings m)
    (held : refs S.kept ⊆ R) (same : S'.body = S.body ∧ S'.thread = S.thread) (strings : S'.strings = m)
    (child : S'.child = S.child ∨ S'.child = []) : Phase b S' := by
  obtain ⟨body', thread'⟩ := same
  subst strings
  cases h with
  | running e body reads unfinished results error none =>
    have inside : refs e.values ⊆ R := by
      intro p mem
      apply held
      rw [ThreadResults.kept, body, results, error]
      simpa using mem
    refine .running e (body'.trans body) ?_ (thread' ▸ unfinished) (thread' ▸ results) (thread' ▸ error) ?_
    · rw [e.read_keeps keeps inside, reads]
    · exact child.elim (fun e => e.trans none) id
  | done body vals returned state reads =>
    have inside : refs S.thread.results ⊆ R := by
      intro p mem
      apply held
      rw [ThreadResults.kept, body]
      simp only [Option.map_none, Option.getD_none, List.nil_append, refs_append, Multiset.mem_add]
      exact .inl mem
    refine .done (body'.trans body) vals returned (thread' ▸ state) ?_
    rw [thread', reads_keep keeps inside, reads]
  | error body e ended state v error reads =>
    have inside : refs [v] ⊆ R := by
      intro p mem
      apply held
      rw [ThreadResults.kept, body, error]
      simp only [Option.map_none, Option.getD_none, List.nil_append, refs_append, Multiset.mem_add]
      exact .inr mem
    refine .error (body'.trans body) e ended (thread' ▸ state) v (thread' ▸ error) ?_
    rw [read_keeps keeps inside, reads]

omit [DecidableEq ν] in
/-- The others may do with what they hold what they like. -/
lemma Sound.hold {m : Blocks Str} {R : Multiset Nat} (h : Sound b S) (keeps : Keeps R S.strings m)
    (held : refs S.kept ⊆ R) (same : S'.body = S.body ∧ S'.thread = S.thread) (strings : S'.strings = m)
    (child : S'.child = S.child ∨ S'.child = []) (balanced : m.Balanced (refs S.kept + refs S'.child + refs S'.held))
    (taken : ∀ d ∈ S'.taken, d.Correct b) : Sound b S' := by
  refine ⟨?_, taken, h.phase.keep keeps held same strings child⟩
  have kept : S'.kept = S.kept := by rw [ThreadResults.kept, ThreadResults.kept, same.1, same.2]
  rw [strings, ThreadResults.owned, kept, refs_append, refs_append]
  exact balanced

omit [DecidableEq ν] in
lemma Sound.owned (h : Sound b S) : S.strings.Balanced (refs S.kept + refs S.child + refs S.held) := by
  have balanced := h.balanced
  rw [ThreadResults.owned, refs_append, refs_append] at balanced
  exact balanced

omit [DecidableEq ν] in
/-- The end of a body in an error hands the error to the thread object. -/
lemma raise_spec {v : CandoValue ν} {e : Value ν} (balanced : S.strings.Balanced (refs [v] + refs S.held))
    (taken : ∀ d ∈ S.taken, d.Correct b) (thread : S.thread.results = [] ∧ S.thread.error = none ∧ S.child = [])
    (raises : b.raises = some e) (reads : v.read S.strings = some e) :
    ∃ S', S.finish (.error v) = some S' ∧ Sound b S' := by
  obtain ⟨results, error, child⟩ := thread
  have inside : refs [v] ⊆ refs [v] + refs S.held := fun p mem => Multiset.mem_add.mpr (.inl mem)
  obtain ⟨m₁, copied, balanced₁, keeps₁⟩ := copy_spec balanced inside
  obtain ⟨m₂, released, balanced₂, keeps₂⟩ := release_spec balanced₁
  have set : ThreadResults.setError S.strings S.thread v
    = some ({ (BodyEnd.error v).write S.thread with state := .error }, m₁) := by
    rw [ThreadResults.setError, error]
    simp only [Option.toList_none, CandoValue.releaseAll, List.foldlM_nil, copied, Option.pure_def, Option.bind_eq_bind,
      Option.bind_some]
  refine ⟨{ S with
    strings := m₂, thread := { (BodyEnd.error v).write S.thread with state := .error }, body := none }, ?_, ?_, taken,
      ?_⟩
  · simp only [ThreadResults.finish, set, Option.bind_eq_bind, Option.bind_some, released]
  · have own : refs [v] + refs S.held = refs ([] ++ S.thread.results ++ [v] ++ S.child ++ S.held) := by
      rw [results, child]
      simpa using (refs_cons v S.held).symm
    exact own ▸ balanced₂
  · refine .error rfl e raises rfl v rfl ?_
    rw [read_keeps (keeps₁.trans keeps₂) inside, reads]

omit [DecidableEq ν] in
/-- The end of the body hands its values to the thread object. -/
lemma finish_spec {e : BodyEnd (CandoValue ν)} (h : Sound b S) (body : S.body = some e)
    (fits : e.values.length ≤ threadMaxResults) : ∃ S', S.finish e = some S' ∧ Sound b S' := by
  cases h.phase with
  | done ended => cases ended.symm.trans body
  | error ended => cases ended.symm.trans body
  | running e' body' reads unfinished results error child =>
    obtain rfl : e' = e := Option.some.inj (body'.symm.trans body)
    have balanced : S.strings.Balanced (refs e'.values + refs S.held) := by
      have owned := h.owned
      rw [ThreadResults.kept, body', results, error, child] at owned
      simpa using owned
    cases e' with
    | error v =>
      cases b with
      | error e => exact raise_spec balanced h.taken ⟨results, error, child⟩ rfl (BodyEnd.error.inj reads)
      | _ => cases reads
    | invalid v =>
      cases b with
      | invalid e => exact raise_spec balanced h.taken ⟨results, error, child⟩ rfl (BodyEnd.invalid.inj reads)
      | _ => cases reads
    | results rets =>
      have few : rets.length ≤ threadMaxResults := fits
      have all : rets.take ThreadResults.maxThrowArgs = rets := List.take_of_length_le (few.trans (by decide))
      have inside {R : Multiset Nat} : refs rets ⊆ refs rets + R := fun p mem => Multiset.mem_add.mpr (.inl mem)
      obtain ⟨m₁, copied, balanced₁, keeps₁⟩ := copyAll_spec balanced inside
      obtain ⟨m₂, released, balanced₂, keeps₂⟩ := releaseAll_spec balanced₁
      obtain ⟨m₃, stored, balanced₃, keeps₃⟩ := copyAll_spec balanced₂ inside
      have captured : ThreadResults.opReturn S.strings rets = some (rets, m₂) := by
        simp only [ThreadResults.opReturn, all, copied, released, Option.bind_eq_bind, Option.bind_some]
      have set : ThreadResults.setResults m₂ S.thread rets =
          some ({ S.thread with results := rets, state := .done }, m₃) := by
        simp only [ThreadResults.setResults, List.take_of_length_le few, stored, Option.bind_eq_bind,
          Option.bind_some, BodyEnd.write]
      refine ⟨{ S with
        strings := m₃, thread := { S.thread with results := rets, state := .done }, body := none, child := rets },
        ?_, ?_, h.taken, ?_⟩
      · simp only [ThreadResults.finish, captured, set, Option.bind_eq_bind, Option.bind_some]
      · have own : refs rets + (refs rets + refs S.held) =
            refs ([] ++ rets ++ S.thread.error.toList ++ rets ++ S.held) := by
          rw [error]
          simp
        exact own ▸ balanced₃
      · cases b with
        | results vals =>
          refine .done rfl vals rfl rfl ?_
          rw [reads_keep (keeps₁.trans (keeps₂.trans keeps₃)) inside]
          exact BodyEnd.results.inj reads
        | _ => cases reads

/-- What somebody holds, one value aside. -/
lemma refs_give {old : CandoValue ν} {held : List (CandoValue ν)} (mem : old = .null ∨ old ∈ held) :
    refs held = refs [old] + refs (held.erase old) := by
  by_cases inside : old ∈ held
  · exact refs_erase inside
  · obtain rfl := mem.resolve_right inside
    rw [List.erase_of_not_mem inside]
    simp

omit [DecidableEq ν] in
lemma concat_correct {d : Receipt ν} (h : ∀ d ∈ S.taken, d.Correct b) (new : d.Correct b) :
    ∀ d' ∈ S.taken ++ [d], d'.Correct b := by
  intro d' mem
  rcases List.mem_append.mp mem with before | last
  · exact h d' before
  · exact List.mem_singleton.mp last ▸ new

/-- `await` delivers what is due. -/
lemma await_spec {old : CandoValue ν} (h : Sound b S) (finished : S.thread.state.isDone = true)
    (mem : old = .null ∨ old ∈ S.held) (right : Faithful S (.await old)) : ∃ S', S.await old = some S' ∧
      Sound b S' := by
  cases h.phase with
  | running e body reads unfinished =>
    obtain ⟨done, error⟩ := unfinished
    obtain ⟨cancelled, -⟩ := right
    cases state : S.thread.state with
    | done => exact absurd state done
    | error => exact absurd state error
    | cancelled => exact absurd state cancelled
    | _ =>
      rw [state] at finished
      cases finished
  | done body vals returned state reads =>
    have some_result := right.2 state
    have inside : refs S.thread.results ⊆ refs S.owned := by
      apply refs_subset
      intro v mem
      simp only [ThreadResults.owned, ThreadResults.kept, List.mem_append]
      exact .inl (.inl (.inl (.inr mem)))
    obtain ⟨m, copied, balanced, keeps⟩ := copyAll_spec h.balanced inside
    have same := reads_keep keeps inside
    have pushed : (if S.thread.results.length = 0 then [.null] else S.thread.results) = S.thread.results :=
      if_neg (mt List.length_eq_zero_iff.mp some_result)
    have step : S.await old = some { S with
        strings := m, held := S.thread.results ++ S.held,
        taken := S.taken ++ [⟨.await, .done, .values (vals.map some)⟩] } := by
      rw [ThreadResults.await, if_neg (by rw [state]; simp)]
      simp only [copied, Option.bind_eq_bind, Option.bind_some, pushed, same, reads, state]
    refine ⟨_, step, h.hold keeps ?_ ⟨rfl, rfl⟩ rfl (.inl rfl) ?_ (concat_correct h.taken ⟨vals, returned, rfl⟩)⟩
    · exact refs_subset fun v mem => List.mem_append_left _ (List.mem_append_left _ mem)
    · have own : refs S.thread.results + refs S.owned =
          refs S.kept + refs S.child + refs (S.thread.results ++ S.held) := by
        rw [ThreadResults.owned, refs_append, refs_append, refs_append]
        abel
      exact own ▸ balanced
  | error body e ended state v error reads =>
    have own := h.owned
    have give : refs S.kept + refs S.child + refs S.held =
        refs [old] + (refs S.kept + refs S.child + refs (S.held.erase old)) := by
      rw [refs_give mem]
      abel
    rw [give] at own
    obtain ⟨m₁, released, balanced₁, keeps₁⟩ := release_spec own
    have kept : refs S.kept ⊆ refs S.kept + refs S.child + refs (S.held.erase old) := by
      intro p mem
      exact Multiset.mem_add.mpr (.inl (Multiset.mem_add.mpr (.inl mem)))
    have inside : refs [v] ⊆ refs S.kept := by
      apply refs_subset
      intro u mem
      rw [ThreadResults.kept, error]
      exact List.mem_append_right _ mem
    obtain ⟨m₂, copied, balanced₂, keeps₂⟩ := copy_spec balanced₁ fun p mem => kept (inside mem)
    have keeps := keeps₁.trans keeps₂
    have step : S.await old = some { S with
        strings := m₂, held := v :: S.held.erase old,
        taken := S.taken ++ [⟨.await, .error, .raised (some e)⟩] } := by
      have same := read_keeps keeps fun p mem => kept (inside mem)
      rw [ThreadResults.await, if_pos state]
      simp only [released, error, Option.getD_some, copied, Option.bind_eq_bind, Option.bind_some, same, reads]
    refine ⟨_, step, h.hold keeps kept ⟨rfl, rfl⟩ rfl (.inl rfl) ?_
      (concat_correct h.taken fun _ => ⟨e, ended, rfl⟩)⟩
    have own : refs [v] + (refs S.kept + refs S.child + refs (S.held.erase old)) =
        refs S.kept + refs S.child + refs (v :: S.held.erase old) := by
      rw [refs_cons v (S.held.erase old)]
      abel
    exact own ▸ balanced₂

omit [DecidableEq ν] in
/-- `thread.join` delivers what is due, as long as there are no references to count. -/
lemma join_spec (h : Sound b S) (finished : S.thread.state.isDone = true)
    (right : S.thread.state = .done → ∀ v ∈ S.thread.results, v.addrs = []) : Sound b S.join := by
  have others (pushed : List (CandoValue ν)) (none : refs pushed = 0) :
      S.strings.Balanced (refs S.kept + refs S.child + refs (pushed ++ S.held)) := by
    rw [refs_append, none, zero_add]
    exact h.owned
  have kept : refs S.kept ⊆ refs S.owned :=
    refs_subset fun v mem => List.mem_append_left _ (List.mem_append_left _ mem)
  cases h.phase with
  | done body vals returned state reads =>
    have none : refs S.thread.results = 0 := by
      have plain : S.thread.results.flatMap CandoValue.addrs = [] := List.flatMap_eq_nil_iff.mpr (right state)
      rw [refs, plain]
      rfl
    have pushed : S.join = { S with
        held := S.thread.results ++ S.held, taken := S.taken ++ [⟨.join, .done, .values (vals.map some)⟩] } := by
      simp only [ThreadResults.join, state, if_true, reads]
    rw [pushed]
    exact h.hold .refl kept ⟨rfl, rfl⟩ rfl (.inl rfl) (others _ none) (concat_correct h.taken ⟨vals, returned, rfl⟩)
  | running e body reads unfinished =>
    have pushed : S.join = { S with
        held := .null :: S.held, taken := S.taken ++ [⟨.join, S.thread.state, .values [some .null]⟩] } := by
      rw [ThreadResults.join, if_neg unfinished.1]
      rfl
    rw [pushed]
    refine h.hold .refl kept ⟨rfl, rfl⟩ rfl (.inl rfl) (others [.null] rfl) (concat_correct h.taken ?_)
    cases state : S.thread.state with
    | done => exact absurd state unfinished.1
    | error => exact absurd state unfinished.2
    | cancelled => exact fun wrong => by cases wrong
    | _ =>
      rw [state] at finished
      cases finished
  | error body e ended state =>
    have pushed : S.join = { S with
        held := .null :: S.held, taken := S.taken ++ [⟨.join, .error, .values [some .null]⟩] } := by
      rw [ThreadResults.join, if_neg (by rw [state]; simp), state]
      rfl
    rw [pushed]
    exact h.hold .refl kept ⟨rfl, rfl⟩ rfl (.inl rfl) (others [.null] rfl)
      (concat_correct h.taken fun wrong => by cases wrong)

omit [DecidableEq ν] in
/-- A mark on a thread whose body has not ended. -/
lemma Sound.mark {st : ThreadState} {begun : Bool} (h : Sound b S) (body : S.body.isSome = true)
    (unfinished : st ≠ .done ∧ st ≠ .error) :
    Sound b { S with begun, thread := { S.thread with state := st } } := by
  refine ⟨h.balanced, h.taken, ?_⟩
  cases h.phase with
  | running e at_body reads _ results error child => exact .running e at_body reads unfinished results error child
  | done ended =>
    rw [ended] at body
    cases body
  | error ended =>
    rw [ended] at body
    cases body

/-- What everybody else does with what he holds. -/
lemma other_spec (h : Sound b S) (step : (threadResults ν).step S a = some S')
    (other : a ≠ .finish ∧ a ≠ .join ∧ ∀ old, a ≠ .await old) (begins : a = .begin → S.body.isSome = true) :
    Sound b S' := by
  have kept {R : Multiset Nat} : refs S.kept ⊆ refs S.kept + R := fun p mem => Multiset.mem_add.mpr (.inl mem)
  have owned := h.owned
  cases a with
  | finish => exact absurd rfl other.1
  | join => exact absurd rfl other.2.1
  | await old => exact absurd rfl (other.2.2 old)
  | begin =>
    simp only [threadResults, resultsStep] at step
    split at step
    · cases step
    · cases step
      exact h.mark (begins rfl) (by simp)
  | cancel =>
    simp only [threadResults, resultsStep] at step
    split at step
    · cases step
    case isFalse unfinished =>
      cases step
      cases h.phase with
      | running e body => exact h.mark (by rw [body]; rfl) (by simp)
      | done _ _ _ state => exact absurd (by rw [state]; rfl) unfinished
      | error _ _ _ state => exact absurd (by rw [state]; rfl) unfinished
  | callback =>
    simp only [threadResults, resultsStep] at step
    split at step
    · cases step
    · have own : refs S.kept + refs S.child + refs S.held = refs S.child + (refs S.kept + refs S.held) := by abel
      rw [own] at owned
      obtain ⟨m, released, balanced, keeps⟩ := releaseAll_spec owned
      rw [released] at step
      cases step
      exact h.hold keeps kept ⟨rfl, rfl⟩ rfl (.inr rfl) (by simpa using balanced) h.taken
  | copy v =>
    simp only [threadResults, resultsStep] at step
    split at step
    case isFalse => cases step
    case isTrue mem =>
      have inside : refs [v] ⊆ refs S.kept + refs S.child + refs S.held := by
        intro p here
        exact Multiset.mem_add.mpr (.inr (refs_subset (List.cons_subset.mpr ⟨mem, List.nil_subset _⟩) here))
      obtain ⟨m, copied, balanced, keeps⟩ := copy_spec owned inside
      rw [copied] at step
      cases step
      rw [add_assoc] at keeps
      refine h.hold keeps kept ⟨rfl, rfl⟩ rfl (.inl rfl) ?_ h.taken
      have own : refs [v] + (refs S.kept + refs S.child + refs S.held) =
          refs S.kept + refs S.child + refs (v :: S.held) := by
        rw [refs_cons v S.held]
        abel
      exact own ▸ balanced
  | release v =>
    simp only [threadResults, resultsStep] at step
    split at step
    case isFalse => cases step
    case isTrue mem =>
      have own : refs S.kept + refs S.child + refs S.held =
          refs [v] + (refs S.kept + (refs S.child + refs (S.held.erase v))) := by
        rw [refs_erase mem]
        abel
      rw [own] at owned
      obtain ⟨m, released, balanced, keeps⟩ := release_spec owned
      rw [released] at step
      cases step
      rw [← add_assoc] at balanced
      exact h.hold keeps kept ⟨rfl, rfl⟩ rfl (.inl rfl) balanced h.taken
  | create s p =>
    simp only [threadResults, resultsStep] at step
    split at step
    case isFalse => cases step
    case isTrue free =>
      cases step
      obtain ⟨balanced, keeps⟩ := owned.create (d := s) free
      rw [add_assoc] at keeps
      refine h.hold keeps kept ⟨rfl, rfl⟩ rfl (.inl rfl) ?_ h.taken
      have own : p ::ₘ (refs S.kept + refs S.child + refs S.held) =
          refs S.kept + refs S.child + refs (.string p :: S.held) := by
        rw [refs_cons (.string p) S.held, ← Multiset.singleton_add]
        exact add_left_comm _ _ _
      exact own ▸ balanced

/-- The body ends after the thread has begun, and nothing brings it back. -/
lemma step_body (step : (threadResults ν).step S a = some S') (h : S.begun = false → S.body.isSome = true) :
    S'.begun = false → S'.body.isSome = true := by
  cases a with
  | begin =>
    simp only [threadResults, resultsStep] at step
    split at step
    · cases step
    · cases step
      exact fun begun => by cases begun
  | finish =>
    simp only [threadResults, resultsStep] at step
    split at step
    case isFalse => cases step
    case isTrue begun =>
      obtain ⟨e, body, ends⟩ := Option.bind_eq_some_iff.mp step
      intro unbegun
      have kept : S'.begun = S.begun := by
        cases e with
        | results rets =>
          obtain ⟨⟨captured, m⟩, -, ends⟩ := Option.bind_eq_some_iff.mp ends
          obtain ⟨⟨t, m⟩, -, ends⟩ := Option.bind_eq_some_iff.mp ends
          cases ends
          rfl
        | _ =>
          obtain ⟨⟨t, m⟩, -, ends⟩ := Option.bind_eq_some_iff.mp ends
          obtain ⟨m, -, ends⟩ := Option.bind_eq_some_iff.mp ends
          cases ends
          rfl
      rw [kept, begun] at unbegun
      cases unbegun
  | await old =>
    simp only [threadResults, resultsStep] at step
    split at step
    case isFalse => cases step
    case isTrue =>
      rw [ThreadResults.await] at step
      split at step
      · obtain ⟨m, -, step⟩ := Option.bind_eq_some_iff.mp step
        obtain ⟨m, -, step⟩ := Option.bind_eq_some_iff.mp step
        cases step
        exact h
      · obtain ⟨m, -, step⟩ := Option.bind_eq_some_iff.mp step
        cases step
        exact h
  | callback | copy | release =>
    simp only [threadResults, resultsStep] at step
    split at step
    all_goals first | cases step | (obtain ⟨m, -, rfl⟩ := Option.map_eq_some_iff.mp step; exact h)
  | cancel | join | create =>
    simp only [threadResults, resultsStep] at step
    split at step <;> cases step
    exact h

/-- A right step keeps everything sound. -/
lemma step_sound (right : Faithful S a) (step : (threadResults ν).step S a = some S')
    (begins : S.begun = false → S.body.isSome = true) (h : Sound b S) : Sound b S' := by
  cases a with
  | finish =>
    simp only [threadResults, resultsStep] at step
    split at step
    case isFalse => cases step
    case isTrue =>
      obtain ⟨e, body, ends⟩ := Option.bind_eq_some_iff.mp step
      rw [Faithful, body] at right
      obtain ⟨T, ends', sound⟩ := finish_spec h body right
      obtain rfl := Option.some.inj (ends'.symm.trans ends)
      exact sound
  | await old =>
    simp only [threadResults, resultsStep] at step
    split at step
    case isFalse => cases step
    case isTrue may =>
      obtain ⟨T, awaited, sound⟩ := await_spec h may.1 may.2 right
      obtain rfl := Option.some.inj (awaited.symm.trans step)
      exact sound
  | join =>
    simp only [threadResults, resultsStep] at step
    split at step
    case isFalse => cases step
    case isTrue finished =>
      cases step
      exact join_spec h finished right
  | begin =>
    refine other_spec h step (by simp) fun _ => begins ?_
    by_contra begun
    simp [threadResults, resultsStep, begun] at step
  | _ => exact other_spec h step (by simp) (by simp)

end Delivery

/-- A heap with one string, which the body of a thread is about to return. -/
def oneString : Blocks Str := Blocks.create (fun _ => none) 0 [115]

lemma oneString_balanced : oneString.Balanced (refs (([.string 0] : List (CandoValue Nat)) ++ [])) := by
  have none : Blocks.Balanced (δ := Str) (fun _ => none) 0 := by
    constructor
    · intro a mem
      cases Multiset.notMem_zero a mem
    · exact fun _ _ => rfl
  exact (none.create rfl).1

end Cando
