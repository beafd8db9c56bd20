import Cando.Vm.SessionStep

/-!
# Values that can be got at

The places of a session in which a value may stand, and what can be got at from them. What a virtual machine does to its
own values brings in none that it does not hold.
-/

namespace Cando

namespace Session

/-! ### Values that can be got at -/

/-- The results that the caller of a `vm_run` keeps. -/
def Purpose.saved : Purpose → List Val
  | .eval _ _ _ savedResults _ => savedResults
  | .module _ _ _ _ savedResults => savedResults
  | _ => []

/-- All values in the places of a VM have the property. The function of a thread counts until it has ended, and the
callbacks until one has been called. -/
structure Vm.Held (H : List Obj) (P : Val → Prop) (vm : Vm) : Prop where
  stack : ∀ v ∈ vm.stack, P v
  errorVals : ∀ v ∈ vm.errorVals, P v
  threadResults : ∀ v ∈ vm.threadResults, P v
  evalResults : ∀ v ∈ vm.evalResults, P v
  saved : ∀ c ∈ vm.calls, ∀ v ∈ c.purpose.saved, P v
  modules : ∀ m ∈ vm.moduleCache, ∀ v ∈ m.values, P v
  stringProto : P vm.stringProto
  arrayProto : P vm.arrayProto
  thread : P vm.thread
  fnVal : vm.stage ∈ [.born, .begun, .started] → P vm.fnVal
  callbacks : vm.awaits → ∀ h t, vm.thread = .object h → H[h]? = some (.thread t) → P t.thenFn ∧ P t.catchFn

/-- The property holds of all values from which a session starts, and passes from an object to what it refers to. -/
structure Holds (S : Session) (P : Val → Prop) : Prop where
  plain : P .plain
  globals : ∀ e g x, S.env e = some g → P (g x)
  vms : ∀ (i : Nat) (vm : Vm), S.vms[i]? = some vm → vm.Held S.heap P
  fields : ∀ h get x, P (.object h) → S.heap[h]? = some (.fields get) → P (get x)
  results : ∀ h t, P (.object h) → S.heap[h]? = some (.thread t) → ∀ v ∈ t.error :: t.results, P v

/-- A value that can be got at: no such property excludes it. -/
def Reach (S : Session) (v : Val) : Prop := ∀ P, S.Holds P → P v

variable {S S' : Session} {P Q : Val → Prop} {H : List Obj} {vm vm' : Vm} {v : Val} {vs : List Val} {i k : Nat}
  {a : Act}

lemma Vm.Held.mono (held : vm.Held H P) (sub : ∀ v, P v → Q v) : vm.Held H Q where
  stack v mem := sub v (held.stack v mem)
  errorVals v mem := sub v (held.errorVals v mem)
  threadResults v mem := sub v (held.threadResults v mem)
  evalResults v mem := sub v (held.evalResults v mem)
  saved c mem v mem' := sub v (held.saved c mem v mem')
  modules m mem v mem' := sub v (held.modules m mem v mem')
  stringProto := sub _ held.stringProto
  arrayProto := sub _ held.arrayProto
  thread := sub _ held.thread
  fnVal stage := sub _ (held.fnVal stage)
  callbacks awaits h t e found := (held.callbacks awaits h t e found).imp (sub _) (sub _)

/-- What can be got at is the least of these properties. -/
lemma holds_reach : S.Holds S.Reach where
  plain _ holds := holds.plain
  globals e g x found _ holds := holds.globals e g x found
  vms i vm found :=
    { stack := fun v mem _ holds => (holds.vms i vm found).stack v mem
      errorVals := fun v mem _ holds => (holds.vms i vm found).errorVals v mem
      threadResults := fun v mem _ holds => (holds.vms i vm found).threadResults v mem
      evalResults := fun v mem _ holds => (holds.vms i vm found).evalResults v mem
      saved := fun c mem v mem' _ holds => (holds.vms i vm found).saved c mem v mem'
      modules := fun m mem v mem' _ holds => (holds.vms i vm found).modules m mem v mem'
      stringProto := fun _ holds => (holds.vms i vm found).stringProto
      arrayProto := fun _ holds => (holds.vms i vm found).arrayProto
      thread := fun _ holds => (holds.vms i vm found).thread
      fnVal := fun stage _ holds => (holds.vms i vm found).fnVal stage
      callbacks := fun awaits h t e there =>
        ⟨fun _ holds => ((holds.vms i vm found).callbacks awaits h t e there).1,
          fun _ holds => ((holds.vms i vm found).callbacks awaits h t e there).2⟩ }
  fields h get x reach found _ holds := holds.fields h get x (reach _ holds) found
  results h t reach found v mem _ holds := holds.results h t (reach _ holds) found v mem

/-! ### What a virtual machine does to its values -/

lemma held_modifyCall {f : Call → Call} (same : ∀ c, (f c).purpose = c.purpose) :
    (vm.modifyCall f).Held H P ↔ vm.Held H P := by
  rw [Vm.modifyCall]
  rcases e : vm.calls with _ | ⟨c, cs⟩
  · exact Iff.rfl
  · have each : (∀ d ∈ f c :: cs, ∀ v ∈ d.purpose.saved, P v) ↔ ∀ d ∈ vm.calls, ∀ v ∈ d.purpose.saved, P v := by
      rw [e, List.forall_mem_cons, List.forall_mem_cons, same]
    constructor
    · intro held
      exact { held with saved := each.mp held.saved }
    · intro held
      exact { held with saved := each.mpr held.saved }

/-- Of a VM that has been destroyed no value can be got at. -/
lemma held_destroy (plain : P .plain) : vm.destroy.Held H P where
  stack := nofun
  errorVals := nofun
  threadResults := nofun
  evalResults := nofun
  saved := nofun
  modules m mem v mem' := by
    obtain ⟨_, -, rfl⟩ := List.mem_map.mp mem
    exact absurd mem' List.not_mem_nil
  stringProto := plain
  arrayProto := plain
  thread := plain
  fnVal _ := plain
  callbacks _ _ _ e := by cases e

namespace Vm.Held

variable (held : vm.Held H P)
include held

lemma pushAll (each : ∀ v ∈ vs, P v) : (vm.pushAll vs).Held H P :=
  { held with
    stack := fun v mem => by
      obtain mem | mem := List.mem_append.mp mem
      · exact each v (List.mem_reverse.mp mem)
      · exact held.stack v mem }

lemma push (here : P v) : (vm.push v).Held H P :=
  { held with stack := List.forall_mem_cons.mpr ⟨here, held.stack⟩ }

lemma pop (popped : vm.pop = some (v, vm')) : P v ∧ vm'.Held H P := by
  rw [Vm.pop] at popped
  rcases e : vm.stack with _ | ⟨w, s⟩
  · rw [e] at popped
    cases popped
  · rw [e] at popped
    cases popped
    have each := held.stack
    rw [e, List.forall_mem_cons] at each
    exact ⟨each.1, { held with stack := each.2 }⟩

/-- Any part of the values that the VM holds may become its stack. -/
lemma restack (sub : ∀ v ∈ vs, v ∈ vm.stack) : Held H P { vm with stack := vs } :=
  { held with stack := fun v mem => held.stack v (sub v mem) }

lemma modifyCall {f : Call → Call} (same : ∀ c, (f c).purpose = c.purpose) : (vm.modifyCall f).Held H P :=
  (held_modifyCall same).mpr held

lemma leave (failed : Bool) : (vm.leave failed).Held H P := held.modifyCall fun _ => rfl

lemma loadFrame (loaded : vm.loadFrame = some vm') : vm'.Held H P := by
  obtain ⟨f, -, rfl⟩ := Option.map_eq_some_iff.mp loaded
  exact held.modifyCall fun _ => rfl

lemma syncIp : vm.syncIp.Held H P := by
  rw [Vm.syncIp]
  rcases e : vm.calls with _ | ⟨c, cs⟩
  · exact held
  · have each := held.saved
    rw [e] at each
    exact { held with saved := each }

lemma raise (plain : P .plain) (raised : vm.raise = some vm') : vm'.Held H P := by
  rw [Vm.raise] at raised
  rcases e : vm.tryStack with _ | ⟨tf, rest⟩
  · rw [e] at raised
    cases raised
    have left : Held H P { vm with stack := vm.stack.map fun _ => .plain, tryStack := [] } :=
      { held with
        stack := fun v mem => by
          obtain ⟨_, -, rfl⟩ := List.mem_map.mp mem
          exact plain }
    exact left.leave true
  · rw [e] at raised
    obtain ⟨vm₁, loaded, e⟩ := Option.bind_eq_some_iff.mp raised
    cases e
    have unwound : Held H P { vm with
        frameCount := min tf.frameSave vm.frameCount
        stack := dropTo tf.stackSave vm.stack
        tryStack := rest
        hasError := false } := { held with stack := fun v mem => held.stack v (List.mem_of_mem_drop mem) }
    exact (unwound.loadFrame loaded).modifyCall fun _ => rfl

lemma checked (plain : P .plain) (checked : vm.checked = some vm') : vm'.Held H P := by
  rw [Vm.checked] at checked
  cases e : vm.hasError
  · rw [e] at checked
    cases checked
    exact held
  · rw [e] at checked
    exact held.raise plain checked

lemma enter (plain : P .plain) (closure ip localCount argCount : Nat) (isFluent : Bool) :
    (vm.enter closure ip localCount argCount isFluent).Held H P :=
  { held with
    stack := fun v mem => by
      obtain mem | mem := List.mem_append.mp mem
      · rw [List.eq_of_mem_replicate mem]
        exact plain
      · exact held.stack v mem }

lemma run {purpose : Purpose} (each : ∀ v ∈ purpose.saved, P v) (ran : vm.run purpose = some vm') : vm'.Held H P := by
  have called : Held H P { vm with calls := { purpose } :: vm.calls } :=
    { held with saved := List.forall_mem_cons.mpr ⟨each, held.saved⟩ }
  exact called.loadFrame ran

lemma capture (plain : P .plain) (each : ∀ v ∈ vs, P v) : (vm.capture vs).Held H P := by
  have marked : Held H P { vm with threadStopFrame := some vm.frameCount, threadResults := [] } :=
    { held with threadResults := nofun }
  exact marked.pushAll (List.forall_mem_cons.mpr ⟨plain, each⟩)

lemma returned (f : Frame) (n : Nat) (v : Val) (mem : v ∈ vm.returned f n) : P v := by
  rw [Vm.returned] at mem
  cases e : f.isFluent
  · rw [e] at mem
    exact held.stack v (List.mem_of_mem_take (List.mem_reverse.mp mem))
  · rw [e] at mem
    exact held.stack v (List.mem_of_mem_drop (List.mem_of_mem_take mem))

lemma ret {f : Frame} {n : Nat} (ret : vm.ret f n = some vm') : vm'.Held H P := by
  have below : ∀ v ∈ dropTo f.slots vm.stack, P v := fun v mem => held.stack v (List.mem_of_mem_drop mem)
  have values := held.returned f n
  rw [Vm.ret] at ret
  by_cases short : vm.frameCount = 0 ∨ vm.stack.length < f.slots + max n (if f.isFluent then 2 else 0)
  · rw [if_pos short] at ret
    cases ret
  rw [if_neg short] at ret
  by_cases thread : vm.threadStopFrame = some (vm.frameCount - 1)
  · rw [if_pos thread] at ret
    cases ret
    have left : Held H P { vm with
        frameCount := vm.frameCount - 1
        stack := dropTo f.slots vm.stack
        threadResults := (vm.returned f n).take maxThrowArgs } :=
      { held with stack := below, threadResults := fun v mem => values v (List.mem_of_mem_take mem) }
    exact left.leave false
  rw [if_neg thread] at ret
  by_cases eval : vm.evalStopFrame = some (vm.frameCount - 1)
  · rw [if_pos eval] at ret
    cases ret
    have left : Held H P { vm with
        frameCount := vm.frameCount - 1
        stack := dropTo f.slots vm.stack
        evalResults := vm.returned f n } := { held with stack := below, evalResults := values }
    exact left.leave false
  rw [if_neg eval] at ret
  by_cases last : vm.frameCount = 1
  · rw [if_pos last] at ret
    cases ret
    have left : Held H P { vm with frameCount := 0, stack := [] } := { held with stack := nofun }
    exact left.leave false
  · rw [if_neg last] at ret
    have back : Held H P { vm with
        frameCount := vm.frameCount - 1
        stack := (vm.returned f n).reverse ++ dropTo f.slots vm.stack } :=
      { held with
        stack := fun v mem => by
          obtain mem | mem := List.mem_append.mp mem
          · exact values v (List.mem_reverse.mp mem)
          · exact below v mem }
    exact back.loadFrame ret

lemma restage (stage : Stage) (fnVal : stage ∈ [.born, .begun, .started] → vm.stage ∈ [.born, .begun, .started])
    (awaits : stage ∈ [.born, .begun, .started, .finished] → vm.stage ∈ [.born, .begun, .started, .finished]) :
    Held H P { vm with stage } :=
  { held with
    fnVal := fun mem => held.fnVal (fnVal mem)
    callbacks := fun mem => held.callbacks (decide_eq_true (awaits (of_decide_eq_true mem))) }

end Vm.Held

/-! ### What a session does to its values -/

lemma closureOf_eq_some : S.closureOf v = some k ↔ ∃ h pc, v = .object h ∧ S.heap[h]? = some (.function pc k) := by
  constructor
  · intro e
    rcases v with _ | h
    · cases e
    · rcases found : S.heap[h]? with _ | ⟨pc, d⟩ | get | t
      all_goals simp only [closureOf, found] at e
      all_goals cases e
      exact ⟨h, pc, rfl, found⟩
  · rintro ⟨h, pc, rfl, found⟩
    simp only [closureOf, found]

lemma fieldsOf_eq_some {x : Nat × (Str → Val)} :
    S.fieldsOf v = some x ↔ v = .object x.1 ∧ S.heap[x.1]? = some (.fields x.2) := by
  constructor
  · intro e
    rcases v with _ | h
    · cases e
    · rcases found : S.heap[h]? with _ | ⟨pc, d⟩ | get | t
      all_goals simp only [fieldsOf, found] at e
      all_goals cases e
      exact ⟨rfl, found⟩
  · rintro ⟨rfl, found⟩
    simp only [fieldsOf, found]

lemma threadOf_eq_some {x : Nat × CdoThread} :
    S.threadOf v = some x ↔ v = .object x.1 ∧ S.heap[x.1]? = some (.thread x.2) := by
  constructor
  · intro e
    rcases v with _ | h
    · cases e
    · rcases found : S.heap[h]? with _ | ⟨pc, d⟩ | get | t
      all_goals simp only [threadOf, found] at e
      all_goals cases e
      exact ⟨rfl, found⟩
  · rintro ⟨rfl, found⟩
    simp only [threadOf, found]

end Session

end Cando
