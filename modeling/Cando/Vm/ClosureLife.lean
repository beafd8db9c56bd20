import Cando.Vm.SessionReach

/-!
# The life of closures

When all function values that can be got at have a closure that can be called. Only the steps behind a run that free
closures and chunks can change that, and the ones that do are those that free what such a function value refers to.
-/

namespace Cando

namespace Session

/-- Every function value that can be got at has a closure that can be called. -/
def Safe (S : Session) : Prop := ∀ v c, S.Reach v → S.closureOf v = some c → S.Live c

/-- The step frees neither the closure nor the chunk of a function value that can be got at. -/
def Harmless (S : Session) (a : Act) : Prop :=
  ∀ v c, S.Reach v → S.closureOf v = some c → c ∉ (S.frees a).1 ∧ ∀ x, S.code c = some x → x.1 ∉ (S.frees a).2

/-- The steps that free closures or chunks. -/
def Act.freeing : Act → Bool
  | .freeClosure _ | .freeChunk _ | .freeModules _ => true
  | _ => false

/-- A property that holds of all that can be got at, and of functions only with a closure that can be called. -/
structure Good (S : Session) (P : Val → Prop) : Prop extends Holds S P where
  live : ∀ v c, P v → S.closureOf v = some c → S.Live c

/-- What an object may refer to, next to values with the property. -/
def Obj.Fits (S : Session) (P : Val → Prop) : Obj → Prop
  | .function _ c => S.Live c
  | .fields get => ∀ x, P (get x)
  | .thread t => ∀ v ∈ t.error :: t.thenFn :: t.catchFn :: t.results, P v

variable {S S' : Session} {P : Val → Prop} {H : List Obj} {vm vm' : Vm} {o : Obj} {v : Val} {vs : List Val}
  {i h k : Nat} {a : Act}

lemma good_reach (safe : S.Safe) : S.Good S.Reach := { holds_reach with live := safe }

lemma Good.safe (good : S.Good P) : S.Safe := fun v c reach fn => good.live v c (reach P good.toHolds) fn

lemma Holds.setVm (holds : S.Holds P) (held : vm.Held S.heap P) : (S.setVm i vm).Holds P :=
  { holds with
    vms := fun j vm' found => by
      by_cases e : i = j
      · subst e
        have found : (S.vms.set i vm)[i]? = some vm' := found
        rw [List.getElem?_set_self'] at found
        obtain ⟨_, -, rfl⟩ := Option.map_eq_some_iff.mp found
        exact held
      · have found : (S.vms.set i vm)[j]? = some vm' := found
        rw [List.getElem?_set_ne e] at found
        exact holds.vms j vm' found }

/-- A handle that has not been given out yet does no harm. -/
lemma Good.extend (good : S.Good P) : S.Good fun v => P v ∨ v = .object S.heap.length where
  plain := .inl good.plain
  globals e g x found := .inl (good.globals e g x found)
  vms i vm found := (good.vms i vm found).mono fun _ => .inl
  fields h get x here found := by
    obtain here | e := here
    · exact .inl (good.fields h get x here found)
    · cases e
      rw [List.getElem?_eq_none le_rfl] at found
      cases found
  results h t here found v mem := by
    obtain here | e := here
    · exact .inl (good.results h t here found v mem)
    · cases e
      rw [List.getElem?_eq_none le_rfl] at found
      cases found
  live v c here fn := by
    obtain here | rfl := here
    · exact good.live v c here fn
    · obtain ⟨h, pc, e, found⟩ := closureOf_eq_some.mp fn
      cases e
      rw [List.getElem?_eq_none le_rfl] at found
      cases found

lemma found_alloc {o' : Obj} (found : (H ++ [o])[h]? = some o') : H[h]? = some o' ∨ h = H.length ∧ o' = o := by
  by_cases old : h < H.length
  · rw [List.getElem?_append_left old] at found
    exact .inl found
  · rw [List.getElem?_append_right (Nat.not_lt.mp old), List.getElem?_singleton] at found
    by_cases last : h - H.length = 0
    · rw [if_pos last] at found
      cases found
      exact .inr ⟨by omega, rfl⟩
    · rw [if_neg last] at found
      cases found

lemma found_setObj {o' : Obj} {h' : Nat} (found : (H.set h o)[h']? = some o') :
    H[h']? = some o' ∨ h = h' ∧ o' = o := by
  by_cases e : h = h'
  · subst e
    rw [List.getElem?_set_self'] at found
    obtain ⟨_, -, rfl⟩ := Option.map_eq_some_iff.mp found
    exact .inr ⟨rfl, rfl⟩
  · rw [List.getElem?_set_ne e] at found
    exact .inl found

lemma Vm.Held.enterFn {argCount : Nat} {isFluent : Bool} (held : vm.Held H P) (plain : P .plain)
    (entered : S.enterFn vm v argCount isFluent = some vm') : vm'.Held H P := by
  obtain ⟨c, -, entered⟩ := Option.bind_eq_some_iff.mp entered
  obtain ⟨⟨k, chunk⟩, -, entered⟩ := Option.bind_eq_some_iff.mp entered
  by_cases room : vm.frameCount < framesMax
  · simp only [if_pos room] at entered
    cases entered
    exact held.enter plain _ _ _ _ _
  · simp only [if_neg room] at entered
    cases entered

lemma Vm.Held.alloc (held : vm.Held H P) (fits : o.Fits S P) : vm.Held (H ++ [o]) P :=
  { held with
    callbacks := fun awaits h t e found => by
      obtain found | ⟨-, rfl⟩ := found_alloc found
      · exact held.callbacks awaits h t e found
      · exact ⟨fits _ (.tail _ (.head _)), fits _ (.tail _ (.tail _ (.head _)))⟩ }

lemma code_eq_some {x : Nat × Chunk} :
    S.code k = some x ↔ S.closures[k]? = some ⟨x.1, true⟩ ∧ S.chunks[x.1]? = some x.2 ∧ x.2.live := by
  constructor
  · intro e
    obtain ⟨⟨n, live⟩, closure, e⟩ := Option.bind_eq_some_iff.mp e
    obtain ⟨chunk, there, e⟩ := Option.bind_eq_some_iff.mp e
    cases e
    obtain ⟨closure, rfl⟩ := Option.filter_eq_some_iff.mp closure
    exact ⟨closure, Option.filter_eq_some_iff.mp there⟩
  · rintro ⟨closure, there⟩
    have closure := Option.filter_eq_some_iff (p := Closure.live).mpr ⟨closure, rfl⟩
    have there := Option.filter_eq_some_iff (p := Chunk.live).mpr there
    exact Option.bind_eq_some_iff.mpr ⟨_, closure, Option.bind_eq_some_iff.mpr ⟨_, there, rfl⟩⟩

lemma Live.load (live : S.Live k) (localCount : Nat) : (S.load localCount).Live k := by
  obtain ⟨x, code⟩ := Option.isSome_iff_exists.mp live
  obtain ⟨closure, there, alive⟩ := code_eq_some.mp code
  apply Option.isSome_iff_exists.mpr
  refine ⟨x, code_eq_some.mpr ⟨?_, ?_, alive⟩⟩
  · exact (List.getElem?_append_left (List.getElem?_eq_some_iff.mp closure).1).trans closure
  · exact (List.getElem?_append_left (List.getElem?_eq_some_iff.mp there).1).trans there

/-- What is left of the code of a closure when some closures and chunks are freed. -/
lemma code_free {cs ks : List Nat} {x : Nat × Chunk} :
    (S.free cs ks).code k = some x ↔ S.code k = some x ∧ k ∉ cs ∧ x.1 ∉ ks := by
  have closures : (S.free cs ks).closures[k]? = some ⟨x.1, true⟩ ↔ S.closures[k]? = some ⟨x.1, true⟩ ∧ k ∉ cs := by
    rw [Session.free, List.getElem?_mapIdx, Option.map_eq_some_iff]
    constructor
    · rintro ⟨⟨n, live⟩, found, e⟩
      obtain ⟨rfl, e⟩ := Closure.mk.inj e
      obtain ⟨rfl, kept⟩ := (Bool.and_eq_true _ _).mp e
      exact ⟨found, of_decide_eq_true kept⟩
    · rintro ⟨found, kept⟩
      exact ⟨_, found, congrArg (Closure.mk x.1) (decide_eq_true kept)⟩
  have chunks (alive : x.2.live) : (S.free cs ks).chunks[x.1]? = some x.2 ↔ S.chunks[x.1]? = some x.2 ∧ x.1 ∉ ks := by
    rw [Session.free, List.getElem?_mapIdx, Option.map_eq_some_iff]
    constructor
    · rintro ⟨⟨n, live⟩, found, e⟩
      rw [← e] at alive
      obtain ⟨rfl, kept⟩ := (Bool.and_eq_true _ _).mp alive
      refine ⟨found.trans (congrArg some ?_), of_decide_eq_true kept⟩
      rw [← e, kept]
      rfl
    · rintro ⟨found, kept⟩
      refine ⟨_, found, ?_⟩
      rw [decide_eq_true kept, Bool.and_true]
  rw [code_eq_some, code_eq_some]
  constructor
  · rintro ⟨closure, there, alive⟩
    obtain ⟨closure, kept⟩ := closures.mp closure
    obtain ⟨there, kept'⟩ := (chunks alive).mp there
    exact ⟨⟨closure, there, alive⟩, kept, kept'⟩
  · rintro ⟨⟨closure, there, alive⟩, kept, kept'⟩
    exact ⟨closures.mpr ⟨closure, kept⟩, (chunks alive).mpr ⟨there, kept'⟩, alive⟩

lemma update_fits {get : Str → Val} {x : Str} (each : ∀ y, P (get y)) (here : P v) (y : Str) :
    P (Function.update get x v y) := by
  by_cases e : y = x
  · subst e
    rw [Function.update_self]
    exact here
  · rw [Function.update_of_ne e]
    exact each y

lemma getD_fits (each : ∀ v ∈ vs, P v) (plain : P .plain) (n : Nat) : P (vs.getD n .plain) := by
  rw [List.getD_eq_getElem?_getD]
  cases found : vs[n]? with
  | none => exact plain
  | some v => exact each v (List.mem_of_getElem? found)

lemma headD_fits (each : ∀ v ∈ vs, P v) (plain : P .plain) : P (vs.headD .plain) := by
  cases vs with
  | nil => exact plain
  | cons v vs => exact each v (.head _)

lemma fits_newThread (plain : P .plain) : (Obj.thread {}).Fits S P :=
  List.forall_mem_cons.mpr ⟨plain, List.forall_mem_cons.mpr ⟨plain, List.forall_mem_singleton.mpr plain⟩⟩

/-- The VM of a new thread, whose object is put on the heap. -/
lemma held_born {parent : Nat} {fnVal : Val} (plain : P .plain) (fresh : P (.object H.length)) (here : P fnVal) :
    Vm.Held (H ++ [.thread {}]) P { stage := .born, parent, fnVal, thread := .object H.length } where
  stack := nofun
  errorVals := nofun
  threadResults := nofun
  evalResults := nofun
  saved := nofun
  modules := nofun
  stringProto := plain
  arrayProto := plain
  thread := fresh
  fnVal _ := here
  callbacks _ h t e found := by
    cases e
    rw [List.getElem?_concat_length] at found
    cases found
    exact ⟨plain, plain⟩

lemma Vm.Held.forget (held : vm.Held H P) (plain : P .plain) :
    Vm.Held H P { vm with stack := vm.stack.map fun _ => .plain } :=
  { held with
    stack := fun v mem => by
      obtain ⟨_, -, rfl⟩ := List.mem_map.mp mem
      exact plain }

lemma pending_fits {t : CdoThread} (each : ∀ v ∈ t.error :: t.results, P v) : ∀ v ∈ t.pending.2, P v := by
  intro v mem
  rw [CdoThread.pending] at mem
  cases state : t.state with
  | running =>
    rw [state] at mem
    cases mem
  | done =>
    rw [state] at mem
    exact each v (.tail _ mem)
  | error =>
    rw [state] at mem
    rw [List.mem_singleton.mp mem]
    exact each _ (.head _)

lemma vmAt_eq_some {stage : Stage} : S.vmAt i stage = some vm ↔ S.vms[i]? = some vm ∧ vm.stage = stage := by
  constructor
  · intro found
    obtain ⟨vm₁, there, e⟩ := Option.bind_eq_some_iff.mp found
    by_cases here : vm₁.stage = stage
    · simp only [if_pos here] at e
      cases e
      exact ⟨there, here⟩
    · simp only [if_neg here] at e
      cases e
  · rintro ⟨there, here⟩
    exact Option.bind_eq_some_iff.mpr ⟨vm, there, if_pos here⟩

lemma callOf_eq_some {c : Call} : S.callOf i = some (vm, c) ↔ S.vms[i]? = some vm ∧ vm.calls.head? = some c := by
  constructor
  · intro found
    obtain ⟨vm₁, there, e₁⟩ := Option.bind_eq_some_iff.mp found
    obtain ⟨c₁, top, e₂⟩ := Option.bind_eq_some_iff.mp e₁
    cases e₂
    exact ⟨there, top⟩
  · rintro ⟨there, top⟩
    exact Option.bind_eq_some_iff.mpr ⟨vm, there, Option.bind_eq_some_iff.mpr ⟨c, top, rfl⟩⟩

lemma Vm.Held.fail (held : vm.Held H P) (here : P v) : Vm.Held H P { vm with hasError := true, errorVals := [v] } :=
  { held with errorVals := List.forall_mem_singleton.mpr here }

namespace Good

variable (good : S.Good P)
include good

lemma setVm (held : vm.Held S.heap P) : (S.setVm i vm).Good P :=
  { good.toHolds.setVm held with live := good.live }

lemma addVm (held : vm.Held S.heap P) : ({ S with vms := S.vms ++ [vm] } : Session).Good P :=
  { good with
    vms := fun j vm' found => by
      obtain old | last := List.mem_append.mp (List.mem_of_getElem? found)
      · obtain ⟨j, found⟩ := List.getElem?_of_mem old
        exact good.vms j vm' found
      · rw [List.mem_singleton.mp last]
        exact held }

/-- An environment is replaced by one with values that have the property, or freed. -/
lemma setEnv {e : Nat} {g : Option (Str → Val)} (each : ∀ g', g = some g' → ∀ x, P (g' x)) :
    (S.setEnv e g).Good P :=
  { good with
    globals := fun e' g' x found => by
      have found : ((S.envs.set e g)[e']?).join = some g' := found
      by_cases same : e = e'
      · subst same
        rw [List.getElem?_set_self', Option.join_eq_some_iff] at found
        obtain ⟨_, -, there⟩ := Option.map_eq_some_iff.mp found
        exact each g' there x
      · rw [List.getElem?_set_ne same] at found
        exact good.globals e' g' x found }

lemma addEnv {g : Str → Val} (each : ∀ x, P (g x)) : ({ S with envs := S.envs ++ [some g] } : Session).Good P :=
  { good with
    globals := fun e' g' x found => by
      obtain old | last := List.mem_append.mp (List.mem_of_getElem? (Option.join_eq_some_iff.mp found))
      · obtain ⟨e, found⟩ := List.getElem?_of_mem old
        exact good.globals e g' x (Option.join_eq_some_iff.mpr found)
      · cases List.mem_singleton.mp last
        exact each x }

lemma load (localCount : Nat) : (S.load localCount).Good P :=
  { good with live := fun v c here fn => (good.live v c here fn).load localCount }

lemma alloc (fits : o.Fits S P) : (S.alloc o).Good P where
  plain := good.plain
  globals := good.globals
  vms i vm found := (good.vms i vm found).alloc fits
  fields h get x here found := by
    obtain found | ⟨-, rfl⟩ := found_alloc found
    · exact good.fields h get x here found
    · exact fits x
  results h t here found v mem := by
    obtain found | ⟨-, rfl⟩ := found_alloc found
    · exact good.results h t here found v mem
    · obtain mem | mem := List.mem_cons.mp mem
      · exact fits v (mem ▸ .head _)
      · exact fits v (.tail _ (.tail _ (.tail _ mem)))
  live v c here fn := by
    obtain ⟨h, pc, rfl, found⟩ := closureOf_eq_some.mp fn
    obtain found | ⟨-, rfl⟩ := found_alloc found
    · exact good.live _ c here (closureOf_eq_some.mpr ⟨h, pc, rfl, found⟩)
    · exact fits

/-- An object whose fields have the property takes the place of another. -/
lemma setFields {get : Str → Val} (each : ∀ x, P (get x)) : (S.setObj h (.fields get)).Good P where
  plain := good.plain
  globals := good.globals
  vms i vm found :=
    { good.vms i vm found with
      callbacks := fun awaits h' t e found' => by
        obtain found' | ⟨-, e⟩ := found_setObj found'
        · exact (good.vms i vm found).callbacks awaits h' t e found'
        · cases e }
  fields h' get' x here found := by
    obtain found | ⟨-, e⟩ := found_setObj found
    · exact good.fields h' get' x here found
    · cases e
      exact each x
  results h' t here found := by
    obtain found | ⟨-, e⟩ := found_setObj found
    · exact good.results h' t here found
    · cases e
  live v c here fn := by
    obtain ⟨h', pc, rfl, found⟩ := closureOf_eq_some.mp fn
    obtain found | ⟨-, e⟩ := found_setObj found
    · exact good.live _ c here (closureOf_eq_some.mpr ⟨h', pc, rfl, found⟩)
    · cases e

/-- A thread gets other results, or another callback. -/
lemma setThread {t t' : CdoThread} (old : S.heap[h]? = some (.thread t)) (each : ∀ v ∈ t'.error :: t'.results, P v)
    (thenFn : t'.thenFn = t.thenFn ∨ P t'.thenFn) (catchFn : t'.catchFn = t.catchFn ∨ P t'.catchFn) :
    (S.setObj h (.thread t')).Good P where
  plain := good.plain
  globals := good.globals
  vms i vm found :=
    { good.vms i vm found with
      callbacks := fun awaits h' t₁ e found' => by
        have callbacks := (good.vms i vm found).callbacks awaits h'
        obtain found' | ⟨rfl, e'⟩ := found_setObj found'
        · exact callbacks t₁ e found'
        · cases e'
          have fits := callbacks t e old
          exact ⟨thenFn.elim (fun e => e ▸ fits.1) id, catchFn.elim (fun e => e ▸ fits.2) id⟩ }
  fields h' get x here found := by
    obtain found | ⟨-, e⟩ := found_setObj found
    · exact good.fields h' get x here found
    · cases e
  results h' t₁ here found := by
    obtain found | ⟨-, e⟩ := found_setObj found
    · exact good.results h' t₁ here found
    · cases e
      exact each
  live v c here fn := by
    obtain ⟨h', pc, rfl, found⟩ := closureOf_eq_some.mp fn
    obtain found | ⟨-, e⟩ := found_setObj found
    · exact good.live _ c here (closureOf_eq_some.mpr ⟨h', pc, rfl, found⟩)
    · cases e

lemma callValue {purpose : Purpose} (held : vm.Held S.heap P) (saved : purpose.saved = []) (each : ∀ v ∈ vs, P v)
    (called : S.callValue i vm purpose v vs = some S') : S'.Good P := by
  obtain ⟨vm₁, entered, called⟩ := Option.bind_eq_some_iff.mp called
  obtain ⟨vm₂, ran, e⟩ := Option.bind_eq_some_iff.mp called
  cases e
  have prepared := (held.capture good.plain each).enterFn good.plain entered
  exact good.setVm (prepared.run (saved ▸ nofun) ran)

lemma enterCode {purpose : Purpose} {localCount : Nat} (held : vm.Held S.heap P)
    (entered : S.enterCode i vm purpose localCount = some S') (each : ∀ v ∈ purpose.saved, P v) : S'.Good P := by
  rw [Session.enterCode] at entered
  by_cases room : vm.frameCount < framesMax
  · simp only [if_pos room] at entered
    obtain ⟨vm₁, ran, e⟩ := Option.bind_eq_some_iff.mp entered
    cases e
    have marked : Vm.Held S.heap P { vm with evalStopFrame := some vm.frameCount, evalResults := [] } :=
      { held with evalResults := nofun }
    exact (good.load _).setVm ((((marked.push good.plain).enter good.plain _ _ _ _ _).run each) ran)
  · simp only [if_neg room] at entered
    cases entered

lemma fetch {f : Frame} (fetched : S.fetch i = some (vm, f)) : vm.Held S.heap P := by
  obtain ⟨vm₁, found, e₁⟩ := Option.bind_eq_some_iff.mp fetched
  obtain ⟨c, -, e₂⟩ := Option.bind_eq_some_iff.mp e₁
  obtain ⟨g, -, e₃⟩ := Option.bind_eq_some_iff.mp e₂
  obtain ⟨k, -, e₄⟩ := Option.bind_eq_some_iff.mp e₃
  by_cases running : c.phase = .running
  · simp only [if_pos running] at e₄
    cases e₄
    exact (good.vms i vm₁ found).syncIp
  · simp only [if_neg running] at e₄
    cases e₄

lemma idle (idle : S.idle = some vm) : vm.Held S.heap P := by
  obtain ⟨vm₁, found, e⟩ := Option.bind_eq_some_iff.mp idle
  by_cases still : vm₁.stage = .root ∧ vm₁.calls = []
  · simp only [if_pos still] at e
    cases e
    exact good.vms _ _ found
  · simp only [if_neg still] at e
    cases e

lemma vmAt {stage : Stage} (found : S.vmAt i stage = some vm) : vm.Held S.heap P ∧ vm.stage = stage := by
  obtain ⟨there, e⟩ := vmAt_eq_some.mp found
  exact ⟨good.vms i vm there, e⟩

lemma callOf {c : Call} (found : S.callOf i = some (vm, c)) : vm.Held S.heap P ∧ vm.calls.head? = some c := by
  obtain ⟨there, top⟩ := callOf_eq_some.mp found
  exact ⟨good.vms i vm there, top⟩

/-- An instruction. The handle that it may give out has the property, too. -/
lemma exec {f : Frame} {x : Instr} (fresh : P (.object S.heap.length)) (held : vm.Held S.heap P)
    (step : S.exec i vm f x = some S') : S'.Good P := by
  cases x with
  | push =>
    cases step
    exact good.setVm (held.push good.plain)
  | pop =>
    obtain ⟨⟨v, vm₁⟩, popped, e⟩ := Option.bind_eq_some_iff.mp step
    cases e
    exact good.setVm (held.pop popped).2
  | load n =>
    obtain ⟨v, found, e⟩ := Option.bind_eq_some_iff.mp step
    cases e
    exact good.setVm (held.push (held.stack v (List.mem_of_getElem? found)))
  | store n =>
    obtain ⟨⟨v, vm₁⟩, popped, e⟩ := Option.bind_eq_some_iff.mp step
    cases e
    obtain ⟨here, held⟩ := held.pop popped
    exact good.setVm { held with
      stack := fun w mem => by
        obtain mem | rfl := List.mem_or_eq_of_mem_set mem
        · exact held.stack w mem
        · exact here }
  | insert n =>
    obtain ⟨⟨v, vm₁⟩, popped, e⟩ := Option.bind_eq_some_iff.mp step
    cases e
    obtain ⟨here, held⟩ := held.pop popped
    exact good.setVm { held with
      stack := fun w mem => by
        obtain mem | mem := List.mem_append.mp mem
        · exact held.stack w (List.mem_of_mem_take mem)
        · obtain rfl | mem := List.mem_cons.mp mem
          · exact here
          · exact held.stack w (List.mem_of_mem_drop mem) }
  | loadGlobal x =>
    obtain ⟨g, found, e⟩ := Option.bind_eq_some_iff.mp step
    cases e
    exact good.setVm (held.push (good.globals _ g x found))
  | storeGlobal x =>
    obtain ⟨g, found, e⟩ := Option.bind_eq_some_iff.mp step
    obtain ⟨⟨v, vm₁⟩, popped, e⟩ := Option.bind_eq_some_iff.mp e
    cases e
    obtain ⟨here, held'⟩ := held.pop popped
    refine (good.setEnv fun g' e y => ?_).setVm held'
    cases e
    exact update_fits (good.globals _ g · found) here y
  | newObject =>
    cases step
    exact (good.setVm (held.push fresh)).alloc fun _ => good.plain
  | getField x =>
    obtain ⟨⟨v, vm₁⟩, popped, e⟩ := Option.bind_eq_some_iff.mp step
    obtain ⟨⟨h, get⟩, found, e⟩ := Option.bind_eq_some_iff.mp e
    cases e
    obtain ⟨here, held⟩ := held.pop popped
    obtain ⟨rfl, there⟩ := fieldsOf_eq_some.mp found
    exact good.setVm (held.push (good.fields h get x here there))
  | setField x =>
    obtain ⟨⟨v, vm₁⟩, popped, e⟩ := Option.bind_eq_some_iff.mp step
    obtain ⟨o, top, e⟩ := Option.bind_eq_some_iff.mp e
    obtain ⟨⟨h, get⟩, found, e⟩ := Option.bind_eq_some_iff.mp e
    cases e
    obtain ⟨here, held⟩ := held.pop popped
    obtain ⟨rfl, there⟩ := fieldsOf_eq_some.mp found
    have object := held.stack _ (List.mem_of_mem_head? top)
    exact (good.setVm held).setFields (update_fits (good.fields h get · object there) here)
  | proto array =>
    cases step
    cases array
    · exact good.setVm (held.push held.stringProto)
    · exact good.setVm (held.push held.arrayProto)
  | closure fnPc =>
    obtain ⟨x, code, e⟩ := Option.bind_eq_some_iff.mp step
    cases e
    exact (good.setVm (held.push fresh)).alloc (Option.isSome_iff_exists.mpr ⟨x, code⟩)
  | call argCount isFluent =>
    obtain ⟨callee, -, e⟩ := Option.bind_eq_some_iff.mp step
    obtain ⟨vm₁, entered, e⟩ := Option.bind_eq_some_iff.mp e
    obtain ⟨vm₂, loaded, e⟩ := Option.bind_eq_some_iff.mp e
    cases e
    exact good.setVm ((held.enterFn good.plain entered).loadFrame loaded)
  | callOffset argCount =>
    obtain ⟨⟨k, chunk⟩, -, e⟩ := Option.bind_eq_some_iff.mp step
    by_cases room : vm.frameCount < framesMax
    · simp only [if_pos room] at e
      obtain ⟨vm₁, loaded, e⟩ := Option.bind_eq_some_iff.mp e
      cases e
      exact good.setVm ((held.enter good.plain _ _ _ _ _).loadFrame loaded)
    · simp only [if_neg room] at e
      cases e
  | slide argCount retCount =>
    cases step
    exact good.setVm { held with
      stack := fun w mem => by
        obtain mem | mem := List.mem_append.mp mem
        · by_cases none : retCount = 0
          · rw [if_pos none] at mem
            rw [List.mem_singleton.mp mem]
            exact good.plain
          · rw [if_neg none] at mem
            exact held.stack w (List.mem_of_mem_take mem)
        · exact held.stack w (List.mem_of_mem_drop mem) }
  | ret n =>
    obtain ⟨vm₁, ret, e⟩ := Option.bind_eq_some_iff.mp step
    cases e
    exact good.setVm (held.ret ret)
  | halt =>
    cases step
    exact good.setVm (held.leave false)
  | tryBegin =>
    obtain ⟨c, -, e⟩ := Option.bind_eq_some_iff.mp step
    cases e
    exact good.setVm { held with }
  | tryEnd =>
    cases step
    exact good.setVm { held with }
  | catchBegin n =>
    cases step
    exact good.setVm { held with
      stack := fun w mem => by
        obtain mem | mem := List.mem_append.mp mem
        · obtain ⟨k, -, rfl⟩ := List.mem_map.mp mem
          exact getD_fits held.errorVals good.plain k
        · exact held.stack w mem
      errorVals := nofun }
  | throw n =>
    obtain ⟨vm₁, raised, e⟩ := Option.bind_eq_some_iff.mp step
    cases e
    have thrown : Vm.Held S.heap P { vm with
        hasError := true
        errorVals := (vm.stack.take (max n 1)).reverse
        stack := vm.stack.drop (max n 1) } :=
      { held with
        errorVals := fun w mem => held.stack w (List.mem_of_mem_take (List.mem_reverse.mp mem))
        stack := fun w mem => held.stack w (List.mem_of_mem_drop mem) }
    exact good.setVm (thrown.raise good.plain raised)
  | reraise =>
    rw [Session.exec] at step
    cases failed : vm.hasError
    · rw [failed] at step
      cases step
    · rw [failed] at step
      obtain ⟨vm₁, raised, rfl⟩ := Option.map_eq_some_iff.mp step
      exact good.setVm (held.raise good.plain raised)
  | error =>
    obtain ⟨vm₁, raised, e⟩ := Option.bind_eq_some_iff.mp step
    cases e
    exact good.setVm ((held.fail good.plain).raise good.plain raised)
  | thread =>
    obtain ⟨⟨v, vm₁⟩, popped, e⟩ := Option.bind_eq_some_iff.mp step
    obtain ⟨c, -, e⟩ := Option.bind_eq_some_iff.mp e
    cases e
    obtain ⟨here, held⟩ := held.pop popped
    have started := (good.setVm (i := i) (held.push fresh)).alloc (fits_newThread good.plain)
    exact started.addVm (held_born good.plain fresh here)
  | await =>
    obtain ⟨⟨v, vm₁⟩, popped, e₁⟩ := Option.bind_eq_some_iff.mp step
    obtain ⟨⟨h, t⟩, found, e₂⟩ := Option.bind_eq_some_iff.mp e₁
    obtain ⟨here, held⟩ := held.pop popped
    obtain ⟨rfl, there⟩ := threadOf_eq_some.mp found
    have kept := good.results h t here there
    cases state : t.state with
    | running =>
      simp only [state] at e₂
      cases e₂
    | done =>
      simp only [state] at e₂
      cases e₂
      refine good.setVm (held.pushAll fun w mem => ?_)
      by_cases none : t.results = []
      · rw [if_pos none] at mem
        rw [List.mem_singleton.mp mem]
        exact good.plain
      · rw [if_neg none] at mem
        exact kept w (.tail _ mem)
    | error =>
      simp only [state] at e₂
      obtain ⟨vm₂, raised, e₃⟩ := Option.bind_eq_some_iff.mp e₂
      cases e₃
      exact good.setVm ((held.fail (kept _ (.head _))).raise good.plain raised)
  | current =>
    cases step
    exact good.setVm (held.push held.thread)
  | whenDone =>
    obtain ⟨⟨fn, vm₁⟩, popped, e₁⟩ := Option.bind_eq_some_iff.mp step
    obtain ⟨⟨v, vm₂⟩, popped', e₂⟩ := Option.bind_eq_some_iff.mp e₁
    obtain ⟨⟨h, t⟩, found, e₃⟩ := Option.bind_eq_some_iff.mp e₂
    obtain ⟨callback, held⟩ := held.pop popped
    obtain ⟨here, held⟩ := held.pop popped'
    obtain ⟨rfl, there⟩ := threadOf_eq_some.mp found
    have kept := good.results h t here there
    cases state : t.state with
    | running =>
      simp only [state] at e₃
      cases e₃
      exact (good.setVm (held.push good.plain)).setThread there kept (.inr callback) (.inl rfl)
    | done =>
      simp only [state] at e₃
      exact good.callValue held rfl (fun w mem => kept w (.tail _ mem)) e₃
    | error =>
      simp only [state] at e₃
      cases e₃
      exact good.setVm (held.push good.plain)
  | whenFailed =>
    obtain ⟨⟨fn, vm₁⟩, popped, e₁⟩ := Option.bind_eq_some_iff.mp step
    obtain ⟨⟨v, vm₂⟩, popped', e₂⟩ := Option.bind_eq_some_iff.mp e₁
    obtain ⟨⟨h, t⟩, found, e₃⟩ := Option.bind_eq_some_iff.mp e₂
    obtain ⟨callback, held⟩ := held.pop popped
    obtain ⟨here, held⟩ := held.pop popped'
    obtain ⟨rfl, there⟩ := threadOf_eq_some.mp found
    have kept := good.results h t here there
    cases state : t.state with
    | running =>
      simp only [state] at e₃
      cases e₃
      exact (good.setVm (held.push good.plain)).setThread there kept (.inl rfl) (.inr callback)
    | done =>
      simp only [state] at e₃
      cases e₃
      exact good.setVm (held.push good.plain)
    | error =>
      simp only [state] at e₃
      exact good.callValue held rfl (List.forall_mem_singleton.mpr (kept _ (.head _))) e₃
  | callValue argc =>
    obtain ⟨fn, -, called⟩ := Option.bind_eq_some_iff.mp step
    have args (w : Val) (mem : w ∈ (vm.stack.take argc).reverse) : P w :=
      held.stack w (List.mem_of_mem_take (List.mem_reverse.mp mem))
    exact good.callValue held rfl args called
  | eval localCount sandbox =>
    cases sandbox
    · exact good.enterCode held step held.evalResults
    · have held' : Vm.Held S.heap P { vm with globals := S.envs.length } := { held with }
      exact (good.addEnv fun _ => good.plain).enterCode held' step held.evalResults
  | includeFile path localCount =>
    rw [Session.exec] at step
    cases cached : vm.moduleCache.find? fun e => e.path = path with
    | some m =>
      rw [cached] at step
      cases step
      exact good.setVm (held.pushAll (held.modules m (List.mem_of_find?_eq_some cached)))
    | none =>
      rw [cached] at step
      exact good.enterCode held step held.evalResults

/-- The end of what encloses a `vm_run`. -/
lemma finishCall {c : Call} (held : vm.Held S.heap P) (top : vm.calls.head? = some c)
    (finish : S.finishCall i vm c = some S') : S'.Good P := by
  have saved := held.saved c (List.mem_of_mem_head? top)
  have behind : Vm.Held S.heap P { vm with calls := vm.calls.tail } :=
    { held with saved := fun d mem => held.saved d (List.mem_of_mem_tail mem) }
  obtain ⟨purpose, phase, failed, frame, ip⟩ := c
  cases purpose with
  | exec chunk closure =>
    cases phase with
    | chunkFreed =>
      cases finish
      exact good.setVm behind
    | _ => cases finish
  | eval chunk closure savedStop savedResults savedGlobals =>
    have restored (g : Nat) : Vm.Held S.heap P { vm with
        calls := vm.calls.tail
        globals := g
        evalStopFrame := savedStop
        evalResults := savedResults } := { behind with evalResults := saved }
    have values (w : Val) (mem : w ∈ if failed then [] else if vm.evalResults = [] then [.plain] else vm.evalResults) :
        P w := by
      by_cases fails : failed
      · rw [if_pos fails] at mem
        cases mem
      · rw [if_neg fails] at mem
        by_cases none : vm.evalResults = []
        · rw [if_pos none] at mem
          rw [List.mem_singleton.mp mem]
          exact good.plain
        · rw [if_neg none] at mem
          exact held.evalResults w mem
    cases phase with
    | chunkFreed =>
      cases savedGlobals with
      | none =>
        obtain ⟨vm₁, checked, e⟩ := Option.bind_eq_some_iff.mp finish
        cases e
        exact good.setVm (((restored vm.globals).pushAll values).checked good.plain checked)
      | some g =>
        obtain ⟨vm₁, checked, e⟩ := Option.bind_eq_some_iff.mp finish
        cases e
        exact (good.setEnv (g := none) nofun).setVm (((restored g).pushAll values).checked good.plain checked)
    | _ => cases finish
  | module path chunk closure savedStop savedResults =>
    cases phase with
    | returned =>
      cases failed with
      | true => cases finish
      | false =>
        obtain ⟨vm₁, checked, e⟩ := Option.bind_eq_some_iff.mp finish
        cases e
        have cached : Vm.Held S.heap P { vm with
            calls := vm.calls.tail
            evalStopFrame := savedStop
            evalResults := savedResults
            moduleCache := vm.moduleCache ++ [⟨path, vm.evalResults, closure, chunk⟩] } :=
          { behind with
            evalResults := saved
            modules := fun m mem => by
              obtain mem | mem := List.mem_append.mp mem
              · exact held.modules m mem
              · rw [List.mem_singleton.mp mem]
                exact held.evalResults }
        exact good.setVm ((cached.pushAll held.evalResults).checked good.plain checked)
    | chunkFreed =>
      obtain ⟨vm₁, checked, e⟩ := Option.bind_eq_some_iff.mp finish
      cases e
      have restored : Vm.Held S.heap P { vm with
          calls := vm.calls.tail
          evalStopFrame := savedStop
          evalResults := savedResults } := { behind with evalResults := saved }
      exact good.setVm (restored.checked good.plain checked)
    | _ => cases finish
  | value savedStop =>
    cases phase with
    | returned =>
      obtain ⟨vm₁, checked, e⟩ := Option.bind_eq_some_iff.mp finish
      cases e
      have restored : Vm.Held S.heap P { vm with calls := vm.calls.tail, threadStopFrame := savedStop } :=
        { behind with }
      exact good.setVm ((restored.pushAll held.threadResults).checked good.plain checked)
    | _ => cases finish
  | thread =>
    cases phase with
    | returned =>
      obtain ⟨⟨h, t⟩, found, e₁⟩ := Option.bind_eq_some_iff.mp finish
      obtain ⟨here, there⟩ := threadOf_eq_some.mp found
      have kept := good.results h t (here ▸ held.thread) there
      by_cases started : vm.stage = .started
      · simp only [if_pos started] at e₁
        cases e₁
        have ended : Vm.Held S.heap P { vm with
            calls := vm.calls.tail
            threadStopFrame := none
            stage := .finished } := by
          have restaged := behind.restage .finished (fun mem => absurd mem (by decide)) fun _ => by
            rw [started]
            decide
          exact { restaged with }
        refine (good.setVm ended).setThread there ?_ (.inl ?_) (.inl ?_)
        all_goals by_cases fails : failed ∨ vm.hasError
        · rw [if_pos fails]
          refine List.forall_mem_cons.mpr ⟨headD_fits held.errorVals good.plain, fun w mem => kept w (.tail _ mem)⟩
        · rw [if_neg fails]
          refine List.forall_mem_cons.mpr ⟨kept _ (.head _), fun w mem => ?_⟩
          exact held.threadResults w (List.mem_of_mem_take mem)
        · rw [if_pos fails]
        · rw [if_neg fails]
        · rw [if_pos fails]
        · rw [if_neg fails]
      · simp only [if_neg started] at e₁
        cases e₁
    | _ => cases finish
  | callback =>
    cases phase with
    | returned =>
      cases finish
      have ended := behind.restage .called (fun mem => absurd mem (by decide)) fun mem =>
        absurd mem (by decide)
      exact good.setVm { ended with }
    | _ => cases finish

/-- A step that frees nothing. -/
lemma step (fresh : P (.object S.heap.length)) (keeps : a.freeing = false) (step : S.step a = some S') : S'.Good P := by
  cases a with
  | instr i x =>
    obtain ⟨⟨vm, f⟩, fetched, step⟩ := Option.bind_eq_some_iff.mp step
    exact good.exec fresh (good.fetch fetched) step
  | dostring localCount =>
    obtain ⟨vm, idle, step⟩ := Option.bind_eq_some_iff.mp step
    have held := (good.idle idle).push good.plain
    by_cases room : vm.frameCount < framesMax
    · simp only [if_pos room] at step
      obtain ⟨vm₁, ran, e⟩ := Option.bind_eq_some_iff.mp step
      cases e
      exact (good.load _).setVm ((held.enter good.plain _ _ _ _ _).run (fun _ mem => by cases mem) ran)
    · simp only [if_neg room] at step
      cases step
      exact good.setVm (held.fail good.plain)
  | refused =>
    obtain ⟨vm, idle, e⟩ := Option.bind_eq_some_iff.mp step
    cases e
    exact good.setVm { good.idle idle with }
  | wait =>
    obtain ⟨⟨vm, c⟩, called, step⟩ := Option.bind_eq_some_iff.mp step
    have held := (good.callOf called).1
    obtain ⟨purpose, phase, failed, frame, ip⟩ := c
    cases purpose with
    | exec chunk closure =>
      cases phase with
      | returned =>
        cases alone : S.alone with
        | false =>
          simp only [alone] at step
          cases step
        | true =>
          simp only [alone] at step
          cases step
          exact good.setVm ((held.forget good.plain).modifyCall fun _ => rfl)
      | _ => cases step
    | _ => cases step
  | finish i =>
    obtain ⟨⟨vm, c⟩, called, step⟩ := Option.bind_eq_some_iff.mp step
    obtain ⟨held, top⟩ := good.callOf called
    exact good.finishCall held top step
  | begin i =>
    obtain ⟨vm, found, step⟩ := Option.bind_eq_some_iff.mp step
    obtain ⟨parent, there, step⟩ := Option.bind_eq_some_iff.mp step
    obtain ⟨held, born⟩ := good.vmAt found
    have above := good.vms _ _ there
    cases alive : parent.alive with
    | false =>
      simp only [alive] at step
      cases step
    | true =>
      simp only [alive] at step
      cases step
      have begun := held.restage .begun (fun _ => by rw [born]; decide) fun _ => by rw [born]; decide
      exact good.setVm { begun with stringProto := above.stringProto, arrayProto := above.arrayProto }
  | start i =>
    obtain ⟨vm, found, step⟩ := Option.bind_eq_some_iff.mp step
    obtain ⟨held, begun⟩ := good.vmAt found
    have started := held.restage .started (fun _ => by rw [begun]; decide) fun _ => by rw [begun]; decide
    exact good.callValue started rfl (fun _ mem => by cases mem) step
  | fire i =>
    obtain ⟨vm, found, step⟩ := Option.bind_eq_some_iff.mp step
    obtain ⟨⟨h, t⟩, thread, step⟩ := Option.bind_eq_some_iff.mp step
    obtain ⟨held, finished⟩ := good.vmAt found
    obtain ⟨here, there⟩ := threadOf_eq_some.mp thread
    have kept := good.results h t (here ▸ held.thread) there
    by_cases busy : vm.calls ≠ []
    · simp only [if_pos busy] at step
      cases step
    simp only [if_neg busy] at step
    by_cases callable : (S.closureOf t.pending.1).isSome
    · simp only [if_pos callable] at step
      have reset : Vm.Held S.heap P { vm with stack := [], frameCount := 0, hasError := false, errorVals := [] } :=
        { held with stack := nofun, errorVals := nofun }
      exact good.callValue reset rfl (pending_fits kept) step
    · simp only [if_neg callable] at step
      cases step
      exact good.setVm (held.restage _ (fun mem => absurd mem (by decide)) fun mem => absurd mem (by decide))
  | destroy i =>
    obtain ⟨vm, found, e⟩ := Option.bind_eq_some_iff.mp step
    cases e
    exact good.setVm (held_destroy good.plain)
  | deregister i =>
    obtain ⟨vm, found, step⟩ := Option.bind_eq_some_iff.mp step
    obtain ⟨parent, there, step⟩ := Option.bind_eq_some_iff.mp step
    cases alive : parent.alive with
    | false =>
      simp only [alive] at step
      cases step
    | true =>
      simp only [alive] at step
      cases step
      have held := (good.vmAt found).1
      exact good.setVm (held.restage _ (fun mem => absurd mem (by decide)) fun mem => absurd mem (by decide))
  | close =>
    obtain ⟨vm, idle, step⟩ := Option.bind_eq_some_iff.mp step
    cases alone : S.alone with
    | false =>
      simp only [alone] at step
      cases step
    | true =>
      simp only [alone] at step
      cases step
      exact (good.setEnv (g := none) nofun).setVm (held_destroy good.plain)
  | freeClosure i => cases keeps
  | freeChunk i => cases keeps
  | freeModules i => cases keeps

end Good

/-! ### Freeing -/

/-- A VM that holds the same values as before. -/
lemma holds_setVm (found : S.vms[i]? = some vm) (same : vm'.Held S.heap P ↔ vm.Held S.heap P) :
    (S.setVm i vm').Holds P ↔ S.Holds P := by
  constructor
  · intro holds
    have back : (S.setVm i vm').setVm i vm = S := by
      obtain ⟨inside, e⟩ := List.getElem?_eq_some_iff.mp found
      have vms : (S.vms.set i vm').set i vm = S.vms := by
        rw [List.set_set, ← e, List.set_getElem_self]
      rw [Session.setVm, Session.setVm, vms]
    have there : (S.setVm i vm').vms[i]? = some vm' := by
      rw [Session.setVm, List.getElem?_set_self', found]
      rfl
    exact back ▸ holds.setVm (same.mp (holds.vms i vm' there))
  · intro holds
    exact holds.setVm (same.mpr (holds.vms i vm found))

/-- Function values still have closures that can be called exactly when nothing was freed that one refers to. -/
lemma safe_free_iff {cs ks : List Nat} (found : S.vms[i]? = some vm)
    (same : ∀ P, vm'.Held S.heap P ↔ vm.Held S.heap P) (safe : S.Safe) :
    ((S.free cs ks).setVm i vm').Safe ↔
      ∀ v c, S.Reach v → S.closureOf v = some c → c ∉ cs ∧ ∀ x, S.code c = some x → x.1 ∉ ks := by
  have reach (v : Val) : ((S.free cs ks).setVm i vm').Reach v ↔ S.Reach v := by
    have holds (P : Val → Prop) : ((S.free cs ks).setVm i vm').Holds P ↔ S.Holds P :=
      (⟨fun holds => { holds with }, fun holds => { holds with }⟩ :
        ((S.free cs ks).setVm i vm').Holds P ↔ (S.setVm i vm').Holds P).trans (holds_setVm found (same P))
    exact ⟨fun reach P h => reach P ((holds P).mpr h), fun reach P h => reach P ((holds P).mp h)⟩
  constructor
  · intro safe' v c here fn
    obtain ⟨x, code⟩ := Option.isSome_iff_exists.mp (safe' v c ((reach v).mpr here) fn)
    obtain ⟨code, kept, kept'⟩ := code_free.mp code
    refine ⟨kept, fun y code' => ?_⟩
    rw [code] at code'
    cases code'
    exact kept'
  · intro harmless v c here fn
    have here := (reach v).mp here
    obtain ⟨x, code⟩ := Option.isSome_iff_exists.mp (safe v c here fn)
    obtain ⟨kept, kept'⟩ := harmless v c here fn
    exact Option.isSome_iff_exists.mpr ⟨x, code_free.mpr ⟨code, kept, kept' x code⟩⟩

lemma freeing_safe_iff (frees : a.freeing) (safe : S.Safe) (step : S.step a = some S') : S'.Safe ↔ S.Harmless a := by
  cases a with
  | freeClosure i =>
    obtain ⟨⟨vm, c⟩, called, step⟩ := Option.bind_eq_some_iff.mp step
    obtain ⟨closure, -, e⟩ := Option.bind_eq_some_iff.mp step
    cases e
    exact safe_free_iff (callOf_eq_some.mp called).1 (fun P => held_modifyCall fun _ => rfl) safe
  | freeChunk i =>
    obtain ⟨⟨vm, c⟩, called, step⟩ := Option.bind_eq_some_iff.mp step
    obtain ⟨chunk, -, e⟩ := Option.bind_eq_some_iff.mp step
    cases e
    exact safe_free_iff (callOf_eq_some.mp called).1 (fun P => held_modifyCall fun _ => rfl) safe
  | freeModules i =>
    obtain ⟨vm, found, e⟩ := Option.bind_eq_some_iff.mp step
    cases e
    obtain ⟨there, destroyed⟩ := vmAt_eq_some.mp found
    refine safe_free_iff there (fun P => ⟨fun held => ?_, fun held => ?_⟩) safe
    · have back : vm = { { vm with stage := .freed } with stage := .destroyed } := by
        rw [← destroyed]
      rw [back]
      exact held.restage _ (fun mem => absurd mem (by decide)) fun mem => absurd mem (by decide)
    · exact held.restage _ (fun mem => absurd mem (by decide)) fun mem => absurd mem (by decide)
  | _ => cases frees

/-- A step keeps all closures that can be called exactly when what it frees is harmless. -/
lemma step_safe_iff (safe : S.Safe) (step : S.step a = some S') : S'.Safe ↔ S.Harmless a := by
  cases frees : a.freeing with
  | true => exact freeing_safe_iff frees safe step
  | false =>
    have kept := (good_reach safe).extend.step (.inr rfl) frees step
    have none : S.frees a = ([], []) := by
      cases a
      all_goals first | rfl | cases frees
    refine iff_of_true kept.safe fun v c _ _ => ?_
    rw [none]
    exact ⟨List.not_mem_nil, fun _ _ => List.not_mem_nil⟩

/-! ### Runs -/

/-- Nothing has been loaded, so there are no functions. -/
lemma opened_safe : opened.Safe := by
  intro v c _ fn
  obtain ⟨h, pc, -, found⟩ := closureOf_eq_some.mp fn
  have function := List.mem_of_getElem? found
  rcases function with _ | ⟨_, _ | ⟨_, mem⟩⟩
  cases mem

end Session

open Session Interleaving

/-- In a run from the start every function value that can be got at has, in every state, a closure that can be called,
exactly when no step of the run frees the closure or the chunk of one that can be got at. -/
theorem Session.closures_live_iff {as : List Act} {S : Session} :
    (process.Run All opened as S ∧ ∀ bs S', bs <+: as → process.Run All opened bs S' → S'.Safe) ↔
      process.Run Harmless opened as S :=
  Run.kept_iff opened_safe fun _ _ _ => step_safe_iff

/-- A script that defines a function as a global, from the call of `cando_dostring` to its return. -/
def Session.defining : List Act :=
  [.dostring 1, .instr 0 (.closure 8), .instr 0 (.storeGlobal (bytes "f")), .instr 0 .halt, .wait, .freeClosure 0,
    .freeChunk 0, .finish 0]

/-- When the script has ended, the function is still there, and its closure and chunk have been freed. -/
theorem Session.global_dangles :
    ∃ S g, process.Run All opened defining S ∧ S.idle.isSome ∧ S.env 0 = some g ∧ S.Reach (g (bytes "f")) ∧
      S.closureOf (g (bytes "f")) = some 0 ∧ S.code 0 = none ∧ ¬S.Safe := by
  obtain ⟨S, run, idle, g, env, fn, dead⟩ : ∃ S, process.after opened defining = some S ∧ S.idle.isSome ∧
      ∃ g, S.env 0 = some g ∧ S.closureOf (g (bytes "f")) = some 0 ∧ S.code 0 = none :=
    ⟨_, rfl, rfl, _, rfl, rfl, rfl⟩
  have reach : S.Reach (g (bytes "f")) := fun P holds => holds.globals 0 g _ env
  refine ⟨S, g, Run.of_after run, idle, env, reach, fn, dead, fun safe => ?_⟩
  have live := safe _ 0 reach fn
  rw [Live, dead] at live
  cases live

end Cando
