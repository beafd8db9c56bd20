import Cando.Vm.RetCount

/-!
# The counter and the values

A tally beside the states of an activation says how many values the last expression has left, and whether the opcode
that left them sets `last_ret_count`. In runs whose turns keep to a guard the two agree.
-/

namespace Cando

open Program Machine

variable {ν : Type}

/-! ### The tally -/

/-- How many values the last expression has left on top of the stack, and whether the opcode that left them set
`last_ret_count`. -/
structure Tally where
  count : Nat
  counted : Bool
  deriving DecidableEq, Repr

/-- The instruction that comes next. -/
def VM.next (vm : VM ν) : Option Instr := (fetch vm).ended.map (·.1)

/-- The tally behind a call with `n` operands: none in the function that it has entered. -/
def calledTally (n : Nat) (s s' : VM ν) : Option Tally :=
  if s'.frames.length = s.frames.length then some ⟨s'.height - (s.height - n), true⟩ else none

/-- The tally behind an instruction. Jumps, assignments and the opcodes that add the counter up leave the values where
they are; what is not named here counts nothing. -/
def Instr.tally (i : Instr) (s : VM ν) (g : Option Tally) (s' : VM ν) : Option Tally :=
  match i.op with
  | .call => calledTally (CallSite.argCount i.a s + 1) s s'
  | .methodCall | .fluentCall => calledTally (i.b + 1) s s'
  | .return => s.frames.head?.map fun f => ⟨s'.height - (s.setTop f.slots).height, true⟩
  | .await | .unpack => some ⟨s'.height - (s.height - 1), true⟩
  | .maskApply | .truncateRet => g.map fun t => ⟨s'.height - (s.height - t.count), true⟩
  | .andJump | .orJump | .jumpIfFalse | .jumpIfTrue | .jump | .storeLocal | .storeGlobal | .spreadRet | .arraySpread
  | .nop => g
  | _ => some ⟨1, false⟩

/-- The tally behind a turn. -/
def mark (s : VM ν) (g : Option Tally) (s' : VM ν) : Option Tally := s.next.bind fun i => i.tally s g s'

/-- The opcodes that take the values of the last call or list by their count. -/
def Opcode.TakesCount (op : Opcode) : Prop :=
  op ∈ [.spreadRet, .arraySpread, .maskApply, .truncateRet, .eqSpread, .neqSpread, .ltSpread, .gtSpread, .leqSpread,
    .geqSpread]

/-- The next instruction takes the values of the last expression by their count. -/
def VM.Consumes (vm : VM ν) : Prop := ∃ i, vm.next = some i ∧ i.op.TakesCount

variable [F64 ν]

/-- `last_ret_count` is the number of values left, behind the opcodes that set it and where it is used, in all the lives
of the activations whose turns satisfy the guard. -/
def CountsAgree (E : Env ν) (G : VM ν → Option Tally → VM ν → Prop) (vm₀ : VM ν) : Prop :=
  ∀ e s t, (interp E).Lives mark none G vm₀ e s (some t) → t.counted ∨ s.Consumes → s.lastRetCount = t.count

/-- The next instruction calls a native, whose operands begin at the cell `base`, and it has come back in state `t`
saying that it has pushed `ret` values. The flag tells `OP_METHOD_CALL` from the other two. -/
inductive NativeBack (E : Env ν) (s : VM ν) : (method : Bool) → (base ret : Nat) → (t : VM ν) → Prop where
  | call {i : Instr} {s₁ s₂ t : VM ν} {callee : Value ν} {argc ni ret : Nat} :
    fetch s = .ok i s₁ → i.op = .call → callReady i.a s₁ = .ok (callee, argc) s₂ →
    callee.isNativeFn → callee.nativeIndex = some ni →
    (callNativeTop E ni argc s₂).Becomes (interp E).Returns (.ok ret t) →
    NativeBack E s false (s₂.height - argc - 1) ret t
  | method {i : Instr} {isFluent : Bool} {s₁ s₂ t : VM ν} {method receiver : Value ν} {ni ret : Nat} :
    fetch s = .ok i s₁ → i.op = (if isFluent then .fluentCall else .methodCall) →
    methodReady isFluent i.a i.b s₁ = .ok (method, receiver) s₂ →
    method.isNativeFn → method.nativeIndex = some ni →
    (callNativeTop E ni (i.b + 1) s₂).Becomes (interp E).Returns (.ok ret t) →
    NativeBack E s (!isFluent) (s₂.height - (i.b + 1) - 1) ret t

lemma NativeBack.calls {E : Env ν} {s : VM ν} {method : Bool} {base ret : Nat} {t : VM ν}
    (h : NativeBack E s method base ret t) :
    ∃ i, s.next = some i ∧ (i.op = .call ∨ i.op = .methodCall ∨ i.op = .fluentCall) := by
  cases h with
  | call fetched op =>
    refine ⟨_, ?_, .inl op⟩
    rw [VM.next, fetched]
    rfl
  | @method i isFluent _ _ _ _ _ _ _ fetched op =>
    refine ⟨i, ?_, .inr ?_⟩
    · rw [VM.next, fetched]
      rfl
    · cases isFluent with
      | false => exact .inl op
      | true => exact .inr op

/-- The turns in which the counter keeps up with the values: the values of a native lie above its operands, and
`OP_METHOD_CALL` gets one at least from it; `OP_TRUNCATE_RET` finds a value; and what the next instruction takes by its
count has been counted. -/
structure Regular (E : Env ν) (s : VM ν) (g : Option Tally) (s' : VM ν) : Prop where
  native : ∀ method base ret t, NativeBack E s method base ret t → base + ret ≤ t.height ∧ (method → 0 < ret)
  truncated : ∀ i t, s.next = some i → i.op = .truncateRet → g = some t → 0 < t.count
  taken : ∀ t, s'.Consumes → mark s g s' = some t → t.counted

variable {E : Env ν} {N : VM ν → VMResult → VM ν → Prop} {s s' : VM ν}

/-! ### Turns -/

/-- The counter agrees with the tally, and what the next instruction takes by its count has been counted. -/
def Agrees (s : VM ν) (g : Option Tally) : Prop :=
  ∀ t, g = some t → (t.counted → s.lastRetCount = t.count ∧ t.count ≤ s.height) ∧ (s.Consumes → t.counted)

omit [F64 ν] in
lemma VM.Counts.tally {base : Nat} {t : Tally} (h : s.Counts base) (e : t = ⟨s.height - base, true⟩) :
    s.lastRetCount = t.count ∧ t.count ≤ s.height := by
  subst e
  exact ⟨h.2, Nat.sub_le _ _⟩

omit [F64 ν] in
lemma Still.tally {m : M ν Unit} {t : Tally} (still : Still m) (h : (m s).Becomes N (.ok () s'))
    (was : s.lastRetCount = t.count ∧ t.count ≤ s.height) : s'.lastRetCount = t.count ∧ t.count ≤ s'.height := by
  have kept := still s
  rw [still.ok_of_becomes h] at kept
  obtain ⟨count, height⟩ := kept
  exact ⟨count.trans was.1, height ▸ was.2⟩

/-- A counted tally agrees with the counter behind the instruction that it is about. -/
lemma exec_tally {i : Instr} {s₁ : VM ν} {g : Option Tally} {t : Tally} (fetched : fetch s = .ok i s₁)
    (h : (exec E i s₁).Becomes (interp E).Returns (.ok () s')) (regular : Regular E s g s') (agrees : Agrees s g)
    (marked : i.tally s g s' = some t) (counted : t.counted) : s'.lastRetCount = t.count ∧ t.count ≤ s'.height := by
  have upcoming : s.next = some i := by
    rw [VM.next, fetched]
    rfl
  obtain ⟨f, ip, fs, frames, moved⟩ := fetch_moves fetched
  have height : s₁.height = s.height := by
    rw [moved]
    rfl
  have depth : s₁.frames.length = s.frames.length := by
    rw [moved, frames]
    rfl
  have count : s₁.lastRetCount = s.lastRetCount := by rw [moved]
  have args : CallSite.argCount i.a s₁ = CallSite.argCount i.a s := by
    rw [moved, CallSite.argCount, CallSite.argCount]
  have keeps {m : M ν Unit} (still : Still m) (body : exec E i = m) (same : g = some t) :
      s'.lastRetCount = t.count ∧ t.count ≤ s'.height := by
    rw [body] at h
    refine still.tally h ?_
    rw [count, height]
    exact (agrees t same).1 counted
  have method (isFluent : Bool) (op : i.op = (if isFluent then .fluentCall else .methodCall))
      (body : exec E i = opMethodCall E isFluent i.a i.b) (e : calledTally (i.b + 1) s s' = some t) :
      s'.lastRetCount = t.count ∧ t.count ≤ s'.height := by
    rw [calledTally] at e
    split at e
    · rename_i flat
      cases e
      rw [body, opMethodCall_eq] at h
      obtain ⟨⟨m, receiver⟩, s₂, ready, -, rest⟩ := steady_methodReady.becomes_bind h
      obtain ⟨there, height₂, depth₂⟩ := methodReady_height ready
      have base : s₂.height - (i.b + 1) - 1 = s.height - (i.b + 1) := by omega
      obtain counts | ⟨ni, ret, t, isNative, index, back, counts⟩ :=
        callMethod_counts rest (flat.trans (depth₂.trans depth).symm)
      · rw [base] at counts
        exact counts.tally rfl
      · obtain ⟨room, some⟩ := regular.native _ _ _ _ (.method fetched op ready isNative index back)
        have counts := counts room some
        rw [base] at counts
        exact counts.tally rfl
    · cases e
  unfold Instr.tally at marked
  split at marked
  case h_1 op =>
    rw [calledTally] at marked
    split at marked
    · rename_i flat
      cases marked
      have body : exec E i = opCall E i.a := by rw [exec, op]
      rw [body] at h
      obtain ⟨callee, s₂, ni, ret, t, ready, isNative, index, back, height₂, counts⟩ :=
        opCall_counts h (flat.trans depth.symm)
      obtain ⟨room, -⟩ := regular.native _ _ _ _ (.call fetched op ready isNative index back)
      rw [height₂, height, args] at room
      rw [height, args] at counts
      exact (counts room).tally (by rw [Nat.sub_sub])
    · cases marked
  case h_2 op => exact method false op (by rw [exec, op]) marked
  case h_3 op => exact method true op (by rw [exec, op]) marked
  case h_4 op =>
    rw [frames] at marked
    cases marked
    have body : exec E i = opReturn i.a := by rw [exec, op]
    rw [body] at h
    obtain ⟨f', fs', top, counts⟩ := opReturn_counts h
    have slots : (s₁.setTop f'.slots).height = (s.setTop f.slots).height := by
      rw [moved] at top
      cases top
      rw [moved]
      exact VM.height_setTop f.slots rfl rfl
    rw [slots] at counts
    exact counts.tally rfl
  case h_5 op =>
    cases marked
    have body : exec E i = opAwait E := by rw [exec, op]
    rw [body] at h
    have counts := opAwait_counts ((steady_opAwait E).ok_of_becomes h)
    rw [height] at counts
    exact counts.tally rfl
  case h_6 op =>
    cases marked
    have body : exec E i = opUnpack := by rw [exec, op]
    rw [body] at h
    have counts := opUnpack_counts (steady_opUnpack.ok_of_becomes h)
    rw [height] at counts
    exact counts.tally rfl
  case h_7 op =>
    obtain ⟨t₀, was, rfl⟩ := Option.map_eq_some_iff.mp marked
    have body : exec E i = opMaskApply i.a i.b := by rw [exec, op]
    rw [body] at h
    have takes : s.Consumes := ⟨i, upcoming, by rw [op, Opcode.TakesCount]; decide⟩
    have due := ((agrees t₀ was).1 ((agrees t₀ was).2 takes)).1
    have counts := opMaskApply_counts (count.trans due) ((steady_opMaskApply _ _).ok_of_becomes h)
    rw [height] at counts
    exact counts.tally rfl
  case h_8 op =>
    obtain ⟨t₀, was, rfl⟩ := Option.map_eq_some_iff.mp marked
    have body : exec E i = opTruncateRet := by rw [exec, op]
    rw [body] at h
    have takes : s.Consumes := ⟨i, upcoming, by rw [op, Opcode.TakesCount]; decide⟩
    obtain ⟨due, there⟩ := (agrees t₀ was).1 ((agrees t₀ was).2 takes)
    have pos := regular.truncated i t₀ upcoming op was
    have counts := opTruncateRet_counts (count.trans due) (height ▸ there) pos (steady_opTruncateRet.ok_of_becomes h)
    rw [height] at counts
    exact counts.tally rfl
  case h_9 op => exact keeps (still_opJumpIf false i.a) (by rw [exec, op]) marked
  case h_10 op => exact keeps (still_opJumpIf true i.a) (by rw [exec, op]) marked
  case h_11 op => exact keeps (still_opJumpIf false i.a) (by rw [exec, op]) marked
  case h_12 op => exact keeps (still_opJumpIf true i.a) (by rw [exec, op]) marked
  case h_13 op => exact keeps (still_jumpBy (toI16 i.a)) (by rw [exec, op, opJump]) marked
  case h_14 op => exact keeps (still_opStoreLocal i.a) (by rw [exec, op]) marked
  case h_15 op => exact keeps (still_opStoreGlobal i.a) (by rw [exec, op]) marked
  case h_16 op => exact keeps (m := opSpreadRet) (Steady.modify fun _ => ⟨rfl, rfl⟩) (by rw [exec, op]) marked
  case h_17 op => exact keeps (m := opArraySpread) (Steady.modify fun _ => ⟨rfl, rfl⟩) (by rw [exec, op]) marked
  case h_18 op => exact keeps (m := pure ()) (Steady.pure ()) (by rw [exec, op]) marked
  case h_19 =>
    cases marked
    cases counted

/-- A turn that keeps to the guard keeps the counter in agreement. -/
lemma step_agrees {g : Option Tally} (agrees : Agrees s g) (h : (step E s).Becomes (interp E).Returns (.ok () s'))
    (regular : Regular E s g s') : Agrees s' (mark s g s') := by
  have fetching : Calm (fetch : M ν Instr) :=
    steady_frame.bind fun _ => (steady_chunkOf _).bind fun _ => (Steady.orCrash _ _).bind fun _ =>
      (steady_setIp _).bind fun _ => Steady.pure _
  obtain ⟨i, s₁, fetched, -, rest⟩ := fetching.becomes_bind h
  intro t marked
  refine ⟨fun counted => ?_, fun takes => regular.taken t takes marked⟩
  have upcoming : s.next = some i := by
    rw [VM.next, fetched]
    rfl
  rw [mark, upcoming] at marked
  exact exec_tally fetched rest regular agrees marked counted

omit [F64 ν] in
/-- The unwinding of an error ends at once. -/
lemma handleError_flat (s : VM ν) :
    (∀ s', handleError s ≠ .error s') ∧ ∀ t k, handleError s ≠ .enter t k := by
  have flat (tries : List TryFrame) (vm : VM ν) :
      (∀ s', unwind tries vm ≠ .error s') ∧ ∀ t k, unwind tries vm ≠ .enter t k := by
    induction tries generalizing vm with
    | nil => exact ⟨fun _ => by rintro ⟨⟩, fun _ _ => by rintro ⟨⟩⟩
    | cons tf rest ih =>
      have setIp_flat (p : CodePtr) (vm : VM ν) :
          (∀ s', setIp p vm ≠ .error s') ∧ ∀ t k, setIp p vm ≠ .enter t k := by
        unfold setIp
        split
        · exact ⟨fun _ => by rintro ⟨⟩, fun _ _ => by rintro ⟨⟩⟩
        · exact ⟨fun _ => by rintro ⟨⟩, fun _ _ => by rintro ⟨⟩⟩
      rw [unwind]
      split
      · exact setIp_flat _ _
      · exact setIp_flat _ _
      · exact ih _
  exact flat s.tryStack s

/-- Every activation of a run lives, and as long as its turns keep to the guard, `last_ret_count` is the number of
values that the last call or list has left, behind the opcode that left them and where they are taken by it. -/
theorem regular_counts (E : Env ν) (vm₀ : VM ν) :
    (∀ e s outer, (interp E).Reaches (fun _ => True) (start vm₀) (.running e s outer) →
      ∃ g, (interp E).Lives mark none (fun _ _ _ => True) vm₀ e s g) ∧
    CountsAgree E (Regular E) vm₀ := by
  refine ⟨fun e s outer run => run.lives handleError_flat, fun e s t lives due => ?_⟩
  have agrees : Agrees s (some t) := by
    refine lives.invariant (J := Agrees) (fun _ t none => ?_) fun s g s' agrees become regular => ?_
    · cases none
    · exact step_agrees agrees become regular
  obtain ⟨kept, taken⟩ := agrees t rfl
  obtain counted | takes := due
  · exact (kept counted).1
  · exact (kept (taken takes)).1

/-! ### Computed runs -/

/-- Some turns, with the tallies behind them. -/
def turnsOn (E : Env ν) : Nat → VM ν × Option Tally → Option (VM ν × Option Tally)
  | 0, c => some c
  | n + 1, (s, g) => (step E s).ended.bind fun r => turnsOn E n (r.2, mark s g r.2)

/-- A turn that is computed is lived through. -/
lemma lives_step {G : VM ν → Option Tally → VM ν → Prop} {vm₀ e : VM ν} {g : Option Tally}
    (lives : (interp E).Lives mark none G vm₀ e s g) (h : (step E s).ended = some ((), s')) (guard : G s g s') :
    (interp E).Lives mark none G vm₀ e s' (mark s g s') := by
  refine lives.turn ?_ guard
  change (step E s).Becomes _ _
  rw [Outcome.ended_eq_some h]
  rfl

lemma lives_turnsOn {n : Nat} {vm₀ e : VM ν} {g : Option Tally} {r : VM ν × Option Tally}
    (h : turnsOn E n (s, g) = some r) (lives : (interp E).Lives mark none (fun _ _ _ => True) vm₀ e s g) :
    (interp E).Lives mark none (fun _ _ _ => True) vm₀ e r.1 r.2 := by
  induction n generalizing s g with
  | zero =>
    cases h
    exact lives
  | succ n ih =>
    obtain ⟨⟨⟨⟩, s₁⟩, ended, rest⟩ := Option.bind_eq_some_iff.mp h
    exact ih rest (lives_step lives ended trivial)

/-- `print`, as far as its values go: it hands back none. -/
def printEnv : Env Int := { natives := [fun _ => .done []] }

/-- A script on its way into a chunk with the constants `print` and `m`. -/
def scriptOf (code : List Instr) : VM Int where
  stack := [.null]
  frames := [⟨0, ⟨0, 0⟩, 0, false⟩]
  chunks := [{ code := code.flatMap Instr.encode, constants := [.string (bytes "print"), .string (bytes "m")] }]
  store := { globals := [⟨bytes "print", .number (-1), false⟩] }

/-- A native called as the method `m` of `{ m: print }` leaves a `NULL` that is not counted. -/
theorem void_method_miscounts :
    ¬ CountsAgree printEnv (fun _ _ _ => True) (scriptOf [{ op := .newObject }, { op := .loadGlobal },
      { op := .setField, a := 1 }, { op := .methodCall, a := 1 }, { op := .halt }]) := by
  intro agree
  have computed : (turnsOn printEnv 4 (scriptOf [{ op := .newObject }, { op := .loadGlobal },
      { op := .setField, a := 1 }, { op := .methodCall, a := 1 }, { op := .halt }], none)).map
        (fun r => (r.1.lastRetCount, r.2)) = some (0, some ⟨1, true⟩) := by
    decide +kernel
  obtain ⟨r, turns, e⟩ := Option.map_eq_some_iff.mp computed
  have lives := lives_turnsOn turns .start
  obtain ⟨count, tally⟩ := Prod.mk.inj e
  rw [tally] at lives
  have counts := agree _ _ _ lives (.inl rfl)
  rw [count] at counts
  cases counts

/-- `[...a]` with the array `a` of two numbers: before and behind the `OP_UNPACK`. -/
def spreadState (stack dead : List (Value Int)) (off count : Nat) : VM Int where
  stack := stack ++ [.null]
  dead := dead
  frames := [⟨0, ⟨0, off⟩, 0, false⟩]
  lastRetCount := count
  chunks := [{ code := [Instr.mk .unpack 0 0, .mk .arraySpread 0 0, .mk .newArray 1 0].flatMap Instr.encode }]
  store := { handles := [0], objs := [{ kind := .array, items := [.number 7, .number 8] }] }

/-- The elements of an array are unpacked and counted. -/
theorem regular_counts_unpack : (spreadState [.number 8, .number 7] [] 1 2).lastRetCount = 2 := by
  have upcoming : (spreadState [.object 0] [] 0 0).next = some { op := .unpack } := by decide
  have stepped : (step printEnv (spreadState [.object 0] [] 0 0)).ended =
      some ((), spreadState [.number 8, .number 7] [] 1 2) := by
    decide +kernel
  have marked : mark (spreadState [.object 0] [] 0 0) none (spreadState [.number 8, .number 7] [] 1 2) =
      some ⟨2, true⟩ := by
    decide
  have regular :
      Regular printEnv (spreadState [.object 0] [] 0 0) none (spreadState [.number 8, .number 7] [] 1 2) := by
    refine ⟨fun method base ret t back => ?_, fun _ _ _ _ none => ?_, fun t _ e => ?_⟩
    · obtain ⟨i, at_i, op⟩ := back.calls
      rw [upcoming] at at_i
      have same := Option.some.inj at_i
      subst same
      simp at op
    · cases none
    · have same := Option.some.inj (marked.symm.trans e)
      subst same
      rfl
  have starts : (interp printEnv).Lives mark none (Regular printEnv) (spreadState [.object 0] [] 0 0)
      (spreadState [.object 0] [] 0 0) (spreadState [.object 0] [] 0 0) none := .start
  have lives := lives_step starts stepped regular
  rw [marked] at lives
  exact (regular_counts printEnv (spreadState [.object 0] [] 0 0)).2 _ _ _ lives (.inl rfl)

end Cando
