import Cando.Parser.Try
import Cando.Parser.MaskSelect
import Cando.Vm.Growth

/-!
# FINALY blocks

No opcode knows of a FINALY block: `parse_try` puts its code behind the CATCH part, and control gets there by falling
out of that part or by the jump behind the TRY block. So the block runs when the TRY block or the CATCH block is left at
its end, and on no other exit.
-/

namespace Cando

open Program Machine

variable {ν : Type}

/-- A TRY statement with a FINALY block in its place: the chunk it was compiled into, the frame and the activation that
run it. The CATCH part is small enough for the operand of the jump over it. -/
structure TrySite (ν : Type) where
  stmt : TryStmt
  block : List UInt8
  finaly : stmt.finaly = some block
  nonempty : block ≠ []
  small : stmt.catchCode.length < 32768
  before : Chunk ν
  chunk : Chunk ν
  placed : (stmt.parseTry before).code <+: chunk.code
  frame : Frame
  outer : List Frame
  entry : VM ν
  waiting : List (Suspended (VM ν) VMResult Crash)

namespace TrySite

variable (T : TrySite ν)

/-- Where the parts of the statement begin and end. -/
def start : Nat := T.before.code.length
def bodyStart : Nat := T.start + 3
def bodyEnd : Nat := T.bodyStart + T.stmt.body.length
def catchStart : Nat := T.bodyEnd + 4
def finalyStart : Nat := T.catchStart + T.stmt.catchCode.length
def finalyEnd : Nat := T.finalyStart + T.block.length

/-- The frame of the statement with its `ip` at an offset. -/
def top (off : Nat) : Frame := { T.frame with ip := ⟨T.frame.ip.chunk, off⟩ }

/-- Control is at an offset of the statement's frame. -/
def At (off : Nat) (c : Config (VM ν) VMResult Crash) : Prop :=
  ∃ vm, c = .running T.entry vm T.waiting ∧ vm.frames = T.top off :: T.outer

/-- The statement's frame is in a part of the statement, or waits there for the frames above it. -/
def Holds (lo hi : Nat) (vm : VM ν) : Prop :=
  ∃ fs off, vm.frames = fs ++ T.top off :: T.outer ∧ lo ≤ off ∧ (off < hi ∨ off = hi ∧ fs ≠ [])

/-- A configuration in a part of the statement. -/
def Within (lo hi : Nat) : Config (VM ν) VMResult Crash → Prop
  | .running _ vm _ => T.Holds lo hi vm
  | .raised _ vm _ => T.Holds lo hi vm
  | _ => False

/-- The next step ends the statement's frame: a RETURN there, or an error whose handler lies below it. -/
def Abandons : Config (VM ν) VMResult Crash → Prop
  | .running _ vm _ => ∃ off i vm', vm.frames = T.top off :: T.outer ∧ fetch vm = .ok i vm' ∧ i.op = .return
  | .raised _ vm _ => ∀ tf ∈ vm.tryStack.head?, tf.frameSave ≤ T.outer.length
  | _ => False

/-- In a part of the statement, and not about to end its frame. -/
def Stays (lo hi : Nat) (c : Config (VM ν) VMResult Crash) : Prop := T.Within lo hi c ∧ ¬ T.Abandons c

end TrySite

/-- How the TRY and CATCH blocks are left: the TRY block at its end, the CATCH block at its end, or by a step out of the
statement. -/
inductive Exit where
  | completed | caught | left
  deriving DecidableEq, Repr

section Exits

variable [F64 ν]

/-- The step takes control out of the statement: by a RETURN, a BREAK or a CONTINUE, or by an error that its CATCH does
not take. -/
def TrySite.Departs (E : Env ν) (T : TrySite ν) (c : Config (VM ν) VMResult Crash) : Prop :=
  T.Abandons c ∨ ¬ T.Within T.start T.finalyEnd ((interp E).step c)

/-- The ways from the configuration behind `OP_TRY_BEGIN` to an exit from the TRY and CATCH blocks, with the
configuration on the exit. -/
inductive TrySite.Exits (E : Env ν) (T : TrySite ν) (c₁ : Config (VM ν) VMResult Crash) :
    Exit → Config (VM ν) VMResult Crash → Prop where
  | completed {c} (body : (interp E).Reaches (T.Stays T.bodyStart T.bodyEnd) c₁ c) (ended : T.At T.bodyEnd c) :
      Exits E T c₁ .completed c
  | caught {c c'} (body : (interp E).Reaches (T.Stays T.bodyStart T.bodyEnd) c₁ c)
      (inside : T.Stays T.bodyStart T.bodyEnd c) (error : T.At T.catchStart ((interp E).step c))
      (handler : (interp E).Reaches (T.Stays T.catchStart T.finalyStart) ((interp E).step c) c')
      (ended : T.At T.finalyStart c') : Exits E T c₁ .caught c'
  | leftBody {c} (body : (interp E).Reaches (T.Stays T.bodyStart T.bodyEnd) c₁ c)
      (inside : T.Within T.bodyStart T.bodyEnd c) (departs : T.Departs E c) : Exits E T c₁ .left c
  | leftCatch {c c'} (body : (interp E).Reaches (T.Stays T.bodyStart T.bodyEnd) c₁ c)
      (inside : T.Stays T.bodyStart T.bodyEnd c) (error : T.At T.catchStart ((interp E).step c))
      (handler : (interp E).Reaches (T.Stays T.catchStart T.finalyStart) ((interp E).step c) c')
      (inside' : T.Within T.catchStart T.finalyStart c') (departs : T.Departs E c') : Exits E T c₁ .left c'

/-- From this exit control gets to the beginning of the FINALY block without leaving the statement, and there the
handlers are those of before the statement. -/
def TrySite.RunsFinaly (E : Env ν) (T : TrySite ν) (handlers : List TryFrame)
    (c : Config (VM ν) VMResult Crash) : Prop :=
  ∃ n vm, (interp E).steps n c = .running T.entry vm T.waiting ∧ vm.frames = T.top T.finalyStart :: T.outer ∧
    vm.tryStack = handlers ∧ ∀ m < n, T.Stays T.start T.finalyStart ((interp E).steps m c)

/-- A block was left at its end, and the handlers that it leaves are those of before the statement. -/
def Restores (handlers : List TryFrame) : Exit → Config (VM ν) VMResult Crash → Prop
  | .completed, c => ∃ vm, c.state = some vm ∧ vm.tryStack.tail = handlers
  | .caught, c => ∃ vm, c.state = some vm ∧ vm.tryStack = handlers
  | .left, _ => False

/-! ### Steps of the statement -/

variable {E : Env ν} {T : TrySite ν} {vm : VM ν} {off : Nat} {i : Instr}

omit [F64 ν] in
/-- The code of the statement, as it stands in its chunk. -/
lemma TrySite.code_placed (T : TrySite ν) : ∃ rest, T.chunk.code = T.before.code ++ (T.stmt.code ++ rest) := by
  obtain ⟨rest, code⟩ := T.placed
  exact ⟨rest, by rw [← code, TryStmt.parseTry_code, List.append_assoc]⟩

omit [F64 ν] in
/-- Where an instruction of the statement's code stands. -/
lemma TrySite.placed_at (T : TrySite ν) {pre : List UInt8} (rest : List UInt8)
    (code : T.stmt.code = pre ++ (i.encode ++ rest)) : i.encode <+: T.chunk.code.drop (T.start + pre.length) := by
  obtain ⟨tail, whole⟩ := T.code_placed
  refine ⟨rest ++ tail, ?_⟩
  rw [whole, code, TrySite.start, ← List.drop_drop, List.drop_left, List.append_assoc, List.drop_left,
    List.append_assoc]

omit [F64 ν] in
lemma TrySite.fetch_at (frames : vm.frames = T.top off :: T.outer) (chunk : vm.chunks[T.frame.ip.chunk]? = some T.chunk)
    (fits : i.Fits) (placed : i.encode <+: T.chunk.code.drop off) :
    fetch vm = .ok i { vm with frames := T.top (off + i.op.size) :: T.outer } :=
  fetch_apply frames chunk (decode_placed fits placed)

omit [F64 ν] in
lemma jumpBy_apply {f : Frame} {fs : List Frame} {d : Nat} (frames : vm.frames = f :: fs) :
    jumpBy d vm = .ok () { vm with frames := { f with ip := ⟨f.ip.chunk, f.ip.off + d⟩ } :: fs } := by
  have top : frame vm = .ok f vm := by rw [frame, frames]
  have forward : ¬ (f.ip.off : Int) + (d : Int) < 0 := by omega
  have target : ((f.ip.off : Int) + (d : Int)).toNat = f.ip.off + d := by omega
  rw [jumpBy, bind_apply, top, Outcome.bind_ok]
  simp only [if_neg forward, target, setIp, frames]

omit [F64 ν] in
/-- Behind the TRY block stands `OP_TRY_END`. -/
lemma TrySite.fetch_tryEnd (frames : vm.frames = T.top T.bodyEnd :: T.outer)
    (chunk : vm.chunks[T.frame.ip.chunk]? = some T.chunk) :
    fetch vm = .ok ⟨.tryEnd, 0, 0⟩ { vm with frames := T.top (T.bodyEnd + 1) :: T.outer } := by
  have stands : T.bodyEnd = T.start +
      ((Instr.mk .tryBegin (toU16 (T.stmt.body.length + 4)) 0).encode ++ T.stmt.body).length := by
    rw [TrySite.bodyEnd, TrySite.bodyStart, List.length_append, Instr.encode_length, ← Nat.add_assoc]
    rfl
  refine T.fetch_at frames chunk ⟨rfl, rfl⟩ ?_
  rw [stands]
  refine T.placed_at ((Instr.mk .jump (toU16 T.stmt.catchCode.length) 0).encode ++ T.stmt.catchCode ++
    T.stmt.finaly.getD []) ?_
  simp only [TryStmt.code, List.append_assoc]

omit [F64 ν] in
/-- And behind that the jump over the CATCH part. -/
lemma TrySite.fetch_skipCatch (frames : vm.frames = T.top (T.bodyEnd + 1) :: T.outer)
    (chunk : vm.chunks[T.frame.ip.chunk]? = some T.chunk) :
    fetch vm = .ok ⟨.jump, toU16 T.stmt.catchCode.length, 0⟩ { vm with frames := T.top T.catchStart :: T.outer } := by
  have stands : T.bodyEnd + 1 = T.start + ((Instr.mk .tryBegin (toU16 (T.stmt.body.length + 4)) 0).encode ++
      T.stmt.body ++ (Instr.mk .tryEnd 0 0).encode).length := by
    rw [TrySite.bodyEnd, TrySite.bodyStart, List.length_append, List.length_append, Instr.encode_length,
      Instr.encode_length, ← Nat.add_assoc, ← Nat.add_assoc]
    rfl
  refine T.fetch_at frames chunk ⟨toU16_lt (T.stmt.catchCode.length : Int), rfl⟩ ?_
  rw [stands]
  refine T.placed_at (T.stmt.catchCode ++ T.stmt.finaly.getD []) ?_
  simp only [TryStmt.code, List.append_assoc]

/-- The handler of the TRY block is dropped at its end. -/
lemma TrySite.step_tryEnd (frames : vm.frames = T.top T.bodyEnd :: T.outer)
    (chunk : vm.chunks[T.frame.ip.chunk]? = some T.chunk) :
    step E vm = .ok () { vm with frames := T.top (T.bodyEnd + 1) :: T.outer, tryStack := vm.tryStack.tail } :=
  step_apply (T.fetch_tryEnd frames chunk)

/-- Control jumps from behind the TRY block to the FINALY block. -/
lemma TrySite.step_skipCatch (frames : vm.frames = T.top (T.bodyEnd + 1) :: T.outer)
    (chunk : vm.chunks[T.frame.ip.chunk]? = some T.chunk) :
    step E vm = .ok () { vm with frames := T.top T.finalyStart :: T.outer } := by
  have offset : toI16 (toU16 T.stmt.catchCode.length) = (T.stmt.catchCode.length : Int) := by
    have same : toU16 T.stmt.catchCode.length = T.stmt.catchCode.length % 65536 := by
      rw [toU16]
      omega
    rw [same, toI16_mod T.small]
  rw [step_apply (T.fetch_skipCatch frames chunk)]
  show jumpBy (toI16 (toU16 T.stmt.catchCode.length)) _ = _
  rw [offset, jumpBy_apply rfl]
  rfl

/-! ### Exits -/

omit [F64 ν] in
lemma TrySite.Within.mono {lo hi lo' hi' : Nat} {c : Config (VM ν) VMResult Crash} (below : lo' ≤ lo) (above : hi < hi')
    (h : T.Within lo hi c) : T.Within lo' hi' c := by
  have holds {vm : VM ν} (h : T.Holds lo hi vm) : T.Holds lo' hi' vm := by
    obtain ⟨fs, off, frames, low, high⟩ := h
    exact ⟨fs, off, frames, Nat.le_trans below low, .inl (by omega)⟩
  cases c with
  | running e vm o => exact holds h
  | raised e vm o => exact holds h
  | _ => exact h.elim

omit [F64 ν] in
/-- Control in the statement's frame itself is in a part just when its `ip` is. -/
lemma TrySite.holds_top {lo hi : Nat} (frames : vm.frames = T.top off :: T.outer) :
    T.Holds lo hi vm ↔ lo ≤ off ∧ off < hi := by
  constructor
  · rintro ⟨fs, off', frames', low, high⟩
    rw [frames] at frames'
    have none : fs = [] := by
      have lengths := congrArg List.length frames'
      rw [List.length_cons, List.length_append, List.length_cons] at lengths
      exact List.eq_nil_of_length_eq_zero (by omega)
    subst none
    have same : off = off' := congrArg (fun f => f.ip.off) (List.cons.inj frames').1
    rw [same]
    refine ⟨low, high.resolve_right fun h => h.2 rfl⟩
  · rintro ⟨low, high⟩
    exact ⟨[], off, frames, low, .inl high⟩

omit [F64 ν] in
lemma TrySite.not_abandons {e : VM ν} {o : List (Suspended (VM ν) VMResult Crash)} {vm' : VM ν}
    (fetched : fetch vm = .ok i vm') (other : i.op ≠ .return) : ¬ T.Abandons (.running e vm o) := by
  rintro ⟨off, i', vm'', -, fetched', op⟩
  rw [fetched] at fetched'
  cases fetched'
  exact other op

omit [F64 ν] in
lemma TrySite.finaly_lt (T : TrySite ν) : T.finalyStart < T.finalyEnd :=
  Nat.lt_add_of_pos_right (List.length_pos_iff.mpr T.nonempty)

omit [F64 ν] in
lemma TrySite.start_le (T : TrySite ν) : T.start ≤ T.finalyStart := by
  simp only [TrySite.finalyStart, TrySite.catchStart, TrySite.bodyEnd, TrySite.bodyStart]
  omega

omit [F64 ν] in
lemma TrySite.bodyEnd_lt (T : TrySite ν) : T.start ≤ T.bodyEnd ∧ T.bodyEnd + 1 < T.finalyStart := by
  simp only [TrySite.finalyStart, TrySite.catchStart, TrySite.bodyEnd, TrySite.bodyStart]
  omega

/-- From the end of the TRY block control goes to the FINALY block, past the handler of the TRY block. -/
lemma TrySite.runsFinaly_completed {handlers : List TryFrame} (frames : vm.frames = T.top T.bodyEnd :: T.outer)
    (chunk : vm.chunks[T.frame.ip.chunk]? = some T.chunk) :
    T.RunsFinaly E handlers (.running T.entry vm T.waiting) ↔ vm.tryStack.tail = handlers := by
  obtain ⟨low, high⟩ := T.bodyEnd_lt
  have step₁ : (interp E).step (.running T.entry vm T.waiting) = .running T.entry
      { vm with frames := T.top (T.bodyEnd + 1) :: T.outer, tryStack := vm.tryStack.tail } T.waiting :=
    machine_step (T.step_tryEnd frames chunk)
  have step₂ : (interp E).step (.running T.entry
      { vm with frames := T.top (T.bodyEnd + 1) :: T.outer, tryStack := vm.tryStack.tail } T.waiting) =
      .running T.entry { vm with frames := T.top T.finalyStart :: T.outer, tryStack := vm.tryStack.tail } T.waiting :=
    machine_step (T.step_skipCatch rfl chunk)
  have first : T.Stays T.start T.finalyStart (.running T.entry vm T.waiting) :=
    ⟨(T.holds_top frames).mpr ⟨low, by omega⟩,
      T.not_abandons (T.fetch_tryEnd frames chunk) (show Opcode.tryEnd ≠ .return by decide)⟩
  have second : T.Stays T.start T.finalyStart ((interp E).step (.running T.entry vm T.waiting)) := by
    rw [step₁]
    exact ⟨(T.holds_top rfl).mpr ⟨by omega, high⟩,
      T.not_abandons (T.fetch_skipCatch rfl chunk) (show Opcode.jump ≠ .return by decide)⟩
  have step₂' : (interp E).steps 2 (.running T.entry vm T.waiting) = .running T.entry
      { vm with frames := T.top T.finalyStart :: T.outer, tryStack := vm.tryStack.tail } T.waiting := by
    rw [steps, step₁, steps, step₂, steps]
  have elsewhere {off : Nat} {vm vm' : VM ν} (frames : vm.frames = T.top off :: T.outer) (before : off < T.finalyStart)
      (there : Config.running (κ := Crash) (ρ := VMResult) T.entry vm T.waiting = .running T.entry vm' T.waiting) :
      vm'.frames ≠ T.top T.finalyStart :: T.outer := by
    cases there
    intro frames'
    rw [frames] at frames'
    have same : off = T.finalyStart := congrArg (fun f => f.ip.off) (List.cons.inj frames').1
    omega
  constructor
  · rintro ⟨n, vm', there, frames', handlers', stays⟩
    obtain rfl | rfl | rfl | late : n = 0 ∨ n = 1 ∨ n = 2 ∨ 3 ≤ n := by omega
    · exact absurd frames' (elsewhere frames (by omega) there)
    · have there : (interp E).step (.running T.entry vm T.waiting) = _ := there
      rw [step₁] at there
      exact absurd frames' (elsewhere rfl high there)
    · rw [step₂'] at there
      cases there
      exact handlers'
    · have after := (stays 2 late).1
      rw [step₂'] at after
      have high := ((T.holds_top rfl).mp after).2
      omega
  · rintro rfl
    refine ⟨2, _, step₂', rfl, rfl, fun m less => ?_⟩
    cases m with
    | zero => exact first
    | succ m =>
      obtain rfl : m = 0 := by omega
      exact second

/-- From a step out of the statement its FINALY block is not reached. -/
lemma TrySite.not_runsFinaly {handlers : List TryFrame} {c : Config (VM ν) VMResult Crash} {lo hi : Nat}
    (inside : T.Within lo hi c) (fits : hi ≤ T.finalyStart) (departs : T.Departs E c) :
    ¬ T.RunsFinaly E handlers c := by
  rintro ⟨n, vm, there, frames, -, stays⟩
  cases n with
  | zero =>
    obtain rfl : c = .running T.entry vm T.waiting := there
    have high := ((T.holds_top frames).mp inside).2
    omega
  | succ n =>
    have outside := departs.resolve_left (stays 0 (Nat.zero_lt_succ n)).2
    refine outside ?_
    cases n with
    | zero =>
      have e : (interp E).step c = .running T.entry vm T.waiting := there
      rw [e]
      exact (T.holds_top frames).mpr ⟨T.start_le, T.finaly_lt⟩
    | succ n => exact (stays 1 (by omega)).1.mono (Nat.le_refl _) T.finaly_lt

/-- From the end of the CATCH block control has fallen into the FINALY block. -/
lemma TrySite.runsFinaly_caught {handlers : List TryFrame} (frames : vm.frames = T.top T.finalyStart :: T.outer) :
    T.RunsFinaly E handlers (.running T.entry vm T.waiting) ↔ vm.tryStack = handlers := by
  constructor
  · rintro ⟨n, vm', there, frames', handlers', stays⟩
    cases n with
    | zero =>
      cases there
      exact handlers'
    | succ n =>
      have late := (stays 0 (Nat.zero_lt_succ n)).1
      exact absurd ((T.holds_top frames).mp late).2 (Nat.lt_irrefl _)
  · rintro rfl
    exact ⟨0, vm, rfl, frames, rfl, fun m less => absurd less (Nat.not_lt_zero m)⟩

/-- The chunk of the statement stays where it was. -/
lemma TrySite.chunk_stays {G : Config (VM ν) VMResult Crash → Prop} {vm₀ vm' : VM ν}
    {c : Config (VM ν) VMResult Crash} (chunk : vm.chunks[T.frame.ip.chunk]? = some T.chunk)
    (begun : Follows Grows vm₀ (.running T.entry vm T.waiting))
    (run : (interp E).Reaches G ((interp E).step (.running T.entry vm T.waiting)) c)
    (now : c = .running T.entry vm' T.waiting) : vm'.chunks[T.frame.ip.chunk]? = some T.chunk := by
  have first : (interp E).Reaches (fun _ => True) (.running T.entry vm T.waiting)
      ((interp E).step (.running T.entry vm T.waiting)) := .single ⟨trivial, rfl⟩
  have here : Follows Grows vm (.running T.entry vm T.waiting) := ⟨refl_of Grows vm, begun.2⟩
  have there := run_grows run (run_grows first here)
  rw [now] at there
  obtain ⟨added, chunks⟩ := there.1.chunks
  obtain ⟨inside, -⟩ := List.getElem?_eq_some_iff.mp chunk
  rw [← chunks, List.getElem?_append_left inside, chunk]

/-- The statement is about to begin. -/
structure TrySite.Begins (T : TrySite ν) (vm : VM ν) : Prop where
  frames : vm.frames = T.top T.start :: T.outer
  chunk : vm.chunks[T.frame.ip.chunk]? = some T.chunk

/-- The handler of the TRY block. -/
def TrySite.handler (T : TrySite ν) (vm : VM ν) : TryFrame :=
  ⟨some ⟨T.frame.ip.chunk, T.catchStart⟩, none, vm.height, T.outer.length + 1, vm.loopDepth⟩

end Exits

/-! ### A RETURN and a normal end -/

/-- `TRY { body } CATCH (e) {} FINALY { ; }`. -/
def tryStmt (body : List UInt8) : TryStmt :=
  { body, slots := [1], handler := [], finaly := some [Opcode.nop.toByte] }

/-- A script that consists of the statement, and the state in which it begins. -/
def tryChunk (body : List UInt8) : Chunk Int :=
  { code := ((tryStmt body).parseTry (ν := Int) {}).code ++ [Opcode.halt.toByte], constants := [.number 1] }

def tryState (body : List UInt8) : VM Int :=
  { stack := [.null], frames := [scriptFrame 0], chunks := [tryChunk body] }

/-- The statement in its place. -/
def trySite (body : List UInt8) : TrySite Int where
  stmt := tryStmt body
  block := [Opcode.nop.toByte]
  finaly := rfl
  nonempty := List.cons_ne_nil _ _
  small := show (tryStmt []).catchCode.length < 32768 by decide
  before := {}
  chunk := tryChunk body
  placed := List.prefix_append _ _
  frame := scriptFrame 0
  outer := []
  entry := tryState body
  waiting := []

/-- `RETURN 1`. -/
def returnOne : List UInt8 := (Instr.mk .const 0 0).encode ++ (Instr.mk .return 1 0).encode

/-- Where the `ip` of a running script is. -/
def Config.offset? : Config (VM Int) VMResult Crash → Option Nat
  | .running _ vm _ => vm.frames.head?.map (·.ip.off)
  | _ => none

lemma TrySite.At.offset {T : TrySite Int} {off : Nat} {c : Config (VM Int) VMResult Crash} (h : T.At off c) :
    Config.offset? c = some off := by
  obtain ⟨vm, rfl, frames⟩ := h
  rw [Config.offset?, frames]
  rfl

end Cando
