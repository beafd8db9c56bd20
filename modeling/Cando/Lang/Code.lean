import Cando.Lang.Syntax
import Cando.Parser.State
import Cando.Vm.Locals

/-!
# The core of the language: code

Which bytes are the code of a program: `Expr.Code` and `Stmt.Code` relate a tree to its code, with the constants that
the code names in a pool and the variables of the blocks around in slots. Jumps are relative, so the code of a part is
the same wherever it stands.
-/

namespace Cando.Lang

/-- The bytes of an instruction. -/
def code (op : Opcode) (a b : Nat) : List UInt8 := (Instr.mk op a b).encode

@[simp] lemma code_length (op : Opcode) (a b : Nat) : (code op a b).length = op.size := Instr.encode_length _

variable {ν : Type}

/-- The slot of a variable, given the names of those that are there, the innermost first. -/
def slotOf (names : List Str) (x : Str) : Option Nat :=
  (names.findIdx? (· == x)).map fun i => names.length - 1 - i

/-- The value is a constant of the pool, under this number. -/
def Holds (pool : List (Value ν)) (v : Value ν) (ci : Nat) : Prop := pool[ci]? = some v ∧ ci < 65536

/-- An instruction on a variable: one names its slot, the other one its name. -/
inductive OnVariable (pool : List (Value ν)) (names : List Str) (x : Str) (onLocal onGlobal : Opcode) :
    List UInt8 → Prop where
  | slot {k : Nat} : slotOf names x = some k → OnVariable pool names x onLocal onGlobal (code onLocal (k % 65536) 0)
  | global {ci : Nat} : slotOf names x = none → Holds pool (.string x) ci →
    OnVariable pool names x onLocal onGlobal (code onGlobal ci 0)

/-- The code loads the variable. -/
abbrev Loads (pool : List (Value ν)) (names : List Str) (x : Str) : List UInt8 → Prop :=
  OnVariable pool names x .loadLocal .loadGlobal

/-- The code stores what is on top in the variable. -/
abbrev Stores (pool : List (Value ν)) (names : List Str) (x : Str) : List UInt8 → Prop :=
  OnVariable pool names x .storeLocal .storeGlobal

variable [F64 ν]

/-- The code of an expression. -/
inductive Expr.Code (pool : List (Value ν)) (names : List Str) : Expr → List UInt8 → Prop where
  | number {text : Str} {ci : Nat} : Holds pool (.number (F64.strtod text)) ci →
    Code pool names (.number text) (code .const ci 0)
  | string {q : Quote} {content : Str} {ci : Nat} : Holds pool (.string content) ci →
    Code pool names (.string q content) (code .const ci 0)
  | null : Code pool names .null (code .null 0 0)
  | bool {b : Bool} : Code pool names (.bool b) (code (if b then .true else .false) 0 0)
  | name {x : Str} {bs : List UInt8} : Loads pool names x bs → Code pool names (.name x) bs
  | paren {e : Expr} {bs : List UInt8} : Code pool names e bs → Code pool names (.paren e) bs
  | neg {e : Expr} {bs : List UInt8} : Code pool names e bs → Code pool names (.neg e) (bs ++ code .neg 0 0)
  | not {e : Expr} {bs : List UInt8} : Code pool names e bs → Code pool names (.not e) (bs ++ code .not 0 0)
  | binary {o : Binary} {l r : Expr} {bl br : List UInt8} : Code pool names l bl → Code pool names r br →
    Code pool names (.binary o l r) (bl ++ (br ++ code o.op 0 0))
  | and {l r : Expr} {bl br : List UInt8} : Code pool names l bl → Code pool names r br →
    Code pool names (.and l r) (bl ++ (code .andJump (toU16 (1 + br.length)) 0 ++ (code .pop 0 0 ++ br)))
  | or {l r : Expr} {bl br : List UInt8} : Code pool names l bl → Code pool names r br →
    Code pool names (.or l r) (bl ++ (code .orJump (toU16 (1 + br.length)) 0 ++ (code .pop 0 0 ++ br)))
  | assign {x : Str} {e : Expr} {bs st : List UInt8} : Code pool names e bs → Stores pool names x st →
    Code pool names (.assign x e) (bs ++ st)
  | update {o : Compound} {x : Str} {e : Expr} {ld bs st : List UInt8} : Loads pool names x ld →
    Code pool names e bs → Stores pool names x st →
    Code pool names (.update o x e) (ld ++ (bs ++ (code o.operator.op 0 0 ++ st)))
  | step {up : Bool} {x : Str} {ci : Nat} {ld st : List UInt8} : Loads pool names x ld →
    Holds pool (.number (F64.ofInt 1)) ci → Stores pool names x st →
    Code pool names (.step up x) (ld ++ (code .dup 0 0 ++ (code .const ci 0 ++
      (code (if up then .add else .sub) 0 0 ++ (st ++ code .pop 0 0)))))

/-- The code of a row of statements, in a frame with `width` slots. -/
inductive Stmt.Code (pool : List (Value ν)) (width : Nat) : (top : Bool) → List Str → Stmt → List UInt8 → Prop where
  | nil {top : Bool} {names : List Str} : Code pool width top names .nil []
  | empty {top : Bool} {names : List Str} : Code pool width top names .empty []
  | seq {top : Bool} {names : List Str} {s t : Stmt} {bs bt : List UInt8} : Code pool width top names s bs →
    Code pool width top (s.declares top ++ names) t bt → Code pool width top names (.seq s t) (bs ++ bt)
  | expr {top : Bool} {names : List Str} {e : Expr} {bs : List UInt8} : e.Code pool names bs →
    Code pool width top names (.expr e) (bs ++ code .pop 0 0)
  | global {names : List Str} {x : Str} {e : Expr} {bs : List UInt8} {ci : Nat} : e.Code pool names bs →
    Holds pool (.string x) ci → Code pool width true names (.declare x e) (bs ++ code .defGlobal ci 0)
  | local {names : List Str} {x : Str} {e : Expr} {bs : List UInt8} : e.Code pool names bs → names.length < width →
    Code pool width false names (.declare x e) (bs ++ code .defLocal (names.length % 65536) 0)
  | block {top : Bool} {names : List Str} {s : Stmt} {bs : List UInt8} : Code pool width false names s bs →
    Code pool width top names (.block s) bs
  | ifElse {top : Bool} {names : List Str} {c : Expr} {s t : Stmt} {bc bs bt : List UInt8} : c.Code pool names bc →
    Code pool width false names s bs → Code pool width false names t bt →
    Code pool width top names (.ifElse c s t)
      (bc ++ (code .jumpIfFalse (toU16 (1 + (bs.length + 3))) 0 ++ (code .pop 0 0 ++
        (bs ++ (code .jump (toU16 (1 + bt.length)) 0 ++ (code .pop 0 0 ++ bt))))))
  | whileLoop {top : Bool} {names : List Str} {c : Expr} {s : Stmt} {bc bs : List UInt8} : c.Code pool names bc →
    Code pool width false names s bs →
    Code pool width top names (.whileLoop c s)
      (bc ++ (code .jumpIfFalse (toU16 (1 + (5 + (bs.length + (1 + 3))))) 0 ++ (code .pop 0 0 ++
        (code .loopMark (toU16 (bs.length + (1 + (3 + 1)))) (toU16 (bc.length + (3 + (1 + 5))) % 16384) ++
          (bs ++ (code .loopEnd 0 0 ++ (code .loop (toU16 (bc.length + (3 + (1 + (5 + (bs.length + (1 + 3))))))) 0 ++
            code .pop 0 0)))))))
  | breakLoop {top : Bool} {names : List Str} : Code pool width top names .breakLoop (code .break 0 0)
  | continueLoop {top : Bool} {names : List Str} : Code pool width top names .continueLoop (code .continue 0 0)
  | tryCatch {top : Bool} {names : List Str} {s h : Stmt} {x : Str} {bs bh : List UInt8} :
    Code pool width false names s bs → Code pool width false (x :: names) h bh → names.length < width →
    Code pool width top names (.tryCatch s x h)
      (code .tryBegin (toU16 (bs.length + (1 + 3))) 0 ++ (bs ++ (code .tryEnd 0 0 ++
        (code .jump (toU16 (3 + (3 + bh.length))) 0 ++ (code .catchBegin 1 0 ++
          (code .defLocal (names.length % 65536) 0 ++ bh))))))
  | throwValue {top : Bool} {names : List Str} {e : Expr} {bs : List UInt8} : e.Code pool names bs →
    Code pool width top names (.throwValue e) (bs ++ code .throw 1 0)

/-- The chunk is the compiled program. -/
structure ScriptOf (chunk : Chunk ν) (s : Stmt) : Prop where
  arity : chunk.arity = 0
  narrow : chunk.localCount ≤ localMax
  code : ∃ bs, s.Code chunk.constants chunk.localCount true [] bs ∧ chunk.code = bs ++ code .halt 0 0

/-- The chunk is the program and the expression behind it, compiled to give the value of the expression. -/
structure EvalOf (chunk : Chunk ν) (s : Stmt) (e : Expr) : Prop where
  arity : chunk.arity = 0
  narrow : chunk.localCount ≤ localMax
  code : ∃ bs be, s.Code chunk.constants chunk.localCount true [] bs ∧ e.Code chunk.constants [] be ∧
    chunk.code = bs ++ (be ++ code .return 1 0)

/-! ### How long the code is -/

/-- How many bytes the code of an expression has. -/
def Expr.size : Expr → Nat
  | .number _ | .string _ _ | .name _ => 3
  | .null | .bool _ => 1
  | .paren e => e.size
  | .neg e | .not e => e.size + 1
  | .binary _ l r => l.size + (r.size + 1)
  | .and l r | .or l r => l.size + (3 + (1 + r.size))
  | .assign _ e => e.size + 3
  | .update _ _ e => 3 + (e.size + (1 + 3))
  | .step _ _ => 3 + (1 + (3 + (1 + (3 + 1))))

/-- How many bytes the code of a row of statements has. -/
def Stmt.size : Stmt → Nat
  | .nil | .empty => 0
  | .seq s t => s.size + t.size
  | .expr e => e.size + 1
  | .declare _ e => e.size + 3
  | .block s => s.size
  | .ifElse c s t => c.size + (3 + (1 + (s.size + (3 + (1 + t.size)))))
  | .whileLoop c s => c.size + (3 + (1 + (5 + (s.size + (1 + (3 + 1))))))
  | .breakLoop | .continueLoop => 3
  | .tryCatch s _ h => 3 + (s.size + (1 + (3 + (3 + (3 + h.size)))))
  | .throwValue e => e.size + 3

section Size

variable {pool : List (Value ν)} {names : List Str}

omit [F64 ν] in
lemma Loads.length {x : Str} {bs : List UInt8} (h : Loads pool names x bs) : bs.length = 3 := by
  cases h <;> rfl

omit [F64 ν] in
lemma Stores.length {x : Str} {bs : List UInt8} (h : Stores pool names x bs) : bs.length = 3 := by
  cases h <;> rfl

lemma Expr.Code.length {e : Expr} {bs : List UInt8} (h : e.Code pool names bs) : bs.length = e.size := by
  induction h with
  | number | string | null => rfl
  | @bool b => cases b <;> rfl
  | name loads => exact loads.length
  | paren _ ih => exact ih
  | neg _ ih | not _ ih => rw [List.length_append, ih]; rfl
  | @binary o _ _ _ _ _ _ ihl ihr =>
    rw [List.length_append, List.length_append, ihl, ihr]
    rcases o with o | o <;> cases o <;> rfl
  | and _ _ ihl ihr | or _ _ ihl ihr =>
    rw [List.length_append, List.length_append, List.length_append, ihl, ihr]
    rfl
  | assign _ stores ih => rw [List.length_append, ih, stores.length]; rfl
  | @update o _ _ _ _ _ loads _ stores ih =>
    rw [List.length_append, List.length_append, List.length_append, ih, loads.length, stores.length]
    cases o <;> rfl
  | @step up _ _ _ _ loads _ stores =>
    simp only [List.length_append, loads.length, stores.length]
    cases up <;> rfl

lemma Stmt.Code.length {width : Nat} {top : Bool} {s : Stmt} {bs : List UInt8} (h : s.Code pool width top names bs) :
    bs.length = s.size := by
  induction h with
  | nil | empty | breakLoop | continueLoop => rfl
  | seq _ _ ihs iht => rw [List.length_append, ihs, iht]; rfl
  | expr e | global e _ | «local» e _ | throwValue e => rw [List.length_append, e.length]; rfl
  | block _ ih => exact ih
  | ifElse c _ _ ihs iht => simp only [List.length_append, c.length, ihs, iht]; rfl
  | whileLoop c _ ih => simp only [List.length_append, c.length, ih]; rfl
  | tryCatch _ _ _ ihs ihh => simp only [List.length_append, ihs, ihh]; rfl

lemma ScriptOf.length {chunk : Chunk ν} {s : Stmt} (h : ScriptOf chunk s) : chunk.code.length = s.size + 1 := by
  obtain ⟨bs, holds, code⟩ := h.code
  rw [code, List.length_append, holds.length]
  rfl

lemma EvalOf.length {chunk : Chunk ν} {s : Stmt} {e : Expr} (h : EvalOf chunk s e) :
    chunk.code.length = s.size + (e.size + 3) := by
  obtain ⟨bs, be, holds, value, code⟩ := h.code
  rw [code, List.length_append, List.length_append, holds.length, value.length]
  rfl

end Size

/-! ### More constants, more slots -/

section More

variable {pool pool' : List (Value ν)} {names : List Str}

omit [F64 ν] in
lemma Holds.mono {v : Value ν} {ci : Nat} (more : pool <+: pool') (h : Holds pool v ci) : Holds pool' v ci := by
  obtain ⟨tail, rfl⟩ := more
  exact ⟨List.getElem?_append_left (List.getElem?_eq_some_iff.mp h.1).1 ▸ h.1, h.2⟩

omit [F64 ν] in
lemma OnVariable.mono {x : Str} {onLocal onGlobal : Opcode} {bs : List UInt8} (more : pool <+: pool')
    (h : OnVariable pool names x onLocal onGlobal bs) : OnVariable pool' names x onLocal onGlobal bs := by
  cases h with
  | slot found => exact .slot found
  | global missing holds => exact .global missing (holds.mono more)

lemma Expr.Code.mono {e : Expr} {bs : List UInt8} (more : pool <+: pool') (h : e.Code pool names bs) :
    e.Code pool' names bs := by
  induction h with
  | number holds => exact .number (holds.mono more)
  | string holds => exact .string (holds.mono more)
  | null => exact .null
  | bool => exact .bool
  | name loads => exact .name (loads.mono more)
  | paren _ ih => exact .paren ih
  | neg _ ih => exact .neg ih
  | not _ ih => exact .not ih
  | binary _ _ ihl ihr => exact .binary ihl ihr
  | and _ _ ihl ihr => exact .and ihl ihr
  | or _ _ ihl ihr => exact .or ihl ihr
  | assign _ stores ih => exact .assign ih (stores.mono more)
  | update loads _ stores ih => exact .update (loads.mono more) ih (stores.mono more)
  | step loads holds stores => exact .step (loads.mono more) (holds.mono more) (stores.mono more)

lemma Stmt.Code.mono {width width' : Nat} {top : Bool} {s : Stmt} {bs : List UInt8} (more : pool <+: pool')
    (wider : width ≤ width') (h : s.Code pool width top names bs) : s.Code pool' width' top names bs := by
  induction h with
  | nil => exact .nil
  | empty => exact .empty
  | seq _ _ ihs iht => exact .seq ihs iht
  | expr e => exact .expr (e.mono more)
  | global e holds => exact .global (e.mono more) (holds.mono more)
  | «local» e room => exact .local (e.mono more) (Nat.lt_of_lt_of_le room wider)
  | block _ ih => exact .block ih
  | ifElse c _ _ ihs iht => exact .ifElse (c.mono more) ihs iht
  | whileLoop c _ ih => exact .whileLoop (c.mono more) ih
  | breakLoop => exact .breakLoop
  | continueLoop => exact .continueLoop
  | tryCatch _ _ room ihs ihh => exact .tryCatch ihs ihh (Nat.lt_of_lt_of_le room wider)
  | throwValue e => exact .throwValue (e.mono more)

end More

end Cando.Lang
