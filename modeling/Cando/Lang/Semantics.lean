import Cando.Lang.Syntax

/-!
# The core of the language: meaning

What a program of the core does, told without the compiler and the machine: expressions from left to right with their
effects on the variables, `&&` and `||` that stop short, blocks with variables of their own, and errors that end what is
running up to the next CATCH. Operators do what they do on values. Where an operand has a metamethod, or where C leaves
an operation undefined, the program leaves the core and nothing is said of it (`stuck`). Only loops need fuel.
-/

namespace Cando.Lang

/-- The variables: those of the blocks around, the innermost first, and the store with the globals. -/
structure State (ν : Type) where
  scope : List (Str × Value ν) := []
  store : Store ν := {}
  deriving DecidableEq, Repr

/-- What running a part of a program comes to. -/
inductive Result (ν α : Type) where
  | ok (a : α) (s : State ν)
  | error (v : Value ν) (s : State ν)
  | stuck
  | timeout
  deriving DecidableEq, Repr

/-- How a statement ends. -/
inductive Ending where
  | normal | broken | continued
  deriving DecidableEq, Repr

namespace Result

variable {ν α β : Type}

def bind : Result ν α → (α → State ν → Result ν β) → Result ν β
  | ok a s, f => f a s
  | error v s, _ => error v s
  | stuck, _ => stuck
  | timeout, _ => timeout

@[simp] lemma bind_ok (a : α) (s : State ν) (f : α → State ν → Result ν β) : (ok a s).bind f = f a s := rfl

/-- `P` holds of the state in which it ends, `F` of the one in which it fails. -/
def All (P : α → State ν → Prop) (F : State ν → Prop) : Result ν α → Prop
  | ok a s => P a s
  | error _ s => F s
  | _ => True

variable {P P' : α → State ν → Prop} {Q : β → State ν → Prop} {F F' : State ν → Prop}

lemma All.mono {r : Result ν α} (h : r.All P F) (hP : ∀ a s, P a s → P' a s) (hF : ∀ s, F s → F' s) :
    r.All P' F' := by
  cases r with
  | ok a s => exact hP a s h
  | error v s => exact hF s h
  | stuck | timeout => trivial

lemma All.bind {r : Result ν α} {f : α → State ν → Result ν β} (h : r.All P F)
    (hf : ∀ a s, P a s → (f a s).All Q F) : (r.bind f).All Q F := by
  cases r with
  | ok a s => exact hf a s h
  | error v s => exact h
  | stuck | timeout => trivial

end Result

/-- An error that the interpreter raises with a message. -/
def message {ν : Type} (msg : Str) : Value ν := .string (cstr (msg.take 511))

/-! ### Variables -/

/-- The innermost variable of the name gets a value. -/
def rebind {ν : Type} (x : Str) (v : Value ν) : List (Str × Value ν) → List (Str × Value ν)
  | [] => []
  | (y, w) :: scope => if x == y then (y, v) :: scope else (y, w) :: rebind x v scope

namespace State

variable {ν : Type}

/-- The names of the variables of the blocks around. -/
def names (s : State ν) : List Str := s.scope.map Prod.fst

def load (x : Str) (s : State ν) : Result ν (Value ν) :=
  match s.scope.lookup x with
  | some v => .ok v s
  | none =>
    match s.store.getGlobal x with
    | some v => .ok v s
    | none => .error (message (bytes "undefined variable '" ++ cstr x ++ bytes "'")) s

/-- An assignment, whose value is the value that is assigned. -/
def assign (x : Str) (v : Value ν) (s : State ν) : Result ν (Value ν) :=
  match s.scope.lookup x with
  | some _ => .ok v { s with scope := rebind x v s.scope }
  | none =>
    match s.store.setGlobal x v false with
    | some w => .ok v { s with store := w }
    | none => .error (message (bytes "cannot assign to constant '" ++ cstr x ++ bytes "'")) s

/-- A declaration in a block; outside of all blocks it is that of a global, and one that is write-protected stays. -/
def declare (top : Bool) (x : Str) (v : Value ν) (s : State ν) : State ν :=
  if top then { s with store := (s.store.setGlobal x v false).getD s.store }
  else { s with scope := (x, v) :: s.scope }

/-- The variables beyond the first `n` end. -/
def cut (n : Nat) (s : State ν) : State ν := { s with scope := s.scope.drop (s.scope.length - n) }

end State

/-! ### Operators -/

section Operators

variable {ν : Type} [F64 ν]

/-- No metamethod of this name is there for the operand that is asked. -/
def unasked (w : Store ν) (key : Str) (a b : Value ν) : Bool :=
  match consulted a b with
  | none => true
  | some h =>
    match w.pointer h with
    | none => false
    | some p => (w.get p key).isNone

def arithmetic (msg : Value ν → Value ν → Str) (f : ν → ν → Except Str ν) : Value ν → Value ν → Except Str (Value ν)
  | .number x, .number y =>
    match f x y with
    | .ok z => .ok (.number z)
    | .error e => .error e
  | a, b => .error (msg a b)

def ordering (rel : ν → ν → Bool) : Value ν → Value ν → Except Str (Value ν)
  | .number x, .number y => .ok (.bool (rel x y))
  | _, _ => .error (bytes "comparison requires numbers")

/-- An operator on two values. -/
def compute (o : Operator) (a b : Value ν) : Except Str (Value ν) :=
  match o with
  | .add =>
    match a, b with
    | .string s, .string t => .ok (.string (s ++ t))
    | _, _ => arithmetic operandsMessage (fun x y => .ok (F64.add x y)) a b
  | .sub => arithmetic operandsMessage (fun x y => .ok (F64.sub x y)) a b
  | .mul => arithmetic operandsMessage (fun x y => .ok (F64.mul x y)) a b
  | .div =>
    arithmetic (fun _ _ => bytes "operands must be numbers")
      (fun x y => if F64.eq y (F64.ofInt 0) then .error (bytes "division by zero") else .ok (F64.div x y)) a b
  | .mod => arithmetic (fun _ _ => bytes "operands must be numbers") (fun x y => .ok (F64.fmod x y)) a b
  | .pow => arithmetic (fun _ _ => bytes "operands must be numbers") (fun x y => .ok (F64.pow x y)) a b
  | .eq => .ok (.bool (a.equal b))
  | .neq => .ok (.bool !a.equal b)
  | .lt => ordering F64.lt a b
  | .gt => ordering (fun x y => F64.lt y x) a b
  | .leq => ordering F64.le a b
  | .geq => ordering (fun x y => F64.le y x) a b

/-- An operator on 64 bits, where C defines it. -/
def bitwise (o : Bitwise) (a b : Value ν) : Option (Value ν) := do
  let j ← bitOperand b
  let i ← bitOperand a
  let z ← (if o.shifts then shiftBy (.ofInt 64 j) (o.result (.ofInt 64 i) (.ofInt 64 j))
    else some (o.result (.ofInt 64 i) (.ofInt 64 j)))
  return .number (F64.ofInt z.toInt)

def Binary.apply (o : Binary) (w : Store ν) (a b : Value ν) : Option (Except Str (Value ν)) :=
  match o with
  | .plain o => if unasked w o.metaKey a b then some (compute o a b) else none
  | .bits o => (bitwise o a b).map .ok

/-- The unary `-`. -/
def negate (w : Store ν) (a : Value ν) : Option (Except Str (Value ν)) :=
  match a with
  | .number x => some (.ok (.number (F64.neg x)))
  | a => if unasked w (bytes "__unm") a .null then some (.error (bytes "unary '-' requires a number")) else none

/-- The result of an operator. -/
def give (r : Option (Except Str (Value ν))) (s : State ν) : Result ν (Value ν) :=
  match r with
  | none => .stuck
  | some (.ok v) => .ok v s
  | some (.error msg) => .error (message msg) s

/-! ### Expressions -/

/-- The operator that `++` and `--` apply. -/
def stepOperator (up : Bool) : Operator := if up then .add else .sub

def eval : Expr → State ν → Result ν (Value ν)
  | .number text, s => .ok (.number (F64.strtod text)) s
  | .string _ content, s => .ok (.string content) s
  | .null, s => .ok .null s
  | .bool b, s => .ok (.bool b) s
  | .name x, s => s.load x
  | .paren e, s => eval e s
  | .neg e, s => (eval e s).bind fun a s => give (negate s.store a) s
  | .not e, s => (eval e s).bind fun a s => .ok (.bool !a.isTruthy) s
  | .binary o l r, s => (eval l s).bind fun a s => (eval r s).bind fun b s => give (o.apply s.store a b) s
  | .and l r, s => (eval l s).bind fun a s => if a.isTruthy then eval r s else .ok a s
  | .or l r, s => (eval l s).bind fun a s => if a.isTruthy then .ok a s else eval r s
  | .assign x e, s => (eval e s).bind fun v s => s.assign x v
  | .update o x e, s => (s.load x).bind fun a s => (eval e s).bind fun b s =>
      (give ((Binary.plain o.operator).apply s.store a b) s).bind fun v s => s.assign x v
  | .step up x, s => (s.load x).bind fun a s =>
      (give ((Binary.plain (stepOperator up)).apply s.store a (.number (F64.ofInt 1))) s).bind fun v s =>
        (s.assign x v).bind fun _ s => .ok a s

/-! ### Statements -/

/-- The variables of a block end with it, whichever way it is left. -/
def leave (n : Nat) : Result ν Ending → Result ν Ending
  | .ok r s => .ok r (s.cut n)
  | r => r

/-- A loop, up to a number of turns. -/
def loop (cond : State ν → Result ν (Value ν)) (body : State ν → Result ν Ending) : Nat → State ν → Result ν Ending
  | 0, _ => .timeout
  | turns + 1, s => (cond s).bind fun v s =>
      if v.isTruthy then (body s).bind fun r s => if r = .broken then .ok .normal s else loop cond body turns s
      else .ok .normal s

/-- `top` says that the statements stand outside of all blocks. -/
def exec (fuel : Nat) : (top : Bool) → Stmt → State ν → Result ν Ending
  | _, .nil, s | _, .empty, s => .ok .normal s
  | top, .seq a b, s => (exec fuel top a s).bind fun r s => if r = .normal then exec fuel top b s else .ok r s
  | _, .expr e, s => (eval e s).bind fun _ s => .ok .normal s
  | top, .declare x e, s => (eval e s).bind fun v s => .ok .normal (s.declare top x v)
  | _, .block b, s => leave s.scope.length (exec fuel false b s)
  | _, .ifElse c a b, s => (eval c s).bind fun v s =>
      leave s.scope.length (if v.isTruthy then exec fuel false a s else exec fuel false b s)
  | _, .whileLoop c b, s => loop (eval c) (fun s => leave s.scope.length (exec fuel false b s)) fuel s
  | _, .breakLoop, s => .ok .broken s
  | _, .continueLoop, s => .ok .continued s
  | _, .tryCatch b x h, s =>
    match leave s.scope.length (exec fuel false b s) with
    | .error v s' => leave s.scope.length (exec fuel false h ((s'.cut s.scope.length).declare false x v))
    | r => r
  | _, .throwValue e, s => (eval e s).bind fun v s => .error v s

end Operators

/-! ### Which variables there are -/

section Names

variable {ν : Type}

lemma rebind_names (x : Str) (v : Value ν) (scope : List (Str × Value ν)) :
    (rebind x v scope).map Prod.fst = scope.map Prod.fst := by
  induction scope with
  | nil => rfl
  | cons b scope ih =>
    obtain ⟨y, w⟩ := b
    rw [rebind]
    split
    · rfl
    · rw [List.map_cons, List.map_cons, ih]

/-- The names are those that were there. -/
def SameNames (s : State ν) {α : Type} (r : Result ν α) : Prop :=
  r.All (fun _ s' => s'.names = s.names) fun s' => s'.names = s.names

namespace SameNames

variable {s : State ν} {α β : Type}

lemma ok (a : α) : SameNames s (.ok a s) := rfl

lemma error (v : Value ν) : SameNames s (.error v s : Result ν α) := rfl

lemma bind {r : Result ν α} {f : α → State ν → Result ν β} (h : SameNames s r)
    (hf : ∀ a s', SameNames s' (f a s')) : SameNames s (r.bind f) := by
  refine Result.All.bind h fun a s' same => (hf a s').mono ?_ ?_
  · exact fun _ _ same' => same'.trans same
  · exact fun _ same' => same'.trans same

lemma load (x : Str) (s : State ν) : SameNames s (s.load x) := by
  rw [State.load]
  cases s.scope.lookup x with
  | some v => exact ok v
  | none =>
    dsimp only
    cases s.store.getGlobal x with
    | some v => exact ok v
    | none => exact error _

lemma assign (x : Str) (v : Value ν) (s : State ν) : SameNames s (s.assign x v) := by
  rw [State.assign]
  cases s.scope.lookup x with
  | some w => exact rebind_names x v s.scope
  | none =>
    dsimp only
    cases s.store.setGlobal x v false with
    | some w => rfl
    | none => exact error _

lemma give (r : Option (Except Str (Value ν))) (s : State ν) : SameNames s (give r s) := by
  rcases r with _ | _ | v
  · trivial
  · exact error _
  · exact ok v

end SameNames

variable [F64 ν]

/-- An expression declares nothing. -/
lemma eval_names (e : Expr) (s : State ν) : SameNames s (eval e s) := by
  induction e generalizing s with
  | number | string | null | bool => exact .ok _
  | name x => exact .load x s
  | paren e ih => exact ih s
  | neg e ih => exact (ih s).bind fun a s' => .give _ s'
  | not e ih => exact (ih s).bind fun a s' => .ok _
  | binary o l r ihl ihr => exact (ihl s).bind fun a s' => (ihr s').bind fun b s' => .give _ s'
  | and l r ihl ihr =>
    refine (ihl s).bind fun a s' => ?_
    split
    · exact ihr s'
    · exact .ok a
  | or l r ihl ihr =>
    refine (ihl s).bind fun a s' => ?_
    split
    · exact .ok a
    · exact ihr s'
  | assign x e ih => exact (ih s).bind fun v s' => .assign x v s'
  | update o x e ih =>
    exact (SameNames.load x s).bind fun a s' => (ih s').bind fun b s' =>
      (SameNames.give _ s').bind fun v s' => .assign x v s'
  | step up x =>
    exact (SameNames.load x s).bind fun a s' => (SameNames.give _ s').bind fun v s' =>
      (SameNames.assign x v s').bind fun _ s' => .ok a

omit [F64 ν] in
lemma State.names_cut {s s' : State ν} (h : s.names <:+ s'.names) : (s'.cut s.scope.length).names = s.names := by
  obtain ⟨xs, e⟩ := h
  have length : s'.scope.length = xs.length + s.scope.length := by
    have lengths := congrArg List.length e
    rw [List.length_append, State.names, State.names, List.length_map, List.length_map] at lengths
    exact lengths.symm
  rw [State.cut, State.names, List.map_drop, ← State.names, ← e, length, Nat.add_sub_cancel, List.drop_left]

/-- The variables are those that were there, unless an error has ended a block before its end. -/
def Restores (s : State ν) {α : Type} (r : Result ν α) : Prop :=
  r.All (fun _ s' => s'.names = s.names) fun s' => s.names <:+ s'.names

/-- Behind a row of statements that ends normally there are the names it declares; before, some of them. -/
def Declares (xs : List Str) (s : State ν) (r : Result ν Ending) : Prop :=
  r.All (fun ending s' => s.names <:+ s'.names ∧ (ending = .normal → s'.names = xs ++ s.names))
    fun s' => s.names <:+ s'.names

section Restores

variable {s : State ν} {α β : Type}

omit [F64 ν]

lemma SameNames.restores {r : Result ν α} (h : SameNames s r) : Restores s r :=
  h.mono (fun _ _ same => same) fun _ same => same ▸ List.suffix_refl _

lemma Restores.bind {r : Result ν α} {f : α → State ν → Result ν β} (h : Restores s r)
    (hf : ∀ a s', Restores s' (f a s')) : Restores s (r.bind f) := by
  refine Result.All.bind h fun a s' same => (hf a s').mono ?_ ?_
  · exact fun _ _ same' => same'.trans same
  · exact fun _ behind => same ▸ behind

lemma Restores.declares {r : Result ν Ending} (h : Restores s r) : Declares [] s r :=
  h.mono (fun _ _ same => ⟨same ▸ List.suffix_refl _, fun _ => same⟩) fun _ behind => behind

lemma Restores.bind_declares {xs : List Str} {r : Result ν α} {f : α → State ν → Result ν Ending}
    (h : Restores s r) (hf : ∀ a s', Declares xs s' (f a s')) : Declares xs s (r.bind f) := by
  refine Result.All.bind h fun a s' same => ?_
  have after := hf a s'
  rw [Declares, same] at after
  exact after

lemma Declares.leave {xs : List Str} {r : Result ν Ending} (h : Declares xs s r) :
    Restores s (leave s.scope.length r) := by
  cases r with
  | ok ending s' => exact State.names_cut h.1
  | error v s' => exact h
  | stuck | timeout => trivial

lemma loop_restores {cond : State ν → Result ν (Value ν)} {body : State ν → Result ν Ending}
    (hc : ∀ s, SameNames s (cond s)) (hb : ∀ s, Restores s (body s)) (turns : Nat) (s : State ν) :
    Restores s (loop cond body turns s) := by
  induction turns generalizing s with
  | zero => trivial
  | succ turns ih =>
    rw [loop]
    refine (hc s).restores.bind fun v s' => ?_
    split
    · refine (hb s').bind fun ending s'' => ?_
      split
      · exact (SameNames.ok _).restores
      · exact ih s''
    · exact (SameNames.ok _).restores

end Restores

lemma exec_declares (fuel : Nat) (top : Bool) (a : Stmt) (s : State ν) :
    Declares (a.declares top) s (exec fuel top a s) := by
  induction a generalizing top s with
  | nil | empty => exact (SameNames.ok _).restores.declares
  | breakLoop | continueLoop => exact ⟨List.suffix_refl _, nofun⟩
  | seq a b iha ihb =>
    refine Result.All.bind (iha top s) fun ending s' h => ?_
    split
    · rename_i normal
      have after := ihb top s'
      rw [Declares, h.2 normal] at after
      refine after.mono (fun _ s'' h'' => ⟨(List.suffix_append _ _).trans h''.1, fun e => ?_⟩) fun _ h'' =>
        (List.suffix_append _ _).trans h''
      rw [h''.2 e, Stmt.declares, List.append_assoc]
    · rename_i early
      exact ⟨h.1, fun e => absurd e early⟩
  | expr e => exact (eval_names e s).restores.bind_declares fun _ _ => (SameNames.ok _).restores.declares
  | declare x e =>
    refine (eval_names e s).restores.bind_declares fun v s' => ?_
    rw [State.declare, Stmt.declares]
    cases top with
    | true => exact ⟨List.suffix_refl _, fun _ => rfl⟩
    | false => exact ⟨List.suffix_cons _ _, fun _ => rfl⟩
  | block b ih => exact (ih false s).leave.declares
  | ifElse c a b iha ihb =>
    refine (eval_names c s).restores.bind_declares fun v s' => ?_
    split
    · exact (iha false s').leave.declares
    · exact (ihb false s').leave.declares
  | whileLoop c b ih => exact (loop_restores (eval_names c) (fun s => (ih false s).leave) fuel s).declares
  | tryCatch b x h ihb ihh =>
    have body := (ihb false s).leave
    rw [exec]
    cases r : leave s.scope.length (exec fuel false b s) with
    | error v s' =>
      rw [r] at body
      -- The handler runs with one variable more than there were.
      have handler := ihh false ((s'.cut s.scope.length).declare false x v)
      have names : ((s'.cut s.scope.length).declare false x v).names = x :: s.names := by
        rw [← State.names_cut body]
        rfl
      rw [Declares, names] at handler
      have behind : Declares (h.declares false ++ [x]) s
          (exec fuel false h ((s'.cut s.scope.length).declare false x v)) := by
        refine handler.mono (fun _ s'' h'' => ⟨(List.suffix_cons _ _).trans h''.1, fun e => ?_⟩) fun _ h'' =>
          (List.suffix_cons _ _).trans h''
        rw [h''.2 e, List.append_assoc, List.singleton_append]
      exact behind.leave.declares
    | ok ending s' =>
      rw [r] at body
      exact body.declares
    | stuck | timeout => trivial
  | throwValue e => exact (eval_names e s).restores.bind_declares fun _ _ => List.suffix_refl _

/-- If it ends, it ends at its end. -/
def Normal (r : Result ν Ending) : Prop := r.All (fun ending _ => ending = .normal) fun _ => True

section Normal

variable {s : State ν} {α : Type}

omit [F64 ν]

lemma Normal.leave {r : Result ν Ending} (h : Normal r) (n : Nat) : Normal (leave n r) := by
  cases r with
  | ok => exact h
  | error | stuck | timeout => trivial

lemma Normal.bind {r : Result ν α} {f : α → State ν → Result ν Ending} (h : ∀ a s, Normal (f a s)) :
    Normal (r.bind f) := by
  cases r with
  | ok a s => exact h a s
  | error | stuck | timeout => trivial

lemma loop_normal {cond : State ν → Result ν (Value ν)} {body : State ν → Result ν Ending} (turns : Nat) (s : State ν) :
    Normal (loop cond body turns s) := by
  induction turns generalizing s with
  | zero => trivial
  | succ turns ih =>
    rw [loop]
    refine .bind fun v s' => ?_
    split
    · refine .bind fun ending s'' => ?_
      split
      · rfl
      · exact ih s''
    · rfl

end Normal

/-- Statements that fit where there is no loop to be left end at their end. -/
lemma exec_normal (fuel : Nat) (top : Bool) {a : Stmt} (fits : a.Fits false) (s : State ν) :
    Normal (exec fuel top a s) := by
  induction a generalizing top s with
  | nil | empty => rfl
  | breakLoop | continueLoop => cases fits
  | seq a b iha ihb =>
    refine Result.All.bind (iha top fits.1 s) fun ending s' normal => ?_
    rw [if_pos normal]
    exact ihb top fits.2 s'
  | expr e => exact .bind fun _ _ => rfl
  | declare x e => exact .bind fun _ _ => rfl
  | block b ih => exact (ih false fits s).leave _
  | ifElse c a b iha ihb =>
    refine .bind fun v s' => Normal.leave ?_ _
    split
    · exact iha false fits.2.1 s'
    · exact ihb false fits.2.2.1 s'
  | whileLoop c b ih => exact loop_normal fuel s
  | tryCatch b x h ihb ihh =>
    have body := (ihb false fits.1 s).leave s.scope.length
    rw [exec]
    cases r : leave s.scope.length (exec fuel false b s) with
    | error v s' => exact (ihh false fits.2 _).leave _
    | ok ending s' =>
      rw [r] at body
      exact body
    | stuck | timeout => trivial
  | throwValue e => exact .bind fun _ _ => trivial

end Names

end Cando.Lang
