import Cando.Parser.CoreStatement
import Cando.Parser.Spelled
import Cando.Vm.CoreProgram

/-!
# The core of the language, from the text to the end of the run

What the lexer, the compiler and the interpreter do together with a text that spells a program of the core.
-/

namespace Cando.Lang

open Program Machine CandoParser

/-! ### Two small programs -/

/-- `VAR n = 1;` -/
def setting : Stmt := .declare (bytes "n") (.number (bytes "1"))

/-- `THROW n;` -/
def throwing : Stmt := .throwValue (.name (bytes "n"))

def settingChunk : Chunk Int where
  code := code .const 0 0 ++ code .defGlobal 1 0 ++ code .halt 0 0
  constants := [.number 1, .string (bytes "n")]

def throwingChunk : Chunk Int where
  code := code .loadGlobal 0 0 ++ code .throw 1 0 ++ code .halt 0 0
  constants := [.string (bytes "n")]

lemma setting_compiled : ScriptOf settingChunk setting :=
  ⟨rfl, Nat.zero_le _, _, .global (.number ⟨rfl, by decide⟩) ⟨rfl, by decide⟩, rfl⟩

lemma throwing_compiled : ScriptOf throwingChunk throwing :=
  ⟨rfl, Nat.zero_le _, _, .throwValue (.name (.global rfl ⟨rfl, by decide⟩)), rfl⟩

lemma setting_fits : setting.Fits false := ⟨by decide, by decide, by decide⟩

lemma name_n : IsName (bytes "n") := ⟨⟨by decide, by decide⟩, by decide⟩

lemma setting_written : ∀ t ∈ setting.lexemes, t.Written := setting.written setting_fits ⟨name_n, trivial⟩

lemma exactNumerals_int : ExactNumerals Int := fun _ _ _ _ same => of_decide_eq_true same

/-! ### Tokens -/

/-- The token as it stands in a source. -/
def lexemeOf (source : Str) (tok : CandoToken) : Lexeme := ⟨tok.type, (source.drop tok.start).take tok.length⟩

lemma upcoming_tokens {ts : List Lexeme} {lex : CandoLexer} (h : Upcoming ts lex) {n : Nat} (enough : ts.length < n) :
    ∃ front eof, tokensFrom n lex = front ++ [eof] ∧ eof.type = .tokEof ∧ front.map (lexemeOf lex.source) = ts := by
  induction ts generalizing lex n with
  | nil =>
    obtain ⟨n, rfl⟩ := Nat.exists_eq_add_of_lt enough
    refine ⟨[], lex.next.1, ?_, h.1, rfl⟩
    rw [tokensFrom, if_pos h.1]
    rfl
  | cons t ts ih =>
    obtain ⟨n, rfl⟩ : ∃ m, n = m + 1 := ⟨n - 1, by omega⟩
    obtain ⟨is, proper, source, more⟩ := h
    obtain ⟨front, eof, tokens, last, same⟩ := ih more (Nat.lt_of_succ_lt_succ enough)
    have other : lex.next.1.type ≠ .tokEof := by
      rw [is.type]
      exact proper.2
    refine ⟨lex.next.1 :: front, eof, ?_, last, ?_⟩
    · rw [tokensFrom, if_neg other, tokens]
      rfl
    · rw [source] at same
      rw [List.map_cons, same, lexemeOf, is.type, is.text]

lemma Spells.length_le {ts : List Lexeme} {s : Str} (h : Spells ts s) : ts.length ≤ s.length := by
  induction h with
  | nil => exact Nat.zero_le _
  | cons _ written _ _ ih =>
    obtain ⟨c, tail, text, -⟩ := written.head
    rw [text, List.length_append, List.length_append, List.length_cons, List.length_cons]
    omega

section Anywhere

variable {ν : Type} [F64 ν] {K : Site ν} {off : Nat} {temps : List (Value ν)} {s : State ν} {vm : VM ν}
  {bs : List UInt8}

/-- A frame that runs the chunk from its beginning. -/
def beginning (chunk : Chunk Int) : VM Int where
  frames := [⟨0, ⟨0, 0⟩, 0, false⟩]
  stack := [.null]
  chunks := [chunk]

lemma at_beginning (chunk : Chunk Int) (narrow : chunk.localCount = 0) :
    (Site.entered 0 { chunks := [chunk] } chunk).At 0 [] {} (beginning chunk) := by
  refine ⟨rfl, ⟨[.null], ⟨[.null], ?_, rfl⟩, rfl⟩, rfl, rfl, rfl, List.nil_prefix, rfl, rfl⟩
  rw [Site.entered, narrow]
  rfl

end Anywhere

/-! ### Scripts -/

variable {ν : Type} [F64 ν] {s : Stmt} {source : Str}

/-- A program that fits into the tables of the compiler and the interpreter, with `more` bytes of code behind it. -/
structure Stmt.Fair (s : Stmt) (more : Nat) : Prop where
  fits : s.Fits false
  slots : s.slots true ≤ localMax
  size : s.size + more ≤ 16384
  loops : s.loops ≤ loopMax
  tries : s.tries ≤ tryMax

/-- An idle interpreter that has room for a frame and so many values. -/
structure Free (vm : VM ν) (need : Nat) : Prop where
  idle : Idle vm
  frames : vm.frameCount < framesMax
  stack : vm.height + localMax + need ≤ stackMax

omit [F64 ν] in
lemma Free.room {vm : VM ν} {chunk : Chunk ν} {need need' more : Nat} (h : Free vm need) (fair : s.Fair more)
    (enough : max s.need need' ≤ need) (narrow : chunk.localCount ≤ localMax)
    (length : chunk.code.length = s.size + more) : Roomy vm.frameCount vm.height chunk s need' := by
  have stack := h.stack
  have one : 1 ≤ localMax := by decide
  exact ⟨h.frames, by omega, fair.loops, fair.tries, length ▸ fair.size⟩

lemma setting_fair : setting.Fair 1 := ⟨setting_fits, by decide, by decide, by decide, by decide⟩

lemma throwing_fair : throwing.Fair 1 := ⟨trivial, by decide, by decide, by decide, by decide⟩

/-- An interpreter that has done nothing so far. -/
lemma free_fresh {need : Nat} (small : need ≤ 1024) : Free ({} : VM Int) need :=
  ⟨⟨rfl, rfl, rfl⟩, by decide, Nat.le_trans (Nat.add_le_add_left small _) (by decide)⟩

/-- Programs for scripts one after another in an interpreter that has room for all of them. -/
structure Together (vm : VM ν) (ps : List (Chunk ν × Stmt)) (need : Nat) : Prop where
  idle : Idle vm
  programs : ∀ p ∈ ps, ScriptOf p.1 p.2 ∧ p.2.Fair 1 ∧ p.2.need ≤ need
  frames : vm.frameCount + ps.length ≤ framesMax
  stack : vm.height + (ps.map fun p => slotsOf p.1).sum + need ≤ stackMax

lemma rooms_of {ps : List (Chunk ν × Stmt)} {need frames height : Nat}
    (programs : ∀ p ∈ ps, ScriptOf p.1 p.2 ∧ p.2.Fair 1 ∧ p.2.need ≤ need) (enough : frames + ps.length ≤ framesMax)
    (stack : height + (ps.map fun p => slotsOf p.1).sum + need ≤ stackMax) : Rooms frames height ps := by
  induction ps generalizing frames height with
  | nil => trivial
  | cons p ps ih =>
    obtain ⟨⟨compiled, fair, less⟩, rest⟩ := List.forall_mem_cons.mp programs
    rw [List.map_cons, List.sum_cons] at stack
    rw [List.length_cons] at enough
    have slots : slotsOf p.1 = max 1 p.1.localCount := rfl
    refine ⟨⟨by omega, by omega, fair.loops, fair.tries, ?_⟩, ih rest (by omega) (by omega)⟩
    rw [compiled.length]
    exact fair.size

lemma Together.comes {ps : List (Chunk ν × Stmt)} {vm : VM ν} {need : Nat} (h : Together vm ps need) (E : Env ν)
    (fuel : Nat) : Comes E fuel (doScripts (ps.map fun p => .compiled p.1) vm)
      (fun ending s r vm' => ending = .normal ∧ r = .ok ∧ Idle vm' ∧ s = { store := vm'.store } ∧
        vm'.frameCount = vm.frameCount + ps.length ∧ vm'.height = vm.height + (ps.map fun p => slotsOf p.1).sum)
      (fun v s r vm' => r = .errRuntime ∧ FailedBy v s vm')
      (exec fuel true (Stmt.all (ps.map Prod.snd)) { store := vm.store }) :=
  session_comes (fun p mem => ⟨(h.programs p mem).1, (h.programs p mem).2.1.fits⟩) h.idle
    (rooms_of h.programs h.frames h.stack)

lemma together_two : Together ({} : VM Int) [(settingChunk, setting), (throwingChunk, throwing)] 1 := by
  refine ⟨⟨rfl, rfl, rfl⟩, ?_, by decide, by decide⟩
  rw [List.forall_mem_cons, List.forall_mem_singleton]
  exact ⟨⟨setting_compiled, setting_fair, by decide⟩, throwing_compiled, throwing_fair, by decide⟩

/-- An interpreter with one frame left. -/
def crowded : VM Int := { frames := List.replicate 255 ⟨0, ⟨0, 0⟩, 0, false⟩ }

end Cando.Lang
