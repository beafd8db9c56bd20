import Cando.Core.Number
import Cando.Natives.RegexReplace
import Cando.Natives.RegexSplit

/-!
# Sizes of texts

The natives of `lib/string.c` and `OP_ADD` compute the sizes of their buffers in 32 bits: the sum of two lengths, a
length times a count, the difference of two ends of a window. None of them looks whether the result is too large.
-/

namespace Cando

variable {ν ρ : Type}

/-- `OP_ADD` of two strings: its buffer, and the length of the result. -/
def concatStrings (a b : Str) : Option (CharBuf × Nat) := do
  let total := u32 (a.length + b.length)
  let buf ← CharBuf.store (List.replicate (u32 (total + 1)) none) 0 a
  let buf ← buf.store a.length b
  let buf ← buf.store total [0]
  some (buf, total)

/-- The loop of `str_repeat`, from the copy `i` on. -/
def repeatLoop (s : Str) : (turns i : Nat) → CharBuf → Option CharBuf
  | 0, _, buf => some buf
  | turns + 1, i, buf => do
    let buf ← buf.store (u32 (i * s.length)) s
    repeatLoop s turns (i + 1) buf

/-- `str_repeat`: the buffer and the length of the result. -/
def strRepeat [F64 ν] (args : List (Value ν)) : Option (CharBuf × Nat) :=
  match argStr args with
  | none => some ([some 0], 0)
  | some s => do
    let n ← F64.toU32 (argNum args 1 (F64.ofInt 0))
    if n = 0 ∨ s.length = 0 then some ([some 0], 0)
    else do
      let total := u32 (s.length * n)
      let buf ← repeatLoop s n 0 (List.replicate (u32 (total + 1)) none)
      let buf ← buf.store total [0]
      some (buf, total)

/-- `regexec` with `MAX_GROUPS` offsets: those of the match, and those of the groups. A group that took no part has
negative ones. -/
structure GroupLib (ρ : Type) extends RegexLib ρ where
  regexecGroups : ρ → Str → Option ((Int × Int) × List (Int × Int))

/-- What POSIX says of the offsets that `regexec` reports. -/
structure GroupLib.Inside (lib : GroupLib ρ) : Prop where
  first : lib.toRegexLib.Inside
  groups : ∀ {re : ρ} {u : Str} {m : Int × Int} {gs : List (Int × Int)}, lib.regexecGroups re u = some (m, gs) →
    ∀ g ∈ m :: gs.takeWhile (0 ≤ ·.1), 0 ≤ g.1 ∧ g.1 ≤ g.2 ∧ g.2 ≤ u.length

/-- The ends of the window of `str_match`. -/
def matchWindow [F64 ν] (args : List (Value ν)) (s : Str) : Option (Nat × Nat) := do
  let start ← F64.toU32 (argNum args 2 (F64.ofInt 0))
  let stop ← F64.toU32 (argNum args 3 (F64.ofInt s.length))
  some (min start s.length, min stop s.length)

/-- The text in the window. A part of the string is copied; behind the string is its NUL. -/
def matchSlice (s : Str) (start stop : Nat) : Option Str :=
  if start = 0 ∧ stop = s.length then some s
  else
    let slen := u32 (stop + 4294967296 - start)
    let text := ((s ++ [0]).drop start).take slen
    if start + slen ≤ s.length + 1 then do
      let buf ← CharBuf.store (List.replicate (u32 (slen + 1)) none) 0 text
      let _ ← buf.store slen [0]
      some text
    else none

/-- The copy of a group. -/
def copyGroup (slice : Str) (m : Int × Int) : Option Str :=
  let mlen := ((m.2 - m.1) % 4294967296).toNat
  if 0 ≤ m.1 ∧ m.1.toNat + mlen ≤ slice.length then some ((slice.drop m.1.toNat).take mlen) else none

/-- `str_match`: whether the pattern matches, and the groups, or the text of its error. -/
def strMatch [F64 ν] (lib : GroupLib ρ) (args : List (Value ν)) : Option (Except Str (Bool × List Str)) :=
  match argStr args, argStr (args.drop 1) with
  | some s, some pat => do
    let (start, stop) ← matchWindow args s
    match lib.regcomp (cstr pat) with
    | none => some (.error (bytes "string.match: invalid regex pattern '" ++ cstr pat ++ bytes "'"))
    | some re => do
      let slice ← matchSlice s start stop
      match lib.regexecGroups re (cstr slice) with
      | none => some (.ok (false, []))
      | some (m, gs) =>
        let groups := gs.takeWhile (0 ≤ ·.1)
        let copied ← (if groups = [] then [m] else groups).mapM (copyGroup slice)
        some (.ok (true, copied))
  | _, _ => some (.ok (false, []))

/-! ### What the sizes should be -/

/-- The operations that compute a size. -/
inductive StringOp (ν : Type) where
  | concat (a b : Str)
  | repeated (args : List (Value ν))
  | replaceLiteral (s pat repl : Str)
  | replaceRegex (s pat repl : Str)
  | window (args : List (Value ν))

/-- The text of a string argument, with its NUL: all of the buffer. -/
def closed (text : Str) : CharBuf × Nat := ((text ++ [0]).map some, text.length)

/-- The literal mode of `str_replace`: all matches are inside the text, and the result has the length of the parts
joined with the replacement, its buffer one byte more. -/
def ReplaceLiteralSized (s pat repl : Str) : Prop :=
  ∃ buf, strReplaceLiteral s pat repl = some buf ∧ (pat ≠ [] → ∃ ps count, CutsAt pat s ps ∧
    countLoop pat (s.length + 2) s 0 = some count ∧ buf.length = (repl.intercalate ps).length ∧
    (count ≠ 0 → u32 (newLen s pat repl count + 1) = (repl.intercalate ps).length + 1))

/-- `str_match`: the window has the length that its ends say, and what is copied lies inside. -/
def MatchSized [F64 ν] (lib : GroupLib ρ) (args : List (Value ν)) : Prop :=
  ∃ r, strMatch lib args = some r ∧ ∀ s pat, argStr args = some s → argStr (args.drop 1) = some pat →
    lib.regcomp (cstr pat) ≠ none → ∃ start stop slice, matchWindow args s = some (start, stop) ∧
      matchSlice s start stop = some slice ∧ slice.length + start = stop

/-- The sizes are those of the texts: what is allocated is the length of the result and one byte, and what is copied
stays inside. -/
def StringOp.Sized [F64 ν] (lib : GroupLib ρ) : StringOp ν → Prop
  | .concat a b => concatStrings a b = some (closed (a ++ b))
  | .repeated args => ∃ text, strRepeat args = some (closed text) ∧ ∀ s ∈ argStr args, ∃ n,
      F64.toU32 (argNum args 1 (F64.ofInt 0)) = some n ∧ text = (List.replicate n s).flatten
  | .replaceLiteral s pat repl => ReplaceLiteralSized s pat repl
  | .replaceRegex s pat repl => RegexReplaceSized lib.toRegexLib s pat repl
  | .window args => MatchSized lib args

/-- What fits: the result and its NUL are shorter than `2 ^ 32` bytes, and numbers are converted that C can convert;
besides, no match of `strstr` comes out of the text, the growing buffer of the regex mode keeps below `2 ^ 32` bytes,
and a window does not end before it starts. -/
def StringOp.Fits [F64 ν] (lib : GroupLib ρ) : StringOp ν → Prop
  | .concat a b => a.length + b.length + 1 < 4294967296
  | .repeated args => ∀ s ∈ argStr args, ∃ n, F64.toU32 (argNum args 1 (F64.ofInt 0)) = some n ∧
      s.length * n + 1 < 4294967296
  | .replaceLiteral s pat repl => pat ≠ [] → ∃ ps, CutsAt pat s ps ∧
      (2 ≤ ps.length → (repl.intercalate ps).length + 1 < 4294967296)
  | .replaceRegex s pat repl => RegexReplaceFits lib.toRegexLib s pat repl
  | .window args => ∀ s pat, argStr args = some s → argStr (args.drop 1) = some pat → ∃ start stop,
      matchWindow args s = some (start, stop) ∧ (lib.regcomp (cstr pat) ≠ none → start ≤ stop)

/-- The strings of an operation. -/
def StringOp.strings : StringOp ν → List Str
  | .concat a b => [a, b]
  | .repeated args => (argStr args).toList
  | .replaceLiteral s pat repl => [s, pat, repl]
  | .replaceRegex s pat repl => [s, pat, repl]
  | .window args => (argStr args).toList

/-- The length of a `CandoString` is of 32 bits. -/
def StringOp.Valid (op : StringOp ν) : Prop := ∀ s ∈ op.strings, s.length < 4294967296

/-! ### Buffers of the right size -/

variable {buf : CharBuf} {a b s w pat repl : Str}

lemma closed_length {text : Str} : (closed text).1.length = text.length + 1 := by
  simp only [closed, List.length_map, List.length_append, List.length_singleton]

/-- A text that fills its buffer is all of it. -/
lemma CharBuf.Starts.eq (h : buf.Starts w) (full : buf.length ≤ w.length) : buf = w.map some := by
  refine (List.IsPrefix.eq_of_length_le h ?_).symm
  rwa [List.length_map]

lemma concatStrings_iff : concatStrings a b = some (closed (a ++ b)) ↔ a.length + b.length + 1 < 4294967296 := by
  constructor
  · intro run
    obtain ⟨buf₁, stored₁, run⟩ := Option.bind_eq_some_iff.mp run
    obtain ⟨buf₂, stored₂, run⟩ := Option.bind_eq_some_iff.mp run
    obtain ⟨buf₃, stored₃, e⟩ := Option.bind_eq_some_iff.mp run
    have size := congrArg (fun r => r.1.length) (Option.some.inj e)
    rw [closed_length, (CharBuf.store_length stored₃).1, (CharBuf.store_length stored₂).1,
      (CharBuf.store_length stored₁).1, List.length_replicate, List.length_append] at size
    rw [← size]
    exact Nat.mod_lt _ (by decide)
  · intro fits
    have total : u32 (a.length + b.length) = a.length + b.length := HashTable.u32_eq (by omega)
    have size : u32 (a.length + b.length + 1) = a.length + b.length + 1 := HashTable.u32_eq fits
    have start : CharBuf.Starts (List.replicate (a.length + b.length + 1) none) [] := List.nil_prefix
    obtain ⟨buf₁, stored₁, len₁, starts₁⟩ := start.store (show ([] : Str).length + a.length ≤ _ by
      rw [List.length_replicate, List.length_nil]
      omega)
    rw [List.length_replicate] at len₁
    obtain ⟨buf₂, stored₂, len₂, starts₂⟩ := starts₁.store (show ([] ++ a).length + b.length ≤ _ by
      rw [len₁, List.nil_append]
      omega)
    obtain ⟨buf₃, stored₃, len₃, starts₃⟩ := starts₂.store (show ([] ++ a ++ b).length + ([0] : Str).length ≤ _ by
      rw [len₂, len₁, List.nil_append, List.length_append, List.length_singleton])
    rw [List.nil_append] at stored₂ starts₃ stored₃
    rw [List.length_append] at stored₃
    have whole := starts₃.eq (by simp [len₃, len₂, len₁, Nat.add_assoc])
    rw [concatStrings, total, size]
    rw [List.length_nil] at stored₁
    simp only [Option.bind_eq_bind, stored₁, stored₂, stored₃, Option.bind_some, whole, closed, List.length_append]

/-! ### Repeating -/

lemma flatten_replicate_length (n : Nat) (s : Str) : (List.replicate n s).flatten.length = n * s.length := by
  rw [List.length_flatten, List.map_replicate, List.sum_replicate_nat]

lemma repeatLoop_spec {turns i : Nat} (fits : (i + turns) * s.length ≤ buf.length) (small : buf.length < 4294967296)
    (h : buf.Starts (List.replicate i s).flatten) :
    ∃ buf', repeatLoop s turns i buf = some buf' ∧ buf'.length = buf.length ∧
      buf'.Starts (List.replicate (i + turns) s).flatten := by
  induction turns generalizing i buf with
  | zero => exact ⟨buf, rfl, rfl, h⟩
  | succ turns ih =>
    have next : (i + 1) * s.length ≤ (i + (turns + 1)) * s.length := Nat.mul_le_mul_right _ (by omega)
    rw [Nat.add_mul, Nat.one_mul] at next
    have here : u32 (i * s.length) = (List.replicate i s).flatten.length := by
      rw [flatten_replicate_length]
      exact HashTable.u32_eq (by omega)
    have room : (List.replicate i s).flatten.length + s.length ≤ buf.length := by
      rw [flatten_replicate_length]
      omega
    obtain ⟨buf₁, stored, len, starts⟩ := h.store room
    have more : (List.replicate i s).flatten ++ s = (List.replicate (i + 1) s).flatten := by
      rw [List.replicate_succ', List.flatten_append, List.flatten_singleton]
    rw [more] at starts
    have shift : i + (turns + 1) = i + 1 + turns := by omega
    rw [shift] at fits ⊢
    obtain ⟨buf', loop, len', starts'⟩ := ih (by rwa [len]) (by rwa [len]) starts
    refine ⟨buf', ?_, len'.trans len, starts'⟩
    rw [repeatLoop, here, stored, ← loop]
    rfl

lemma repeatLoop_length {turns i : Nat} {buf' : CharBuf} (run : repeatLoop s turns i buf = some buf') :
    buf'.length = buf.length := by
  induction turns generalizing i buf with
  | zero =>
    cases run
    rfl
  | succ turns ih =>
    obtain ⟨buf₁, stored, run⟩ := Option.bind_eq_some_iff.mp run
    exact (ih run).trans (CharBuf.store_length stored).1

variable {lib : GroupLib ρ}

lemma strRepeat_iff [F64 ν] (lib : GroupLib ρ) (args : List (Value ν)) :
    (StringOp.repeated args).Sized lib ↔ (StringOp.repeated args).Fits lib := by
  cases str : argStr args with
  | none =>
    refine iff_of_true ⟨[], ?_, fun s mem => ?_⟩ fun s mem => ?_
    · simp only [strRepeat, str]
      rfl
    · rw [str] at mem
      cases mem
    · rw [str] at mem
      cases mem
  | some s =>
    constructor
    · rintro ⟨text, run, whole⟩ s' mem
      obtain ⟨n, count, rfl⟩ := whole s' mem
      cases str.symm.trans mem
      refine ⟨n, count, ?_⟩
      simp only [strRepeat, str, count, Option.bind_eq_bind, Option.bind_some] at run
      split at run
      · rename_i none
        rcases none with none | none <;> rw [none] <;> simp
      · obtain ⟨buf₁, loop, run⟩ := Option.bind_eq_some_iff.mp run
        obtain ⟨buf₂, stored, e⟩ := Option.bind_eq_some_iff.mp run
        have size := congrArg (fun r => r.1.length) (Option.some.inj e)
        rw [closed_length, (CharBuf.store_length stored).1, repeatLoop_length loop, List.length_replicate,
          flatten_replicate_length] at size
        rw [Nat.mul_comm, ← size]
        exact Nat.mod_lt _ (by decide)
    · intro fits
      obtain ⟨n, count, small⟩ := fits s str
      refine ⟨(List.replicate n s).flatten, ?_, fun s' mem => ⟨n, count, ?_⟩⟩
      · simp only [strRepeat, str, count, Option.bind_eq_bind, Option.bind_some]
        split
        · rename_i none
          rcases none with rfl | none
          · rfl
          · rw [List.eq_nil_of_length_eq_zero none, List.flatten_replicate_nil]
            rfl
        · have total : u32 (s.length * n) = n * s.length := by
            rw [HashTable.u32_eq (by omega), Nat.mul_comm]
          rw [Nat.mul_comm] at small
          rw [total, HashTable.u32_eq small]
          have start : CharBuf.Starts (List.replicate (n * s.length + 1) none) (List.replicate 0 s).flatten :=
            List.nil_prefix
          have room : (0 + n) * s.length ≤ (List.replicate (n * s.length + 1) (none : Option UInt8)).length := by
            rw [Nat.zero_add, List.length_replicate]
            exact Nat.le_succ _
          obtain ⟨buf₁, loop, len₁, starts₁⟩ := repeatLoop_spec room (by rwa [List.length_replicate]) start
          rw [Nat.zero_add] at starts₁
          obtain ⟨buf₂, stored, len₂, starts₂⟩ := starts₁.store
            (show (List.replicate n s).flatten.length + ([0] : Str).length ≤ _ by
              rw [len₁, flatten_replicate_length, List.length_replicate, List.length_singleton])
          have whole := starts₂.eq (by simp [len₂, len₁])
          rw [flatten_replicate_length] at stored
          rw [loop, Option.bind_some, stored, Option.bind_some, whole, closed, flatten_replicate_length]
      · cases str.symm.trans mem
        rfl

/-! ### Replacing -/

lemma CutsAt.join_length (cuts : CutsAt pat s ps) (one : ps.length = 1) :
    (repl.intercalate ps).length = s.length := by
  cases cuts with
  | last => rw [List.intercalate_singleton]
  | next _ _ rest =>
    have more := List.length_pos_iff.mpr rest.ne_nil
    rw [List.length_cons] at one
    omega

lemma writtenParts_length {ps : List Str} (more : ps ≠ []) :
    (writtenParts repl ps).length ≤ (repl.intercalate ps).length + 1 := by
  obtain ⟨before, join, written⟩ := exists_writtenParts repl more
  have le := (cstr_front (ps.getLast more)).length_le
  rw [join, written]
  simp only [List.length_append, List.length_singleton]
  omega

lemma replaceLiteralSized_iff (short : s.length < 4294967296) : ReplaceLiteralSized s pat repl ↔
    (pat ≠ [] → ∃ ps, CutsAt pat s ps ∧ (2 ≤ ps.length → (repl.intercalate ps).length + 1 < 4294967296)) := by
  by_cases empty : pat = []
  · subst empty
    exact iff_of_true ⟨s.map some, rfl, fun more => absurd rfl more⟩ fun more => absurd rfl more
  have pos : ¬ pat.length = 0 := Nat.ne_of_gt (List.length_pos_iff.mpr empty)
  have counted : ∀ {ps}, CutsAt pat s ps → countLoop pat (s.length + 2) s 0 = some (ps.length - 1) := by
    intro ps cuts
    have count : countLoop pat (s.length + 2) s 0 = some (0 + (ps.length - 1)) :=
      cuts.countLoop empty (by omega) (by omega)
    rwa [Nat.zero_add] at count
  constructor
  · rintro ⟨buf, -, whole⟩ -
    obtain ⟨ps, count, cuts, count', -, size⟩ := whole empty
    cases (counted cuts).symm.trans count'
    refine ⟨ps, cuts, fun many => ?_⟩
    rw [← size (by omega)]
    exact Nat.mod_lt _ (by decide)
  · intro fits
    obtain ⟨ps, cuts, small⟩ := fits empty
    have count := counted cuts
    have more := List.length_pos_iff.mpr cuts.ne_nil
    by_cases one : ps.length - 1 = 0
    · refine ⟨s.map some, ?_, fun _ => ⟨ps, _, cuts, count, ?_, fun ne => absurd one ne⟩⟩
      · simp [strReplaceLiteral, empty, count, one]
      · rw [cuts.join_length (by omega), List.length_map]
    · have fits := small (by omega)
      have total : newLen s pat repl (ps.length - 1) = (repl.intercalate ps).length := by
        rw [cuts.newLen]
        exact HashTable.u32_eq (by omega)
      have room : (writtenParts repl ps).length ≤ (List.replicate ((repl.intercalate ps).length + 1)
          (none : Option UInt8)).length := by
        rw [List.length_replicate]
        exact writtenParts_length cuts.ne_nil
      obtain ⟨buf, stored, len, -⟩ := CharBuf.Starts.store (w := []) List.nil_prefix
        (show ([] : Str).length + (writtenParts repl ps).length ≤ _ by rwa [List.length_nil, Nat.zero_add])
      rw [List.length_replicate] at len
      have copied : copyLoop pat repl (s.length + 2) s 0
          (List.replicate ((repl.intercalate ps).length + 1) none) = some buf :=
        (cuts.copyLoop empty short (by omega) 0 _).trans stored
      refine ⟨buf.take (repl.intercalate ps).length, ?_, fun _ => ⟨ps, _, cuts, count, ?_, fun _ => ?_⟩⟩
      · simp only [strReplaceLiteral, if_neg pos, count, Option.bind_eq_bind, Option.bind_some, if_neg one, total,
          HashTable.u32_eq fits, copied]
        rw [if_pos (by omega)]
      · rw [List.length_take_of_le (by omega)]
      · rw [total, HashTable.u32_eq fits]

/-! ### Windows -/

lemma matchSlice_some {start stop : Nat} (le : start ≤ stop) (inside : stop ≤ s.length)
    (short : s.length < 4294967296) : ∃ slice, matchSlice s start stop = some slice ∧ slice.length + start = stop := by
  rw [matchSlice]
  by_cases whole : start = 0 ∧ stop = s.length
  · rw [if_pos whole]
    exact ⟨s, rfl, by omega⟩
  have slen : u32 (stop + 4294967296 - start) = stop - start := by
    rw [u32]
    omega
  have text : (((s ++ [0]).drop start).take (stop - start)).length = stop - start := by
    rw [List.length_take, List.length_drop, List.length_append, List.length_singleton]
    omega
  have first : CharBuf.Starts (List.replicate (stop - start + 1) none) [] := List.nil_prefix
  obtain ⟨buf₁, stored₁, len₁, starts₁⟩ := first.store
    (show ([] : Str).length + (((s ++ [0]).drop start).take (stop - start)).length ≤ _ by
      rw [text, List.length_replicate, List.length_nil]
      omega)
  rw [List.length_replicate] at len₁
  obtain ⟨buf₂, stored₂, -⟩ := starts₁.store
    (show ([] ++ ((s ++ [0]).drop start).take (stop - start)).length + ([0] : Str).length ≤ _ by
      rw [List.nil_append, text, len₁, List.length_singleton])
  rw [List.nil_append, text] at stored₂
  rw [List.length_nil] at stored₁
  rw [if_neg whole]
  simp only [slen]
  rw [HashTable.u32_eq (by omega), if_pos (by omega)]
  refine ⟨((s ++ [0]).drop start).take (stop - start), ?_, by rw [text]; omega⟩
  simp only [Option.bind_eq_bind, stored₁, stored₂, Option.bind_some]

lemma copyGroup_some {slice u : Str} {g : Int × Int} (le : u.length ≤ slice.length) (short : slice.length < 4294967296)
    (inside : 0 ≤ g.1 ∧ g.1 ≤ g.2 ∧ g.2 ≤ u.length) : ∃ t, copyGroup slice g = some t := by
  obtain ⟨nonneg, up, last⟩ := inside
  refine ⟨_, if_pos ⟨nonneg, ?_⟩⟩
  omega

lemma exists_mapM {α β : Type} {f : α → Option β} {l : List α} (h : ∀ a ∈ l, ∃ b, f a = some b) :
    ∃ r, l.mapM f = some r := by
  induction l with
  | nil => exact ⟨[], rfl⟩
  | cons a l ih =>
    obtain ⟨b, first⟩ := h a List.mem_cons_self
    obtain ⟨r, rest⟩ := ih fun a mem => h a (List.mem_cons_of_mem _ mem)
    exact ⟨b :: r, by simp [first, rest]⟩

lemma matchWindow_le [F64 ν] {args : List (Value ν)} {start stop : Nat}
    (window : matchWindow args s = some (start, stop)) : stop ≤ s.length := by
  obtain ⟨start', -, window⟩ := Option.bind_eq_some_iff.mp window
  obtain ⟨stop', -, e⟩ := Option.bind_eq_some_iff.mp window
  cases e
  exact Nat.min_le_right _ _

lemma matchSized_iff [F64 ν] (inside : lib.Inside) {args : List (Value ν)}
    (short : ∀ s ∈ argStr args, s.length < 4294967296) :
    MatchSized lib args ↔ (StringOp.window args).Fits lib := by
  constructor
  · rintro ⟨r, run, whole⟩ s pat str str'
    simp only [strMatch, str, str'] at run
    obtain ⟨⟨start, stop⟩, window, -⟩ := Option.bind_eq_some_iff.mp run
    refine ⟨start, stop, window, fun valid => ?_⟩
    obtain ⟨start', stop', slice, window', -, size⟩ := whole s pat str str' valid
    cases window.symm.trans window'
    exact size ▸ Nat.le_add_left start _
  · intro fits
    cases str : argStr args with
    | none =>
      refine ⟨.ok (false, []), ?_, fun s pat str' => ?_⟩
      · simp only [strMatch, str]
      · cases str.symm.trans str'
    | some s =>
      cases str' : argStr (args.drop 1) with
      | none =>
        refine ⟨.ok (false, []), ?_, fun s pat _ str'' => ?_⟩
        · simp only [strMatch, str, str']
        · cases str'.symm.trans str''
      | some pat =>
        obtain ⟨start, stop, window, le⟩ := fits s pat str str'
        cases valid : lib.regcomp (cstr pat) with
        | none =>
          have refused : strMatch lib args =
              some (.error (bytes "string.match: invalid regex pattern '" ++ cstr pat ++ bytes "'")) := by
            simp only [strMatch, str, str', window, valid, Option.bind_eq_bind, Option.bind_some]
          refine ⟨_, refused, fun s' pat' _ str'' valid' => ?_⟩
          · cases str'.symm.trans str''
            exact absurd valid valid'
        | some re =>
          have right := matchWindow_le window
          have up := le (by rw [valid]; exact Option.some_ne_none re)
          obtain ⟨slice, cut, size⟩ := matchSlice_some up right (short s str)
          have small := short s str
          have front := (cstr_front slice).length_le
          have copied : ∀ m gs, lib.regexecGroups re (cstr slice) = some (m, gs) →
              ∃ copied, (if gs.takeWhile (0 ≤ ·.1) = [] then [m] else gs.takeWhile (0 ≤ ·.1)).mapM (copyGroup slice) =
                some copied := by
            intro m gs found
            refine exists_mapM fun g mem => copyGroup_some front (by omega) (inside.groups found g ?_)
            split at mem
            · exact List.mem_singleton.mp mem ▸ List.mem_cons_self
            · exact List.mem_cons_of_mem _ mem
          have ran : ∃ r, strMatch lib args = some r := by
            simp only [strMatch, str, str', window, valid, cut, Option.bind_eq_bind, Option.bind_some]
            cases found : lib.regexecGroups re (cstr slice) with
            | none => exact ⟨_, rfl⟩
            | some r =>
              obtain ⟨t, all⟩ := copied r.1 r.2 found
              simp only [all, Option.bind_some]
              exact ⟨_, rfl⟩
          obtain ⟨r, run⟩ := ran
          refine ⟨r, run, fun s' pat' again again' _ => ?_⟩
          cases str.symm.trans again
          exact ⟨start, stop, slice, window, cut, size⟩

/-- The sizes that an operation computes are right exactly if what it is given fits. -/
theorem string_sizes_iff [F64 ν] (lib : GroupLib ρ) (inside : lib.Inside) (op : StringOp ν) (valid : op.Valid) :
    op.Sized lib ↔ op.Fits lib := by
  cases op with
  | concat a b => exact concatStrings_iff
  | repeated args => exact strRepeat_iff lib args
  | replaceLiteral s pat repl => exact replaceLiteralSized_iff (valid s List.mem_cons_self)
  | replaceRegex s pat repl => exact regexReplaceSized_iff inside.first (valid s List.mem_cons_self)
  | window args => exact matchSized_iff inside fun s mem => valid s (Option.mem_toList.mpr mem)

/-- The patterns of `smallLib` have no groups. -/
def smallGroupLib : GroupLib Str where
  toRegexLib := smallLib
  regexecGroups re u := (smallLib.regexec re u).map fun r => ((r.1, r.2), [])

lemma smallLib_inside : smallLib.Inside := by
  intro re u so eo found
  simp only [smallLib] at found
  split at found
  · cases found
    exact ⟨Nat.zero_le _, (List.takeWhile_prefix _).length_le⟩
  · obtain ⟨⟨x, y⟩, first, e⟩ := Option.map_eq_some_iff.mp found
    cases e
    have size := congrArg List.length (Cut.around_some first)
    simp only [List.length_append] at size
    exact ⟨Nat.le_add_right _ _, by simp only; omega⟩

lemma smallGroupLib_inside : smallGroupLib.Inside where
  first := smallLib_inside
  groups := by
    intro re u m gs found g mem
    obtain ⟨⟨so, eo⟩, here, e⟩ := Option.map_eq_some_iff.mp found
    cases e
    obtain rfl := List.mem_singleton.mp mem
    obtain ⟨le, last⟩ := smallLib_inside here
    exact ⟨Int.natCast_nonneg so, by simpa using le, by simpa using last⟩

theorem string_sizes_repeat :
    (StringOp.repeated [.string (bytes "ab"), .number (3 : Int)]).Sized smallGroupLib := by
  refine (string_sizes_iff smallGroupLib smallGroupLib_inside _ ?_).mpr ?_
  · intro s mem
    obtain rfl := Option.some.inj (Option.mem_toList.mp mem)
    decide
  · intro s mem
    obtain rfl := Option.some.inj mem
    exact ⟨3, rfl, by decide⟩

/-- In the window of `ab` from 1 to 0 no text is of the length that the window has. -/
theorem string_match_reversed : ¬ (StringOp.window [.string (bytes "ab"), .string (bytes "a"), .number (1 : Int),
    .number 0]).Sized smallGroupLib := by
  rintro ⟨r, -, whole⟩
  obtain ⟨start, stop, slice, window, -, size⟩ := whole (bytes "ab") (bytes "a") rfl rfl (by decide +kernel)
  have ends : matchWindow [.string (bytes "ab"), .string (bytes "a"), .number (1 : Int), .number 0] (bytes "ab") =
      some (1, 0) := by decide
  cases ends.symm.trans window
  exact absurd size (Nat.succ_ne_zero _)

end Cando
