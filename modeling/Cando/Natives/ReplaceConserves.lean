import Cando.Natives.StringSizes

/-!
# Replacing keeps every other byte

What the regex mode of `str_replace` makes of a text, match by match: each search is in what is left of the text, and
the text is its matches and the bytes between them. On texts of moderate length all copies stay in the buffer.
-/

namespace Cando

variable {ρ : Type}

/-- A match: the bytes before it, its own, and the byte that is copied behind a match without length. -/
structure RegexMatch where
  before : Str
  text : Str
  byte : Str
  deriving DecidableEq, Repr

/-- The stretch of the text from one search to the next. -/
def RegexMatch.source (m : RegexMatch) : Str := m.before ++ m.text ++ m.byte

/-- The stretch with the replacement for the match. -/
def RegexMatch.replaced (repl : Str) (m : RegexMatch) : Str := m.before ++ repl ++ m.byte

/-- The matches that successive searches find in a text, each in what is left behind the one before, and what is left in
the end. -/
inductive SuccessiveMatches (lib : RegexLib ρ) (re : ρ) : Str → List RegexMatch → (rest : Str) → Prop where
  | done {p : Str} : lib.regexec re p = none → SuccessiveMatches lib re p [] p
  | last {p : Str} : lib.regexec re p = some (p.length, p.length) → SuccessiveMatches lib re p [⟨p, [], []⟩] []
  | empty {before p rest : Str} {c : UInt8} {ms : List RegexMatch} :
    lib.regexec re (before ++ c :: p) = some (before.length, before.length) → SuccessiveMatches lib re p ms rest →
    SuccessiveMatches lib re (before ++ c :: p) (⟨before, [], [c]⟩ :: ms) rest
  | next {before text p rest : Str} {ms : List RegexMatch} : text ≠ [] →
    lib.regexec re (before ++ text ++ p) = some (before.length, before.length + text.length) →
    SuccessiveMatches lib re p ms rest → SuccessiveMatches lib re (before ++ text ++ p) (⟨before, text, []⟩ :: ms) rest

/-- The text with the replacement for each match. -/
def replacedText (repl : Str) (ms : List RegexMatch) (rest : Str) : Str := ms.flatMap (·.replaced repl) ++ rest

namespace SuccessiveMatches

variable {lib : RegexLib ρ} {re : ρ} {p rest : Str} {ms : List RegexMatch}

/-- The text is its matches and the bytes between them. -/
lemma source_eq (found : SuccessiveMatches lib re p ms rest) : p = ms.flatMap RegexMatch.source ++ rest := by
  induction found with
  | done => rfl
  | last => simp only [List.flatMap_cons, List.flatMap_nil, RegexMatch.source, List.append_nil]
  | @empty before p rest c ms _ _ ih =>
    have stretch : RegexMatch.source ⟨before, [], [c]⟩ = before ++ [c] := by
      rw [RegexMatch.source, List.append_nil]
    rw [List.flatMap_cons, stretch, List.append_assoc, List.append_assoc, ← ih, List.singleton_append]
  | next _ _ _ ih => simp only [List.flatMap_cons, RegexMatch.source, List.append_nil, List.append_assoc, ← ih]

/-- The pieces that the loop writes. -/
lemma replaced (found : SuccessiveMatches lib re p ms rest) :
    RegexReplaced lib re p (ms.map fun m => (m.before, m.byte)) rest := by
  induction found with
  | done none => exact .done none
  | last here => exact .last here
  | @empty before p rest c ms here _ ih =>
    have behind : (before ++ c :: p).drop before.length = c :: p := List.drop_left
    have found := RegexReplaced.empty here behind ih
    rw [List.take_left] at found
    exact found
  | @next before text p rest ms ne here _ ih =>
    have less : before.length < before.length + text.length :=
      Nat.lt_add_of_pos_right (List.length_pos_iff.mpr ne)
    have behind : (before ++ text ++ p).drop (before.length + text.length) = p := by
      rw [← List.length_append, List.drop_left]
    rw [← behind] at ih
    have found := RegexReplaced.next here less ih
    rw [List.append_assoc, List.take_left, ← List.append_assoc] at found
    exact found

/-- The searches come to an end. -/
lemma exists_of_inside (inside : lib.Inside) (re : ρ) (p : Str) : ∃ ms rest, SuccessiveMatches lib re p ms rest := by
  induction size : p.length using Nat.strong_induction_on generalizing p with
  | _ n ih =>
    subst size
    cases here : lib.regexec re p with
    | none => exact ⟨[], p, .done here⟩
    | some m =>
      obtain ⟨so, eo⟩ := m
      obtain ⟨le, within⟩ := inside here
      obtain ⟨before, behind, rfl, rfl⟩ : ∃ before behind, p = before ++ behind ∧ before.length = so :=
        ⟨p.take so, p.drop so, (List.take_append_drop so p).symm, List.length_take_of_le (Nat.le_trans le within)⟩
      rw [List.length_append] at within
      by_cases empty : eo = before.length
      · subst empty
        cases behind with
        | nil =>
          rw [List.append_nil] at here ⊢
          exact ⟨_, [], .last here⟩
        | cons c q =>
          obtain ⟨ms, rest, found⟩ := ih q.length (by simp only [List.length_append, List.length_cons]; omega) q rfl
          exact ⟨_, rest, .empty here found⟩
      · obtain ⟨text, q, rfl, len⟩ : ∃ text q, behind = text ++ q ∧ text.length = eo - before.length :=
          ⟨behind.take (eo - before.length), behind.drop (eo - before.length), (List.take_append_drop _ _).symm,
            List.length_take_of_le (by omega)⟩
        have ne : text ≠ [] := by
          rintro rfl
          rw [List.length_nil] at len
          omega
        have pos := List.length_pos_iff.mpr ne
        rw [← List.append_assoc] at here ⊢
        have ends : eo = before.length + text.length := by omega
        rw [ends] at here
        obtain ⟨ms, rest, found⟩ := ih q.length (by simp only [List.length_append]; omega) q rfl
        exact ⟨_, rest, .next ne here found⟩

end SuccessiveMatches

/-! ### Moderate lengths -/

lemma flatMap_replaced (repl : Str) (ms : List RegexMatch) :
    replacedPieces repl (ms.map fun m => (m.before, m.byte)) = ms.flatMap (·.replaced repl) := by
  rw [replacedPieces, List.flatMap_map]
  rfl

/-- A result of fewer than `2 ^ 31` bytes can be written to the growing buffer. -/
lemma capsFit_of_length {repl : Str} {ps : List (Str × Str)} {cap len : Nat}
    (small : len + (replacedPieces repl ps).length < 2147483648) : CapsFit repl cap len ps := by
  induction ps generalizing cap len with
  | nil => trivial
  | cons x ps ih =>
    obtain ⟨before, byte⟩ := x
    rw [replacedPieces_cons] at small
    simp only [List.length_append] at small
    exact ⟨.inr (by omega), ih (by omega)⟩

section Replace

variable {lib : RegexLib ρ} {re : ρ} {s pat repl : Str}

/-- The regex mode of `string.replace` on a text without a NUL, where the arguments and the result are shorter than
`2 ^ 30` bytes: the loop comes to an end, every copy stays in the buffer, and the result is the text with the
replacement for each match that successive searches find, the bytes between the matches copied once and in order. -/
theorem replace_conserves (inside : lib.Inside) (valid : lib.regcomp (cstr pat) = some re) (nulFree : 0 ∉ s)
    (args : s.length + repl.length < 1073741824) :
    (∃ ms rest, SuccessiveMatches lib re s ms rest) ∧
      ∀ ms rest, SuccessiveMatches lib re s ms rest → (replacedText repl ms rest).length < 1073741824 →
        s = ms.flatMap RegexMatch.source ++ rest ∧
        ∃ buf, strReplaceRegex lib s pat repl = some (.ok (buf, (replacedText repl ms rest).length)) ∧
          buf.Starts (replacedText repl ms rest ++ [0]) := by
  refine ⟨SuccessiveMatches.exists_of_inside inside re s, fun ms rest found small => ⟨found.source_eq, ?_⟩⟩
  have pieces := found.replaced
  have whole : replacedPieces repl (ms.map fun m => (m.before, m.byte)) ++ rest = replacedText repl ms rest := by
    rw [flatMap_replaced]
    rfl
  have cap : replaceCap s repl = s.length * 2 + repl.length * 2 + 1024 := HashTable.u32_eq (by omega)
  obtain ⟨buf₀, stored, size, start⟩ := replaceCap_start cap
  have caps : CapsFit repl buf₀.length ([] : Str).length (ms.map fun m => (m.before, m.byte)) := by
    refine capsFit_of_length ?_
    have le := congrArg List.length whole
    rw [List.length_append] at le
    rw [List.length_nil]
    omega
  obtain ⟨buf₁, loop, holds⟩ := pieces.loop inside start (by omega) (Nat.lt_add_of_pos_right (by decide : 0 < 2)) caps
  rw [List.nil_append, List.length_nil] at loop
  rw [List.nil_append] at holds
  obtain ⟨buf, closed, starts⟩ := holds.closing (show _ + rest.length + 1 < _ by
    have len := congrArg List.length whole
    rw [List.length_append] at len
    omega)
  rw [whole] at closed starts
  refine ⟨buf, ?_, starts⟩
  simp only [strReplaceRegex, valid, stored, cstr_eq nulFree, Option.bind_eq_bind, Option.bind_some, loop, closed]
  rfl

end Replace

/-- `x*` in `axxb`: a match without length before each other byte and at the end. -/
def starMatches : List RegexMatch :=
  [⟨[], [], bytes "a"⟩, ⟨[], bytes "xx", []⟩, ⟨[], [], bytes "b"⟩, ⟨[], [], []⟩]

lemma starMatches_found : SuccessiveMatches smallLib (bytes "x*") (bytes "axxb") starMatches [] := by
  have first : smallLib.regexec (bytes "x*") ([] ++ 97 :: bytes "xxb") = some (0, 0) := by decide
  have second : smallLib.regexec (bytes "x*") ([] ++ bytes "xx" ++ bytes "b") = some (0, 0 + 2) := by decide
  have third : smallLib.regexec (bytes "x*") ([] ++ 98 :: []) = some (0, 0) := by decide
  have last : smallLib.regexec (bytes "x*") [] = some (0, 0) := by decide
  exact .empty first (.next (by decide) second (.empty third (.last last)))

theorem replace_conserves_stars :
    ∃ buf, strReplaceRegex smallLib (bytes "axxb") (bytes "x*") (bytes "-") = some (.ok (buf, 6)) ∧
      buf.Starts (bytes "-a--b-" ++ [0]) := by
  have valid : smallLib.regcomp (cstr (bytes "x*")) = some (bytes "x*") := by decide
  have all := @replace_conserves _ smallLib _ (bytes "axxb") _ (bytes "-") smallLib_inside valid (by decide) (by decide)
  exact (all.2 starMatches [] starMatches_found (by decide)).2

end Cando
