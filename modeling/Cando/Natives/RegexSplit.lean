import Cando.Natives.StringSplit

/-!
# Splitting text at a regular expression

`string.split` in regex mode (`lib/string.c`). After a match without length the loop passes over a byte, which no part
gets, and behind a match at the end of the text it does not turn once more. So it loses bytes, and differs from the
literal mode in its last part.
-/

namespace Cando

variable {ν ρ : Type} {lib : RegexLib ρ} {re : ρ} {s u v x pat : Str} {ps : List Str} {turns : Nat}

/-- The characters of an extended regular expression that do not stand for themselves. -/
def metacharacters : Str := bytes ".[\\()*+?\x7b|^$"

/-- A pattern without metacharacters. As a C string it has no NUL. -/
def LiteralPattern (pat : Str) : Prop := ∀ b ∈ pat, b ≠ 0 ∧ b ∉ metacharacters

instance : Decidable (LiteralPattern pat) := inferInstanceAs (Decidable (∀ b ∈ pat, b ≠ 0 ∧ b ∉ metacharacters))

/-- What POSIX says of the library, where `matches pat u so eo` stands for: in the text `u` the bytes from `so` to
`eo` match. A match that is reported is the longest of the leftmost ones, and a pattern without metacharacters matches
where it occurs. -/
structure RegexLib.LeftmostLongest (lib : RegexLib ρ) (isMatch : Str → Str → Nat → Nat → Prop) : Prop where
  inside : ∀ {pat u so eo}, isMatch pat u so eo → so ≤ eo ∧ eo ≤ u.length
  reported : ∀ {pat re u so eo}, lib.regcomp pat = some re → lib.regexec re u = some (so, eo) →
    isMatch pat u so eo ∧ ∀ so' eo', isMatch pat u so' eo' → so ≤ so' ∧ (so' = so → eo' ≤ eo)
  refused : ∀ {pat re u}, lib.regcomp pat = some re → lib.regexec re u = none → ∀ so eo, ¬ isMatch pat u so eo
  literal : ∀ {pat u so eo}, LiteralPattern pat →
    (isMatch pat u so eo ↔ ∃ x y, u = x ++ pat ++ y ∧ so = x.length ∧ eo = x.length + pat.length)

/-- From `u` on, no match without length is reported but at the end of the text. -/
inductive NoEmptyMatch (lib : RegexLib ρ) (re : ρ) : (u : Str) → Prop where
  | stop : NoEmptyMatch lib re []
  | rest {u : Str} : u ≠ [] → lib.regexec re u = none → NoEmptyMatch lib re u
  | next {u : Str} {so eo : Nat} : u ≠ [] → lib.regexec re u = some (so, eo) → so < eo →
    NoEmptyMatch lib re (u.drop eo) → NoEmptyMatch lib re u
  | last {u : Str} : u ≠ [] → lib.regexec re u = some (u.length, u.length) → NoEmptyMatch lib re u

/-- The parts that `str_split` finds in regex mode, each with the match at its end. -/
def regexParts (lib : RegexLib ρ) (re : ρ) (s pat : Str) : Option (List (Str × Str)) :=
  if pat.length = 0 then some [(s, [])] else regexSplitLoop lib re (s.length + 2) (cstr s)

/-- The parts with the matches between them. -/
def interleave (parts : List (Str × Str)) : Str := parts.flatMap fun p => p.1 ++ p.2

/-- What the regex mode is for: with the matches between them the parts are the text, and a pattern without
metacharacters gives the parts of the literal mode. -/
def SplitsByRegex (lib : RegexLib ρ) (re : ρ) (s pat : Str) : Prop :=
  ∃ parts, regexParts lib re s pat = some parts ∧
    strSplit lib [(.string s : Value ν), .string pat] = some (.ok (parts.map (·.1))) ∧ interleave parts = s ∧
    (LiteralPattern pat →
      strSplit lib [(.string s : Value ν), .string pat, .bool true] = some (.ok (parts.map (·.1))))

/-! ### One turn -/

lemma regexSplitLoop_stop (turns : Nat) : regexSplitLoop lib re (turns + 1) [] = some [] := by
  rw [regexSplitLoop, if_pos rfl]

lemma regexSplitLoop_rest (more : u ≠ []) (none : lib.regexec re u = none) (short : u.length < 4294967296)
    (turns : Nat) : regexSplitLoop lib re (turns + 1) u = some [(u, [])] := by
  simp [regexSplitLoop, more, none, HashTable.u32_eq short]

variable {so eo : Nat}

lemma regexSplitLoop_next (more : u ≠ []) (found : lib.regexec re u = some (so, eo)) (less : so < eo)
    (le : eo ≤ u.length) (short : u.length < 4294967296) (turns : Nat) : regexSplitLoop lib re (turns + 1) u =
      (regexSplitLoop lib re turns (u.drop eo)).map ((u.take so, (u.drop so).take (eo - so)) :: ·) := by
  have size : u32 so = so := HashTable.u32_eq (by omega)
  have moved : advance u eo = some (u.drop eo) := if_pos le
  simp [regexSplitLoop, more, found, size, moved, Nat.ne_of_gt less]

lemma regexSplitLoop_end (more : u ≠ []) (found : lib.regexec re u = some (u.length, u.length))
    (short : u.length < 4294967296) (turns : Nat) : regexSplitLoop lib re (turns + 1) u = some [(u, [])] := by
  have size : u32 u.length = u.length := HashTable.u32_eq short
  have moved : advance u u.length = some [] := by rw [advance, if_pos (Nat.le_refl _), List.drop_length]
  simp [regexSplitLoop, more, found, size, moved]

lemma regexSplitLoop_pass {b : UInt8} {rest : Str} (found : lib.regexec re u = some (so, so))
    (behind : u.drop so = b :: rest) (short : u.length < 4294967296) (turns : Nat) :
    regexSplitLoop lib re (turns + 1) u = (regexSplitLoop lib re turns rest).map ((u.take so, []) :: ·) := by
  have shorter := congrArg List.length behind
  rw [List.length_drop, List.length_cons] at shorter
  have more : u ≠ [] := by
    rintro rfl
    exact absurd shorter (by simp)
  have size : u32 so = so := HashTable.u32_eq (by omega)
  have moved : advance u so = some (b :: rest) := by rw [advance, if_pos (by omega), behind]
  simp [regexSplitLoop, more, found, size, moved]

/-! ### The loop -/

/-- The loop ends. With the matches between them the parts are the text, unless a byte was passed over. -/
lemma regexSplitLoop_spec (within : ∀ {u so eo}, lib.regexec re u = some (so, eo) → so ≤ eo ∧ eo ≤ u.length)
    (short : u.length < 4294967296) (enough : u.length < turns) : ∃ parts,
      regexSplitLoop lib re turns u = some parts ∧ (interleave parts).length ≤ u.length ∧
      (interleave parts = u ↔ NoEmptyMatch lib re u) := by
  induction turns generalizing u with
  | zero => exact absurd enough (Nat.not_lt_zero _)
  | succ turns ih =>
    by_cases more : u = []
    · subst more
      exact ⟨[], regexSplitLoop_stop turns, Nat.le_refl _, iff_of_true rfl .stop⟩
    cases found : lib.regexec re u with
    | none =>
      refine ⟨[(u, [])], regexSplitLoop_rest more found short turns, ?_, iff_of_true ?_ (.rest more found)⟩ <;>
        simp [interleave]
    | some r =>
      obtain ⟨so, eo⟩ := r
      obtain ⟨le, inside⟩ := within found
      obtain less | rfl := Nat.lt_or_eq_of_le le
      · -- a match with a length
        have shorter : (u.drop eo).length = u.length - eo := List.length_drop
        obtain ⟨parts, loop, size, same⟩ := ih (u := u.drop eo) (by omega) (by omega)
        have front : u.take so ++ (u.drop so).take (eo - so) = u.take eo := by
          rw [← List.take_add, Nat.add_sub_cancel' le]
        have all : interleave ((u.take so, (u.drop so).take (eo - so)) :: parts) = u.take eo ++ interleave parts := by
          rw [interleave, List.flatMap_cons, front]
          rfl
        refine ⟨(u.take so, (u.drop so).take (eo - so)) :: parts, ?_, ?_, ?_⟩
        · rw [regexSplitLoop_next more found less inside short, loop]
          rfl
        · rw [all, List.length_append, List.length_take]
          omega
        · rw [all]
          constructor
          · intro whole
            refine .next more found less (same.mp ?_)
            nth_rewrite 2 [← List.take_append_drop eo u] at whole
            exact List.append_cancel_left whole
          · intro clean
            cases clean with
            | stop => exact absurd rfl more
            | rest _ none => cases none.symm.trans found
            | next _ again _ rest =>
              cases again.symm.trans found
              rw [same.mpr rest, List.take_append_drop]
            | last _ again =>
              cases again.symm.trans found
              exact absurd less (Nat.lt_irrefl _)
      · -- a match without length
        cases behind : u.drop so with
        | nil =>
          have full : so = u.length := Nat.le_antisymm inside (List.drop_eq_nil_iff.mp behind)
          subst full
          refine ⟨[(u, [])], regexSplitLoop_end more found short turns, ?_, iff_of_true ?_ (.last more found)⟩ <;>
            simp [interleave]
        | cons b rest =>
          have shorter := congrArg List.length behind
          rw [List.length_drop, List.length_cons] at shorter
          obtain ⟨parts, loop, size, -⟩ := ih (u := rest) (by omega) (by omega)
          have all : interleave ((u.take so, []) :: parts) = u.take so ++ interleave parts := by
            rw [interleave, List.flatMap_cons, List.append_nil]
            rfl
          have lost : (interleave ((u.take so, []) :: parts)).length < u.length := by
            rw [all, List.length_append, List.length_take]
            omega
          refine ⟨(u.take so, []) :: parts, ?_, Nat.le_of_lt lost, iff_of_false ?_ ?_⟩
          · rw [regexSplitLoop_pass found behind short, loop]
            rfl
          · intro whole
            rw [whole] at lost
            exact absurd lost (Nat.lt_irrefl _)
          · intro clean
            cases clean with
            | stop => exact absurd rfl more
            | rest _ none => cases none.symm.trans found
            | next _ again less _ =>
              cases again.symm.trans found
              exact absurd less (Nat.lt_irrefl _)
            | last _ again =>
              cases again.symm.trans found
              omega

/-! ### Patterns without metacharacters -/

variable {isMatch : Str → Str → Nat → Nat → Prop}

lemma LiteralPattern.free (plain : LiteralPattern pat) : 0 ∉ pat := fun mem => (plain 0 mem).1 rfl

lemma cstr_free_eq (free : 0 ∉ s) : cstr s = s := by
  have whole := cstr_append free []
  rw [List.append_nil] at whole
  exact whole.trans (List.append_nil s)

/-- The first occurrence is what is reported. -/
lemma RegexLib.LeftmostLongest.regexec_eq (posix : lib.LeftmostLongest isMatch) (valid : lib.regcomp pat = some re)
    (plain : LiteralPattern pat) (u : Str) :
    lib.regexec re u = (Cut.around pat u).map fun r => (r.1.length, r.1.length + pat.length) := by
  cases found : lib.regexec re u with
  | none =>
    cases first : Cut.around pat u with
    | none => rfl
    | some r =>
      have occurs := (posix.literal plain).mpr ⟨r.1, r.2, Cut.around_some first, rfl, rfl⟩
      exact absurd occurs (posix.refused valid found _ _)
  | some r =>
    obtain ⟨so, eo⟩ := r
    obtain ⟨here, leftmost⟩ := posix.reported valid found
    obtain ⟨x, y, split, rfl, rfl⟩ := (posix.literal plain).mp here
    have first : Cut.around pat u = some (x, y) := by
      refine Cut.around_eq split fun x' y' occurs => ?_
      exact (leftmost _ _ ((posix.literal plain).mpr ⟨x', y', occurs, rfl, rfl⟩)).1
    rw [first]
    rfl

/-- The loop finds the parts of the literal mode, but for a last one that is empty. -/
lemma CutsAlike.regexSplitLoop (alike : CutsAlike pat u ps) (nonempty : pat ≠ [])
    (finds : ∀ u, lib.regexec re u = (Cut.around pat u).map fun r => (r.1.length, r.1.length + pat.length))
    (short : u.length < 4294967296) (enough : u.length < turns) : ∃ parts,
      regexSplitLoop lib re turns u = some parts ∧
      parts.map (·.1) = if ps.getLastD [] = [] then ps.dropLast else ps := by
  induction alike generalizing turns with
  | @last t _ ended =>
    obtain ⟨turns, rfl⟩ := Nat.exists_eq_succ_of_ne_zero (Nat.ne_of_gt (Nat.zero_lt_of_lt enough))
    by_cases more : t = []
    · subst more
      exact ⟨[], regexSplitLoop_stop turns, rfl⟩
    · have none : lib.regexec re t = none := by rw [finds, ended]; rfl
      refine ⟨[(t, [])], regexSplitLoop_rest more none short turns, ?_⟩
      exact (if_neg more).symm
  | @next u x v ps _ found alike ih =>
    obtain ⟨turns, rfl⟩ := Nat.exists_eq_succ_of_ne_zero (Nat.ne_of_gt (Nat.zero_lt_of_lt enough))
    obtain ⟨less, shorter⟩ := around_lt found nonempty
    have split := Cut.around_some found
    have pos := List.length_pos_iff.mpr nonempty
    have size := congrArg List.length split
    simp only [List.length_append] at size
    have more : u ≠ [] := List.ne_nil_of_length_pos (by omega)
    have here : lib.regexec re u = some (x.length, x.length + pat.length) := by rw [finds, found]; rfl
    have front : u.take x.length = x := by rw [split, List.append_assoc, List.take_left]
    have behind : u.drop (x.length + pat.length) = v := by
      rw [split, ← List.length_append, List.drop_left]
    have fewer : v.length < turns := by omega
    obtain ⟨parts, loop, same⟩ := ih (by omega) fewer
    refine ⟨(x, (u.drop x.length).take (x.length + pat.length - x.length)) :: parts, ?_, ?_⟩
    · rw [regexSplitLoop_next more here (by omega) (by omega) short, behind, loop, front]
      rfl
    · obtain ⟨y, ys, rfl⟩ := List.exists_cons_of_ne_nil alike.ne_nil
      rw [List.map_cons, same]
      simp only [List.getLastD_cons, List.dropLast_cons_cons]
      split <;> rfl

/-- Where a pattern without metacharacters occurs it has a length. -/
lemma noEmptyMatch_literal
    (finds : ∀ u, lib.regexec re u = (Cut.around pat u).map fun r => (r.1.length, r.1.length + pat.length))
    (nonempty : pat ≠ []) (u : Str) : NoEmptyMatch lib re u := by
  induction size : u.length using Nat.strong_induction_on generalizing u with
  | _ n ih =>
    by_cases more : u = []
    · exact more ▸ .stop
    cases found : Cut.around pat u with
    | none =>
      have none : lib.regexec re u = none := by rw [finds, found]; rfl
      exact .rest more none
    | some r =>
      obtain ⟨x, v⟩ := r
      have pos := List.length_pos_iff.mpr nonempty
      have here : lib.regexec re u = some (x.length, x.length + pat.length) := by rw [finds, found]; rfl
      refine .next more here (by omega) (ih _ ?_ _ rfl)
      have longer := List.length_pos_iff.mpr more
      rw [List.length_drop]
      omega

/-- The regex mode does what it is for exactly if no match without length is met before the end of the text, and a
text that a pattern without metacharacters cuts does not end in an empty part. -/
theorem splitsByRegex_iff (posix : lib.LeftmostLongest isMatch) (valid : lib.regcomp (cstr pat) = some re)
    (free : 0 ∉ s) (short : s.length < 4294967296) :
    SplitsByRegex (ν := ν) lib re s pat ↔
      pat = [] ∨ NoEmptyMatch lib re s ∧ (LiteralPattern pat → ∀ ps, CutsAlike pat s ps → ps.getLastD [] ≠ []) := by
  by_cases empty : pat = []
  · subst empty
    exact iff_of_true ⟨[(s, [])], rfl, rfl, by simp [interleave], fun _ => rfl⟩ (.inl rfl)
  have pos : ¬ pat.length = 0 := Nat.ne_of_gt (List.length_pos_iff.mpr empty)
  have within : ∀ {u so eo}, lib.regexec re u = some (so, eo) → so ≤ eo ∧ eo ≤ u.length := fun found =>
    posix.inside (posix.reported valid found).1
  have enough : s.length < s.length + 2 := by omega
  obtain ⟨parts, loop, -, same⟩ := regexSplitLoop_spec within short enough
  have logged : regexParts lib re s pat = some parts := by
    rw [regexParts, if_neg pos, cstr_free_eq free, loop]
  have native : strSplit lib [(.string s : Value ν), .string pat] = some (.ok (parts.map (·.1))) := by
    simp [strSplit, argStr, noRegex, empty, valid, cstr_free_eq free, loop]
  have literal : LiteralPattern pat →
      (strSplit lib [(.string s : Value ν), .string pat, .bool true] = some (.ok (parts.map (·.1))) ↔
        ∀ ps, CutsAlike pat s ps → ps.getLastD [] ≠ []) := by
    intro plain
    rw [cstr_free_eq plain.free] at valid
    obtain ⟨ps, alike, -⟩ := exists_cutsAlike plain.free empty fun _ mem => free (List.mem_of_mem_dropLast mem)
    obtain ⟨parts', loop', firsts⟩ := alike.regexSplitLoop empty (posix.regexec_eq valid plain) short enough
    cases loop.symm.trans loop'
    have cut : strSplit lib [(.string s : Value ν), .string pat, .bool true] = some (.ok ps) := by
      simp [strSplit, argStr, noRegex, empty, alike.splitLoop empty short]
    rw [cut, firsts]
    constructor
    · intro both ps' alike'
      obtain rfl := alike.unique alike'
      intro last
      rw [if_pos last] at both
      have shorter := congrArg List.length (Except.ok.inj (Option.some.inj both))
      have more := List.length_pos_iff.mpr alike.ne_nil
      rw [List.length_dropLast] at shorter
      omega
    · intro last
      rw [if_neg (last ps alike)]
  constructor
  · rintro ⟨parts', logged', -, join, plain⟩
    cases logged.symm.trans logged'
    exact .inr ⟨same.mp join, fun pattern => (literal pattern).mp (plain pattern)⟩
  · rintro (none | ⟨clean, last⟩)
    · exact absurd none empty
    · exact ⟨parts, logged, native, same.mpr clean, fun pattern => (literal pattern).mpr (last pattern)⟩

/-- The pattern occurs in the text. -/
def occursAt (pat u : Str) (so eo : Nat) : Prop := ∃ x y, u = x ++ pat ++ y ∧ so = x.length ∧ eo = x.length + pat.length

/-- A library for patterns without metacharacters and for `x*`. -/
def smallLib : RegexLib Str where
  regcomp pat := if LiteralPattern pat ∨ pat = bytes "x*" then some pat else none
  regexec pat u :=
    if pat = bytes "x*" then some (0, (u.takeWhile (· = 120)).length)
    else (Cut.around pat u).map fun r => (r.1.length, r.1.length + pat.length)

def smallMatch (pat u : Str) (so eo : Nat) : Prop :=
  if pat = bytes "x*" then so ≤ eo ∧ eo ≤ u.length ∧ ∀ b ∈ (u.drop so).take (eo - so), b = 120 else occursAt pat u so eo

lemma length_takeWhile_ge {n : Nat} (le : n ≤ u.length) (all : ∀ b ∈ u.take n, b = 120) :
    n ≤ (u.takeWhile (· = 120)).length := by
  have front : (u.take n).takeWhile (· = 120) = u.take n :=
    List.takeWhile_eq_self_iff.mpr fun b mem => by simpa using all b mem
  have whole : (u.take n ++ u.drop n).takeWhile (· = 120) = u.take n ++ (u.drop n).takeWhile (· = 120) :=
    List.takeWhile_append_of_pos fun b mem => by simpa using all b mem
  rw [List.take_append_drop] at whole
  rw [whole, List.length_append, List.length_take]
  omega

lemma smallLib_posix : smallLib.LeftmostLongest smallMatch where
  inside := by
    intro pat u so eo here
    rw [smallMatch] at here
    split at here
    · exact ⟨here.1, here.2.1⟩
    · obtain ⟨x, y, split, rfl, rfl⟩ := here
      have size := congrArg List.length split
      simp only [List.length_append] at size
      omega
  reported := by
    intro pat re u so eo valid found
    obtain rfl : pat = re := by
      simp only [smallLib] at valid
      split at valid
      · exact Option.some.inj valid
      · cases valid
    simp only [smallLib, smallMatch] at found ⊢
    split at found
    · rename_i star
      cases found
      simp only [star, if_true]
      refine ⟨⟨Nat.zero_le _, (List.takeWhile_prefix _).length_le, ?_⟩, fun so' eo' here => ⟨Nat.zero_le _, ?_⟩⟩
      · intro b mem
        have run : u.take (u.takeWhile (· = 120)).length = u.takeWhile (· = 120) :=
          (List.prefix_iff_eq_take.mp (List.takeWhile_prefix _)).symm
        rw [List.drop_zero, Nat.sub_zero, run] at mem
        simpa using List.mem_takeWhile_imp mem
      · rintro rfl
        obtain ⟨-, le, all⟩ := here
        exact length_takeWhile_ge le all
    · rename_i star
      simp only [star, if_false]
      obtain ⟨⟨x, y⟩, first, e⟩ := Option.map_eq_some_iff.mp found
      cases e
      refine ⟨⟨x, y, Cut.around_some first, rfl, rfl⟩, ?_⟩
      rintro so' eo' ⟨x', y', occurs, rfl, rfl⟩
      exact ⟨Cut.around_le first occurs, fun same => by rw [same]⟩
  refused := by
    intro pat re u valid none so eo here
    obtain rfl : pat = re := by
      simp only [smallLib] at valid
      split at valid
      · exact Option.some.inj valid
      · cases valid
    simp only [smallLib, smallMatch] at none here
    split at none
    · cases none
    · rename_i star
      rw [if_neg star] at here
      obtain ⟨x, y, split, -⟩ := here
      exact Cut.around_none.mp (Option.map_eq_none_iff.mp none) ⟨x, y, split.symm⟩
  literal := by
    intro pat u so eo plain
    have star : pat ≠ bytes "x*" := by
      rintro rfl
      exact absurd plain (by decide)
    rw [smallMatch, if_neg star]
    rfl

theorem splitsByRegex_commas : SplitsByRegex (ν := Nat) smallLib (bytes ",") (bytes ",a,,b") (bytes ",") := by
  have plain : LiteralPattern (bytes ",") := by decide +kernel
  have valid : smallLib.regcomp (bytes ",") = some (bytes ",") := by decide +kernel
  have valid' : smallLib.regcomp (cstr (bytes ",")) = some (bytes ",") := by decide +kernel
  have clean := noEmptyMatch_literal (smallLib_posix.regexec_eq valid plain) (by decide) (bytes ",a,,b")
  refine (splitsByRegex_iff smallLib_posix valid' (by decide) (by decide)).mpr
    (.inr ⟨clean, fun _ ps alike => ?_⟩)
  rw [cutsAlike_commas.unique alike]
  decide

/-- A separator at the end leaves no last part, and `x*` passes over all of `abc`. -/
theorem regexSplit_loses : ¬ SplitsByRegex (ν := Nat) smallLib (bytes ",") (bytes "a,") (bytes ",") ∧
    ¬ SplitsByRegex (ν := Nat) smallLib (bytes "x*") (bytes "abc") (bytes "x*") := by
  constructor
  · rintro ⟨parts, -, native, -, plain⟩
    have regex : strSplit smallLib [(.string (bytes "a,") : Value Nat), .string (bytes ",")] =
        some (.ok [bytes "a"]) := by decide +kernel
    have literal : strSplit smallLib [(.string (bytes "a,") : Value Nat), .string (bytes ","), .bool true] =
        some (.ok [bytes "a", []]) := by decide
    have both := (regex.symm.trans native).trans ((plain (by decide +kernel)).symm.trans literal)
    exact absurd both (by decide)
  · rintro ⟨parts, logged, -, join, -⟩
    have found : regexParts smallLib (bytes "x*") (bytes "abc") (bytes "x*") = some [([], []), ([], []), ([], [])] := by
      decide
    cases logged.symm.trans found
    cases join

end Cando
