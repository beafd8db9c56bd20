import Cando.Compat.RegexCorrect

/-!
# What a search reports

`regexec` of `compat/win_regex.c` against the language of the pattern: what it reports is in the language, and it
reports the leftmost match where the pattern also matches in the matcher's own way.
-/

namespace Cando

namespace WinRegex

/-! ### Searches -/

lemma Quant.suffix_of_repeats {k : Quant} {R : Str → Str → Prop} (inside : ∀ s t, R s t → t <:+ s) {s t : Str}
    (h : k.Repeats R s t) : t <:+ s := by
  cases k with
  | once => exact inside s t h
  | optional =>
    obtain rfl | h := h
    · exact List.suffix_rfl
    · exact inside s t h
  | star =>
    induction h with
    | refl => exact List.suffix_rfl
    | tail _ h ih => exact (inside _ _ h).trans ih
  | plus =>
    induction h with
    | single h => exact inside _ _ h
    | tail _ h ih => exact (inside _ _ h).trans ih

/-- A match ends behind its start. -/
lemma Pattern.suffix_of_matches {text : Str} {l : Level} {r : Pattern l} {s t : Str} (h : r.Matches text s t) :
    t <:+ s := by
  induction r generalizing s t with
  | nil => exact h ▸ List.suffix_rfl
  | bol rest ih => exact ih h.2
  | eol rest ih => exact ih h.2
  | single a k rest ih =>
    obtain ⟨m, repeats, h⟩ := h
    refine (ih h).trans (Quant.suffix_of_repeats (fun s t step => ?_) repeats)
    obtain ⟨x, rfl, -⟩ := step
    exact List.suffix_cons x t
  | group r k rest ihr ih =>
    obtain ⟨m, repeats, h⟩ := h
    exact (ih h).trans (Quant.suffix_of_repeats (fun s t => ihr) repeats)
  | last r ih => exact ih h
  | or r r' ihr ihr' =>
    obtain h | h := h
    · exact ihr h
    · exact ihr' h

section Search

variable {r : Pattern .alt} {text : Str}

/-- `regexec` at one start. -/
lemma mAlt_start (ok : r.Ok) (shallow : r.depth ≤ reMaxDepth) (noNul : 0 ∉ text) {s : Str} (inside : s <:+ text) :
    (mAlt (startState (regcomp r.text) text) r.text 0 s).1 = r.first text s := by
  have plain : NoQuant [] := by
    rintro c ⟨⟩
  have computes := Pattern.computed noNul ok [] 0 plain (by omega) (startState (regcomp r.text) text) s rfl rfl inside
  rw [List.append_nil] at computes
  exact computes.1

lemma fillMatch_zero {nmatch : Nat} (pos : 0 < nmatch) (s e : Str) (ms : MS) :
    (fillMatch nmatch text s e ms)[0]? =
      some (((text.length - s.length : Nat) : Int), ((text.length - e.length : Nat) : Int)) := by
  rw [fillMatch, List.getElem?_map, List.getElem?_range pos]
  rfl

/-- What a search from `s` says of the starts from `s` on. -/
def Found (r : Pattern .alt) (text : Str) (nmatch : Nat) (s : Str) : Option (List (Int × Int)) → Prop
  | none => ∀ s', s' <:+ s → r.first text s' = none
  | some pmatch => ∃ s' t, s' <:+ s ∧ r.first text s' = some t ∧
      (0 < nmatch → pmatch[0]? =
        some (((text.length - s'.length : Nat) : Int), ((text.length - t.length : Nat) : Int))) ∧
      ∀ s'', s'' <:+ s → s'.length < s''.length → r.first text s'' = none

lemma Found.here {nmatch : Nat} {s t : Str} (ms : MS) (h : r.first text s = some t) :
    Found r text nmatch s (some (fillMatch nmatch text s t ms)) := by
  refine ⟨s, t, List.suffix_rfl, h, fun pos => fillMatch_zero pos _ _ _, fun s'' suffix longer => ?_⟩
  exact absurd suffix.length_le (Nat.not_le_of_lt longer)

/-- A start that has no match is passed over. -/
lemma Found.later {nmatch : Nat} {c : UInt8} {s : Str} {result : Option (List (Int × Int))}
    (h : r.first text (c :: s) = none) (found : Found r text nmatch s result) :
    Found r text nmatch (c :: s) result := by
  cases result with
  | none =>
    intro s' suffix
    obtain rfl | suffix := List.suffix_cons_iff.mp suffix
    · exact h
    · exact found s' suffix
  | some pmatch =>
    obtain ⟨s', t, inside, ends, reported, leftmost⟩ := found
    refine ⟨s', t, inside.trans (List.suffix_cons c s), ends, reported, fun s'' suffix longer => ?_⟩
    obtain rfl | suffix := List.suffix_cons_iff.mp suffix
    · exact h
    · exact leftmost s'' suffix longer

/-- The search ends at the first start at which the pattern has a first end. -/
lemma regexecFrom_spec (ok : r.Ok) (shallow : r.depth ≤ reMaxDepth) (noNul : 0 ∉ text) (nmatch : Nat) {s : Str}
    (inside : s <:+ text) : Found r text nmatch s (regexecFrom (regcomp r.text) text nmatch s) := by
  induction s with
  | nil =>
    have start : (mAlt (startState (regcomp r.text) text) (regcomp r.text).pattern 0 []).1 = r.first text [] :=
      mAlt_start ok shallow noNul inside
    rw [regexecFrom]
    cases result : mAlt (startState (regcomp r.text) text) (regcomp r.text).pattern 0 [] with
    | mk found ms =>
      rw [result] at start
      cases found with
      | none =>
        intro s' suffix
        rw [List.suffix_nil.mp suffix]
        exact start.symm
      | some t => exact Found.here ms start.symm
  | cons c s ih =>
    have start :
        (mAlt (startState (regcomp r.text) text) (regcomp r.text).pattern 0 (c :: s)).1 = r.first text (c :: s) :=
      mAlt_start ok shallow noNul inside
    rw [regexecFrom]
    cases result : mAlt (startState (regcomp r.text) text) (regcomp r.text).pattern 0 (c :: s) with
    | mk found ms =>
      rw [result] at start
      cases found with
      | none => exact Found.later start.symm (ih ((List.suffix_cons c s).trans inside))
      | some t => exact Found.here ms start.symm

end Search

/-! ### The language -/

/-- `regexec` agrees with the language of the pattern: it succeeds where the pattern matches in the subject, and reports
a match with the leftmost start. -/
def Agrees (r : Pattern .alt) (text : Str) (nmatch : Nat) : Option (List (Int × Int)) → Prop
  | none => ∀ s t, s <:+ text → ¬r.Matches text s t
  | some pmatch => ∃ s t, s <:+ text ∧ t <:+ s ∧ r.Matches text s t ∧
      (0 < nmatch → pmatch[0]? =
        some (((text.length - s.length : Nat) : Int), ((text.length - t.length : Nat) : Int))) ∧
      ∀ s' t', s' <:+ text → r.Matches text s' t' → s'.length ≤ s.length

def Reports (r : Pattern .alt) (text : Str) : Prop :=
  ∀ nmatch, Agrees r text nmatch (regexec (regcomp r.text) text nmatch)

/-- Where the pattern matches it also matches in the matcher's way, at the same start or further left. -/
def KeepsMatches (r : Pattern .alt) (text : Str) : Prop :=
  ∀ s t, s <:+ text → r.Matches text s t → ∃ s' t', s <:+ s' ∧ s' <:+ text ∧ r.Keeps text s' t'

section Language

variable {r : Pattern .alt} {text : Str}

lemma regexec_found (ok : r.Ok) (shallow : r.depth ≤ reMaxDepth) (noNul : 0 ∉ text) (nmatch : Nat) :
    Found r text nmatch text (regexec (regcomp r.text) text nmatch) :=
  regexecFrom_spec ok shallow noNul nmatch List.suffix_rfl

/-- What `regexec` reports is in the language. -/
theorem regexec_sound (ok : r.Ok) (shallow : r.depth ≤ reMaxDepth) (noNul : 0 ∉ text) {nmatch : Nat}
    {pmatch : List (Int × Int)} (h : regexec (regcomp r.text) text nmatch = some pmatch) :
    ∃ s t, s <:+ text ∧ t <:+ s ∧ r.Matches text s t ∧
      (0 < nmatch → pmatch[0]? =
        some (((text.length - s.length : Nat) : Int), ((text.length - t.length : Nat) : Int))) := by
  have found := regexec_found ok shallow noNul nmatch
  rw [h] at found
  obtain ⟨s, t, inside, ends, reported, -⟩ := found
  have matched := Pattern.matches_of_keeps inside (Pattern.keeps_of_first inside ends).1
  exact ⟨s, t, inside, Pattern.suffix_of_matches matched, matched, reported⟩

lemma agrees_of_found (covers : KeepsMatches r text) {nmatch : Nat} {result : Option (List (Int × Int))}
    (found : Found r text nmatch text result) : Agrees r text nmatch result := by
  cases result with
  | none =>
    intro s t inside matched
    obtain ⟨s', t', -, inside', keeps⟩ := covers s t inside matched
    have first := Pattern.first_of_keeps inside' keeps
    rw [found s' inside'] at first
    cases first
  | some pmatch =>
    obtain ⟨s, t, inside, ends, reported, leftmost⟩ := found
    have matched := Pattern.matches_of_keeps inside (Pattern.keeps_of_first inside ends).1
    refine ⟨s, t, inside, Pattern.suffix_of_matches matched, matched, reported, fun s' t' inside' matched' => ?_⟩
    obtain ⟨s'', t'', longer, inside'', keeps⟩ := covers s' t' inside' matched'
    have first := Pattern.first_of_keeps inside'' keeps
    refine Nat.le_trans longer.length_le (Nat.le_of_not_lt fun right => ?_)
    rw [leftmost s'' inside'' right] at first
    cases first

lemma covers_of_agrees {nmatch : Nat} {result : Option (List (Int × Int))} (asked : 0 < nmatch)
    (found : Found r text nmatch text result) (agrees : Agrees r text nmatch result) : KeepsMatches r text := by
  intro s t inside matched
  cases result with
  | none => exact absurd matched (agrees s t inside)
  | some pmatch =>
    obtain ⟨s₁, t₁, inside₁, ends, reported₁, -⟩ := found
    obtain ⟨s₂, t₂, inside₂, -, -, reported₂, leftmost⟩ := agrees
    have left := leftmost s t inside matched
    -- both report the same start
    have same := (reported₁ asked).symm.trans (reported₂ asked)
    rw [Option.some.injEq, Prod.mk.injEq, Int.ofNat_inj] at same
    have le₁ := inside₁.length_le
    have le₂ := inside₂.length_le
    refine ⟨s₁, t₁, ?_, inside₁, (Pattern.keeps_of_first inside₁ ends).1⟩
    exact List.suffix_of_suffix_length_le inside inside₁ (by omega)

/-! ### Patterns without groups -/

/-- The pattern has no group. -/
def Pattern.Flat : {l : Level} → Pattern l → Prop
  | _, .nil => True
  | _, .bol rest => rest.Flat
  | _, .eol rest => rest.Flat
  | _, .single _ _ rest => rest.Flat
  | _, .group _ _ _ => False
  | _, .last r => r.Flat
  | _, .or r r' => r.Flat ∧ r'.Flat

lemma Single.kept_of_repeats {a : Single} {k : Quant} {s t : Str} (short : s.length < maxPositions)
    (h : k.Repeats (fun a' b => ∃ x, a' = x :: b ∧ a.accepts x) s t) : k.Kept a.step s t := by
  have shrinks (u v : Str) (step : ∃ x, u = x :: v ∧ a.accepts x) : a.step u = some v ∧ v.length < u.length := by
    refine ⟨Single.step_eq_some.mpr step, ?_⟩
    obtain ⟨x, rfl, -⟩ := step
    exact Nat.lt_succ_self _
  cases k with
  | once => exact (shrinks s t h).1
  | optional =>
    obtain e | step := h
    · exact .inl e
    · exact .inr (shrinks s t step).1
  | star =>
    obtain ⟨n, le, run⟩ := Rounds.of_reflTransGen List.length shrinks h
    exact ⟨n, by omega, run⟩
  | plus =>
    obtain ⟨m, step, more⟩ := Relation.TransGen.head'_iff.mp h
    obtain ⟨n, le, run⟩ := Rounds.of_reflTransGen List.length shrinks more
    obtain ⟨e, smaller⟩ := shrinks s m step
    have ne : m ≠ s := by
      rintro rfl
      exact Nat.lt_irrefl _ smaller
    exact ⟨n + 1, Nat.succ_pos n, by omega, .succ ⟨e, ne⟩ run⟩

lemma Pattern.Flat.keeps {l : Level} {r : Pattern l} (flat : r.Flat) {s t : Str} (short : s.length < maxPositions)
    (h : r.Matches text s t) : r.Keeps text s t := by
  induction r generalizing s t with
  | nil => exact h
  | bol rest ih => exact ⟨h.1, ih flat short h.2⟩
  | eol rest ih => exact ⟨h.1, ih flat short h.2⟩
  | single a k rest ih =>
    obtain ⟨m, repeats, h⟩ := h
    have inside : m <:+ s := by
      refine Quant.suffix_of_repeats (fun u v step => ?_) repeats
      obtain ⟨x, rfl, -⟩ := step
      exact List.suffix_cons x v
    exact ⟨m, Single.kept_of_repeats short repeats, ih flat (Nat.lt_of_le_of_lt inside.length_le short) h⟩
  | group => exact flat.elim
  | last r ih => exact ih flat short h
  | or r r' ihr ihr' =>
    obtain h | h := h
    · exact .inl (ihr flat.1 short h)
    · exact .inr (ihr' flat.2 short h)

/-- Without groups, and on subjects that `positions` has room for, the matcher's way is the only one. -/
lemma Pattern.Flat.keepsMatches (flat : r.Flat) (short : text.length < maxPositions) : KeepsMatches r text := by
  intro s t inside matched
  exact ⟨s, t, List.suffix_rfl, inside, flat.keeps (Nat.lt_of_le_of_lt inside.length_le short) matched⟩

/-! ### The language and the matcher -/

/-- `regexec` agrees with the language on the subjects in which every match of the pattern has one of the matcher's
way at its start or further left, and on no others. -/
theorem reports_iff (ok : r.Ok) (shallow : r.depth ≤ reMaxDepth) (noNul : 0 ∉ text) :
    Reports r text ↔ KeepsMatches r text := by
  constructor
  · intro reports
    exact covers_of_agrees Nat.one_pos (regexec_found ok shallow noNul 1) (reports 1)
  · intro covers nmatch
    exact agrees_of_found covers (regexec_found ok shallow noNul nmatch)

end Language

lemma Single.literal_ok {c : UInt8} (h : c ∉ specials) : (Single.literal c).Ok := h

/-- `a*b` -/
def starred : Pattern .alt := .last (.single (.literal 97) .star (.single (.literal 98) .once .nil))

theorem reports_iff_starred :
    starred.Ok ∧ starred.depth ≤ reMaxDepth ∧ (0 : UInt8) ∉ bytes "caab" ∧ Reports starred (bytes "caab") := by
  have ok : starred.Ok := ⟨Single.literal_ok (by decide), Single.literal_ok (by decide), trivial⟩
  have flat : starred.Flat := trivial
  exact ⟨ok, by decide, by decide, (reports_iff ok (by decide) (by decide)).mpr (flat.keepsMatches (by decide))⟩

/-- `(a|ab)c` -/
def grouped : Pattern .alt :=
  .last (.group (.or (.single (.literal 97) .once .nil)
    (.last (.single (.literal 97) .once (.single (.literal 98) .once .nil)))) .once (.single (.literal 99) .once .nil))

lemma grouped_ok : grouped.Ok := by
  have a : (Single.literal 97).Ok := Single.literal_ok (by decide)
  have b : (Single.literal 98).Ok := Single.literal_ok (by decide)
  have c : (Single.literal 99).Ok := Single.literal_ok (by decide)
  exact ⟨⟨⟨a, trivial⟩, a, b, trivial⟩, c, trivial⟩

lemma grouped_matches : grouped.Matches (bytes "abc") (bytes "abc") [] := by
  have word : bytes "abc" = [97, 98, 99] := by decide
  rw [word]
  refine ⟨[99], .inr ⟨[98, 99], ⟨97, rfl, rfl⟩, [99], ⟨98, rfl, rfl⟩, rfl⟩, [], ⟨99, rfl, rfl⟩, rfl⟩

/-- The group keeps the `a` that its first alternative matches. -/
lemma grouped_first {s : Str} (inside : s <:+ bytes "abc") : grouped.first (bytes "abc") s = none := by
  have word : bytes "abc" = [97, 98, 99] := by decide
  rw [word] at inside ⊢
  obtain rfl | inside := List.suffix_cons_iff.mp inside
  · decide
  · obtain rfl | inside := List.suffix_cons_iff.mp inside
    · decide
    · obtain rfl | inside := List.suffix_cons_iff.mp inside
      · decide
      · rw [List.suffix_nil.mp inside]
        decide

/-- `(a|ab)c` is not found in `abc`. -/
theorem grouped_missed :
    (grouped.Ok ∧ grouped.depth ≤ reMaxDepth ∧ grouped.text = bytes "(a|ab)c") ∧
      regexec (regcomp (bytes "(a|ab)c")) (bytes "abc") 1 = none ∧
      grouped.Matches (bytes "abc") (bytes "abc") [] ∧ ¬Reports grouped (bytes "abc") := by
  have text : grouped.text = bytes "(a|ab)c" := by decide
  have found := regexec_found grouped_ok (by decide) (by decide : (0 : UInt8) ∉ bytes "abc") 1
  have missed : regexec (regcomp grouped.text) (bytes "abc") 1 = none := by
    cases result : regexec (regcomp grouped.text) (bytes "abc") 1 with
    | none => rfl
    | some pmatch =>
      rw [result] at found
      obtain ⟨s, t, inside, ends, -⟩ := found
      rw [grouped_first inside] at ends
      cases ends
  refine ⟨⟨grouped_ok, by decide, text⟩, text ▸ missed, grouped_matches, fun reports => ?_⟩
  have agrees := reports 1
  rw [missed] at agrees
  exact agrees _ _ List.suffix_rfl grouped_matches

end WinRegex

end Cando
