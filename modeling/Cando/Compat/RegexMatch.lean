import Cando.Compat.RegexScan

/-!
# What the matcher finds

`m_seq` and `m_alt` of `compat/win_regex.c` on the text of a well-formed pattern. A group is matched by a call that
comes back with one end, so it keeps the first end that it finds; and a repetition makes a bounded number of rounds.
`Keeps` says what a pattern matches under these two.
-/

namespace Cando

namespace WinRegex

/-! ### The first end -/

/-- An atom takes a byte that it accepts. -/
def Single.step (a : Single) : Str → Option Str
  | [] => none
  | x :: t => if a.accepts x then some t else none

/-- The first end of an atom with a quantifier and what follows, given their ends: greedy, and from the longest
repetition down. -/
def Quant.first (atom rest : Str → Option Str) (s : Str) : Quant → Option Str
  | .once => (atom s).bind rest
  | .optional => ((atom s).bind rest).or (rest s)
  | .star => (s :: rounds atom (maxPositions - 1) s).reverse.findSome? rest
  | .plus => (rounds atom maxPositions s).reverse.findSome? rest

/-- The first end of a match that begins at `s`, when each group keeps its own. -/
def Pattern.first (text : Str) : {l : Level} → Pattern l → Str → Option Str
  | _, .nil, s => some s
  | _, .bol rest, s => if atBol text s then rest.first text s else none
  | _, .eol rest, s => if atEol s then rest.first text s else none
  | _, .single a k rest, s => k.first a.step (rest.first text) s
  | _, .group r k rest, s => k.first (r.first text) (rest.first text) s
  | _, .last r, s => r.first text s
  | _, .or r r', s => (r.first text s).or (r'.first text s)

/-- A quantifier over an atom that has one end at most, in as many rounds as `positions` has room for. -/
def Quant.Kept (atom : Str → Option Str) : Quant → Str → Str → Prop
  | .once, s, t => atom s = some t
  | .optional, s, t => s = t ∨ atom s = some t
  | .star, s, t => ∃ n, n < maxPositions ∧ Rounds atom n s t
  | .plus, s, t => ∃ n, 0 < n ∧ n ≤ maxPositions ∧ Rounds atom n s t

/-- The pattern matches from `s` to `t` with each group at the first end that it finds, no repetition of more rounds
than `positions` has room for, and no round that stays where it is. -/
def Pattern.Keeps (text : Str) : {l : Level} → Pattern l → Str → Str → Prop
  | _, .nil, s, t => s = t
  | _, .bol rest, s, t => AtBol text s ∧ rest.Keeps text s t
  | _, .eol rest, s, t => AtEol s ∧ rest.Keeps text s t
  | _, .single a k rest, s, t => ∃ m, k.Kept a.step s m ∧ rest.Keeps text m t
  | _, .group r k rest, s, t => ∃ m, k.Kept (r.first text) s m ∧ rest.Keeps text m t
  | _, .last r, s, t => r.Keeps text s t
  | _, .or r r', s, t => r.Keeps text s t ∨ r'.Keeps text s t

/-! ### What is kept -/

section Kept

variable {atom rest : Str → Option Str} {s t m : Str}

/-- The first end is one that the quantifier and the rest have. -/
lemma Quant.kept_of_first {k : Quant} (h : k.first atom rest s = some t) : ∃ m, k.Kept atom s m ∧ rest m = some t := by
  cases k with
  | once => exact Option.bind_eq_some_iff.mp h
  | optional =>
    obtain taken | ⟨-, skipped⟩ := Option.or_eq_some_iff.mp h
    · obtain ⟨m, e, h⟩ := Option.bind_eq_some_iff.mp taken
      exact ⟨m, .inr e, h⟩
    · exact ⟨s, .inl rfl, skipped⟩
  | star =>
    obtain ⟨m, mem, h⟩ := List.exists_of_findSome?_eq_some h
    refine ⟨m, ?_, h⟩
    obtain rfl | mem := List.mem_cons.mp (List.mem_reverse.mp mem)
    · exact ⟨0, by decide, .zero _⟩
    · obtain ⟨n, -, le, run⟩ := mem_rounds.mp mem
      exact ⟨n, Nat.lt_of_le_of_lt le (by decide), run⟩
  | plus =>
    obtain ⟨m, mem, h⟩ := List.exists_of_findSome?_eq_some h
    exact ⟨m, mem_rounds.mp (List.mem_reverse.mp mem), h⟩

/-- What the quantifier and the rest have makes for a first end. -/
lemma Quant.first_of_kept {k : Quant} (kept : k.Kept atom s m) (h : (rest m).isSome) :
    (k.first atom rest s).isSome := by
  cases k with
  | once =>
    have e : atom s = some m := kept
    rw [Quant.first, e, Option.bind_some]
    exact h
  | optional =>
    rw [Quant.first, Option.isSome_or, Bool.or_eq_true]
    obtain rfl | e := kept
    · exact .inr h
    · rw [e, Option.bind_some]
      exact .inl h
  | star =>
    obtain ⟨n, lt, run⟩ := kept
    refine List.findSome?_isSome_iff.mpr ⟨m, List.mem_reverse.mpr (List.mem_cons.mpr ?_), h⟩
    cases n with
    | zero =>
      cases run
      exact .inl rfl
    | succ n => exact .inr (mem_rounds.mpr ⟨n + 1, Nat.succ_pos n, Nat.le_sub_one_of_lt lt, run⟩)
  | plus =>
    exact List.findSome?_isSome_iff.mpr ⟨m, List.mem_reverse.mpr (mem_rounds.mpr kept), h⟩

/-- What an atom does to what is left of the subject, a quantifier does. -/
lemma Quant.kept_keeps {k : Quant} {P : Str → Prop} (step : ∀ a b, P a → atom a = some b → P b)
    (kept : k.Kept atom s m) (h : P s) : P m := by
  cases k with
  | once => exact step _ _ h kept
  | optional =>
    obtain rfl | e := kept
    · exact h
    · exact step _ _ h e
  | star =>
    obtain ⟨n, -, run⟩ := kept
    exact run.keeps step h
  | plus =>
    obtain ⟨n, -, -, run⟩ := kept
    exact run.keeps step h

/-- What is kept is a repetition. -/
lemma Quant.repeats_of_kept {k : Quant} {P : Str → Prop} {R : Str → Str → Prop}
    (step : ∀ a b, P a → atom a = some b → P b) (follows : ∀ a b, P a → atom a = some b → R a b)
    (kept : k.Kept atom s m) (h : P s) : k.Repeats R s m := by
  cases k with
  | once => exact follows _ _ h kept
  | optional =>
    obtain e | e := kept
    · exact .inl e
    · exact .inr (follows _ _ h e)
  | star =>
    obtain ⟨n, -, run⟩ := kept
    exact run.reflTransGen step follows h
  | plus =>
    obtain ⟨n, pos, -, run⟩ := kept
    cases run with
    | zero => exact absurd pos (Nat.lt_irrefl 0)
    | succ moves run =>
      exact Relation.TransGen.head' (follows _ _ h moves.1) (run.reflTransGen step follows (step _ _ h moves.1))

end Kept

/-! ### Starts of lines -/

lemma atBol_iff {text s : Str} (inside : s <:+ text) : atBol text s ↔ AtBol text s := by
  obtain ⟨u, rfl⟩ := inside
  have before (ne : u ≠ []) : (u ++ s)[(u ++ s).length - s.length - 1]? = u.getLast? := by
    have pos := List.length_pos_iff.mpr ne
    rw [List.length_append, Nat.add_sub_cancel, List.getElem?_append_left (by omega), List.getLast?_eq_getElem?]
  rw [atBol, Bool.or_eq_true, beq_iff_eq, beq_iff_eq]
  constructor
  · rintro (start | newline)
    · rw [List.length_append] at start
      exact ⟨u, rfl, .inl (List.eq_nil_of_length_eq_zero (by omega))⟩
    · refine ⟨u, rfl, ?_⟩
      by_cases ne : u = []
      · exact .inl ne
      · exact .inr (before ne ▸ newline)
  · rintro ⟨v, e, start | newline⟩
    · obtain rfl := List.append_cancel_right e
      subst start
      exact .inl rfl
    · obtain rfl := List.append_cancel_right e
      have ne : u ≠ [] := by
        rintro rfl
        cases newline
      exact .inr (before ne ▸ newline)

lemma atEol_iff (s : Str) : atEol s ↔ AtEol s := by
  rw [atEol, Bool.or_eq_true, List.isEmpty_iff, beq_iff_eq]
  exact Iff.rfl

/-! ### Patterns -/

lemma Single.step_eq_some {a : Single} {s t : Str} : a.step s = some t ↔ ∃ x, s = x :: t ∧ a.accepts x := by
  cases s with
  | nil => exact ⟨by rintro ⟨⟩, by rintro ⟨x, ⟨⟩, -⟩⟩
  | cons x s =>
    rw [Single.step]
    constructor
    · intro h
      split at h
      · rename_i takes
        cases h
        exact ⟨x, rfl, takes⟩
      · cases h
    · rintro ⟨y, e, takes⟩
      cases e
      rw [if_pos takes]

lemma Single.step_suffix {a : Single} {text s t : Str} (inside : s <:+ text) (h : a.step s = some t) : t <:+ text := by
  obtain ⟨x, rfl, -⟩ := Single.step_eq_some.mp h
  exact (List.suffix_cons x t).trans inside

/-- The first end is kept, and lies in the subject. -/
lemma Pattern.keeps_of_first {text : Str} {l : Level} {r : Pattern l} {s t : Str} (inside : s <:+ text)
    (h : r.first text s = some t) : r.Keeps text s t ∧ t <:+ text := by
  induction r generalizing s t with
  | nil =>
    cases h
    exact ⟨rfl, inside⟩
  | bol rest ih =>
    rw [Pattern.first] at h
    split at h
    · rename_i start
      obtain ⟨keeps, there⟩ := ih inside h
      exact ⟨⟨(atBol_iff inside).mp start, keeps⟩, there⟩
    · cases h
  | eol rest ih =>
    rw [Pattern.first] at h
    split at h
    · rename_i ended
      obtain ⟨keeps, there⟩ := ih inside h
      exact ⟨⟨(atEol_iff s).mp ended, keeps⟩, there⟩
    · cases h
  | single a k rest ih =>
    obtain ⟨m, kept, h⟩ := Quant.kept_of_first h
    have between := Quant.kept_keeps (P := (· <:+ text)) (fun _ _ => Single.step_suffix) kept inside
    obtain ⟨keeps, there⟩ := ih between h
    exact ⟨⟨m, kept, keeps⟩, there⟩
  | group r k rest ihr ih =>
    obtain ⟨m, kept, h⟩ := Quant.kept_of_first h
    have between := Quant.kept_keeps (P := (· <:+ text)) (fun _ _ inside h => (ihr inside h).2) kept inside
    obtain ⟨keeps, there⟩ := ih between h
    exact ⟨⟨m, kept, keeps⟩, there⟩
  | last r ih => exact ih inside h
  | or r r' ihr ihr' =>
    obtain h | ⟨-, h⟩ := Option.or_eq_some_iff.mp h
    · obtain ⟨keeps, there⟩ := ihr inside h
      exact ⟨.inl keeps, there⟩
    · obtain ⟨keeps, there⟩ := ihr' inside h
      exact ⟨.inr keeps, there⟩

lemma Pattern.first_suffix {text : Str} {l : Level} {r : Pattern l} {s t : Str} (inside : s <:+ text)
    (h : r.first text s = some t) : t <:+ text := (Pattern.keeps_of_first inside h).2

/-- Where something is kept there is a first end. -/
lemma Pattern.first_of_keeps {text : Str} {l : Level} {r : Pattern l} {s t : Str} (inside : s <:+ text)
    (h : r.Keeps text s t) : (r.first text s).isSome := by
  induction r generalizing s t with
  | nil => rfl
  | bol rest ih =>
    rw [Pattern.first, if_pos ((atBol_iff inside).mpr h.1)]
    exact ih inside h.2
  | eol rest ih =>
    rw [Pattern.first, if_pos ((atEol_iff s).mpr h.1)]
    exact ih inside h.2
  | single a k rest ih =>
    obtain ⟨m, kept, keeps⟩ := h
    have there := Quant.kept_keeps (P := (· <:+ text)) (fun _ _ => Single.step_suffix) kept inside
    exact Quant.first_of_kept kept (ih there keeps)
  | group r k rest ihr ih =>
    obtain ⟨m, kept, keeps⟩ := h
    have there := Quant.kept_keeps (P := (· <:+ text)) (fun _ _ => Pattern.first_suffix) kept inside
    exact Quant.first_of_kept kept (ih there keeps)
  | last r ih => exact ih inside h
  | or r r' ihr ihr' =>
    rw [Pattern.first, Option.isSome_or, Bool.or_eq_true]
    obtain h | h := h
    · exact .inl (ihr inside h)
    · exact .inr (ihr' inside h)

/-- What is kept is in the language. -/
lemma Pattern.matches_of_keeps {text : Str} {l : Level} {r : Pattern l} {s t : Str} (inside : s <:+ text)
    (h : r.Keeps text s t) : r.Matches text s t := by
  induction r generalizing s t with
  | nil => exact h
  | bol rest ih => exact ⟨h.1, ih inside h.2⟩
  | eol rest ih => exact ⟨h.1, ih inside h.2⟩
  | single a k rest ih =>
    obtain ⟨m, kept, keeps⟩ := h
    have there := Quant.kept_keeps (P := (· <:+ text)) (fun _ _ => Single.step_suffix) kept inside
    refine ⟨m, ?_, ih there keeps⟩
    exact Quant.repeats_of_kept (P := (· <:+ text)) (fun _ _ => Single.step_suffix)
      (fun _ _ _ => Single.step_eq_some.mp) kept inside
  | group r k rest ihr ih =>
    obtain ⟨m, kept, keeps⟩ := h
    have there := Quant.kept_keeps (P := (· <:+ text)) (fun _ _ => Pattern.first_suffix) kept inside
    refine ⟨m, ?_, ih there keeps⟩
    exact Quant.repeats_of_kept (P := (· <:+ text)) (fun _ _ => Pattern.first_suffix)
      (fun _ _ inside h => ihr inside (Pattern.keeps_of_first inside h).1) kept inside
  | last r ih => exact ih inside h
  | or r r' ihr ihr' =>
    obtain h | h := h
    · exact .inl (ihr inside h)
    · exact .inr (ihr' inside h)

end WinRegex

end Cando
