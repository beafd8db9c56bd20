import Cando.Compat.RegexMatch

/-!
# Regular expressions, matched

On the text of a well-formed pattern `m_seq` and `m_alt` of `compat/win_regex.c` find the first end that is kept.
-/

namespace Cando

namespace WinRegex

/-- In states over a subject and at a depth, the program computes the function on what is left of the subject. -/
def Computes (text : Str) (depth : Nat) (run : MS → Str → Option Str × MS) (f : Str → Option Str) : Prop :=
  ∀ ms s, ms.text = text → ms.depth = depth → s <:+ text →
    (run ms s).1 = f s ∧ (run ms s).2.text = text ∧ (run ms s).2.depth = depth

section Loops

variable {text : Str} {depth : Nat} {run : MS → Str → Option Str × MS} {f : Str → Option Str}

/-- The positions that are collected are where the rounds have been. -/
lemma collect_rounds (computes : Computes text depth run f) (stays : ∀ s t, s <:+ text → f s = some t → t <:+ text)
    {n : Nat} {ms : MS} {s : Str} (ht : ms.text = text) (hd : ms.depth = depth) (inside : s <:+ text) :
    collect run n ms s = rounds f n s := by
  induction n generalizing ms s with
  | zero => rfl
  | succ n ih =>
    obtain ⟨e, ht', hd'⟩ := computes ms s ht hd inside
    rw [collect, rounds, ← e]
    cases result : run ms s with
    | mk found after =>
      rw [result] at e ht' hd'
      cases found with
      | none => rfl
      | some t =>
        have there := stays s t inside e.symm
        have same : t.length = s.length ↔ t = s :=
          ⟨fun h => (List.suffix_of_suffix_length_le there inside (Nat.le_of_eq h)).eq_of_length h, congrArg _⟩
        simp only [same]
        rw [ih ht' hd' there]

/-- The positions are tried in turn. -/
lemma tryFrom_findSome (computes : Computes text depth run f) {ms : MS} (ht : ms.text = text) (hd : ms.depth = depth)
    {l : List Str} (inside : ∀ s ∈ l, s <:+ text) :
    (tryFrom run ms l).1 = l.findSome? f ∧ (tryFrom run ms l).2.text = text ∧ (tryFrom run ms l).2.depth = depth := by
  induction l with
  | nil => exact ⟨rfl, ht, hd⟩
  | cons s l ih =>
    obtain ⟨e, ht', hd'⟩ := computes ms s ht hd (inside s List.mem_cons_self)
    rw [tryFrom, List.findSome?_cons, ← e]
    cases result : run ms s with
    | mk found after =>
      rw [result] at ht' hd'
      cases found with
      | none => exact ih fun s mem => inside s (List.mem_cons_of_mem _ mem)
      | some t => exact ⟨rfl, ht', hd'⟩

lemma rounds_inside (stays : ∀ s t, s <:+ text → f s = some t → t <:+ text) {n : Nat} {s t : Str}
    (inside : s <:+ text) (mem : t ∈ rounds f n s) : t <:+ text := by
  obtain ⟨k, -, -, rounds⟩ := mem_rounds.mp mem
  exact rounds.keeps (P := (· <:+ text)) stays inside

end Loops

section Sequences

variable {text : Str} {depth : Nat} {f g : Str → Option Str}

/-- `m_seq` at an atom with a quantifier. -/
lemma mSeq_quant {c : UInt8} {p next : Str} {pend : Nat} {k : Quant} (shallow : depth ≤ reMaxDepth)
    (before : pend ≤ p.length) (notAnchor : ¬(c = caret ∨ c = dollar)) (quant : quantAt (c :: p) = (k.code, next))
    (atom : Computes text depth (fun ms s => mAtomHere ms (c :: p) s) f)
    (stays : ∀ s t, s <:+ text → f s = some t → t <:+ text)
    (rest : Computes text depth (fun ms s => mSeq ms next pend s) g) :
    Computes text depth (fun ms s => mSeq ms (c :: p) pend s) fun s => k.first f g s := by
  intro ms s ht hd inside
  have atomAt := atom ms s ht hd inside
  have restAt := rest ms s ht hd inside
  have positions (n : Nat) := collect_rounds (n := n) atom stays ht hd inside
  dsimp only at atomAt restAt ⊢
  have code : (quantAt (c :: p)).1 = k.code := congrArg Prod.fst quant
  have next_ : (quantAt (c :: p)).2 = next := congrArg Prod.snd quant
  rw [mSeq, if_neg (by omega), if_neg (by omega), if_neg notAnchor, code, next_]
  cases k with
  | once =>
    rw [if_neg (by decide), if_neg (by decide), if_neg (by decide)]
    cases result : mAtomHere ms (c :: p) s with
    | mk found after =>
      rw [result] at atomAt
      obtain ⟨e, ht', hd'⟩ := atomAt
      rw [Quant.first, ← e]
      cases found with
      | none => exact ⟨rfl, ht', hd'⟩
      | some m => exact rest after m ht' hd' (stays s m inside e.symm)
  | optional =>
    rw [if_pos (by decide)]
    rw [Quant.first]
    cases result : mAtomHere ms (c :: p) s with
    | mk found after =>
      rw [result] at atomAt
      obtain ⟨e, ht', hd'⟩ := atomAt
      rw [← e]
      cases found with
      | none => exact restAt
      | some m =>
        obtain ⟨e', ht'', hd''⟩ := rest after m ht' hd' (stays s m inside e.symm)
        dsimp only at e' ht'' hd'' ⊢
        rw [Option.bind_some, ← e']
        cases result' : mSeq after next pend m with
        | mk found' after' =>
          rw [result'] at ht'' hd''
          cases found' with
          | none => exact restAt
          | some t => exact ⟨rfl, ht'', hd''⟩
  | star =>
    rw [if_neg (by decide), if_pos (by decide), positions]
    refine tryFrom_findSome rest ht hd fun t mem => ?_
    obtain rfl | mem := List.mem_cons.mp (List.mem_reverse.mp mem)
    · exact inside
    · exact rounds_inside stays inside mem
  | plus =>
    rw [if_neg (by decide), if_neg (by decide), if_pos (by decide), positions]
    exact tryFrom_findSome rest ht hd fun t mem => rounds_inside stays inside (List.mem_reverse.mp mem)

/-- `m_atom_here` at an atom of one byte. -/
lemma mAtomHere_single {a : Single} (ok : a.Ok) (noNul : 0 ∉ text) (shallow : depth ≤ reMaxDepth) (q : Str) :
    Computes text depth (fun ms s => mAtomHere ms (a.text ++ q) s) a.step := by
  intro ms s ht hd inside
  obtain ⟨c, p, e, other⟩ := single_head ok
  simp only [List.mem_cons, List.not_mem_nil, or_false, not_or] at other
  obtain ⟨notBol, notEol, notOpen, -⟩ := other
  have matches_ {x : UInt8} (ne : x ≠ 0) : charMatches (c :: (p ++ q)) x = a.accepts x := by
    have same := charMatches_single ok q ne
    rwa [e, List.cons_append] at same
  dsimp only
  rw [e, List.cons_append, mAtomHere_cons, if_neg (by omega), if_neg notBol, if_neg notEol, if_neg notOpen]
  cases s with
  | nil => exact ⟨rfl, ht, hd⟩
  | cons x t =>
    have ne : x ≠ 0 := by
      rintro rfl
      exact noNul (inside.subset List.mem_cons_self)
    rw [Single.step]
    refine ⟨?_, ht, hd⟩
    change (if charMatches (c :: (p ++ q)) x then some t else none) = _
    rw [matches_ ne]

/-- `m_atom_here` at a group. -/
lemma mAtomHere_group {r : Pattern .alt} (ok : r.Ok) (shallow : depth ≤ reMaxDepth) {q : Str}
    (inner : Computes text (depth + 1) (fun ms s => mAlt ms (r.text ++ closeParen :: q) (closeParen :: q).length s) f) :
    Computes text depth (fun ms s => mAtomHere ms (openParen :: (r.text ++ closeParen :: q)) s) f := by
  intro ms s ht hd inside
  have opened (grp : Nat) : (ms.opens grp s).deeper.text = text ∧ (ms.opens grp s).deeper.depth = depth + 1 := by
    rw [MS.opens]
    split
    · exact ⟨ht, congrArg (· + 1) hd⟩
    · exact ⟨ht, congrArg (· + 1) hd⟩
  obtain ⟨ht₁, hd₁⟩ := opened (groupIndex ms.pat (openParen :: (r.text ++ closeParen :: q)))
  obtain ⟨e, ht₂, hd₂⟩ := inner _ s ht₁ hd₁ inside
  dsimp only at e ht₂ hd₂ ⊢
  rw [mAtomHere_cons, if_neg (by omega), if_neg (by decide), if_neg (by decide), if_pos rfl, skipAtom_group ok]
  rw [List.length_cons] at e ht₂ hd₂
  cases result : mAlt (ms.opens (groupIndex ms.pat (openParen :: (r.text ++ closeParen :: q))) s).deeper
      (r.text ++ closeParen :: q) (q.length + 1) s with
  | mk found after =>
    rw [result] at e ht₂ hd₂
    rw [← e]
    have shallower : after.shallower.text = text ∧ after.shallower.depth = depth :=
      ⟨ht₂, by rw [MS.shallower]; dsimp only at hd₂ ⊢; omega⟩
    cases found with
    | none =>
      refine ⟨rfl, ?_⟩
      dsimp only
      rw [MS.restore]
      split
      · exact shallower
      · exact shallower
    | some t =>
      refine ⟨rfl, ?_⟩
      dsimp only
      rw [MS.closes]
      split
      · exact shallower
      · exact shallower

end Sequences

/-! ### Patterns -/

/-- The matcher computes the first end of the pattern, wherever its text stands. -/
def Pattern.Computed (text : Str) : {l : Level} → Pattern l → Prop
  | .seq, r => ∀ tail depth, NoQuant tail → depth + r.depth ≤ reMaxDepth →
    Computes text depth (fun ms s => mSeq ms (r.text ++ tail) tail.length s) (r.first text)
  | .alt, r => ∀ tail depth, NoQuant tail → depth + r.depth ≤ reMaxDepth →
    Computes text depth (fun ms s => mAlt ms (r.text ++ tail) tail.length s) (r.first text)

/-- `m_seq` at an anchor. -/
lemma mSeq_anchor {text : Str} {depth : Nat} {c : UInt8} {p : Str} {pend : Nat} {b : Str → Bool}
    {g : Str → Option Str} (shallow : depth ≤ reMaxDepth) (before : pend ≤ p.length) (anchor : c = caret ∨ c = dollar)
    (here : ∀ ms s, ms.text = text → ms.depth = depth → mAtomHere ms (c :: p) s = (if b s then some s else none, ms))
    (rest : Computes text depth (fun ms s => mSeq ms p pend s) g) :
    Computes text depth (fun ms s => mSeq ms (c :: p) pend s) fun s => if b s then g s else none := by
  intro ms s ht hd inside
  dsimp only
  rw [mSeq, if_neg (by omega), if_neg (by omega), if_pos anchor, here ms s ht hd]
  cases b s with
  | true => exact rest ms s ht hd inside
  | false => exact ⟨rfl, ht, hd⟩

/-- The matcher finds the first ends. -/
lemma Pattern.computed {text : Str} (noNul : 0 ∉ text) {l : Level} {r : Pattern l} (ok : r.Ok) : r.Computed text := by
  induction r with
  | nil =>
    intro tail depth plain shallow ms s ht hd inside
    have ended : mSeq ms tail tail.length s = (some s, ms) := by
      cases tail with
      | nil => rw [mSeq, if_neg (by omega)]
      | cons c tail =>
        have here : tail.length + 1 ≤ (c :: tail).length := Nat.le_refl _
        rw [mSeq, if_neg (by omega), if_pos here]
    dsimp only
    rw [Pattern.text, List.nil_append, ended]
    exact ⟨rfl, ht, hd⟩
  | bol rest ih =>
    intro tail depth plain shallow
    have low : depth ≤ reMaxDepth := Nat.le_trans (Nat.le_add_right _ _) shallow
    refine mSeq_anchor (b := atBol text) low (room_append _ (Nat.le_refl _)) (.inl rfl) (fun ms s ht hd => ?_)
      (ih ok tail depth plain shallow)
    rw [mAtomHere_cons, if_neg (by omega), if_pos rfl, ht]
  | eol rest ih =>
    intro tail depth plain shallow
    have low : depth ≤ reMaxDepth := Nat.le_trans (Nat.le_add_right _ _) shallow
    refine mSeq_anchor (b := atEol) low (room_append _ (Nat.le_refl _)) (.inr rfl) (fun ms s ht hd => ?_)
      (ih ok tail depth plain shallow)
    rw [mAtomHere_cons, if_neg (by omega), if_neg (by decide), if_pos rfl]
  | single a k rest ih =>
    intro tail depth plain shallow
    have low : depth ≤ reMaxDepth := Nat.le_trans (Nat.le_add_right _ _) shallow
    have next := ih ok.2 tail depth plain shallow
    have after := noQuant_seq ok.2 plain
    obtain ⟨c, p, e, other⟩ := single_head ok.1
    simp only [List.mem_cons, List.not_mem_nil, or_false, not_or] at other
    have here := mAtomHere_single ok.1 noNul low (k.text ++ (rest.text ++ tail))
    have quant := quantAt_text k (skipAtom_single ok.1 (k.text ++ (rest.text ++ tail))) after
    rw [Pattern.text, List.append_assoc, List.append_assoc]
    rw [e, List.cons_append] at here quant ⊢
    refine mSeq_quant low ?_ (by rintro (h | h) <;> simp [h] at other) quant here (fun _ _ => Single.step_suffix) next
    exact room_append _ (room_append _ (room_append _ (Nat.le_refl _)))
  | group r k rest ihr ih =>
    intro tail depth plain shallow
    have low : depth ≤ reMaxDepth := Nat.le_trans (Nat.le_add_right _ _) shallow
    rw [Pattern.depth] at shallow
    have next := ih ok.2 tail depth plain (by omega)
    have after := noQuant_seq ok.2 plain
    have closing : NoQuant (closeParen :: (k.text ++ (rest.text ++ tail))) := by
      intro c h
      cases h
      decide
    have inner := ihr ok.1 (closeParen :: (k.text ++ (rest.text ++ tail))) (depth + 1) closing (by omega)
    have here := mAtomHere_group ok.1 low inner
    have quant : quantAt (openParen :: (r.text ++ closeParen :: (k.text ++ (rest.text ++ tail)))) =
        (k.code, rest.text ++ tail) := by
      have skipped := skipAtom_group ok.1 (k.text ++ (rest.text ++ tail))
      have whole : openParen :: (r.text ++ closeParen :: (k.text ++ (rest.text ++ tail))) =
          (openParen :: (r.text ++ [closeParen])) ++ (k.text ++ (rest.text ++ tail)) := by
        simp
      rw [whole] at skipped ⊢
      exact quantAt_text k skipped after
    rw [Pattern.text, List.cons_append, List.append_assoc, List.cons_append, List.append_assoc]
    refine mSeq_quant low ?_ (by decide) quant here (fun s t inside h => (Pattern.keeps_of_first inside h).2) next
    refine room_append _ (Nat.le_succ_of_le ?_)
    exact room_append _ (room_append _ (Nat.le_refl _))
  | last r ih =>
    intro tail depth plain shallow ms s ht hd inside
    rw [Pattern.depth] at shallow
    obtain ⟨e, ht', hd'⟩ := ih ok tail (depth + 1) plain (by omega) ms.deeper s ht (congrArg (· + 1) hd) inside
    dsimp only at e ht' hd' ⊢
    rw [Pattern.text, mAlt, if_neg (by omega), findTopAlt_seq ok]
    refine ⟨e, ht', ?_⟩
    change (mSeq ms.deeper (r.text ++ tail) tail.length s).2.depth - 1 = depth
    omega
  | or r r' ihr ihr' =>
    intro tail depth plain shallow ms s ht hd inside
    rw [Pattern.depth] at shallow
    have barred : NoQuant (bar :: (r'.text ++ tail)) := by
      intro c h
      cases h
      decide
    obtain ⟨e, ht₁, hd₁⟩ :=
      ihr ok.1 (bar :: (r'.text ++ tail)) (depth + 1) barred (by omega) ms.deeper s ht (congrArg (· + 1) hd) inside
    obtain ⟨e', ht₂, hd₂⟩ :=
      ihr' ok.2 tail (depth + 1) plain (by omega) ms.deeper s ht (congrArg (· + 1) hd) inside
    dsimp only at e ht₁ hd₁ e' ht₂ hd₂ ⊢
    rw [Pattern.text, List.append_assoc, List.cons_append, mAlt, if_neg (by omega), findTopAlt_or ok.1]
    rw [Pattern.first, ← e]
    cases result : mSeq ms.deeper (r.text ++ bar :: (r'.text ++ tail)) (bar :: (r'.text ++ tail)).length s with
    | mk found after =>
      rw [result] at ht₁ hd₁
      simp only [result]
      cases found with
      | none =>
        rw [Option.none_or]
        refine ⟨e', ht₂, ?_⟩
        change (mAlt ms.deeper (r'.text ++ tail) tail.length s).2.depth - 1 = depth
        omega
      | some t =>
        refine ⟨rfl, ht₁, ?_⟩
        change after.depth - 1 = depth
        dsimp only at hd₁
        omega

end WinRegex

end Cando
