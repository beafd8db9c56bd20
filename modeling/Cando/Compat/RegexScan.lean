import Cando.Compat.RegexSyntax

/-!
# Scanning the text of a pattern

`skip_atom`, `find_top_alt` and `char_matches` of `compat/win_regex.c` on the text of a well-formed pattern.
-/

namespace Cando

namespace WinRegex

/-! ### Classes -/

section Classes

variable {pend : Nat} {q rest : Str}

lemma skipMembers_plain {c : UInt8} (plain : Plain c) (ne : q ≠ []) (room : pend ≤ q.length) :
    skipMembers pend (c :: q) = skipMembers pend q := by
  have notClose : c ≠ closeBracket := fun e => plain (by simp [e])
  have notEscape : c ≠ backslash := fun e => plain (by simp [e])
  cases q with
  | nil => exact absurd rfl ne
  | cons d q =>
    rw [List.length_cons] at room
    rw [skipMembers, if_neg (by rintro (h | h) <;> [omega; exact notClose h]),
      if_neg (fun h => notEscape h.1)]

lemma skipMembers_escape {e : UInt8} (room : pend ≤ q.length) :
    skipMembers pend (backslash :: e :: q) = skipMembers pend q := by
  rw [skipMembers, if_neg (by rintro (h | h) <;> [omega; exact absurd h (by decide)]), if_pos ⟨rfl, by omega⟩]

lemma skipMembers_close (q : Str) : skipMembers pend (closeBracket :: q) = closeBracket :: q := by
  cases q with
  | nil => rw [skipMembers, if_pos (.inr rfl)]
  | cons d q => rw [skipMembers, if_pos (.inr rfl)]

lemma plain_dash : Plain dash := by
  rw [Plain]
  decide

/-- The members of a class are skipped. -/
lemma skipMembers_members {ms : List Member} (ok : MembersOk ms) (room : pend ≤ rest.length) :
    skipMembers pend (ms.flatMap Member.text ++ closeBracket :: rest) = closeBracket :: rest := by
  induction ms with
  | nil => exact skipMembers_close rest
  | cons m ms ih =>
    obtain ⟨okM, okMs, -⟩ := ok
    have there : pend ≤ (ms.flatMap Member.text ++ closeBracket :: rest).length := by
      rw [List.length_append, List.length_cons]
      omega
    have ne : ms.flatMap Member.text ++ closeBracket :: rest ≠ [] := by simp
    rw [List.flatMap_cons, List.append_assoc]
    cases m with
    | byte c => exact (skipMembers_plain okM ne there).trans (ih okMs)
    | escaped e => exact (skipMembers_escape there).trans (ih okMs)
    | range lo hi =>
      obtain ⟨okLo, okHi⟩ := okM
      change skipMembers pend (lo :: dash :: hi :: (ms.flatMap Member.text ++ closeBracket :: rest)) = _
      rw [skipMembers_plain okLo (List.cons_ne_nil _ _) (by simp only [List.length_cons]; omega),
        skipMembers_plain plain_dash (List.cons_ne_nil _ _) (by simp only [List.length_cons]; omega),
        skipMembers_plain okHi ne there, ih okMs]
    | rangeTo lo hi =>
      change skipMembers pend (lo :: dash :: backslash :: hi.letter ::
        (ms.flatMap Member.text ++ closeBracket :: rest)) = _
      rw [skipMembers_plain okM.1 (List.cons_ne_nil _ _) (by simp only [List.length_cons]; omega),
        skipMembers_plain plain_dash (List.cons_ne_nil _ _) (by simp only [List.length_cons]; omega),
        skipMembers_escape there, ih okMs]

lemma isAt_cons {c d : UInt8} (room : pend ≤ q.length) : isAt pend c (d :: q) = (d == c) := by
  have more : pend < (d :: q).length := by
    rw [List.length_cons]
    omega
  rw [isAt, decide_eq_true more, Bool.true_and, List.head?_cons, Option.some_beq_some]

/-- The first byte of a text of members is not the `]` that ends them. -/
lemma members_head {ms : List Member} (ok : MembersOk ms) (ne : ms ≠ []) :
    ∃ c t, ms.flatMap Member.text = c :: t ∧ c ≠ closeBracket := by
  cases ms with
  | nil => exact absurd rfl ne
  | cons m ms =>
    obtain ⟨okM, -, -⟩ := ok
    rw [List.flatMap_cons]
    cases m with
    | byte c => exact ⟨c, _, rfl, fun e => okM (by simp [e])⟩
    | escaped e => exact ⟨backslash, _, rfl, by decide⟩
    | range lo hi => exact ⟨lo, _, rfl, fun e => okM.1 (by simp [e])⟩
    | rangeTo lo hi => exact ⟨lo, _, rfl, fun e => okM.1 (by simp [e])⟩

/-- What a class text is made of, read from the left. -/
lemma classText_cases {neg close : Bool} {ms : List Member} (ok : (Single.class neg close ms).Ok) (rest : Str) :
    ∃ p, classText neg close ms ++ closeBracket :: rest = (if neg then [caret] else []) ++ p ∧
      (neg = false → p.head? ≠ some caret) ∧
      ((close ∧ p = closeBracket :: (ms.flatMap Member.text ++ closeBracket :: rest)) ∨
        (close = false ∧ p = ms.flatMap Member.text ++ closeBracket :: rest ∧
          ∃ c t, p = c :: t ∧ c ≠ closeBracket)) := by
  obtain ⟨okMs, some, noCaret⟩ := ok
  cases close with
  | true =>
    refine ⟨closeBracket :: (ms.flatMap Member.text ++ closeBracket :: rest), ?_, ?_, .inl ⟨rfl, rfl⟩⟩
    · simp [classText]
    · intro _ h
      cases h
  | false =>
    have ne : ms ≠ [] := by simpa using some
    obtain ⟨c, t, e, notClose⟩ := members_head okMs ne
    refine ⟨ms.flatMap Member.text ++ closeBracket :: rest, ?_, ?_, .inr ⟨rfl, rfl, c, t ++ closeBracket :: rest, ?_,
      notClose⟩⟩
    · simp [classText]
    · intro plain h
      rw [e] at h
      exact noCaret plain rfl (by rw [e]; exact h)
    · rw [e, List.cons_append]

/-- A class is skipped, from behind its `[`. -/
lemma skipClass_text {neg close : Bool} {ms : List Member} (ok : (Single.class neg close ms).Ok)
    (room : pend ≤ rest.length) : skipClass pend (classText neg close ms ++ closeBracket :: rest) = rest := by
  obtain ⟨p, e, noCaret, shape⟩ := classText_cases ok rest
  have okMs := ok.1
  have length : pend + 1 ≤ p.length := by
    obtain ⟨-, rfl⟩ | ⟨-, rfl, -⟩ := shape
    · simp only [List.length_cons, List.length_append]
      omega
    · simp only [List.length_cons, List.length_append]
      omega
  have behind : skipClassStart pend (classText neg close ms ++ closeBracket :: rest) =
      ms.flatMap Member.text ++ closeBracket :: rest := by
    have first : (if isAt pend caret (classText neg close ms ++ closeBracket :: rest) then
        (classText neg close ms ++ closeBracket :: rest).tail
        else classText neg close ms ++ closeBracket :: rest) = p := by
      rw [e]
      cases neg with
      | true =>
        change (if isAt pend caret (caret :: p) then p else caret :: p) = p
        rw [isAt_cons (by omega)]
        rfl
      | false =>
        have no : isAt pend caret p = false := by
          have head := noCaret rfl
          simp [isAt, head]
        change (if isAt pend caret p then p.tail else p) = p
        rw [no]
        rfl
    simp only [skipClassStart]
    rw [first]
    obtain ⟨-, rfl⟩ | ⟨-, rfl, c, t, head, notClose⟩ := shape
    · rw [isAt_cons (by simp only [List.length_cons] at length; omega)]
      rfl
    · rw [head] at length ⊢
      rw [isAt_cons (by simp only [List.length_cons] at length; omega)]
      have no : (c == closeBracket) = false := by simpa using notClose
      rw [no]
      rfl
  rw [skipClass, behind, skipMembers_members okMs room, List.tail_cons]

lemma readUpper_none {lo : UInt8} {p : Str} (noRange : ∀ x t, p = dash :: x :: t → x = closeBracket) :
    readUpper lo p = (lo, p) := by
  cases p with
  | nil => rfl
  | cons d p =>
    cases p with
    | nil => rfl
    | cons x p =>
      have plain : ¬(d = dash ∧ x ≠ closeBracket) := fun ⟨e, notClose⟩ => notClose (noRange x p (by rw [e]))
      rw [readUpper, if_neg plain]

lemma classEscape_letter {e : ByteEscape} (ok : e.Ok) : classEscape e.letter = e.byte := by
  cases e with
  | other c =>
    have ne (d : UInt8) (h : d ∈ [0, 100, 68, 119, 87, 115, 83, 110, 116, 114]) : c ≠ d := fun e => ok (e ▸ h)
    rw [ByteEscape.letter, ByteEscape.byte, classEscape, if_neg (ne 110 (by decide)), if_neg (ne 116 (by decide)),
      if_neg (ne 114 (by decide))]
  | _ => rfl

lemma readMember_plain {c : UInt8} {p : Str} (plain : Plain c) :
    readMember c p = ((c, (readUpper c p).1), (readUpper c p).2) := by
  have notEscape : c ≠ backslash := fun e => plain (by simp [e])
  rw [readMember, if_neg fun h => notEscape h.1]

lemma bounds_eq (c x : UInt8) : (c ≤ x && x ≤ c) = (x == c) := by
  rw [Bool.eq_iff_iff, Bool.and_eq_true, decide_eq_true_eq, decide_eq_true_eq, beq_iff_eq]
  exact ⟨fun h => UInt8.le_antisymm h.2 h.1, fun h => h ▸ ⟨UInt8.le_refl _, UInt8.le_refl _⟩⟩

/-- The bounds of a member, as they are read. -/
lemma readMember_text {m : Member} {ms : List Member} (ok : MembersOk (m :: ms)) (rest : Str) (x : UInt8) :
    ∃ c p, m.text ++ (ms.flatMap Member.text ++ closeBracket :: rest) = c :: p ∧ c ≠ closeBracket ∧
      (readMember c p).2 = ms.flatMap Member.text ++ closeBracket :: rest ∧
      ((readMember c p).1.1 ≤ x && x ≤ (readMember c p).1.2) = m.has x := by
  obtain ⟨okM, -, alone⟩ := ok
  have noRange (byte : m.isByte) (y : UInt8) (t : Str)
      (e : ms.flatMap Member.text ++ closeBracket :: rest = dash :: y :: t) : y = closeBracket := by
    cases members : ms.flatMap Member.text with
    | nil =>
      rw [members, List.nil_append] at e
      cases e
    | cons d ds =>
      rw [members] at e alone
      obtain ⟨rfl, e₁⟩ := List.cons.inj e
      have one := alone byte rfl
      obtain rfl : ds = [] := List.eq_nil_of_length_eq_zero (Nat.succ.inj one)
      exact (List.cons.inj e₁).1.symm
  cases m with
  | byte c =>
    refine ⟨c, _, rfl, fun e => okM (by simp [e]), ?_, ?_⟩
    · rw [readMember_plain okM]
      exact congrArg Prod.snd (readUpper_none (noRange rfl))
    · rw [readMember_plain okM]
      change (c ≤ x && x ≤ (readUpper c (ms.flatMap Member.text ++ closeBracket :: rest)).1) = (x == c)
      rw [readUpper_none (noRange rfl)]
      exact bounds_eq c x
  | escaped e =>
    refine ⟨backslash, _, rfl, by decide, rfl, ?_⟩
    change (classEscape e.letter ≤ x && x ≤ classEscape e.letter) = (x == e.byte)
    rw [classEscape_letter okM]
    exact bounds_eq e.byte x
  | range lo hi =>
    obtain ⟨okLo, okHi⟩ := okM
    have notClose : hi ≠ closeBracket := fun e => okHi (by simp [e])
    have notEscape : hi ≠ backslash := fun e => okHi (by simp [e])
    have upper (t : Str) : readUpper lo (dash :: hi :: t) = (hi, t) := by
      rw [readUpper, if_pos ⟨rfl, notClose⟩, if_neg fun h => notEscape h.1]
    refine ⟨lo, _, rfl, fun e => okLo (by simp [e]), ?_, ?_⟩
    · rw [readMember_plain okLo]
      exact congrArg Prod.snd (upper _)
    · rw [readMember_plain okLo]
      change (lo ≤ x && x ≤ (readUpper lo (dash :: hi :: _)).1) = _
      rw [upper]
      rfl
  | rangeTo lo hi =>
    obtain ⟨okLo, okHi⟩ := okM
    have upper (t : Str) : readUpper lo (dash :: backslash :: hi.letter :: t) = (hi.byte, t) := by
      rw [readUpper, if_pos ⟨rfl, by decide⟩, if_pos ⟨rfl, List.cons_ne_nil _ _⟩, ← classEscape_letter okHi]
      rfl
    refine ⟨lo, _, rfl, fun e => okLo (by simp [e]), ?_, ?_⟩
    · rw [readMember_plain okLo]
      exact congrArg Prod.snd (upper _)
    · rw [readMember_plain okLo]
      change (lo ≤ x && x ≤ (readUpper lo (dash :: backslash :: hi.letter :: _)).1) = _
      rw [upper]
      rfl

/-- The members of a class that have a byte are found. -/
lemma membersMatch_members {ms : List Member} (ok : MembersOk ms) (rest : Str) (x : UInt8) (found : Bool) :
    membersMatch x (ms.flatMap Member.text ++ closeBracket :: rest) found = (found || ms.any (·.has x)) := by
  induction ms generalizing found with
  | nil =>
    rw [List.flatMap_nil, List.nil_append, membersMatch, if_pos rfl, List.any_nil, Bool.or_false]
  | cons m ms ih =>
    obtain ⟨c, p, e, notClose, next, bounds⟩ := readMember_text ok rest x
    rw [List.flatMap_cons, List.append_assoc, e, membersMatch, if_neg notClose]
    simp only [next]
    rw [ih ok.2.1, bounds, List.any_cons, Bool.or_assoc]

/-- A class matches what its members have, or what they do not. -/
lemma classMatches_text {neg close : Bool} {ms : List Member} (ok : (Single.class neg close ms).Ok) (rest : Str)
    (x : UInt8) :
    classMatches (classText neg close ms ++ closeBracket :: rest) x = (Single.class neg close ms).accepts x := by
  obtain ⟨p, e, noCaret, shape⟩ := classText_cases ok rest
  have found : (if isAt 0 closeBracket p then membersMatch x p.tail (x == closeBracket) else membersMatch x p false) =
      classHas close ms x := by
    obtain ⟨isClose, rfl⟩ | ⟨isClose, rfl, c, t, head, notClose⟩ := shape
    · rw [isAt_cons (Nat.zero_le _), if_pos (by decide), List.tail_cons, membersMatch_members ok.1, classHas, isClose,
        Bool.true_and]
    · have no : isAt 0 closeBracket (c :: t) = false := by
        rw [isAt_cons (Nat.zero_le _)]
        exact beq_eq_false_iff_ne.mpr notClose
      rw [head, no, ← head, if_neg (by decide), membersMatch_members ok.1, classHas, isClose,
        Bool.false_and]
  have start : isAt 0 caret (classText neg close ms ++ closeBracket :: rest) = neg ∧
      (if neg then (classText neg close ms ++ closeBracket :: rest).tail
        else classText neg close ms ++ closeBracket :: rest) = p := by
    rw [e]
    cases neg with
    | true => exact ⟨isAt_cons (Nat.zero_le _), rfl⟩
    | false =>
      have head := noCaret rfl
      exact ⟨by simp [isAt, head], rfl⟩
  simp only [classMatches]
  rw [start.1, start.2, found]
  rfl

end Classes

/-! ### Atoms -/

lemma escapeMatches_letter {e : Escape} (ok : (Single.escape e).Ok) (x : UInt8) :
    escapeMatches e.letter x = e.accepts x := by
  cases e with
  | byte b =>
    cases b with
    | other c =>
      have ne (d : UInt8) (h : d ∈ [0, 100, 68, 119, 87, 115, 83, 110, 116, 114]) : c ≠ d := fun e => ok (e ▸ h)
      change escapeMatches c x = (x == c)
      rw [escapeMatches, if_neg (ne 100 (by decide)), if_neg (ne 68 (by decide)), if_neg (ne 119 (by decide)),
        if_neg (ne 87 (by decide)), if_neg (ne 115 (by decide)), if_neg (ne 83 (by decide)),
        if_neg (ne 110 (by decide)), if_neg (ne 116 (by decide)), if_neg (ne 114 (by decide))]
    | _ => rfl
  | _ => rfl

lemma literal_ne {c d : UInt8} (ok : (Single.literal c).Ok) (h : d ∈ specials) : c ≠ d := fun e => ok (e ▸ h)

/-- An atom matches the bytes that it accepts. -/
lemma charMatches_single {a : Single} (ok : a.Ok) (rest : Str) {x : UInt8} (ne : x ≠ 0) :
    charMatches (a.text ++ rest) x = a.accepts x := by
  cases a with
  | literal c =>
    change charMatches (c :: rest) x = (x == c)
    rw [charMatches, if_neg ne, if_neg (literal_ne ok (by decide)), if_neg (literal_ne ok (by decide)),
      if_neg (literal_ne ok (by decide))]
  | any =>
    change charMatches (dot :: rest) x = true
    rw [charMatches, if_neg ne, if_pos rfl]
  | escape e =>
    change charMatches (backslash :: e.letter :: rest) x = e.accepts x
    rw [charMatches, if_neg ne, if_neg (by decide), if_pos rfl]
    exact escapeMatches_letter ok x
  | «class» neg close ms =>
    change charMatches (openBracket :: (classText neg close ms ++ [closeBracket] ++ rest)) x = _
    rw [charMatches, if_neg ne, if_neg (by decide), if_neg (by decide), if_pos rfl, List.append_assoc]
    exact classMatches_text ok rest x

/-- An atom begins with a byte that is neither an anchor, a parenthesis, a bar nor a quantifier. -/
lemma single_head {a : Single} (ok : a.Ok) :
    ∃ c p, a.text = c :: p ∧ c ∉ [caret, dollar, openParen, closeParen, bar, star, plus, quest] := by
  cases a with
  | literal c =>
    refine ⟨c, [], rfl, fun h => ok ?_⟩
    revert h
    simp only [specials, List.mem_cons, List.not_mem_nil, or_false]
    rintro (rfl | rfl | rfl | rfl | rfl | rfl | rfl | rfl) <;> decide
  | any => exact ⟨dot, [], rfl, by decide⟩
  | escape e => exact ⟨backslash, _, rfl, by decide⟩
  | «class» neg close ms => exact ⟨openBracket, _, rfl, by decide⟩

/-! ### Balanced texts -/

/-- A function of the pattern that reads it from the left and counts the open groups, from a number `m` of them on:
escapes and classes are read as a whole, and outside all groups a bar may mean something. -/
structure Scans {β : Type} (m pend : Nat) (f : Nat → Str → β) : Prop where
  escape : ∀ d e q, pend ≤ q.length → f d (backslash :: e :: q) = f d q
  «class» : ∀ d q, pend ≤ q.length → f d (openBracket :: q) = f d (skipClass pend q)
  opens : ∀ d q, pend ≤ q.length → f d (openParen :: q) = f (d + 1) q
  closes : ∀ d q, m ≤ d → pend ≤ q.length → f (d + 1) (closeParen :: q) = f d q
  bar : ∀ d q, 0 < d → pend ≤ q.length → f d (WinRegex.bar :: q) = f d q
  other : ∀ d c q, c ∉ [backslash, openBracket, openParen, closeParen, WinRegex.bar] → pend ≤ q.length →
    f d (c :: q) = f d q

lemma room_append {pend : Nat} {q : Str} (p : Str) (room : pend ≤ q.length) : pend ≤ (p ++ q).length := by
  rw [List.length_append]
  omega

section Scans

variable {β : Type} {m pend : Nat} {f : Nat → Str → β} (h : Scans m pend f) {d : Nat} {q : Str}

include h

lemma Scans.single {a : Single} (ok : a.Ok) (room : pend ≤ q.length) : f d (a.text ++ q) = f d q := by
  cases a with
  | literal c =>
    refine h.other d c q (fun e => ok ?_) room
    revert e
    simp only [specials, List.mem_cons, List.not_mem_nil, or_false]
    rintro (rfl | rfl | rfl | rfl | rfl) <;> decide
  | any => exact h.other d dot q (by decide) room
  | escape e => exact h.escape d e.letter q room
  | «class» neg close ms =>
    have more : pend ≤ (classText neg close ms ++ closeBracket :: q).length := by
      simp only [List.length_append, List.length_cons]
      omega
    change f d (openBracket :: (classText neg close ms ++ [closeBracket] ++ q)) = _
    rw [List.append_assoc]
    exact (h.class d _ more).trans (congrArg (f d) (skipClass_text ok room))

lemma Scans.quant (k : Quant) (room : pend ≤ q.length) : f d (k.text ++ q) = f d q := by
  cases k with
  | once => rfl
  | _ => exact h.other d _ q (by decide) room

/-- A pattern is read as a whole, an alternation inside of a group. -/
lemma Scans.pattern {l : Level} {r : Pattern l} (ok : r.Ok) (low : m ≤ d) (inside : l = .alt → 0 < d)
    (room : pend ≤ q.length) : f d (r.text ++ q) = f d q := by
  induction r generalizing d q with
  | nil => rfl
  | bol rest ih => exact (h.other d caret _ (by decide) (room_append _ room)).trans (ih ok low inside room)
  | eol rest ih => exact (h.other d dollar _ (by decide) (room_append _ room)).trans (ih ok low inside room)
  | single a k rest ih =>
    have after := room_append rest.text room
    rw [Pattern.text, List.append_assoc, List.append_assoc, h.single ok.1 (room_append _ after), h.quant k after]
    exact ih ok.2 low inside room
  | group r k rest ihr ih =>
    have after := room_append rest.text room
    have quantified := room_append k.text after
    have closing : pend ≤ (closeParen :: (k.text ++ (rest.text ++ q))).length := Nat.le_succ_of_le quantified
    rw [Pattern.text, List.cons_append, List.append_assoc, List.cons_append, List.append_assoc,
      h.opens d _ (room_append _ closing), ihr ok.1 (Nat.le_succ_of_le low) (fun _ => Nat.succ_pos d) closing,
      h.closes d _ low quantified, h.quant k after]
    exact ih ok.2 low inside room
  | last r ih => exact ih ok low (by rintro ⟨⟩) room
  | or r r' ihr ihr' =>
    have after := room_append r'.text room
    have barred : pend ≤ (WinRegex.bar :: (r'.text ++ q)).length := Nat.le_succ_of_le after
    rw [Pattern.text, List.append_assoc, List.cons_append, ihr ok.1 low (by rintro ⟨⟩) barred,
      h.bar d _ (inside rfl) after]
    exact ihr' ok.2 low inside room

end Scans

/-- The end of a group is found behind the groups in it. -/
lemma scans_skipGroup : Scans 1 0 skipGroup where
  escape d e q _ := by rw [skipGroup, if_pos ⟨rfl, List.cons_ne_nil _ _⟩, List.tail_cons]
  «class» d q _ := by rw [skipGroup, if_neg fun h => absurd h.1 (by decide), if_pos rfl]
  opens d q _ := by rw [skipGroup, if_neg fun h => absurd h.1 (by decide), if_neg (by decide), if_pos rfl]
  closes d q low _ := by
    rw [skipGroup, if_neg fun h => absurd h.1 (by decide), if_neg (by decide), if_neg (by decide), if_pos rfl,
      if_neg (by omega), Nat.add_sub_cancel]
  bar d q _ _ := by
    rw [skipGroup, if_neg fun h => absurd h.1 (by decide), if_neg (by decide), if_neg (by decide), if_neg (by decide)]
  other d c q other _ := by
    simp only [List.mem_cons, List.not_mem_nil, or_false, not_or] at other
    obtain ⟨notEscape, notClass, notOpen, notClose, -⟩ := other
    rw [skipGroup, if_neg fun h => notEscape h.1, if_neg notClass, if_neg notOpen, if_neg notClose]

/-- A bar outside all groups is found. -/
lemma scans_findTopAlt (pend : Nat) : Scans 0 pend (findTopAlt pend) where
  escape d e q room := by
    have more : pend < (e :: q).length := Nat.lt_succ_of_le room
    rw [findTopAlt, if_neg (by rw [List.length_cons]; omega), if_pos rfl, if_pos more, List.tail_cons]
  «class» d q room := by rw [findTopAlt, if_neg (by omega), if_neg (by decide), if_pos rfl]
  opens d q room := by rw [findTopAlt, if_neg (by omega), if_neg (by decide), if_neg (by decide), if_pos rfl]
  closes d q _ room := by
    rw [findTopAlt, if_neg (by omega), if_neg (by decide), if_neg (by decide), if_neg (by decide), if_pos rfl,
      Nat.add_sub_cancel]
  bar d q inside room := by
    rw [findTopAlt, if_neg (by omega), if_neg (by decide), if_neg (by decide), if_neg (by decide), if_neg (by decide),
      if_neg (by omega)]
  other d c q other room := by
    simp only [List.mem_cons, List.not_mem_nil, or_false, not_or] at other
    obtain ⟨notEscape, notClass, notOpen, notClose, notBar⟩ := other
    rw [findTopAlt, if_neg (by omega), if_neg notEscape, if_neg notClass, if_neg notOpen, if_neg notClose,
      if_neg fun h => notBar h.1]

/-- A sequence has no alternative. -/
lemma findTopAlt_seq {r : Pattern .seq} (ok : r.Ok) (tail : Str) :
    findTopAlt tail.length 0 (r.text ++ tail) = none := by
  rw [(scans_findTopAlt tail.length).pattern ok (Nat.le_refl 0) (by rintro ⟨⟩) (Nat.le_refl _)]
  cases tail with
  | nil => rw [findTopAlt]
  | cons c tail =>
    have ended : tail.length + 1 ≤ (c :: tail).length := Nat.le_refl _
    rw [findTopAlt, if_pos ended]

/-- The first alternative ends at its bar. -/
lemma findTopAlt_or {r : Pattern .seq} (ok : r.Ok) (p tail : Str) :
    findTopAlt tail.length 0 (r.text ++ bar :: (p ++ tail)) = some (bar :: (p ++ tail)) := by
  have room : tail.length ≤ (p ++ tail).length := room_append p (Nat.le_refl _)
  have barred : tail.length ≤ (bar :: (p ++ tail)).length := Nat.le_succ_of_le room
  rw [(scans_findTopAlt tail.length).pattern ok (Nat.le_refl 0) (by rintro ⟨⟩) barred, findTopAlt, if_neg (by omega),
    if_neg (by decide), if_neg (by decide), if_neg (by decide), if_neg (by decide), if_pos ⟨rfl, rfl⟩]

lemma skipAtom_single {a : Single} (ok : a.Ok) (rest : Str) : skipAtom (a.text ++ rest) = rest := by
  cases a with
  | literal c =>
    change skipAtom (c :: rest) = rest
    rw [skipAtom, if_neg (literal_ne ok (by decide)), if_neg (literal_ne ok (by decide)),
      if_neg (literal_ne ok (by decide))]
  | any => rfl
  | escape e => rfl
  | «class» neg close ms =>
    change skipAtom (openBracket :: (classText neg close ms ++ [closeBracket] ++ rest)) = rest
    rw [skipAtom, if_neg (by decide), if_pos rfl, List.append_assoc]
    exact skipClass_text ok (Nat.zero_le _)

lemma skipAtom_group {r : Pattern .alt} (ok : r.Ok) (rest : Str) :
    skipAtom (openParen :: (r.text ++ closeParen :: rest)) = rest := by
  rw [skipAtom, if_neg (by decide), if_neg (by decide), if_pos rfl,
    scans_skipGroup.pattern ok (Nat.le_refl 1) (fun _ => Nat.one_pos) (Nat.zero_le _), skipGroup,
    if_neg fun h => absurd h.1 (by decide), if_neg (by decide), if_neg (by decide), if_pos rfl, if_pos (Nat.le_refl 1)]

/-! ### Quantifiers -/

def Quant.code : Quant → Option UInt8
  | .once => none
  | .optional => some quest
  | .star => some WinRegex.star
  | .plus => some WinRegex.plus

/-- No quantifier stands here. -/
def NoQuant (p : Str) : Prop := ∀ c, p.head? = some c → c ∉ [star, plus, quest]

/-- The quantifier of an atom is the one behind it. -/
lemma quantAt_text {atom rest : Str} (k : Quant) (skipped : skipAtom (atom ++ (k.text ++ rest)) = k.text ++ rest)
    (plain : NoQuant rest) : quantAt (atom ++ (k.text ++ rest)) = (k.code, rest) := by
  rw [quantAt, skipped]
  cases k with
  | once =>
    cases rest with
    | nil => rfl
    | cons c rest =>
      have none := plain c rfl
      simp only [List.mem_cons, List.not_mem_nil, or_false] at none
      change (if _ then _ else _) = _
      rw [if_neg none]
      rfl
  | _ => rfl

/-- A sequence does not begin with a quantifier, nor does what may follow it. -/
lemma noQuant_seq {r : Pattern .seq} (ok : r.Ok) {tail : Str} (plain : NoQuant tail) : NoQuant (r.text ++ tail) := by
  cases r with
  | nil => exact plain
  | bol rest =>
    intro c h
    cases h
    decide
  | eol rest =>
    intro c h
    cases h
    decide
  | single a k rest =>
    obtain ⟨c, p, e, other⟩ := single_head ok.1
    intro d h
    rw [Pattern.text, e] at h
    cases h
    exact fun quantifier => other (by
      revert quantifier
      simp only [List.mem_cons, List.not_mem_nil, or_false]
      rintro (rfl | rfl | rfl) <;> decide)
  | group r k rest =>
    intro c h
    cases h
    decide

end WinRegex

end Cando
