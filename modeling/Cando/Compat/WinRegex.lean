import Cando.Core.Number
import Mathlib.Tactic.Common

/-!
# The bundled regular expressions

`compat/win_regex.c`, as far as it matches: a recursive matcher over the text of the pattern. A pointer into the pattern
or the subject is what is left of it, and the end of an alternative is known by its distance from the end of the
pattern. The NUL at the end of a string is the end of the list.
-/

namespace Cando

namespace WinRegex

/-- `RE_MAXGROUPS` -/
def reMaxGroups : Nat := 32
/-- `RE_MAXDEPTH` -/
def reMaxDepth : Nat := 200
/-- The length of `positions` in `m_seq`. -/
def maxPositions : Nat := 4096

abbrev dollar : UInt8 := 36
abbrev openParen : UInt8 := 40
abbrev closeParen : UInt8 := 41
abbrev star : UInt8 := 42
abbrev plus : UInt8 := 43
abbrev dash : UInt8 := 45
abbrev dot : UInt8 := 46
abbrev quest : UInt8 := 63
abbrev openBracket : UInt8 := 91
abbrev backslash : UInt8 := 92
abbrev closeBracket : UInt8 := 93
abbrev caret : UInt8 := 94
abbrev bar : UInt8 := 124

/-! ### Scanning the pattern -/

/-- The byte at the pointer is `c`, and the pointer is before `pend`. -/
def isAt (pend : Nat) (c : UInt8) (p : Str) : Bool := pend < p.length && p.head? == some c

/-- Past the members of a class, to its `]` or to `pend`. -/
def skipMembers (pend : Nat) : Str → Str
  | [] => []
  | [c] => if 1 ≤ pend ∨ c = closeBracket then [c] else []
  | c :: d :: p =>
    if p.length + 2 ≤ pend ∨ c = closeBracket then c :: d :: p
    else if c = backslash ∧ pend < p.length + 1 then skipMembers pend p
    else skipMembers pend (d :: p)

/-- Behind the `[` of a class: past a `^` and a `]` that is its first member. -/
def skipClassStart (pend : Nat) (p : Str) : Str :=
  let p := if isAt pend caret p then p.tail else p
  if isAt pend closeBracket p then p.tail else p

/-- Past a class, from behind its `[`. -/
def skipClass (pend : Nat) (p : Str) : Str := (skipMembers pend (skipClassStart pend p)).tail

lemma skipMembers_length (pend : Nat) (p : Str) : (skipMembers pend p).length ≤ p.length := by
  induction p using skipMembers.induct pend with
  | case1 => exact Nat.le_refl _
  | case2 c stays =>
    exact Nat.le_of_eq (congrArg List.length (by rw [skipMembers, if_pos stays]))
  | case3 c goes =>
    rw [skipMembers, if_neg goes]
    exact Nat.zero_le _
  | case4 c d p stays =>
    exact Nat.le_of_eq (congrArg List.length (by rw [skipMembers, if_pos stays]))
  | case5 c d p goes escaped ih =>
    rw [skipMembers, if_neg goes, if_pos escaped]
    exact Nat.le_trans ih (Nat.le_add_right _ 2)
  | case6 c d p goes plain ih =>
    rw [skipMembers, if_neg goes, if_neg plain]
    exact Nat.le_trans ih (Nat.le_add_right _ 1)

lemma skipClassStart_length (pend : Nat) (p : Str) : (skipClassStart pend p).length ≤ p.length := by
  have step (c : Bool) (q : Str) : (if c then q.tail else q).length ≤ q.length := by
    cases c with
    | false => exact Nat.le_refl _
    | true => exact List.length_tail ▸ Nat.sub_le _ _
  exact Nat.le_trans (step _ _) (step _ _)

lemma skipClass_length (pend : Nat) (p : Str) : (skipClass pend p).length ≤ p.length := by
  have start := skipClassStart_length pend p
  have members := skipMembers_length pend (skipClassStart pend p)
  rw [skipClass, List.length_tail]
  omega

/-- Past the `)` that closes the group `depth` levels out. -/
def skipGroup : (depth : Nat) → Str → Str
  | _, [] => []
  | depth, c :: p =>
    if c = backslash ∧ p ≠ [] then skipGroup depth p.tail
    else if c = openBracket then skipGroup depth (skipClass 0 p)
    else if c = openParen then skipGroup (depth + 1) p
    else if c = closeParen then
      if depth ≤ 1 then p else skipGroup (depth - 1) p
    else skipGroup depth p
termination_by _ p => p.length
decreasing_by
  all_goals
    have class_ := skipClass_length 0 p
    simp only [List.length_cons, List.length_tail]
    omega

/-- `skip_atom` -/
def skipAtom : Str → Str
  | [] => []
  | c :: p =>
    if c = backslash then p.tail
    else if c = openBracket then skipClass 0 p
    else if c = openParen then skipGroup 1 p
    else p

/-- `find_top_alt`, inside `depth` groups. -/
def findTopAlt (pend : Nat) : (depth : Nat) → Str → Option Str
  | _, [] => none
  | depth, c :: p =>
    if p.length + 1 ≤ pend then none
    else if c = backslash then findTopAlt pend depth (if pend < p.length then p.tail else p)
    else if c = openBracket then findTopAlt pend depth (skipClass pend p)
    else if c = openParen then findTopAlt pend (depth + 1) p
    else if c = closeParen then findTopAlt pend (depth - 1) p
    else if c = bar ∧ depth = 0 then some (c :: p)
    else findTopAlt pend depth p
termination_by _ p => p.length
decreasing_by
  all_goals
    have class_ := skipClass_length pend p
    try split
    all_goals
      simp only [List.length_cons, List.length_tail]
      omega

/-- The number of groups that open before `pend`. -/
def groupsBefore (pend : Nat) : Str → Nat
  | [] => 0
  | c :: p =>
    if p.length + 1 ≤ pend then 0
    else if c = backslash then groupsBefore pend p.tail
    else if c = openBracket then groupsBefore pend (skipClass 0 p)
    else if c = openParen then groupsBefore pend p + 1
    else groupsBefore pend p
termination_by p => p.length
decreasing_by
  all_goals
    have class_ := skipClass_length 0 p
    simp only [List.length_cons, List.length_tail]
    omega

/-- `count_groups` -/
def countGroups (p : Str) : Nat := groupsBefore 0 p

/-- `group_index` -/
def groupIndex (pat p : Str) : Nat := groupsBefore p.length pat + 1

/-! ### Matching a byte -/

/-- `isdigit` -/
def isDigit (c : UInt8) : Bool := 48 ≤ c && c ≤ 57
/-- `isalnum` -/
def isAlnum (c : UInt8) : Bool := isDigit c || (65 ≤ c && c ≤ 90) || (97 ≤ c && c ≤ 122)
/-- `isspace` -/
def isSpace (c : UInt8) : Bool := c == 32 || (9 ≤ c && c ≤ 13)

/-- What `\e` matches outside a class. -/
def escapeMatches (e c : UInt8) : Bool :=
  if e = 100 then isDigit c
  else if e = 68 then !isDigit c
  else if e = 119 then isAlnum c || c == 95
  else if e = 87 then !(isAlnum c || c == 95)
  else if e = 115 then isSpace c
  else if e = 83 then !isSpace c
  else if e = 110 then c == 10
  else if e = 116 then c == 9
  else if e = 114 then c == 13
  else c == e

/-- The byte that `\e` is inside a class. -/
def classEscape (e : UInt8) : UInt8 := if e = 110 then 10 else if e = 116 then 9 else if e = 114 then 13 else e

/-- The upper bound of a range, from behind its lower bound, or of a single member. -/
def readUpper (lo : UInt8) : Str → UInt8 × Str
  | d :: x :: p =>
    if d = dash ∧ x ≠ closeBracket then
      if x = backslash ∧ p ≠ [] then (classEscape (p.headD 0), p.tail) else (x, p)
    else (lo, d :: x :: p)
  | p => (lo, p)

/-- A member of a class: its bounds, and what follows it. -/
def readMember (c : UInt8) (p : Str) : (UInt8 × UInt8) × Str :=
  if c = backslash ∧ p ≠ [] then ((classEscape (p.headD 0), classEscape (p.headD 0)), p.tail)
  else ((c, (readUpper c p).1), (readUpper c p).2)

lemma readUpper_length (lo : UInt8) (p : Str) : (readUpper lo p).2.length ≤ p.length := by
  unfold readUpper
  split
  · split
    · split
      · rw [List.length_tail]
        exact Nat.le_trans (Nat.sub_le _ _) (Nat.le_add_right _ 2)
      · exact Nat.le_add_right _ 2
    · exact Nat.le_refl _
  · exact Nat.le_refl _

lemma readMember_length (c : UInt8) (p : Str) : (readMember c p).2.length ≤ p.length := by
  rw [readMember]
  split
  · rw [List.length_tail]
    exact Nat.sub_le _ _
  · exact readUpper_length c _

/-- The members of a class, up to its `]`: one of them has `x` within its bounds. -/
def membersMatch (x : UInt8) : Str → (found : Bool) → Bool
  | [], found => found
  | c :: p, found =>
    if c = closeBracket then found
    else
      let bounds := (readMember c p).1
      membersMatch x (readMember c p).2 (found || (bounds.1 ≤ x && x ≤ bounds.2))
termination_by p => p.length
decreasing_by
  have member := readMember_length c p
  simp only [List.length_cons]
  omega

/-- A class, from behind its `[`. -/
def classMatches (p : Str) (x : UInt8) : Bool :=
  let neg := isAt 0 caret p
  let p := if neg then p.tail else p
  let found :=
    if isAt 0 closeBracket p then membersMatch x p.tail (x == closeBracket) else membersMatch x p false
  if neg then !found else found

/-- `char_matches` -/
def charMatches (p : Str) (x : UInt8) : Bool :=
  if x = 0 then false
  else match p with
  | [] => false
  | c :: p =>
    if c = dot then true
    else if c = backslash then escapeMatches (p.headD 0) x
    else if c = openBracket then classMatches p x
    else x == c

/-! ### The matcher -/

/-- `MS`: the subject and the pattern, the captures, the number of groups and the depth of the recursion. -/
structure MS where
  text : Str
  pat : Str
  so : List Int
  eo : List Int
  nsub : Nat
  depth : Nat
  deriving DecidableEq, Repr

namespace MS

variable (ms : MS)

/-- `s - ms->text` -/
def offset (s : Str) : Nat := ms.text.length - s.length

def deeper : MS := { ms with depth := ms.depth + 1 }

def shallower : MS := { ms with depth := ms.depth - 1 }

/-- Where the group begins, if it is one that is recorded. -/
def opens (grp : Nat) (s : Str) : MS := if grp ≤ ms.nsub then { ms with so := ms.so.set grp (ms.offset s) } else ms

def closes (grp : Nat) (s : Str) : MS := if grp ≤ ms.nsub then { ms with eo := ms.eo.set grp (ms.offset s) } else ms

/-- The captures of a group as they were before. -/
def restore (old : MS) (grp : Nat) : MS :=
  if grp ≤ ms.nsub then
    { ms with so := ms.so.set grp (old.so.getD grp (-2)), eo := ms.eo.set grp (old.eo.getD grp (-2)) }
  else ms

end MS

/-- The start of the subject, or behind a newline. -/
def atBol (text s : Str) : Bool := s.length == text.length || text[text.length - s.length - 1]? == some 10

/-- The end of the subject, or before a newline. -/
def atEol (s : Str) : Bool := s.isEmpty || s.head? == some 10

/-- The quantifier behind the atom at the pointer, and what follows. -/
def quantAt (p : Str) : Option UInt8 × Str :=
  match skipAtom p with
  | [] => (none, [])
  | q :: rest => if q = star ∨ q = plus ∨ q = quest then (some q, rest) else (none, q :: rest)

/-- The loop that fills `positions`, with room for `room` more: where an atom ends, repeated as long as it moves on. -/
def collect (atom : MS → Str → Option Str × MS) : (room : Nat) → MS → Str → List Str
  | 0, _, _ => []
  | room + 1, tmp, cur =>
    match atom tmp cur with
    | (none, _) => []
    | (some ns, tmp) => if ns.length = cur.length then [] else ns :: collect atom room tmp ns

/-- The first of some positions from which the rest of the sequence matches. -/
def tryFrom (seq : MS → Str → Option Str × MS) (ms : MS) : List Str → Option Str × MS
  | [] => (none, ms)
  | s :: ss =>
    match seq ms s with
    | (some r, trial) => (some r, trial)
    | (none, _) => tryFrom seq ms ss

lemma skipGroup_length (depth : Nat) (p : Str) : (skipGroup depth p).length ≤ p.length := by
  induction depth, p using skipGroup.induct with
  | case1 => exact Nat.le_of_eq (congrArg List.length (by rw [skipGroup]))
  | case2 depth c p escaped ih =>
    rw [skipGroup, if_pos escaped]
    simp only [List.length_cons, List.length_tail] at ih ⊢
    omega
  | case3 depth p plain ih =>
    have skipped := skipClass_length 0 p
    rw [skipGroup, if_neg plain, if_pos rfl, List.length_cons]
    omega
  | case4 depth p plain class_ ih =>
    rw [skipGroup, if_neg plain, if_neg class_, if_pos rfl, List.length_cons]
    omega
  | case5 depth p last plain class_ opens =>
    rw [skipGroup, if_neg plain, if_neg class_, if_neg opens, if_pos rfl, if_pos last, List.length_cons]
    omega
  | case6 depth p inner plain class_ opens ih =>
    rw [skipGroup, if_neg plain, if_neg class_, if_neg opens, if_pos rfl, if_neg inner, List.length_cons]
    omega
  | case7 depth c p plain class_ opens closes ih =>
    rw [skipGroup, if_neg plain, if_neg class_, if_neg opens, if_neg closes, List.length_cons]
    omega

lemma skipAtom_length (c : UInt8) (p : Str) : (skipAtom (c :: p)).length ≤ p.length := by
  rw [skipAtom]
  split
  · exact List.length_tail ▸ Nat.sub_le _ _
  · split
    · exact skipClass_length 0 p
    · split
      · exact skipGroup_length 1 p
      · exact Nat.le_refl _

lemma quantAt_length (c : UInt8) (p : Str) : (quantAt (c :: p)).2.length ≤ p.length := by
  have atom := skipAtom_length c p
  unfold quantAt
  split
  · exact Nat.zero_le _
  · rename_i q rest e
    rw [e, List.length_cons] at atom
    split
    · exact Nat.le_of_succ_le atom
    · exact atom

lemma findTopAlt_length {pend depth : Nat} {p q : Str} (h : findTopAlt pend depth p = some q) :
    q ≠ [] ∧ q.length ≤ p.length := by
  induction depth, p using findTopAlt.induct pend with
  | case1 =>
    rw [findTopAlt] at h
    cases h
  | case2 depth c p ended =>
    rw [findTopAlt, if_pos ended] at h
    cases h
  | case3 depth p more ih =>
    rw [findTopAlt, if_neg more, if_pos rfl] at h
    obtain ⟨ne, le⟩ := ih h
    refine ⟨ne, Nat.le_trans le ?_⟩
    split
    · exact List.length_tail ▸ Nat.le_trans (Nat.sub_le _ _) (Nat.le_succ _)
    · exact Nat.le_succ _
  | case4 depth p more plain ih =>
    rw [findTopAlt, if_neg more, if_neg plain, if_pos rfl] at h
    obtain ⟨ne, le⟩ := ih h
    exact ⟨ne, Nat.le_trans le (Nat.le_trans (skipClass_length pend p) (Nat.le_succ _))⟩
  | case5 depth p more plain class_ ih =>
    rw [findTopAlt, if_neg more, if_neg plain, if_neg class_, if_pos rfl] at h
    obtain ⟨ne, le⟩ := ih h
    exact ⟨ne, Nat.le_trans le (Nat.le_succ _)⟩
  | case6 depth p more plain class_ opens ih =>
    rw [findTopAlt, if_neg more, if_neg plain, if_neg class_, if_neg opens, if_pos rfl] at h
    obtain ⟨ne, le⟩ := ih h
    exact ⟨ne, Nat.le_trans le (Nat.le_succ _)⟩
  | case7 depth c p more plain class_ opens closes found =>
    rw [findTopAlt, if_neg more, if_neg plain, if_neg class_, if_neg opens, if_neg closes, if_pos found] at h
    cases h
    exact ⟨List.cons_ne_nil _ _, Nat.le_refl _⟩
  | case8 depth c p more plain class_ opens closes other ih =>
    rw [findTopAlt, if_neg more, if_neg plain, if_neg class_, if_neg opens, if_neg closes, if_neg other] at h
    obtain ⟨ne, le⟩ := ih h
    exact ⟨ne, Nat.le_trans le (Nat.le_succ _)⟩

mutual

/-- `m_atom_here` -/
def mAtomHere (ms : MS) (p s : Str) : Option Str × MS :=
  if reMaxDepth < ms.depth then (none, ms)
  else match p with
  | [] => (none, ms)
  | c :: inner =>
    if c = caret then (if atBol ms.text s then some s else none, ms)
    else if c = dollar then (if atEol s then some s else none, ms)
    else if c = openParen then
      let grp := groupIndex ms.pat (c :: inner)
      match mAlt (ms.opens grp s).deeper inner ((skipAtom (c :: inner)).length + 1) s with
      | (some t, after) => (some t, after.shallower.closes grp t)
      | (none, after) => (none, after.shallower.restore ms grp)
    else match s with
    | [] => (none, ms)
    | x :: t => (if charMatches (c :: inner) x then some t else none, ms)
termination_by (p.length, 0)
decreasing_by
  apply Prod.Lex.left
  exact Nat.lt_succ_self _

/-- `m_seq` -/
def mSeq (ms : MS) (p : Str) (pend : Nat) (s : Str) : Option Str × MS :=
  if reMaxDepth < ms.depth then (none, ms)
  else match p with
  | [] => (some s, ms)
  | c :: rest =>
    if rest.length + 1 ≤ pend then (some s, ms)
    else if c = caret ∨ c = dollar then
      match mAtomHere ms (c :: rest) s with
      | (none, ms) => (none, ms)
      | (some ns, ms) => mSeq ms rest pend ns
    else if (quantAt (c :: rest)).1 = some quest then
      match mAtomHere ms (c :: rest) s with
      | (none, _) => mSeq ms (quantAt (c :: rest)).2 pend s
      | (some ns, taken) =>
        match mSeq taken (quantAt (c :: rest)).2 pend ns with
        | (some r, taken) => (some r, taken)
        | (none, _) => mSeq ms (quantAt (c :: rest)).2 pend s
    else if (quantAt (c :: rest)).1 = some star then
      tryFrom (fun trial pos => mSeq trial (quantAt (c :: rest)).2 pend pos) ms
        (s :: collect (fun tmp cur => mAtomHere tmp (c :: rest) cur) (maxPositions - 1) ms s).reverse
    else if (quantAt (c :: rest)).1 = some plus then
      tryFrom (fun trial pos => mSeq trial (quantAt (c :: rest)).2 pend pos) ms
        (collect (fun tmp cur => mAtomHere tmp (c :: rest) cur) maxPositions ms s).reverse
    else
      match mAtomHere ms (c :: rest) s with
      | (none, ms) => (none, ms)
      | (some ns, ms) => mSeq ms (quantAt (c :: rest)).2 pend ns
termination_by (p.length, 1)
decreasing_by
  all_goals first
    | exact Prod.Lex.right _ (by decide)
    | exact Prod.Lex.left _ _ (Nat.lt_succ_self _)
    | exact Prod.Lex.left _ _ (Nat.lt_succ_of_le (quantAt_length c rest))

/-- `m_alt` -/
def mAlt (ms : MS) (p : Str) (pend : Nat) (s : Str) : Option Str × MS :=
  if reMaxDepth < ms.depth then (none, ms)
  else match _found : findTopAlt pend 0 p with
  | none =>
    let (r, after) := mSeq ms.deeper p pend s
    (r, after.shallower)
  | some alt =>
    match mSeq ms.deeper p alt.length s with
    | (some r, after) => (some r, after.shallower)
    | (none, _) =>
      let (r, after) := mAlt ms.deeper alt.tail pend s
      (r, after.shallower)
termination_by (p.length, 2)
decreasing_by
  · exact Prod.Lex.right _ (by decide)
  · exact Prod.Lex.right _ (by decide)
  · obtain ⟨ne, le⟩ := findTopAlt_length _found
    refine Prod.Lex.left _ _ ?_
    have pos := List.length_pos_iff.mpr ne
    rw [List.length_tail]
    omega

end

lemma mAtomHere_cons (ms : MS) (c : UInt8) (inner s : Str) :
    mAtomHere ms (c :: inner) s =
      if reMaxDepth < ms.depth then (none, ms)
      else if c = caret then (if atBol ms.text s then some s else none, ms)
      else if c = dollar then (if atEol s then some s else none, ms)
      else if c = openParen then
        match mAlt (ms.opens (groupIndex ms.pat (c :: inner)) s).deeper inner
          ((skipAtom (c :: inner)).length + 1) s with
        | (some t, after) => (some t, after.shallower.closes (groupIndex ms.pat (c :: inner)) t)
        | (none, after) => (none, after.shallower.restore ms (groupIndex ms.pat (c :: inner)))
      else match s with
      | [] => (none, ms)
      | x :: t => (if charMatches (c :: inner) x then some t else none, ms) := by
  rw [mAtomHere.eq_def]

/-! ### The entry points -/

/-- `regex_t` -/
structure Regex where
  pattern : Str
  nsub : Nat
  deriving DecidableEq, Repr

/-- `regcomp` -/
def regcomp (pattern : Str) : Regex := ⟨pattern, countGroups pattern⟩

/-- The match state in which `regexec` tries a start. -/
def startState (preg : Regex) (text : Str) : MS :=
  { text
    pat := preg.pattern
    so := List.replicate reMaxGroups (-1)
    eo := List.replicate reMaxGroups (-1)
    nsub := if preg.nsub < reMaxGroups - 1 then preg.nsub else reMaxGroups - 1
    depth := 0 }

/-- What `regexec` writes to `pmatch`. -/
def fillMatch (nmatch : Nat) (text s e : Str) (ms : MS) : List (Int × Int) :=
  (List.range nmatch).map fun i =>
    if i = 0 then ((text.length - s.length : Nat), (text.length - e.length : Nat))
    else if i ≤ ms.nsub then (ms.so.getD i (-1), ms.eo.getD i (-1))
    else (-1, -1)

/-- The loop of `regexec` over the starts. -/
def regexecFrom (preg : Regex) (text : Str) (nmatch : Nat) : Str → Option (List (Int × Int))
  | [] =>
    match mAlt (startState preg text) preg.pattern 0 [] with
    | (some e, ms) => some (fillMatch nmatch text [] e ms)
    | (none, _) => none
  | c :: s =>
    match mAlt (startState preg text) preg.pattern 0 (c :: s) with
    | (some e, ms) => some (fillMatch nmatch text (c :: s) e ms)
    | (none, _) => regexecFrom preg text nmatch s

/-- `regexec`: `pmatch`, or `REG_NOMATCH`. -/
def regexec (preg : Regex) (string : Str) (nmatch : Nat) : Option (List (Int × Int)) :=
  regexecFrom preg string nmatch string

end WinRegex

end Cando
