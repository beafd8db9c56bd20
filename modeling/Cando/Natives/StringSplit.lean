import Cando.Lib.Cut
import Cando.Natives.Crypto
import Cando.Natives.HttpRequest
import Cando.Object.HashTable

/-!
# Splitting and replacing text

`string.split` and the literal mode of `string.replace` (`lib/string.c`). A string has its length beside it and may
hold any bytes, but the natives look for a separator with `strstr` and copy the end of a text with `strcpy`, which
stop at a NUL. A pointer into a text is what lies from it to the end; a function is `none` where it would read or
write outside of a text or buffer.
-/

namespace Cando

variable {ν ρ : Type}

/-- The pointer `n` bytes further on; `none` behind the NUL at the end. -/
def advance (cur : Str) (n : Nat) : Option Str := if n ≤ cur.length then some (cur.drop n) else none

/-- `strstr` of two pointers: what lies before the match. -/
def strstrAt (cur pat : Str) : Option Str := (strstr (cstr pat) (cstr cur)).map (·.1)

/-- The loop of the literal mode of `str_split`. -/
def splitLoop (pat : Str) : (turns : Nat) → (cur : Option Str) → Option (List Str)
  | 0, _ => none
  | _ + 1, none => some []
  | turns + 1, some cur =>
    let found := ((strstrAt cur pat).map (·.length)).getD cur.length
    let part := cur.take (u32 found)
    if cur.length ≤ found then some [part]
    else (splitLoop pat turns (advance cur (found + pat.length))).map (part :: ·)

/-- `regcomp` with `REG_EXTENDED`, and `regexec` without flags, which reports the offsets of its match. -/
structure RegexLib (ρ : Type) where
  regcomp : Str → Option ρ
  regexec : ρ → Str → Option (Nat × Nat)

/-- The loop of the regex mode of `str_split`, which has the C string `cur` before it: the parts, each with the match
at its end. -/
def regexSplitLoop (lib : RegexLib ρ) (re : ρ) : (turns : Nat) → (cur : Str) → Option (List (Str × Str))
  | 0, _ => none
  | turns + 1, cur =>
    if cur = [] then some []
    else match lib.regexec re cur with
      | none => some [(cur.take (u32 cur.length), [])]
      | some (so, eo) => do
        let part := cur.take (u32 so)
        let rest ← advance cur eo
        if eo = so then
          match rest with
          | [] => some [(part, [])]
          | _ :: rest => (regexSplitLoop lib re turns rest).map ((part, []) :: ·)
        else (regexSplitLoop lib re turns rest).map ((part, (cur.drop so).take (eo - so)) :: ·)

/-- The third argument is `TRUE`. -/
def noRegex (args : List (Value ν)) (i : Nat) : Bool :=
  match args[i]? with
  | some (.bool b) => b
  | _ => false

/-- `str_split`: the strings in its array, or the text of its error. -/
def strSplit (lib : RegexLib ρ) (args : List (Value ν)) : Option (Except Str (List Str)) :=
  match argStr args, argStr (args.drop 1) with
  | some s, some pat =>
    if pat.length = 0 then some (.ok [s])
    else if noRegex args 2 then (splitLoop pat (s.length + 2) (some s)).map .ok
    else match lib.regcomp (cstr pat) with
      | none => some (.error (bytes "string.split: invalid regex pattern '" ++ cstr pat ++ bytes "'"))
      | some re => (regexSplitLoop lib re (s.length + 2) (cstr s)).map fun parts => .ok (parts.map (·.1))
  | some s, none => some (.ok [s])
  | none, _ => some (.ok [])

/-! ### Replacing -/

/-- A buffer, of which a cell that was not written holds nothing. -/
abbrev CharBuf : Type := List (Option UInt8)

/-- A write to a buffer at `dst`. -/
def CharBuf.store (buf : CharBuf) (dst : Nat) (text : Str) : Option CharBuf :=
  if dst + text.length ≤ buf.length
  then some (buf.take dst ++ text.map some ++ buf.drop (dst + text.length)) else none

/-- The first pass of `str_replace`: the number of matches from `p` on. -/
def countLoop (pat : Str) : (turns : Nat) → (p : Str) → (count : Nat) → Option Nat
  | 0, _, _ => none
  | turns + 1, p, count =>
    match strstrAt p pat with
    | none => some count
    | some before => do
      let p ← advance p (before.length + pat.length)
      countLoop pat turns p (u32 (count + 1))

/-- The second pass: the text from `src` on goes to the buffer at `dst`. -/
def copyLoop (pat repl : Str) : (turns : Nat) → (src : Str) → (dst : Nat) → CharBuf → Option CharBuf
  | 0, _, _, _ => none
  | turns + 1, src, dst, buf =>
    match strstrAt src pat with
    | none => buf.store dst (cstr src ++ [0])
    | some before => do
      let buf ← buf.store dst (src.take (u32 before.length))
      let dst := dst + u32 before.length
      let buf ← buf.store dst repl
      let src ← advance src (before.length + pat.length)
      copyLoop pat repl turns src (dst + repl.length) buf

/-- The length that the first pass gives the result. -/
def newLen (s pat repl : Str) (count : Nat) : Nat :=
  ((s.length + count * (repl.length - pat.length) : Int) % 4294967296).toNat

/-- `str_replace` in its literal mode. -/
def strReplaceLiteral (s pat repl : Str) : Option CharBuf :=
  if pat.length = 0 then some (s.map some)
  else do
    let count ← countLoop pat (s.length + 2) s 0
    if count = 0 then some (s.map some)
    else do
      let len := newLen s pat repl count
      let buf ← copyLoop pat repl (s.length + 2) s 0 (List.replicate (u32 (len + 1)) none)
      if len ≤ buf.length then some (buf.take len) else none

/-- `str_replace`; `regexMode` is what it does without `no_regex`. -/
def strReplace (regexMode : Str → Str → Str → Option CharBuf) (args : List (Value ν)) : Option CharBuf :=
  match argStr args, argStr (args.drop 1), argStr (args.drop 2) with
  | some s, some pat, some repl => if noRegex args 3 then strReplaceLiteral s pat repl else regexMode s pat repl
  | some s, _, _ => some (s.map some)
  | none, _, _ => some []

/-! ### Searches -/

section Searches

variable {s t u v x x' y y' sep pat repl : Str} {turns : Nat} {ps : List Str}

lemma strstr_eq (needle s : Str) : strstr needle s = Cut.around needle s := by
  induction s with
  | nil => rfl
  | cons b s ih => rw [strstr, Cut.around, ih]

lemma cstr_front (s : Str) : cstr s <+: s := List.takeWhile_prefix _

lemma cstr_append (free : 0 ∉ x) (y : Str) : cstr (x ++ y) = x ++ cstr y := by
  refine List.takeWhile_append_of_pos fun b mem => ?_
  have ne : b ≠ 0 := fun eq => free (eq ▸ mem)
  simpa using ne

lemma cstr_free (s : Str) : 0 ∉ cstr s := by
  intro mem
  simpa using List.mem_takeWhile_imp mem

lemma strstrAt_some (found : strstrAt u sep = some x) : ∃ y, Cut.around (cstr sep) (cstr u) = some (x, y) := by
  obtain ⟨⟨x', y⟩, e, rfl⟩ := Option.map_eq_some_iff.mp found
  exact ⟨y, strstr_eq (cstr sep) (cstr u) ▸ e⟩

lemma strstrAt_le (found : strstrAt u sep = some x) : x.length + (cstr sep).length ≤ u.length := by
  obtain ⟨y, inside⟩ := strstrAt_some found
  have split := Cut.around_some inside
  have le := (cstr_front u).length_le
  simp only [split, List.length_append] at le
  omega

lemma strstrAt_front (found : strstrAt u sep = some x) : x <+: u := by
  obtain ⟨y, inside⟩ := strstrAt_some found
  refine List.IsPrefix.trans ?_ (cstr_front u)
  rw [Cut.around_some inside, List.append_assoc]
  exact List.prefix_append x _

/-- No occurrence of the bytes comes before the match, since its front would have been found. -/
lemma strstrAt_first (found : strstrAt u sep = some x) (occurs : u = x' ++ sep ++ y') : x.length ≤ x'.length := by
  obtain ⟨y, inside⟩ := strstrAt_some found
  by_contra early
  have size := congrArg List.length (Cut.around_some inside)
  obtain ⟨z, whole⟩ := cstr_front sep
  have front : x' ++ cstr sep <+: u := by
    rw [occurs]
    nth_rewrite 2 [← whole]
    simp only [List.append_assoc]
    exact List.prefix_append_right_inj x' |>.mpr (List.prefix_append (cstr sep) _)
  have fits : (x' ++ cstr sep).length ≤ (cstr u).length := by
    simp only [List.length_append] at size ⊢
    omega
  obtain ⟨y₁, split⟩ := List.prefix_of_prefix_length_le front (cstr_front u) fits
  have le := Cut.around_le inside split.symm
  omega

/-- `strstr` on the C strings at `u` and behind each match finds what a search for the bytes of `sep` does; `ps` are
the parts. -/
inductive CutsAlike (sep : Str) : (u : Str) → (ps : List Str) → Prop where
  | last {t : Str} : strstrAt t sep = none → Cut.around sep t = none → CutsAlike sep t [t]
  | next {u x v : Str} {ps : List Str} : strstrAt u sep = some x → Cut.around sep u = some (x, v) → CutsAlike sep v ps →
    CutsAlike sep u (x :: ps)

lemma CutsAlike.ne_nil (alike : CutsAlike sep u ps) : ps ≠ [] := by
  cases alike <;> exact List.cons_ne_nil _ _

lemma CutsAlike.join (alike : CutsAlike sep u ps) : sep.intercalate ps = u := by
  induction alike with
  | last => exact List.intercalate_singleton
  | next _ found rest ih => rw [List.intercalate_cons_of_ne_nil rest.ne_nil, ih, Cut.around_some found]

lemma CutsAlike.avoids (alike : CutsAlike sep u ps) (nonempty : sep ≠ []) : ∀ p ∈ ps, ¬ sep <:+: p := by
  induction alike with
  | last _ none =>
    intro p mem
    rw [List.mem_singleton.mp mem]
    exact Cut.around_none.mp none
  | next _ found _ ih => exact List.forall_mem_cons.mpr ⟨Cut.around_before found nonempty, ih⟩

lemma advance_append (x : Str) (v : Str) {n : Nat} (len : x.length = n) : advance (x ++ v) n = some v := by
  subst len
  rw [advance, if_pos (by simp), List.drop_left]

/-- The pointer behind a match. -/
lemma advance_found (found : Cut.around sep u = some (x, v)) : advance u (x.length + sep.length) = some v := by
  rw [Cut.around_some found]
  exact advance_append (x ++ sep) v List.length_append

lemma around_lt (found : Cut.around sep u = some (x, v)) (nonempty : sep ≠ []) :
    x.length < u.length ∧ v.length < u.length := by
  have pos := List.length_pos_iff.mpr nonempty
  have split := congrArg List.length (Cut.around_some found)
  simp only [List.length_append] at split
  omega

/-! ### The parts -/

lemma splitLoop_last (here : strstrAt u sep = none) (short : u.length < 4294967296) (turns : Nat) :
    splitLoop sep (turns + 1) (some u) = some [u] := by
  simp [splitLoop, here, HashTable.u32_eq short]

lemma splitLoop_next (here : strstrAt u sep = some x) (less : x.length < u.length) (short : u.length < 4294967296)
    (turns : Nat) :
    splitLoop sep (turns + 1) (some u) = (splitLoop sep turns (advance u (x.length + sep.length))).map (x :: ·) := by
  have front : u.take (u32 x.length) = x := by
    rw [HashTable.u32_eq (Nat.lt_trans less short)]
    exact (List.prefix_iff_eq_take.mp (strstrAt_front here)).symm
  simp only [splitLoop, here, Option.map_some, Option.getD_some, front]
  rw [if_neg (Nat.not_le.mpr less)]

lemma CutsAlike.splitLoop (alike : CutsAlike sep u ps) (nonempty : sep ≠ []) (short : u.length < 4294967296)
    (enough : u.length < turns) : splitLoop sep turns (some u) = some ps := by
  induction alike generalizing turns with
  | last none _ =>
    obtain ⟨turns, rfl⟩ := Nat.exists_eq_succ_of_ne_zero (Nat.ne_of_gt (Nat.zero_lt_of_lt enough))
    exact splitLoop_last none short turns
  | @next u x v ps here found _ ih =>
    obtain ⟨turns, rfl⟩ := Nat.exists_eq_succ_of_ne_zero (Nat.ne_of_gt (Nat.zero_lt_of_lt enough))
    obtain ⟨less, shorter⟩ := around_lt found nonempty
    have rest : Cando.splitLoop sep turns (some v) = some ps := ih (by omega) (by omega)
    rw [splitLoop_next here less short, advance_found found, rest]
    rfl

lemma splitLoop_ne_nil : Cando.splitLoop sep turns (some u) ≠ some [] := by
  intro run
  cases turns with
  | zero => cases run
  | succ turns =>
    simp only [Cando.splitLoop] at run
    split at run
    · cases run
    · obtain ⟨rest, -, e⟩ := Option.map_eq_some_iff.mp run
      cases e

/-- Where the loop gives parts that are joined to the text and avoid the separator, it found what a search for the
bytes does. -/
lemma cutsAlike_of_splitLoop (searched : cstr sep ≠ []) (short : u.length < 4294967296)
    (run : splitLoop sep turns (some u) = some ps) (join : sep.intercalate ps = u) (avoids : ∀ p ∈ ps, ¬ sep <:+: p) :
    CutsAlike sep u ps := by
  induction turns generalizing u ps with
  | zero => cases run
  | succ turns ih =>
    cases here : strstrAt u sep with
    | none =>
      rw [splitLoop_last here short] at run
      cases run
      exact .last here (Cut.around_none.mpr (avoids u List.mem_cons_self))
    | some x =>
      have le := strstrAt_le here
      have pos := List.length_pos_iff.mpr searched
      have less : x.length < u.length := by omega
      rw [splitLoop_next here less short] at run
      obtain ⟨rest, loop, rfl⟩ := Option.map_eq_some_iff.mp run
      cases behind : advance u (x.length + sep.length) with
      | none =>
        -- the loop has ended behind the text, so that the text is lost
        rw [behind] at loop
        cases turns with
        | zero => cases loop
        | succ turns =>
          cases loop
          rw [List.intercalate_singleton] at join
          rw [join] at le
          omega
      | some v =>
        rw [behind] at loop
        have more : rest ≠ [] := fun none => splitLoop_ne_nil (none ▸ loop)
        rw [List.intercalate_cons_of_ne_nil more] at join
        have after : v = sep.intercalate rest := by
          have size : (x ++ sep).length = x.length + sep.length := List.length_append
          have here := advance_append (x ++ sep) (sep.intercalate rest) size
          rw [join, behind] at here
          exact Option.some.inj here
        have found : Cut.around sep u = some (x, v) :=
          Cut.around_eq (after ▸ join.symm) fun x' y' occurs => strstrAt_first here occurs
        have shorter := congrArg List.length (Cut.around_some found)
        simp only [List.length_append] at shorter
        exact .next here found (ih (by omega) loop after.symm fun p mem => avoids p (List.mem_cons_of_mem _ mem))

/-! ### The replacement -/

namespace CharBuf

/-- Two writes one behind the other are one write. -/
lemma store_append (buf : CharBuf) (dst : Nat) (a b : Str) :
    ((buf.store dst a).bind fun buf => buf.store (dst + a.length) b) = buf.store dst (a ++ b) := by
  simp only [store, List.length_append]
  split
  · rename_i first
    have len : (buf.take dst ++ a.map some ++ buf.drop (dst + a.length)).length = buf.length := by
      simp only [List.length_append, List.length_take, List.length_map, List.length_drop]
      omega
    have front : (buf.take dst ++ a.map some).length = dst + a.length := by
      simp only [List.length_append, List.length_take, List.length_map]
      omega
    simp only [Option.bind_some, len]
    have size : dst + a.length + b.length = dst + (a.length + b.length) := Nat.add_assoc _ _ _
    rw [size]
    split
    · congr 1
      rw [List.take_left' front, List.drop_append, front, List.drop_eq_nil_of_le (by omega), List.drop_drop]
      simp only [List.map_append, List.append_assoc, List.nil_append]
      congr 4
      omega
    · rfl
  · rw [if_neg (by omega)]
    rfl

lemma store_length {buf buf' : CharBuf} {dst : Nat} {text : Str} (h : buf.store dst text = some buf') :
    buf'.length = buf.length ∧ dst + text.length ≤ buf.length := by
  unfold store at h
  split at h
  · cases h
    refine ⟨?_, by assumption⟩
    simp only [List.length_append, List.length_take, List.length_map, List.length_drop]
    omega
  · cases h

/-- The buffer has the text at its front. -/
def Starts (buf : CharBuf) (w : Str) : Prop := w.map some <+: buf

lemma Starts.append_left {buf : CharBuf} {w text : Str} (h : buf.Starts (w ++ text)) : buf.Starts w := by
  refine List.IsPrefix.trans ?_ h
  rw [List.map_append]
  exact List.prefix_append _ _

lemma Starts.length_le {buf : CharBuf} {w : Str} (h : buf.Starts w) : w.length ≤ buf.length := by
  have le := List.IsPrefix.length_le h
  rwa [List.length_map] at le

lemma Starts.take {buf : CharBuf} {w : Str} (h : buf.Starts w) : buf.take w.length = w.map some := by
  have e := List.prefix_iff_eq_take.mp h
  rw [List.length_map] at e
  exact e.symm

/-- A write behind the text. -/
lemma Starts.store {buf : CharBuf} {w text : Str} (h : buf.Starts w) (room : w.length + text.length ≤ buf.length) :
    ∃ buf', buf.store w.length text = some buf' ∧ buf'.length = buf.length ∧ buf'.Starts (w ++ text) := by
  refine ⟨_, if_pos room, ?_, ?_⟩
  · simp only [List.length_append, List.length_take, List.length_map, List.length_drop]
    omega
  · rw [h.take, Starts, List.map_append]
    exact List.prefix_append _ _

end CharBuf

/-- What the second pass writes for the parts: the last as a C string. -/
def writtenParts (repl : Str) : List Str → Str
  | [] => [0]
  | [t] => cstr t ++ [0]
  | x :: ps => x ++ repl ++ writtenParts repl ps

lemma writtenParts_cons (more : ps ≠ []) : writtenParts repl (x :: ps) = x ++ repl ++ writtenParts repl ps := by
  cases ps with
  | nil => exact absurd rfl more
  | cons _ _ => rfl

/-- The last part alone makes the difference to the join. -/
lemma exists_writtenParts (repl : Str) (more : ps ≠ []) : ∃ before,
    repl.intercalate ps = before ++ ps.getLast more ∧
      writtenParts repl ps = before ++ cstr (ps.getLast more) ++ [0] := by
  induction ps with
  | nil => exact absurd rfl more
  | cons x ps ih =>
    by_cases one : ps = []
    · subst one
      exact ⟨[], List.intercalate_singleton, rfl⟩
    · obtain ⟨before, join, written⟩ := ih one
      refine ⟨x ++ repl ++ before, ?_, ?_⟩
      · rw [List.intercalate_cons_of_ne_nil one, join, List.getLast_cons one]
        simp only [List.append_assoc]
      · rw [writtenParts_cons one, written, List.getLast_cons one]
        simp only [List.append_assoc]

/-- What `strstr` finds from the pointer `u` on, each time behind the match before, without leaving the text; `ps` are
the parts. -/
inductive CutsAt (sep : Str) : (u : Str) → (ps : List Str) → Prop where
  | last {t : Str} : strstrAt t sep = none → CutsAt sep t [t]
  | next {u x v : Str} {ps : List Str} : strstrAt u sep = some x → advance u (x.length + sep.length) = some v →
    CutsAt sep v ps → CutsAt sep u (x :: ps)

lemma CutsAlike.cutsAt (alike : CutsAlike sep u ps) : CutsAt sep u ps := by
  induction alike with
  | last here _ => exact .last here
  | next here found _ ih => exact .next here (advance_found found) ih

lemma CutsAt.ne_nil (cuts : CutsAt sep u ps) : ps ≠ [] := by
  cases cuts <;> exact List.cons_ne_nil _ _

lemma length_advance {n : Nat} (moved : advance u n = some v) : n + v.length = u.length := by
  rw [advance] at moved
  split at moved
  · cases moved
    rw [List.length_drop]
    omega
  · cases moved

lemma CutsAt.copyLoop (cuts : CutsAt sep u ps) (nonempty : sep ≠ []) (short : u.length < 4294967296)
    (enough : u.length < turns) (dst : Nat) (buf : CharBuf) :
    copyLoop sep repl turns u dst buf = buf.store dst (writtenParts repl ps) := by
  have pos := List.length_pos_iff.mpr nonempty
  induction cuts generalizing turns dst buf with
  | last none =>
    obtain ⟨turns, rfl⟩ := Nat.exists_eq_succ_of_ne_zero (Nat.ne_of_gt (Nat.zero_lt_of_lt enough))
    simp only [Cando.copyLoop, none, writtenParts]
  | @next u x v ps here moved cuts ih =>
    obtain ⟨turns, rfl⟩ := Nat.exists_eq_succ_of_ne_zero (Nat.ne_of_gt (Nat.zero_lt_of_lt enough))
    have split := length_advance moved
    have size : u32 x.length = x.length := HashTable.u32_eq (by omega)
    have front : u.take x.length = x := (List.prefix_iff_eq_take.mp (strstrAt_front here)).symm
    have rest : ∀ dst buf, Cando.copyLoop sep repl turns v dst buf = buf.store dst (writtenParts repl ps) :=
      ih (by omega) (by omega)
    rw [writtenParts_cons cuts.ne_nil, ← CharBuf.store_append, ← CharBuf.store_append, List.length_append]
    simp only [Cando.copyLoop, here, size, front, moved, rest, Option.bind_eq_bind, Option.bind_some,
      Option.bind_assoc, Nat.add_assoc]

lemma CutsAt.countLoop (cuts : CutsAt sep u ps) (nonempty : sep ≠ []) (enough : u.length < turns) {count : Nat}
    (short : count + u.length < 4294967296) : countLoop sep turns u count = some (count + (ps.length - 1)) := by
  have pos := List.length_pos_iff.mpr nonempty
  induction cuts generalizing turns count with
  | last none =>
    obtain ⟨turns, rfl⟩ := Nat.exists_eq_succ_of_ne_zero (Nat.ne_of_gt (Nat.zero_lt_of_lt enough))
    simp only [Cando.countLoop, none, List.length_singleton, Nat.sub_self, Nat.add_zero]
  | @next u x v ps here moved cuts ih =>
    obtain ⟨turns, rfl⟩ := Nat.exists_eq_succ_of_ne_zero (Nat.ne_of_gt (Nat.zero_lt_of_lt enough))
    have split := length_advance moved
    have next : u32 (count + 1) = count + 1 := HashTable.u32_eq (by omega)
    have rest : Cando.countLoop sep turns v (count + 1) = some (count + 1 + (ps.length - 1)) :=
      ih (by omega) (by omega)
    have more := List.length_pos_iff.mpr cuts.ne_nil
    simp only [Cando.countLoop, here, moved, next, rest, Option.bind_eq_bind, Option.bind_some,
      List.length_cons, Option.some.injEq]
    omega

/-- A separator that is empty as a C string is found everywhere, until the pass leaves the text. -/
lemma countLoop_empty (searched : cstr sep = []) (turns : Nat) (p : Str) (count : Nat) :
    countLoop sep turns p count = none := by
  induction turns generalizing p count with
  | zero => rfl
  | succ turns ih =>
    have here : strstrAt p sep = some [] := by
      rw [strstrAt, searched, strstr_eq, Cut.around_front (List.nil_prefix)]
      rfl
    simp only [Cando.countLoop, here]
    cases advance p (([] : Str).length + sep.length) with
    | none => rfl
    | some p => exact ih p _

lemma CutsAt.newLen (cuts : CutsAt sep u ps) (repl : Str) :
    newLen u sep repl (ps.length - 1) = u32 (repl.intercalate ps).length := by
  have total : ((repl.intercalate ps).length : Int) =
      u.length + (ps.length - 1 : Nat) * (repl.length - sep.length) := by
    induction cuts with
    | last => simp [List.intercalate_singleton]
    | @next u x v ps _ moved cuts ih =>
      obtain ⟨n, size⟩ := Nat.exists_eq_succ_of_ne_zero (Nat.ne_of_gt (List.length_pos_iff.mpr cuts.ne_nil))
      have split := length_advance moved
      rw [List.intercalate_cons_of_ne_nil cuts.ne_nil]
      simp only [size, List.length_append, List.length_cons, Nat.succ_eq_add_one, Nat.add_sub_cancel] at split ih ⊢
      push_cast [← split, ih]
      rw [Int.add_mul, Int.one_mul]
      omega
  rw [Cando.newLen, ← total, u32]
  omega

/-! ### What the natives are for -/

/-- A text ends before its NUL, if it has one. -/
lemma cstr_cases (t : Str) : (cstr t = t ∧ 0 ∉ t) ∨ ∃ rest, t = cstr t ++ 0 :: rest := by
  by_cases free : 0 ∈ t
  · right
    have split : cstr t ++ t.dropWhile (· ≠ 0) = t := List.takeWhile_append_dropWhile
    cases e : t.dropWhile (· ≠ 0) with
    | nil =>
      rw [e, List.append_nil] at split
      exact absurd free (split ▸ cstr_free t)
    | cons b rest =>
      have stop : b = 0 := by
        have first := List.head?_dropWhile_not (fun b : UInt8 => b ≠ 0) t
        rw [e] at first
        simpa using first
      exact ⟨rest, by rw [← stop, ← e, split]⟩
  · left
    have whole := cstr_append free []
    rw [List.append_nil] at whole
    exact ⟨whole.trans (List.append_nil t), free⟩

lemma store_new (size : Nat) (text : Str) : CharBuf.store (List.replicate size none) 0 text =
    if text.length ≤ size then some (text.map some ++ List.replicate (size - text.length) none) else none := by
  simp [CharBuf.store]

/-- The text that the copying pass leaves in a new buffer is the whole of it if there is room, and if no byte but the
last is a NUL where the text is copied as a C string. -/
lemma store_take_iff (before t : Str) :
    ((CharBuf.store (List.replicate (u32 (u32 (before ++ t).length + 1)) none) 0 (before ++ cstr t ++ [0])).bind
      fun buf => if u32 (before ++ t).length ≤ buf.length then some (buf.take (u32 (before ++ t).length)) else none) =
        some ((before ++ t).map some) ↔
      0 ∉ t.dropLast ∧ (before ++ t).length < 4294967295 := by
  generalize size : (before ++ t).length = len
  rw [store_new]
  constructor
  · intro run
    obtain ⟨buf, stored, taken⟩ := Option.bind_eq_some_iff.mp run
    obtain ⟨fits, whole⟩ : (before ++ cstr t ++ [0]).length ≤ u32 (u32 len + 1) ∧
        (before ++ cstr t ++ [0]).map some ++
          List.replicate (u32 (u32 len + 1) - (before ++ cstr t ++ [0]).length) none = buf := by
      split at stored
      · rename_i fits
        exact ⟨fits, Option.some.inj stored⟩
      · cases stored
    obtain ⟨inside, text⟩ : u32 len ≤ buf.length ∧ buf.take (u32 len) = (before ++ t).map some := by
      split at taken
      · rename_i inside
        exact ⟨inside, Option.some.inj taken⟩
      · cases taken
    have cells : buf.length = u32 (u32 len + 1) := by
      rw [← whole, List.length_append, List.length_map, List.length_replicate]
      omega
    have fits32 : u32 len = len := by
      have both := congrArg List.length text
      rw [List.length_take, List.length_map, size] at both
      omega
    rw [fits32] at text inside cells whole
    have room : len < 4294967295 := by
      rw [cells, u32] at inside
      rw [u32] at fits32
      omega
    refine ⟨fun early => ?_, room⟩
    obtain ⟨-, free⟩ | ⟨rest, split⟩ := cstr_cases t
    · exact free (List.mem_of_mem_dropLast early)
    · have more : rest ≠ [] := by
        rintro rfl
        rw [split, List.dropLast_concat] at early
        exact cstr_free t early
      -- the cell behind the NUL was never written
      have pos := List.length_pos_iff.mpr more
      have parts := congrArg List.length split
      simp only [List.length_append, List.length_cons] at parts size
      have index : before.length + (cstr t).length + 1 < len := by omega
      have written : (before ++ cstr t ++ [0]).length = before.length + (cstr t).length + 1 := by
        rw [List.length_append, List.length_append]
        rfl
      have unwritten : buf[before.length + (cstr t).length + 1]? = some none := by
        rw [← whole, ← written, List.getElem?_append_right (Nat.le_of_eq (List.length_map _)), List.length_map,
          Nat.sub_self, List.getElem?_replicate_of_lt (by omega)]
      have read := congrArg (·[before.length + (cstr t).length + 1]?) text
      simp only [List.getElem?_take_of_lt index, unwritten, List.getElem?_map] at read
      cases e : (before ++ t)[before.length + (cstr t).length + 1]? <;> rw [e] at read <;> cases read
  · rintro ⟨late, room⟩
    have fits32 : u32 len = len := HashTable.u32_eq (by omega)
    have size' : u32 (len + 1) = len + 1 := HashTable.u32_eq (by omega)
    rw [fits32, size']
    obtain ⟨whole, -⟩ | ⟨rest, split⟩ := cstr_cases t
    · rw [whole, if_pos (by rw [List.length_append, size]; exact Nat.le_refl _)]
      have text : (before ++ t ++ [0]).map some = (before ++ t).map some ++ [some 0] := by
        rw [List.map_append]
        rfl
      rw [Option.bind_some, text, List.append_assoc, List.length_append, List.length_map, size, if_pos (by omega),
        List.take_left' (by rw [List.length_map, size])]
    · have ended : rest = [] := by
        by_contra more
        refine late ?_
        rw [split, List.dropLast_append_of_ne_nil (List.cons_ne_nil 0 rest)]
        refine List.mem_append_right _ ?_
        cases rest with
        | nil => exact absurd rfl more
        | cons b rest => exact List.mem_cons_self
      subst ended
      have same : before ++ cstr t ++ [0] = before ++ t := by
        rw [List.append_assoc, ← split]
      rw [same, if_pos (by omega)]
      simp only [Option.bind_some, List.length_append, List.length_map, List.length_replicate]
      rw [← List.length_append, size, if_pos (by omega), List.take_left' (by rw [List.length_map, size])]

/-- Cut at `sep` as C strings, `s` comes apart as it does as bytes; if it comes apart at all, then no byte of the last
part but its last is a NUL, and the parts joined with `repl` have a length below `UINT32_MAX`. -/
def CutsAsBytes (s sep repl : Str) : Prop :=
  ∃ ps, CutsAlike sep s ps ∧ (2 ≤ ps.length →
    0 ∉ (ps.getLastD []).dropLast ∧ (repl.intercalate ps).length < 4294967295)

/-- What the literal modes are for: the parts do not contain the separator and are joined by it to the text, and the
replacement joins the same parts. -/
def SplitsAndReplaces (lib : RegexLib ρ) (regexMode : Str → Str → Str → Option CharBuf) (s sep repl : Str) : Prop :=
  ∃ ps, strSplit lib [(.string s : Value ν), .string sep, .bool true] = some (.ok ps) ∧ (∀ p ∈ ps, ¬ sep <:+: p) ∧
    sep.intercalate ps = s ∧
    strReplace regexMode [(.string s : Value ν), .string sep, .string repl, .bool true] =
      some ((repl.intercalate ps).map some)

lemma strReplaceLiteral_eq (alike : CutsAlike sep s ps) (nonempty : sep ≠ []) (short : s.length < 4294967296)
    (repl : Str) :
    strReplaceLiteral s sep repl = some ((repl.intercalate ps).map some) ↔ (2 ≤ ps.length →
      0 ∉ (ps.getLastD []).dropLast ∧ (repl.intercalate ps).length < 4294967295) := by
  have pos : ¬ sep.length = 0 := Nat.ne_of_gt (List.length_pos_iff.mpr nonempty)
  have count : countLoop sep (s.length + 2) s 0 = some (0 + (ps.length - 1)) :=
    alike.cutsAt.countLoop nonempty (by omega) (by omega)
  have more := alike.ne_nil
  rw [Nat.zero_add] at count
  rw [strReplaceLiteral, if_neg pos, count]
  simp only [Option.bind_eq_bind, Option.bind_some]
  by_cases one : ps.length - 1 = 0
  · have few : ¬ 2 ≤ ps.length := by omega
    obtain ⟨t, rfl⟩ := List.length_eq_one_iff.mp (Nat.le_antisymm (by omega) (List.length_pos_iff.mpr more))
    have whole := alike.join
    rw [List.intercalate_singleton] at whole
    simp [whole, List.intercalate_singleton]
  · have many : 2 ≤ ps.length := by omega
    obtain ⟨before, join, written⟩ := exists_writtenParts repl more
    have last : ps.getLastD [] = ps.getLast more := by
      rw [List.getLastD_eq_getLast?, List.getLast?_eq_some_getLast more]
      rfl
    have copied : ∀ buf : CharBuf, copyLoop sep repl (s.length + 2) s 0 buf = buf.store 0 (writtenParts repl ps) :=
      alike.cutsAt.copyLoop nonempty short (by omega) 0
    rw [if_neg one, alike.cutsAt.newLen, copied, written, last, join]
    exact (store_take_iff before _).trans ⟨fun h _ => h, fun h => h many⟩

/-! ### Texts with a NUL -/

lemma dropLast_append_free (free : 0 ∉ x) : 0 ∈ (x ++ y).dropLast ↔ 0 ∈ y.dropLast := by
  cases y with
  | nil =>
    rw [List.append_nil]
    exact iff_of_false (fun mem => free (List.mem_of_mem_dropLast mem)) List.not_mem_nil
  | cons b y =>
    rw [List.dropLast_append_of_ne_nil (List.cons_ne_nil b y), List.mem_append]
    exact or_iff_right free

/-- A separator without a NUL cuts alike where the text has none but at its end. -/
lemma exists_cutsAlike (free : 0 ∉ sep) (nonempty : sep ≠ []) (late : sep <:+: s → 0 ∉ s.dropLast) :
    ∃ ps, CutsAlike sep s ps ∧ (2 ≤ ps.length → 0 ∉ (ps.getLastD []).dropLast) := by
  have same := cstr_append free []
  rw [List.append_nil] at same
  have plain : cstr sep = sep := same.trans (List.append_nil sep)
  induction len : s.length using Nat.strong_induction_on generalizing s with
  | _ n ih =>
    cases found : Cut.around sep s with
    | none =>
      have out := Cut.around_none.mp found
      have ended : strstrAt s sep = none := by
        rw [strstrAt, plain, strstr_eq, Option.map_eq_none_iff]
        exact Cut.around_none.mpr fun inside => out (inside.trans (cstr_front s).isInfix)
      exact ⟨[s], .last ended found, fun many => absurd many (Nat.not_le.mpr (Nat.lt_succ_self 1))⟩
    | some r =>
      obtain ⟨x, v⟩ := r
      have split := Cut.around_some found
      have clean := late ⟨x, v, split.symm⟩
      have clear : 0 ∉ x ++ sep := by
        intro mem
        cases v with
        | nil =>
          rw [split, List.append_nil, List.dropLast_append_of_ne_nil nonempty] at clean
          obtain left | right := List.mem_append.mp mem
          · exact clean (List.mem_append_left _ left)
          · exact free right
        | cons b v =>
          rw [split, List.dropLast_append_of_ne_nil (List.cons_ne_nil b v)] at clean
          exact clean (List.mem_append_left _ mem)
      have here : strstrAt s sep = some x := by
        rw [split] at found
        rw [strstrAt, plain, strstr_eq, split, cstr_append clear, Cut.around_congr found (cstr v)]
        rfl
      rw [split, dropLast_append_free clear] at clean
      obtain ⟨-, shorter⟩ := around_lt found nonempty
      obtain ⟨ps, alike, last⟩ := ih v.length (len ▸ shorter) (fun _ => clean) rfl
      refine ⟨x :: ps, .next here found alike, fun _ => ?_⟩
      rw [List.getLastD_cons]
      cases alike with
      | last => exact clean
      | next _ _ rest =>
        refine last ?_
        simp only [List.length_cons]
        have := List.length_pos_iff.mpr rest.ne_nil
        omega

lemma CutsAlike.nul_last (alike : CutsAlike sep u ps) (free : 0 ∉ sep) (late : 0 ∉ (ps.getLastD []).dropLast) :
    0 ∉ u.dropLast := by
  induction alike with
  | last => exact late
  | @next u x v ps here found rest ih =>
    have before : 0 ∉ x := by
      obtain ⟨y, inside⟩ := strstrAt_some here
      intro mem
      refine cstr_free u ?_
      rw [Cut.around_some inside, List.append_assoc]
      exact List.mem_append_left _ mem
    have last : (x :: ps).getLastD [] = ps.getLastD [] := by
      rw [List.getLastD_cons]
      cases ps with
      | nil => exact absurd rfl rest.ne_nil
      | cons _ _ => rfl
    have clean := ih (last ▸ late)
    have front : 0 ∉ x ++ sep := fun mem => (List.mem_append.mp mem).elim before free
    rw [Cut.around_some found, dropLast_append_free front]
    exact clean

lemma CutsAlike.unique {ps' : List Str} (alike : CutsAlike sep u ps) (alike' : CutsAlike sep u ps') : ps' = ps := by
  induction alike generalizing ps' with
  | last _ none =>
    cases alike' with
    | last => rfl
    | next _ found => cases none.symm.trans found
  | next _ found _ ih =>
    cases alike' with
    | last _ none => cases none.symm.trans found
    | next _ found' rest' =>
      cases found.symm.trans found'
      rw [ih rest']

lemma CutsAlike.two_le (alike : CutsAlike sep s ps) : 2 ≤ ps.length ↔ sep <:+: s := by
  cases alike with
  | last _ none => exact iff_of_false (Nat.not_le.mpr (Nat.lt_succ_self 1)) (Cut.around_none.mp none)
  | next _ found rest =>
    have more := List.length_pos_iff.mpr rest.ne_nil
    exact iff_of_true (Nat.succ_le_succ more) ⟨_, _, (Cut.around_some found).symm⟩

lemma cutsAsBytes_free (free : 0 ∉ sep) (nonempty : sep ≠ []) : CutsAsBytes s sep repl ↔
    (sep <:+: s → 0 ∉ s.dropLast ∧ ∀ ps, CutsAlike sep s ps → (repl.intercalate ps).length < 4294967295) := by
  constructor
  · rintro ⟨ps, alike, whole⟩ occurs
    obtain ⟨late, room⟩ := whole (alike.two_le.mpr occurs)
    exact ⟨alike.nul_last free late, fun ps' alike' => alike.unique alike' ▸ room⟩
  · intro whole
    obtain ⟨ps, alike, late⟩ := exists_cutsAlike free nonempty fun occurs => (whole occurs).1
    exact ⟨ps, alike, fun many => ⟨late many, (whole (alike.two_le.mp many)).2 ps alike⟩⟩

/-- The literal modes do what they are for exactly if `strstr` cuts the text as a search for the bytes does. With a
separator that has no NUL this is so exactly if it does not occur, or the text has no NUL before its last byte, and
the result is not too long. -/
theorem splitsAndReplaces_iff (lib : RegexLib ρ) (regexMode : Str → Str → Str → Option CharBuf) {s sep : Str}
    (repl : Str) (nonempty : sep ≠ []) (short : s.length < 4294967296) :
    (SplitsAndReplaces (ν := ν) lib regexMode s sep repl ↔ CutsAsBytes s sep repl) ∧
    (0 ∉ sep → (CutsAsBytes s sep repl ↔
      (sep <:+: s → 0 ∉ s.dropLast ∧ ∀ ps, CutsAlike sep s ps → (repl.intercalate ps).length < 4294967295))) := by
  have pos : ¬ sep.length = 0 := Nat.ne_of_gt (List.length_pos_iff.mpr nonempty)
  have split : strSplit lib [(.string s : Value ν), .string sep, .bool true] =
      (splitLoop sep (s.length + 2) (some s)).map .ok := by
    simp [strSplit, argStr, noRegex, nonempty]
  have replace : strReplace regexMode [(.string s : Value ν), .string sep, .string repl, .bool true] =
      strReplaceLiteral s sep repl := rfl
  refine ⟨⟨?_, ?_⟩, fun free => cutsAsBytes_free free nonempty⟩
  · rintro ⟨ps, parts, avoids, join, replaced⟩
    rw [split] at parts
    rw [replace] at replaced
    have searched : cstr sep ≠ [] := by
      intro none
      rw [strReplaceLiteral, if_neg pos, countLoop_empty none] at replaced
      cases replaced
    obtain ⟨ps', run, e⟩ := Option.map_eq_some_iff.mp parts
    cases e
    have alike := cutsAlike_of_splitLoop searched short run join avoids
    exact ⟨ps, alike, (strReplaceLiteral_eq alike nonempty short repl).mp replaced⟩
  · rintro ⟨ps, alike, whole⟩
    refine ⟨ps, ?_, alike.avoids nonempty, alike.join, ?_⟩
    · rw [split, alike.splitLoop nonempty short (by omega)]
      rfl
    · rw [replace]
      exact (strReplaceLiteral_eq alike nonempty short repl).mpr whole

/-- A library in which no pattern compiles. -/
def noRegexLib : RegexLib Unit := ⟨fun _ => none, fun _ _ => none⟩

lemma cutsAlike_commas : CutsAlike (bytes ",") (bytes ",a,,b") [[], bytes "a", [], bytes "b"] :=
  .next (v := bytes "a,,b") (by decide) (by decide) (.next (v := bytes ",b") (by decide) (by decide)
    (.next (v := bytes "b") (by decide) (by decide) (.last (by decide) (by decide))))

theorem splitsAndReplaces_commas :
    SplitsAndReplaces (ν := Nat) noRegexLib (fun _ _ _ => none) (bytes ",a,,b") (bytes ",") (bytes "; ") :=
  (splitsAndReplaces_iff noRegexLib (fun _ _ _ => none) (bytes "; ") (by decide) (by decide)).1.mpr
    ⟨_, cutsAlike_commas, fun _ => by decide⟩

/-- A comma behind a NUL is not found. -/
theorem splitLiteral_nul :
    ¬ SplitsAndReplaces (ν := Nat) noRegexLib (fun _ _ _ => none) [97, 0, 44, 98] (bytes ",") (bytes "; ") := by
  rintro ⟨ps, parts, avoids, -⟩
  have whole : strSplit noRegexLib [(.string [97, 0, 44, 98] : Value Nat), .string (bytes ","), .bool true] =
      some (.ok [[97, 0, 44, 98]]) := by decide
  rw [whole] at parts
  cases parts
  exact avoids _ List.mem_cons_self ⟨[97, 0], [98], rfl⟩

end Searches

end Cando
