import Cando.Natives.StringSplit

/-!
# Replacing at a regular expression

`string.replace` in regex mode (`lib/string.c`). It writes to a buffer that grows when a turn finds that the text
before the match and the replacement do not fit. All sizes are of 32 bits.
-/

namespace Cando

variable {ρ : Type} {lib : RegexLib ρ} {re : ρ} {repl : Str}

/-- `cando_realloc` -/
def CharBuf.realloc (buf : CharBuf) (n : Nat) : CharBuf := buf.take n ++ List.replicate (n - buf.length) none

/-- What a turn writes at `bufLen`: the first `prefixLen` bytes of `p`, and the replacement. `buf_cap` is the length of
the buffer; also the end that is written. -/
def replaceWrite (repl p : Str) (prefixLen : Nat) (buf : CharBuf) (bufLen : Nat) : Option (CharBuf × Nat) := do
  let need := u32 (bufLen + prefixLen + repl.length)
  let buf := if u32 (buf.length + 4294967295) ≤ need then buf.realloc (u32 (need * 2)) else buf
  let buf ← buf.store bufLen (p.take prefixLen)
  let bufLen := u32 (bufLen + prefixLen)
  let buf ← buf.store bufLen repl
  some (buf, u32 (bufLen + repl.length))

/-- The loop of the regex mode of `str_replace`, with the C string `p` before it: what is left of `p`, the buffer and
the end of what is written. Behind a match without length a byte is copied. -/
def regexReplaceLoop (lib : RegexLib ρ) (re : ρ) (repl : Str) : (turns : Nat) → (p : Str) → CharBuf → (bufLen : Nat) →
    Option (Str × CharBuf × Nat)
  | 0, _, _, _ => none
  | turns + 1, p, buf, bufLen =>
    match lib.regexec re p with
    | none => some (p, buf, bufLen)
    | some (so, eo) => do
      let matchLen := u32 (eo - so)
      let (buf, bufLen) ← replaceWrite repl p (u32 so) buf bufLen
      let p ← advance p eo
      if matchLen = 0 then
        match p with
        | [] => some ([], buf, bufLen)
        | c :: p => do
          let buf ← buf.store bufLen [c]
          regexReplaceLoop lib re repl turns p buf (u32 (bufLen + 1))
      else regexReplaceLoop lib re repl turns p buf bufLen

/-- The end of the text and its NUL. -/
def replaceRest (p : Str) (buf : CharBuf) (bufLen : Nat) : Option (CharBuf × Nat) := do
  let remLen := u32 p.length
  let buf := if buf.length ≤ u32 (bufLen + remLen) then buf.realloc (u32 (u32 (bufLen + remLen) + 1)) else buf
  let buf ← buf.store bufLen (p.take remLen)
  let bufLen := u32 (bufLen + remLen)
  let buf ← buf.store bufLen [0]
  some (buf, bufLen)

/-- The first size of the buffer. -/
def replaceCap (s repl : Str) : Nat := u32 (s.length * 2 + repl.length * 2 + 1024)

/-- `str_replace` in regex mode: the buffer with the length of the result in it, or the text of its error. -/
def strReplaceRegex (lib : RegexLib ρ) (s pat repl : Str) : Option (Except Str (CharBuf × Nat)) :=
  match lib.regcomp (cstr pat) with
  | none => some (.error (bytes "string.replace: invalid regex pattern '" ++ cstr pat ++ bytes "'"))
  | some re => do
    let buf ← CharBuf.store (List.replicate (replaceCap s repl) none) 0 [0]
    let (p, buf, bufLen) ← regexReplaceLoop lib re repl (s.length + 2) (cstr s) buf 0
    (replaceRest p buf bufLen).map .ok

/-! ### What is replaced -/

/-- What the searches of the text `p` find, each behind the match before: the texts before the matches, each with the
byte that is copied behind a match without length, and what is left in the end. -/
inductive RegexReplaced (lib : RegexLib ρ) (re : ρ) : (p : Str) → (ps : List (Str × Str)) → (rest : Str) → Prop where
  | done {p : Str} : lib.regexec re p = none → RegexReplaced lib re p [] p
  | last {p : Str} : lib.regexec re p = some (p.length, p.length) → RegexReplaced lib re p [(p, [])] []
  | empty {p q rest : Str} {so : Nat} {c : UInt8} {ps : List (Str × Str)} : lib.regexec re p = some (so, so) →
    p.drop so = c :: q → RegexReplaced lib re q ps rest → RegexReplaced lib re p ((p.take so, [c]) :: ps) rest
  | next {p rest : Str} {so eo : Nat} {ps : List (Str × Str)} : lib.regexec re p = some (so, eo) → so < eo →
    RegexReplaced lib re (p.drop eo) ps rest → RegexReplaced lib re p ((p.take so, []) :: ps) rest

/-- The pieces, with the replacement for each match. -/
def replacedPieces (repl : Str) (ps : List (Str × Str)) : Str := ps.flatMap fun x => x.1 ++ repl ++ x.2

lemma replacedPieces_cons (x : Str × Str) (ps : List (Str × Str)) :
    replacedPieces repl (x :: ps) = x.1 ++ repl ++ x.2 ++ replacedPieces repl ps := List.flatMap_cons

/-- The capacity behind a turn that has `need` bytes up to the end of the replacement. -/
def grownCap (cap need : Nat) : Nat := if need + 1 < cap then cap else need * 2

/-- The pieces can be written to a buffer of `cap` bytes that has `len` of them: where the buffer grows, twice what is
needed is a size. -/
def CapsFit (repl : Str) : (cap len : Nat) → List (Str × Str) → Prop
  | _, _, [] => True
  | cap, len, (x, c) :: ps =>
    let need := len + x.length + repl.length
    (need + 1 < cap ∨ need * 2 < 4294967296) ∧ CapsFit repl (grownCap cap need) (need + c.length) ps

/-! ### One turn -/

@[simp] lemma CharBuf.realloc_length (buf : CharBuf) (n : Nat) : (buf.realloc n).length = n := by
  simp only [realloc, List.length_append, List.length_take, List.length_replicate]
  omega

lemma CharBuf.Starts.realloc {buf : CharBuf} {w : Str} {n : Nat} (h : buf.Starts w) (le : w.length ≤ n) :
    (buf.realloc n).Starts w := by
  refine List.IsPrefix.trans ?_ (List.prefix_append _ _)
  rw [List.prefix_take_iff]
  exact ⟨h, by rwa [List.length_map]⟩

/-- The buffer of the regex mode: the text at its front, and a size of at least two bytes. -/
structure ReplaceBuffer (buf : CharBuf) (w : Str) : Prop where
  starts : buf.Starts w
  two : 2 ≤ buf.length
  size : buf.length < 4294967296

variable {buf buf' : CharBuf} {w p rest : Str} {so eo turns bufLen : Nat} {ps : List (Str × Str)}

/-- A turn whose text fits writes it. -/
lemma ReplaceBuffer.write (h : ReplaceBuffer buf w) (inside : so ≤ p.length) (short : p.length < 4294967296)
    (fits : w.length + so + repl.length + 1 < buf.length ∨ (w.length + so + repl.length) * 2 < 4294967296) :
    ∃ buf', replaceWrite repl p (u32 so) buf w.length = some (buf', w.length + so + repl.length) ∧
      ReplaceBuffer buf' (w ++ p.take so ++ repl) ∧ buf'.length = grownCap buf.length (w.length + so + repl.length) ∧
      w.length + so + repl.length + 1 ≤ buf'.length := by
  have two := h.two
  have size := h.size
  have so32 : u32 so = so := HashTable.u32_eq (by omega)
  have front : (p.take so).length = so := List.length_take_of_le inside
  have need32 : u32 (w.length + so + repl.length) = w.length + so + repl.length := HashTable.u32_eq (by omega)
  have cap32 : u32 (buf.length + 4294967295) = buf.length - 1 := by
    rw [u32]
    omega
  -- the buffer behind the growth
  have grown : ∃ buf₁ : CharBuf, (if buf.length - 1 ≤ w.length + so + repl.length
      then buf.realloc (u32 ((w.length + so + repl.length) * 2)) else buf) = buf₁ ∧ ReplaceBuffer buf₁ w ∧
      buf₁.length = grownCap buf.length (w.length + so + repl.length) ∧
      w.length + so + repl.length + 1 ≤ buf₁.length := by
    rw [grownCap]
    by_cases keep : w.length + so + repl.length + 1 < buf.length
    · rw [if_neg (by omega), if_pos keep]
      exact ⟨buf, rfl, h, rfl, by omega⟩
    · have double := fits.resolve_left keep
      rw [if_pos (by omega), if_neg keep, HashTable.u32_eq double]
      refine ⟨_, rfl, ⟨h.starts.realloc (by omega), ?_, ?_⟩, CharBuf.realloc_length _ _, ?_⟩
      all_goals rw [CharBuf.realloc_length]
      all_goals omega
  obtain ⟨buf₁, grow, holds₁, len₁, room⟩ := grown
  have room₂ : w.length + (p.take so).length ≤ buf₁.length := by omega
  obtain ⟨buf₂, stored₂, len₂, starts₂⟩ := holds₁.starts.store room₂
  have room₃ : (w ++ p.take so).length + repl.length ≤ buf₂.length := by
    rw [List.length_append]
    omega
  obtain ⟨buf₃, stored₃, len₃, starts₃⟩ := starts₂.store room₃
  rw [List.length_append, front] at stored₃
  have end₁ : u32 (w.length + so) = w.length + so := HashTable.u32_eq (by omega)
  refine ⟨buf₃, ?_, ⟨starts₃, ?_, ?_⟩, ?_, ?_⟩
  · simp only [replaceWrite, so32, cap32, need32, end₁, grow, stored₂, stored₃, Option.bind_eq_bind, Option.bind_some]
  · rw [len₃, len₂]
    exact holds₁.two
  · rw [len₃, len₂]
    exact holds₁.size
  · rw [len₃, len₂, len₁]
  · rw [len₃, len₂]
    exact room

/-- A turn that writes its text had room for it. -/
lemma ReplaceBuffer.write_fits (h : ReplaceBuffer buf w) (inside : so ≤ p.length) (short : p.length < 4294967296)
    {r : CharBuf × Nat} (run : replaceWrite repl p (u32 so) buf w.length = some r) :
    w.length + so + repl.length + 1 < buf.length ∨ (w.length + so + repl.length) * 2 < 4294967296 := by
  have two := h.two
  have size := h.size
  have so32 : u32 so = so := HashTable.u32_eq (by omega)
  have front : (p.take so).length = so := List.length_take_of_le inside
  have cap32 : u32 (buf.length + 4294967295) = buf.length - 1 := by
    rw [u32]
    omega
  simp only [replaceWrite, so32, cap32] at run
  obtain ⟨buf₂, stored₂, run⟩ := Option.bind_eq_some_iff.mp run
  obtain ⟨buf₃, stored₃, -⟩ := Option.bind_eq_some_iff.mp run
  obtain ⟨len₂, room₂⟩ := CharBuf.store_length stored₂
  obtain ⟨-, room₃⟩ := CharBuf.store_length stored₃
  rw [front] at room₂
  by_cases wraps : 4294967296 ≤ w.length + so + repl.length
  · -- neither the old nor a new buffer has so many bytes
    exfalso
    split at len₂
    · rw [CharBuf.realloc_length] at len₂
      rw [len₂] at room₃
      have less := Nat.mod_lt (u32 (w.length + so + repl.length) * 2) (y := 4294967296) (by decide)
      have end₁ : u32 (w.length + so) = w.length + so := by
        rename_i grow
        rw [if_pos grow, CharBuf.realloc_length] at room₂
        exact HashTable.u32_eq (by rw [u32] at room₂ ; omega)
      rw [end₁, u32] at room₃
      omega
    · rename_i keep
      rw [if_neg keep] at room₂
      have end₁ : u32 (w.length + so) = w.length + so := HashTable.u32_eq (by omega)
      rw [end₁] at room₃
      omega
  · have need32 : u32 (w.length + so + repl.length) = w.length + so + repl.length := HashTable.u32_eq (by omega)
    have end₁ : u32 (w.length + so) = w.length + so := HashTable.u32_eq (by omega)
    by_cases keep : w.length + so + repl.length + 1 < buf.length
    · exact .inl keep
    · right
      rw [need32, if_pos (by omega), CharBuf.realloc_length] at len₂
      rw [len₂, end₁] at room₃
      by_contra over32
      have wrapped : u32 ((w.length + so + repl.length) * 2) = (w.length + so + repl.length) * 2 - 4294967296 := by
        rw [u32]
        omega
      omega

/-! ### The loop -/

/-- What POSIX says of the offsets that `regexec` reports. -/
def RegexLib.Inside (lib : RegexLib ρ) : Prop :=
  ∀ {re : ρ} {u : Str} {so eo : Nat}, lib.regexec re u = some (so, eo) → so ≤ eo ∧ eo ≤ u.length

variable {c : UInt8} {q : Str}

/-- A turn with a match that has a length. -/
lemma ReplaceBuffer.turn_next (h : ReplaceBuffer buf w) (here : lib.regexec re p = some (so, eo)) (less : so < eo)
    (le : eo ≤ p.length) (short : p.length < 4294967296)
    (fits : w.length + so + repl.length + 1 < buf.length ∨ (w.length + so + repl.length) * 2 < 4294967296) :
    ∃ buf', (∀ turns, regexReplaceLoop lib re repl (turns + 1) p buf w.length =
        regexReplaceLoop lib re repl turns (p.drop eo) buf' (w ++ p.take so ++ repl).length) ∧
      ReplaceBuffer buf' (w ++ p.take so ++ repl) ∧
      buf'.length = grownCap buf.length (w.length + so + repl.length) := by
  obtain ⟨buf', wrote, holds, cap, -⟩ := h.write (by omega) short fits
  have front : (p.take so).length = so := List.length_take_of_le (by omega)
  have len : (w ++ p.take so ++ repl).length = w.length + so + repl.length := by
    simp only [List.length_append, front]
  have moved : advance p eo = some (p.drop eo) := if_pos le
  have size : ¬ u32 (eo - so) = 0 := by
    rw [HashTable.u32_eq (by omega)]
    omega
  refine ⟨buf', fun turns => ?_, holds, cap⟩
  simp only [regexReplaceLoop, here, wrote, moved, Option.bind_eq_bind, Option.bind_some, if_neg size, len]

/-- A turn with a match that has none, before the end of the text. -/
lemma ReplaceBuffer.turn_empty (h : ReplaceBuffer buf w) (here : lib.regexec re p = some (so, so))
    (behind : p.drop so = c :: q) (short : p.length < 4294967296)
    (fits : w.length + so + repl.length + 1 < buf.length ∨ (w.length + so + repl.length) * 2 < 4294967296) :
    ∃ buf', (∀ turns, regexReplaceLoop lib re repl (turns + 1) p buf w.length =
        regexReplaceLoop lib re repl turns q buf' (w ++ p.take so ++ repl ++ [c]).length) ∧
      ReplaceBuffer buf' (w ++ p.take so ++ repl ++ [c]) ∧
      buf'.length = grownCap buf.length (w.length + so + repl.length) := by
  have shorter := congrArg List.length behind
  rw [List.length_drop, List.length_cons] at shorter
  have le : so ≤ p.length := by omega
  obtain ⟨buf₁, wrote, holds, cap, room⟩ := h.write le short fits
  have front : (p.take so).length = so := List.length_take_of_le le
  have len : (w ++ p.take so ++ repl).length = w.length + so + repl.length := by
    simp only [List.length_append, front]
  have byte : (w ++ p.take so ++ repl).length + [c].length ≤ buf₁.length := by
    rw [len]
    exact room
  obtain ⟨buf₂, stored, len₂, starts⟩ := holds.starts.store byte
  rw [len] at stored
  have moved : advance p so = some (c :: q) := by rw [advance, if_pos le, behind]
  have size := holds.size
  have next : u32 (w.length + so + repl.length + 1) = (w ++ p.take so ++ repl ++ [c]).length := by
    rw [HashTable.u32_eq (by omega)]
    simp only [List.length_append, List.length_singleton, front]
  refine ⟨buf₂, fun turns => ?_, ⟨starts, len₂ ▸ holds.two, len₂ ▸ size⟩, len₂.trans cap⟩
  simp only [regexReplaceLoop, here, wrote, moved, Nat.sub_self, Option.bind_eq_bind, Option.bind_some, stored, next]
  rfl

/-- A turn that writes its text had room for it. -/
lemma ReplaceBuffer.turn_fits (h : ReplaceBuffer buf w) (here : lib.regexec re p = some (so, eo))
    (le : so ≤ p.length) (short : p.length < 4294967296) {r : Str × CharBuf × Nat}
    (run : regexReplaceLoop lib re repl (turns + 1) p buf w.length = some r) :
    w.length + so + repl.length + 1 < buf.length ∨ (w.length + so + repl.length) * 2 < 4294967296 := by
  simp only [regexReplaceLoop, here] at run
  obtain ⟨_, wrote, -⟩ := Option.bind_eq_some_iff.mp run
  exact h.write_fits le short wrote

/-- The loop writes the pieces that fit. -/
lemma RegexReplaced.loop (found : RegexReplaced lib re p ps rest) (inside : lib.Inside) (h : ReplaceBuffer buf w)
    (short : p.length < 4294967296) (enough : p.length < turns) (fits : CapsFit repl buf.length w.length ps) :
    ∃ buf', regexReplaceLoop lib re repl turns p buf w.length =
        some (rest, buf', (w ++ replacedPieces repl ps).length) ∧
      ReplaceBuffer buf' (w ++ replacedPieces repl ps) := by
  obtain ⟨turns, rfl⟩ := Nat.exists_eq_succ_of_ne_zero (Nat.ne_of_gt (Nat.zero_lt_of_lt enough))
  induction found generalizing turns buf w with
  | done none =>
    refine ⟨buf, ?_, ?_⟩
    · simp only [regexReplaceLoop, none, replacedPieces, List.flatMap_nil, List.append_nil]
    · rwa [replacedPieces, List.flatMap_nil, List.append_nil]
  | @last p here =>
    obtain ⟨buf₁, wrote, holds, -, -⟩ := h.write (Nat.le_refl _) short fits.1
    have moved : advance p p.length = some [] := by rw [advance, if_pos (Nat.le_refl _), List.drop_length]
    have all : w ++ replacedPieces repl [(p, [])] = w ++ p ++ repl := by simp [replacedPieces]
    rw [List.take_length] at holds
    rw [all]
    refine ⟨buf₁, ?_, holds⟩
    simp only [regexReplaceLoop, here, wrote, moved, Nat.sub_self, List.length_append, Option.bind_eq_bind,
      Option.bind_some]
    rfl
  | @empty p q rest so c ps here behind again ih =>
    obtain ⟨-, le⟩ := inside here
    have shorter := congrArg List.length behind
    rw [List.length_drop, List.length_cons] at shorter
    have front : (p.take so).length = so := List.length_take_of_le le
    obtain ⟨fit, fits⟩ := fits
    rw [front] at fit fits
    obtain ⟨buf₁, turn, holds, cap⟩ := h.turn_empty here behind short fit
    obtain ⟨turns, rfl⟩ := Nat.exists_eq_succ_of_ne_zero (show turns ≠ 0 by omega)
    have fits₁ : CapsFit repl buf₁.length (w ++ p.take so ++ repl ++ [c]).length ps := by
      simpa only [cap, List.length_append, front] using fits
    obtain ⟨buf', loop, holds'⟩ := ih holds (by omega) fits₁ turns (by omega)
    have all : w ++ replacedPieces repl ((p.take so, [c]) :: ps) =
        w ++ p.take so ++ repl ++ [c] ++ replacedPieces repl ps := by
      simp only [replacedPieces_cons, List.append_assoc]
    rw [all]
    exact ⟨buf', (turn _).trans loop, holds'⟩
  | @next p rest so eo ps here less again ih =>
    obtain ⟨-, le⟩ := inside here
    have shorter : (p.drop eo).length = p.length - eo := List.length_drop
    have front : (p.take so).length = so := List.length_take_of_le (by omega)
    obtain ⟨fit, fits⟩ := fits
    rw [front] at fit fits
    obtain ⟨buf₁, turn, holds, cap⟩ := h.turn_next here less le short fit
    obtain ⟨turns, rfl⟩ := Nat.exists_eq_succ_of_ne_zero (show turns ≠ 0 by omega)
    have fits₁ : CapsFit repl buf₁.length (w ++ p.take so ++ repl).length ps := by
      simpa only [cap, List.length_append, front, List.length_nil, Nat.add_zero] using fits
    obtain ⟨buf', loop, holds'⟩ := ih holds (by omega) fits₁ turns (by omega)
    have all : w ++ replacedPieces repl ((p.take so, []) :: ps) =
        w ++ p.take so ++ repl ++ replacedPieces repl ps := by
      simp only [replacedPieces_cons, List.append_assoc, List.append_nil]
    rw [all]
    exact ⟨buf', (turn _).trans loop, holds'⟩

/-- Where the loop comes to an end, the pieces fit. -/
lemma RegexReplaced.fits_of_loop (found : RegexReplaced lib re p ps rest) (inside : lib.Inside)
    (h : ReplaceBuffer buf w) (short : p.length < 4294967296) {r : Str × CharBuf × Nat}
    (run : regexReplaceLoop lib re repl turns p buf w.length = some r) : CapsFit repl buf.length w.length ps := by
  induction found generalizing turns buf w with
  | done none => trivial
  | @last p here =>
    cases turns with
    | zero => cases run
    | succ turns => exact ⟨h.turn_fits here (Nat.le_refl _) short run, trivial⟩
  | @empty p q rest so c ps here behind again ih =>
    cases turns with
    | zero => cases run
    | succ turns =>
      obtain ⟨-, le⟩ := inside here
      have shorter := congrArg List.length behind
      rw [List.length_drop, List.length_cons] at shorter
      have front : (p.take so).length = so := List.length_take_of_le le
      have fit := h.turn_fits here le short run
      obtain ⟨buf₁, turn, holds, cap⟩ := h.turn_empty here behind short fit
      have fits := ih holds (by omega) ((turn _).symm.trans run)
      refine ⟨by rwa [front], ?_⟩
      simpa only [cap, List.length_append, front] using fits
  | @next p rest so eo ps here less again ih =>
    cases turns with
    | zero => cases run
    | succ turns =>
      obtain ⟨-, le⟩ := inside here
      have shorter : (p.drop eo).length = p.length - eo := List.length_drop
      have front : (p.take so).length = so := List.length_take_of_le (by omega)
      have fit := h.turn_fits here (by omega) short run
      obtain ⟨buf₁, turn, holds, cap⟩ := h.turn_next here less le short fit
      have fits := ih holds (by omega) ((turn _).symm.trans run)
      refine ⟨by rwa [front], ?_⟩
      simpa only [cap, List.length_append, front, List.length_nil, Nat.add_zero] using fits

/-! ### The whole text -/

/-- The end of the text and its NUL come behind the pieces. -/
lemma ReplaceBuffer.closing (h : ReplaceBuffer buf w) (fits : w.length + rest.length + 1 < 4294967296) :
    ∃ buf', replaceRest rest buf w.length = some (buf', (w ++ rest).length) ∧ buf'.Starts (w ++ rest ++ [0]) := by
  have rem32 : u32 rest.length = rest.length := HashTable.u32_eq (by omega)
  have end32 : u32 (w.length + rest.length) = w.length + rest.length := HashTable.u32_eq (by omega)
  have len : w.length + rest.length = (w ++ rest).length := List.length_append.symm
  -- the buffer behind the growth
  have grown : ∃ buf₁ : CharBuf, (if buf.length ≤ w.length + rest.length
      then buf.realloc (u32 (w.length + rest.length + 1)) else buf) = buf₁ ∧ buf₁.Starts w ∧
      w.length + rest.length + 1 ≤ buf₁.length := by
    by_cases full : buf.length ≤ w.length + rest.length
    · rw [if_pos full, HashTable.u32_eq fits]
      exact ⟨_, rfl, h.starts.realloc (by omega), Nat.le_of_eq (CharBuf.realloc_length _ _).symm⟩
    · rw [if_neg full]
      exact ⟨buf, rfl, h.starts, Nat.lt_of_not_le full⟩
  obtain ⟨buf₁, grow, starts₁, room⟩ := grown
  have room₁ : w.length + rest.length ≤ buf₁.length := by omega
  obtain ⟨buf₂, stored₂, len₂, starts₂⟩ := starts₁.store room₁
  have room₂ : (w ++ rest).length + ([0] : Str).length ≤ buf₂.length := by
    rw [← len, len₂]
    exact room
  obtain ⟨buf₃, stored₃, -, starts₃⟩ := starts₂.store room₂
  refine ⟨buf₃, ?_, starts₃⟩
  rw [← len] at stored₃ ⊢
  simp only [replaceRest, rem32, end32, grow, List.take_length, Option.bind_eq_bind, Option.bind_some, stored₂, stored₃]

lemma ReplaceBuffer.closing_fits (h : ReplaceBuffer buf w) (short : rest.length < 4294967296) {r : CharBuf × Nat}
    (run : replaceRest rest buf w.length = some r) : w.length + rest.length + 1 < 4294967296 := by
  have size := h.size
  simp only [replaceRest, HashTable.u32_eq short, List.take_length] at run
  obtain ⟨buf₂, stored, -⟩ := Option.bind_eq_some_iff.mp run
  obtain ⟨-, room⟩ := CharBuf.store_length stored
  split at room
  case isTrue grow =>
    rw [CharBuf.realloc_length, u32, u32] at room
    omega
  case isFalse keep =>
    rw [u32] at keep
    omega

/-- The result of the regex mode: each match that the searches find is replaced, and the sizes are those of the text:
the buffer begins with it and its NUL, and its first size is twice that of the arguments and 1024 bytes. Or the pattern
is refused. -/
def RegexReplaceSized (lib : RegexLib ρ) (s pat repl : Str) : Prop :=
  (∃ text, strReplaceRegex lib s pat repl = some (.error text)) ∨
  ∃ re ps rest buf, lib.regcomp (cstr pat) = some re ∧ RegexReplaced lib re (cstr s) ps rest ∧
    replaceCap s repl = s.length * 2 + repl.length * 2 + 1024 ∧
    strReplaceRegex lib s pat repl = some (.ok (buf, (replacedPieces repl ps ++ rest).length)) ∧
    buf.Starts (replacedPieces repl ps ++ rest ++ [0])

/-- What fits into the sizes: the first one, the text with its NUL, and where the buffer must grow the doubled size. -/
def RegexReplaceFits (lib : RegexLib ρ) (s pat repl : Str) : Prop :=
  ∀ re, lib.regcomp (cstr pat) = some re → s.length * 2 + repl.length * 2 + 1024 < 4294967296 ∧
    ∃ ps rest, RegexReplaced lib re (cstr s) ps rest ∧ CapsFit repl (s.length * 2 + repl.length * 2 + 1024) 0 ps ∧
      (replacedPieces repl ps ++ rest).length + 1 < 4294967296

lemma RegexReplaced.rest_le (found : RegexReplaced lib re p ps rest) : rest.length ≤ p.length := by
  induction found with
  | done => exact Nat.le_refl _
  | last => exact Nat.zero_le _
  | @empty p q rest so c ps _ behind _ ih =>
    have shorter := congrArg List.length behind
    rw [List.length_drop, List.length_cons] at shorter
    omega
  | next _ _ _ ih =>
    rw [List.length_drop] at ih
    omega

lemma replaceCap_start {s : Str} (cap : replaceCap s repl = s.length * 2 + repl.length * 2 + 1024) :
    ∃ buf : CharBuf, CharBuf.store (List.replicate (replaceCap s repl) none) 0 [0] = some buf ∧
      buf.length = s.length * 2 + repl.length * 2 + 1024 ∧ ReplaceBuffer buf [] := by
  have small : replaceCap s repl < 4294967296 := Nat.mod_lt _ (by decide)
  have start : CharBuf.Starts (List.replicate (replaceCap s repl) none) [] := List.nil_prefix
  have room : ([] : Str).length + ([0] : Str).length ≤
      (List.replicate (replaceCap s repl) (none : Option UInt8)).length := by
    rw [List.length_replicate, cap, List.length_nil, List.length_singleton]
    omega
  obtain ⟨buf, stored, len, -⟩ := start.store room
  rw [List.length_replicate] at len
  refine ⟨buf, stored, len.trans cap, List.nil_prefix, ?_, ?_⟩ <;> omega

lemma regexReplaceSized_iff (inside : lib.Inside) {s pat : Str} (short : s.length < 4294967296) :
    RegexReplaceSized lib s pat repl ↔ RegexReplaceFits lib s pat repl := by
  have text : (cstr s).length < 4294967296 := Nat.lt_of_le_of_lt (cstr_front s).length_le short
  have enough : (cstr s).length < s.length + 2 := by
    have le := (cstr_front s).length_le
    omega
  constructor
  · intro sized re valid
    rcases sized with ⟨text, refused⟩ | ⟨re', ps, rest, buf, valid', found, cap, run, -⟩
    · simp only [strReplaceRegex, valid] at refused
      obtain ⟨_, -, refused⟩ := Option.bind_eq_some_iff.mp refused
      obtain ⟨_, -, refused⟩ := Option.bind_eq_some_iff.mp refused
      obtain ⟨_, -, e⟩ := Option.map_eq_some_iff.mp refused
      cases e
    · cases valid.symm.trans valid'
      obtain ⟨buf₀, stored, size, start⟩ := replaceCap_start cap
      simp only [strReplaceRegex, valid, stored, Option.bind_eq_bind, Option.bind_some] at run
      obtain ⟨⟨rest', buf', len'⟩, loop, run⟩ := Option.bind_eq_some_iff.mp run
      obtain ⟨r, closed, -⟩ := Option.map_eq_some_iff.mp run
      have fits := found.fits_of_loop inside start text loop
      obtain ⟨buf₁, loop₁, holds⟩ := found.loop inside start text enough fits
      cases loop₁.symm.trans loop
      have small := holds.closing_fits (Nat.lt_of_le_of_lt found.rest_le text) closed
      rw [size, List.length_nil] at fits
      refine ⟨?_, ps, rest, found, fits, ?_⟩
      · rw [← cap]
        exact Nat.mod_lt _ (by decide)
      · rwa [List.nil_append, ← List.length_append] at small
  · intro fits
    cases valid : lib.regcomp (cstr pat) with
    | none =>
      left
      rw [strReplaceRegex, valid]
      exact ⟨_, rfl⟩
    | some re =>
      obtain ⟨first, ps, rest, found, caps, small⟩ := fits re valid
      have cap : replaceCap s repl = s.length * 2 + repl.length * 2 + 1024 := HashTable.u32_eq first
      obtain ⟨buf₀, stored, size, start⟩ := replaceCap_start cap
      rw [← size] at caps
      obtain ⟨buf₁, loop, holds⟩ := found.loop inside start text enough caps
      rw [List.nil_append] at loop holds
      obtain ⟨buf', closed, starts⟩ := holds.closing (by rwa [← List.length_append])
      refine .inr ⟨re, ps, rest, buf', valid, found, cap, ?_, starts⟩
      simp only [strReplaceRegex, valid, stored, Option.bind_eq_bind, Option.bind_some]
      rw [← List.length_nil (α := UInt8), loop, Option.bind_some, closed]
      rfl

end Cando
