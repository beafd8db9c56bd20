import Cando.Natives.HttpSplit
import Mathlib.Data.List.TakeWhile

/-!
# HTTP requests

The grammar of a request, and what the request reader makes of it. The reader cuts the tokens of the request line to
the sizes of its fields and takes whatever `strtoul` yields for a length, so what it reports is the request just when
the tokens fit and the framing of the body is well formed.
-/

namespace Cando

open Scan

/-! ### The grammar -/

/-- The line up to the first CRLF of a stream, and what is behind it. -/
inductive Line : (s line rest : Str) → Prop where
  | crlf {s : Str} : Line (13 :: 10 :: s) [] s
  | byte {b : UInt8} {s line rest : Str} (other : ¬ (b = 13 ∧ s.head? = some 10)) (tail : Line s line rest) :
      Line (b :: s) (b :: line) rest

/-- The lines up to the first empty one. -/
inductive Lines : (s : Str) → (lines : List Str) → (rest : Str) → Prop where
  | done {s rest : Str} (last : Line s [] rest) : Lines s [] rest
  | line {s line s' rest : Str} {lines : List Str} (first : Line s line s') (some : line ≠ [])
      (others : Lines s' lines rest) : Lines s (line :: lines) rest

/-- A request line: the tokens are separated by single spaces. -/
structure RequestLine (line method target ver : Str) : Prop where
  tokens : line = method ++ 32 :: (target ++ 32 :: ver)
  method : 32 ∉ method
  target : 32 ∉ target

/-- The version of the last token. -/
def versionOf (ver : Str) : Str := if (bytes "HTTP/").isPrefixOf ver then ver.drop 5 else ver

/-- Without blanks around it. -/
def trim (v : Str) : Str := ((v.dropWhile isBlank).reverse.dropWhile isBlank).reverse

/-- The name, in lower case, and the value of a header field. -/
def fieldOf (line : Str) : Option (Str × Str) :=
  (strchr line 58).map fun (name, value) => (name.map toLower, trim value)

/-- The values of the fields of a name. -/
def valuesOf (name : Str) (lines : List Str) : List Str :=
  ((lines.filterMap fieldOf).filter (·.1 == name)).map (·.2)

/-- The text is a number in this base, and not too large. -/
structure Numeral (base : Nat) (v : Str) (n : Nat) : Prop where
  some : v ≠ []
  digits : ∀ b ∈ v, (digitValue base b).isSome
  value : numeral base 0 v = n
  fits : n ≤ ulongMax

/-- The first line of a chunk: its size, and maybe an extension. -/
def ChunkLine (line : Str) (n : Nat) : Prop :=
  ∃ hex ext, line = hex ++ ext ∧ Numeral 16 hex n ∧ (ext = [] ∨ ext.head? = some 59)

/-- A chunked body and the payloads of its chunks. -/
inductive Chunks : (s body : Str) → Prop where
  | last {s line s' rest : Str} {trailer : List Str} (first : Line s line s') (size : ChunkLine line 0)
      (trailers : Lines s' trailer rest) : Chunks s []
  | chunk {s line payload s' body : Str} {n : Nat} (first : Line s line (payload ++ 13 :: 10 :: s'))
      (size : ChunkLine line n) (pos : 0 < n) (length : payload.length = n) (others : Chunks s' body) :
      Chunks s (payload ++ body)

/-- The body of a request with these header lines. A message that contradicts itself on its framing has none. -/
inductive MessageBody (lines : List Str) (s : Str) : (body : Str) → Prop where
  | none (te : valuesOf (bytes "transfer-encoding") lines = []) (cl : valuesOf (bytes "content-length") lines = []) :
      MessageBody lines s []
  | length {v : Str} {vs : List Str} {n : Nat} (te : valuesOf (bytes "transfer-encoding") lines = [])
      (cl : valuesOf (bytes "content-length") lines = v :: vs) (same : ∀ w ∈ vs, w = v) (number : Numeral 10 v n)
      (enough : n ≤ s.length) : MessageBody lines s (s.take n)
  | chunked {v body : Str} (te : valuesOf (bytes "transfer-encoding") lines = [v])
      (coding : sameIgnoringCase v (bytes "chunked") = true) (cl : valuesOf (bytes "content-length") lines = [])
      (chunks : Chunks s body) : MessageBody lines s body

/-- The request that a stream begins with has these tokens and this body. -/
def Reports (stream : Str) (r : HttpParsedRequest) : Prop :=
  ∃ line lines s s' ver, Line stream line s ∧ Lines s lines s' ∧ RequestLine line r.method r.path ver ∧
    r.version = versionOf ver ∧ MessageBody lines s' r.body

/-! ### What the reader takes for granted -/

/-- The first lines of the chunks are well formed, as far as the chunks go. -/
inductive ChunkSizes : (s : Str) → Prop where
  | last {s line s' : Str} (first : Line s line s') (size : ChunkLine line 0) : ChunkSizes s
  | chunk {s line s' : Str} {n : Nat} (first : Line s line s') (size : ChunkLine line n) (pos : 0 < n)
      (others : ChunkSizes (s'.drop (n + 2))) : ChunkSizes s

/-- The framing of a body is well formed: by one length, or by a chunked coding alone. -/
inductive Framed (lines : List Str) (s : Str) : Prop where
  | none (te : valuesOf (bytes "transfer-encoding") lines = []) (cl : valuesOf (bytes "content-length") lines = [])
  | length {v : Str} {vs : List Str} {n : Nat} (te : valuesOf (bytes "transfer-encoding") lines = [])
      (cl : valuesOf (bytes "content-length") lines = v :: vs) (same : ∀ w ∈ vs, w = v) (number : Numeral 10 v n)
  | chunked {v : Str} (te : valuesOf (bytes "transfer-encoding") lines = [v])
      (coding : sameIgnoringCase v (bytes "chunked") = true) (cl : valuesOf (bytes "content-length") lines = [])
      (sizes : ChunkSizes s)

/-- The tokens of a request line fit into their fields, and the version into a C string. -/
def Fits (line : Str) : Prop :=
  ∃ method target ver, RequestLine line method target ver ∧ method.length < 16 ∧ target.length < 2048 ∧
    (versionOf ver).length < 8 ∧ 0 ∉ ver

/-- The request that a stream begins with fits and is well framed. -/
def Lawful (stream : Str) : Prop :=
  ∃ line lines s s', Line stream line s ∧ Lines s lines s' ∧ Fits line ∧ Framed lines s'

/-! ### Lines -/

section Lines

variable {s s' line line' rest rest' : Str} {lines lines' : List Str}

lemma Line.unique (h : Line s line rest) (h' : Line s line' rest') : line = line' ∧ rest = rest' := by
  induction h generalizing line' with
  | crlf =>
    cases h' with
    | crlf => exact ⟨rfl, rfl⟩
    | byte other => exact absurd ⟨rfl, rfl⟩ other
  | byte other _ ih =>
    cases h' with
    | crlf => exact absurd ⟨rfl, rfl⟩ other
    | byte _ tail =>
      obtain ⟨rfl, rfl⟩ := ih tail
      exact ⟨rfl, rfl⟩

lemma Lines.unique (h : Lines s lines rest) (h' : Lines s lines' rest') : lines = lines' ∧ rest = rest' := by
  induction h generalizing lines' with
  | done last =>
    cases h' with
    | done last' => exact ⟨rfl, (last.unique last').2⟩
    | line first some => exact absurd (last.unique first).1.symm some
  | line first some _ ih =>
    cases h' with
    | done last => exact absurd (first.unique last).1 some
    | line first' _ others =>
      obtain ⟨rfl, rfl⟩ := first.unique first'
      obtain ⟨rfl, rfl⟩ := ih others
      exact ⟨rfl, rfl⟩

lemma Line.empty (h : Line s [] rest) : s = 13 :: 10 :: rest := by
  cases h
  rfl

/-- The line that a stream yields is its first. -/
lemma line_of_streamLine {max : Nat} {read : Str} (h : streamLine max read s = (some line, rest)) :
    ∃ tail, line = read ++ tail ∧ Line s tail rest := by
  induction s generalizing read with
  | nil => cases h
  | cons b s ih =>
    by_cases crlf : b = 13 ∧ s.head? = some 10
    · obtain ⟨rfl, head⟩ := crlf
      obtain ⟨s, rfl⟩ := List.head?_eq_some_iff.mp head
      rw [HttpReader.streamLine_crlf] at h
      split at h
      · cases h
      · cases h
        exact ⟨[], (List.append_nil _).symm, .crlf⟩
    · rw [HttpReader.streamLine_byte crlf] at h
      split at h
      · cases h
      · obtain ⟨tail, rfl, found⟩ := ih h
        exact ⟨b :: tail, by rw [List.append_assoc, List.singleton_append], .byte crlf found⟩

lemma line_of_read (max : Nat) (h : streamSource.readCrlfLine max s = (some line, rest)) : Line s line rest := by
  obtain ⟨tail, rfl, found⟩ := line_of_streamLine h
  exact found

end Lines

/-! ### Bytes and tokens -/

section Text

variable {s x y x' y' : Str} {c : UInt8}

/-- What is before the first `c` and what is behind it. -/
lemma split_unique (h : x ++ c :: y = x' ++ c :: y') (hx : c ∉ x) (hx' : c ∉ x') : x = x' ∧ y = y' := by
  induction x generalizing x' with
  | nil =>
    cases x' with
    | nil => exact ⟨rfl, (List.cons.inj h).2⟩
    | cons b x' => exact absurd (List.mem_cons.mpr (.inl (List.cons.inj h).1)) hx'
  | cons b x ih =>
    cases x' with
    | nil => exact absurd (List.mem_cons.mpr (.inl (List.cons.inj h).1.symm)) hx
    | cons b' x' =>
      obtain ⟨rfl, tails⟩ := List.cons.inj h
      obtain ⟨rfl, rfl⟩ := ih tails (fun m => hx (.tail _ m)) fun m => hx' (.tail _ m)
      exact ⟨rfl, rfl⟩

lemma notMem_takeWhile_ne : c ∉ s.takeWhile (· ≠ c) := fun h => by simpa using List.mem_takeWhile_imp h

lemma strchr_eq_some : strchr s c = some (x, y) ↔ s = x ++ c :: y ∧ c ∉ x := by
  have split := List.takeWhile_append_dropWhile (p := fun b => decide (b ≠ c)) (l := s)
  have found (b : UInt8) (after : Str) (e : s.dropWhile (· ≠ c) = b :: after) : b = c := by
    have some : s.dropWhile (· ≠ c) ≠ [] := by rw [e]; exact List.cons_ne_nil _ _
    have first := List.head_dropWhile_not (fun b => decide (b ≠ c)) some
    have head : (s.dropWhile (· ≠ c)).head some = b := by simp only [e, List.head_cons]
    rw [head] at first
    simpa using first
  constructor
  · intro h
    rw [strchr] at h
    match e : s.dropWhile (· ≠ c) with
    | [] =>
      rw [e] at h
      cases h
    | b :: after =>
      rw [e] at h split
      obtain ⟨rfl, rfl⟩ := Prod.mk.inj (Option.some.inj h)
      obtain rfl := found b _ e
      exact ⟨split.symm, notMem_takeWhile_ne⟩
  · rintro ⟨rfl, before⟩
    have other : ∀ b ∈ x, decide (b ≠ c) = true := fun b mem => decide_eq_true fun e => before (e ▸ mem)
    rw [strchr, List.dropWhile_append_of_pos other, List.takeWhile_append_of_pos other,
      List.dropWhile_cons_of_neg (by simp), List.takeWhile_cons_of_neg (by simp), List.append_nil]

lemma strchr_eq_none : strchr s c = none ↔ c ∉ s := by
  rw [strchr]
  match e : s.dropWhile (· ≠ c) with
  | [] =>
    refine ⟨fun _ mem => ?_, fun _ => rfl⟩
    exact absurd (List.dropWhile_eq_nil_iff.mp e c mem) (by simp)
  | b :: after =>
    refine ⟨nofun, fun absent => ?_⟩
    have ne : s.dropWhile (· ≠ c) = [] := List.dropWhile_eq_nil_iff.mpr fun b mem =>
      decide_eq_true fun e => absent (e ▸ mem)
    rw [e] at ne
    cases ne

/-- A C string is its buffer up to a NUL. -/
lemma cString_split (s : Str) : ∃ tail, s = cString s ++ tail ∧ 0 ∉ cString s ∧ (0 ∉ s → tail = []) := by
  refine ⟨s.dropWhile (· ≠ 0), List.takeWhile_append_dropWhile.symm, notMem_takeWhile_ne, fun absent => ?_⟩
  exact List.dropWhile_eq_nil_iff.mpr fun b mem => decide_eq_true fun e => absent (e ▸ mem)

lemma cString_of_notMem (h : 0 ∉ s) : cString s = s :=
  List.takeWhile_eq_self_iff.mpr fun _ mem => decide_eq_true fun e => h (e ▸ mem)

/-- The C string of a text with NUL-free beginnings. -/
lemma cString_append (h : 0 ∉ x) : cString (x ++ y) = x ++ cString y :=
  List.takeWhile_append_of_pos fun _ mem => decide_eq_true fun e => h (e ▸ mem)

/-- Trimming removes blanks only. -/
lemma mem_trim (h : c ∈ s) (solid : isBlank c = false) : c ∈ trim s := by
  have front {s : Str} (h : c ∈ s) : c ∈ s.dropWhile isBlank := by
    rw [← List.takeWhile_append_dropWhile (p := isBlank) (l := s), List.mem_append] at h
    obtain blank | rest := h
    · rw [List.mem_takeWhile_imp blank] at solid
      cases solid
    · exact rest
  rw [trim, List.mem_reverse]
  exact front (List.mem_reverse.mpr (front h))

end Text

/-! ### The head of a request -/

section Head

variable {s s' line rest : Str} {lines : List Str}

/-- The tokens that the request reader reports, each cut to its field. Bytes behind a NUL are lost. -/
lemma parseRequestLine_some {a b c : Str} (h : parseRequestLine line = some (a, b, c)) :
    ∃ method target ver tail, RequestLine line method target (ver ++ tail) ∧ (0 ∉ ver ++ tail → tail = []) ∧ 0 ∉ ver ∧
      a = copyField 16 method ∧ b = copyField 2048 target ∧ c = copyField 8 (versionOf ver) := by
  obtain ⟨tail, split, clean, whole⟩ := cString_split line
  simp only [parseRequestLine, Option.bind_eq_bind, Option.bind_eq_some_iff, Option.pure_def, Option.some.injEq,
    Prod.mk.injEq] at h
  obtain ⟨⟨method, after⟩, first, ⟨target, ver⟩, second, rfl, rfl, rfl⟩ := h
  obtain ⟨e, notMethod⟩ := strchr_eq_some.mp first
  obtain ⟨rfl, notTarget⟩ := strchr_eq_some.mp second
  rw [e] at clean
  have tokens : line = method ++ 32 :: (target ++ 32 :: (ver ++ tail)) := by
    rw [split, e]
    simp only [List.append_assoc, List.cons_append]
  refine ⟨method, target, ver, tail, ⟨tokens, notMethod, notTarget⟩, fun absent => whole fun mem => ?_,
    fun mem => clean (by simp [mem]), rfl, rfl, rfl⟩
  rw [split, List.mem_append] at mem
  obtain inside | behind := mem
  · exact clean (e ▸ inside)
  · exact absent (List.mem_append.mpr (.inr behind))

lemma RequestLine.unique {m t v m' t' v' : Str} (h : RequestLine line m t v) (h' : RequestLine line m' t' v') :
    m = m' ∧ t = t' ∧ v = v' := by
  obtain ⟨rfl, e⟩ := split_unique (h.tokens.symm.trans h'.tokens) h.method h'.method
  obtain ⟨rfl, rfl⟩ := split_unique e h.target h'.target
  exact ⟨rfl, rfl, rfl⟩

/-- The header lines, and the fields that come of them. -/
lemma lines_of_parseHeaders {headers : List HttpHeader} (h : parseHeaders streamSource s = (some headers, rest)) :
    ∃ lines, Lines s lines rest ∧ headers = lines.filterMap parseHeader := by
  have rounds (n : Nat) (done : List HttpHeader) (s : Str)
      (h : Scan.rounds (parseHeaderLine streamSource) n done s = (some headers, rest)) :
      ∃ lines, Lines s lines rest ∧ headers = done ++ lines.filterMap parseHeader := by
    induction n generalizing done s with
    | zero => cases h
    | succ n ih =>
      obtain ⟨next, s', turn, more⟩ := bind_eq_some h
      obtain ⟨line, s₁, read, go⟩ := bind_eq_some turn
      have first := line_of_read _ read
      split at go
      · rename_i empty
        subst empty
        cases go
        cases more
        exact ⟨[], .done first, (List.append_nil _).symm⟩
      · rename_i some
        cases go
        obtain ⟨lines, others, e⟩ := ih _ _ more
        refine ⟨line :: lines, .line first some others, ?_⟩
        rw [e, List.filterMap_cons]
        cases parseHeader line <;> simp
  exact rounds _ [] s h

end Head

/-! ### Framing fields -/

section Fields

/-- The reader sees a field as far as a NUL; without one in its name it has the name right. -/
lemma parseHeader_field (line : Str) :
    (fieldOf line = none ∧ parseHeader line = none) ∨
      (∃ n v, fieldOf line = some (n, v) ∧ 0 ∈ n ∧ parseHeader line = none) ∨
      ∃ n v v', fieldOf line = some (n, v) ∧ parseHeader line = some ⟨n, v'⟩ ∧ (0 ∉ v → v' = v) := by
  match found : strchr line 58 with
  | none =>
    have absent : 58 ∉ cString line := fun mem => strchr_eq_none.mp found ((List.takeWhile_sublist _).mem mem)
    exact .inl ⟨by rw [fieldOf, found]; rfl, by rw [parseHeader, strchr_eq_none.mpr absent]; rfl⟩
  | some (x, y) =>
    obtain ⟨rfl, before⟩ := strchr_eq_some.mp found
    refine .inr ?_
    by_cases clean : 0 ∈ x
    · refine .inl ⟨x.map toLower, trim y, by rw [fieldOf, found]; rfl,
        List.mem_map.mpr ⟨0, clean, rfl⟩, ?_⟩
      have absent : 58 ∉ cString (x ++ 58 :: y) := by
        have cut : (x.takeWhile (· ≠ 0)).length ≠ x.length := by
          intro whole
          rw [← List.IsPrefix.eq_of_length (List.takeWhile_prefix _) whole] at clean
          exact notMem_takeWhile_ne clean
        rw [cString, List.takeWhile_append, if_neg cut]
        exact fun mem => before ((List.takeWhile_sublist _).mem mem)
      rw [parseHeader, strchr_eq_none.mpr absent]
      rfl
    · refine .inr ⟨x.map toLower, trim y, trim (cString y), by rw [fieldOf, found]; rfl, ?_, fun whole => ?_⟩
      · have seen : strchr (cString (x ++ 58 :: y)) 58 = some (x, cString y) := by
          rw [cString_append clean]
          exact strchr_eq_some.mpr ⟨rfl, before⟩
        rw [parseHeader, seen]
        rfl
      · rw [cString_of_notMem fun mem => whole (mem_trim mem rfl)]

/-- The reader finds the first field of a name, unless a NUL cuts its value. -/
lemma get_of_values (name : Str) (clean : 0 ∉ name) (lines : List Str) :
    match valuesOf name lines with
    | [] => httpHeadersGet (lines.filterMap parseHeader) name = none
    | v :: _ => 0 ∉ v → httpHeadersGet (lines.filterMap parseHeader) name = some v := by
  induction lines with
  | nil => exact rfl
  | cons line lines ih =>
    obtain ⟨field, header⟩ | ⟨n, w, field, nul, header⟩ | ⟨n, w, w', field, header, same⟩ := parseHeader_field line
    · rw [valuesOf, List.filterMap_cons_none field, List.filterMap_cons_none header]
      exact ih
    · have other : (n == name) = false := beq_eq_false_iff_ne.mpr fun e => clean (e ▸ nul)
      rw [valuesOf, List.filterMap_cons_some field, List.filterMap_cons_none header,
        List.filter_cons_of_neg (by simp [other])]
      exact ih
    · rw [valuesOf, List.filterMap_cons_some field, List.filterMap_cons_some header, httpHeadersGet]
      by_cases mine : n = name
      · subst mine
        rw [List.filter_cons_of_pos (by simp), List.find?_cons_of_pos (by simp)]
        exact fun whole => congrArg some (same whole)
      · rw [List.filter_cons_of_neg (by simp [mine]), List.find?_cons_of_neg (by simp [mine])]
        exact ih

end Fields

/-! ### Lengths -/

section Lengths

variable {base n : Nat} {b : UInt8} {v line s s' rest body : Str} {lines : List Str}

/-- The digits of 10. -/
lemma decimal_digit (digit : (digitValue 10 b).isSome) : 48 ≤ b ∧ b ≤ 57 := by
  rw [digitValue] at digit
  by_contra other
  rw [if_neg other] at digit
  by_cases letter : 97 ≤ toLower b ∧ toLower b ≤ 122
  · have low : 97 ≤ (toLower b).toNat := UInt8.le_iff_toNat_le.mp letter.1
    simp only [if_pos letter, if_neg (show ¬ (toLower b).toNat - 87 < 10 by omega)] at digit
    cases digit
  · simp only [if_neg letter] at digit
    cases digit

/-- The digits of 16. -/
lemma hex_digit (digit : (digitValue 16 b).isSome) : 48 ≤ b ∧ b ≤ 57 ∨ 97 ≤ toLower b ∧ toLower b ≤ 102 := by
  rw [digitValue] at digit
  by_cases decimal : 48 ≤ b ∧ b ≤ 57
  · exact .inl decimal
  by_cases letter : 97 ≤ toLower b ∧ toLower b ≤ 122
  · right
    refine ⟨letter.1, UInt8.le_iff_toNat_le.mpr ?_⟩
    by_contra high
    have large : ¬ (toLower b).toNat - 87 < 16 := by
      have bound : ¬ (toLower b).toNat ≤ 102 := high
      omega
    simp only [if_neg decimal, if_pos letter, if_neg large] at digit
    cases digit
  · simp only [if_neg decimal, if_neg letter] at digit
    cases digit

/-- The digits of 16 are no blanks, signs, `x`, `;` or NUL. -/
lemma digit_byte (digit : (digitValue 16 b).isSome) :
    isSpace b = false ∧ b ≠ 45 ∧ b ≠ 43 ∧ toLower b ≠ 120 ∧ b ≠ 59 ∧ b ≠ 0 := by
  have range := hex_digit digit
  simp only [isSpace, toLower] at range ⊢
  grind

lemma digit_mono (digit : (digitValue 10 b).isSome) : (digitValue 16 b).isSome := by
  have range := decimal_digit digit
  have high : b.toNat ≤ 57 := UInt8.le_iff_toNat_le.mp range.2
  rw [digitValue, if_pos range]
  simp only [if_pos (show b.toNat - 48 < 16 by omega), Option.isSome_some]

/-- The digits of a numeral. -/
lemma Numeral.hex (h : Numeral base v n) (known : base = 10 ∨ base = 16) : ∀ b ∈ v, (digitValue 16 b).isSome := by
  intro b mem
  obtain rfl | rfl := known
  · exact digit_mono (h.digits b mem)
  · exact h.digits b mem

/-- `strtoul` reads a numeral. -/
lemma strtoul_numeral (h : Numeral base v n) (known : base = 10 ∨ base = 16) : strtoul base v = n := by
  have digits := h.hex known
  obtain ⟨b, t, rfl⟩ := List.exists_cons_of_ne_nil h.some
  obtain ⟨space, minus, plus, -⟩ := digit_byte (digits b List.mem_cons_self)
  have sign : takeSign (b :: t) = (false, b :: t) := by
    rw [takeSign.eq_def]
    split
    · rename_i e
      exact absurd (List.cons.inj e).1 minus
    · rename_i e
      exact absurd (List.cons.inj e).1 plus
    · rfl
  have prefixed : dropHexPrefix (b :: t) = b :: t := by
    rw [dropHexPrefix.eq_def]
    split
    · rename_i x d u e
      have mem : x ∈ b :: t := by rw [e]; simp
      rw [if_neg fun cond => (digit_byte (digits x mem)).2.2.2.1 cond.1, ← e]
    · rfl
  have value := h.value
  have fits := h.fits
  rw [strtoul, List.dropWhile_cons_of_neg (by simp [space]), sign]
  simp only [prefixed, ite_self, value, Bool.false_eq_true, if_false, if_neg (Nat.not_lt.mpr fits)]

lemma chunkSize_line (h : ChunkLine line n) : chunkSize line = n := by
  obtain ⟨hex, ext, rfl, number, extension⟩ := h
  have digits := number.hex (.inr rfl)
  have clean : 0 ∉ hex := fun mem => (digit_byte (digits 0 mem)).2.2.2.2.2 rfl
  have other : ∀ b ∈ hex, decide (b ≠ (59 : UInt8)) = true := fun b mem =>
    decide_eq_true (digit_byte (digits b mem)).2.2.2.2.1
  have behind : (cString ext).takeWhile (· ≠ 59) = [] := by
    obtain rfl | head := extension
    · rfl
    · obtain ⟨t, rfl⟩ := List.head?_eq_some_iff.mp head
      rfl
  rw [chunkSize, cString_append clean, List.takeWhile_append_of_pos other, behind, List.append_nil]
  exact strtoul_numeral number (.inr rfl)

/-- The trailer of a chunked body is read up to an empty line. -/
lemma lines_of_trailer (n : Nat) (h : Scan.rounds (readTrailerLine streamSource) n () s = (some (), rest)) :
    ∃ lines, Lines s lines rest := by
  induction n generalizing s with
  | zero => cases h
  | succ n ih =>
    obtain ⟨next, s', turn, more⟩ := bind_eq_some h
    obtain ⟨line, s₁, read, go⟩ := bind_eq_some turn
    have first := line_of_read _ read
    split at go
    · rename_i empty
      subst empty
      cases go
      cases more
      exact ⟨[], .done first⟩
    · rename_i some
      cases go
      obtain ⟨lines, others⟩ := ih more
      exact ⟨line :: lines, .line first some others⟩

lemma bytes_of_read (h : streamBytes n s = (some v, rest)) : n ≤ s.length ∧ v = s.take n ∧ rest = s.drop n := by
  rw [streamBytes] at h
  split at h
  · rename_i enough
    obtain ⟨taken, left⟩ := Prod.mk.inj h
    exact ⟨enough, (Option.some.inj taken).symm, left.symm⟩
  · cases h

/-- With well-formed chunk sizes, the payloads of the chunks are read. The induction is on the rounds of the loop. -/
lemma chunks_of_read (n : Nat) {out r : Str} (h : Scan.rounds (readChunk streamSource) n out s = (some r, rest))
    (sizes : ChunkSizes s) : ∃ body, r = out ++ body ∧ Chunks s body := by
  induction n generalizing s out with
  | zero => cases h
  | succ n ih =>
    obtain ⟨next, s', turn, more⟩ := bind_eq_some h
    obtain ⟨line, s₁, read, go⟩ := bind_eq_some turn
    have first := line_of_read _ read
    cases sizes with
    | last first' size =>
      obtain ⟨rfl, rfl⟩ := first.unique first'
      rw [if_pos (chunkSize_line size)] at go
      obtain ⟨u, s₂, trailer, go⟩ := bind_eq_some go
      cases go
      cases more
      obtain ⟨lines, trailers⟩ := lines_of_trailer _ trailer
      exact ⟨[], (List.append_nil _).symm, .last first size trailers⟩
    | @chunk _ _ _ k first' size pos others =>
      obtain ⟨rfl, rfl⟩ := first.unique first'
      rw [if_neg (by rw [chunkSize_line size]; omega), chunkSize_line size] at go
      obtain ⟨payload, s₂, taken, go⟩ := bind_eq_some go
      obtain ⟨enough, rfl, rfl⟩ := bytes_of_read taken
      obtain ⟨ending, s₃, read', go⟩ := bind_eq_some go
      split at go
      · cases go
      · rename_i empty
        obtain rfl : ending = [] := not_not.mp empty
        have ended : s₁.drop k = 13 :: 10 :: s₃ := (line_of_read _ read').empty
        have behind : s₁.drop (k + 2) = s₃ := by
          rw [← List.drop_drop, ended]
          rfl
        cases go
        obtain ⟨body, e, chunks⟩ := ih more (behind ▸ others)
        refine ⟨s₁.take k ++ body, by rw [e, List.append_assoc], .chunk ?_ size pos ?_ chunks⟩
        · rwa [← ended, List.take_append_drop]
        · rw [List.length_take, Nat.min_eq_left enough]

/-- The chunks of a chunked body have well-formed sizes. -/
lemma Chunks.sizes (h : Chunks s body) : ChunkSizes s := by
  induction h with
  | last first size => exact .last first size
  | @chunk _ _ payload s' _ n first size pos length _ ih =>
    refine .chunk first size pos ?_
    have behind : (payload ++ 13 :: 10 :: s').drop (n + 2) = s' := by
      rw [← length, ← List.drop_drop, List.drop_left]
      rfl
    rwa [behind]

lemma MessageBody.framed (h : MessageBody lines s body) : Framed lines s := by
  cases h with
  | none te cl => exact .none te cl
  | length te cl same number => exact .length te cl same number
  | chunked te coding cl chunks => exact .chunked te coding cl chunks.sizes

/-- With a well-formed framing, the body is read. -/
lemma body_of_read (framed : Framed lines s)
    (h : readRequestBody streamSource (lines.filterMap parseHeader) s = (some body, rest)) :
    MessageBody lines s body := by
  have getTe := get_of_values (bytes "transfer-encoding") (by decide) lines
  have getCl := get_of_values (bytes "content-length") (by decide) lines
  rw [readRequestBody] at h
  cases framed with
  | none te cl =>
    rw [te] at getTe
    rw [cl] at getCl
    rw [getTe, getCl] at h
    cases h
    exact .none te cl
  | @length v vs n te cl same number =>
    have clean : 0 ∉ v := fun mem => (digit_byte (number.hex (.inl rfl) 0 mem)).2.2.2.2.2 rfl
    rw [te] at getTe
    rw [cl] at getCl
    rw [getTe, getCl clean] at h
    have h : readLengthBody streamSource v s = (some body, rest) := h
    rw [readLengthBody, strtoul_numeral number (.inl rfl)] at h
    split at h
    · obtain ⟨enough, rfl, -⟩ := bytes_of_read h
      exact .length te cl same number enough
    · rename_i zero
      obtain rfl : n = 0 := by omega
      cases h
      exact .length te cl same number (Nat.zero_le _)
  | @chunked v te coding cl sizes =>
    have clean : 0 ∉ v := by
      intro mem
      have lower : v.map toLower = (bytes "chunked").map toLower := beq_iff_eq.mp coding
      have nul : (0 : UInt8) ∈ (bytes "chunked").map toLower := lower ▸ List.mem_map.mpr ⟨0, mem, rfl⟩
      exact absurd nul (by decide)
    have chunked : isChunked (some v) = true := coding
    rw [te] at getTe
    rw [getTe clean, if_pos chunked] at h
    obtain ⟨body', e, chunks⟩ := chunks_of_read _ h sizes
    rw [e, List.nil_append]
    exact .chunked te coding cl chunks

end Lengths

/-! ### What the reader reports -/

section Reports

variable {conn : HttpConn} {stream : Str} {r : HttpParsedRequest}

/-- What was read when a request is accepted. -/
structure Accepted (stream line : Str) (lines : List Str) (s s' : Str) (r : HttpParsedRequest) : Prop where
  first : Line stream line s
  others : Lines s lines s'
  tokens : parseRequestLine line = some (r.method, r.path, r.version)
  body : ∃ rest, readRequestBody streamSource (lines.filterMap parseHeader) s' = (some r.body, rest)

lemma accepted_of_read (seamless : RequestSeamless conn) (h : httpReadRequest conn = some r) :
    ∃ line lines s s', Accepted conn.input line lines s s' r := by
  have plain : (readRequest streamSource conn.input).1 = some r := by
    rw [← h, httpReadRequest]
    exact (mirrors_request _ seamless).2.1.symm
  obtain ⟨rest, run⟩ : ∃ rest, readRequest streamSource conn.input = (some r, rest) := ⟨_, Prod.ext plain rfl⟩
  obtain ⟨line, s, read, run⟩ := bind_eq_some run
  split at run
  · cases run
  · cases tokens : parseRequestLine line with
    | none =>
      rw [tokens] at run
      cases run
    | some fields =>
      obtain ⟨method, path, version⟩ := fields
      rw [tokens] at run
      obtain ⟨headers, s', head, run⟩ := bind_eq_some run
      obtain ⟨body, s'', bodyRead, run⟩ := bind_eq_some run
      cases run
      obtain ⟨lines, others, rfl⟩ := lines_of_parseHeaders head
      exact ⟨line, lines, s, s', line_of_read _ read, others, tokens, _, bodyRead⟩

/-- A field that holds a whole token has room for it. -/
lemma fits_of_copyField {size : Nat} {token : Str} (pos : 0 < size) (h : token = copyField size token) :
    token.length < size := by
  have length := congrArg List.length h
  rw [copyField, List.length_take] at length
  omega

lemma copyField_of_fits {size : Nat} {token : Str} (h : token.length < size) : copyField size token = token :=
  List.take_of_length_le (by omega)

/-- A token cut off at a NUL is not the token. -/
lemma versionOf_clean {ver tail : Str} (clean : 0 ∉ ver)
    (h : versionOf (ver ++ tail) = copyField 8 (versionOf ver)) : 0 ∉ ver ++ tail := by
  have kept {v : Str} (mem : 0 ∈ v) : 0 ∈ versionOf v := by
    rw [versionOf]
    split
    · rename_i known
      obtain ⟨t, rfl⟩ := List.isPrefixOf_iff_prefix.mp known
      rw [List.mem_append] at mem
      obtain http | behind := mem
      · exact absurd http (by decide)
      · rwa [show 5 = (bytes "HTTP/").length from rfl, List.drop_left]
    · exact mem
  have fewer {v : Str} (mem : 0 ∈ versionOf v) : 0 ∈ v := by
    rw [versionOf] at mem
    split at mem
    · exact List.mem_of_mem_drop mem
    · exact mem
  intro mem
  have reported : 0 ∈ copyField 8 (versionOf ver) := h ▸ kept mem
  exact clean (fewer (List.mem_of_mem_take reported))

/-- What is reported truly fitted. -/
lemma lawful_of_reports {line s s' : Str} {lines : List Str} (a : Accepted stream line lines s s' r)
    (h : Reports stream r) : Lawful stream := by
  obtain ⟨line', lines', t, t', ver, first, others, tokens, version, body⟩ := h
  obtain ⟨rfl, rfl⟩ := first.unique a.first
  obtain ⟨rfl, rfl⟩ := others.unique a.others
  obtain ⟨method, target, ver', tail, tokens', cut, clean, reportedMethod, reportedTarget, reportedVersion⟩ :=
    parseRequestLine_some a.tokens
  obtain ⟨sameMethod, sameTarget, rfl⟩ := tokens.unique tokens'
  rw [sameMethod] at reportedMethod
  rw [sameTarget] at reportedTarget
  rw [version] at reportedVersion
  have whole := versionOf_clean clean reportedVersion
  obtain rfl := cut whole
  rw [List.append_nil] at tokens' whole reportedVersion
  exact ⟨line', lines', t, t', first, others,
    ⟨method, target, ver', tokens', fits_of_copyField (by decide) reportedMethod,
      fits_of_copyField (by decide) reportedTarget, fits_of_copyField (by decide) reportedVersion, whole⟩, body.framed⟩

/-- What fits is reported truly. -/
lemma reports_of_lawful {line s s' : Str} {lines : List Str} (a : Accepted stream line lines s s' r)
    (h : Lawful stream) : Reports stream r := by
  obtain ⟨line', lines', t, t', first, others, fits, framed⟩ := h
  obtain ⟨rfl, rfl⟩ := first.unique a.first
  obtain ⟨rfl, rfl⟩ := others.unique a.others
  obtain ⟨method, target, ver, tokens, room, room', room'', clean⟩ := fits
  obtain ⟨method', target', ver', tail, tokens', cut, -, reportedMethod, reportedTarget, reportedVersion⟩ :=
    parseRequestLine_some a.tokens
  obtain ⟨rfl, rfl, rfl⟩ := tokens.unique tokens'
  obtain rfl := cut clean
  rw [List.append_nil] at tokens room''
  rw [copyField_of_fits room] at reportedMethod
  rw [copyField_of_fits room'] at reportedTarget
  rw [copyField_of_fits room''] at reportedVersion
  obtain ⟨rest, read⟩ := a.body
  exact ⟨line', lines', t, t', ver', first, others, by rwa [reportedMethod, reportedTarget], reportedVersion,
    body_of_read framed read⟩

end Reports

/-- The first line of a chunk begins with a digit. -/
lemma not_chunkLine {b : UInt8} {t : Str} (other : digitValue 16 b = none) (n : Nat) : ¬ ChunkLine (b :: t) n := by
  rintro ⟨hex, ext, e, number, -⟩
  obtain ⟨b', t', rfl⟩ := List.exists_cons_of_ne_nil number.some
  obtain ⟨rfl, -⟩ := List.cons.inj e
  have digit := number.digits b List.mem_cons_self
  rw [other] at digit
  cases digit

/-- A method that is too long is reported without its end, and a chunk whose size is no number passes for the last one:
neither request is what is reported. -/
theorem request_misreported :
    (∃ r, httpReadRequest (splitBy (fun _ => 1023) (bytes "UNSUBSCRIBEFROMALL / HTTP/1.1\r\n\r\n")) = some r ∧
      r.method = bytes "UNSUBSCRIBEFROM" ∧
      ¬ Reports (bytes "UNSUBSCRIBEFROMALL / HTTP/1.1\r\n\r\n") r) ∧
    ∃ r, httpReadRequest (splitBy (fun _ => 1023)
        (bytes "POST / HTTP/1.1\r\nTransfer-Encoding: chunked\r\n\r\nzz\r\n\r\n")) = some r ∧
      r.body = [] ∧
      ¬ Reports (bytes "POST / HTTP/1.1\r\nTransfer-Encoding: chunked\r\n\r\nzz\r\n\r\n") r := by
  constructor
  · refine ⟨⟨bytes "UNSUBSCRIBEFROM", bytes "/", bytes "1.1", [], []⟩, by decide +kernel, rfl, fun h => ?_⟩
    obtain ⟨line, lines, s, s', ver, first, -, tokens, -⟩ := h
    have read : Line (bytes "UNSUBSCRIBEFROMALL / HTTP/1.1\r\n\r\n") (bytes "UNSUBSCRIBEFROMALL / HTTP/1.1")
        (bytes "\r\n") := line_of_read 8192 (by decide)
    obtain ⟨rfl, rfl⟩ := first.unique read
    have whole : RequestLine (bytes "UNSUBSCRIBEFROMALL / HTTP/1.1") (bytes "UNSUBSCRIBEFROMALL") (bytes "/")
        (bytes "HTTP/1.1") := ⟨by decide, by decide, by decide⟩
    exact absurd (tokens.unique whole).1 (by decide)
  · refine ⟨⟨bytes "POST", bytes "/", bytes "1.1", [⟨bytes "transfer-encoding", bytes "chunked"⟩], []⟩,
      by decide +kernel, rfl, fun h => ?_⟩
    obtain ⟨line, lines, s, s', ver, first, others, -, -, body⟩ := h
    have read : Line (bytes "POST / HTTP/1.1\r\nTransfer-Encoding: chunked\r\n\r\nzz\r\n\r\n") (bytes "POST / HTTP/1.1")
        (bytes "Transfer-Encoding: chunked\r\n\r\nzz\r\n\r\n") := line_of_read 8192 (by decide)
    obtain ⟨rfl, rfl⟩ := first.unique read
    have trailer : Line (bytes "Transfer-Encoding: chunked\r\n\r\nzz\r\n\r\n") (bytes "Transfer-Encoding: chunked")
        (bytes "\r\nzz\r\n\r\n") := line_of_read 8192 (by decide)
    have headers : Lines (bytes "Transfer-Encoding: chunked\r\n\r\nzz\r\n\r\n") [bytes "Transfer-Encoding: chunked"]
        (bytes "zz\r\n\r\n") :=
      .line trailer (by decide) (.done .crlf)
    obtain ⟨rfl, rfl⟩ := others.unique headers
    have size : Line (bytes "zz\r\n\r\n") (bytes "zz") (bytes "\r\n") := line_of_read 8192 (by decide)
    have coding : valuesOf (bytes "transfer-encoding") [bytes "Transfer-Encoding: chunked"] = [bytes "chunked"] := by
      decide
    cases body.framed with
    | none te => exact absurd (coding.symm.trans te) (List.cons_ne_nil _ _)
    | length te => exact absurd (coding.symm.trans te) (List.cons_ne_nil _ _)
    | chunked _ _ _ sizes =>
      cases sizes with
      | last line number =>
        obtain ⟨rfl, -⟩ := line.unique size
        exact not_chunkLine (by decide) _ number
      | chunk line number =>
        obtain ⟨rfl, -⟩ := line.unique size
        exact not_chunkLine (by decide) _ number

/-- Read without a seam in a line, an accepted request is reported as it is just when its tokens fit into their fields
and its framing is well formed. -/
theorem request_reported_iff (conn : HttpConn) (seamless : RequestSeamless conn) (r : HttpParsedRequest)
    (accepted : httpReadRequest conn = some r) : Reports conn.input r ↔ Lawful conn.input := by
  obtain ⟨line, lines, s, s', a⟩ := accepted_of_read seamless accepted
  exact ⟨lawful_of_reports a, reports_of_lawful a⟩

/-- The smallest request. -/
theorem request_reported_iff_get :
    Reports (bytes "GET / HTTP/1.1\r\n\r\n") ⟨bytes "GET", bytes "/", bytes "1.1", [], []⟩ := by
  have seamless : RequestSeamless (splitBy (fun _ => 1023) (bytes "GET / HTTP/1.1\r\n\r\n")) := by
    unfold RequestSeamless HttpReader.Spoiled
    decide +kernel
  refine (request_reported_iff _ seamless _ (by decide +kernel)).mpr ?_
  refine ⟨bytes "GET / HTTP/1.1", [], bytes "\r\n", [], line_of_read 8192 (by decide), .done .crlf,
    ⟨bytes "GET", bytes "/", bytes "HTTP/1.1", ⟨by decide, by decide, by decide⟩, by decide, by decide, by decide,
      by decide⟩, .none (by decide) (by decide)⟩

end Cando
