import Cando.Natives.HttpMessage
import Mathlib.Algebra.Ring.Nat

/-!
# Writing HTTP messages

What `lib/http.c` writes for requests and for responses has one shape: a first line, header lines, an empty line and a
body. The readers get the lines back as they were written as long as there is no CRLF inside one, and the header
fields as long as their texts are clean.
-/

namespace Cando

open Scan

/-! ### Texts -/

/-- `%u` and `%zu`. -/
def decimal (n : Nat) : Str := (Nat.toDigits 10 n).map fun c => UInt8.ofNat c.toNat

/-- `%d`. -/
def decimalInt (i : Int) : Str := if i < 0 then 45 :: decimal i.natAbs else decimal i.natAbs

def crlf : Str := [13, 10]

/-- A header field on its line. -/
def HttpHeader.line (f : HttpHeader) : Str := f.name ++ bytes ": " ++ f.value

/-- Lines, each with its CRLF. -/
def textOf (lines : List Str) : Str := (lines.map (· ++ crlf)).flatten

/-! ### Clean texts -/

/-- There is no CRLF in the text. -/
def CrlfFree (s : Str) : Prop := ¬ crlf <:+: s

/-- The text is one header line's worth: no CRLF, not empty. -/
def IsLine (s : Str) : Prop := s ≠ [] ∧ CrlfFree s

/-- A header field that reads like it is written. -/
structure HttpHeader.Clean (f : HttpHeader) : Prop where
  nul : 0 ∉ f.name ∧ 0 ∉ f.value
  colon : 58 ∉ f.name
  crlf : CrlfFree f.name ∧ CrlfFree f.value
  trimmed : trim f.value = f.value

section Texts

variable {s t line rest : Str} {lines : List Str} {b : UInt8}

lemma CrlfFree.within (h : CrlfFree s) (part : t <:+: s) : CrlfFree t := fun broken => h (broken.trans part)

lemma crlfFree_cons : CrlfFree (b :: s) ↔ ¬ (b = 13 ∧ s.head? = some 10) ∧ CrlfFree s := by
  have first : crlf <+: b :: s ↔ b = 13 ∧ s.head? = some 10 := by
    rw [crlf, List.cons_prefix_cons]
    refine and_congr eq_comm ?_
    cases s with
    | nil => simp
    | cons c s => simp [List.cons_prefix_cons, eq_comm]
  rw [CrlfFree, List.infix_cons_iff, first, not_or]
  rfl

lemma crlfFree_of_notMem (h : 13 ∉ s) : CrlfFree s := fun broken => h (broken.subset List.mem_cons_self)

lemma crlfFree_nil : CrlfFree [] := crlfFree_of_notMem List.not_mem_nil

/-- Texts without a CRLF may be joined by a byte that is in none. -/
lemma CrlfFree.join (h : CrlfFree s) (h' : CrlfFree t) (cr : b ≠ 13) (lf : b ≠ 10) : CrlfFree (s ++ b :: t) := by
  induction s with
  | nil => exact crlfFree_cons.mpr ⟨fun e => cr e.1, h'⟩
  | cons c s ih =>
    obtain ⟨first, others⟩ := crlfFree_cons.mp h
    refine crlfFree_cons.mpr ⟨fun e => first ⟨e.1, ?_⟩, ih others⟩
    cases s with
    | nil => exact absurd (Option.some.inj e.2) lf
    | cons d s => exact e.2

/-- The line that a stream begins with has no CRLF. -/
lemma Line.crlfFree (h : Line s line rest) : CrlfFree line := by
  induction h with
  | crlf => exact crlfFree_nil
  | @byte b s line rest other tail ih =>
    refine crlfFree_cons.mpr ⟨fun e => other ⟨e.1, ?_⟩, ih⟩
    cases tail with
    | crlf => cases e.2
    | byte => exact e.2

/-- A text without a CRLF is the line that it makes. -/
lemma line_of_crlfFree (h : CrlfFree line) (rest : Str) : Line (line ++ 13 :: 10 :: rest) line rest := by
  induction line with
  | nil => exact .crlf
  | cons b line ih =>
    obtain ⟨first, others⟩ := crlfFree_cons.mp h
    refine .byte (fun e => first ⟨e.1, ?_⟩) (ih others)
    cases line with
    | nil => cases e.2
    | cons c line => exact e.2

lemma textOf_cons (line : Str) (lines : List Str) (rest : Str) :
    textOf (line :: lines) ++ rest = line ++ 13 :: 10 :: (textOf lines ++ rest) := by
  simp only [textOf, List.map_cons, List.flatten_cons, crlf, List.append_assoc, List.cons_append, List.nil_append]

lemma textOf_append (lines lines' : List Str) : textOf (lines ++ lines') = textOf lines ++ textOf lines' := by
  simp only [textOf, List.map_append, List.flatten_append]

lemma lines_of_textOf (h : ∀ line ∈ lines, IsLine line) (rest : Str) :
    Lines (textOf lines ++ 13 :: 10 :: rest) lines rest := by
  induction lines with
  | nil => exact .done .crlf
  | cons line lines ih =>
    obtain ⟨some, free⟩ := h line List.mem_cons_self
    rw [textOf_cons]
    exact .line (line_of_crlfFree free _) some (ih fun l mem => h l (.tail _ mem))

end Texts

/-! ### Reading lines back -/

section Reading

variable {line rest read : Str} {lines : List Str} {max : Nat} {h g : List HttpHeader}

lemma Line.length {s : Str} (first : Line s line rest) : s.length = line.length + 2 + rest.length := by
  induction first with
  | crlf =>
    simp only [List.length_cons, List.length_nil]
    omega
  | byte _ _ ih =>
    simp only [List.length_cons]
    omega

lemma streamLine_short (free : CrlfFree line) (short : read.length + line.length < max) :
    streamLine max read (line ++ 13 :: 10 :: rest) = (some (read ++ line), rest) := by
  induction line generalizing read with
  | nil =>
    have short : ¬ read.length ≥ max := Nat.not_le.mpr short
    rw [List.nil_append, HttpReader.streamLine_crlf, if_neg short, List.append_nil]
  | cons b line ih =>
    have other : ¬ (b = 13 ∧ (line ++ 13 :: 10 :: rest).head? = some 10) := by
      rintro ⟨rfl, head⟩
      refine (crlfFree_cons.mp free).1 ⟨rfl, ?_⟩
      cases line with
      | nil => cases head
      | cons c line => exact head
    rw [List.length_cons] at short
    rw [List.cons_append, HttpReader.streamLine_byte other, if_neg (by omega), ih (crlfFree_cons.mp free).2,
      List.append_assoc,
      List.singleton_append]
    rw [List.length_append, List.length_singleton]
    omega

lemma streamLine_long (free : CrlfFree line) (long : max ≤ read.length + line.length) :
    (streamLine max read (line ++ 13 :: 10 :: rest)).1 = none := by
  induction line generalizing read with
  | nil =>
    have long : read.length ≥ max := long
    rw [List.nil_append, HttpReader.streamLine_crlf, if_pos long]
  | cons b line ih =>
    have other : ¬ (b = 13 ∧ (line ++ 13 :: 10 :: rest).head? = some 10) := by
      rintro ⟨rfl, head⟩
      refine (crlfFree_cons.mp free).1 ⟨rfl, ?_⟩
      cases line with
      | nil => cases head
      | cons c line => exact head
    rw [List.cons_append, HttpReader.streamLine_byte other]
    split
    · rfl
    · rw [List.length_cons] at long
      refine ih (crlfFree_cons.mp free).2 ?_
      rw [List.length_append, List.length_singleton]
      omega

lemma headerLine_usesUp : UsesUp streamSource.size (parseHeaderLine streamSource) := by
  intro h s h' s' turn
  obtain ⟨line, s₁, read, go⟩ := bind_eq_some turn
  have length := (line_of_read _ read).length
  split at go
  · cases go
  · cases go
    show s'.length < s.length
    omega

/-- One turn of `parse_headers` on a line. -/
lemma headers_cons (some : IsLine line) (short : line.length < 8192) :
    Scan.loop streamSource.size (parseHeaderLine streamSource) h (textOf (line :: lines) ++ rest) =
      Scan.loop streamSource.size (parseHeaderLine streamSource) (h ++ (parseHeader line).toList)
        (textOf lines ++ rest) := by
  have read : streamSource.readCrlfLine 8192 (textOf (line :: lines) ++ rest)
    = (Option.some line, textOf lines ++ rest) := by
    rw [textOf_cons]
    exact streamLine_short some.2 (by rwa [List.length_nil, Nat.zero_add])
  rw [loop_eq headerLine_usesUp, bind_apply, parseHeaderLine, bind_apply, read, andThen_some, if_neg some.1]
  rfl

/-- The header lines that were written are read. -/
lemma headers_of_textOf (all : ∀ line ∈ lines, IsLine line ∧ line.length < 8192) :
    Scan.loop streamSource.size (parseHeaderLine streamSource) h (textOf lines ++ 13 :: 10 :: rest) =
      (some (h ++ lines.filterMap parseHeader), rest) := by
  induction lines generalizing h with
  | nil =>
    have read : streamSource.readCrlfLine 8192 (textOf [] ++ 13 :: 10 :: rest) = (some [], rest) :=
      streamLine_short crlfFree_nil (by decide)
    rw [loop_eq headerLine_usesUp, bind_apply, parseHeaderLine, bind_apply, read, andThen_some, if_pos rfl,
      List.filterMap_nil, List.append_nil]
    rfl
  | cons line lines ih =>
    obtain ⟨some, short⟩ := all line List.mem_cons_self
    rw [headers_cons some short, ih fun l mem => all l (.tail _ mem), List.filterMap_cons]
    cases parseHeader line <;> simp

/-- Only lines that are short enough are read. -/
lemma short_of_headers (all : ∀ line ∈ lines, IsLine line) (r : Str)
    (read : Scan.loop streamSource.size (parseHeaderLine streamSource) h (textOf lines ++ 13 :: 10 :: rest)
      = (some g, r)) :
    ∀ line ∈ lines, line.length < 8192 := by
  induction lines generalizing h with
  | nil => nofun
  | cons line lines ih =>
    have first := all line List.mem_cons_self
    have short : line.length < 8192 := by
      by_contra long
      have refused : (streamSource.readCrlfLine 8192 (textOf (line :: lines) ++ 13 :: 10 :: rest)).1 = none := by
        rw [textOf_cons]
        exact streamLine_long first.2 (by rw [List.length_nil]; omega)
      rw [loop_eq headerLine_usesUp] at read
      obtain ⟨next, s₁, turn, -⟩ := bind_eq_some read
      obtain ⟨got, s₂, line, -⟩ := bind_eq_some turn
      rw [line] at refused
      cases refused
    rw [headers_cons first short] at read
    intro l mem
    obtain rfl | mem := List.mem_cons.mp mem
    · exact short
    · exact ih (fun l mem => all l (.tail _ mem)) read l mem

end Reading

/-! ### Fields -/

section Fields

variable {f g : HttpHeader} {s t line : Str}

lemma trim_within (v : Str) : trim v <:+: v := by
  have back : trim v <+: v.dropWhile isBlank := by
    rw [trim, ← List.reverse_suffix, List.reverse_reverse]
    exact List.dropWhile_suffix _
  exact back.isInfix.trans (List.dropWhile_suffix _).isInfix

/-- A text that does not begin with a blank. -/
lemma dropWhile_solid {p : UInt8 → Bool} (h : ∀ b, s.head? = some b → p b = false) : s.dropWhile p = s := by
  cases s with
  | nil => rfl
  | cons b s => rw [List.dropWhile_cons_of_neg (by rw [h b rfl]; nofun)]

lemma head_dropWhile_solid (p : UInt8 → Bool) (s : Str) : ∀ b, (s.dropWhile p).head? = some b → p b = false := by
  intro b head
  have first := List.head?_dropWhile_not p s
  rwa [head] at first

lemma trim_trim (v : Str) : trim (trim v) = trim v := by
  obtain ⟨w, e⟩ : ∃ w, (v.dropWhile isBlank).reverse.dropWhile isBlank = w := ⟨_, rfl⟩
  have last : w.dropWhile isBlank = w := dropWhile_solid (e ▸ head_dropWhile_solid isBlank _)
  -- what is left begins like the text without its leading blanks
  have front : w.reverse <+: v.dropWhile isBlank := by
    rw [← List.reverse_suffix, List.reverse_reverse, ← e]
    exact List.dropWhile_suffix _
  have first : w.reverse.dropWhile isBlank = w.reverse := by
    refine dropWhile_solid fun b head => head_dropWhile_solid isBlank v b ?_
    obtain ⟨u, tail⟩ := front
    rw [← tail]
    cases rev : w.reverse with
    | nil =>
      rw [rev] at head
      cases head
    | cons c r =>
      rw [rev] at head
      exact head
  have trimmed : trim v = w.reverse := by rw [trim, e]
  rw [trimmed, trim, first, List.reverse_reverse, last]

/-- Only letters have a lower case. -/
lemma toLower_low {b c : UInt8} (low : c < 65) : toLower b = c ↔ b = c := by
  rw [toLower]
  split <;> grind

lemma toLower_nul {b : UInt8} : toLower b = 0 ↔ b = 0 := toLower_low (by decide)

lemma toLower_colon {b : UInt8} : toLower b = 58 ↔ b = 58 := toLower_low (by decide)

lemma toLower_toLower (b : UInt8) : toLower (toLower b) = toLower b := by
  simp only [toLower]
  grind

lemma lower_nul : 0 ∈ s.map toLower ↔ 0 ∈ s := by simp [List.mem_map, toLower_nul]

lemma lower_colon : 58 ∈ s.map toLower ↔ 58 ∈ s := by simp [List.mem_map, toLower_colon]

lemma lower_lower : (s.map toLower).map toLower = s.map toLower := by
  rw [List.map_map]
  exact List.map_congr_left fun b _ => toLower_toLower b

lemma lower_crlfFree : CrlfFree (s.map toLower) ↔ CrlfFree s := by
  induction s with
  | nil => exact Iff.rfl
  | cons b s ih =>
    rw [List.map_cons, crlfFree_cons, crlfFree_cons, ih, toLower_low (c := 13) (by decide)]
    refine and_congr_left fun _ => not_congr (and_congr_right fun _ => ?_)
    cases s with
    | nil => exact Iff.rfl
    | cons c s => simp only [List.map_cons, List.head?_cons, Option.some.injEq, toLower_low (c := 10) (by decide)]

lemma HttpHeader.line_eq (f : HttpHeader) : f.line = f.name ++ 58 :: 32 :: f.value := by
  rw [HttpHeader.line, List.append_assoc]
  rfl

/-- A clean field is one line. -/
lemma HttpHeader.Clean.isLine (h : f.Clean) : IsLine f.line := by
  have space : CrlfFree (32 :: f.value) := crlfFree_cons.mpr ⟨fun e => absurd e.1 (by decide), h.crlf.2⟩
  rw [f.line_eq]
  exact ⟨List.append_ne_nil_of_right_ne_nil _ (List.cons_ne_nil _ _), h.crlf.1.join space (by decide) (by decide)⟩

/-- A clean field is read as it is, but for the case of its name. -/
lemma HttpHeader.Clean.parse (h : f.Clean) : parseHeader f.line = some ⟨f.name.map toLower, f.value⟩ := by
  have line := f.line_eq
  have whole : cString f.line = f.line := by
    refine cString_of_notMem fun mem => ?_
    simp [line, h.nul] at mem
  have split : strchr f.line 58 = some (f.name, 32 :: f.value) := strchr_eq_some.mpr ⟨line, h.colon⟩
  have blank : trim (32 :: f.value) = trim f.value := rfl
  rw [parseHeader, whole, split, Option.map_some]
  exact congrArg (fun v => some (HttpHeader.mk (f.name.map toLower) v)) (blank.trans h.trimmed)

/-- A field that was read from a line is clean. -/
lemma clean_of_parse (free : CrlfFree line) (read : parseHeader line = some g) : g.Clean := by
  rw [parseHeader] at read
  obtain ⟨⟨name, value⟩, split, rfl⟩ := Option.map_eq_some_iff.mp read
  obtain ⟨e, before⟩ := strchr_eq_some.mp split
  have free : CrlfFree (name ++ 58 :: value) := e ▸ free.within (List.takeWhile_prefix _).isInfix
  have nul : 0 ∉ name ++ 58 :: value := e ▸ notMem_takeWhile_ne
  have nameFree := free.within (List.prefix_append name (58 :: value)).isInfix
  have valueFree := free.within (t := value) ⟨name ++ [58], [], by simp⟩
  refine ⟨⟨fun mem => nul ?_, fun mem => nul ?_⟩, mt lower_colon.mp before, ⟨lower_crlfFree.mpr nameFree, ?_⟩, ?_⟩
  · exact List.mem_append_left _ (lower_nul.mp mem)
  · exact List.mem_append_right _ (.tail _ ((trim_within value).subset mem))
  · exact valueFree.within (trim_within value)
  · exact trim_trim value

end Fields

/-! ### Numbers -/

section Numbers

variable {base v n : Nat} {s t : Str}

lemma numeral_append (digits : ∀ b ∈ s, (digitValue base b).isSome) :
    numeral base v (s ++ t) = numeral base (numeral base v s) t := by
  induction s generalizing v with
  | nil => rfl
  | cons b s ih =>
    obtain ⟨d, digit⟩ := Option.isSome_iff_exists.mp (digits b List.mem_cons_self)
    rw [List.cons_append, numeral, numeral, digit]
    exact ih fun c mem => digits c (.tail _ mem)

lemma digit_decimal : ∀ d < 10, digitValue 10 (UInt8.ofNat (Nat.digitChar d).toNat) = some d := by decide

/-- A number in decimal reads as that number. -/
lemma decimal_read (n : Nat) : (∀ b ∈ decimal n, (digitValue 10 b).isSome) ∧ numeral 10 0 (decimal n) = n := by
  induction n using Nat.strongRecOn with
  | ind n ih =>
    by_cases small : n < 10
    · have digit := digit_decimal n small
      rw [decimal, Nat.toDigits_of_lt_base small, List.map_singleton]
      refine ⟨fun b mem => ?_, ?_⟩
      · rw [List.mem_singleton.mp mem, digit]
        rfl
      · simp only [numeral, digit, Nat.zero_mul, Nat.zero_add]
    · have digit := digit_decimal (n % 10) (Nat.mod_lt n (by decide))
      have split : decimal n = decimal (n / 10) ++ [UInt8.ofNat (Nat.digitChar (n % 10)).toNat] := by
        rw [decimal, Nat.toDigits_of_base_le (by decide) (by omega), List.map_append, List.map_singleton]
        rfl
      obtain ⟨digits, value⟩ := ih (n / 10) (by omega)
      rw [split]
      refine ⟨fun b mem => ?_, ?_⟩
      · obtain front | last := List.mem_append.mp mem
        · exact digits b front
        · rw [List.mem_singleton.mp last, digit]
          rfl
      · rw [numeral_append digits, value]
        simp only [numeral, digit]
        omega

lemma decimal_ne_nil (n : Nat) : decimal n ≠ [] := by
  rw [decimal]
  exact List.map_eq_nil_iff.not.mpr Nat.toDigits_ne_nil

lemma decimal_numeral (fits : n ≤ ulongMax) : Numeral 10 (decimal n) n :=
  ⟨decimal_ne_nil n, (decimal_read n).1, (decimal_read n).2, fits⟩

/-- The bytes of a number in decimal. -/
lemma decimal_byte {b : UInt8} (mem : b ∈ decimal n) : 48 ≤ b ∧ b ≤ 57 :=
  decimal_digit ((decimal_read n).1 b mem)

lemma ne_of_digit {b c : UInt8} (digit : 48 ≤ b ∧ b ≤ 57) (other : c < 48 ∨ 57 < c) : b ≠ c := by
  rintro rfl
  grind

lemma decimal_length {k : Nat} (pos : 0 < k) (small : n < 10 ^ k) : (decimal n).length ≤ k := by
  rw [decimal, List.length_map]
  exact (Nat.length_toDigits_le_iff (by decide) pos).mpr small

/-- The bytes of an integer in decimal are no line breaks, NULs or spaces. -/
lemma decimalInt_byte {b : UInt8} {i : Int} (mem : b ∈ decimalInt i) : b ≠ 13 ∧ b ≠ 0 ∧ b ≠ 32 := by
  have digit : 48 ≤ b ∧ b ≤ 57 ∨ b = 45 := by
    rw [decimalInt] at mem
    split at mem
    · exact (List.mem_cons.mp mem).symm.imp_left decimal_byte
    · exact .inl (decimal_byte mem)
  obtain digit | rfl := digit
  · exact ⟨ne_of_digit digit (by decide), ne_of_digit digit (by decide), ne_of_digit digit (by decide)⟩
  · decide

lemma decimalInt_length {i : Int} (small : i.natAbs < 10000000000) : (decimalInt i).length ≤ 11 := by
  have digits := decimal_length (n := i.natAbs) (k := 10) (by decide) small
  rw [decimalInt]
  split
  · rw [List.length_cons]
    omega
  · omega

/-- `strtol` reads an integer that was written in decimal. -/
lemma strtolInt_decimal (i : BitVec 32) : strtolInt (decimalInt i.toInt) = i.toInt := by
  obtain ⟨b, t, e⟩ := List.exists_cons_of_ne_nil (decimal_ne_nil i.toInt.natAbs)
  have digit : 48 ≤ b ∧ b ≤ 57 := decimal_byte (n := i.toInt.natAbs) (by rw [e]; exact List.mem_cons_self)
  have minus : b ≠ 45 := ne_of_digit digit (by decide)
  have plus : b ≠ 43 := ne_of_digit digit (by decide)
  have space : isSpace b = false := by
    rw [isSpace]
    grind
  have value := (decimal_read i.toInt.natAbs).2
  have low := BitVec.le_toInt i
  have high := BitVec.toInt_lt (x := i)
  rw [strtolInt, decimalInt]
  by_cases negative : i.toInt < 0
  · rw [if_pos negative, List.dropWhile_cons_of_neg (by decide)]
    have long : max (-9223372036854775808) (-(i.toInt.natAbs : Int)) = i.toInt := by omega
    simp only [takeSign, value, if_true, long, BitVec.ofInt_toInt]
  · have sign : takeSign (decimal i.toInt.natAbs) = (false, decimal i.toInt.natAbs) := by
      rw [e, takeSign.eq_def]
      split
      · rename_i e
        exact absurd (List.cons.inj e).1 minus
      · rename_i e
        exact absurd (List.cons.inj e).1 plus
      · rfl
    have front : (decimal i.toInt.natAbs).dropWhile isSpace = decimal i.toInt.natAbs := by
      rw [e, List.dropWhile_cons_of_neg (by simp [space])]
    have long : min 9223372036854775807 (i.toInt.natAbs : Int) = i.toInt := by omega
    rw [if_neg negative, front, sign]
    simp only [value, Bool.false_eq_true, if_false, long, BitVec.ofInt_toInt]

end Numbers

/-- A field of plain bytes is clean. -/
lemma clean_of_bytes {f : HttpHeader} (cr : 13 ∉ f.name ∧ 13 ∉ f.value) (nul : 0 ∉ f.name ∧ 0 ∉ f.value)
    (colon : 58 ∉ f.name) (trimmed : trim f.value = f.value) : f.Clean :=
  ⟨nul, colon, ⟨crlfFree_of_notMem cr.1, crlfFree_of_notMem cr.2⟩, trimmed⟩

lemma trim_solid {v : Str} (solid : ∀ b ∈ v, isBlank b = false) : trim v = v := by
  have back : v.reverse.dropWhile isBlank = v.reverse :=
    dropWhile_solid fun b head => solid b (List.mem_reverse.mp (List.mem_of_head? head))
  rw [trim, dropWhile_solid fun b head => solid b (List.mem_of_head? head), back, List.reverse_reverse]

/-- A field whose value is a number is clean. -/
lemma clean_of_decimal {name : Str} (n : Nat) (cr : 13 ∉ name) (nul : 0 ∉ name) (colon : 58 ∉ name) :
    HttpHeader.Clean ⟨name, decimal n⟩ := by
  have solid {b : UInt8} (mem : b ∈ decimal n) : isBlank b = false := by
    rw [isBlank]
    have digit := decimal_byte mem
    grind
  exact clean_of_bytes ⟨cr, fun mem => ne_of_digit (decimal_byte mem) (by decide) rfl⟩
    ⟨nul, fun mem => ne_of_digit (decimal_byte mem) (by decide) rfl⟩ colon (trim_solid fun b mem => solid mem)

/-! ### Heads and bodies -/

section Messages

variable {fields h : List HttpHeader} {s rest body out v line : Str} {lines : List Str}

/-- A field with its name in lower case. -/
def HttpHeader.lower (f : HttpHeader) : HttpHeader := ⟨f.name.map toLower, f.value⟩

lemma lower_mk {name lower : Str} (value : Str) (h : name.map toLower = lower) :
    HttpHeader.lower ⟨name, value⟩ = ⟨lower, value⟩ :=
  congrArg (HttpHeader.mk · value) h

lemma clean_lower {f : HttpHeader} : f.lower.Clean ↔ f.Clean :=
  ⟨fun h => ⟨⟨mt lower_nul.mpr h.nul.1, h.nul.2⟩, mt lower_colon.mpr h.colon, ⟨lower_crlfFree.mp h.crlf.1, h.crlf.2⟩,
    h.trimmed⟩,
    fun h => ⟨⟨mt lower_nul.mp h.nul.1, h.nul.2⟩, mt lower_colon.mp h.colon, ⟨lower_crlfFree.mpr h.crlf.1, h.crlf.2⟩,
      h.trimmed⟩⟩

lemma filterMap_lines (clean : ∀ f ∈ fields, f.Clean) :
    (fields.map HttpHeader.line).filterMap parseHeader = fields.map HttpHeader.lower := by
  induction fields with
  | nil => rfl
  | cons f fields ih =>
    rw [List.map_cons, List.filterMap_cons, (clean f List.mem_cons_self).parse, ih fun g mem => clean g (.tail _ mem)]
    rfl

lemma isLine_of_clean (clean : ∀ f ∈ fields, f.Clean) : ∀ line ∈ fields.map HttpHeader.line, IsLine line := by
  intro line mem
  obtain ⟨f, listed, rfl⟩ := List.mem_map.mp mem
  exact (clean f listed).isLine

/-- Clean fields are read, but for the case of their names. -/
lemma parseHeaders_fields (clean : ∀ f ∈ fields, f.Clean ∧ f.line.length < 8192) :
    parseHeaders streamSource (textOf (fields.map HttpHeader.line) ++ 13 :: 10 :: rest) =
      (some (fields.map HttpHeader.lower), rest) := by
  rw [← filterMap_lines fun f mem => (clean f mem).1]
  refine headers_of_textOf fun line mem => ⟨isLine_of_clean (fun f mem => (clean f mem).1) line mem, ?_⟩
  obtain ⟨f, listed, rfl⟩ := List.mem_map.mp mem
  exact (clean f listed).2

/-- The lines of a head have no CRLF. -/
lemma Lines.crlfFree (head : Lines s lines rest) : ∀ line ∈ lines, CrlfFree line := by
  induction head with
  | done => nofun
  | line first _ _ ih =>
    intro l mem
    obtain rfl | mem := List.mem_cons.mp mem
    · exact first.crlfFree
    · exact ih l mem

/-- The fields that are read are clean. -/
lemma clean_of_parseHeaders (read : parseHeaders streamSource s = (some h, rest)) : ∀ f ∈ h, f.Clean := by
  obtain ⟨lines, head, rfl⟩ := lines_of_parseHeaders read
  intro f mem
  obtain ⟨line, listed, parsed⟩ := List.mem_filterMap.mp mem
  exact clean_of_parse (head.crlfFree line listed) parsed

/-- Clean fields are read up to the body, and their lines are short. -/
lemma rest_of_parseHeaders (clean : ∀ f ∈ fields, f.Clean)
    (read : parseHeaders streamSource (textOf (fields.map HttpHeader.line) ++ 13 :: 10 :: body) = (some h, rest)) :
    rest = body ∧ ∀ f ∈ fields, f.line.length < 8192 := by
  obtain ⟨lines, head, -⟩ := lines_of_parseHeaders read
  refine ⟨(head.unique (lines_of_textOf (isLine_of_clean clean) body)).2, fun f mem => ?_⟩
  exact short_of_headers (isLine_of_clean clean) rest read f.line (List.mem_map.mpr ⟨f, mem, rfl⟩)

lemma httpHeadersGet_append (h h' : List HttpHeader) (name : Str) :
    httpHeadersGet (h ++ h') name = (httpHeadersGet h name).or (httpHeadersGet h' name) := by
  rw [httpHeadersGet, List.find?_append, Option.map_or]
  rfl

/-- A body that is read by its length. -/
lemma readLength_whole : (∃ r, readLengthBody streamSource v body = (some body, r)) ↔ strtoul 10 v = body.length := by
  rw [readLengthBody]
  constructor
  · rintro ⟨r, read⟩
    split at read
    · obtain ⟨enough, whole, -⟩ := bytes_of_read read
      have length := congrArg List.length whole
      rw [List.length_take] at length
      omega
    · cases read
      rw [List.length_nil]
      omega
  · intro same
    rw [same]
    split
    · exact ⟨[], by simp [streamSource, streamBytes]⟩
    · have empty : body = [] := List.length_eq_zero_iff.mp (by omega)
      subst empty
      exact ⟨[], rfl⟩

/-- Chunks are longer than what they carry. -/
lemma chunked_shrinks (read : readChunkedBody streamSource s = (some out, rest)) : out.length < s.length := by
  have rounds (n : Nat) (done s : Str) (read : Scan.rounds (readChunk streamSource) n done s = (some out, rest)) :
      out.length < done.length + s.length := by
    induction n generalizing done s with
    | zero => cases read
    | succ n ih =>
      obtain ⟨next, s', turn, more⟩ := bind_eq_some read
      obtain ⟨line, s₁, first, go⟩ := bind_eq_some turn
      have length := (line_of_read _ first).length
      split at go
      · obtain ⟨u, s₂, -, go⟩ := bind_eq_some go
        cases go
        cases more
        omega
      · obtain ⟨payload, s₂, taken, go⟩ := bind_eq_some go
        obtain ⟨enough, rfl, rfl⟩ := bytes_of_read taken
        obtain ⟨ending, s₃, last, go⟩ := bind_eq_some go
        have length' := (line_of_read _ last).length
        split at go
        · cases go
        · cases go
          have shrunk := ih _ _ more
          simp only [List.length_append, List.length_take, List.length_drop] at shrunk length'
          omega
  have all := rounds _ [] s read
  rwa [List.length_nil, Nat.zero_add] at all

end Messages

/-! ### Default fields

A default field is written unless the field is set. -/

section Defaults

variable {f g : HttpHeader} {P : Prop} [Decidable P]

lemma textOf_own {text : Str} (same : text = f.line ++ bytes "\r\n") :
    textOf ((if P then [] else [f]).map HttpHeader.line) = if P then [] else text := by
  split
  · rfl
  · exact (List.append_nil _).trans same.symm

lemma lower_own (same : f.lower = g) : (if P then [] else [f]).map HttpHeader.lower = if P then [] else [g] := by
  split
  · rfl
  · exact congrArg (fun g => [g]) same

lemma mem_own (mem : f ∈ if P then [] else [g]) : ¬ P ∧ f = g := by
  split at mem
  case isTrue => cases mem
  case isFalse unset => exact ⟨unset, List.mem_singleton.mp mem⟩

/-- A default field is none of another name. -/
lemma httpHeadersGet_own {name : Str} (other : (f.name == name) = false) :
    httpHeadersGet (if P then [] else [f]) name = none := by
  split
  · rfl
  · simp [httpHeadersGet, other]

end Defaults

end Cando
