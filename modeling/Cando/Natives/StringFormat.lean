import Cando.Json.Write
import Cando.Natives.StringSplit

/-!
# Formatting text

`string.format` (`lib/string.c`) writes to a buffer of 4096 bytes and looks at what it has written only when it turns
to the next byte of the format or the next directive.
-/

namespace Cando

variable {ν : Type} [PrintF64 ν]

/-- What `%s` has for an argument; an argument that is no string has no text. -/
def argText (args : List (Value ν)) (i : Nat) : Str :=
  match args[i]? with
  | some (.string s) => s
  | _ => []

/-- What a directive writes, how far it moves `dst`, and the next `arg_idx`. `sprintf` closes its text with a NUL;
`printF` is its `%f`. -/
def formatDirective (printF : ν → Str) (args : List (Value ν)) (c : UInt8) (argIdx : Nat) : Str × Nat × Nat :=
  if c = 115 then
    let val := cstr (argText args argIdx)
    let vlen := u32 val.length
    (val.take vlen, vlen, argIdx + 1)
  else if c = 100 ∨ c = 102 then
    let val := argNum args argIdx (F64.ofInt 0)
    let text := if c = 100 then PrintF64.printF0 val else printF val
    (text ++ [0], text.length, argIdx + 1)
  else if c = 37 then ([37], 1, argIdx)
  else ([37, c], 2, argIdx)

/-- The loop of `str_format`, with the C string `p` before it. -/
def formatLoop (printF : ν → Str) (args : List (Value ν)) : (p : Str) → (dst argIdx : Nat) → CharBuf →
    Option (Nat × CharBuf)
  | [], dst, _, buf => some (dst, buf)
  | [b], dst, _, buf => if 4000 ≤ dst then some (dst, buf) else (buf.store dst [b]).map fun buf => (dst + 1, buf)
  | b :: c :: p, dst, argIdx, buf =>
    if 4000 ≤ dst then some (dst, buf)
    else if b = 37 then do
      let (text, n, argIdx) := formatDirective printF args c argIdx
      let buf ← buf.store dst text
      formatLoop printF args p (dst + n) argIdx buf
    else do
      let buf ← buf.store dst [b]
      formatLoop printF args (c :: p) (dst + 1) argIdx buf

/-- `str_format`: the front of its buffer; `none` where it writes past the end. -/
def strFormat (printF : ν → Str) (args : List (Value ν)) : Option CharBuf :=
  match argStr args with
  | none => some []
  | some fmt => do
    let (dst, buf) ← formatLoop printF args (cstr fmt) 0 1 (List.replicate 4096 none)
    let buf ← buf.store dst [0]
    some (buf.take dst)

/-! ### What a format stands for -/

/-- A part of a format: text that stands for itself, a string argument, or a number in one of two formats. -/
inductive FormatItem (ν : Type) where
  | literal (t : Str)
  | string (s : Str)
  | number (fixed : Bool) (x : ν)

/-- The parts of a format, with the arguments that they take from position `i` on. -/
def formatItems (args : List (Value ν)) : (fmt : Str) → (i : Nat) → List (FormatItem ν)
  | [], _ => []
  | [b], _ => [.literal [b]]
  | b :: c :: p, i =>
    if b = 37 then
      if c = 115 then .string (argText args i) :: formatItems args p (i + 1)
      else if c = 100 ∨ c = 102 then .number (c = 100) (argNum args i (F64.ofInt 0)) :: formatItems args p (i + 1)
      else .literal (if c = 37 then [37] else [37, c]) :: formatItems args p i
    else .literal [b] :: formatItems args (c :: p) i

/-- The text of a part. -/
def FormatItem.text (printF : ν → Str) : FormatItem ν → Str
  | .literal t => t
  | .string s => s
  | .number fixed x => if fixed then PrintF64.printF0 x else printF x

/-- The text of parts one after the other. -/
def expand (printF : ν → Str) (items : List (FormatItem ν)) : Str := items.flatMap (·.text printF)

/-- What the loop writes for a part, and how far it moves on. -/
def FormatItem.written (printF : ν → Str) : FormatItem ν → Str × Nat
  | .literal t => (t, t.length)
  | .string s => ((cstr s).take (u32 (cstr s).length), u32 (cstr s).length)
  | .number fixed x =>
    let text := if fixed then PrintF64.printF0 x else printF x
    (text ++ [0], text.length)

/-- The loop over the parts. -/
def emitItems (printF : ν → Str) : List (FormatItem ν) → (dst : Nat) → CharBuf → Option (Nat × CharBuf)
  | [], dst, buf => some (dst, buf)
  | item :: items, dst, buf =>
    if 4000 ≤ dst then some (dst, buf)
    else do
      let buf ← buf.store dst (item.written printF).1
      emitItems printF items (dst + (item.written printF).2) buf

variable {printF : ν → Str} {args : List (Value ν)}

/-- The loop over the bytes is the one over the parts. -/
lemma formatLoop_eq (p : Str) (dst i : Nat) (buf : CharBuf) :
    formatLoop printF args p dst i buf = emitItems printF (formatItems args p i) dst buf := by
  induction p, i using formatItems.induct generalizing dst buf with
  | case1 i => rfl
  | case2 i b =>
    simp only [formatLoop, formatItems, emitItems, FormatItem.written, List.length_singleton, Option.bind_eq_bind]
    cases buf.store dst [b] <;> rfl
  | case3 p i ih =>
    simp only [formatLoop, formatItems, if_true, emitItems, formatDirective, FormatItem.written, ih]
  | case4 c p i ne number ih =>
    simp only [formatLoop, formatItems, ne, number, if_true, if_false, emitItems, formatDirective, FormatItem.written,
      ih, decide_eq_true_eq]
  | case5 c p i ne ne' ih =>
    simp only [formatLoop, formatItems, ne, ne', if_true, if_false, emitItems, formatDirective, FormatItem.written]
    by_cases percent : c = 37
    · simp only [percent, if_true, List.length_singleton, ih]
    · simp only [percent, if_false, List.length_cons, List.length_nil, ih]
  | case6 b c p i plain ih =>
    simp only [formatLoop, formatItems, plain, if_false, emitItems, FormatItem.written, ih, List.length_singleton]

/-! ### The length of the text -/

@[simp] lemma expand_nil : expand printF ([] : List (FormatItem ν)) = [] := rfl

lemma expand_cons (item : FormatItem ν) (items : List (FormatItem ν)) :
    expand printF (item :: items) = item.text printF ++ expand printF items := List.flatMap_cons

/-- The loop moves on by the length of the text at most, by all of it if a string has no NUL. -/
lemma written_le (printF : ν → Str) (item : FormatItem ν) : (item.written printF).2 ≤ (item.text printF).length := by
  cases item with
  | literal t => exact Nat.le_refl _
  | string s => exact Nat.le_trans (Nat.mod_le _ _) (cstr_front s).length_le
  | number fixed x => exact Nat.le_refl _

/-- A string that the loop moves past has no NUL. -/
lemma written_string {s : Str} (h : ((FormatItem.string s : FormatItem ν).written printF).2 = s.length) : 0 ∉ s := by
  have whole : cstr s = s := by
    apply (cstr_front s).eq_of_length_le
    rw [← h]
    exact Nat.mod_le _ _
  exact whole ▸ cstr_free s

/-- The loop writes the text, if it moves past it. -/
lemma written_text (printF : ν → Str) {item : FormatItem ν} (h : ∀ s, item = .string s → 0 ∉ s)
    (small : (item.text printF).length < 4294967296) :
    (item.written printF).2 = (item.text printF).length ∧
      ∃ rest, (item.written printF).1 = item.text printF ++ rest ∧ rest.length ≤ 1 := by
  cases item with
  | literal t => exact ⟨rfl, [], (List.append_nil _).symm, Nat.zero_le _⟩
  | string s =>
    have whole : cstr s = s := cstr_eq (h s rfl)
    have fits : u32 s.length = s.length := Nat.mod_eq_of_lt small
    refine ⟨?_, [], ?_, Nat.zero_le _⟩
    · rw [FormatItem.written, whole]
      exact fits
    · rw [FormatItem.written, whole, fits, List.take_length]
      exact (List.append_nil s).symm
  | number fixed x => exact ⟨rfl, [0], rfl, Nat.le_refl _⟩

/-- What the format must be for its text to come out: the condition on its parts. -/
structure ItemsPrintable (printF : ν → Str) (items : List (FormatItem ν)) (dst : Nat) : Prop where
  /-- no string has a NUL -/
  strings : ∀ s, .string s ∈ items → 0 ∉ s
  /-- what comes before a part that prints anything is shorter than 4000 bytes -/
  before : ∀ l item r, items = l ++ item :: r → item.text printF ≠ [] → dst + (expand printF l).length < 4000
  /-- the text is shorter than the buffer -/
  fits : dst + (expand printF items).length < 4096

/-- The loop moves on by the length of the text at most. -/
lemma emitItems_le {items : List (FormatItem ν)} {dst dst' : Nat} {buf buf' : CharBuf}
    (h : emitItems printF items dst buf = some (dst', buf')) : dst' ≤ dst + (expand printF items).length := by
  induction items generalizing dst buf with
  | nil =>
    cases h
    exact Nat.le_refl _
  | cons item items ih =>
    rw [emitItems] at h
    rw [expand_cons, List.length_append]
    split at h
    · cases h
      exact Nat.le_add_right _ _
    · obtain ⟨buf₁, -, rest⟩ := Option.bind_eq_some_iff.mp h
      have le := ih rest
      have le' := written_le printF item
      omega

/-- If it moves on by all of it, nothing was cut off. -/
lemma emitItems_whole {items : List (FormatItem ν)} {dst : Nat} {buf buf' : CharBuf}
    (h : emitItems printF items dst buf = some (dst + (expand printF items).length, buf')) :
    (∀ s, .string s ∈ items → 0 ∉ s) ∧
      ∀ l item r, items = l ++ item :: r → item.text printF ≠ [] → dst + (expand printF l).length < 4000 := by
  induction items generalizing dst buf with
  | nil => exact ⟨fun s mem => absurd mem List.not_mem_nil, fun l item r split => by simp at split⟩
  | cons item items ih =>
    rw [emitItems] at h
    split at h
    case isTrue stop =>
      have none : expand printF (item :: items) = [] := by
        have same := congrArg Prod.fst (Option.some.inj h)
        apply List.eq_nil_of_length_eq_zero
        simp only at same
        omega
      have empty := List.flatMap_eq_nil_iff.mp none
      refine ⟨fun s mem => ?_, fun l item' r split prints => ?_⟩
      · rw [show s = [] from empty _ mem]
        exact List.not_mem_nil
      · refine absurd (empty item' ?_) prints
        rw [split]
        exact List.mem_append_right _ List.mem_cons_self
    case isFalse go =>
      obtain ⟨buf₁, -, rest⟩ := Option.bind_eq_some_iff.mp h
      have le := emitItems_le rest
      have le' := written_le printF item
      rw [expand_cons, List.length_append] at le
      have same : (item.written printF).2 = (item.text printF).length := by omega
      rw [expand_cons, List.length_append, ← Nat.add_assoc, same] at rest
      obtain ⟨strings, before⟩ := ih rest
      refine ⟨fun s mem => ?_, fun l item' r split prints => ?_⟩
      · rcases List.mem_cons.mp mem with rfl | mem
        · exact written_string same
        · exact strings s mem
      · cases l with
        | nil => exact Nat.lt_of_not_le go
        | cons first l =>
          obtain ⟨rfl, tail⟩ := List.cons.inj split
          rw [expand_cons, List.length_append, ← Nat.add_assoc]
          exact before l item' r tail prints

/-! ### The buffer -/

/-- The buffer of `str_format`, with the text at its front. -/
structure FormatBuffer (buf : CharBuf) (w : Str) : Prop where
  size : buf.length = 4096
  starts : buf.Starts w

/-- A write behind the text. -/
lemma FormatBuffer.store {buf : CharBuf} {w : Str} (h : FormatBuffer buf w) (text rest : Str)
    (room : w.length + (text ++ rest).length ≤ 4096) :
    ∃ buf', buf.store w.length (text ++ rest) = some buf' ∧ FormatBuffer buf' (w ++ text) := by
  obtain ⟨buf', stored, len, starts⟩ := h.starts.store (h.size ▸ room)
  rw [← List.append_assoc] at starts
  exact ⟨buf', stored, len.trans h.size, starts.append_left⟩

/-- Under the condition, the whole text comes into the buffer. -/
lemma emitItems_whole_text {items : List (FormatItem ν)} {buf : CharBuf} {w : Str}
    (ok : ItemsPrintable printF items w.length) (holds : FormatBuffer buf w) :
    ∃ buf', emitItems printF items w.length buf = some (w.length + (expand printF items).length, buf') ∧
      FormatBuffer buf' (w ++ expand printF items) := by
  induction items generalizing buf w with
  | nil => exact ⟨buf, rfl, by rwa [expand_nil, List.append_nil]⟩
  | cons item items ih =>
    have fits := ok.fits
    rw [expand_cons, List.length_append] at fits
    rw [emitItems]
    by_cases stop : 4000 ≤ w.length
    · -- what is left prints nothing
      have empty : expand printF (item :: items) = [] := by
        refine List.flatMap_eq_nil_iff.mpr fun item' mem => ?_
        by_contra prints
        obtain ⟨l, r, split⟩ := List.append_of_mem mem
        have early := ok.before l item' r split prints
        omega
      rw [if_pos stop, empty, List.append_nil]
      exact ⟨buf, rfl, holds⟩
    · have strings : ∀ s, item = .string s → 0 ∉ s := fun s e => ok.strings s (e ▸ List.mem_cons_self)
      obtain ⟨moved, rest, text, short⟩ := written_text printF strings (by omega)
      obtain ⟨buf₁, stored, holds₁⟩ := holds.store (item.text printF) rest (by
        rw [List.length_append]
        omega)
      have ok₁ : ItemsPrintable printF items (w ++ item.text printF).length := by
        refine ⟨fun s mem => ok.strings s (List.mem_cons_of_mem _ mem), fun l item' r split prints => ?_, ?_⟩
        · have early := ok.before (item :: l) item' r (by rw [split, List.cons_append]) prints
          rw [expand_cons, List.length_append] at early
          rw [List.length_append]
          omega
        · rw [List.length_append]
          omega
      obtain ⟨buf', run, holds'⟩ := ih ok₁ holds₁
      rw [List.length_append] at run
      refine ⟨buf', ?_, ?_⟩
      · rw [if_neg stop, text, stored, moved, expand_cons, List.length_append, ← Nat.add_assoc]
        exact run
      · rw [expand_cons, ← List.append_assoc]
        exact holds'

/-! ### When the format is expanded -/

lemma cstr_cons {b : UInt8} (ne : b ≠ 0) (p : Str) : cstr (b :: p) = b :: cstr p := by
  have e := cstr_append (x := [b]) (fun mem => ne (List.mem_singleton.mp mem).symm) p
  exact e

lemma formatItems_plain {b : UInt8} (plain : b ≠ 37) (p : Str) (i : Nat) :
    formatItems args (b :: p) i = .literal [b] :: formatItems args p i := by
  cases p with
  | nil => rfl
  | cons c p => rw [formatItems, if_neg plain]

/-- A NUL in the format cuts its text off. -/
lemma expand_cstr_lt (printF : ν → Str) (args : List (Value ν)) {p : Str} {i : Nat} (h : 0 ∈ p) :
    (expand printF (formatItems args (cstr p) i)).length < (expand printF (formatItems args p i)).length := by
  induction p, i using formatItems.induct with
  | case1 i => cases h
  | case2 i b =>
    obtain rfl : 0 = b := List.mem_singleton.mp h
    exact Nat.succ_pos _
  | case3 p i ih =>
    have inside : 0 ∈ p := by simpa using h
    rw [cstr_cons (by decide), cstr_cons (by decide)]
    simp only [formatItems, if_true, expand_cons, List.length_append]
    exact Nat.add_lt_add_left (ih inside) _
  | case4 c p i ne number ih =>
    have live : c ≠ 0 := by
      rintro rfl
      revert number
      decide
    have inside : 0 ∈ p := by simpa [live.symm] using h
    rw [cstr_cons (by decide), cstr_cons live]
    simp only [formatItems, if_true, ne, number, if_false, expand_cons, List.length_append]
    exact Nat.add_lt_add_left (ih inside) _
  | case5 c p i ne ne' ih =>
    simp only [formatItems, if_true, ne, ne', if_false, expand_cons, List.length_append]
    by_cases live : c = 0
    · -- the directive lacks its letter
      have cut : cstr (37 :: c :: p) = [37] := by rw [live]; rfl
      rw [cut, live]
      exact Nat.lt_add_right _ (Nat.lt_succ_self 1)
    · have inside : 0 ∈ p := by simpa [Ne.symm live] using h
      rw [cstr_cons (by decide), cstr_cons live]
      simp only [formatItems, if_true, ne, ne', if_false, expand_cons, List.length_append]
      exact Nat.add_lt_add_left (ih inside) _
  | case6 b c p i plain ih =>
    rw [formatItems_plain plain, expand_cons, List.length_append]
    by_cases live : b = 0
    · rw [live]
      exact Nat.lt_add_right _ (Nat.succ_pos _)
    · have inside : 0 ∈ c :: p := (List.mem_cons.mp h).resolve_left (Ne.symm live)
      rw [cstr_cons live, formatItems_plain plain, expand_cons, List.length_append]
      exact Nat.add_lt_add_left (ih inside) _

/-- `string.format` returns the complete expansion of its format, and does not leave its buffer. -/
def FormatComplete (printF : ν → Str) (args : List (Value ν)) (fmt : Str) : Prop :=
  strFormat printF (.string fmt :: args) =
    some ((expand printF (formatItems (.string fmt :: args) fmt 1)).map some)

/-- The condition: no NUL in the format, and its parts can be printed. -/
def FormatFits (printF : ν → Str) (args : List (Value ν)) (fmt : Str) : Prop :=
  0 ∉ fmt ∧ ItemsPrintable printF (formatItems (.string fmt :: args) fmt 1) 0

lemma emitItems_length {items : List (FormatItem ν)} {dst dst' : Nat} {buf buf' : CharBuf}
    (h : emitItems printF items dst buf = some (dst', buf')) : buf'.length = buf.length := by
  induction items generalizing dst buf with
  | nil =>
    cases h
    rfl
  | cons item items ih =>
    rw [emitItems] at h
    split at h
    · cases h
      rfl
    · obtain ⟨buf₁, stored, rest⟩ := Option.bind_eq_some_iff.mp h
      exact (ih rest).trans (CharBuf.store_length stored).1

/-- A complete expansion has left out nothing, and fits. -/
lemma formatFits_of_complete {fmt : Str} (h : FormatComplete printF args fmt) : FormatFits printF args fmt := by
  obtain ⟨⟨dst, buf⟩, loop, rest⟩ := Option.bind_eq_some_iff.mp h
  obtain ⟨buf', closed, e⟩ := Option.bind_eq_some_iff.mp rest
  rw [formatLoop_eq] at loop
  have size := emitItems_length loop
  obtain ⟨size', room⟩ := CharBuf.store_length closed
  have length : dst = (expand printF (formatItems (.string fmt :: args) fmt 1)).length := by
    have same := congrArg List.length (Option.some.inj e)
    simp only [List.length_take, List.length_map, List.length_replicate, List.length_singleton] at same size room
    omega
  have le := emitItems_le loop
  have free : 0 ∉ fmt := by
    intro mem
    have lt := expand_cstr_lt printF (.string fmt :: args) (i := 1) mem
    omega
  have whole : cstr fmt = fmt := cstr_eq free
  rw [whole, length, ← Nat.zero_add (expand _ _).length] at loop
  obtain ⟨strings, before⟩ := emitItems_whole loop
  refine ⟨free, strings, before, ?_⟩
  simp only [List.length_replicate, List.length_singleton] at size room
  omega

/-- The expansion is complete exactly if the format has no NUL, nor has a string that it prints, what comes before the
last part that prints anything is shorter than 4000 bytes, and the text shorter than the buffer. -/
theorem format_complete_iff (printF : ν → Str) (args : List (Value ν)) (fmt : Str) :
    FormatComplete printF args fmt ↔ FormatFits printF args fmt := by
  constructor
  · exact formatFits_of_complete
  · rintro ⟨free, ok⟩
    have whole : cstr fmt = fmt := cstr_eq free
    have start : FormatBuffer (List.replicate 4096 none) [] := ⟨List.length_replicate, List.nil_prefix⟩
    obtain ⟨buf, loop, holds⟩ := emitItems_whole_text (w := []) ok start
    rw [List.length_nil, Nat.zero_add] at loop
    rw [List.nil_append] at holds
    have fits := ok.fits
    obtain ⟨buf', closed, holds'⟩ := holds.store [0] [] (by
      rw [List.append_nil, List.length_singleton]
      omega)
    have front : buf'.take (expand printF (formatItems (.string fmt :: args) fmt 1)).length =
        (expand printF (formatItems (.string fmt :: args) fmt 1)).map some := by
      exact holds'.starts.append_left.take
    unfold FormatComplete strFormat
    simp only [argStr, whole, formatLoop_eq, loop, Option.bind_eq_bind, Option.bind_some]
    rw [← List.append_nil [0], closed, Option.bind_some, front]

lemma format_string_long {s : Str} (long : 4096 ≤ s.length) : ¬ FormatComplete printF [.string s] [37, 115] := by
  intro complete
  have fits := (formatFits_of_complete complete).2.fits
  rw [formatItems, if_pos rfl, if_pos rfl, expand_cons, List.length_append] at fits
  have text : (FormatItem.string (argText [.string [37, 115], (.string s : Value ν)] 1)).text printF = s := rfl
  rw [text] at fits
  omega

/-- A string of 4096 bytes, printed by `%s`, fills the buffer, and the closing NUL goes behind it. -/
theorem format_overflow : ¬ FormatComplete (ν := Int) PrintF64.printF0 [.string (List.replicate 4096 97)] [37, 115] :=
  format_string_long (Nat.le_of_eq List.length_replicate.symm)

end Cando
