import Cando.Natives.Csv

/-!
# CSV round trips

The parser reads back the rows of a text, and of a text that was cut off it reads fewer: `csv_stringify` passes on
the length of its text as a `u32`.
-/

namespace Cando

open JsonText

/-! ### Fields -/

section Fields

variable {delim : UInt8}

lemma csvQuoted_cons {c : UInt8} (h : c ≠ quote) (s : Str) :
    csvQuoted (c :: s) = (c :: (csvQuoted s).1, (csvQuoted s).2) := by
  cases s with
  | nil => simp [csvQuoted, h]
  | cons d s => simp [csvQuoted, h]

lemma csvQuoted_quotes (s : Str) :
    csvQuoted (quote :: quote :: s) = (quote :: (csvQuoted s).1, (csvQuoted s).2) := rfl

lemma csvEscape_quote (cell : Str) : csvEscape (quote :: cell) = quote :: quote :: csvEscape cell := rfl

lemma csvEscape_cons {c : UInt8} (h : c ≠ quote) (cell : Str) : csvEscape (c :: cell) = c :: csvEscape cell := by
  simp [csvEscape, h]

/-- A quoted field ends at its closing quote, unless another quote follows. -/
lemma csvQuoted_escape {cell rest : Str} (h : rest.head? ≠ some quote) :
    csvQuoted (csvEscape cell ++ quote :: rest) = (cell, rest) := by
  induction cell with
  | nil =>
    cases rest with
    | nil => rfl
    | cons d rest =>
      have ne : d ≠ quote := fun e => h (congrArg some e)
      simp [csvEscape, csvQuoted, ne]
  | cons c cell ih =>
    by_cases e : c = quote
    · subst e
      rw [csvEscape_quote, List.cons_append, List.cons_append, csvQuoted_quotes, ih]
    · rw [csvEscape_cons e, List.cons_append, csvQuoted_cons e, ih]

/-- What may stand behind a field: the end of the text, or a byte that ends it. -/
def CsvStop (delim : UInt8) : Str → Prop
  | [] => True
  | c :: _ => csvEnds delim c

/-- The delimiter can be told from quotes and from the ends of lines. -/
structure CsvPlain (delim : UInt8) : Prop where
  quote : delim ≠ quote
  cr : delim ≠ 13
  lf : delim ≠ 10

lemma CsvStop.no_quote (plain : CsvPlain delim) {rest : Str} (h : CsvStop delim rest) :
    rest.head? ≠ some quote := by
  cases rest with
  | nil => exact nofun
  | cons c rest =>
    intro e
    obtain rfl : c = quote := Option.some.inj e
    have line : quote = 10 ∨ quote = 13 := by simpa [CsvStop, csvEnds, Ne.symm plain.quote] using h
    exact absurd line (by decide)

lemma csvBare {cell : Str} (h : csvNeedsQuote delim cell = false) {c : UInt8} (mem : c ∈ cell) :
    c ≠ quote ∧ csvEnds delim c = false := by
  have e := List.any_eq_false.mp h c mem
  simp only [Bool.or_eq_true, beq_iff_eq, not_or] at e
  obtain ⟨⟨⟨notQuote, notCr⟩, notLf⟩, notDelim⟩ := e
  exact ⟨notQuote, by simp [csvEnds, notCr, notLf, notDelim]⟩

/-- An unquoted field that does not begin with a quote. -/
lemma csvParseField_bare {s : Str} (h : s.head? ≠ some quote) :
    csvParseField delim s =
      (s.takeWhile fun c => !csvEnds delim c, s.dropWhile fun c => !csvEnds delim c) := by
  unfold csvParseField
  split
  · exact absurd rfl h
  · rfl

lemma csvBare_append {cell rest : Str} (bare : csvNeedsQuote delim cell = false) (stop : CsvStop delim rest) :
    ((cell ++ rest).takeWhile fun c => !csvEnds delim c) = cell ∧
      ((cell ++ rest).dropWhile fun c => !csvEnds delim c) = rest := by
  have pass : ∀ c ∈ cell, (!csvEnds delim c) = true := fun c mem => by simp [(csvBare bare mem).2]
  rw [List.takeWhile_append_of_pos pass, List.dropWhile_append_of_pos pass]
  cases rest with
  | nil => simp
  | cons c rest =>
    have ends : csvEnds delim c = true := stop
    simp [ends]

/-- A written field is read back. -/
lemma csvParseField_write (plain : CsvPlain delim) (cell : Str) {rest : Str} (stop : CsvStop delim rest) :
    csvParseField delim (csvWriteField delim cell ++ rest) = (cell, rest) := by
  cases q : csvNeedsQuote delim cell with
  | true =>
    rw [csvWriteField, if_pos q, List.append_assoc, List.cons_append]
    exact csvQuoted_escape (stop.no_quote plain)
  | false =>
    rw [csvWriteField, if_neg (by simp [q])]
    obtain ⟨field, left⟩ := csvBare_append q stop
    rw [csvParseField_bare, field, left]
    cases cell with
    | nil => exact stop.no_quote plain
    | cons c cell => exact fun e => (csvBare q List.mem_cons_self).1 (Option.some.inj e)

lemma csvParseField_end (plain : CsvPlain delim) (cell : Str) :
    csvParseField delim (csvWriteField delim cell) = (cell, []) := by
  have e := csvParseField_write plain cell (show CsvStop delim [] from trivial)
  rwa [List.append_nil] at e

lemma csvEscape_length (cell : Str) : (csvEscape cell).length = cell.length + cell.count quote := by
  induction cell with
  | nil => rfl
  | cons c cell ih =>
    by_cases e : c = quote
    · subst e
      rw [csvEscape_quote, List.length_cons, List.length_cons, ih, List.count_cons_self, List.length_cons]
      omega
    · rw [csvEscape_cons e, List.length_cons, ih, List.count_cons_of_ne e, List.length_cons]
      omega

/-- A quoted field that is cut off is read to the end, and would not be written longer. -/
lemma csvQuoted_cut {cell s : Str} (h : s <+: csvEscape cell ++ [quote]) :
    (csvQuoted s).2 = [] ∧ (csvEscape (csvQuoted s).1).length ≤ s.length := by
  induction cell generalizing s with
  | nil =>
    obtain rfl | ⟨t, rfl, sub⟩ := List.prefix_cons_iff.mp h
    · exact ⟨rfl, le_rfl⟩
    · obtain rfl := List.prefix_nil.mp sub
      exact ⟨rfl, Nat.zero_le _⟩
  | cons c cell ih =>
    by_cases e : c = quote
    · subst e
      rw [csvEscape_quote, List.cons_append, List.cons_append] at h
      obtain rfl | ⟨t, rfl, first⟩ := List.prefix_cons_iff.mp h
      · exact ⟨rfl, le_rfl⟩
      obtain rfl | ⟨t, rfl, sub⟩ := List.prefix_cons_iff.mp first
      · exact ⟨rfl, Nat.zero_le _⟩
      obtain ⟨done, short⟩ := ih sub
      rw [csvQuoted_quotes]
      refine ⟨done, ?_⟩
      rw [csvEscape_quote]
      simpa using short
    · rw [csvEscape_cons e, List.cons_append] at h
      obtain rfl | ⟨t, rfl, sub⟩ := List.prefix_cons_iff.mp h
      · exact ⟨rfl, le_rfl⟩
      obtain ⟨done, short⟩ := ih sub
      rw [csvQuoted_cons e]
      refine ⟨done, ?_⟩
      rw [csvEscape_cons e]
      simpa using short

lemma csvWriteField_length (delim : UInt8) (cell : Str) :
    (csvWriteField delim cell).length =
      if csvNeedsQuote delim cell then cell.length + cell.count quote + 2 else cell.length := by
  unfold csvWriteField
  split
  · simp [csvEscape_length]
  · rfl

lemma csvWriteField_length_le (delim : UInt8) (cell : Str) :
    (csvWriteField delim cell).length ≤ (csvEscape cell).length + 2 := by
  rw [csvWriteField_length, csvEscape_length]
  split <;> omega

/-- A field that is cut off lacks its closing quote at most, if it is read as the whole. -/
lemma csvParseField_cut (plain : CsvPlain delim) {cell s : Str} (h : s <+: csvWriteField delim cell) :
    ∃ field, csvParseField delim s = (field, []) ∧ (csvWriteField delim field).length ≤ s.length + 1 := by
  cases q : csvNeedsQuote delim cell with
  | true =>
    rw [csvWriteField, if_pos q, List.cons_append] at h
    obtain rfl | ⟨t, rfl, sub⟩ := List.prefix_cons_iff.mp h
    · exact ⟨[], rfl, by simp [csvWriteField, csvNeedsQuote]⟩
    · obtain ⟨done, short⟩ := csvQuoted_cut sub
      have e := csvWriteField_length_le delim (csvQuoted t).1
      refine ⟨(csvQuoted t).1, Prod.ext rfl done, ?_⟩
      rw [List.length_cons]
      omega
  | false =>
    rw [csvWriteField, if_neg (by simp [q])] at h
    have bare : csvNeedsQuote delim s = false := by
      obtain ⟨t, rfl⟩ := h
      rw [csvNeedsQuote, List.any_append, Bool.or_eq_false_iff] at q
      exact q.1
    have read := csvParseField_end plain s
    rw [csvWriteField, if_neg (by simp [bare])] at read
    refine ⟨s, read, ?_⟩
    rw [csvWriteField, if_neg (by simp [bare])]
    exact Nat.le_succ _

end Fields

/-! ### Rows -/

section Rows

variable {delim : UInt8}

/-- A prefix of two pieces ends in the first or goes on in the second. -/
lemma prefix_append_cases {α : Type} {s a b : List α} (h : s <+: a ++ b) :
    s <+: a ∨ ∃ t, s = a ++ t ∧ t <+: b := by
  obtain pre | pre := List.prefix_or_prefix_of_prefix h (List.prefix_append a b)
  · exact .inl pre
  · obtain ⟨t, rfl⟩ := pre
    exact .inr ⟨t, rfl, (List.prefix_append_right_inj a).mp h⟩

/-- The cells of a row as they are written. -/
def csvCells (delim : UInt8) (cells : List Str) : Str := csvJoin delim (cells.map (csvWriteField delim))

lemma csvCells_cons {cells : List Str} (h : cells ≠ []) (cell : Str) :
    csvCells delim (cell :: cells) = csvWriteField delim cell ++ delim :: csvCells delim cells := by
  obtain ⟨next, cells, rfl⟩ := List.exists_cons_of_ne_nil h
  rfl

lemma csvStop_delim (delim : UInt8) (s : Str) : CsvStop delim (delim :: s) := by simp [CsvStop, csvEnds]

lemma csvStop_cr (delim : UInt8) (s : Str) : CsvStop delim (13 :: s) := by simp [CsvStop, csvEnds]

/-- A written row is read back with the end of its line. -/
lemma csvParseRow_cells (plain : CsvPlain delim) {cells : List Str} (h : cells ≠ []) {fuel : Nat}
    (enough : cells.length ≤ fuel) (rest : Str) :
    csvParseRow delim fuel (csvCells delim cells ++ 13 :: rest) = (cells, csvSkipCrlf (13 :: rest)) := by
  induction cells generalizing fuel with
  | nil => exact absurd rfl h
  | cons cell cells ih =>
    obtain ⟨fuel, rfl⟩ := Nat.exists_eq_add_one.mpr (Nat.lt_of_lt_of_le (Nat.succ_pos _) enough)
    by_cases last : cells = []
    · subst last
      have read := csvParseField_write plain cell (csvStop_cr delim rest)
      simp only [csvCells, List.map_cons, List.map_nil, csvJoin, csvParseRow, read]
      rw [if_neg plain.cr.symm]
    · rw [csvCells_cons last, List.append_assoc, List.cons_append, csvParseRow,
        csvParseField_write plain cell (csvStop_delim delim _)]
      simp only [if_true, ih last (Nat.le_of_succ_le_succ enough)]

/-- Of a row that is cut off, no more cells are read, and the whole row only when a quote is all it lacks. -/
lemma csvParseRow_cut (plain : CsvPlain delim) {cells : List Str} (h : cells ≠ []) {fuel : Nat} {s : Str}
    (enough : s.length < fuel) (pre : s <+: csvCells delim cells ++ [13]) :
    ∃ row, csvParseRow delim fuel s = (row, []) ∧ row.length ≤ cells.length ∧
      (row = cells → (csvCells delim cells).length ≤ s.length + 1) := by
  induction cells generalizing fuel s with
  | nil => exact absurd rfl h
  | cons cell cells ih =>
    obtain ⟨fuel, rfl⟩ := Nat.exists_eq_add_one.mpr (Nat.lt_of_le_of_lt (Nat.zero_le _) enough)
    by_cases last : cells = []
    · subst last
      obtain sub | ⟨t, rfl, sub⟩ := prefix_append_cases (a := csvWriteField delim cell) pre
      · obtain ⟨field, read, short⟩ := csvParseField_cut plain sub
        refine ⟨[field], by simp only [csvParseRow, read], le_rfl, fun e => ?_⟩
        obtain rfl : field = cell := List.head_eq_of_cons_eq e
        exact short
      · obtain rfl | ⟨u, rfl, sub'⟩ := List.prefix_cons_iff.mp sub
        · have read := csvParseField_end plain cell
          have parsed : csvParseRow delim (fuel + 1) (csvWriteField delim cell ++ []) = ([cell], []) := by
            simp only [csvParseRow, List.append_nil, read]
          exact ⟨[cell], parsed, le_rfl, fun _ => by simp [csvCells, csvJoin]⟩
        · obtain rfl := List.prefix_nil.mp sub'
          have read := csvParseRow_cells plain h (Nat.succ_le_succ (Nat.zero_le fuel)) []
          refine ⟨[cell], read, le_rfl, fun _ => ?_⟩
          simp only [csvCells, List.map_cons, List.map_nil, csvJoin, List.length_append, List.length_cons]
          omega
    · rw [csvCells_cons last, List.append_assoc, List.cons_append] at pre
      obtain sub | ⟨t, rfl, sub⟩ := prefix_append_cases pre
      · obtain ⟨field, read, -⟩ := csvParseField_cut plain sub
        refine ⟨[field], by simp only [csvParseRow, read], Nat.succ_le_succ (Nat.zero_le _), fun e => ?_⟩
        exact absurd (List.tail_eq_of_cons_eq e).symm last
      · obtain rfl | ⟨u, rfl, sub'⟩ := List.prefix_cons_iff.mp sub
        · have read := csvParseField_end plain cell
          have parsed : csvParseRow delim (fuel + 1) (csvWriteField delim cell ++ []) = ([cell], []) := by
            simp only [csvParseRow, List.append_nil, read]
          refine ⟨[cell], parsed, Nat.succ_le_succ (Nat.zero_le _), fun e => ?_⟩
          exact absurd (List.tail_eq_of_cons_eq e).symm last
        · simp only [List.length_append, List.length_cons] at enough
          obtain ⟨row, read, fewer, whole⟩ := ih last (show u.length < fuel by omega) sub'
          refine ⟨cell :: row, ?_, Nat.succ_le_succ fewer, fun e => ?_⟩
          · rw [csvParseRow, csvParseField_write plain cell (csvStop_delim delim _)]
            simp only [if_true, read]
          · have short := whole (List.tail_eq_of_cons_eq e)
            rw [csvCells_cons last]
            simp only [List.length_append, List.length_cons]
            omega

/-- A row has no more cells than bytes of its line. -/
lemma csvCells_length (delim : UInt8) (cells : List Str) : cells.length ≤ (csvCells delim cells).length + 1 := by
  induction cells with
  | nil => exact Nat.zero_le _
  | cons cell cells ih =>
    by_cases last : cells = []
    · subst last
      exact Nat.succ_le_succ (Nat.zero_le _)
    · rw [csvCells_cons last]
      simp only [List.length_append, List.length_cons]
      omega

end Rows

/-! ### Tables -/

section Tables

variable {delim : UInt8}

/-- A table as text. -/
def csvTable (delim : UInt8) (table : List (List Str)) : Str :=
  table.flatMap fun row => csvCells delim row ++ [13, 10]

lemma csvTable_cons (row : List Str) (table : List (List Str)) :
    csvTable delim (row :: table) = csvCells delim row ++ 13 :: 10 :: csvTable delim table := by
  simp [csvTable]

lemma csvParseRows_line (plain : CsvPlain delim) {row : List Str} (h : row ≠ []) (fuel : Nat) (rest : Str) :
    csvParseRows delim (fuel + 1) (csvCells delim row ++ 13 :: 10 :: rest) =
      row :: csvParseRows delim fuel rest := by
  have enough : row.length ≤ (csvCells delim row ++ 13 :: 10 :: rest).length + 1 := by
    have e := csvCells_length delim row
    rw [List.length_append]
    omega
  rw [csvParseRows, if_neg (by simp), csvParseRow_cells plain h enough]
  rfl

/-- A written table is read back. -/
lemma csvParseRows_table (plain : CsvPlain delim) {table : List (List Str)} (rows : ∀ row ∈ table, row ≠ [])
    {fuel : Nat} (enough : (csvTable delim table).length ≤ fuel) :
    csvParseRows delim fuel (csvTable delim table) = table := by
  induction table generalizing fuel with
  | nil => cases fuel <;> rfl
  | cons row table ih =>
    obtain ⟨first, others⟩ := List.forall_mem_cons.mp rows
    rw [csvTable_cons] at enough ⊢
    simp only [List.length_append, List.length_cons] at enough
    obtain ⟨fuel, rfl⟩ := Nat.exists_eq_add_one.mpr (show 0 < fuel by omega)
    rw [csvParseRows_line plain first, ih others (by omega)]

/-- The rows are those of the table up to one that is missing or has been cut off. -/
inductive CsvCut : (rows table : List (List Str)) → Prop where
  | missing {row : List Str} {table : List (List Str)} : CsvCut [] (row :: table)
  | short {row' row : List Str} {table : List (List Str)} (other : row' ≠ row)
      (fewer : row'.length ≤ row.length) : CsvCut [row'] (row :: table)
  | next {row : List Str} {rows table : List (List Str)} (rest : CsvCut rows table) :
      CsvCut (row :: rows) (row :: table)

lemma CsvCut.ne {rows table : List (List Str)} (h : CsvCut rows table) : rows ≠ table := by
  induction h with
  | missing => exact nofun
  | short other _ => exact fun e => other (List.head_eq_of_cons_eq e)
  | next _ ih => exact fun e => ih (List.tail_eq_of_cons_eq e)

/-- From a text that lacks four bytes or more, something of the table is lost. -/
lemma csvParseRows_cut (plain : CsvPlain delim) {table : List (List Str)} (rows : ∀ row ∈ table, row ≠ [])
    {s : Str} (pre : s <+: csvTable delim table) (lost : s.length + 4 ≤ (csvTable delim table).length)
    {fuel : Nat} (enough : s.length ≤ fuel) : CsvCut (csvParseRows delim fuel s) table := by
  induction table generalizing s fuel with
  | nil => exact absurd lost (by simp [csvTable])
  | cons row table ih =>
    obtain ⟨first, others⟩ := List.forall_mem_cons.mp rows
    rw [csvTable_cons] at pre lost
    simp only [List.length_append, List.length_cons] at lost
    obtain ⟨t, rfl, sub⟩ | sub : (∃ t, s = csvCells delim row ++ 13 :: 10 :: t ∧ t <+: csvTable delim table) ∨
        s <+: csvCells delim row ++ [13] := by
      obtain sub | ⟨t, rfl, sub⟩ := prefix_append_cases pre
      · exact .inr (List.prefix_append_of_prefix sub)
      obtain rfl | ⟨u, rfl, lf⟩ := List.prefix_cons_iff.mp sub
      · exact .inr ((List.prefix_append_right_inj _).mpr List.nil_prefix)
      obtain rfl | ⟨t, rfl, left⟩ := List.prefix_cons_iff.mp lf
      · exact .inr (List.prefix_refl _)
      · exact .inl ⟨t, rfl, left⟩
    · simp only [List.length_append, List.length_cons] at lost enough
      obtain ⟨fuel, rfl⟩ := Nat.exists_eq_add_one.mpr (show 0 < fuel by omega)
      rw [csvParseRows_line plain first]
      exact .next (ih others sub (by omega) (by omega))
    · by_cases empty : s = []
      · subst empty
        cases fuel <;> exact .missing
      · have pos := List.length_pos_iff.mpr empty
        obtain ⟨fuel, rfl⟩ := Nat.exists_eq_add_one.mpr (show 0 < fuel by omega)
        obtain ⟨row', read, fewer, whole⟩ := csvParseRow_cut plain first (Nat.lt_succ_self s.length) sub
        have parsed : csvParseRows delim (fuel + 1) s = [row'] := by
          rw [csvParseRows, if_neg empty, read]
          cases fuel <;> rfl
        rw [parsed]
        by_cases same : row' = row
        · subst same
          have short := whole rfl
          cases table with
          | nil =>
            simp only [csvTable, List.flatMap_nil, List.length_nil] at lost
            omega
          | cons next table => exact .next .missing
        · exact .short same fewer

/-- How long a cell is in the text, with its quotes. -/
def csvCellSize (delim : UInt8) (cell : Str) : Nat :=
  if csvNeedsQuote delim cell then cell.length + cell.count quote + 2 else cell.length

/-- How long a row is in the text, with a byte behind each cell. -/
def csvRowSize (delim : UInt8) : List Str → Nat
  | [] => 0
  | cell :: cells => csvCellSize delim cell + 1 + csvRowSize delim cells

/-- How long a table is as text, with another byte behind each row. -/
def csvSize (delim : UInt8) : List (List Str) → Nat
  | [] => 0
  | row :: table => csvRowSize delim row + 1 + csvSize delim table

lemma csvCells_size (delim : UInt8) {cells : List Str} (h : cells ≠ []) :
    (csvCells delim cells).length + 1 = csvRowSize delim cells := by
  induction cells with
  | nil => exact absurd rfl h
  | cons cell cells ih =>
    have first : (csvWriteField delim cell).length = csvCellSize delim cell := csvWriteField_length delim cell
    by_cases last : cells = []
    · subst last
      simp [csvCells, csvJoin, csvRowSize, first]
    · have e := ih last
      rw [csvCells_cons last, csvRowSize, ← e]
      simp only [List.length_append, List.length_cons, first]
      omega

lemma csvTable_length {table : List (List Str)} (rows : ∀ row ∈ table, row ≠ []) :
    (csvTable delim table).length = csvSize delim table := by
  induction table with
  | nil => rfl
  | cons row table ih =>
    obtain ⟨first, others⟩ := List.forall_mem_cons.mp rows
    have e := csvCells_size delim first
    have e' := ih others
    rw [csvTable_cons, csvSize, ← e, ← e']
    simp only [List.length_append, List.length_cons]
    omega

/-- A text as `csv_stringify` passes it on is all of it, or lacks more than four bytes. -/
lemma csvTaken (text : Str) (long : ¬ text.length < 4294967296) :
    (text.take (text.length % 4294967296)).length + 4 ≤ text.length := by
  rw [List.length_take]
  omega

end Tables

/-! ### Objects -/

section Objects

variable {ν : Type}

/-- Strings as the fields of an object. -/
def csvFields (fields : List (Str × Str)) : Json ν := .object (fields.map fun e => (e.1, .string e.2))

lemma zip_fst_sublist {α β : Type} (l : List α) (r : List β) : ((l.zip r).map Prod.fst).Sublist l := by
  induction l generalizing r with
  | nil => exact List.Sublist.refl _
  | cons a l ih =>
    cases r with
    | nil => exact List.nil_sublist _
    | cons b r => exact (ih r).cons_cons a

lemma csvObject_eq {header row : List Str} (distinct : header.Nodup) :
    csvObject (ν := ν) header row = csvFields (header.zip row) := by
  have keys : OrderedMap.Distinct ((header.zip row).map fun e => (e.1, (Json.string e.2 : Json ν))) := by
    rw [OrderedMap.Distinct, List.map_map]
    exact distinct.sublist (zip_fst_sublist header row)
  have e := OrderedMap.foldl_insert (m := []) keys
  rw [List.foldl_map] at e
  rw [csvObject, csvFields, e, List.nil_append]

lemma csvFields_inj {fields fields' : List (Str × Str)} (h : csvFields (ν := ν) fields = csvFields fields') :
    fields = fields' := by
  have inj : Function.Injective fun e : Str × Str => (e.1, (Json.string e.2 : Json ν)) := by
    rintro ⟨k, v⟩ ⟨k', v'⟩ e
    obtain ⟨rfl, e⟩ := Prod.mk.inj e
    obtain rfl := Json.string.inj e
    rfl
  exact List.map_injective_iff.mpr inj (Json.object.inj h)

variable [PrintF64 ν] {delim : UInt8}

/-- The line of an object has its values in the order of its fields. -/
lemma csvObjectRow_fields (delim : UInt8) {fields : List (Str × Str)} (distinct : OrderedMap.Distinct fields) :
    csvObjectRow delim (fields.map fun e => some e.1) (csvFields fields : Json ν) =
      csvCells delim (fields.map Prod.snd) ++ [13, 10] := by
  have found : ∀ e ∈ fields,
      OrderedMap.find (fields.map fun e => (e.1, (Json.string e.2 : Json ν))) e.1 = some (.string e.2) := by
    intro e mem
    obtain ⟨l, r, rfl⟩ := List.append_of_mem mem
    rw [List.map_append, List.map_cons]
    refine OrderedMap.find_middle ?_
    simpa [OrderedMap.Distinct, List.map_map, Function.comp_def] using distinct
  unfold csvFields
  rw [csvObjectRow, csvLine, csvCells, List.map_map, List.map_map]
  congr 2
  refine List.map_congr_left fun e mem => ?_
  simp only [Function.comp_apply, found e mem, Option.map_some, Option.getD_some, csvCellToStr]

/-- The text of objects with the same keys is that of a table under its header row. -/
lemma csvText_objects {keys : List Str} {objs : List (List (Str × Str))} (hasKeys : keys ≠ [])
    (distinct : keys.Nodup) (few : keys.length ≤ csvMaxCols) (nonempty : objs ≠ [])
    (same : ∀ o ∈ objs, o.map Prod.fst = keys) :
    csvText delim none (objs.map csvFields : List (Json ν)) =
      csvTable delim (keys :: objs.map fun o => o.map Prod.snd) := by
  obtain ⟨first, others, rfl⟩ := List.exists_cons_of_ne_nil nonempty
  have firstKeys := same first List.mem_cons_self
  have cols : csvColKeys none ((first :: others).map csvFields : List (Json ν)) = some (keys.map some) := by
    rw [← firstKeys] at few ⊢
    rw [List.map_cons, csvFields, csvColKeys]
    · rw [List.map_map, List.map_map, List.take_of_length_le (by simpa using few)]
      rfl
    · exact nofun
  have rowText : ∀ o ∈ first :: others, csvObjectRow delim (keys.map some) (csvFields o : Json ν) =
      csvCells delim (o.map Prod.snd) ++ [13, 10] := by
    intro o mem
    have oKeys := same o mem
    have e := csvObjectRow_fields (ν := ν) delim (show OrderedMap.Distinct o by rwa [OrderedMap.Distinct, oKeys])
    rwa [show (o.map fun e => some e.1) = keys.map some by rw [← oKeys, List.map_map]; rfl] at e
  have header : csvHeaderRow delim (keys.map some) = csvCells delim keys ++ [13, 10] := by
    rw [csvHeaderRow, csvLine, csvCells, List.map_map]
    rfl
  rw [csvText, cols]
  dsimp only
  rw [if_pos (.inr (by simpa using hasKeys)), header, csvTable, List.flatMap_cons, List.flatMap_map,
    List.flatMap_map]
  congr 1
  exact List.flatMap_congr rowText

end Objects

/-! ### Round trips -/

section RoundTrip

variable {ν : Type}

/-- A table as an array of arrays of strings. -/
def csvRows (table : List (List Str)) : Json ν := .array (table.map fun row => .array (row.map .string))

lemma csvRows_inj {table table' : List (List Str)} (h : csvRows (ν := ν) table = csvRows table') :
    table = table' := by
  have cell : Function.Injective (Json.string : Str → Json ν) := fun _ _ => Json.string.inj
  have row : Function.Injective fun row : List Str => (Json.array (row.map .string) : Json ν) := fun _ _ e =>
    List.map_injective_iff.mpr cell (Json.array.inj e)
  exact List.map_injective_iff.mpr row (Json.array.inj h)

lemma csvParse_header (delim : UInt8) (t : Str) : csvParse [(.string t : Json ν), .string [delim], .bool true] =
    match csvParseRows delim t.length t with
    | [] => .ok (.array [])
    | header :: rows => .ok (.array (rows.map (csvObject header))) := rfl

variable [PrintF64 ν]

/-- Parsing the stringified table gives the table. -/
def CsvRowsTrip (ν : Type) [PrintF64 ν] (delim : UInt8) (table : List (List Str)) : Prop :=
  ∃ text : Str, csvStringify [(csvRows table : Json ν), .string [delim]] = .ok text ∧
    csvParse [.string text, .string [delim]] = .ok (csvRows table : Json ν)

/-- Parsing the stringified objects in header mode gives the objects. -/
def CsvObjectsTrip (ν : Type) [PrintF64 ν] (delim : UInt8) (objs : List (List (Str × Str))) : Prop :=
  ∃ text : Str, csvStringify [(.array (objs.map csvFields) : Json ν), .string [delim]] = .ok text ∧
    csvParse [.string text, .string [delim], .bool true] = .ok (.array (objs.map csvFields) : Json ν)

lemma csvText_rows (delim : UInt8) {table : List (List Str)} :
    csvText delim none (table.map fun row => (.array (row.map .string) : Json ν)) = csvTable delim table := by
  have cols : csvColKeys none (table.map fun row => (.array (row.map .string) : Json ν)) = none := by
    cases table <;> rfl
  rw [csvText, cols]
  dsimp only
  rw [csvTable, List.flatMap_map]
  refine List.flatMap_congr fun row _ => ?_
  rw [csvArrayRow, csvLine, csvCells, List.map_map]
  rfl

variable {delim : UInt8}

/-- A table of non-empty rows survives just when its text is not too long. -/
lemma csvRowsTrip_iff (plain : CsvPlain delim) {table : List (List Str)} (rows : ∀ row ∈ table, row ≠ []) :
    CsvRowsTrip ν delim table ↔ csvSize delim table < 4294967296 := by
  rw [← csvTable_length rows]
  have written : csvStringify [(csvRows table : Json ν), .string [delim]] =
      .ok ((csvTable delim table).take ((csvTable delim table).length % 4294967296)) := by
    rw [← csvText_rows (ν := ν)]
    rfl
  constructor
  · rintro ⟨text, wrote, read⟩
    by_contra long
    rw [written] at wrote
    obtain rfl := Except.ok.inj wrote
    have cut := csvParseRows_cut plain rows (List.take_prefix _ _) (csvTaken _ long) le_rfl
    exact cut.ne (csvRows_inj (ν := ν) (Except.ok.inj read))
  · intro fits
    refine ⟨csvTable delim table, ?_, ?_⟩
    · rw [written, Nat.mod_eq_of_lt fits, List.take_length]
    · have read := csvParseRows_table plain rows (Nat.le_refl (csvTable delim table).length)
      exact congrArg (fun rows => Except.ok (csvRows rows)) read

/-- Rows that are cut off make other objects. -/
lemma CsvCut.objects {keys : List Str} {rows : List (List Str)} {objs : List (List (Str × Str))}
    (same : ∀ o ∈ objs, o.map Prod.fst = keys) (h : CsvCut rows (objs.map fun o => o.map Prod.snd)) :
    rows.map keys.zip ≠ objs := by
  generalize e : (objs.map fun o => o.map Prod.snd) = table at h
  induction h generalizing objs with
  | missing =>
    rintro rfl
    cases e
  | @short row' row table other fewer =>
    rintro rfl
    obtain ⟨e, -⟩ := List.cons.inj e
    have all : (keys.zip row').map Prod.fst = keys := same _ List.mem_cons_self
    have len := congrArg List.length all
    have len' := congrArg List.length e
    simp only [List.length_map, List.length_zip] at len len'
    dsimp only at e
    rw [List.map_snd_zip (by omega)] at e
    exact other e
  | next rest ih =>
    cases objs with
    | nil => cases e
    | cons o objs =>
      obtain ⟨-, e⟩ := List.cons.inj e
      have e' := ih (List.forall_mem_cons.mp same).2 e
      exact fun all => e' (List.tail_eq_of_cons_eq all)

/-- Objects with the same keys survive just when their text is not too long. -/
lemma csvObjectsTrip_iff (plain : CsvPlain delim) {keys : List Str} {objs : List (List (Str × Str))}
    (hasKeys : keys ≠ []) (distinct : keys.Nodup) (few : keys.length ≤ csvMaxCols) (nonempty : objs ≠ [])
    (same : ∀ o ∈ objs, o.map Prod.fst = keys) :
    CsvObjectsTrip ν delim objs ↔
      csvSize delim (keys :: objs.map fun o => o.map Prod.snd) < 4294967296 := by
  have rows : ∀ row ∈ keys :: objs.map fun o => o.map Prod.snd, row ≠ [] := by
    refine List.forall_mem_cons.mpr ⟨hasKeys, fun row mem => ?_⟩
    obtain ⟨o, inObjs, rfl⟩ := List.mem_map.mp mem
    intro e
    obtain rfl := List.map_eq_nil_iff.mp e
    exact hasKeys (same _ inObjs).symm
  rw [← csvTable_length rows]
  generalize e : (csvTable delim (keys :: objs.map fun o => o.map Prod.snd)) = text
  have written : csvStringify [(.array (objs.map csvFields) : Json ν), .string [delim]] =
      .ok (text.take (text.length % 4294967296)) := by
    rw [← e, ← csvText_objects (ν := ν) hasKeys distinct few nonempty same]
    rfl
  have objects (rows : List (List Str)) :
      rows.map (csvObject keys) = (rows.map keys.zip).map (csvFields : List (Str × Str) → Json ν) := by
    rw [List.map_map]
    exact List.map_congr_left fun row _ => csvObject_eq distinct
  have inj : Function.Injective (csvFields : List (Str × Str) → Json ν) := fun _ _ => csvFields_inj
  constructor
  · rintro ⟨t, wrote, read⟩
    by_contra long
    rw [written] at wrote
    obtain rfl := Except.ok.inj wrote
    have pre : text.take (text.length % 4294967296) <+: csvTable delim (keys :: objs.map fun o => o.map Prod.snd) :=
      e ▸ List.take_prefix _ _
    have cut := csvParseRows_cut plain rows pre (e ▸ csvTaken text long) le_rfl
    rw [csvParse_header] at read
    cases h : csvParseRows delim (text.take (text.length % 4294967296)).length
        (text.take (text.length % 4294967296)) with
    | nil =>
      rw [h] at read
      exact nonempty (List.map_eq_nil_iff.mp (Json.array.inj (Except.ok.inj read)).symm)
    | cons header parsed =>
      rw [h] at read cut
      have read := Json.array.inj (Except.ok.inj read)
      cases cut with
      | short other fewer => exact nonempty (List.map_eq_nil_iff.mp read.symm)
      | next rest =>
        rw [objects] at read
        exact rest.objects same (List.map_injective_iff.mpr inj read)
  · intro fits
    refine ⟨text, ?_, ?_⟩
    · rw [written, Nat.mod_eq_of_lt fits, List.take_length]
    · rw [csvParse_header, ← e, csvParseRows_table plain rows (Nat.le_refl _)]
      dsimp only
      rw [objects, List.map_map]
      have back : ((objs.map fun o => o.map Prod.snd).map keys.zip) = objs := by
        rw [List.map_map]
        refine (List.map_congr_left fun o mem => ?_).trans (List.map_id objs)
        rw [Function.comp_apply, ← same o mem]
        exact (List.zip_of_prod rfl rfl).symm
      rw [← List.map_map, back]

/-- Tables of non-empty rows, and objects with the same keys, survive the round trip just when their text is
shorter than `2 ^ 32` bytes. -/
theorem csv_roundTrip_iff (ν : Type) [PrintF64 ν] {delim : UInt8} (plain : CsvPlain delim) :
    (∀ table : List (List Str), (∀ row ∈ table, row ≠ []) →
      (CsvRowsTrip ν delim table ↔ csvSize delim table < 4294967296)) ∧
    ∀ (keys : List Str) (objs : List (List (Str × Str))), keys ≠ [] → keys.Nodup → keys.length ≤ csvMaxCols →
      objs ≠ [] → (∀ o ∈ objs, o.map Prod.fst = keys) →
      (CsvObjectsTrip ν delim objs ↔ csvSize delim (keys :: objs.map fun o => o.map Prod.snd) < 4294967296) :=
  ⟨fun _ rows => csvRowsTrip_iff plain rows,
    fun _ _ hasKeys distinct few nonempty same => csvObjectsTrip_iff plain hasKeys distinct few nonempty same⟩

end RoundTrip

lemma csvPlain_comma : CsvPlain comma := ⟨by decide, by decide, by decide⟩

/-- Quotes, delimiters, line ends and empty cells in a table and in objects. -/
theorem csv_roundTrip_iff_quotes :
    CsvRowsTrip Int comma [[[34, 44], []], [[]], [[0], [13, 10]]] ∧
      CsvObjectsTrip Int comma [[([97, 34], [34]), ([], [10])], [([97, 34], []), ([], [])]] := by
  obtain ⟨table, objects⟩ := csv_roundTrip_iff Int csvPlain_comma
  refine ⟨(table _ (by decide)).mpr (by decide), ?_⟩
  exact (objects [[97, 34], []] _ (by decide) (by decide) (by decide) (by decide) (by decide)).mpr
    (by decide)

lemma letters_csvSize (n : Nat) : csvSize comma [[List.replicate n 97]] = n + 2 := by
  have bare : csvNeedsQuote comma (List.replicate n 97) = false := by
    rw [csvNeedsQuote, List.any_eq_false]
    intro c mem
    obtain rfl := List.eq_of_mem_replicate mem
    decide
  simp [csvSize, csvRowSize, csvCellSize, bare]

/-- The text of this cell has `2 ^ 32` bytes with its line end, and is cut off to nothing. -/
theorem csv_long_cell_lost :
    (∀ row ∈ [[List.replicate 4294967294 (97 : UInt8)]], row ≠ []) ∧
      ¬ CsvRowsTrip Int comma [[List.replicate 4294967294 97]] := by
  have rows : ∀ row ∈ [[List.replicate 4294967294 (97 : UInt8)]], row ≠ [] :=
    List.forall_mem_singleton.mpr (List.cons_ne_nil _ _)
  refine ⟨rows, fun trip => ?_⟩
  have short := (csvRowsTrip_iff csvPlain_comma rows).mp trip
  rw [letters_csvSize] at short
  exact absurd short (by decide)

end Cando
