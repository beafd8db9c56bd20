import Cando.Json.Write

/-!
# CSV natives

`csv.parse` and `csv.stringify` of `lib/csv.c` on trees: every container that the parser makes is new. The scanners
yield what they leave of the text, and the loops over it take fuel for their turns.
-/

namespace Cando

open JsonText

/-- `CSV_MAX_COLS` -/
def csvMaxCols : Nat := 4096

section Parse

variable {ν : Type}

/-- The delimiter argument: the first byte of a string, a comma by default. -/
def csvDelim : Option (Json ν) → UInt8
  | some (.string (d :: _)) => d
  | _ => comma

/-- A quoted field, from behind its opening quote. The end of the text ends it as well. -/
def csvQuoted : Str → Str × Str
  | [] => ([], [])
  | [c] => if c = quote then ([], []) else ([c], [])
  | c :: d :: s =>
    if c = quote then
      if d = quote then
        let (field, rest) := csvQuoted s
        (quote :: field, rest)
      else ([], d :: s)
    else
      let (field, rest) := csvQuoted (d :: s)
      (c :: field, rest)

/-- What ends an unquoted field. -/
def csvEnds (delim c : UInt8) : Bool := c == delim || c == 10 || c == 13

/-- `csv_parse_field`. -/
def csvParseField (delim : UInt8) (s : Str) : Str × Str :=
  match s with
  | 34 :: s => csvQuoted s
  | s => (s.takeWhile fun c => !csvEnds delim c, s.dropWhile fun c => !csvEnds delim c)

/-- `csv_skip_crlf`. -/
def csvSkipCrlf (s : Str) : Str :=
  let s := if s.head? = some 13 then s.tail else s
  if s.head? = some 10 then s.tail else s

/-- `csv_parse_row`, with fuel for the fields. -/
def csvParseRow (delim : UInt8) : (fuel : Nat) → Str → List Str × Str
  | 0, s => ([], s)
  | fuel + 1, s =>
    let (field, s) := csvParseField delim s
    match s with
    | [] => ([field], [])
    | next :: rest =>
      if next = delim then
        let (fields, s) := csvParseRow delim fuel rest
        (field :: fields, s)
      else ([field], csvSkipCrlf (next :: rest))

/-- The rows up to the end of the text, with fuel for them. -/
def csvParseRows (delim : UInt8) : (fuel : Nat) → Str → List (List Str)
  | 0, _ => []
  | fuel + 1, s =>
    if s = [] then []
    else
      let (row, s) := csvParseRow delim (s.length + 1) s
      row :: csvParseRows delim fuel s

/-- A row as an object: its cells under the keys of the header row. -/
def csvObject (header row : List Str) : Json ν :=
  .object ((header.zip row).foldl (fun fields e => OrderedMap.insert fields e.1 (.string e.2)) [])

/-- `csv_parse` on its arguments: the value, or the message of the error. -/
def csvParse (args : List (Json ν)) : Except Str (Json ν) :=
  match args with
  | .string text :: args =>
    let delim := csvDelim args[0]?
    match (args[1]? : Option (Json ν)) with
    | some (.bool true) =>
      match csvParseRows delim text.length text with
      | [] => .ok (.array [])
      | header :: rows => .ok (.array (rows.map (csvObject header)))
    | _ => .ok (.array ((csvParseRows delim text.length text).map fun row => .array (row.map .string)))
  | _ => .error (bytes "csv.parse: expected a string argument")

end Parse

section Stringify

/-- The cell has to be quoted. -/
def csvNeedsQuote (delim : UInt8) (cell : Str) : Bool :=
  cell.any fun c => c == quote || c == 13 || c == 10 || c == delim

/-- The bytes of a cell between quotes. -/
def csvEscape (cell : Str) : Str := cell.flatMap fun c => if c = quote then [quote, quote] else [c]

/-- `csv_write_field`. -/
def csvWriteField (delim : UInt8) (cell : Str) : Str :=
  if csvNeedsQuote delim cell then quote :: csvEscape cell ++ [quote] else cell

/-- Fields with the delimiter between them. -/
def csvJoin (delim : UInt8) : List Str → Str
  | [] => []
  | [field] => field
  | field :: fields => field ++ delim :: csvJoin delim fields

/-- A line of the text. -/
def csvLine (delim : UInt8) (fields : List Str) : Str := csvJoin delim fields ++ [13, 10]

variable {ν : Type} [PrintF64 ν]

/-- `csv_cell_to_str`. -/
def csvCellToStr : Json ν → Str
  | .null => []
  | .bool b => if b then bytes "true" else bytes "false"
  | .number x => if jwFixed x then (PrintF64.printF0 x).take 63 else (PrintF64.printG17 x).take 63
  | .string s => s
  | .array _ => []
  | .object _ => []

/-- `csv_extract_headers`: an entry that is not a string has no key. -/
def csvExtractHeaders (headers : List (Json ν)) : List (Option Str) :=
  (headers.take csvMaxCols).map fun
    | .string s => some s
    | _ => none

/-- The keys of the columns when there are: from the headers, or else from a first row that is an object. -/
def csvColKeys (headers : Option (Json ν)) (rows : List (Json ν)) : Option (List (Option Str)) :=
  match headers, rows with
  | some (.array headers), _ => some (csvExtractHeaders headers)
  | _, .object fields :: _ => some ((fields.map fun e => some e.1).take csvMaxCols)
  | _, _ => none

/-- The line of a row in object mode. -/
def csvObjectRow (delim : UInt8) (keys : List (Option Str)) : Json ν → Str
  | .object fields =>
    csvLine delim (keys.map fun
      | some key => csvWriteField delim (((OrderedMap.find fields key).map csvCellToStr).getD [])
      | none => [])
  | _ => csvLine delim (keys.map fun _ => [])

/-- The line of a row in array mode; other rows are passed over. -/
def csvArrayRow (delim : UInt8) : Json ν → Str
  | .array cells => csvLine delim (cells.map fun cell => csvWriteField delim (csvCellToStr cell))
  | _ => []

/-- The header line of the keys. -/
def csvHeaderRow (delim : UInt8) (keys : List (Option Str)) : Str :=
  csvLine delim (keys.map fun
    | some key => csvWriteField delim key
    | none => [])

/-- `has_hdrs` -/
def csvHasHeaders : Option (Json ν) → Bool
  | some (.array _) => true
  | _ => false

/-- The whole text that `csv_stringify` writes. -/
def csvText (delim : UInt8) (headers : Option (Json ν)) (rows : List (Json ν)) : Str :=
  match csvColKeys headers rows with
  | some keys =>
    (if csvHasHeaders headers ∨ keys ≠ [] then csvHeaderRow delim keys else []) ++
      rows.flatMap (csvObjectRow delim keys)
  | none => rows.flatMap (csvArrayRow delim)

/-- `csv_stringify` on its arguments: the text, or the message of the error. -/
def csvStringify (args : List (Json ν)) : Except Str Str :=
  match args with
  | .array rows :: args =>
    let text := csvText (csvDelim args[0]?) args[1]? rows
    -- the length is passed on as a `u32`
    .ok (text.take (text.length % 4294967296))
  | .object _ :: _ => .error (bytes "csv.stringify: data must be an array")
  | _ => .error (bytes "csv.stringify: expected an array argument")

end Stringify

end Cando
