import Cando.Natives.HttpUtil

/-!
# Splitting a stream into reads

What the HTTP readers get from a connection does not depend on how its bytes are split into reads, except where a read
ends between the CR and the LF that end a line: the line reader takes the CR for a byte of the line and looks for the
CRLF no more. Up to there, reading from a connection is reading from the plain stream of its bytes.
-/

namespace Cando

open Scan

/-! ### The plain stream -/

/-- The line that a stream begins with. -/
def streamLine (max : Nat) : (line : Str) → Scan Str Str
  | line, 13 :: 10 :: s => if line.length ≥ max then (none, s) else (some line, s)
  | line, b :: s => if line.length + 1 ≥ max then (none, s) else streamLine max (line ++ [b]) s
  | _, [] => (none, [])

/-- The bytes that a stream begins with. -/
def streamBytes (need : Nat) : Scan Str Str := fun s =>
  if need ≤ s.length then (some (s.take need), s.drop need) else (none, s)

/-- A stream as a source. -/
def streamSource : Source Str where
  size s := s.length
  readCrlfLine max := streamLine max []
  readBodyBytes := streamBytes
  readToEnd s := (some s, [])

/-- The bytes that are left. -/
def HttpReader.left (r : HttpReader) : Str := r.recv ++ r.conn.input

/-- A line was read over a seam. -/
def HttpReader.Spoiled (r : HttpReader) : Prop := r.seam = true

/-! ### Reads -/

namespace HttpConn

variable {len : Nat}

/-- A read takes bytes off the front of the stream. -/
lemma read_append (c : HttpConn) (len : Nat) : (c.read len).1 ++ (c.read len).2.input = c.input :=
  List.prefix_iff_eq_append.mp (List.take_prefix _ _)

/-- With bytes to come and room for them, a read gets some. -/
lemma read_eq_nil {c : HttpConn} (room : 0 < len) : (c.read len).1 = [] ↔ c.input = [] := by
  have some : min len (c.sizes c.reads + 1) ≠ 0 := by omega
  simp only [read, List.take_eq_nil_iff, some, false_or]

lemma read_length (c : HttpConn) (len : Nat) : (c.read len).1.length ≤ len := by
  simp only [read, List.length_take]
  omega

end HttpConn

namespace HttpReader

variable {max len : Nat} {line : Str} {r : HttpReader} {b : UInt8} {recv : Str}

lemma refill_nil (room : 0 < len) (ended : r.conn.input = []) :
    refill len r = (none, { r with conn := (r.conn.read len).2 }) := by
  simp only [refill, (HttpConn.read_eq_nil room).mpr ended, if_true]

lemma refill_some (room : 0 < len) (more : r.conn.input ≠ []) :
    refill len r = (some (r.conn.read len).1, { r with conn := (r.conn.read len).2 }) := by
  simp only [refill, mt (HttpConn.read_eq_nil room).mp more, if_false]

/-! ### Lines -/

lemma lineStep_crlf (e : r.recv = 13 :: 10 :: recv) :
    lineStep max line r = if line.length ≥ max then (none, r) else (some (.inr line), { r with recv }) := by
  simp only [lineStep, e]

lemma lineStep_byte (max : Nat) (line : Str) (e : r.recv = b :: recv) (other : ¬ (b = 13 ∧ recv.head? = some 10)) :
    lineStep max line r =
      if line.length + 1 ≥ max then (none, { r with seam := r.seam || r.atSeam })
      else (some (.inl (line ++ [b])), { r with recv, seam := r.seam || r.atSeam }) := by
  rw [lineStep]
  split
  case h_1 e' =>
    obtain ⟨rfl, rfl⟩ := List.cons.inj (e.symm.trans e')
    exact absurd ⟨rfl, rfl⟩ other
  case h_2 e' =>
    obtain ⟨rfl, rfl⟩ := List.cons.inj (e.symm.trans e')
    rfl
  case h_3 e' => cases e.symm.trans e'

lemma lineStep_read (max : Nat) (line : Str) (e : r.recv = []) (more : r.conn.input ≠ []) :
    lineStep max line r =
      (some (.inl line), { r with conn := (r.conn.read 1024).2, recv := (r.conn.read 1024).1 }) := by
  simp only [lineStep, e, bind_apply, refill_some (by decide : 0 < 1024) more, andThen_some, append, pure_apply,
    List.nil_append]

lemma lineStep_end (e : r.recv = []) (ended : r.conn.input = []) :
    lineStep max line r = (none, { r with conn := (r.conn.read 1024).2 }) := by
  simp only [lineStep, e, bind_apply, refill_nil (by decide : 0 < 1024) ended, andThen_none]

/-- The steps of a line reader use up the bytes. -/
lemma lineStep_usesUp (max : Nat) : UsesUp lineSize (lineStep max) := by
  intro line r line' r' step
  match e : r.recv with
  | [] =>
    by_cases ended : r.conn.input = []
    · rw [lineStep_end e ended] at step
      cases step
    · rw [lineStep_read _ _ e ended] at step
      cases step
      have front := congrArg List.length (r.conn.read_append 1024)
      have got := List.length_pos_iff.mpr (mt (HttpConn.read_eq_nil (c := r.conn) (by decide : 0 < 1024)).mp ended)
      simp only [List.length_append] at front
      simp only [lineSize, e, List.length_nil]
      omega
  | b :: recv =>
    by_cases crlf : b = 13 ∧ recv.head? = some 10
    · obtain ⟨rfl, head⟩ := crlf
      obtain ⟨recv, rfl⟩ := List.head?_eq_some_iff.mp head
      rw [lineStep_crlf e] at step
      split at step <;> cases step
    · rw [lineStep_byte _ _ e crlf] at step
      split at step
      · cases step
      · cases step
        simp only [lineSize, e, List.length_cons]
        omega

lemma streamLine_crlf (s : Str) :
    streamLine max line (13 :: 10 :: s) = if line.length ≥ max then (none, s) else (some line, s) := by
  simp only [streamLine]

lemma streamLine_byte {s : Str} (other : ¬ (b = 13 ∧ s.head? = some 10)) :
    streamLine max line (b :: s) =
      if line.length + 1 ≥ max then (none, s) else streamLine max (line ++ [b]) s := by
  rw [streamLine.eq_def]
  split
  case h_1 e =>
    obtain ⟨rfl, rfl⟩ := List.cons.inj e
    exact absurd ⟨rfl, rfl⟩ other
  case h_2 e =>
    obtain ⟨rfl, rfl⟩ := List.cons.inj e
    rfl
  case h_3 e => cases e

/-- The end of the buffer inside a CRLF. -/
lemma atSeam_of (e : r.recv = [13]) (next : r.conn.input.head? = some 10) : r.atSeam = true := by
  simp [atSeam, e, next, cr, lf]

/-- Reading a line from a connection is reading it from the stream, unless a seam spoils it. The induction is on the
steps that are left. -/
lemma readLine_simulates (max : Nat) (line : Str) :
    Simulates left Spoiled (loop lineSize (lineStep max) line) (streamLine max line) := by
  intro r
  induction size : lineSize r using Nat.strongRecOn generalizing r line with
  | ind n ih =>
    subst size
    rw [loop_eq (lineStep_usesUp max), bind_apply]
    match e : r.recv with
    | [] =>
      by_cases ended : r.conn.input = []
      · rw [lineStep_end e ended, andThen_none]
        have left : r.left = [] := by simp [left, e, ended]
        intro sound
        rw [left]
        exact ⟨sound, rfl, fun some => absurd rfl some⟩
      · have step := lineStep_read max line e ended
        have less := lineStep_usesUp max line r line _ step
        rw [step, andThen_some]
        intro sound
        obtain ⟨clean, same, next⟩ := ih _ less line _ rfl sound
        have left : HttpReader.left { r with conn := (r.conn.read 1024).2, recv := (r.conn.read 1024).1 } = r.left := by
          simp only [left, e, List.nil_append]
          exact r.conn.read_append 1024
        rw [left] at same next
        exact ⟨clean, same, next⟩
    | b :: recv =>
      have left : r.left = b :: (recv ++ r.conn.input) := by rw [left, e]; rfl
      by_cases crlf : b = 13 ∧ recv.head? = some 10
      · obtain ⟨rfl, head⟩ := crlf
        obtain ⟨recv, rfl⟩ := List.head?_eq_some_iff.mp head
        rw [lineStep_crlf e, left, List.cons_append, streamLine_crlf]
        split
        · exact fun sound => ⟨sound, rfl, fun some => absurd rfl some⟩
        · exact fun sound => ⟨sound, rfl, fun _ => rfl⟩
      · -- the byte is no CR in front of an LF in the stream either, or else this is a seam
        have other (clean : ¬ (r.seam || r.atSeam) = true) : ¬ (b = 13 ∧ (recv ++ r.conn.input).head? = some 10) := by
          rintro ⟨rfl, head⟩
          cases recv with
          | nil => exact clean (by rw [atSeam_of e head, Bool.or_true])
          | cons d recv => exact crlf ⟨rfl, head⟩
        rw [lineStep_byte _ _ e crlf, left]
        by_cases full : line.length + 1 ≥ max
        · rw [if_pos full, andThen_none]
          intro clean
          rw [streamLine_byte (other clean), if_pos full]
          exact ⟨fun was => clean (by rw [was]; rfl), rfl, fun some => absurd rfl some⟩
        · have step := lineStep_byte max line e crlf
          rw [if_neg full] at step
          have less := lineStep_usesUp max line r _ _ step
          rw [if_neg full, andThen_some]
          intro sound
          obtain ⟨clean, same, next⟩ := ih _ less (line ++ [b]) _ rfl sound
          rw [streamLine_byte (other clean), if_neg full]
          exact ⟨fun was => clean (by rw [was]; rfl), same, next⟩

/-! ### Bytes -/

/-- The bytes that are still to come. -/
def incoming (r : HttpReader) : Nat := r.conn.input.length

lemma bodyStep_done {out : Str} : bodyStep (out, 0) r = (some (.inr out), r) := by
  simp only [bodyStep, if_true, pure_apply]

lemma bodyStep_end {out : Str} {need : Nat} (more : need ≠ 0) (ended : r.conn.input = []) :
    bodyStep (out, need) r = (none, { r with conn := (r.conn.read (min need 8192)).2 }) := by
  have room : 0 < min need 8192 := by omega
  simp only [bodyStep, if_neg more, bind_apply, refill_nil room ended, andThen_none]

lemma bodyStep_read {out : Str} {need : Nat} (more : need ≠ 0) (coming : r.conn.input ≠ []) :
    bodyStep (out, need) r = (some (.inl (out ++ (r.conn.read (min need 8192)).1,
      need - (r.conn.read (min need 8192)).1.length)), { r with conn := (r.conn.read (min need 8192)).2 }) := by
  have room : 0 < min need 8192 := by omega
  simp only [bodyStep, if_neg more, bind_apply, refill_some room coming, andThen_some, pure_apply]

/-- A read makes the stream shorter. -/
lemma incoming_read (coming : r.conn.input ≠ []) {len : Nat} (room : 0 < len) :
    incoming { r with conn := (r.conn.read len).2 } + (r.conn.read len).1.length = incoming r ∧
      0 < (r.conn.read len).1.length := by
  have front := congrArg List.length (r.conn.read_append len)
  rw [List.length_append] at front
  exact ⟨by simp only [incoming]; omega, List.length_pos_iff.mpr (mt (HttpConn.read_eq_nil room).mp coming)⟩

lemma bodyStep_usesUp : UsesUp incoming bodyStep := by
  rintro ⟨out, need⟩ r st' r' step
  by_cases more : need = 0
  · subst more
    rw [bodyStep_done] at step
    cases step
  · by_cases coming : r.conn.input = []
    · rw [bodyStep_end more coming] at step
      cases step
    · rw [bodyStep_read more coming] at step
      cases step
      have read := incoming_read coming (show 0 < min need 8192 by omega)
      omega

/-- The loop of `read_body_bytes` takes the bytes that it needs off the stream. -/
lemma bodyLoop (out : Str) (need : Nat) (r : HttpReader) :
    ∃ r', loop incoming bodyStep (out, need) r =
        (if need ≤ r.conn.input.length then some (out ++ r.conn.input.take need) else none, r') ∧
      r'.recv = r.recv ∧ r'.seam = r.seam ∧
      (need ≤ r.conn.input.length → r'.conn.input = r.conn.input.drop need) := by
  induction size : incoming r using Nat.strongRecOn generalizing r out need with
  | ind n ih =>
    subst size
    rw [loop_eq bodyStep_usesUp, bind_apply]
    by_cases more : need = 0
    · subst more
      rw [bodyStep_done, andThen_some]
      exact ⟨r, by simp, rfl, rfl, fun _ => rfl⟩
    · by_cases coming : r.conn.input = []
      · rw [bodyStep_end more coming, andThen_none]
        have short : ¬ need ≤ r.conn.input.length := by simp [coming, more]
        exact ⟨{ r with conn := (r.conn.read (min need 8192)).2 }, by rw [if_neg short], rfl, rfl,
          fun enough => absurd enough short⟩
      · obtain ⟨shorter, pos⟩ := incoming_read coming (show 0 < min need 8192 by omega)
        have front := r.conn.read_append (min need 8192)
        have fits := r.conn.read_length (min need 8192)
        rw [bodyStep_read more coming, andThen_some]
        obtain ⟨⟨got, conn⟩, e⟩ : ∃ x, r.conn.read (min need 8192) = x := ⟨_, rfl⟩
        simp only [e] at front fits shorter pos ⊢
        obtain ⟨r', run, recv, seam, input⟩ := ih _ (by omega) (out ++ got) (need - got.length) { r with conn } rfl
        have lengths := congrArg List.length front
        rw [List.length_append] at lengths
        refine ⟨r', run.trans ?_, recv, seam, fun enough => ?_⟩
        · by_cases enough : need ≤ r.conn.input.length
          · rw [if_pos enough, if_pos (show need - got.length ≤ conn.input.length by omega), ← front, List.take_append,
              List.take_of_length_le (show got.length ≤ need by omega), List.append_assoc]
          · rw [if_neg enough, if_neg (show ¬ need - got.length ≤ conn.input.length by omega)]
        · rw [input (show need - got.length ≤ conn.input.length by omega), ← front, List.drop_append,
            List.drop_of_length_le (show got.length ≤ need by omega), List.nil_append]

/-- Reading bytes from a connection is reading them from the stream. -/
lemma readBytes_simulates (need : Nat) : Simulates left Spoiled (readBodyBytes need) (streamBytes need) := by
  intro r sound
  obtain ⟨r', run, recv, seam, input⟩ := bodyLoop (r.recv.take need) (need - r.recv.length)
    { r with recv := r.recv.drop need }
  have run : readBodyBytes need r = _ := run
  rw [run] at sound ⊢
  have length : r.left.length = r.recv.length + r.conn.input.length := List.length_append
  refine ⟨fun was => sound (seam.trans was), ?_, fun some => ?_⟩
  · by_cases enough : need ≤ r.left.length
    · rw [if_pos (show need - r.recv.length ≤ r.conn.input.length by omega), streamBytes, if_pos enough]
      exact congrArg some List.take_append.symm
    · rw [if_neg (show ¬ need - r.recv.length ≤ r.conn.input.length by omega), streamBytes, if_neg enough]
  · have enough : need - r.recv.length ≤ r.conn.input.length := by
      by_contra short
      exact some (if_neg short)
    rw [streamBytes, if_pos (show need ≤ r.left.length by omega)]
    show (r.recv ++ r.conn.input).drop need = r'.recv ++ r'.conn.input
    rw [List.drop_append, recv, input enough]

lemma endStep_usesUp : UsesUp incoming endStep := by
  intro out r out' r' step
  by_cases coming : r.conn.input = []
  · have none := (HttpConn.read_eq_nil (by decide : 0 < 8192)).mpr coming
    simp only [endStep, none, if_true] at step
    cases step
  · have read := incoming_read coming (by decide : 0 < 8192)
    have got := mt (HttpConn.read_eq_nil (by decide : 0 < 8192)).mp coming
    simp only [endStep, got, if_false] at step
    cases step
    omega

/-- Reading until the end gets all that is left. -/
lemma readToEnd_simulates : Simulates left Spoiled readToEnd fun s => (some s, []) := by
  have ends (out : Str) (r : HttpReader) : ∃ r', loop incoming endStep out r = (some (out ++ r.conn.input), r') ∧
      r'.recv = r.recv ∧ r'.seam = r.seam ∧ r'.conn.input = [] := by
    induction size : incoming r using Nat.strongRecOn generalizing r out with
    | ind n ih =>
      subst size
      rw [loop_eq endStep_usesUp, bind_apply]
      by_cases coming : r.conn.input = []
      · have none := (HttpConn.read_eq_nil (by decide : 0 < 8192)).mpr coming
        have rest : (r.conn.read 8192).2.input = [] := by
          have front := r.conn.read_append 8192
          rw [none, coming] at front
          exact front
        simp only [endStep, none, if_true, andThen_some, pure_apply]
        exact ⟨{ r with conn := (r.conn.read 8192).2 }, by rw [coming, List.append_nil], rfl, rfl, rest⟩
      · have got := mt (HttpConn.read_eq_nil (by decide : 0 < 8192)).mp coming
        obtain ⟨shorter, pos⟩ := incoming_read coming (by decide : 0 < 8192)
        obtain ⟨r', run, recv, seam, input⟩ := ih _ (by omega) (out ++ (r.conn.read 8192).1)
          { r with conn := (r.conn.read 8192).2 } rfl
        simp only [endStep, got, if_false, andThen_some]
        refine ⟨r', ?_, recv, seam, input⟩
        rw [run, List.append_assoc, r.conn.read_append]
  intro r sound
  obtain ⟨r', run, recv, seam, input⟩ := ends r.recv { r with recv := [] }
  have run : readToEnd r = _ := run
  rw [run] at sound ⊢
  refine ⟨fun was => sound (seam.trans was), rfl, fun _ => ?_⟩
  show [] = r'.recv ++ r'.conn.input
  rw [recv, input, List.append_nil]

end HttpReader

/-! ### The parsers -/

section Parsers

open HttpReader

/-- A program over sources does on a connection what it does on the stream, unless a seam spoils it. -/
abbrev Mirrors {α : Type} (m : Scan HttpReader α) (m' : Scan Str α) : Prop := Simulates left Spoiled m m'

lemma mirrors_line (max : Nat) : Mirrors (connSource.readCrlfLine max) (streamSource.readCrlfLine max) :=
  readLine_simulates max []

lemma mirrors_bytes (need : Nat) : Mirrors (connSource.readBodyBytes need) (streamSource.readBodyBytes need) :=
  readBytes_simulates need

lemma left_size (r : HttpReader) : streamSource.size r.left = connSource.size r := List.length_append

lemma mirrors_ite {α : Type} {c : Prop} [Decidable c] {m n : Scan HttpReader α} {m' n' : Scan Str α}
    (h : Mirrors m m') (h' : Mirrors n n') : Mirrors (if c then m else n) (if c then m' else n') := by
  split
  · exact h
  · exact h'

lemma mirrors_headers : Mirrors (parseHeaders connSource) (parseHeaders streamSource) := by
  refine Simulates.loop left_size (fun h => ?_) []
  exact (mirrors_line 8192).bind fun line => mirrors_ite (.pure _) (.pure _)

lemma mirrors_chunked : Mirrors (readChunkedBody connSource) (readChunkedBody streamSource) := by
  have trailer (u : Unit) : Mirrors (readTrailerLine connSource u) (readTrailerLine streamSource u) :=
    (mirrors_line 64).bind fun line => mirrors_ite (.pure _) (.pure _)
  refine Simulates.loop left_size (fun out => ?_) []
  refine (mirrors_line 64).bind fun line => mirrors_ite ?_ ?_
  · exact (Simulates.loop left_size trailer ()).bind fun _ => .pure _
  · exact (mirrors_bytes _).bind fun payload => (mirrors_line 64).bind fun line => mirrors_ite .fail (.pure _)

lemma mirrors_length (cl : Str) : Mirrors (readLengthBody connSource cl) (readLengthBody streamSource cl) :=
  mirrors_ite (mirrors_bytes _) (.pure _)

lemma mirrors_request : Mirrors (readRequest connSource) (readRequest streamSource) := by
  have body (h : List HttpHeader) : Mirrors (readRequestBody connSource h) (readRequestBody streamSource h) := by
    refine mirrors_ite mirrors_chunked ?_
    cases httpHeadersGet h (bytes "content-length") with
    | some cl => exact mirrors_length cl
    | none => exact .pure _
  refine (mirrors_line 8192).bind fun line => mirrors_ite .fail ?_
  cases parseRequestLine line with
  | none => exact .fail
  | some fields => exact mirrors_headers.bind fun h => (body h).bind fun _ => .pure _

lemma mirrors_response : Mirrors (readResponse connSource) (readResponse streamSource) := by
  have body (status : Int) (h : List HttpHeader) :
      Mirrors (readResponseBody connSource status h) (readResponseBody streamSource status h) := by
    refine mirrors_ite mirrors_chunked ?_
    cases httpHeadersGet h (bytes "content-length") with
    | some cl => exact mirrors_length cl
    | none => exact mirrors_ite readToEnd_simulates (.pure _)
  refine (mirrors_line 8192).bind fun line => mirrors_ite .fail ?_
  cases parseStatusLine line with
  | none => exact .fail
  | some fields => exact mirrors_headers.bind fun h => (body _ h).bind fun _ => .pure _

end Parsers

/-! ### Two splittings of a stream -/

/-- A stream that comes in reads of these sizes. -/
def splitBy (sizes : Nat → Nat) (stream : Str) : HttpConn := { input := stream, sizes }

/-- Reading a request, no line is read over a CR that ended the bytes received, its LF being the next to come. -/
def RequestSeamless (conn : HttpConn) : Prop := ¬ (readRequest connSource { conn }).2.Spoiled

/-- Reading a response, no line is read over such a CR. -/
def ResponseSeamless (conn : HttpConn) : Prop := ¬ (readResponse connSource { conn }).2.Spoiled

/-- Byte by byte, no line ever ends. -/
lemma oneByte_noLine (max : Nat) (line : Str) (r : HttpReader) (single : r.recv.length ≤ 1)
    (sizes : r.conn.sizes = fun _ => 0) : (loop HttpReader.lineSize (HttpReader.lineStep max) line r).1 = none := by
  induction size : r.lineSize using Nat.strongRecOn generalizing r line with
  | ind n ih =>
    subst size
    rw [loop_eq (HttpReader.lineStep_usesUp max), bind_apply]
    match e : r.recv with
    | [] =>
      by_cases ended : r.conn.input = []
      · rw [HttpReader.lineStep_end e ended, andThen_none]
      · have step := HttpReader.lineStep_read max line e ended
        rw [step, andThen_some]
        refine ih _ (HttpReader.lineStep_usesUp max line r line _ step) line _ ?_ sizes rfl
        simp only [HttpConn.read, sizes, List.length_take]
        omega
    | [b] =>
      have step := HttpReader.lineStep_byte max line e (by simp)
      rw [step]
      split
      · rfl
      · rename_i room
        rw [if_neg room] at step
        rw [andThen_some]
        exact ih _ (HttpReader.lineStep_usesUp max line r _ _ step) _ _ (Nat.zero_le _) sizes rfl
    | b :: c :: recv =>
      rw [e] at single
      exact absurd single (by simp)

/-- Byte by byte, every request and every response is refused. -/
lemma oneByte_refused (stream : Str) :
    httpReadRequest (splitBy (fun _ => 0) stream) = none ∧ httpReadResponse (splitBy (fun _ => 0) stream) = none := by
  have first : ((connSource.readCrlfLine 8192) { conn := splitBy (fun _ => 0) stream }).1 = none :=
    oneByte_noLine 8192 [] _ (Nat.zero_le _) rfl
  match e : (connSource.readCrlfLine 8192) { conn := splitBy (fun _ => 0) stream } with
  | (none, r) =>
    constructor
    · rw [httpReadRequest, readRequest, bind_apply, e, andThen_none]
    · rw [httpReadResponse, readResponse, bind_apply, e, andThen_none]
  | (some line, r) =>
    rw [e] at first
    cases first

/-- The smallest request: read at once it is accepted, byte by byte it is not. -/
theorem split_request_lost :
    httpReadRequest (splitBy (fun _ => 1023) (bytes "GET / HTTP/1.1\r\n\r\n")) =
      some { method := bytes "GET", path := bytes "/", version := bytes "1.1", headers := [], body := [] } ∧
    httpReadRequest (splitBy (fun _ => 0) (bytes "GET / HTTP/1.1\r\n\r\n")) = none := by
  decide +kernel

/-- Two splittings of a stream without a seam in a line give the same request and the same response; and all splittings
of a stream give the same just when none gives any, since byte by byte everything is refused. -/
theorem splittings_agree (stream : Str) :
    ((∀ s s', RequestSeamless (splitBy s stream) → RequestSeamless (splitBy s' stream) →
        httpReadRequest (splitBy s stream) = httpReadRequest (splitBy s' stream)) ∧
      ((∀ s s', httpReadRequest (splitBy s stream) = httpReadRequest (splitBy s' stream)) ↔
        ∀ s, httpReadRequest (splitBy s stream) = none)) ∧
    (∀ s s', ResponseSeamless (splitBy s stream) → ResponseSeamless (splitBy s' stream) →
        httpReadResponse (splitBy s stream) = httpReadResponse (splitBy s' stream)) ∧
      ((∀ s s', httpReadResponse (splitBy s stream) = httpReadResponse (splitBy s' stream)) ↔
        ∀ s, httpReadResponse (splitBy s stream) = none) := by
  obtain ⟨request, response⟩ := oneByte_refused stream
  refine ⟨⟨fun s s' => mirrors_request.agree rfl, fun same s => ?_, fun none s s' => ?_⟩,
    fun s s' => mirrors_response.agree rfl, fun same s => ?_, fun none s s' => ?_⟩
  · rw [same s fun _ => 0, request]
  · rw [none s, none s']
  · rw [same s fun _ => 0, response]
  · rw [none s, none s']

/-- The smallest request, in reads of four bytes. -/
theorem splittings_agree_four :
    httpReadRequest (splitBy (fun _ => 3) (bytes "GET / HTTP/1.1\r\n\r\n")) =
      httpReadRequest (splitBy (fun _ => 1023) (bytes "GET / HTTP/1.1\r\n\r\n")) := by
  refine (splittings_agree (bytes "GET / HTTP/1.1\r\n\r\n")).1.1 _ _ ?_ ?_
  · unfold RequestSeamless HttpReader.Spoiled
    decide +kernel
  · unfold RequestSeamless HttpReader.Spoiled
    decide +kernel

end Cando
