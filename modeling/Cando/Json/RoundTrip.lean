import Cando.Json.Accepts
import Cando.Json.Write

/-!
# What the JSON writer writes is parsed again

The text of a tree is a text of the parser's dialect for the same tree, at every depth and with every indentation.
The string that `json.stringify` makes of it holds at most `2 ^ 32 - 1` bytes, so the round trip works on just the
trees whose text is that short.
-/

namespace Cando

open JsonText

/-! ### Strings -/

/-- A byte that is no control character, and what is written for it. -/
lemma jwByte_plain {c : UInt8} (visible : ¬ c < 0x20) (quoted : c ≠ quote) (escaped : c ≠ backslash) :
    jwByte c = [c] := by
  have all : ∀ n : Fin 256, ¬ UInt8.ofFin n < 0x20 → UInt8.ofFin n ≠ quote → UInt8.ofFin n ≠ backslash →
      jwByte (UInt8.ofFin n) = [UInt8.ofFin n] := by
    decide +kernel
  exact all c.toFin visible quoted escaped

/-- Four digits of a control character. -/
lemma hex4_control {c : UInt8} (control : c < 0x20) :
    hex4 [48, 48, hexDigit (c.toNat / 16), hexDigit (c.toNat % 16)] = some c.toNat := by
  have all : ∀ n : Fin 256, UInt8.ofFin n < 0x20 →
      hex4 [48, 48, hexDigit ((UInt8.ofFin n).toNat / 16), hexDigit ((UInt8.ofFin n).toNat % 16)] =
        some (UInt8.ofFin n).toNat := by
    decide +kernel
  exact all c.toFin control

/-- What is written for another byte is an escape of it. -/
lemma jwByte_escape {c : UInt8} (h : c < 0x20 ∨ c = quote ∨ c = backslash) :
    (∃ e, jwByte c = [backslash, e] ∧ simpleEscape e = some c) ∨
      c < 0x20 ∧ ∃ ds, jwByte c = backslash :: letterU :: ds ∧ hex4 ds = some c.toNat := by
  unfold jwByte
  -- the bytes that have a letter of their own
  iterate 7
    split
    · rename_i e
      subst e
      exact .inl ⟨_, rfl, rfl⟩
  split
  · rename_i control
    exact .inr ⟨control, _, rfl, hex4_control control⟩
  · rename_i quoted escaped _ _ _ _ _ control
    obtain h | h | h := h
    · exact absurd h control
    · exact absurd h quoted
    · exact absurd h escaped

/-- The byte that is written is parsed again. -/
lemma jwByte_lax {c : UInt8} {s b r : Str} (rest : LaxChars s b r) : LaxChars (jwByte c ++ s) (c :: b) r := by
  by_cases plain : c < 0x20 ∨ c = quote ∨ c = backslash
  · obtain ⟨e, written, stands⟩ | ⟨control, ds, written, hex⟩ := jwByte_escape plain
    · rw [written]
      exact .escape (.simple stands) rest
    · have low : c.toNat < 0x80 := Nat.lt_trans (UInt8.lt_iff_toNat_lt.mp control) (by decide)
      have one : utf8Bytes c.toNat = [c] := by
        rw [utf8Bytes, if_pos low, UInt8.ofNat_toNat]
      have escape : LaxEscape (letterU :: (ds ++ s)) [c] s := by
        rw [← one]
        exact .unicode hex fun high => absurd high.1 (by omega)
      rw [written]
      exact .escape escape rest
  · rw [not_or, not_or] at plain
    obtain ⟨visible, quoted, escaped⟩ := plain
    rw [jwByte_plain visible quoted escaped]
    exact .plain visible quoted escaped rest

lemma jwWriteString_lax (s r : Str) : LaxChars (s.flatMap jwByte ++ quote :: r) s r := by
  induction s with
  | nil => exact .close
  | cons c s ih =>
    rw [List.flatMap_cons, List.append_assoc]
    exact jwByte_lax ih

/-! ### Values -/

section Written

variable {ν : Type} [PrintF64 ν]

/-- The C library prints a numeral that fits the buffers, and `strtod` reads the number back. -/
structure Prints (text : Str) (x : ν) : Prop where
  numeral : Number false text []
  short : text.length < 64
  back : F64.strtod text = x

/-- A finite number that is read back from the format in which it is printed. -/
structure Printable (x : ν) : Prop where
  finite : F64.trunc x ≠ none
  fixed : jwFixed x = true → Prints (PrintF64.printF0 x) x
  general : jwFixed x = false → Prints (PrintF64.printG17 x) x

lemma Printable.written {x : ν} (h : Printable x) : Prints (jwWriteNumber x) x := by
  have whole {text : Str} (prints : Prints text x) : text.take 63 = text :=
    List.take_of_length_le (Nat.le_of_lt_succ prints.short)
  rw [jwWriteNumber, if_neg h.finite]
  split
  · rename_i fixed
    rw [whole (h.fixed fixed)]
    exact h.fixed fixed
  · rename_i general
    have prints := h.general (Bool.eq_false_iff.mpr general)
    rw [whole prints]
    exact prints

/-- A printed number is one of the parser's. -/
lemma Prints.lax {text r : Str} {x : ν} (h : Prints text x) (delimited : Delimited r) :
    LaxNumber (text ++ r) x r :=
  ⟨text, rfl, (h.numeral.frame (x := r) nofun).to_greedy delimited.stops, h.short, h.back.symm⟩

lemma jwIndent_ws (indent depth : Nat) (r : Str) : Ws (jwIndent indent depth ++ r) r := by
  unfold jwIndent
  split
  · exact .nil
  · refine .cons rfl ?_
    generalize depth * indent = n
    induction n with
    | zero => exact .nil
    | succ n ih => exact .cons rfl ih

/-- What is written for a value is a text of it, wherever it stands. -/
def Written (indent : Nat) (v : Json ν) : Prop :=
  ∀ (depth : Nat) (r : Str), Delimited r → Text lax (jwWriteValue indent v depth ++ r) (.value v) r

lemma delimited_cons {b : UInt8} {r : Str} (h : isWs b = true ∨ b = comma ∨ b = closeBracket ∨ b = closeBrace) :
    Delimited (b :: r) := by
  intro c t e
  obtain ⟨rfl, -⟩ := List.cons.inj e
  exact h

/-- The elements from one on. -/
lemma written_elements {indent : Nat} (depth : Nat) {r : Str} {v : Json ν} {vs : List (Json ν)}
    (h : ∀ w ∈ v :: vs, Written indent w) :
    Text lax (jwIndent indent (depth + 1) ++ (jwWriteValue indent v (depth + 1) ++
      (jwElements indent vs depth false ++ (jwIndent indent depth ++ closeBracket :: r)))) (.elements (v :: vs)) r := by
  induction vs generalizing v with
  | nil =>
    have close := jwIndent_ws indent depth (closeBracket :: r)
    have delimited := close.delimited (delimited_cons (.inr (.inr (.inl rfl))))
    rw [jwElements]
    exact .lastElement (jwIndent_ws _ _ _) (h v List.mem_cons_self _ _ delimited) close
  | cons w ws ih =>
    have rest := ih fun u mem => h u (List.mem_cons_of_mem v mem)
    have next : jwElements indent (w :: ws) depth false ++ (jwIndent indent depth ++ closeBracket :: r) =
        comma :: (jwIndent indent (depth + 1) ++ (jwWriteValue indent w (depth + 1) ++
          (jwElements indent ws depth false ++ (jwIndent indent depth ++ closeBracket :: r)))) := by
      simp [jwElements]
    rw [next]
    exact .element (jwIndent_ws _ _ _) (h v List.mem_cons_self _ _ (delimited_cons (.inr (.inl rfl)))) .nil rest

/-- What is written for the field of an object, in front of the rest. -/
def memberText (indent depth : Nat) (k : Str) (v : Json ν) (rest : Str) : Str :=
  jwIndent indent (depth + 1) ++ (quote :: (k.flatMap jwByte ++ quote :: (colon ::
    ((if indent = 0 then [] else [space]) ++ (jwWriteValue indent v (depth + 1) ++ rest)))))

lemma space_ws (indent : Nat) (r : Str) : Ws ((if indent = 0 then [] else [space]) ++ r) r := by
  split
  · exact .nil
  · exact .cons rfl .nil

/-- The members from one on. -/
lemma written_members {indent : Nat} (depth : Nat) {r : Str} {k : Str} {v : Json ν} {fields : List (Str × Json ν)}
    (h : ∀ e ∈ (k, v) :: fields, Written indent e.2) :
    Text lax (memberText indent depth k v
      (jwFields indent fields depth false ++ (jwIndent indent depth ++ closeBrace :: r)))
      (.members ((k, v) :: fields)) r := by
  induction fields generalizing k v with
  | nil =>
    have close := jwIndent_ws indent depth (closeBrace :: r)
    have delimited := close.delimited (delimited_cons (.inr (.inr (.inr rfl))))
    rw [jwFields]
    exact .lastMember (jwIndent_ws _ _ _) (jwWriteString_lax _ _) .nil (space_ws _ _)
      (h _ List.mem_cons_self _ _ delimited) close
  | cons e fields ih =>
    obtain ⟨k', w⟩ := e
    have rest := ih fun u mem => h u (List.mem_cons_of_mem _ mem)
    have next : jwFields indent ((k', w) :: fields) depth false ++ (jwIndent indent depth ++ closeBrace :: r) =
        comma :: memberText indent depth k' w
          (jwFields indent fields depth false ++ (jwIndent indent depth ++ closeBrace :: r)) := by
      simp [jwFields, jwWriteString, memberText]
    rw [next]
    exact .member (jwIndent_ws _ _ _) (jwWriteString_lax _ _) .nil (space_ws _ _)
      (h _ List.mem_cons_self _ _ (delimited_cons (.inr (.inl rfl)))) .nil rest

/-- The text of a tree. -/
lemma written (indent : Nat) {v : Json ν} (tree : v.Tree Printable) : Written indent v := by
  induction tree with
  | null =>
    intro depth r _
    rw [jwWriteValue]
    exact .nullLit
  | @bool b =>
    intro depth r _
    rw [jwWriteValue]
    cases b
    · exact .falseLit
    · exact .trueLit
  | number holds =>
    intro depth r delimited
    rw [jwWriteValue]
    exact .number (holds.written.lax delimited)
  | @string s =>
    intro depth r _
    have text := jwWriteString_lax s r
    rw [jwWriteValue, jwWriteString, List.append_assoc]
    exact .string text
  | @array items elements ih =>
    intro depth r _
    cases items with
    | nil =>
      rw [jwWriteValue, jwElements, if_pos rfl]
      exact .emptyArray .nil
    | cons v vs =>
      have inner := written_elements depth (r := r) ih
      have whole : jwWriteValue indent (.array (v :: vs)) depth ++ r =
          openBracket :: (jwIndent indent (depth + 1) ++ (jwWriteValue indent v (depth + 1) ++
            (jwElements indent vs depth false ++ (jwIndent indent depth ++ closeBracket :: r)))) := by
        simp [jwWriteValue, jwElements]
      rw [whole]
      exact .array inner
  | @object fields distinct values ih =>
    intro depth r _
    cases fields with
    | nil =>
      rw [jwWriteValue, jwFields, if_pos rfl]
      exact .emptyObject .nil
    | cons e fields =>
      obtain ⟨k, v⟩ := e
      have inner := written_members depth (r := r) ih
      have whole : jwWriteValue indent (.object ((k, v) :: fields)) depth ++ r =
          openBrace :: memberText indent depth k v
            (jwFields indent fields depth false ++ (jwIndent indent depth ++ closeBrace :: r)) := by
        simp [jwWriteValue, jwFields, jwWriteString, memberText]
      rw [whole, ← ofMembers_distinct distinct]
      exact .object inner

/-! ### The whole text -/

/-- The text of a tree begins with it, and at most a newline follows. -/
lemma begins_text (indent : Nat) {v : Json ν} (tree : v.Tree Printable) :
    ∃ r, r.length ≤ 1 ∧ Begins lax (jwText indent v) v r := by
  unfold jwText
  dsimp only
  split
  · exact ⟨[newline], Nat.le_refl 1, _, .nil, written indent tree 0 _ (delimited_cons (.inl rfl))⟩
  · have text := written indent tree 0 [] fun _ _ e => nomatch e
    rw [List.append_nil] at text
    exact ⟨[], Nat.zero_le 1, _, .nil, text⟩

end Written

/-! ### Texts cut off -/

lemma utf8Bytes_ne_nil (n : Nat) : utf8Bytes n ≠ [] := by
  unfold utf8Bytes
  split
  · exact List.cons_ne_nil _ _
  split
  · exact List.cons_ne_nil _ _
  split <;> exact List.cons_ne_nil _ _

lemma LaxEscape.ne_nil {s b r : Str} (h : LaxEscape s b r) : b ≠ [] := by
  cases h with
  | simple => exact List.cons_ne_nil _ _
  | unicode | pair => exact utf8Bytes_ne_nil _

lemma LaxEscape.frame {s b r : Str} (x : Str) (h : LaxEscape s b r) : LaxEscape (s ++ x) b (r ++ x) := by
  cases h with
  | simple stands => exact .simple stands
  | unicode hex high =>
    simp only [List.cons_append, List.append_assoc]
    exact .unicode hex high
  | pair hex high hex' low =>
    simp only [List.cons_append, List.append_assoc]
    exact .pair hex high hex' low

/-- An escape means one thing. -/
lemma LaxEscape.unique {s b b' r r' : Str} (h : LaxEscape s b r) (h' : LaxEscape s b' r') : b = b' ∧ r = r' := by
  obtain ⟨q, done, rfl⟩ := jpEscape_of (p := ⟨0, s⟩) h
  obtain ⟨q', done', rfl⟩ := jpEscape_of (p := ⟨0, s⟩) h'
  obtain ⟨rfl, rfl⟩ := Prod.mk.inj (Except.ok.inj (done.symm.trans done'))
  exact ⟨rfl, rfl⟩

lemma LaxChars.frame {s b r : Str} (x : Str) (h : LaxChars s b r) (more : r ≠ []) :
    LaxChars (s ++ x) b (r ++ x) := by
  induction h with
  | close => exact .close
  | cut => exact absurd rfl more
  | plain visible quoted escaped _ ih => exact .plain visible quoted escaped (ih more)
  | escape escape _ ih => exact .escape (escape.frame x) (ih more)

lemma lax_frames {ν : Type} [F64 ν] : (lax : Dialect ν).Frames where
  string _ _ _ x more h := h.frame x more
  number := by
    rintro s v r x more ⟨l, rfl, number, short, rfl⟩
    exact ⟨l, List.append_assoc _ _ _, number.frame fun _ => more, short, rfl⟩

/-- A string that goes on either ended before, or what it goes on with is read as the rest of it. -/
lemma LaxChars.continued {s z b c r o : Str} (h : LaxChars s b r) (h' : LaxChars (s ++ z) c o) :
    (c = b ∧ o = r ++ z) ∨ ∃ d, c = b ++ d ∧ LaxChars z d o := by
  induction h generalizing c with
  | close =>
    cases h' with
    | close => exact .inl ⟨rfl, rfl⟩
    | plain _ quoted => exact absurd rfl quoted
  | cut => exact .inr ⟨c, rfl, h'⟩
  | plain visible quoted escaped _ ih =>
    cases h' with
    | close => exact absurd rfl quoted
    | plain _ _ _ rest =>
      obtain ⟨rfl, e⟩ | ⟨d, rfl, tail⟩ := ih rest
      · exact .inl ⟨rfl, e⟩
      · exact .inr ⟨d, rfl, tail⟩
    | escape => exact absurd rfl escaped
  | escape escape _ ih =>
    cases h' with
    | plain _ _ escaped => exact absurd rfl escaped
    | escape escape' rest =>
      obtain ⟨rfl, rfl⟩ := (escape.frame z).unique escape'
      obtain ⟨rfl, e⟩ | ⟨d, rfl, tail⟩ := ih rest
      · exact .inl ⟨rfl, e⟩
      · exact .inr ⟨d, (List.append_assoc _ _ _).symm, tail⟩

/-- The text of an empty rest of a string. -/
lemma LaxChars.length_nil {s r : Str} (h : LaxChars s [] r) : s.length ≤ r.length + 1 := by
  generalize e : ([] : Str) = b at h
  cases h with
  | close => exact Nat.le_refl _
  | cut => exact Nat.zero_le _
  | plain => cases e
  | escape escape _ => exact absurd (List.append_eq_nil_iff.mp e.symm).1 escape.ne_nil

/-! ### The round trip -/

section RoundTrip

variable {ν : Type} [PrintF64 ν]

/-- `json.parse(json.stringify(v, …))` succeeds and yields the same tree. -/
def RoundTrips (v : Json ν) (args : List (Json ν)) : Prop :=
  ∃ t, jsonStringify (v :: args) = some t ∧ jsonParse t = .ok v

/-- A value that shows where it ends is not read from less than its text. -/
lemma closed_cut {v : Json ν} {t x r o : Str} (h : Begins lax t v r) (h' : Begins lax (t ++ x) v o)
    (closed : (Item.value v).Closed) : x.length ≤ o.length := by
  obtain ⟨s, ws, text⟩ := h
  have more : Begins lax (t ++ x) v (r ++ x) := ⟨s ++ x, ws.frame, text.frame lax_frames (.inl closed)⟩
  obtain ⟨q, done, rest⟩ := begins_iff.mp more
  obtain ⟨q', done', rfl⟩ := begins_iff.mp h'
  obtain ⟨-, rfl⟩ := Prod.mk.inj (Except.ok.inj (done.symm.trans done'))
  rw [rest, List.length_append]
  omega

/-- Neither is a string. -/
lemma string_cut {b t x r o : Str} (h : Begins (lax : Dialect ν) t (.string b) r)
    (h' : Begins (lax : Dialect ν) (t ++ x) (.string b) o) : x.length ≤ o.length + 1 := by
  have stop (u v : Str) (c : UInt8) (e : quote :: u = c :: v) : isWs c = false := by
    obtain ⟨rfl, -⟩ := List.cons.inj e
    rfl
  obtain ⟨s, ws, text⟩ := h
  obtain ⟨s', ws', text'⟩ := h'
  cases text with
  | @string u _ _ chars =>
    cases text' with
    | @string u' _ _ chars' =>
      have first := (ws.frame (x := x)).eq_dropWhile fun c v e => stop _ v c e
      have second := ws'.eq_dropWhile fun c v e => stop _ v c e
      obtain ⟨-, rfl⟩ := List.cons.inj (second.symm.trans first)
      obtain ⟨-, rfl⟩ | ⟨d, e, rest⟩ := chars.continued chars'
      · rw [List.length_append]
        omega
      · obtain rfl : d = [] := by simpa using e
        exact rest.length_nil

/-- The text of a number is short. -/
lemma number_length (indent : Nat) (x : ν) : (jwText indent (.number x)).length < 65 := by
  have short : (jwWriteNumber x).length < 64 := by
    unfold jwWriteNumber
    split
    · decide
    split <;> exact Nat.lt_succ_of_le (List.length_take_le _ _)
  unfold jwText
  rw [jwWriteValue]
  dsimp only
  split
  · rw [List.length_append]
    exact Nat.succ_lt_succ short
  · exact Nat.lt_succ_of_lt short

/-- A text that is cut off is not read as the tree. -/
lemma cut_text {indent n : Nat} {v : Json ν} (tree : v.Tree Printable)
    (cut : n + 4294967296 ≤ (jwText indent v).length) : jsonParse ((jwText indent v).take n) ≠ .ok v := by
  intro done
  obtain ⟨r, short⟩ := jsonParse_iff.mp done
  obtain ⟨o, len, whole⟩ := begins_text indent tree
  have behind : ((jwText indent v).drop n).length = (jwText indent v).length - n := List.length_drop
  rw [← List.take_append_drop n (jwText indent v)] at whole
  cases tree with
  | null | bool | array | object =>
    have le := closed_cut short whole trivial
    omega
  | @number x =>
    have := number_length indent x
    omega
  | string =>
    have le := string_cut short whole
    omega

/-- What is read again was not cut off. -/
lemma RoundTrips.fits {v : Json ν} {args : List (Json ν)} (tree : v.Tree Printable) (h : RoundTrips v args) :
    ∃ indent, jwIndentArg args = some indent ∧ (jwText indent v).length < 4294967296 := by
  obtain ⟨t, e, done⟩ := h
  obtain ⟨indent, arg, rfl⟩ := Option.map_eq_some_iff.mp e
  refine ⟨indent, arg, ?_⟩
  by_contra long
  refine cut_text tree ?_ done
  omega

/-- A tree is read again just when C defines the indentation and the text is shorter than `2 ^ 32` bytes. -/
theorem roundTrips_iff {v : Json ν} (tree : v.Tree Printable) (args : List (Json ν)) :
    RoundTrips v args ↔ ∃ indent, jwIndentArg args = some indent ∧ (jwText indent v).length < 4294967296 := by
  constructor
  · exact RoundTrips.fits tree
  · rintro ⟨indent, arg, short⟩
    refine ⟨jwText indent v, ?_, ?_⟩
    · unfold jsonStringify
      dsimp only
      rw [arg, Option.map_some, Nat.mod_eq_of_lt short, List.take_length]
    · obtain ⟨r, -, begins⟩ := begins_text indent tree
      exact jsonParse_iff.mpr ⟨r, begins⟩

end RoundTrip

lemma printable_seven : Printable (7 : Int) where
  finite := nofun
  fixed _ := by
    have digit : ∀ d ∈ [(55 : UInt8)], isDigit d = true := List.forall_mem_singleton.mpr rfl
    have run : Digits false [55] [] := ⟨[55], rfl, List.cons_ne_nil _ _, digit, nofun⟩
    exact ⟨.nonneg (.digits (by decide) run) (.none nofun) (.none nofun), by decide, by decide⟩
  general h := nomatch h

/-- An object in an array, indented by two. -/
theorem roundTrips_iff_nested :
    RoundTrips (ν := Int) (.array [.object [(bytes "a", .number 7)], .string (bytes "b\n")]) [.number 2] := by
  have tree : (Json.array [.object [(bytes "a", .number (7 : Int))], .string (bytes "b\n")]).Tree Printable := by
    refine .array fun v mem => ?_
    obtain rfl | rfl := by simpa using mem
    · refine .object (List.nodup_singleton _) fun e mem => ?_
      obtain rfl := List.mem_singleton.mp mem
      exact .number printable_seven
    · exact .string
  exact (roundTrips_iff tree _).mpr ⟨2, rfl, by decide⟩

lemma letters_length (n : Nat) : (jwText (ν := Int) 0 (.string (List.replicate n 97))).length = n + 2 := by
  have letters : (List.replicate n (97 : UInt8)).flatMap jwByte = List.replicate n 97 := by
    induction n with
    | zero => rfl
    | succ n ih =>
      rw [List.replicate_succ, List.flatMap_cons, ih]
      rfl
  have text : jwText (ν := Int) 0 (.string (List.replicate n 97)) = quote :: List.replicate n 97 ++ [quote] := by
    rw [jwText, if_neg (fun h => absurd h.1 (Nat.lt_irrefl 0)), jwWriteValue, jwWriteString, letters]
  rw [text]
  simp

/-- Text of `2 ^ 32` bytes is cut off to nothing. -/
theorem long_string_lost :
    (Json.string (List.replicate 4294967294 97) : Json Int).Tree Printable ∧
      ¬ RoundTrips (ν := Int) (.string (List.replicate 4294967294 97)) [] := by
  refine ⟨.string, fun h => ?_⟩
  obtain ⟨indent, arg, short⟩ := h.fits .string
  obtain rfl := Option.some.inj arg
  rw [letters_length] at short
  exact absurd short (by decide)

end Cando
