import Cando.Json.Lexical

/-!
# What the JSON parser accepts

The parser takes exactly the texts that begin with a value of its own dialect, and a JSON text of RFC 8259
exactly if all its numerals fit the buffer. So it meets the standard on the texts on which the two dialects
agree.
-/

namespace Cando

open JsonText

variable {ν : Type}

/-! ### Soundness -/

lemma jpLiteral_ok {p q : JParser} {lit : Str} {v w : Json ν} (h : jpLiteral p lit v = .ok (w, q)) :
    p.rest = lit ++ q.rest ∧ w = v := by
  unfold jpLiteral jpMatch at h
  split at h
  · rename_i o found
    split at found
    · rename_i eq
      obtain rfl := Option.some.inj found
      obtain ⟨rfl, rfl⟩ := Prod.mk.inj (Except.ok.inj h)
      refine ⟨?_, rfl⟩
      rw [skip_rest]
      nth_rewrite 1 [← List.take_append_drop lit.length p.rest]
      rw [eq]
    · cases found
  · cases h

lemma except_map_ok {α β ε : Type} {m : Except ε α} {f : α → β} {b : β} (h : m.map f = .ok b) :
    ∃ a, m = .ok a ∧ f a = b := by
  cases m with
  | error e => cases h
  | ok a => exact ⟨a, rfl, Except.ok.inj h⟩

variable [F64 ν]

/-- A value that the parser has found is there, in the dialect of the parser. -/
def SoundValue (ν : Type) [F64 ν] (fuel : Nat) : Prop :=
  ∀ (p q : JParser) (v : Json ν), jpParseValue fuel p = .ok (v, q) →
    ∃ s, Ws p.rest s ∧ Text lax s (.value v) q.rest

/-- So are the elements of an array. -/
def SoundElements (ν : Type) [F64 ν] (fuel : Nat) : Prop :=
  ∀ (p q : JParser) (vs : List (Json ν)), jpArrayLoop fuel p = .ok (vs, q) →
    Text lax p.rest (.elements vs) q.rest

/-- And the members of an object, which are set one after the other. -/
def SoundMembers (ν : Type) [F64 ν] (fuel : Nat) : Prop :=
  ∀ (p q : JParser) (m fields : List (Str × Json ν)), jpObjectLoop fuel p m = .ok (fields, q) →
    ∃ ms, Text lax p.rest (.members ms) q.rest ∧
      fields = ms.foldl (fun m e => OrderedMap.insert m e.1 e.2) m

lemma jpParseValue_step {fuel : Nat} (elements : SoundElements ν fuel) (members : SoundMembers ν fuel) :
    SoundValue ν (fuel + 1) := by
  intro p q v h
  refine ⟨(jpSkipWs p).rest, ws_jpSkipWs p, ?_⟩
  rw [jpParseValue] at h
  dsimp only at h
  split at h
  · cases h
  rename_i c s e
  have behind : ((jpSkipWs p).skip 1).rest = s := by rw [skip_rest, e]; rfl
  have ws := ws_jpSkipWs ((jpSkipWs p).skip 1)
  rw [behind] at ws
  split at h
  · -- a string
    obtain ⟨⟨b, o⟩, found, eq⟩ := except_map_ok h
    obtain ⟨rfl, rfl⟩ := Prod.mk.inj eq
    obtain ⟨t, e', chars⟩ := jpParseString_ok found
    rw [e']
    exact .string chars
  split at h
  · -- an array
    rename_i bracket
    subst bracket
    rw [e]
    split at h
    · rename_i closed
      obtain ⟨t, e'⟩ := at_byte_iff.mp closed
      obtain ⟨rfl, rfl⟩ := Prod.mk.inj (Except.ok.inj h)
      refine .emptyArray ?_
      rw [e'] at ws
      rw [skip_rest, e']
      exact ws
    · obtain ⟨⟨vs, o⟩, found, eq⟩ := except_map_ok h
      obtain ⟨rfl, rfl⟩ := Prod.mk.inj eq
      exact .array (.elements_ws ws (elements _ _ _ found))
  split at h
  · -- an object
    rename_i brace
    subst brace
    rw [e]
    split at h
    · rename_i closed
      obtain ⟨t, e'⟩ := at_byte_iff.mp closed
      obtain ⟨rfl, rfl⟩ := Prod.mk.inj (Except.ok.inj h)
      refine .emptyObject ?_
      rw [e'] at ws
      rw [skip_rest, e']
      exact ws
    · obtain ⟨⟨fields, o⟩, found, eq⟩ := except_map_ok h
      obtain ⟨rfl, rfl⟩ := Prod.mk.inj eq
      obtain ⟨ms, text, rfl⟩ := members _ _ _ _ found
      exact .object (.members_ws ws text)
  split at h
  · obtain ⟨e', rfl⟩ := jpLiteral_ok h
    rw [e']
    exact .trueLit
  split at h
  · obtain ⟨e', rfl⟩ := jpLiteral_ok h
    rw [e']
    exact .falseLit
  split at h
  · obtain ⟨e', rfl⟩ := jpLiteral_ok h
    rw [e']
    exact .nullLit
  split at h
  · obtain ⟨⟨x, o⟩, found, eq⟩ := except_map_ok h
    obtain ⟨rfl, rfl⟩ := Prod.mk.inj eq
    exact .number (jpParseNumber_ok found)
  · cases h

lemma jpArrayLoop_step {fuel : Nat} (value : SoundValue ν fuel) (elements : SoundElements ν fuel) :
    SoundElements ν (fuel + 1) := by
  intro p q vs h
  rw [jpArrayLoop] at h
  split at h
  · cases h
  rename_i v p₁ found
  obtain ⟨s, ws, text⟩ := value _ _ _ found
  have ws := (ws_jpSkipWs p).trans ws
  have ws' := ws_jpSkipWs p₁
  dsimp only at h
  split at h
  · cases h
  rename_i c t e
  rw [e] at ws'
  split at h
  · rename_i closed
    subst closed
    obtain ⟨rfl, rfl⟩ := Prod.mk.inj (Except.ok.inj h)
    refine .lastElement ws text ?_
    rw [skip_rest, e]
    exact ws'
  split at h
  · rename_i more
    subst more
    obtain ⟨⟨ws₂, o⟩, rest, eq⟩ := except_map_ok h
    obtain ⟨rfl, rfl⟩ := Prod.mk.inj eq
    have rest := elements _ _ _ rest
    rw [skip_rest, e] at rest
    exact .element ws text ws' rest
  · cases h

lemma jpObjectLoop_step {fuel : Nat} (value : SoundValue ν fuel) (members : SoundMembers ν fuel) :
    SoundMembers ν (fuel + 1) := by
  intro p q m fields h
  rw [jpObjectLoop] at h
  dsimp only at h
  split at h
  · cases h
  have ws := ws_jpSkipWs p
  split at h
  · cases h
  rename_i key p₁ name
  obtain ⟨s₁, e₁, chars⟩ := jpParseString_ok name
  rw [e₁] at ws
  have ws₁ := ws_jpSkipWs p₁
  split at h
  · cases h
  rename_i sep
  rw [Bool.not_eq_true', Bool.not_eq_false] at sep
  obtain ⟨s₃, e₃⟩ := at_byte_iff.mp sep
  rw [e₃] at ws₁
  split at h
  · cases h
  rename_i v p₂ found
  obtain ⟨s₄, ws₂, text⟩ := value _ _ _ found
  have ws₂ := (ws_jpSkipWs ((jpSkipWs p₁).skip 1)).trans ws₂
  rw [skip_rest, e₃] at ws₂
  have ws₃ := ws_jpSkipWs p₂
  split at h
  · cases h
  rename_i c t e
  rw [e] at ws₃
  split at h
  · rename_i closed
    subst closed
    obtain ⟨rfl, rfl⟩ := Prod.mk.inj (Except.ok.inj h)
    refine ⟨[(key, v)], .lastMember ws chars ws₁ ws₂ text ?_, rfl⟩
    rw [skip_rest, e]
    exact ws₃
  split at h
  · rename_i more
    subst more
    obtain ⟨ms, rest, rfl⟩ := members _ _ _ _ h
    rw [skip_rest, e] at rest
    exact ⟨(key, v) :: ms, .member ws chars ws₁ ws₂ text ws₃ rest, rfl⟩
  · cases h

/-- Whatever the parser finds is there. -/
lemma jpParse_sound (fuel : Nat) : SoundValue ν fuel ∧ SoundElements ν fuel ∧ SoundMembers ν fuel := by
  induction fuel with
  | zero => exact ⟨nofun, nofun, nofun⟩
  | succ fuel ih =>
    obtain ⟨value, elements, members⟩ := ih
    exact ⟨jpParseValue_step elements members, jpArrayLoop_step value elements,
      jpObjectLoop_step value members⟩

/-! ### Fuel -/

lemma lax_shrinks : (lax : Dialect ν).Shrinks where
  string _ _ _ h := h.length_le
  number _ _ _ h := by
    obtain ⟨l, -, number, -, -⟩ := h
    exact number.length_lt

lemma except_map_fuel {α β : Type} {m : Except JError α} {f : α → β} (h : m ≠ .error .fuel) :
    m.map f ≠ .error .fuel := by
  cases m with
  | error e =>
    intro eq
    cases eq
    exact h rfl
  | ok a => nofun

/-- What a value leaves is shorter. -/
lemma jpParseValue_length {fuel : Nat} {p q : JParser} {v : Json ν} (h : jpParseValue fuel p = .ok (v, q)) :
    q.rest.length < p.rest.length := by
  obtain ⟨s, ws, text⟩ := (jpParse_sound fuel).1 _ _ _ h
  exact Nat.lt_of_lt_of_le (text.length_lt lax_shrinks) ws.length_le

/-- The fuel is enough for what is left of the source. -/
structure Fueled (ν : Type) [F64 ν] (fuel : Nat) : Prop where
  value : ∀ p : JParser, 2 * p.rest.length < fuel → jpParseValue (ν := ν) fuel p ≠ .error .fuel
  elements : ∀ p : JParser, 2 * p.rest.length + 1 < fuel → jpArrayLoop (ν := ν) fuel p ≠ .error .fuel
  members : ∀ (p : JParser) (m : List (Str × Json ν)), 2 * p.rest.length + 1 < fuel →
    jpObjectLoop fuel p m ≠ .error .fuel

omit [F64 ν] in
lemma jpLiteral_fuel {p : JParser} {lit : Str} {v : Json ν} : jpLiteral p lit v ≠ .error .fuel := by
  unfold jpLiteral
  split
  · nofun
  · exact jpError_fuel

/-- Behind a byte there is less left than before the white space in front of it. -/
lemma skip_length {p : JParser} {c : UInt8} {s : Bytes} (e : (jpSkipWs p).rest = c :: s) :
    ((jpSkipWs p).skip 1).rest.length < p.rest.length := by
  have le := (ws_jpSkipWs p).length_le
  rw [e, List.length_cons] at le
  rw [skip_rest, e]
  exact le

lemma jpParseValue_fuel {fuel : Nat} (ih : Fueled ν fuel) {p : JParser} (enough : 2 * p.rest.length < fuel + 1) :
    jpParseValue (ν := ν) (fuel + 1) p ≠ .error .fuel := by
  rw [jpParseValue]
  dsimp only
  split
  · exact jpError_fuel
  rename_i c s e
  have behind := skip_length e
  have inside := (ws_jpSkipWs ((jpSkipWs p).skip 1)).length_le
  split
  · exact except_map_fuel jpParseString_fuel
  split
  · split
    · nofun
    · exact except_map_fuel (ih.elements _ (by omega))
  split
  · split
    · nofun
    · exact except_map_fuel (ih.members _ _ (by omega))
  split
  · exact jpLiteral_fuel
  split
  · exact jpLiteral_fuel
  split
  · exact jpLiteral_fuel
  split
  · exact except_map_fuel jpParseNumber_fuel
  · exact jpError_fuel

lemma jpArrayLoop_fuel {fuel : Nat} (ih : Fueled ν fuel) {p : JParser}
    (enough : 2 * p.rest.length + 1 < fuel + 1) : jpArrayLoop (ν := ν) (fuel + 1) p ≠ .error .fuel := by
  have ws := (ws_jpSkipWs p).length_le
  rw [jpArrayLoop]
  split
  · rename_i e failed
    intro h
    cases h
    exact ih.value _ (by omega) failed
  · rename_i v q found
    have shorter := jpParseValue_length found
    dsimp only
    split
    · exact jpError_fuel
    rename_i c s e
    have behind := skip_length e
    split
    · nofun
    split
    · exact except_map_fuel (ih.elements _ (by omega))
    · exact jpError_fuel

lemma jpObjectLoop_fuel {fuel : Nat} (ih : Fueled ν fuel) {p : JParser} {m : List (Str × Json ν)}
    (enough : 2 * p.rest.length + 1 < fuel + 1) : jpObjectLoop (fuel + 1) p m ≠ .error .fuel := by
  have ws := (ws_jpSkipWs p).length_le
  rw [jpObjectLoop]
  dsimp only
  split
  · exact jpError_fuel
  split
  · rename_i e failed
    intro h
    cases h
    exact jpParseString_fuel failed
  rename_i key q name
  obtain ⟨s, e, chars⟩ := jpParseString_ok name
  have len := chars.length_le
  rw [e, List.length_cons] at ws
  split
  · exact jpError_fuel
  rename_i sep
  rw [Bool.not_eq_true', Bool.not_eq_false] at sep
  obtain ⟨s₁, e₁⟩ := at_byte_iff.mp sep
  have behind := skip_length e₁
  have ws₁ := (ws_jpSkipWs ((jpSkipWs q).skip 1)).length_le
  split
  · rename_i e failed
    intro h
    cases h
    exact ih.value _ (by omega) failed
  · rename_i v o found
    have shorter := jpParseValue_length found
    split
    · exact jpError_fuel
    rename_i c t e₂
    have behind' := skip_length e₂
    split
    · nofun
    split
    · exact ih.members _ _ (by omega)
    · exact jpError_fuel

lemma fueled (fuel : Nat) : Fueled ν fuel := by
  induction fuel with
  | zero => exact ⟨nofun, nofun, nofun⟩
  | succ fuel ih =>
    exact ⟨fun _ => jpParseValue_fuel ih, fun _ => jpArrayLoop_fuel ih, fun _ _ => jpObjectLoop_fuel ih⟩

/-! ### Completeness -/

/-- The parser takes the strings of a dialect `D`, and its numbers when what follows is `Okay` unless it
`Refuses` some; what it takes is a text of the dialect `D'`. -/
structure Taken (D D' : Dialect ν) (Okay : Bytes → Prop) (Refuses : Prop) : Prop where
  string : ∀ s b r, D.string s b r → LaxChars s b r ∧ D'.string s b r
  number : ∀ s x r, Okay r → D.number s x r → ∀ p : JParser, p.rest = s →
    (∃ q, jpParseNumber p = .ok (x, q) ∧ q.rest = r ∧ D'.number s x r) ∨
      Refuses ∧ ∃ msg, jpParseNumber p = (.error (.text msg) : Except JError (ν × JParser))
  signed : D.Signed
  shrinks : D.Shrinks
  delimited : ∀ r, Delimited r → Okay r

/-- A parser function succeeds with a value, in front of `r`, or raises an error if it `Refuses` anything. -/
def Ends {α : Type} (Refuses : Prop) (m : Except JError (α × JParser)) (a : α) (r : Bytes) (text : Prop) :
    Prop :=
  (∃ q, m = .ok (a, q) ∧ q.rest = r ∧ text) ∨ Refuses ∧ ∃ msg, m = .error (.text msg)

lemma Ends.map {α β : Type} {Refuses : Prop} {m : Except JError (α × JParser)} {a : α} {b : β} {r : Bytes}
    {text text' : Prop} {f : α → β} (h : Ends Refuses m a r text) (hf : f a = b) (ht : text → text') :
    Ends Refuses (m.map fun x => (f x.1, x.2)) b r text' := by
  obtain ⟨q, rfl, rest, t⟩ | ⟨refuses, msg, rfl⟩ := h
  · exact .inl ⟨q, by rw [← hf]; rfl, rest, ht t⟩
  · exact .inr ⟨refuses, msg, rfl⟩

/-- What the parser is to make of an item. -/
def Parses (D' : Dialect ν) (Okay : Bytes → Prop) (Refuses : Prop) (s : Bytes) (i : Item ν) (r : Bytes) : Prop :=
  match i with
  | .value v => Okay r → ∀ (p : JParser) (fuel : Nat), Ws p.rest s → 2 * p.rest.length < fuel →
      Ends Refuses (jpParseValue fuel p) v r (Text D' s (.value v) r)
  | .elements vs => ∀ (p : JParser) (fuel : Nat), Ws s p.rest → 2 * p.rest.length + 1 < fuel →
      Ends Refuses (jpArrayLoop fuel p) vs r (Text D' s (.elements vs) r)
  | .members ms => ∀ (p : JParser) (fuel : Nat) (m : List (Str × Json ν)), Ws s p.rest →
      2 * p.rest.length + 1 < fuel →
      Ends Refuses (jpObjectLoop fuel p m) (ms.foldl (fun m e => OrderedMap.insert m e.1 e.2) m) r
        (Text D' s (.members ms) r)

section Dispatch

variable {p : JParser} {fuel : Nat} {s t r : Bytes} {b : UInt8}

/-! Which branch of `jp_parse_value` a byte selects. -/

lemma jpParseValue_string (e : (jpSkipWs p).rest = quote :: t) : jpParseValue (ν := ν) (fuel + 1) p =
    (jpParseString (jpSkipWs p)).map fun x => (.string x.1, x.2) := by
  rw [jpParseValue]
  dsimp only
  rw [e]
  rfl

lemma jpParseValue_array (e : (jpSkipWs p).rest = openBracket :: t) : jpParseValue (ν := ν) (fuel + 1) p =
    let p := jpSkipWs ((jpSkipWs p).skip 1)
    if p.at? (· == closeBracket) then .ok (.array [], p.skip 1)
    else (jpArrayLoop fuel p).map fun x => (.array x.1, x.2) := by
  rw [jpParseValue]
  dsimp only
  rw [e]
  rfl

lemma jpParseValue_object (e : (jpSkipWs p).rest = openBrace :: t) : jpParseValue (ν := ν) (fuel + 1) p =
    let p := jpSkipWs ((jpSkipWs p).skip 1)
    if p.at? (· == closeBrace) then .ok (.object [], p.skip 1)
    else (jpObjectLoop fuel p []).map fun x => (.object x.1, x.2) := by
  rw [jpParseValue]
  dsimp only
  rw [e]
  rfl

lemma jpParseValue_number (e : (jpSkipWs p).rest = b :: t) (start : b = minus ∨ isDigit b = true) :
    jpParseValue (ν := ν) (fuel + 1) p = (jpParseNumber (jpSkipWs p)).map fun x => (.number x.1, x.2) := by
  have other (c : UInt8) (hc : (c = minus ∨ isDigit c = true) = False) : b ≠ c := by
    rintro rfl
    exact hc ▸ start
  rw [jpParseValue]
  dsimp only
  rw [e]
  dsimp only
  rw [if_neg (other _ (by decide)), if_neg (other _ (by decide)), if_neg (other _ (by decide)),
    if_neg (other _ (by decide)), if_neg (other _ (by decide)), if_neg (other _ (by decide)), if_pos start]

omit [F64 ν] in
lemma jpLiteral_of {q : JParser} {lit : Str} {v : Json ν} (e : q.rest = lit ++ r) :
    ∃ o, jpLiteral q lit v = .ok (v, o) ∧ o.rest = r := by
  have found : q.rest.take lit.length = lit := by rw [e, List.take_left]
  refine ⟨q.skip lit.length, ?_, by rw [skip_rest, e, List.drop_left]⟩
  rw [jpLiteral, jpMatch, if_pos found]

end Dispatch

section Complete

variable {D D' : Dialect ν} {Okay : Bytes → Prop} {Refuses : Prop}

omit [F64 ν] in
/-- White space in front of a value is skipped just up to it. -/
lemma skipWs_value (hD : D.Signed) {p : JParser} {s r : Bytes} {v : Json ν} (ws : Ws p.rest s)
    (text : Text D s (.value v) r) : (jpSkipWs p).rest = s := by
  obtain ⟨b, t, rfl, start⟩ := text.head hD
  exact jpSkipWs_byte ws (startsValue_black start).1

/-- Fuel for a text is fuel for what is left of it. -/
lemma enough_behind {p : JParser} {fuel : Nat} {s : Bytes} {b : UInt8} (enough : 2 * p.rest.length < fuel + 1)
    (ws : Ws p.rest (b :: s)) : 2 * s.length + 1 < fuel := by
  have le := ws.length_le
  rw [List.length_cons] at le
  omega

/-- A byte at hand that is not the one looked for. -/
lemma at_other {p : JParser} {b c : UInt8} {s : Bytes} (e : p.rest = b :: s) (ne : b ≠ c) :
    p.at? (· == c) = false := by
  refine at_false_iff.mpr fun _ x t e' => ?_
  obtain ⟨rfl, -⟩ := List.cons.inj (e.symm.trans e')
  simpa using ne

lemma parses_number (taken : Taken D D' Okay Refuses) {s r : Bytes} {x : ν} (numeral : D.number s x r) :
    Parses D' Okay Refuses s (.value (.number x)) r := by
  intro okay p fuel ws enough
  obtain ⟨fuel, rfl⟩ := Nat.exists_eq_succ_of_ne_zero (Nat.ne_zero_of_lt enough)
  obtain ⟨b, t, rfl, start⟩ := taken.signed _ _ _ numeral
  have e := skipWs_value taken.signed ws (.number numeral)
  rw [jpParseValue_number e start]
  obtain ⟨q, done, rest, numeral'⟩ | ⟨refuses, msg, failed⟩ := taken.number _ _ _ okay numeral _ e
  · exact .inl ⟨q, by rw [done]; rfl, rest, .number numeral'⟩
  · exact .inr ⟨refuses, msg, by rw [failed]; rfl⟩

lemma parses_string (taken : Taken D D' Okay Refuses) {s b r : Bytes} (chars : D.string s b r) :
    Parses D' Okay Refuses (quote :: s) (.value (.string b)) r := by
  intro okay p fuel ws enough
  obtain ⟨fuel, rfl⟩ := Nat.exists_eq_succ_of_ne_zero (Nat.ne_zero_of_lt enough)
  have e : (jpSkipWs p).rest = quote :: s := jpSkipWs_byte ws rfl
  obtain ⟨chars, chars'⟩ := taken.string _ _ _ chars
  obtain ⟨q, done, rest⟩ := jpParseString_of e chars
  rw [jpParseValue_string e]
  exact .inl ⟨q, by rw [done]; rfl, rest, .string chars'⟩

omit [F64 ν] in
/-- Elements begin with a value. -/
lemma elements_head (hD : D.Signed) {s r : Bytes} {vs : List (Json ν)} (h : Text D s (.elements vs) r) :
    ∃ b t, Ws s (b :: t) ∧ startsValue b = true := by
  cases h with
  | lastElement ws value ws' =>
    obtain ⟨b, t, rfl, start⟩ := value.head hD
    exact ⟨b, t, ws, start⟩
  | element ws value ws' rest =>
    obtain ⟨b, t, rfl, start⟩ := value.head hD
    exact ⟨b, t, ws, start⟩

lemma parses_array (taken : Taken D D' Okay Refuses) {s r : Bytes} {vs : List (Json ν)}
    (text : Text D s (.elements vs) r) (ih : Parses D' Okay Refuses s (.elements vs) r) :
    Parses D' Okay Refuses (openBracket :: s) (.value (.array vs)) r := by
  intro okay p fuel ws enough
  obtain ⟨fuel, rfl⟩ := Nat.exists_eq_succ_of_ne_zero (Nat.ne_zero_of_lt enough)
  have e : (jpSkipWs p).rest = openBracket :: s := jpSkipWs_byte ws rfl
  have enough' := enough_behind enough ws
  have behind : ((jpSkipWs p).skip 1).rest = s := by rw [skip_rest, e]; rfl
  have ws' := ws_jpSkipWs ((jpSkipWs p).skip 1)
  rw [behind] at ws'
  have le := ws'.length_le
  obtain ⟨b, t, ws₁, start⟩ := elements_head taken.signed text
  obtain ⟨black, ne⟩ := startsValue_black start
  have first := jpSkipWs_byte (p := (jpSkipWs p).skip 1) (behind.symm ▸ ws₁) black
  rw [jpParseValue_array e]
  dsimp only
  rw [at_other first ne]
  exact (ih _ fuel ws' (by omega)).map rfl .array

lemma parses_emptyArray {s r : Bytes} (ws₁ : Ws s (closeBracket :: r)) :
    Parses D' Okay Refuses (openBracket :: s) (.value (.array [])) r := by
  intro okay p fuel ws enough
  obtain ⟨fuel, rfl⟩ := Nat.exists_eq_succ_of_ne_zero (Nat.ne_zero_of_lt enough)
  have e : (jpSkipWs p).rest = openBracket :: s := jpSkipWs_byte ws rfl
  have behind : ((jpSkipWs p).skip 1).rest = s := by rw [skip_rest, e]; rfl
  have first := jpSkipWs_byte (p := (jpSkipWs p).skip 1) (behind.symm ▸ ws₁) rfl
  rw [jpParseValue_array e]
  dsimp only
  rw [at_byte_iff.mpr ⟨r, first⟩]
  exact .inl ⟨_, rfl, by rw [skip_rest, first]; rfl, .emptyArray ws₁⟩

omit [F64 ν] in
/-- Members begin with a name. -/
lemma members_head {s r : Bytes} {ms : List (Bytes × Json ν)} (h : Text D s (.members ms) r) :
    ∃ t, Ws s (quote :: t) := by
  cases h with
  | lastMember ws name ws₁ ws₂ value ws₃ => exact ⟨_, ws⟩
  | member ws name ws₁ ws₂ value ws₃ rest => exact ⟨_, ws⟩

lemma parses_object {s r : Bytes} {ms : List (Bytes × Json ν)} (text : Text D s (.members ms) r)
    (ih : Parses D' Okay Refuses s (.members ms) r) :
    Parses D' Okay Refuses (openBrace :: s) (.value (.object (ofMembers ms))) r := by
  intro okay p fuel ws enough
  obtain ⟨fuel, rfl⟩ := Nat.exists_eq_succ_of_ne_zero (Nat.ne_zero_of_lt enough)
  have e : (jpSkipWs p).rest = openBrace :: s := jpSkipWs_byte ws rfl
  have enough' := enough_behind enough ws
  have behind : ((jpSkipWs p).skip 1).rest = s := by rw [skip_rest, e]; rfl
  have ws' := ws_jpSkipWs ((jpSkipWs p).skip 1)
  rw [behind] at ws'
  have le := ws'.length_le
  obtain ⟨t, ws₁⟩ := members_head text
  have first := jpSkipWs_byte (p := (jpSkipWs p).skip 1) (behind.symm ▸ ws₁) rfl
  rw [jpParseValue_object e]
  dsimp only
  rw [at_other first (by decide)]
  exact (ih _ fuel [] ws' (by omega)).map rfl .object

lemma parses_emptyObject {s r : Bytes} (ws₁ : Ws s (closeBrace :: r)) :
    Parses D' Okay Refuses (openBrace :: s) (.value (.object [])) r := by
  intro okay p fuel ws enough
  obtain ⟨fuel, rfl⟩ := Nat.exists_eq_succ_of_ne_zero (Nat.ne_zero_of_lt enough)
  have e : (jpSkipWs p).rest = openBrace :: s := jpSkipWs_byte ws rfl
  have behind : ((jpSkipWs p).skip 1).rest = s := by rw [skip_rest, e]; rfl
  have first := jpSkipWs_byte (p := (jpSkipWs p).skip 1) (behind.symm ▸ ws₁) rfl
  rw [jpParseValue_object e]
  dsimp only
  rw [at_byte_iff.mpr ⟨r, first⟩]
  exact .inl ⟨_, rfl, by rw [skip_rest, first]; rfl, .emptyObject ws₁⟩

/-- A literal, which its first byte selects. -/
lemma parses_literal {lit r : Bytes} {v : Json ν} (black : isWs (lit.headD 32) = false)
    (text : Text D' (lit ++ r) (.value v) r)
    (select : ∀ p fuel, (jpSkipWs p).rest = lit ++ r →
      jpParseValue (ν := ν) (fuel + 1) p = jpLiteral (jpSkipWs p) lit v) :
    Parses D' Okay Refuses (lit ++ r) (.value v) r := by
  intro okay p fuel ws enough
  obtain ⟨fuel, rfl⟩ := Nat.exists_eq_succ_of_ne_zero (Nat.ne_zero_of_lt enough)
  have e : (jpSkipWs p).rest = lit ++ r := by
    cases lit with
    | nil => cases black
    | cons b t => exact jpSkipWs_byte ws black
  obtain ⟨o, done, rest⟩ := jpLiteral_of (v := v) e
  rw [select p fuel e, done]
  exact .inl ⟨o, rfl, rest, text⟩

omit [F64 ν] in
/-- White space goes up to the value. -/
lemma ws_value (hD : D.Signed) {s s' s₁ s₂ : Bytes} {v : Json ν} (ws : Ws s s₁)
    (text : Text D s₁ (.value v) s₂) (ws₀ : Ws s s') : Ws s' s₁ := by
  refine ws.within ws₀ fun b u e => ?_
  obtain ⟨b', u', e', start⟩ := text.head hD
  obtain ⟨rfl, -⟩ := List.cons.inj (e.symm.trans e')
  exact (startsValue_black start).1

/-- A value between white space, up to what separates it from the next. -/
lemma parses_inside (taken : Taken D D' Okay Refuses) {s s₁ s₂ t : Bytes} {c : UInt8} {v : Json ν} (ws : Ws s s₁)
    (text : Text D s₁ (.value v) s₂) (ih : Parses D' Okay Refuses s₁ (.value v) s₂) (ws' : Ws s₂ (c :: t))
    (sep : c = comma ∨ c = closeBracket ∨ c = closeBrace) (p : JParser) (fuel : Nat) (ws₀ : Ws s p.rest)
    (enough : 2 * p.rest.length < fuel) :
    Ends Refuses (jpParseValue fuel (jpSkipWs p)) v s₂ (Text D' s₁ (.value v) s₂) := by
  have okay : Delimited s₂ := by
    refine ws'.delimited fun b u e => ?_
    obtain ⟨rfl, -⟩ := List.cons.inj e
    exact .inr sep
  have skip := ws_jpSkipWs p
  have le := skip.length_le
  exact ih (taken.delimited _ okay) _ _ (ws_value taken.signed ws text (ws₀.trans skip)) (by omega)

lemma parses_lastElement (taken : Taken D D' Okay Refuses) {s s₁ s₂ r : Bytes} {v : Json ν} (ws : Ws s s₁)
    (text : Text D s₁ (.value v) s₂) (ih : Parses D' Okay Refuses s₁ (.value v) s₂)
    (ws' : Ws s₂ (closeBracket :: r)) : Parses D' Okay Refuses s (.elements [v]) r := by
  intro p fuel ws₀ enough
  obtain ⟨fuel, rfl⟩ := Nat.exists_eq_succ_of_ne_zero (Nat.ne_zero_of_lt enough)
  have value := parses_inside taken ws text ih ws' (.inr (.inl rfl)) p fuel ws₀ (Nat.lt_of_succ_lt_succ enough)
  rw [jpArrayLoop]
  obtain ⟨q, done, rfl, text'⟩ | ⟨refuses, msg, failed⟩ := value
  · have next := jpSkipWs_byte ws' rfl
    refine .inl ⟨(jpSkipWs q).skip 1, ?_, by rw [skip_rest, next]; rfl, .lastElement ws text' ws'⟩
    rw [done]
    dsimp only
    rw [next]
    rfl
  · exact .inr ⟨refuses, msg, by rw [failed]⟩

lemma parses_element (taken : Taken D D' Okay Refuses) {s s₁ s₂ s₃ r : Bytes} {v : Json ν} {vs : List (Json ν)}
    (ws : Ws s s₁) (text : Text D s₁ (.value v) s₂) (ih : Parses D' Okay Refuses s₁ (.value v) s₂)
    (ws' : Ws s₂ (comma :: s₃)) (ih' : Parses D' Okay Refuses s₃ (.elements vs) r) :
    Parses D' Okay Refuses s (.elements (v :: vs)) r := by
  intro p fuel ws₀ enough
  obtain ⟨fuel, rfl⟩ := Nat.exists_eq_succ_of_ne_zero (Nat.ne_zero_of_lt enough)
  have value := parses_inside taken ws text ih ws' (.inl rfl) p fuel ws₀ (Nat.lt_of_succ_lt_succ enough)
  rw [jpArrayLoop]
  obtain ⟨q, done, rfl, text'⟩ | ⟨refuses, msg, failed⟩ := value
  · have next := jpSkipWs_byte ws' rfl
    have behind : ((jpSkipWs q).skip 1).rest = s₃ := by rw [skip_rest, next]; rfl
    have fits : 2 * s₃.length + 1 < fuel := by
      have le := (ws_value taken.signed ws text ws₀).length_le
      have lt := text.length_lt taken.shrinks
      have le' := ws'.length_le
      rw [List.length_cons] at le'
      omega
    rw [done]
    dsimp only
    rw [next]
    change Ends Refuses ((jpArrayLoop fuel ((jpSkipWs q).skip 1)).map fun x => (v :: x.1, x.2)) _ _ _
    refine (ih' _ fuel (behind ▸ .nil) (by rwa [behind])).map rfl fun rest => ?_
    exact .element ws text' ws' rest
  · exact .inr ⟨refuses, msg, by rw [failed]⟩

section Members

variable {s s₁ s₂ s₃ s₄ s₅ k r : Bytes} {v : Json ν}

/-- The name of a member and the separator behind it, and then its value. -/
lemma parses_name (taken : Taken D D' Okay Refuses) (ws : Ws s (quote :: s₁)) (name : D.string s₁ k s₂)
    (ws₁ : Ws s₂ (colon :: s₃)) {p : JParser} (ws₀ : Ws s p.rest) :
    (jpSkipWs p).at? (· == quote) = true ∧ ∃ q, jpParseString (jpSkipWs p) = .ok (k, q) ∧
      (jpSkipWs q).at? (· == colon) = true ∧ ((jpSkipWs q).skip 1).rest = s₃ := by
  have first : (jpSkipWs p).rest = quote :: s₁ := by
    refine jpSkipWs_byte (ws.within ws₀ fun b u e => ?_) rfl
    obtain ⟨rfl, -⟩ := List.cons.inj e
    rfl
  obtain ⟨q, done, rfl⟩ := jpParseString_of first (taken.string _ _ _ name).1
  have next := jpSkipWs_byte ws₁ rfl
  refine ⟨at_byte_iff.mpr ⟨_, first⟩, q, done, at_byte_iff.mpr ⟨_, next⟩, ?_⟩
  rw [skip_rest, next]
  rfl

/-- A name takes up space, and so do the bytes around it. -/
lemma name_length (taken : Taken D D' Okay Refuses) (ws : Ws s (quote :: s₁)) (name : D.string s₁ k s₂)
    (ws₁ : Ws s₂ (colon :: s₃)) {p : JParser} (ws₀ : Ws s p.rest) : s₃.length + 1 < p.rest.length := by
  have first : Ws p.rest (quote :: s₁) := by
    refine ws.within ws₀ fun b u e => ?_
    obtain ⟨rfl, -⟩ := List.cons.inj e
    rfl
  have le := first.length_le
  have le₁ := taken.shrinks.string _ _ _ name
  have le₂ := ws₁.length_le
  rw [List.length_cons] at le le₂
  omega

lemma parses_lastMember (taken : Taken D D' Okay Refuses) (ws : Ws s (quote :: s₁)) (name : D.string s₁ k s₂)
    (ws₁ : Ws s₂ (colon :: s₃)) (ws₂ : Ws s₃ s₄) (text : Text D s₄ (.value v) s₅)
    (ih : Parses D' Okay Refuses s₄ (.value v) s₅) (ws₃ : Ws s₅ (closeBrace :: r)) :
    Parses D' Okay Refuses s (.members [(k, v)]) r := by
  intro p fuel m ws₀ enough
  obtain ⟨fuel, rfl⟩ := Nat.exists_eq_succ_of_ne_zero (Nat.ne_zero_of_lt enough)
  obtain ⟨start, q, done, sep, behind⟩ := parses_name taken ws name ws₁ ws₀
  have len := name_length taken ws name ws₁ ws₀
  have value := parses_inside taken ws₂ text ih ws₃ (.inr (.inr rfl)) ((jpSkipWs q).skip 1) fuel
    (behind ▸ .nil) (by rw [behind]; omega)
  rw [jpObjectLoop]
  dsimp only
  rw [start, done]
  dsimp only
  rw [sep]
  obtain ⟨o, done', rfl, text'⟩ | ⟨refuses, msg, failed⟩ := value
  · have next := jpSkipWs_byte ws₃ rfl
    refine .inl ⟨(jpSkipWs o).skip 1, ?_, by rw [skip_rest, next]; rfl,
      .lastMember ws (taken.string _ _ _ name).2 ws₁ ws₂ text' ws₃⟩
    rw [done']
    dsimp only
    rw [next]
    rfl
  · exact .inr ⟨refuses, msg, by rw [failed]; rfl⟩

lemma parses_member (taken : Taken D D' Okay Refuses) {s₆ : Bytes} {ms : List (Bytes × Json ν)}
    (ws : Ws s (quote :: s₁)) (name : D.string s₁ k s₂) (ws₁ : Ws s₂ (colon :: s₃)) (ws₂ : Ws s₃ s₄)
    (text : Text D s₄ (.value v) s₅) (ih : Parses D' Okay Refuses s₄ (.value v) s₅) (ws₃ : Ws s₅ (comma :: s₆))
    (ih' : Parses D' Okay Refuses s₆ (.members ms) r) : Parses D' Okay Refuses s (.members ((k, v) :: ms)) r := by
  intro p fuel m ws₀ enough
  obtain ⟨fuel, rfl⟩ := Nat.exists_eq_succ_of_ne_zero (Nat.ne_zero_of_lt enough)
  obtain ⟨start, q, done, sep, behind⟩ := parses_name taken ws name ws₁ ws₀
  have len := name_length taken ws name ws₁ ws₀
  have value := parses_inside taken ws₂ text ih ws₃ (.inl rfl) ((jpSkipWs q).skip 1) fuel
    (behind ▸ .nil) (by rw [behind]; omega)
  rw [jpObjectLoop]
  dsimp only
  rw [start, done]
  dsimp only
  rw [sep]
  obtain ⟨o, done', rfl, text'⟩ | ⟨refuses, msg, failed⟩ := value
  · have next := jpSkipWs_byte ws₃ rfl
    have behind' : ((jpSkipWs o).skip 1).rest = s₆ := by rw [skip_rest, next]; rfl
    have fits : 2 * s₆.length + 1 < fuel := by
      have le := ws₂.length_le
      have lt := text.length_lt taken.shrinks
      have le' := ws₃.length_le
      rw [List.length_cons] at le'
      omega
    rw [done']
    dsimp only
    rw [next]
    obtain ⟨o', done'', rest, members⟩ | failed := ih' ((jpSkipWs o).skip 1) fuel
      (OrderedMap.insert m k v) (behind' ▸ .nil) (by rwa [behind'])
    · exact .inl ⟨o', done'', rest, .member ws (taken.string _ _ _ name).2 ws₁ ws₂ text' ws₃ members⟩
    · exact .inr failed
  · exact .inr ⟨refuses, msg, by rw [failed]; rfl⟩

end Members

/-- The parser takes every text of a dialect that it takes the leaves of, but for numerals that it refuses. -/
lemma Text.parses (taken : Taken D D' Okay Refuses) {s r : Bytes} {i : Item ν} (text : Text D s i r) :
    Parses D' Okay Refuses s i r := by
  induction text with
  | nullLit | trueLit | falseLit =>
    refine parses_literal rfl (by constructor) fun p fuel e => ?_
    rw [jpParseValue]
    dsimp only
    rw [e]
    rfl
  | number numeral => exact parses_number taken numeral
  | string chars => exact parses_string taken chars
  | emptyArray ws => exact parses_emptyArray ws
  | array elements ih => exact parses_array taken elements ih
  | emptyObject ws => exact parses_emptyObject ws
  | object members ih => exact parses_object members ih
  | lastElement ws value ws' ih => exact parses_lastElement taken ws value ih ws'
  | element ws value ws' _ ih ih' => exact parses_element taken ws value ih ws' ih'
  | lastMember ws name ws₁ ws₂ value ws₃ ih => exact parses_lastMember taken ws name ws₁ ws₂ value ih ws₃
  | member ws name ws₁ ws₂ value ws₃ _ ih ih' => exact parses_member taken ws name ws₁ ws₂ value ih ws₃ ih'

end Complete

/-- Texts of the dialect of the parser. -/
lemma lax_taken : Taken (lax : Dialect ν) lax (fun _ => True) False where
  string _ _ _ h := ⟨h, h⟩
  number := by
    rintro s x r - ⟨l, rfl, number, short, rfl⟩ p e
    obtain ⟨q, done, rest, -⟩ | ⟨long, -⟩ := jpParseNumber_of (ν := ν) (e.symm ▸ number) e
    · exact .inl ⟨q, done, rest, l, rfl, number, short, rfl⟩
    · exact absurd short long
  signed := by
    rintro s x r ⟨l, -, number, -⟩
    exact number.head
  shrinks := lax_shrinks
  delimited _ _ := trivial

/-! ### The parser as a whole -/

section Whole

variable {t r : Str} {v : Json ν}

/-- What `json_parse` does with the source. -/
def jpRun (ν : Type) [F64 ν] (t : Str) : Except JError (Json ν × JParser) :=
  jpParseValue (2 * t.length + 2) ⟨0, t⟩

lemma jsonParse_ok : jsonParse t = .ok v ↔ ∃ q, jpRun ν t = .ok (v, q) := by
  unfold jsonParse jpRun
  split
  · rename_i w q e
    rw [e]
    simp
  · rename_i msg e
    rw [e]
    simp
  · rename_i e
    rw [e]
    simp

/-- A text that is not parsed raises an error. -/
lemma jsonParse_error (h : ∀ v : Json ν, jsonParse t ≠ .ok v) :
    ∃ msg, jsonParse t = (.error (.text msg) : Except JError (Json ν)) := by
  have enough : jpRun ν t ≠ .error .fuel := (fueled _).value ⟨0, t⟩ (by simp)
  unfold jsonParse at h ⊢
  unfold jpRun at enough
  split
  · rename_i w q e
    simp [e] at h
  · exact ⟨_, rfl⟩
  · rename_i e
    exact absurd e enough

/-- The parser succeeds on the texts that begin with a value of its dialect. -/
lemma begins_iff : Begins lax t v r ↔ ∃ q, jpRun ν t = .ok (v, q) ∧ q.rest = r := by
  constructor
  · rintro ⟨s, ws, text⟩
    obtain ⟨q, done, rest, -⟩ | ⟨refuses, -⟩ := Text.parses lax_taken text trivial ⟨0, t⟩ (2 * t.length + 2) ws
      (by simp)
    · exact ⟨q, done, rest⟩
    · exact refuses.elim
  · rintro ⟨q, done, rfl⟩
    exact (jpParse_sound _).1 _ _ _ done

lemma jsonParse_iff : jsonParse t = .ok v ↔ ∃ r, Begins lax t v r := by
  simp only [jsonParse_ok, begins_iff]
  constructor
  · rintro ⟨q, done⟩
    exact ⟨q.rest, q, done, rfl⟩
  · rintro ⟨r, q, done, -⟩
    exact ⟨q, done⟩

end Whole

end Cando
