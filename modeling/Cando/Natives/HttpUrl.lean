import Cando.Natives.StringSplit

/-!
# The parts of a URL

What `http_parse_url` (`lib/httputil.c`) makes of a URL, against the parts that the URL is written in: a scheme, a host
with an optional port, and what follows them.
-/

namespace Cando

/-- The part of a URL with its port. -/
def portText : Option Str → Str
  | none => []
  | some digits => 58 :: digits

/-- `u` is written `scheme://host[:port]tail`: the first `://` of it ends the scheme, the authority ends at the first
`/`, `?` or `#`, and the host at the first colon of it. -/
structure UrlParts (u scheme host : Str) (port : Option Str) (tail : Str) : Prop where
  text : u = scheme ++ bytes "://" ++ (host ++ portText port ++ tail)
  first : ∀ x y, u = x ++ bytes "://" ++ y → scheme.length ≤ x.length
  host_free : 58 ∉ host
  authority : ∀ b ∈ host ++ portText port, inAuthority b
  ended : ∀ b ∈ tail.head?, inAuthority b = false

/-- A decimal digit. -/
def IsDigit (b : UInt8) : Prop := 48 ≤ b ∧ b ≤ 57

/-- The number that decimal digits are written for. -/
def digitsValue (digits : Str) : Nat := digits.foldl (fun n b => n * 10 + (b.toNat - 48)) 0

/-- The default port of a scheme. -/
def defaultPort (scheme : Str) : Int := if scheme.map toLower = bytes "https" then 443 else 80

/-- The path of what follows the authority: without the fragment, and with a `/` if it has none. -/
def wholePath (tail : Str) : Str :=
  let path := tail.takeWhile (· ≠ 35)
  if path.head? = some 47 then path else 47 :: path

/-- The parts of `u` are in `r`. -/
structure UrlRight (u : Str) (r : HttpUrl) : Prop where
  parts : ∃ scheme host port tail, UrlParts u scheme host port tail
  scheme : ∀ {scheme host port tail}, UrlParts u scheme host port tail → r.scheme = scheme.map toLower
  host : ∀ {scheme host port tail}, UrlParts u scheme host port tail → r.host = host
  port_none : ∀ {scheme host tail}, UrlParts u scheme host none tail → r.port = defaultPort scheme
  port_some : ∀ {scheme host digits tail}, UrlParts u scheme host (some digits) tail →
    digits ≠ [] ∧ (∀ b ∈ digits, IsDigit b) ∧ 1 ≤ digitsValue digits ∧ digitsValue digits ≤ 65535 ∧
      r.port = digitsValue digits
  path : ∀ {scheme host port tail}, UrlParts u scheme host port tail → r.path = wholePath tail

/-- The lengths and the port with which `http_parse_url` takes the parts of a URL. -/
structure UrlTaken (scheme host : Str) (port : Option Str) (tail : Str) : Prop where
  scheme : scheme.map toLower = bytes "http" ∨ scheme.map toLower = bytes "https"
  host : 0 < host.length ∧ host.length < 256
  port : ∀ digits ∈ port, 0 < digits.length ∧ digits.length < 8 ∧ 0 < strtolInt digits ∧ strtolInt digits ≤ 65535
  path : (tail.takeWhile (· ≠ 35)).length < 2048

section Parsing

variable {u scheme host tail : Str} {port : Option Str} {r : HttpUrl}

lemma parseAuthority_iff (port : Option Str) {p q : Int} {host' : Str} (free : 58 ∉ host) :
    parseAuthority (host ++ portText port) p = some (host', q) ↔
      (0 < host.length ∧ host.length < 256) ∧
        (∀ digits ∈ port, 0 < digits.length ∧ digits.length < 8 ∧ 0 < strtolInt digits ∧ strtolInt digits ≤ 65535) ∧
        host' = host ∧ q = port.elim p strtolInt := by
  cases port with
  | none =>
    have plain : strchr (host ++ portText none) 58 = none := by
      rw [portText, List.append_nil]
      exact strchr_eq_none.mpr free
    rw [parseAuthority, plain]
    simp only [portText, List.append_nil, Option.elim_none]
    constructor
    · intro h
      split at h
      · cases h
      · cases h
        exact ⟨by omega, by rintro _ ⟨⟩, rfl, rfl⟩
    · rintro ⟨fits, -, rfl, rfl⟩
      exact if_neg (by omega)
  | some digits =>
    have found : strchr (host ++ portText (some digits)) 58 = some (host, digits) :=
      strchr_eq_some.mpr ⟨rfl, free⟩
    rw [parseAuthority, found]
    simp only [Option.elim_some]
    constructor
    · intro h
      split at h
      · cases h
      · split at h
        · cases h
        · cases h
          refine ⟨by omega, ?_, rfl, rfl⟩
          rintro _ ⟨⟩
          exact ⟨by omega, by omega, by omega, by omega⟩
    · rintro ⟨fits, ok, rfl, rfl⟩
      obtain ⟨pos, short, least, most⟩ := ok digits rfl
      rw [if_neg (by omega), if_neg (by omega)]

/-- The authority is what comes before the tail. -/
lemma UrlParts.split (h : UrlParts u scheme host port tail) :
    (host ++ portText port ++ tail).takeWhile inAuthority = host ++ portText port ∧
      (host ++ portText port ++ tail).dropWhile inAuthority = tail := by
  have stops : tail.takeWhile inAuthority = [] ∧ tail.dropWhile inAuthority = tail := by
    cases tail with
    | nil => exact ⟨rfl, rfl⟩
    | cons b tail =>
      have out := h.ended b rfl
      exact ⟨List.takeWhile_cons_of_neg (by simp [out]), List.dropWhile_cons_of_neg (by simp [out])⟩
  rw [List.takeWhile_append_of_pos h.authority, List.dropWhile_append_of_pos h.authority, stops.1, stops.2,
    List.append_nil]
  exact ⟨rfl, rfl⟩

lemma parsePath_iff {path : Str} : parsePath tail = some path ↔
    (tail.takeWhile (· ≠ 35)).length < 2048 ∧ path = if tail = [] then bytes "/" else tail.takeWhile (· ≠ 35) := by
  unfold parsePath
  split
  case isTrue empty =>
    rw [empty, Option.some.injEq]
    exact ⟨fun e => ⟨by decide, e.symm⟩, fun e => e.2.symm⟩
  case isFalse =>
    split
    case isTrue long => exact ⟨by rintro ⟨⟩, fun e => absurd e.1 (Nat.not_lt.mpr long)⟩
    case isFalse short =>
      rw [Option.some.injEq]
      exact ⟨fun e => ⟨Nat.lt_of_not_le short, e.symm⟩, fun e => e.2.symm⟩

/-- What `http_parse_url` makes of the parts. -/
lemma UrlParts.parse_iff (h : UrlParts u scheme host port tail) :
    httpParseUrl u = some r ↔ UrlTaken scheme host port tail ∧ r.scheme = scheme.map toLower ∧ r.host = host ∧
      r.port = port.elim (defaultPort scheme) strtolInt ∧
      r.path = if tail = [] then bytes "/" else tail.takeWhile (· ≠ 35) := by
  have found : strstr (bytes "://") u = some (scheme, host ++ portText port ++ tail) := by
    rw [strstr_eq]
    exact Cut.around_eq h.text h.first
  obtain ⟨authority, rest⟩ := h.split
  simp only [httpParseUrl, found, Option.bind_eq_bind, Option.bind_some, authority, rest]
  constructor
  · intro run
    split at run
    · cases run
    · split at run
      · cases run
      · rename_i known
        obtain ⟨⟨host', p⟩, atHost, run⟩ := Option.bind_eq_some_iff.mp run
        obtain ⟨path, atTail, run⟩ := Option.bind_eq_some_iff.mp run
        obtain ⟨fits, ok, rfl, rfl⟩ := (parseAuthority_iff _ h.host_free).mp atHost
        obtain ⟨short, rfl⟩ := parsePath_iff.mp atTail
        cases run
        have known : scheme.map toLower = bytes "http" ∨ scheme.map toLower = bytes "https" := by tauto
        exact ⟨⟨known, fits, ok, short⟩, rfl, rfl, rfl, rfl⟩
  · rintro ⟨⟨known, fits, ok, short⟩, e₁, e₂, e₃, e₄⟩
    have size : 0 < scheme.length ∧ scheme.length < 8 := by
      rw [← List.length_map toLower]
      rcases known with e | e <;> rw [e] <;> decide
    have known : ¬ (scheme.map toLower ≠ bytes "https" ∧ scheme.map toLower ≠ bytes "http") := by tauto
    have atHost := (parseAuthority_iff port (p := defaultPort scheme) h.host_free).mpr ⟨fits, ok, rfl, rfl⟩
    have atTail := parsePath_iff.mpr ⟨short, rfl⟩
    rw [defaultPort] at atHost
    rw [if_neg (by omega), if_neg known, atHost, Option.bind_some, atTail, Option.bind_some]
    cases r
    cases e₁
    cases e₂
    cases e₃
    cases e₄
    rfl

/-- A URL that `http_parse_url` takes has the parts. -/
lemma exists_parts (h : httpParseUrl u = some r) :
    ∃ scheme host port tail, UrlParts u scheme host port tail := by
  obtain ⟨scheme, rest, found, -⟩ := httpParseUrl_some h
  rw [strstr_eq] at found
  have first := fun x y => @Cut.around_le _ _ _ _ _ _ x y found
  have split := List.takeWhile_append_dropWhile (p := inAuthority) (l := rest)
  have inside : ∀ b ∈ rest.takeWhile inAuthority, inAuthority b := fun b => List.mem_takeWhile_imp
  have ended : ∀ b ∈ (rest.dropWhile inAuthority).head?, inAuthority b = false := by
    intro b mem
    have out := List.head?_dropWhile_not inAuthority rest
    rw [show (rest.dropWhile inAuthority).head? = some b from mem] at out
    simpa using out
  cases colon : strchr (rest.takeWhile inAuthority) 58 with
  | none =>
    refine ⟨scheme, rest.takeWhile inAuthority, none, rest.dropWhile inAuthority, ?_, first, ?_, ?_, ended⟩
    · rw [portText, List.append_nil, split]
      exact Cut.around_some found
    · exact strchr_eq_none.mp colon
    · rwa [portText, List.append_nil]
  | some p =>
    obtain ⟨e, free⟩ := strchr_eq_some.mp colon
    refine ⟨scheme, p.1, some p.2, rest.dropWhile inAuthority, ?_, first, free, ?_, ended⟩
    · rw [portText, ← e, split]
      exact Cut.around_some found
    · rw [portText, ← e]
      exact inside

/-- The number of a text of digits. -/
lemma digitValue_of_digit {b : UInt8} (h : IsDigit b) : digitValue 10 b = some (b.toNat - 48) := by
  obtain ⟨lo, hi⟩ := h
  have lo' : 48 ≤ b.toNat := UInt8.le_iff_toNat_le.mp lo
  have hi' : b.toNat ≤ 57 := UInt8.le_iff_toNat_le.mp hi
  simp only [digitValue, lo, hi, and_self, if_true]
  exact if_pos (by omega)

lemma numeral_digits {digits : Str} (h : ∀ b ∈ digits, IsDigit b) (n : Nat) :
    numeral 10 n digits = digits.foldl (fun n b => n * 10 + (b.toNat - 48)) n := by
  induction digits generalizing n with
  | nil => rfl
  | cons b digits ih =>
    rw [numeral, digitValue_of_digit (h b List.mem_cons_self), List.foldl_cons]
    exact ih (fun b mem => h b (List.mem_cons_of_mem _ mem)) _

lemma foldl_digits_lt {digits : Str} (h : ∀ b ∈ digits, IsDigit b) (n : Nat) :
    digits.foldl (fun n b => n * 10 + (b.toNat - 48)) n < (n + 1) * 10 ^ digits.length := by
  induction digits generalizing n with
  | nil => simp
  | cons b digits ih =>
    have hi : b.toNat ≤ 57 := UInt8.le_iff_toNat_le.mp (h b List.mem_cons_self).2
    have lt := ih (fun b mem => h b (List.mem_cons_of_mem _ mem)) (n * 10 + (b.toNat - 48))
    have pow : (n + 1) * 10 ^ (digits.length + 1) = (n * 10 + 10) * 10 ^ digits.length := by
      rw [Nat.pow_succ, Nat.mul_comm (10 ^ digits.length) 10, ← Nat.mul_assoc, Nat.add_mul, Nat.one_mul]
    rw [List.foldl_cons, List.length_cons, pow]
    exact Nat.lt_of_lt_of_le lt (Nat.mul_le_mul_right _ (by omega))

/-- `strtol` reads a short text of digits. -/
lemma strtolInt_digits {digits : Str} (h : ∀ b ∈ digits, IsDigit b) (short : digits.length < 8) :
    strtolInt digits = digitsValue digits := by
  have first : digits.dropWhile isSpace = digits ∧ takeSign digits = (false, digits) := by
    cases digits with
    | nil => exact ⟨rfl, rfl⟩
    | cons b digits =>
      have digit : 48 ≤ b ∧ b ≤ 57 := h b List.mem_cons_self
      have space : isSpace b = false := by
        rw [isSpace]
        grind
      refine ⟨List.dropWhile_cons_of_neg (by simp [space]), ?_⟩
      rw [takeSign.eq_def]
      split
      · rename_i e
        exact absurd (List.cons.inj e).1 (ne_of_digit digit (by decide))
      · rename_i e
        exact absurd (List.cons.inj e).1 (ne_of_digit digit (by decide))
      · rfl
  have small : digitsValue digits < 10000000 := by
    have lt := foldl_digits_lt h 0
    have le : 10 ^ digits.length ≤ 10 ^ 7 := Nat.pow_le_pow_right (by decide) (by omega)
    unfold digitsValue
    omega
  have value : numeral 10 0 digits = digitsValue digits := numeral_digits h 0
  have long : min 9223372036854775807 (digitsValue digits : Int) = digitsValue digits := by omega
  rw [strtolInt, first.1, first.2]
  simp only [value, Bool.false_eq_true, if_false, long]
  rw [BitVec.toInt_ofInt, Int.bmod_eq_of_le (by omega) (by omega)]

end Parsing

/-! ### When the parts come out right -/

lemma head_wholePath (tail : Str) : (wholePath tail).head? = some 47 := by
  simp only [wholePath]
  split
  case isTrue first => exact first
  case isFalse => rfl

/-- Where `http_parse_url` succeeds, the parts of the URL come out. -/
def UrlCorrect (u : Str) : Prop := ∀ r, httpParseUrl u = some r → UrlRight u r

/-- A `+` and a letter in the port, and a query without a path. -/
theorem httpParseUrl_loose : ¬ UrlCorrect (bytes "http://a:+80x?q") ∧
    httpParseUrl (bytes "http://a:+80x?q") = some ⟨bytes "http", bytes "a", 80, bytes "?q"⟩ := by
  have run : httpParseUrl (bytes "http://a:+80x?q") = some ⟨bytes "http", bytes "a", 80, bytes "?q"⟩ := by
    decide
  refine ⟨fun correct => ?_, run⟩
  obtain ⟨scheme, host, port, tail, parts⟩ := exists_parts run
  have path := (correct _ run).path parts
  have slash := head_wholePath tail
  rw [← path] at slash
  revert slash
  decide

/-- They do exactly if no port that is taken has a byte that is no digit, and what follows the authority begins with a
slash. -/
theorem httpParseUrl_correct_iff (u : Str) :
    UrlCorrect u ↔ ∀ scheme host port tail, UrlParts u scheme host port tail → UrlTaken scheme host port tail →
      (∀ digits ∈ port, ∀ b ∈ digits, IsDigit b) ∧ (tail = [] ∨ tail.head? = some 47) := by
  constructor
  · intro correct scheme host port tail parts taken
    obtain ⟨r, run⟩ : ∃ r, httpParseUrl u = some r := ⟨⟨_, _, _, _⟩, parts.parse_iff.mpr ⟨taken, rfl, rfl, rfl, rfl⟩⟩
    have right := correct r run
    obtain ⟨-, -, -, -, path⟩ := parts.parse_iff.mp run
    constructor
    · rintro digits ⟨⟩
      exact (right.port_some parts).2.1
    · by_contra other
      rw [not_or] at other
      rw [right.path parts, if_neg other.1] at path
      have slash := head_wholePath tail
      rw [path] at slash
      exact other.2 (head_takeWhile slash)
  · intro condition r run
    refine ⟨exists_parts run, fun parts => ?_, fun parts => ?_, fun parts => ?_, fun parts => ?_, fun parts => ?_⟩
    · exact (parts.parse_iff.mp run).2.1
    · exact (parts.parse_iff.mp run).2.2.1
    · exact (parts.parse_iff.mp run).2.2.2.1
    · rename_i scheme host digits tail
      obtain ⟨taken, -, -, port, -⟩ := parts.parse_iff.mp run
      obtain ⟨pos, short, least, most⟩ := taken.port digits rfl
      have allDigits := (condition _ _ _ _ parts taken).1 digits rfl
      have value := strtolInt_digits allDigits short
      rw [Option.elim_some, value] at port
      rw [value] at least most
      exact ⟨List.ne_nil_of_length_pos pos, allDigits, by omega, by omega, port⟩
    · rename_i scheme host port tail
      obtain ⟨taken, -, -, -, path⟩ := parts.parse_iff.mp run
      rw [path]
      rcases (condition _ _ _ _ parts taken).2 with rfl | slash
      · rfl
      · cases tail with
        | nil => cases slash
        | cons b tail =>
          obtain rfl := Option.some.inj slash
          rfl

end Cando
