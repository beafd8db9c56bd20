import Cando.Natives.HttpWrite

/-!
# HTTP requests of the client

What `http.request` and `fetch` put on the connection (`http_do_request_native`, `lib/http.c`), and what
`http_read_request` makes of it.
-/

namespace Cando

open Scan

/-! ### URLs -/

/-- Around the first occurrence of a text: what `strstr` finds. -/
def strstr (needle : Str) : Str → Option (Str × Str)
  | [] => if needle = [] then some ([], []) else none
  | b :: s =>
    if needle.isPrefixOf (b :: s) then some ([], (b :: s).drop needle.length)
    else (strstr needle s).map fun (before, after) => (b :: before, after)

/-- An `HttpUrl`. -/
structure HttpUrl where
  scheme : Str
  host : Str
  port : Int
  path : Str
  deriving DecidableEq, Repr

/-- Not `/`, `?` or `#`. -/
def inAuthority (b : UInt8) : Bool := b ≠ 47 && b ≠ 63 && b ≠ 35

/-- The host of an authority and its port; `port` is that of the scheme. -/
def parseAuthority (authority : Str) (port : Int) : Option (Str × Int) :=
  match strchr authority 58 with
  | none => if authority.length = 0 ∨ authority.length ≥ 256 then none else some (authority, port)
  | some (host, digits) =>
    if host.length = 0 ∨ host.length ≥ 256 ∨ digits.length = 0 ∨ digits.length ≥ 8 then none
    else if strtolInt digits ≤ 0 ∨ strtolInt digits > 65535 then none
    else some (host, strtolInt digits)

/-- The path of what follows the authority. -/
def parsePath (tail : Str) : Option Str :=
  if tail = [] then some (bytes "/")
  else if (tail.takeWhile (· ≠ 35)).length ≥ 2048 then none
  else some (tail.takeWhile (· ≠ 35))

/-- `http_parse_url`, on a C string. -/
def httpParseUrl (url : Str) : Option HttpUrl := do
  let (scheme, rest) ← strstr (bytes "://") url
  if scheme.length = 0 ∨ scheme.length ≥ 8 then none
  else
    let scheme := scheme.map toLower
    if scheme ≠ bytes "https" ∧ scheme ≠ bytes "http" then none
    else
      let (host, port) ← parseAuthority (rest.takeWhile inAuthority) (if scheme = bytes "https" then 443 else 80)
      let path ← parsePath (rest.dropWhile inAuthority)
      return { scheme, host, port, path }

/-! ### The client -/

/-- The options of a request; the value of a header may be no string. -/
structure RequestOptions where
  url : Str
  method : Option Str := none
  headers : List (Str × Option Str) := []
  body : Str := []

namespace RequestOptions

variable (o : RequestOptions)

/-- The checks on the URL, which reject a request. -/
def checkUrl : Option HttpUrl :=
  if o.url = [] ∨ o.url.length ≥ 2600 then none else httpParseUrl (cString o.url)

/-- `has_header_name`. -/
def hasHeaderName (name : String) : Bool := o.headers.any fun h => h.1.map toLower == bytes name

/-- The method, as far as a NUL; an empty one counts as none. -/
def methodText : Str :=
  match o.method with
  | none => bytes "GET"
  | some m => if m = [] then bytes "GET" else cString m

/-- The value of the `Host` field. -/
def hostText (tls : Bool) (url : HttpUrl) : Str :=
  if url.port = (if tls || url.scheme == bytes "https" then 443 else 80) then url.host
  else url.host ++ bytes ":" ++ decimalInt url.port

/-- `append_header_iter`. -/
def appendHeader : Str × Option Str → Str
  | (_, none) => []
  | (name, some value) => name ++ bytes ": " ++ value ++ bytes "\r\n"

/-- The request that `http_do_request_native` builds; `tls` is its `is_tls_hint`. -/
def requestText (tls : Bool) (url : HttpUrl) : Str :=
  o.methodText ++ bytes " " ++ url.path ++ bytes " HTTP/1.1\r\n" ++
    (if o.hasHeaderName "host" then [] else bytes "Host: " ++ hostText tls url ++ bytes "\r\n") ++
    (if o.hasHeaderName "user-agent" then [] else bytes "User-Agent: CanDo/1.0\r\n") ++
    (if o.hasHeaderName "accept" then [] else bytes "Accept: */*\r\n") ++
    (if o.hasHeaderName "connection" then [] else bytes "Connection: close\r\n") ++
    (if o.body.length > 0 ∧ o.hasHeaderName "content-length" = false then
      bytes "Content-Length: " ++ decimal o.body.length ++ bytes "\r\n" else []) ++
    (o.headers.map appendHeader).flatten ++ bytes "\r\n" ++ o.body

/-- `http_do_request_native`, up to the connection: the request that is sent, unless the URL is rejected. -/
def httpDoRequest (tls : Bool) : Option Str := o.checkUrl.map (o.requestText tls)

/-! ### The request that is asked for -/

/-- The path and the query of a URL: what is between its authority and its fragment. An empty path is `/`. -/
def targetOf (url : Str) : Str :=
  match strstr (bytes "://") url with
  | none => []
  | some (_, rest) =>
    let pathQuery := (rest.dropWhile inAuthority).takeWhile (· ≠ 35)
    if pathQuery.head? = some 47 then pathQuery else 47 :: pathQuery

/-- The default headers that are not overridden. -/
def defaults (tls : Bool) (url : HttpUrl) : List HttpHeader :=
  (if o.hasHeaderName "host" then [] else [⟨bytes "host", hostText tls url⟩]) ++
    (if o.hasHeaderName "user-agent" then [] else [⟨bytes "user-agent", bytes "CanDo/1.0"⟩]) ++
    (if o.hasHeaderName "accept" then [] else [⟨bytes "accept", bytes "*/*"⟩]) ++
    (if o.hasHeaderName "connection" then [] else [⟨bytes "connection", bytes "close"⟩]) ++
    (if o.body.length = 0 ∨ o.hasHeaderName "content-length" then []
      else [⟨bytes "content-length", decimal o.body.length⟩])

/-- The headers are these fields: their values are strings. -/
def Given (fields : List HttpHeader) : Prop := o.headers = fields.map fun f => (f.name, some f.value)

/-- A reader gets the request that was asked for. Names of headers are compared in lower case. -/
def ReadFrom (tls : Bool) (url : HttpUrl) (conn : HttpConn) : Prop :=
  ∃ fields version, o.Given fields ∧ httpReadRequest conn =
    some ⟨o.method.getD (bytes "GET"), targetOf o.url, version, o.defaults tls url ++ fields.map HttpHeader.lower,
      o.body⟩

/-- A token of the request line. -/
structure Token (size : Nat) (s : Str) : Prop where
  nul : 0 ∉ s
  space : 32 ∉ s
  crlf : CrlfFree s
  short : s.length < size

/-- What follows the authority of a URL. -/
def afterAuthority (url : Str) : Str := ((strstr (bytes "://") url).map fun p => p.2.dropWhile inAuthority).getD []

/-- The tokens and the headers are clean and not too long, the authority ends at a path or ends the URL, and the
headers do not contradict the framing of the body. -/
structure Sendable (tls : Bool) (url : HttpUrl) : Prop where
  method : ∀ m, o.method = some m → m ≠ [] ∧ Token 16 m
  target : targetOf (cString o.url) = targetOf o.url ∧ 32 ∉ targetOf o.url ∧ CrlfFree (targetOf o.url)
  path : afterAuthority (cString o.url) = [] ∨ (afterAuthority (cString o.url)).head? = some 47
  host : o.hasHeaderName "host" = false → HttpHeader.Clean ⟨bytes "host", hostText tls url⟩
  headers : ∃ fields, o.Given fields ∧ (∀ f ∈ fields, f.Clean ∧ f.line.length < 8192) ∧
    isChunked (httpHeadersGet (fields.map HttpHeader.lower) (bytes "transfer-encoding")) = false ∧
    ∀ v, httpHeadersGet (fields.map HttpHeader.lower) (bytes "content-length") = some v → strtoul 10 v = o.body.length

end RequestOptions

/-! ### URLs and their targets -/

section Urls

variable {needle s t x y url : Str}

/-- What `strstr` finds. -/
lemma strstr_some (h : strstr needle s = some (x, y)) : s = x ++ needle ++ y := by
  induction s generalizing x with
  | nil =>
    rw [strstr] at h
    split at h
    · rename_i empty
      cases h
      rw [empty]
      rfl
    · cases h
  | cons b s ih =>
    rw [strstr] at h
    split at h
    · rename_i here
      cases h
      exact (List.prefix_iff_eq_append.mp (List.isPrefixOf_iff_prefix.mp here)).symm
    · obtain ⟨⟨before, after⟩, later, e⟩ := Option.map_eq_some_iff.mp h
      cases e
      rw [ih later]
      rfl

/-- The first occurrence stays the first when the text goes on. -/
lemma strstr_append (h : strstr needle s = some (x, y)) (t : Str) : strstr needle (s ++ t) = some (x, y ++ t) := by
  induction s generalizing x with
  | nil =>
    rw [strstr] at h
    split at h
    · rename_i empty
      cases h
      subst empty
      cases t <;> rfl
    · cases h
  | cons b s ih =>
    rw [strstr] at h
    rw [List.cons_append, strstr]
    split at h
    · rename_i here
      cases h
      obtain ⟨rest, e⟩ := List.isPrefixOf_iff_prefix.mp here
      have longer : needle.isPrefixOf (b :: (s ++ t)) = true :=
        List.isPrefixOf_iff_prefix.mpr ⟨rest ++ t, by rw [← List.append_assoc, e]; rfl⟩
      have fits : needle.length ≤ (b :: s).length := (List.isPrefixOf_iff_prefix.mp here).length_le
      rw [if_pos longer, ← List.cons_append, List.drop_append_of_le_length fits]
    · rename_i absent
      obtain ⟨⟨before, after⟩, later, e⟩ := Option.map_eq_some_iff.mp h
      cases e
      -- an earlier occurrence would be inside the text that was there
      have inside : needle.length ≤ (b :: s).length := by
        have length := congrArg List.length (strstr_some later)
        simp only [List.length_append] at length
        rw [List.length_cons]
        omega
      have absent' : ¬ needle.isPrefixOf (b :: (s ++ t)) = true := by
        intro early
        refine absent (List.isPrefixOf_iff_prefix.mpr ?_)
        exact List.prefix_of_prefix_length_le (List.isPrefixOf_iff_prefix.mp early) (List.prefix_append (b :: s) t)
          inside
      rw [if_neg absent', ih later]
      rfl

/-- What `http_parse_url` takes from a URL. -/
lemma httpParseUrl_some {u : HttpUrl} (h : httpParseUrl url = some u) :
    ∃ scheme rest, strstr (bytes "://") url = some (scheme, rest) ∧
      parsePath (rest.dropWhile inAuthority) = some u.path ∧
      u.host.length < 256 ∧ u.port.natAbs ≤ 65535 := by
  simp only [httpParseUrl, Option.bind_eq_bind, Option.bind_eq_some_iff] at h
  obtain ⟨⟨scheme, rest⟩, found, h⟩ := h
  split at h
  · cases h
  · split at h
    · cases h
    · obtain ⟨⟨host, port⟩, authority, h⟩ := Option.bind_eq_some_iff.mp h
      obtain ⟨path, parsed, h⟩ := Option.bind_eq_some_iff.mp h
      cases h
      have known : (if scheme.map toLower = bytes "https" then (443 : Int) else 80).natAbs ≤ 65535 := by
        split <;> decide
      have fits : host.length < 256 ∧ port.natAbs ≤ 65535 := by
        rw [parseAuthority] at authority
        split at authority
        · split at authority
          · cases authority
          · cases authority
            exact ⟨by omega, known⟩
        · split at authority
          · cases authority
          · split at authority
            · cases authority
            · cases authority
              exact ⟨by omega, by omega⟩
      exact ⟨scheme, rest, found, parsed, fits⟩

/-- The path of a URL, and the target that is asked for. -/
structure PathOf (url path : Str) : Prop where
  short : path.length < 2048
  nul : 0 ∉ path
  first : (RequestOptions.targetOf url).head? = some 47
  same : RequestOptions.afterAuthority (cString url) = [] ∨
    (RequestOptions.afterAuthority (cString url)).head? = some 47 →
    path = RequestOptions.targetOf (cString url)
  slash : path.head? = some 47 →
    RequestOptions.afterAuthority (cString url) = [] ∨ (RequestOptions.afterAuthority (cString url)).head? = some 47
  cut : path.head? = some 47 → path = [47] ∨ path <+: RequestOptions.targetOf url

lemma takeWhile_prefix_append (p : UInt8 → Bool) (s t : Str) : s.takeWhile p <+: (s ++ t).takeWhile p := by
  rw [List.takeWhile_append]
  split
  · rename_i all
    have whole : s.takeWhile p = s := (List.takeWhile_prefix p).eq_of_length all
    rw [whole]
    exact List.prefix_append _ _
  · exact List.prefix_rfl

lemma head_takeWhile {p : UInt8 → Bool} {b : UInt8} (h : (s.takeWhile p).head? = some b) : s.head? = some b := by
  cases s with
  | nil => cases h
  | cons c s =>
    rw [List.takeWhile_cons] at h
    split at h
    · exact h
    · cases h

/-- The path that is parsed. -/
lemma pathOf_parse {u : HttpUrl} (h : httpParseUrl (cString url) = some u) : PathOf url u.path := by
  obtain ⟨scheme, rest, found, parsed, -⟩ := httpParseUrl_some h
  obtain ⟨tail, split, clean, -⟩ := cString_split url
  obtain ⟨after, e⟩ : ∃ after, rest.dropWhile inAuthority = after := ⟨_, rfl⟩
  have isAfter : RequestOptions.afterAuthority (cString url) = after := by
    rw [RequestOptions.afterAuthority, found, ← e]
    rfl
  have nulAfter : 0 ∉ after := by
    intro mem
    refine clean ?_
    rw [strstr_some found]
    exact List.mem_append_right _ ((List.dropWhile_suffix _).subset (e ▸ mem))
  have target : RequestOptions.targetOf (cString url) =
      if (after.takeWhile (· ≠ 35)).head? = some 47 then after.takeWhile (· ≠ 35)
      else 47 :: after.takeWhile (· ≠ 35) := by
    rw [RequestOptions.targetOf, found]
    simp only [e]
  have whole : RequestOptions.targetOf url = if (((rest ++ tail).dropWhile inAuthority).takeWhile (· ≠ 35)).head?
    = some 47
      then ((rest ++ tail).dropWhile inAuthority).takeWhile (· ≠ 35)
      else 47 :: ((rest ++ tail).dropWhile inAuthority).takeWhile (· ≠ 35) := by
    have found' := strstr_append found tail
    rw [← split] at found'
    rw [RequestOptions.targetOf, found']
  have first : (RequestOptions.targetOf url).head? = some 47 := by
    rw [whole]
    split
    · assumption
    · rfl
  rw [e, parsePath] at parsed
  split at parsed
  case isTrue ends =>
    have path : u.path = [47] := (Option.some.inj parsed).symm
    rw [path]
    refine ⟨by decide, by decide, first, fun _ => ?_, fun _ => .inl (isAfter.trans ends), fun _ => .inl rfl⟩
    rw [target, ends]
    rfl
  case isFalse goes =>
    split at parsed
    case isTrue => cases parsed
    case isFalse short =>
      have path : u.path = after.takeWhile (· ≠ 35) := (Option.some.inj parsed).symm
      rw [path]
      refine ⟨Nat.lt_of_not_le short, fun mem => nulAfter ((List.takeWhile_prefix _).subset mem), first, ?_, ?_, ?_⟩
      · rw [isAfter]
        rintro (empty | slash)
        · exact absurd empty goes
        · obtain ⟨r, rfl⟩ := List.head?_eq_some_iff.mp slash
          rw [target, if_pos (by simp)]
      · exact fun slash => .inr (isAfter ▸ head_takeWhile slash)
      · -- the part that a NUL cuts off only adds to the target
        intro slash
        have longer : (rest ++ tail).dropWhile inAuthority = after ++ tail := by
          rw [List.dropWhile_append, e, if_neg (by simpa using goes)]
        have part := takeWhile_prefix_append (· ≠ 35) after tail
        rw [whole, longer]
        obtain ⟨r, front⟩ := List.head?_eq_some_iff.mp slash
        obtain ⟨more, both⟩ := part
        rw [if_pos (by rw [← both, front]; rfl), ← both]
        exact .inr (List.prefix_append _ _)

end Urls

/-! ### What is written -/

/-- The first line of a request. -/
def requestLine (method path : Str) : Str := method ++ 32 :: (path ++ 32 :: bytes "HTTP/1.1")

namespace RequestOptions

variable (o : RequestOptions) (tls : Bool) (url : HttpUrl)

/-- The default fields as they are written. -/
def writtenDefaults : List HttpHeader :=
  (if o.hasHeaderName "host" then [] else [⟨bytes "Host", hostText tls url⟩]) ++
    (if o.hasHeaderName "user-agent" then [] else [⟨bytes "User-Agent", bytes "CanDo/1.0"⟩]) ++
    (if o.hasHeaderName "accept" then [] else [⟨bytes "Accept", bytes "*/*"⟩]) ++
    (if o.hasHeaderName "connection" then [] else [⟨bytes "Connection", bytes "close"⟩]) ++
    (if o.body.length = 0 ∨ o.hasHeaderName "content-length" then []
      else [⟨bytes "Content-Length", decimal o.body.length⟩])

variable {o tls url} {fields : List HttpHeader}

/-- The text of a request is its lines and its body. -/
lemma requestText_lines (given : o.Given fields) : o.requestText tls url =
    requestLine o.methodText url.path ++ 13 :: 10 ::
      (textOf ((o.writtenDefaults tls url ++ fields).map HttpHeader.line) ++ 13 :: 10 :: o.body) := by
  have user : (o.headers.map appendHeader).flatten = textOf (fields.map HttpHeader.line) := by
    rw [given, textOf, List.map_map, List.map_map]
    rfl
  have host : bytes "Host: " ++ hostText tls url ++ bytes "\r\n" =
      HttpHeader.line ⟨bytes "Host", hostText tls url⟩ ++ bytes "\r\n" := rfl
  have agent : bytes "User-Agent: CanDo/1.0\r\n" =
      HttpHeader.line ⟨bytes "User-Agent", bytes "CanDo/1.0"⟩ ++ bytes "\r\n" := by decide
  have accept : bytes "Accept: */*\r\n" = HttpHeader.line ⟨bytes "Accept", bytes "*/*"⟩ ++ bytes "\r\n" := by decide
  have connection : bytes "Connection: close\r\n" =
      HttpHeader.line ⟨bytes "Connection", bytes "close"⟩ ++ bytes "\r\n" := by decide
  have length : bytes "Content-Length: " ++ decimal o.body.length ++ bytes "\r\n" =
      HttpHeader.line ⟨bytes "Content-Length", decimal o.body.length⟩ ++ bytes "\r\n" := rfl
  have announced : o.body.length > 0 ∧ o.hasHeaderName "content-length" = false ↔
      ¬ (o.body.length = 0 ∨ o.hasHeaderName "content-length" = true) := by
    rw [not_or, Bool.not_eq_true]
    exact and_congr_left fun _ => Nat.pos_iff_ne_zero
  have ending : bytes "\r\n" = [13, 10] := by decide
  have version : bytes " HTTP/1.1\r\n" = 32 :: (bytes "HTTP/1.1" ++ [13, 10]) := by decide
  have space : bytes " " = [32] := by decide
  rw [writtenDefaults]
  simp only [List.map_append, textOf_append, textOf_own host, textOf_own agent, textOf_own accept,
    textOf_own connection,
    textOf_own length, ← user, requestText, requestLine, announced, ite_not, ending, version, space, List.append_assoc,
    List.cons_append, List.nil_append]

/-- The default fields that are written are those to be read, but for the case of their names. -/
lemma writtenDefaults_lower : (o.writtenDefaults tls url).map HttpHeader.lower = o.defaults tls url := by
  have host : HttpHeader.lower ⟨bytes "Host", hostText tls url⟩ = ⟨bytes "host", hostText tls url⟩ :=
    lower_mk _ (by decide)
  have length : HttpHeader.lower ⟨bytes "Content-Length", decimal o.body.length⟩ =
      ⟨bytes "content-length", decimal o.body.length⟩ :=
    lower_mk _ (by decide)
  simp only [writtenDefaults, defaults, List.map_append, lower_own host, lower_own length]
  rw [lower_own (g := ⟨bytes "user-agent", bytes "CanDo/1.0"⟩) (by decide),
    lower_own (g := ⟨bytes "accept", bytes "*/*"⟩) (by decide),
    lower_own (g := ⟨bytes "connection", bytes "close"⟩) (by decide)]

lemma hostText_length (small : url.port.natAbs ≤ 65535) : (hostText tls url).length ≤ url.host.length + 12 := by
  have port := decimalInt_length (i := url.port) (by omega)
  have colon : (bytes ":").length = 1 := by decide
  rw [hostText]
  generalize (if (tls || url.scheme == bytes "https") = true then (443 : Int) else 80) = default
  split
  · omega
  · simp only [List.length_append, colon]
    omega

/-- The default fields are clean if the host is, and their lines are short. -/
lemma writtenDefaults_clean (fits : o.body.length ≤ ulongMax) (small : url.host.length < 256 ∧ url.port.natAbs ≤ 65535)
    (host : o.hasHeaderName "host" = false → HttpHeader.Clean ⟨bytes "host", hostText tls url⟩) (f : HttpHeader)
    (mem : f ∈ o.writtenDefaults tls url) : f.Clean ∧ f.line.length < 8192 := by
  rw [writtenDefaults] at mem
  obtain mem | mem := List.mem_append.mp mem
  · obtain mem | mem := List.mem_append.mp mem
    · obtain mem | mem := List.mem_append.mp mem
      · obtain mem | mem := List.mem_append.mp mem
        · obtain ⟨unset, rfl⟩ := mem_own mem
          have lower : HttpHeader.lower ⟨bytes "Host", hostText tls url⟩ = ⟨bytes "host", hostText tls url⟩ :=
            lower_mk _ (by decide)
          refine ⟨clean_lower.mp (lower ▸ host (Bool.eq_false_iff.mpr unset)), ?_⟩
          have name : (bytes "Host" ++ bytes ": ").length = 6 := by decide
          have text : (hostText tls url).length ≤ url.host.length + 12 := hostText_length small.2
          rw [HttpHeader.line, List.length_append, name]
          show 6 + (hostText tls url).length < 8192
          omega
        · obtain ⟨-, rfl⟩ := mem_own mem
          exact ⟨clean_of_bytes (by decide) (by decide) (by decide) (by decide), by decide⟩
      · obtain ⟨-, rfl⟩ := mem_own mem
        exact ⟨clean_of_bytes (by decide) (by decide) (by decide) (by decide), by decide⟩
    · obtain ⟨-, rfl⟩ := mem_own mem
      exact ⟨clean_of_bytes (by decide) (by decide) (by decide) (by decide), by decide⟩
  · obtain ⟨-, rfl⟩ := mem_own mem
    refine ⟨clean_of_decimal _ (by decide) (by decide) (by decide), ?_⟩
    have digits := decimal_length (n := o.body.length) (k := 20) (by decide) (Nat.lt_of_le_of_lt fits (by decide))
    have name : (bytes "Content-Length" ++ bytes ": ").length = 16 := by decide
    rw [HttpHeader.line, List.length_append, name]
    exact Nat.lt_of_le_of_lt (Nat.add_le_add_left digits 16) (by decide)

/-- A header is set just when it is found. -/
lemma hasHeaderName_iff (given : o.Given fields) (name : String) :
    o.hasHeaderName name = true ↔ httpHeadersGet (fields.map HttpHeader.lower) (bytes name) ≠ none := by
  rw [hasHeaderName, given, List.any_map, List.any_eq_true, httpHeadersGet, Ne, Option.map_eq_none_iff,
    List.find?_eq_none]
  simp [HttpHeader.lower]

/-- The body is read just when the headers do not contradict its framing. -/
lemma readRequestBody_iff (fits : o.body.length ≤ ulongMax) (given : o.Given fields) :
    (∃ r, readRequestBody streamSource (o.defaults tls url ++ fields.map HttpHeader.lower) o.body = (some o.body, r)) ↔
      isChunked (httpHeadersGet (fields.map HttpHeader.lower) (bytes "transfer-encoding")) = false ∧
        ∀ v, httpHeadersGet (fields.map HttpHeader.lower) (bytes "content-length") = some v →
          strtoul 10 v = o.body.length := by
  obtain ⟨h, e⟩ : ∃ h, fields.map HttpHeader.lower = h := ⟨_, rfl⟩
  have set := hasHeaderName_iff given "content-length"
  rw [e] at set ⊢
  have te : httpHeadersGet (o.defaults tls url ++ h) (bytes "transfer-encoding") =
      httpHeadersGet h (bytes "transfer-encoding") := by
    simp only [defaults, httpHeadersGet_append]
    rw [httpHeadersGet_own (show (bytes "host" == bytes "transfer-encoding") = false by decide),
      httpHeadersGet_own (by decide), httpHeadersGet_own (by decide), httpHeadersGet_own (by decide),
      httpHeadersGet_own (show (bytes "content-length" == bytes "transfer-encoding") = false by decide)]
    simp only [Option.none_or]
  have cl : httpHeadersGet (o.defaults tls url ++ h) (bytes "content-length") =
      (if o.body.length = 0 ∨ o.hasHeaderName "content-length" = true then none else some (decimal o.body.length)).or
        (httpHeadersGet h (bytes "content-length")) := by
    simp only [defaults, httpHeadersGet_append]
    rw [httpHeadersGet_own (show (bytes "host" == bytes "content-length") = false by decide),
      httpHeadersGet_own (by decide), httpHeadersGet_own (by decide), httpHeadersGet_own (by decide)]
    simp only [Option.none_or]
    congr 1
    split
    · rfl
    · simp [httpHeadersGet]
  rw [readRequestBody, te, cl]
  by_cases chunked : isChunked (httpHeadersGet h (bytes "transfer-encoding")) = true
  · rw [if_pos chunked, chunked]
    exact ⟨fun h => absurd (chunked_shrinks h.choose_spec) (Nat.lt_irrefl _), fun h => by cases h.1⟩
  · rw [if_neg chunked, Bool.eq_false_iff.mpr chunked]
    cases found : httpHeadersGet h (bytes "content-length") with
    | some v =>
      rw [found] at set
      rw [if_pos (.inr (set.mpr (by simp))), Option.none_or]
      refine readLength_whole.trans ⟨fun same => ⟨rfl, fun w e => by cases e; exact same⟩, fun all => all.2 v rfl⟩
    | none =>
      rw [found] at set
      refine ⟨fun _ => ⟨rfl, by simp⟩, fun _ => ?_⟩
      by_cases empty : o.body.length = 0
      · rw [if_pos (.inl empty), Option.none_or, List.length_eq_zero_iff.mp empty]
        exact ⟨[], rfl⟩
      · have unset : ¬ (o.body.length = 0 ∨ o.hasHeaderName "content-length" = true) :=
          not_or.mpr ⟨empty, fun e => set.mp e rfl⟩
        rw [if_neg unset, Option.some_or]
        exact readLength_whole.mpr (strtoul_numeral (decimal_numeral fits) (.inl rfl))

end RequestOptions

/-! ### The request line -/

section Tokens

variable {s rest line w p m t : Str} {size : Nat}

lemma Line.split (h : Line s line rest) : s = line ++ 13 :: 10 :: rest := by
  induction h with
  | crlf => rfl
  | byte _ _ ih =>
    rw [ih]
    rfl

/-- What is before a space begins what is before a later space. -/
lemma prefix_of_space {x y : Str} (h : t ++ 32 :: x = p ++ 32 :: y) (plain : 32 ∉ t) : t <+: p := by
  obtain ⟨c, rfl, -⟩ | ⟨c, rfl, e⟩ := List.append_eq_append_iff.mp h
  · exact List.prefix_append _ _
  · cases c with
    | nil => exact (List.append_nil p).symm ▸ List.prefix_rfl
    | cons b c =>
      obtain ⟨rfl, -⟩ := List.cons.inj e
      simp at plain

lemma copyField_begins : copyField size s <+: s := List.take_prefix _ _

/-- The tokens that are read from a request line that was written. -/
structure Tokens (w p m t : Str) : Prop where
  method : 32 ∉ m ∧ (32 ∉ w → m = copyField 16 w ∧ CrlfFree w)
  target : 32 ∉ t ∧ CrlfFree t ∧ (32 ∉ w → t <+: p)

lemma tokens_of_read {v : Str} (first : Line (requestLine w p ++ 13 :: 10 :: s) line rest)
    (read : parseRequestLine line = some (m, t, v)) : Tokens w p m t := by
  obtain ⟨method, target, ver, tail, ⟨tokens, notMethod, notTarget⟩, -, -, rfl, rfl, -⟩ := parseRequestLine_some read
  have free := first.crlfFree
  rw [tokens] at free
  have split := first.split
  rw [tokens] at split
  simp only [requestLine, List.append_assoc, List.cons_append] at split
  refine ⟨⟨fun mem => notMethod (copyField_begins.subset mem), fun plain => ?_⟩,
    fun mem => notTarget (copyField_begins.subset mem), ?_, fun plain => ?_⟩
  · obtain ⟨rfl, -⟩ := split_unique split plain notMethod
    exact ⟨rfl, free.within (List.prefix_append _ _).isInfix⟩
  · exact (free.within ⟨method ++ [32], 32 :: (ver ++ tail), by simp⟩).within copyField_begins.isInfix
  · obtain ⟨-, rests⟩ := split_unique split plain notMethod
    exact copyField_begins.trans (prefix_of_space rests.symm notTarget)

/-- A request line of clean tokens. -/
lemma requestLine_line (method : RequestOptions.Token 16 m) (target : RequestOptions.Token 2048 t) :
    0 ∉ requestLine m t ∧ IsLine (requestLine m t) ∧ (requestLine m t).length < 8192 := by
  have version : CrlfFree (bytes "HTTP/1.1") := crlfFree_of_notMem (by decide)
  refine ⟨?_, ⟨List.append_ne_nil_of_right_ne_nil _ (List.cons_ne_nil _ _), ?_⟩, ?_⟩
  · simp only [requestLine, List.mem_append, List.mem_cons, not_or]
    exact ⟨method.nul, by decide, target.nul, by decide, by decide⟩
  · exact method.crlf.join (target.crlf.join version (by decide) (by decide)) (by decide) (by decide)
  · have http : (bytes "HTTP/1.1").length = 8 := by decide
    have room := method.short
    have room' := target.short
    simp only [requestLine, List.length_append, List.length_cons, http]
    omega

lemma parse_requestLine (method : RequestOptions.Token 16 m) (target : RequestOptions.Token 2048 t) :
    parseRequestLine (requestLine m t) = some (m, t, bytes "1.1") := by
  have clean := cString_of_notMem (requestLine_line method target).1
  have first : strchr (requestLine m t) 32 = some (m, t ++ 32 :: bytes "HTTP/1.1") :=
    strchr_eq_some.mpr ⟨rfl, method.space⟩
  have second : strchr (t ++ 32 :: bytes "HTTP/1.1") 32 = some (t, bytes "HTTP/1.1") :=
    strchr_eq_some.mpr ⟨rfl, target.space⟩
  have version : copyField 8 (if (bytes "HTTP/").isPrefixOf (bytes "HTTP/1.1") = true then (bytes "HTTP/1.1").drop 5
      else bytes "HTTP/1.1") = bytes "1.1" := by decide
  simp only [parseRequestLine, clean, first, second, version, Option.bind_eq_bind, Option.bind_some, Option.pure_def,
    copyField_of_fits method.short, copyField_of_fits target.short]

/-- What a request was read from. -/
lemma readRequest_some {r : HttpParsedRequest} (h : readRequest streamSource s = (some r, rest)) :
    ∃ line s₁ s₂, Line s line s₁ ∧ parseRequestLine line = some (r.method, r.path, r.version) ∧
      parseHeaders streamSource s₁ = (some r.headers, s₂) ∧
      readRequestBody streamSource r.headers s₂ = (some r.body, rest) := by
  obtain ⟨line, s₁, read, run⟩ := bind_eq_some h
  split at run
  · cases run
  · cases tokens : parseRequestLine line with
    | none =>
      rw [tokens] at run
      cases run
    | some fields =>
      obtain ⟨method, path, version⟩ := fields
      rw [tokens] at run
      obtain ⟨headers, s₂, head, run⟩ := bind_eq_some run
      obtain ⟨body, s₃, bodyRead, run⟩ := bind_eq_some run
      cases run
      exact ⟨line, s₁, s₂, line_of_read _ read, tokens, head, bodyRead⟩

end Tokens

/-! ### What is read -/

namespace RequestOptions

variable {o : RequestOptions} {tls : Bool} {url : HttpUrl} {fields : List HttpHeader}

/-- The method that is read is the one given just when it is a token. -/
lemma method_of_tokens {p t : Str} (tokens : Tokens o.methodText p (o.method.getD (bytes "GET")) t) :
    32 ∉ o.methodText ∧ o.methodText = o.method.getD (bytes "GET") ∧ ∀ m, o.method = some m → m ≠ [] ∧ Token 16 m := by
  obtain ⟨⟨plain, whole⟩, -⟩ := tokens
  rw [methodText] at whole ⊢
  cases given : o.method with
  | none => exact ⟨by decide, rfl, nofun⟩
  | some m =>
    rw [given] at plain whole
    simp only [Option.getD_some] at plain whole ⊢
    by_cases empty : m = []
    · subst empty
      obtain ⟨e, -⟩ := whole (by decide)
      exact absurd e (by decide)
    · rw [if_neg empty] at whole ⊢
      have part : cString m <+: m := List.takeWhile_prefix _
      have space : 32 ∉ cString m := fun mem => plain (part.subset mem)
      obtain ⟨e, free⟩ := whole space
      -- a method that was cut is not the one that was given
      have same : cString m = m := part.eq_of_length_le (by
        have length := congrArg List.length e
        rw [copyField, List.length_take] at length
        omega)
      refine ⟨space, same, fun m' e' => ?_⟩
      cases e'
      rw [same] at e free
      exact ⟨empty, same ▸ notMem_takeWhile_ne, plain, free, fits_of_copyField (by decide) e⟩

/-- The target that is read is the one asked for just when it is a token and was not cut. -/
lemma target_of_tokens {m : Str} (path : PathOf o.url url.path) (plain : 32 ∉ o.methodText)
    (tokens : Tokens o.methodText url.path m (targetOf o.url)) :
    url.path = targetOf o.url ∧
      (targetOf (cString o.url) = targetOf o.url ∧ 32 ∉ targetOf o.url ∧ CrlfFree (targetOf o.url)) ∧
      (afterAuthority (cString o.url) = [] ∨ (afterAuthority (cString o.url)).head? = some 47) := by
  obtain ⟨-, space, free, front⟩ := tokens
  have front := front plain
  obtain ⟨r, target⟩ := List.head?_eq_some_iff.mp path.first
  have slash : url.path.head? = some 47 := by
    obtain ⟨more, e⟩ := front
    rw [← e, target]
    rfl
  have same : url.path = targetOf o.url := by
    obtain root | back := path.cut slash
    · rw [target, root] at front
      have tail := List.prefix_nil.mp (List.cons_prefix_cons.mp front).2
      rw [root, target, tail]
    · exact back.eq_of_length_le front.length_le
  exact ⟨same, ⟨(path.same (path.slash slash)).symm.trans same, space, free⟩, path.slash slash⟩

lemma token_method (method : ∀ m, o.method = some m → m ≠ [] ∧ Token 16 m) :
    Token 16 (o.method.getD (bytes "GET")) ∧ o.methodText = o.method.getD (bytes "GET") := by
  rw [methodText]
  cases given : o.method with
  | none => exact ⟨⟨by decide, by decide, crlfFree_of_notMem (by decide), by decide⟩, rfl⟩
  | some m =>
    obtain ⟨some, token⟩ := method m given
    exact ⟨token, (if_neg some).trans (cString_of_notMem token.nul)⟩

/-- The host is among the default fields that are read. -/
lemma mem_defaults_host (unset : o.hasHeaderName "host" = false) :
    ⟨bytes "host", hostText tls url⟩ ∈ o.defaults tls url := by
  rw [defaults, unset]
  iterate 4 apply List.mem_append_left
  exact List.mem_singleton_self _

/-- All fields that are written are clean, and short if those that are given are. -/
lemma written_clean (fits : o.body.length ≤ ulongMax) (parsed : httpParseUrl (cString o.url) = some url)
    (host : o.hasHeaderName "host" = false → HttpHeader.Clean ⟨bytes "host", hostText tls url⟩)
    (clean : ∀ f ∈ fields, f.Clean) (f : HttpHeader) (mem : f ∈ o.writtenDefaults tls url ++ fields) :
    f.Clean ∧ (f ∈ fields ∨ f.line.length < 8192) := by
  obtain ⟨-, -, -, -, small⟩ := httpParseUrl_some parsed
  obtain own | user := List.mem_append.mp mem
  · exact (writtenDefaults_clean fits small host f own).imp_right .inr
  · exact ⟨clean f user, .inl user⟩

/-- The text of a request is read just when the request can be sent. -/
lemma read_iff (fits : o.body.length ≤ ulongMax) (parsed : httpParseUrl (cString o.url) = some url) :
    (∃ fields version, o.Given fields ∧ (readRequest streamSource (o.requestText tls url)).1 =
      some ⟨o.method.getD (bytes "GET"), targetOf o.url, version, o.defaults tls url ++ fields.map HttpHeader.lower,
        o.body⟩) ↔
      o.Sendable tls url := by
  have path := pathOf_parse parsed
  constructor
  · rintro ⟨fields, version, given, read⟩
    rw [requestText_lines given] at read
    obtain ⟨rest, run⟩ := eq_some_of_fst read
    obtain ⟨line, s₁, s₂, first, tokens, head, body⟩ := readRequest_some run
    have tokens := tokens_of_read first tokens
    obtain ⟨plain, sameMethod, method⟩ := method_of_tokens tokens
    obtain ⟨samePath, target, slash⟩ := target_of_tokens path plain tokens
    -- the tokens are clean, so that the request line is the one that was written
    have target' : Token 2048 (targetOf o.url) := ⟨samePath ▸ path.nul, target.2.1, target.2.2, samePath ▸ path.short⟩
    have written := (requestLine_line (token_method method).1 target').2.1.2
    rw [sameMethod, samePath] at first
    obtain ⟨-, rfl⟩ := first.unique (line_of_crlfFree written _)
    have clean (f : HttpHeader) (mem : f ∈ fields) : f.Clean :=
      clean_lower.mp (clean_of_parseHeaders head _ (List.mem_append_right _ (List.mem_map.mpr ⟨f, mem, rfl⟩)))
    have host (unset : o.hasHeaderName "host" = false) : HttpHeader.Clean ⟨bytes "host", hostText tls url⟩ :=
      clean_of_parseHeaders head _ (List.mem_append_left _ (mem_defaults_host unset))
    obtain ⟨rfl, short⟩ := rest_of_parseHeaders (fun f mem => (written_clean fits parsed host clean f mem).1) head
    obtain ⟨whole, length⟩ := (readRequestBody_iff fits given).mp ⟨_, body⟩
    exact ⟨method, target, slash, host, fields, given,
      fun f mem => ⟨clean f mem, short f (List.mem_append_right _ mem)⟩, whole, length⟩
  · rintro ⟨method, ⟨uncut, space, free⟩, slash, host, fields, given, clean, whole, length⟩
    have samePath : url.path = targetOf o.url := (path.same slash).trans uncut
    have target : Token 2048 (targetOf o.url) := ⟨samePath ▸ path.nul, space, free, samePath ▸ path.short⟩
    obtain ⟨token, sameMethod⟩ := token_method method
    obtain ⟨-, line, short⟩ := requestLine_line token target
    have all (f : HttpHeader) (mem : f ∈ o.writtenDefaults tls url ++ fields) : f.Clean ∧ f.line.length < 8192 :=
      (written_clean fits parsed host (fun f mem => (clean f mem).1) f mem).imp_right fun h =>
        h.elim (fun mem => (clean f mem).2) id
    obtain ⟨r, body⟩ : ∃ r, readRequestBody streamSource (o.defaults tls url ++ fields.map HttpHeader.lower) o.body =
      (some o.body, r) := (readRequestBody_iff fits given).mpr ⟨whole, length⟩
    have head : parseHeaders streamSource (textOf ((o.writtenDefaults tls url ++ fields).map HttpHeader.line) ++
        13 :: 10 :: o.body) = (some (o.defaults tls url ++ fields.map HttpHeader.lower), o.body) := by
      rw [parseHeaders_fields all, List.map_append, writtenDefaults_lower]
    refine ⟨fields, bytes "1.1", given, ?_⟩
    have read (s : Str) : streamSource.readCrlfLine 8192
        (requestLine (o.method.getD (bytes "GET")) (targetOf o.url) ++ 13 :: 10 :: s) =
          (some (requestLine (o.method.getD (bytes "GET")) (targetOf o.url)), s) :=
      streamLine_short line.2 (by rwa [List.length_nil, Nat.zero_add])
    rw [requestText_lines given, sameMethod, samePath, readRequest, bind_apply, read, andThen_some, if_neg line.1,
      parse_requestLine token target]
    simp only [bind_apply, head, andThen_some, body]
    rfl

end RequestOptions

/-- Read without a seam in a line, a request of the client is the one that was asked for just when it can be sent. A
string has fewer than 2³² bytes. -/
theorem client_request_iff (tls : Bool) (o : RequestOptions) (fits : o.body.length < 4294967296) (url : HttpUrl)
    (accepted : o.checkUrl = some url) (conn : HttpConn) (sent : o.httpDoRequest tls = some conn.input)
    (seamless : RequestSeamless conn) : o.ReadFrom tls url conn ↔ o.Sendable tls url := by
  have text : o.requestText tls url = conn.input := by
    rw [RequestOptions.httpDoRequest, accepted] at sent
    exact Option.some.inj sent
  have plain : httpReadRequest conn = (readRequest streamSource (o.requestText tls url)).1 := by
    rw [text]
    exact (mirrors_request _ seamless).2.1
  have parsed : httpParseUrl (cString o.url) = some url := (Option.ite_none_left_eq_some.mp accepted).2
  rw [RequestOptions.ReadFrom, plain]
  exact RequestOptions.read_iff (Nat.le_of_lt (Nat.lt_trans fits (by decide))) parsed

/-- A `POST` with a header of its own. -/
theorem client_request_iff_post : RequestOptions.ReadFrom
    ⟨bytes "http://h/p?q#f", some (bytes "POST"), [(bytes "X-A", some (bytes "1"))], bytes "body"⟩ false
    ⟨bytes "http", bytes "h", 80, bytes "/p?q"⟩
    (splitBy (fun _ => 1023) (RequestOptions.requestText
      ⟨bytes "http://h/p?q#f", some (bytes "POST"), [(bytes "X-A", some (bytes "1"))], bytes "body"⟩ false
      ⟨bytes "http", bytes "h", 80, bytes "/p?q"⟩)) := by
  have accepted : RequestOptions.checkUrl
      ⟨bytes "http://h/p?q#f", some (bytes "POST"), [(bytes "X-A", some (bytes "1"))], bytes "body"⟩ =
        some ⟨bytes "http", bytes "h", 80, bytes "/p?q"⟩ := by decide
  have seamless : RequestSeamless (splitBy (fun _ => 1023) (RequestOptions.requestText
      ⟨bytes "http://h/p?q#f", some (bytes "POST"), [(bytes "X-A", some (bytes "1"))], bytes "body"⟩ false
      ⟨bytes "http", bytes "h", 80, bytes "/p?q"⟩)) := by
    unfold RequestSeamless HttpReader.Spoiled
    decide +kernel
  refine (client_request_iff false _ (by decide) _ accepted _ ?_ seamless).mpr ⟨?_, ?_, ?_, ?_, ?_⟩
  · rw [RequestOptions.httpDoRequest, accepted]
    rfl
  · intro m e
    cases e
    exact ⟨by decide, by decide, by decide, crlfFree_of_notMem (by decide), by decide⟩
  · exact ⟨by decide, by decide, crlfFree_of_notMem (by decide)⟩
  · exact .inr (by decide)
  · exact fun _ => clean_of_bytes (by decide) (by decide) (by decide) (by decide)
  · refine ⟨[⟨bytes "X-A", bytes "1"⟩], rfl, fun f mem => ?_, by decide, nofun⟩
    obtain rfl := List.mem_singleton.mp mem
    exact ⟨clean_of_bytes (by decide) (by decide) (by decide) (by decide), by decide⟩

/-- A space in the path ends the target, and a CRLF in a header value brings another header. -/
theorem request_splits :
    let o : RequestOptions := ⟨bytes "http://h/a b", none, [(bytes "X", some (bytes "1\r\nY: 2"))], []⟩
    let url : HttpUrl := ⟨bytes "http", bytes "h", 80, bytes "/a b"⟩
    o.checkUrl = some url ∧ ∃ r, httpReadRequest (splitBy (fun _ => 1023) (o.requestText false url)) = some r ∧
      r.path = bytes "/a" ∧ r.headers = [⟨bytes "host", bytes "h"⟩, ⟨bytes "user-agent", bytes "CanDo/1.0"⟩,
        ⟨bytes "accept", bytes "*/*"⟩, ⟨bytes "connection", bytes "close"⟩, ⟨bytes "x", bytes "1"⟩,
          ⟨bytes "y", bytes "2"⟩] ∧
      ¬ o.ReadFrom false url (splitBy (fun _ => 1023) (o.requestText false url)) := by
  intro o url
  have read : httpReadRequest (splitBy (fun _ => 1023) (o.requestText false url)) =
      some ⟨bytes "GET", bytes "/a", bytes "b HTTP/",
        [⟨bytes "host", bytes "h"⟩, ⟨bytes "user-agent", bytes "CanDo/1.0"⟩,
        ⟨bytes "accept", bytes "*/*"⟩, ⟨bytes "connection", bytes "close"⟩, ⟨bytes "x", bytes "1"⟩,
        ⟨bytes "y", bytes "2"⟩], []⟩ := by decide +kernel
  refine ⟨by decide, _, read, rfl, rfl, ?_⟩
  rintro ⟨fields, version, -, same⟩
  rw [read] at same
  have paths : bytes "/a" = RequestOptions.targetOf o.url := congrArg HttpParsedRequest.path (Option.some.inj same)
  exact absurd paths (by decide)

end Cando
