import Cando.Lib.Interleaving
import Cando.Lib.Pool
import Cando.Natives.HttpResponse
import Cando.Thread.Process

/-!
# The pools of responses and servers

`g_res_pool` and `g_servers` (`lib/http.c`) with everybody who works on them: the threads that serve connections
(`conn_thread_fn`), the threads that accept them (`accept_thread_fn`), and the calls that scripts make on `res` and
server objects, which keep nothing but the number of a slot. A step is one locked section, one test or write of a
field, or one call of the operating system. The fields `parent_vm`, `ssl_ctx` and `active_conns` of a server are left
out.
-/

namespace Cando

/-- `HTTP_MAX_ACTIVE_RESPONSES`. -/
def httpMaxActiveResponses : Nat := 512

/-- An `HttpResCtx` with its connection. -/
structure HttpResCtx extends ResCtx where
  /-- `conn.fd` is a descriptor -/
  connOpen : Bool := false

/-- An `HttpServer`; `acceptThread` is `accept_thread` where `has_thread` is set. -/
structure HttpServer where
  listenFd : Option Nat := none
  port : Nat := 0
  running : Bool := false
  acceptThread : Option Nat := none
  callbackFn : Option Nat := none

/-! ### Operations on objects -/

/-- A call on a `res` object; `json` gets the text that `json.stringify` makes. -/
inductive ResOp where
  | call (c : ResCall)
  | json (text : Str)

/-- Where such a call is. -/
inductive ResPc where
  /-- `res_get_ctx_from`: the slot is looked at -/
  | enter (op : ResOp)
  | setStatus (code : BitVec 32)
  | addHeader (name value : Str)
  | checkSent (op : ResOp)
  | addType (text : Str)
  | write (body : Str)
  | markSent
  | returned

/-- The first step after `res_get_ctx_from` has found a slot in use. -/
def ResOp.first : ResOp → ResPc
  | .call (.status code) => .setStatus code
  | .call (.setHeader name value) => .addHeader name value
  | .call (.send body) => .checkSent (.call (.send body))
  | .json text => .checkSent (.json text)

/-- `http_conn_write_all` on an open connection. -/
def HttpResCtx.write (ctx : HttpResCtx) (s : Str) : HttpResCtx :=
  if ctx.connOpen then { ctx with wire := ctx.wire ++ s } else ctx

/-- A step of a call in its slot. -/
def ResPc.act (ctx : HttpResCtx) : ResPc → ResPc × HttpResCtx
  | .setStatus code => (.returned, { ctx with toResCtx := resStatus ctx.toResCtx code })
  | .addHeader name value => (.returned, { ctx with toResCtx := resSetHeader ctx.toResCtx name value })
  | .checkSent op =>
    if ctx.sent then (.returned, ctx)
    else match op with
      | .call (.send body) => (.write body, ctx)
      | .json text => (.addType text, ctx)
      | .call _ => (.returned, ctx)
  | .addType text =>
    (.write text,
      if hasHeader ctx.headers "content-type" then ctx
      else { ctx with
        toResCtx := resSetHeader ctx.toResCtx (bytes "content-type") (bytes "application/json; charset=utf-8") })
  | .write body => (.markSent, ctx.write (responseText ctx.toResCtx body))
  | .markSent => (.returned, { ctx with sent := true })
  | .enter op => (.enter op, ctx)
  | .returned => (.returned, ctx)

/-- A call on a server object; `listen` with the descriptor that the operating system gives, if it does. -/
inductive ServerOp where
  | listen (fd : Option Nat) (port : Nat)
  | close
  deriving DecidableEq, Repr

/-- Where such a call is. -/
inductive ServerPc where
  /-- `server_get_from` -/
  | enter (op : ServerOp)
  /-- `server_listen_fn` -/
  | setListen (fd port : Nat)
  | setRunning
  | createThread
  | setThread (thread : Nat)
  /-- `server_close_fn` -/
  | stop
  | closeListen
  | join
  | releaseCallback
  | free
  | returned
  deriving DecidableEq, Repr

/-- The first step after `server_get_from` has found a slot in use. -/
def ServerOp.first : ServerOp → ServerPc
  | .listen (some fd) port => if 0 < port ∧ port ≤ 65535 then .setListen fd port else .returned
  | .listen none _ => .returned
  | .close => .stop

/-! ### Connections -/

/-- Where `conn_thread_fn` is. -/
inductive ConnPc where
  | begun
  | alloc
  | connect (r : SlotRef)
  | tls (r : SlotRef)
  | parse (r : SlotRef)
  | badRequest (r : SlotRef)
  | build (r : SlotRef)
  | callback (r : SlotRef)
  | checkSent (r : SlotRef)
  | setStatus (r : SlotRef)
  | write (r : SlotRef)
  | markSent (r : SlotRef)
  | close (r : SlotRef)
  | free (r : SlotRef)
  | ended
  deriving DecidableEq, Repr

/-- The slot that a connection has got. -/
def ConnPc.ref? : ConnPc → Option SlotRef
  | .begun | .alloc | .ended => none
  | .connect r | .tls r | .parse r | .badRequest r | .build r | .callback r | .checkSent r | .setStatus r | .write r
  | .markSent r | .close r | .free r => some r

/-- A connection, with the slot of the server that accepted it. -/
structure Conn where
  server : Nat
  pc : ConnPc := .begun
  deriving DecidableEq, Repr

/-- A thread in `accept_thread_fn`, with the slot of its server. -/
structure AcceptThread where
  server : Nat
  ended : Bool := false
  deriving DecidableEq, Repr

/-- The answer to a request that cannot be read. -/
def badRequestText : Str := bytes "HTTP/1.1 400 Bad Request\r\nContent-Length: 0\r\nConnection: close\r\n\r\n"

/-- A step of a connection in its slot; `ok` tells whether the handshake or the request succeeds. -/
def ConnPc.act (ctx : HttpResCtx) (ok : Bool) : ConnPc → ConnPc × HttpResCtx
  | .connect r => (.tls r, { ctx with connOpen := true })
  | .tls r => (if ok then .parse r else .free r, ctx)
  | .parse r => (if ok then .build r else .badRequest r, ctx)
  | .badRequest r => (.close r, ctx.write badRequestText)
  | .build r => (.callback r, ctx)
  | .callback r => (.checkSent r, ctx)
  | .checkSent r => (if ctx.sent then .close r else .setStatus r, ctx)
  | .setStatus r => (.write r, { ctx with statusCode := 500 })
  | .write r => (.markSent r, ctx.write (responseText ctx.toResCtx (bytes "Internal Server Error")))
  | .markSent r => (.close r, { ctx with sent := true })
  | .close r => (.free r, { ctx with connOpen := false })
  | pc => (pc, ctx)

/-! ### The system -/

structure HttpPools where
  res : Pool HttpResCtx := { slots := fun _ => { data := {} } }
  servers : Pool HttpServer := { slots := fun _ => { data := {} } }
  conns : List Conn := []
  acceptThreads : List AcceptThread := []
  /-- the `res` objects, with what they were made for -/
  resObjects : List SlotRef := []
  serverObjects : List SlotRef := []
  /-- the calls on objects -/
  resCalls : List (SlotRef × ResPc) := []
  serverCalls : List (SlotRef × ServerPc) := []
  /-- for the statements only: the accesses to slots, in order -/
  resTouches : List Touch := []
  serverTouches : List Touch := []

inductive HttpAct where
  /-- `http.createServer` -/
  | createServer (callback : Nat)
  /-- a script calls a method of an object -/
  | callRes (object : Nat) (op : ResOp)
  | callServer (object : Nat) (op : ServerOp)
  /-- a call takes a step -/
  | res (call : Nat)
  | server (call : Nat)
  /-- an accept thread gets a connection, or looks at `running` and ends -/
  | accept (thread : Nat)
  | acceptEnds (thread : Nat)
  /-- a connection takes a step -/
  | conn (k : Nat) (ok : Bool)

/-- A call on a `res` object. -/
def resCallStep (S : HttpPools) (r : SlotRef) : ResPc → Option (ResPc × HttpPools)
  | .returned => none
  | .enter op => some (if (S.res.slots r.slot).active then op.first else .returned, S)
  | pc =>
    let (pc, ctx) := pc.act (S.res.slots r.slot).data
    some (pc, { S with res := S.res.modify r.slot fun _ => ctx, resTouches := S.resTouches ++ [S.res.touch r] })

/-- An access of a call to its server. -/
def HttpPools.serve (S : HttpPools) (r : SlotRef) (f : HttpServer → HttpServer) : HttpPools :=
  { S with servers := S.servers.modify r.slot f, serverTouches := S.serverTouches ++ [S.servers.touch r] }

/-- A call on a server object. -/
def serverCallStep (S : HttpPools) (r : SlotRef) : ServerPc → Option (ServerPc × HttpPools)
  | .returned => none
  | .enter op => some (if (S.servers.slots r.slot).active then op.first else .returned, S)
  | .setListen fd port => some (.setRunning, S.serve r fun s => { s with listenFd := some fd, port })
  | .setRunning => some (.createThread, S.serve r fun s => { s with running := true })
  | .createThread => some (.setThread S.acceptThreads.length,
      { S.serve r id with acceptThreads := S.acceptThreads ++ [{ server := r.slot }] })
  | .setThread thread => some (.returned, S.serve r fun s => { s with acceptThread := some thread })
  | .stop => some (.closeListen, S.serve r fun s => { s with running := false })
  | .closeListen => some (.join, S.serve r fun s => { s with listenFd := none })
  | .join =>
    -- `cando_os_thread_join` waits for the accept thread
    match (S.servers.slots r.slot).data.acceptThread with
    | none => some (.releaseCallback, S.serve r id)
    | some thread =>
      if (S.acceptThreads[thread]?.map AcceptThread.ended).getD true then
        some (.releaseCallback, S.serve r fun s => { s with acceptThread := none })
      else none
  | .releaseCallback => some (.free, S.serve r fun s => { s with callbackFn := none })
  | .free => some (.returned,
      { S with servers := S.servers.free r.slot, serverTouches := S.serverTouches ++ [S.servers.touch r] })

/-- `conn_thread_fn`. -/
def connStep (S : HttpPools) (ok : Bool) (c : Conn) : Option (ConnPc × HttpPools) :=
  match c.pc with
  | .ended => none
  | .begun => some (if (S.servers.slots c.server).active then .alloc else .ended, S)
  | .alloc =>
    match S.res.alloc httpMaxActiveResponses {} with
    | none => some (.ended, S)
    | some (r, res) => some (.connect r, { S with res })
  | .build r => some (.callback r, { S with resObjects := S.resObjects ++ [r] })
  | .free r => some (.ended, { S with res := S.res.free r.slot, resTouches := S.resTouches ++ [S.res.touch r] })
  | pc =>
    match pc.ref? with
    | none => none
    | some r =>
      let (pc, ctx) := pc.act (S.res.slots r.slot).data ok
      some (pc, { S with res := S.res.modify r.slot fun _ => ctx, resTouches := S.resTouches ++ [S.res.touch r] })

def httpStep (S : HttpPools) : HttpAct → Option HttpPools
  | .createServer callback =>
    match S.servers.alloc httpMaxServers { callbackFn := some callback } with
    | none => none
    | some (r, servers) => some { S with servers, serverObjects := S.serverObjects ++ [r] }
  | .callRes object op => S.resObjects[object]?.map fun r => { S with resCalls := S.resCalls ++ [(r, .enter op)] }
  | .callServer object op =>
    S.serverObjects[object]?.map fun r => { S with serverCalls := S.serverCalls ++ [(r, .enter op)] }
  | .res call =>
    S.resCalls[call]?.bind fun (r, pc) =>
      (resCallStep S r pc).map fun (pc, S') => { S' with resCalls := S.resCalls.set call (r, pc) }
  | .server call =>
    S.serverCalls[call]?.bind fun (r, pc) =>
      (serverCallStep S r pc).map fun (pc, S') => { S' with serverCalls := S.serverCalls.set call (r, pc) }
  | .accept thread =>
    S.acceptThreads[thread]?.bind fun t =>
      if t.ended then none else some { S with conns := S.conns ++ [{ server := t.server }] }
  | .acceptEnds thread =>
    S.acceptThreads[thread]?.bind fun t =>
      if t.ended ∨ (S.servers.slots t.server).data.running then none
      else some { S with acceptThreads := S.acceptThreads.set thread { t with ended := true } }
  | .conn k ok =>
    S.conns[k]?.bind fun c =>
      (connStep S ok c).map fun (pc, S') => { S' with conns := S.conns.set k { c with pc } }

/-- The interleavings of all who work on the pools. -/
def httpPools : Interleaving HttpPools HttpAct where
  step := httpStep

/-! ### Who works on what -/

/-- The call has found its slot in use and has not returned. -/
def ResPc.inProgress : ResPc → Bool
  | .enter _ | .returned => false
  | _ => true

def ServerPc.inProgress : ServerPc → Bool
  | .enter _ | .returned => false
  | _ => true

/-- A call is about to take a slot for its own that has been given to another, or a slot is about to be given out
while a call that has found it in use is still in progress. -/
def HttpPools.recycles (S : HttpPools) : HttpAct → Bool
  | .res call =>
    match S.resCalls[call]? with
    | some (r, .enter _) => decide (S.res.Lost r)
    | _ => false
  | .server call =>
    match S.serverCalls[call]? with
    | some (r, .enter _) => decide (S.servers.Lost r)
    | _ => false
  | .createServer _ =>
    S.serverCalls.any fun (c : SlotRef × ServerPc) =>
      c.2.inProgress && S.servers.firstFree httpMaxServers 0 == some c.1.slot
  | .conn k _ =>
    (S.conns[k]?.map Conn.pc) == some .alloc &&
      S.resCalls.any fun (c : SlotRef × ResPc) =>
        c.2.inProgress && S.res.firstFree httpMaxActiveResponses 0 == some c.1.slot
  | _ => false

/-- A connection has got a slot. -/
def HttpPools.Has (S : HttpPools) (k : Nat) (r : SlotRef) : Prop := ∃ c, S.conns[k]? = some c ∧ c.pc.ref? = some r

/-- Every connection works in a slot of its own. -/
structure Apart (S : HttpPools) : Prop where
  owns : ∀ k r, S.Has k r → S.res.Owns r
  apart : ∀ j k r r', S.Has j r → S.Has k r' → j ≠ k → r.slot ≠ r'.slot

/-- Calls in progress work on what they were made for, and so did all accesses. -/
structure Directed (S : HttpPools) : Prop where
  res : ∀ (k : Nat) (c : SlotRef × ResPc), S.resCalls[k]? = some c → c.2.inProgress = true → S.res.Holds c.1
  servers : ∀ (k : Nat) (c : SlotRef × ServerPc), S.serverCalls[k]? = some c → c.2.inProgress = true →
    S.servers.Holds c.1
  resTouches : ∀ t ∈ S.resTouches, t.Directed
  serverTouches : ∀ t ∈ S.serverTouches, t.Directed

section Slots

open Interleaving Pool

variable {S S' : HttpPools} {a : HttpAct} {r : SlotRef} {k : Nat}

/-- What a step of a call on a `res` object does. -/
lemma resCallStep_cases {pc pc' : ResPc} (h : resCallStep S r pc = some (pc', S')) :
    (∃ op, pc = .enter op ∧ S' = S ∧ (pc'.inProgress = true → (S.res.slots r.slot).active = true)) ∨
      pc.inProgress = true ∧ ∃ f, S' =
        { S with res := S.res.modify r.slot f, resTouches := S.resTouches ++ [S.res.touch r] } := by
  cases pc with
  | returned => cases h
  | enter op =>
    cases h
    refine .inl ⟨op, rfl, rfl, fun going => ?_⟩
    split at going
    case isTrue active => exact active
    case isFalse => cases going
  | _ =>
    cases h
    exact .inr ⟨rfl, _, rfl⟩

lemma HttpPools.serve_servers (f : HttpServer → HttpServer) :
    (S.serve r f).servers = S.servers.modify r.slot f := rfl

/-- What a step of a call on a server object does. -/
lemma serverCallStep_cases {pc pc' : ServerPc} (h : serverCallStep S r pc = some (pc', S')) :
    (∃ op, pc = .enter op ∧ S' = S ∧ (pc'.inProgress = true → (S.servers.slots r.slot).active = true)) ∨
      pc.inProgress = true ∧ S'.res = S.res ∧ S'.conns = S.conns ∧ S'.resCalls = S.resCalls ∧
        S'.serverCalls = S.serverCalls ∧ S'.resTouches = S.resTouches ∧
        S'.serverTouches = S.serverTouches ++ [S.servers.touch r] ∧
        ((∃ f, S'.servers = S.servers.modify r.slot f) ∨ S'.servers = S.servers.free r.slot) := by
  cases pc with
  | returned => cases h
  | enter op =>
    cases h
    refine .inl ⟨op, rfl, rfl, fun going => ?_⟩
    split at going
    case isTrue active => exact active
    case isFalse => cases going
  | free =>
    cases h
    exact .inr ⟨rfl, rfl, rfl, rfl, rfl, rfl, rfl, .inr rfl⟩
  | join =>
    simp only [serverCallStep] at h
    split at h
    · cases h
      exact .inr ⟨rfl, rfl, rfl, rfl, rfl, rfl, rfl, .inl ⟨_, HttpPools.serve_servers _⟩⟩
    · split at h <;> cases h
      exact .inr ⟨rfl, rfl, rfl, rfl, rfl, rfl, rfl, .inl ⟨_, HttpPools.serve_servers _⟩⟩
  | _ =>
    cases h
    exact .inr ⟨rfl, rfl, rfl, rfl, rfl, rfl, rfl, .inl ⟨_, HttpPools.serve_servers _⟩⟩

/-- What a step of a connection does. -/
lemma connStep_cases {ok : Bool} {c : Conn} {pc : ConnPc} (h : connStep S ok c = some (pc, S')) :
    (S' = S ∧ c.pc.ref? = none ∧ pc.ref? = none) ∨
      (c.pc = .alloc ∧ ∃ r res, S.res.alloc httpMaxActiveResponses {} = some (r, res) ∧ pc.ref? = some r ∧
        S' = { S with res }) ∨
      ∃ r, c.pc.ref? = some r ∧
        ((pc.ref? = some r ∧ S' = { S with resObjects := S.resObjects ++ [r] }) ∨
          (pc.ref? = some r ∧ ∃ f, S' =
            { S with res := S.res.modify r.slot f, resTouches := S.resTouches ++ [S.res.touch r] }) ∨
          pc.ref? = none ∧ S' =
            { S with res := S.res.free r.slot, resTouches := S.resTouches ++ [S.res.touch r] }) := by
  obtain ⟨server, at_c⟩ := c
  cases at_c with
  | ended => cases h
  | begun =>
    cases h
    refine .inl ⟨rfl, rfl, ?_⟩
    split <;> rfl
  | alloc =>
    simp only [connStep] at h
    split at h
    · cases h
      exact .inl ⟨rfl, rfl, rfl⟩
    case h_2 r res got =>
      cases h
      exact .inr (.inl ⟨rfl, r, res, got, rfl, rfl⟩)
  | build r =>
    cases h
    exact .inr (.inr ⟨r, rfl, .inl ⟨rfl, rfl⟩⟩)
  | free r =>
    cases h
    exact .inr (.inr ⟨r, rfl, .inr (.inr ⟨rfl, rfl⟩)⟩)
  | tls r | parse r | checkSent r =>
    cases h
    refine .inr (.inr ⟨r, rfl, .inr (.inl ⟨?_, _, rfl⟩)⟩)
    split <;> rfl
  | connect r | badRequest r | callback r | setStatus r | write r | markSent r | close r =>
    cases h
    exact .inr (.inr ⟨r, rfl, .inr (.inl ⟨rfl, _, rfl⟩)⟩)

/-! ### Connections keep apart -/

lemma HttpPools.has_set {c' : Conn} (same : S'.conns = S.conns.set k c') {j : Nat} (h : S'.Has j r) :
    (j ≠ k ∧ S.Has j r) ∨ (j = k ∧ c'.pc.ref? = some r) := by
  obtain ⟨c, there, ref⟩ := h
  rw [same, List.getElem?_set] at there
  split at there
  case isTrue e =>
    split at there
    · cases there
      exact .inr ⟨e.symm, ref⟩
    · cases there
  case isFalse ne => exact .inl ⟨fun e => ne e.symm, c, there, ref⟩

/-- A connection goes on in its slot. -/
lemma Apart.go {c c' : Conn} (h : Apart S) (there : S.conns[k]? = some c) (conns : S'.conns = S.conns.set k c')
    (ref : ∀ r, c'.pc.ref? = some r → c.pc.ref? = some r)
    (owns : ∀ j r, S'.Has j r → S.Has j r → S'.res.Owns r) : Apart S' := by
  have before {j : Nat} {r : SlotRef} (has : S'.Has j r) : S.Has j r := by
    rcases HttpPools.has_set conns has with ⟨-, has⟩ | ⟨rfl, now⟩
    · exact has
    · exact ⟨c, there, ref r now⟩
  constructor
  · intro j r has
    exact owns j r has (before has)
  · intro i j r r' hi hj ne
    exact h.apart i j r r' (before hi) (before hj) ne

/-- A connection gets a slot. -/
lemma Apart.get {c : Conn} {res : Pool HttpResCtx} {r' : SlotRef} {size : Nat} {d : HttpResCtx} (h : Apart S)
    (conns : S'.conns = S.conns.set k c) (got : S.res.alloc size d = some (r', res)) (now : c.pc.ref? = some r')
    (pool : S'.res = res) : Apart S' := by
  have cases' {j : Nat} {r : SlotRef} (has : S'.Has j r) : (j ≠ k ∧ S.Has j r) ∨ (j = k ∧ r = r') := by
    rcases HttpPools.has_set conns has with old | ⟨rfl, ref⟩
    · exact .inl old
    · rw [now] at ref
      cases ref
      exact .inr ⟨rfl, rfl⟩
  constructor
  · intro j r has
    rw [pool]
    rcases cases' has with ⟨-, old⟩ | ⟨-, rfl⟩
    · exact ((h.owns j r old).alloc got).1
    · exact (alloc_some got).2.2.1
  · intro i j r s hi hj ne
    rcases cases' hi with ⟨-, old_i⟩ | ⟨rfl, rfl⟩
    · rcases cases' hj with ⟨-, old_j⟩ | ⟨rfl, rfl⟩
      · exact h.apart i j r s old_i old_j ne
      · exact ((h.owns i r old_i).alloc got).2
    · rcases cases' hj with ⟨-, old_j⟩ | ⟨rfl, rfl⟩
      · exact fun e => ((h.owns j s old_j).alloc got).2 e.symm
      · exact absurd rfl ne

lemma Apart.same (h : Apart S) (conns : S'.conns = S.conns) (owns : ∀ r, S.res.Owns r → S'.res.Owns r) :
    Apart S' := by
  have before {j : Nat} {r : SlotRef} (has : S'.Has j r) : S.Has j r := by
    obtain ⟨c, there, ref⟩ := has
    exact ⟨c, conns ▸ there, ref⟩
  constructor
  · intro j r has
    exact owns r (h.owns j r (before has))
  · intro i j r r' hi hj ne
    exact h.apart i j r r' (before hi) (before hj) ne

/-- What is left of a step that is part of the system's. -/
lemma httpStep_conn {ok : Bool} (h : httpPools.step S (.conn k ok) = some S') :
    ∃ c pc T, S.conns[k]? = some c ∧ connStep S ok c = some (pc, T) ∧
      S' = { T with conns := S.conns.set k { c with pc } } := by
  obtain ⟨c, there, h⟩ := Option.bind_eq_some_iff.mp h
  obtain ⟨⟨pc, T⟩, stepped, rfl⟩ := Option.map_eq_some_iff.mp h
  exact ⟨c, pc, T, there, stepped, rfl⟩

lemma httpStep_res (h : httpPools.step S (.res k) = some S') :
    ∃ r pc pc' T, S.resCalls[k]? = some (r, pc) ∧ resCallStep S r pc = some (pc', T) ∧
      S' = { T with resCalls := S.resCalls.set k (r, pc') } := by
  obtain ⟨⟨r, pc⟩, there, h⟩ := Option.bind_eq_some_iff.mp h
  obtain ⟨⟨pc', T⟩, stepped, rfl⟩ := Option.map_eq_some_iff.mp h
  exact ⟨r, pc, pc', T, there, stepped, rfl⟩

lemma httpStep_server (h : httpPools.step S (.server k) = some S') :
    ∃ r pc pc' T, S.serverCalls[k]? = some (r, pc) ∧ serverCallStep S r pc = some (pc', T) ∧
      S' = { T with serverCalls := S.serverCalls.set k (r, pc') } := by
  obtain ⟨⟨r, pc⟩, there, h⟩ := Option.bind_eq_some_iff.mp h
  obtain ⟨⟨pc', T⟩, stepped, rfl⟩ := Option.map_eq_some_iff.mp h
  exact ⟨r, pc, pc', T, there, stepped, rfl⟩

/-- Every step keeps the connections apart. -/
lemma step_apart (step : httpPools.step S a = some S') (h : Apart S) : Apart S' := by
  cases a with
  | createServer callback =>
    simp only [httpPools, httpStep] at step
    split at step <;> cases step
    exact h.same rfl fun _ owns => owns
  | callRes object op | callServer object op =>
    obtain ⟨r, -, rfl⟩ := Option.map_eq_some_iff.mp step
    exact h.same rfl fun _ owns => owns
  | res k =>
    obtain ⟨r, pc, pc', T, -, stepped, rfl⟩ := httpStep_res step
    rcases resCallStep_cases stepped with ⟨op, -, rfl, -⟩ | ⟨-, f, rfl⟩
    · exact h.same rfl fun _ owns => owns
    · exact h.same rfl fun _ owns => owns.modify f
  | server k =>
    obtain ⟨r, pc, pc', T, -, stepped, rfl⟩ := httpStep_server step
    rcases serverCallStep_cases stepped with ⟨op, -, rfl, -⟩ | ⟨-, res, conns, -⟩
    · exact h.same rfl fun _ owns => owns
    · exact h.same conns fun r owns => (congrArg (·.Owns r) res).mpr owns
  | accept t =>
    obtain ⟨thread, -, step⟩ := Option.bind_eq_some_iff.mp step
    split at step <;> cases step
    have before {j : Nat} {r : SlotRef} (has : ({ S with
        conns := S.conns ++ [{ server := thread.server }] } : HttpPools).Has j r) : S.Has j r := by
      obtain ⟨c, there, ref⟩ := has
      rcases Nat.lt_trichotomy j S.conns.length with low | rfl | high
      · exact ⟨c, (List.getElem?_append_left low).symm.trans there, ref⟩
      · rw [List.getElem?_concat_length] at there
        cases there
        cases ref
      · rw [List.getElem?_eq_none (by rw [List.length_append]; exact high)] at there
        cases there
    constructor
    · intro j r has
      exact h.owns j r (before has)
    · intro i j r r' hi hj ne
      exact h.apart i j r r' (before hi) (before hj) ne
  | acceptEnds t =>
    obtain ⟨thread, -, step⟩ := Option.bind_eq_some_iff.mp step
    split at step <;> cases step
    exact h.same rfl fun _ owns => owns
  | conn k ok =>
    obtain ⟨c, pc, T, there, stepped, rfl⟩ := httpStep_conn step
    rcases connStep_cases stepped with ⟨rfl, -, none⟩ | ⟨-, r, res, got, ref, rfl⟩ | ⟨r, ref, moved⟩
    · refine h.go there rfl (fun r e => ?_) fun j r _ has => h.owns j r has
      cases none.symm.trans e
    · exact h.get rfl got ref rfl
    · have mine : S.Has k r := ⟨c, there, ref⟩
      rcases moved with ⟨ref', rfl⟩ | ⟨ref', f, rfl⟩ | ⟨none, rfl⟩
      · exact h.go there rfl (fun s e => ref.trans (ref'.symm.trans e)) fun j r _ has => h.owns j r has
      · refine h.go there rfl (fun s e => ref.trans (ref'.symm.trans e)) fun j r _ has => ?_
        exact (h.owns j r has).modify f
      · refine h.go there rfl (fun s e => ?_) fun j s now has => ?_
        · cases none.symm.trans e
        · have other : j ≠ k := by
            rintro rfl
            rcases HttpPools.has_set rfl now with ⟨ne, -⟩ | ⟨-, e⟩
            · exact ne rfl
            · cases none.symm.trans e
          exact (h.owns j s has).free (h.apart j k s r has mine other)

/-- In every run the connections work in slots of their own. -/
lemma run_apart {as : List HttpAct} (r : httpPools.Run All {} as S) : Apart S := by
  refine r.invariant (I := Apart) (fun S a S' _ step h => step_apart step h) ⟨?_, ?_⟩
  · rintro k r ⟨c, there, -⟩
    cases there
  · rintro j k r r' ⟨c, there, -⟩
    cases there

/-! ### Calls work on what they were made for -/

lemma concat_directed {ts : List Touch} {t : Touch} (h : ∀ t ∈ ts, t.Directed) (new : t.Directed) :
    ∀ t' ∈ ts ++ [t], t'.Directed := by
  intro t' mem
  rcases List.mem_append.mp mem with before | last
  · exact h t' before
  · exact List.mem_singleton.mp last ▸ new

/-- A step of a call on a `res` object. -/
lemma Directed.resStep {pc pc' : ResPc} (h : Directed S) (there : S.resCalls[k]? = some (r, pc))
    (keeps : ∀ op, pc = .enter op → ¬ S.res.Lost r) (stepped : resCallStep S r pc = some (pc', S')) :
    Directed { S' with resCalls := S.resCalls.set k (r, pc') } := by
  rcases resCallStep_cases stepped with ⟨op, entering, rfl, active⟩ | ⟨going, f, rfl⟩
  · refine ⟨?_, h.servers, h.resTouches, h.serverTouches⟩
    apply forall_set
    · exact fun going => holds_of_active (active going) (keeps op entering)
    · exact fun j c _ there => h.res j c there
  · have holds := h.res k _ there going
    refine ⟨?_, h.servers, concat_directed h.resTouches holds.directed, h.serverTouches⟩
    apply forall_set
    · exact fun _ => holds.modify f
    · exact fun j c _ there going => (h.res j c there going).modify f

/-- A step of a call on a server object. -/
lemma Directed.serverStep {pc pc' : ServerPc} (h : Directed S) (there : S.serverCalls[k]? = some (r, pc))
    (keeps : ∀ op, pc = .enter op → ¬ S.servers.Lost r) (stepped : serverCallStep S r pc = some (pc', S')) :
    Directed { S' with serverCalls := S.serverCalls.set k (r, pc') } := by
  rcases serverCallStep_cases stepped with
    ⟨op, entering, rfl, active⟩ | ⟨going, res, -, resCalls, -, resTouches, serverTouches, servers⟩
  · refine ⟨h.res, ?_, h.resTouches, h.serverTouches⟩
    apply forall_set
    · exact fun going => holds_of_active (active going) (keeps op entering)
    · exact fun j c _ there => h.servers j c there
  · have holds := h.servers k _ there going
    have kept {s : SlotRef} (holds : S.servers.Holds s) : S'.servers.Holds s := by
      rcases servers with ⟨f, e⟩ | e
      · exact e ▸ holds.modify f
      · exact e ▸ holds.free
    refine ⟨?_, ?_, resTouches ▸ h.resTouches, serverTouches ▸ concat_directed h.serverTouches holds.directed⟩
    · intro j c there going
      rw [show S'.res = S.res from res]
      exact h.res j c (resCalls ▸ there) going
    · apply forall_set
      · exact fun _ => kept holds
      · exact fun j c _ there going => kept (h.servers j c there going)

/-- A step of a connection. -/
lemma Directed.connStep {ok : Bool} {c : Conn} {pc : ConnPc} {cs : List Conn} (h : Directed S) (apart : Apart S)
    (there : S.conns[k]? = some c)
    (keeps : ∀ r res, c.pc = .alloc → S.res.alloc httpMaxActiveResponses {} = some (r, res) →
      ∀ (j : Nat) (d : SlotRef × ResPc), S.resCalls[j]? = some d → d.2.inProgress = true → d.1.slot ≠ r.slot)
    (stepped : connStep S ok c = some (pc, S')) : Directed { S' with conns := cs } := by
  rcases connStep_cases stepped with ⟨rfl, -⟩ | ⟨at_alloc, r, res, got, -, rfl⟩ | ⟨r, ref, moved⟩
  · exact ⟨h.res, h.servers, h.resTouches, h.serverTouches⟩
  · refine ⟨fun j d here going => ?_, h.servers, h.resTouches, h.serverTouches⟩
    exact (h.res j d here going).alloc got (keeps r res at_alloc got j d here going)
  · have owns : S.res.Owns r := apart.owns k r ⟨c, there, ref⟩
    rcases moved with ⟨-, rfl⟩ | ⟨-, f, rfl⟩ | ⟨-, rfl⟩
    · exact ⟨h.res, h.servers, h.resTouches, h.serverTouches⟩
    · refine ⟨?_, h.servers, concat_directed h.resTouches owns.holds.directed, h.serverTouches⟩
      exact fun j d here going => (h.res j d here going).modify f
    · refine ⟨?_, h.servers, concat_directed h.resTouches owns.holds.directed, h.serverTouches⟩
      exact fun j d here going => (h.res j d here going).free

/-- No call in progress is in the slot that is given out. -/
lemma elsewhere {κ δ : Type} {p p' : Pool δ} {going : κ → Bool} {calls : List (SlotRef × κ)} {size : Nat} {d : δ}
    (free : (calls.any fun c => going c.2 && p.firstFree size 0 == some c.1.slot) = false)
    (got : p.alloc size d = some (r, p')) {j : Nat} {c : SlotRef × κ} (there : calls[j]? = some c)
    (inside : going c.2 = true) : c.1.slot ≠ r.slot := by
  intro same
  have out := List.any_eq_false.mp free c (List.mem_of_getElem? there)
  rw [inside, (alloc_some got).1, same] at out
  simp at out

/-- A step that recycles nothing under a call keeps all calls directed. -/
lemma step_directed (right : S.recycles a = false) (step : httpPools.step S a = some S') (apart : Apart S)
    (h : Directed S) : Directed S' := by
  cases a with
  | createServer callback =>
    simp only [httpPools, httpStep] at step
    split at step
    · cases step
    case h_2 r servers got =>
      cases step
      refine ⟨h.res, ?_, h.resTouches, h.serverTouches⟩
      exact fun j c there going => (h.servers j c there going).alloc got (elsewhere right got there going)
  | callRes object op =>
    obtain ⟨r, -, rfl⟩ := Option.map_eq_some_iff.mp step
    refine ⟨?_, h.servers, h.resTouches, h.serverTouches⟩
    apply forall_concat
    · rintro ⟨⟩
    · exact h.res
  | callServer object op =>
    obtain ⟨r, -, rfl⟩ := Option.map_eq_some_iff.mp step
    refine ⟨h.res, ?_, h.resTouches, h.serverTouches⟩
    apply forall_concat
    · rintro ⟨⟩
    · exact h.servers
  | res k =>
    obtain ⟨r, pc, pc', T, there, stepped, rfl⟩ := httpStep_res step
    refine h.resStep there (fun op e => ?_) stepped
    subst e
    simp only [HttpPools.recycles, there] at right
    exact of_decide_eq_false right
  | server k =>
    obtain ⟨r, pc, pc', T, there, stepped, rfl⟩ := httpStep_server step
    refine h.serverStep there (fun op e => ?_) stepped
    subst e
    simp only [HttpPools.recycles, there] at right
    exact of_decide_eq_false right
  | accept t =>
    obtain ⟨thread, -, step⟩ := Option.bind_eq_some_iff.mp step
    split at step <;> cases step
    exact ⟨h.res, h.servers, h.resTouches, h.serverTouches⟩
  | acceptEnds t =>
    obtain ⟨thread, -, step⟩ := Option.bind_eq_some_iff.mp step
    split at step <;> cases step
    exact ⟨h.res, h.servers, h.resTouches, h.serverTouches⟩
  | conn k ok =>
    obtain ⟨c, pc, T, there, stepped, rfl⟩ := httpStep_conn step
    refine h.connStep apart there (fun r res at_alloc got j d here going => ?_) stepped
    simp only [HttpPools.recycles, there, Option.map_some, at_alloc, beq_self_eq_true, Bool.true_and] at right
    exact elsewhere right got here going

/-- A server listens and serves two connections, one after the other, in the same slot; `again` is what comes after the
first has been answered. -/
def twoConnections (again : List HttpAct) : List HttpAct :=
  ([.createServer 7, .callServer 0 (.listen (some 3) 80)] : List HttpAct) ++
    (List.replicate 5 (.server 0) : List HttpAct) ++ ([.accept 0, .accept 0] : List HttpAct) ++
    (List.replicate 6 (.conn 0 true) : List HttpAct) ++
    ([.callRes 0 (.call (.send [111, 107]))] : List HttpAct) ++
    (List.replicate 4 (.res 0) : List HttpAct) ++ (List.replicate 4 (.conn 0 true) : List HttpAct) ++ again

end Slots

end Cando
