import Cando.Core.Value
import Cando.Lib.Interleaving

/-!
# Modules

`include` of `lib/include.c` on one VM: the module cache, which is looked at before a module is loaded and filled
after its body has run. A run is any sequence of calls, each made by code of any module that is being loaded, and of
ends of bodies; the bodies themselves may do and yield anything.
-/

namespace Cando

open Interleaving

variable {ν : Type}

/-- A `CandoModuleEntry`. -/
structure CandoModuleEntry (ν : Type) where
  path : Str
  values : List (Value ν)
  deriving DecidableEq, Repr

/-- What `load_script` finds at a path. -/
inductive ScriptFile where
  | cannotOpen
  | cannotSeek
  | cannotSize
  | parseError (msg : Str)
  | parsed
  deriving DecidableEq, Repr

/-- What `load_binary` finds at a path. -/
inductive BinaryFile where
  | cannotLoad (dlerror : Str)
  | noInit
  | loaded
  deriving DecidableEq, Repr

/-- The error that a script does not get past. -/
def ScriptFile.error (path : Str) : ScriptFile → Option Str
  | .cannotOpen => some (bytes "include: cannot open '" ++ path ++ bytes "'")
  | .cannotSeek => some (bytes "include: cannot seek '" ++ path ++ bytes "'")
  | .cannotSize => some (bytes "include: cannot determine size of '" ++ path ++ bytes "'")
  | .parseError msg => some (bytes "include parse error in '" ++ path ++ bytes "': " ++ msg)
  | .parsed => none

def BinaryFile.error (path : Str) : BinaryFile → Option Str
  | .cannotLoad dlerror => some (bytes "include: cannot load binary '" ++ path ++ bytes "': " ++ dlerror)
  | .noInit => some (bytes "include: binary '" ++ path ++ bytes "' has no cando_module_init symbol")
  | .loaded => none

/-- The module files. -/
structure ModuleFiles where
  script : Str → ScriptFile
  binary : Str → BinaryFile

/-- `path_is_binary`. -/
def pathIsBinary (p : Str) : Bool :=
  3 < p.length && (bytes ".so").isSuffixOf p || 6 < p.length && (bytes ".dylib").isSuffixOf p ||
    4 < p.length && (bytes ".dll").isSuffixOf p

/-- The error with which `load_script` or `load_binary` stops in front of the body. -/
def ModuleFiles.error (files : ModuleFiles) (path : Str) : Option Str :=
  if pathIsBinary path then (files.binary path).error path else (files.script path).error path

/-- `cache_find`. -/
def cacheFind (cache : List (CandoModuleEntry ν)) (canonical : Str) : Option (CandoModuleEntry ν) :=
  cache.find? fun e => e.path = canonical

/-- `cache_insert`. -/
def cacheInsert (cache : List (CandoModuleEntry ν)) (canonical : Str) (values : List (Value ν)) :
    List (CandoModuleEntry ν) :=
  cache ++ [{ path := canonical, values }]

/-- A call of `native_include` that is executing a body; `failed` after an error of the body was caught by a `TRY`
outside it, for then the call is not left. -/
structure Loading where
  path : Str
  failed : Bool := false
  deriving DecidableEq, Repr

/-- What happens to modules: a body is started, while some are being loaded; it fails; a call returns values, or has an
error before a body is started. -/
inductive IncludeEvent (ν : Type) where
  | started (path : Str) (during : List Str)
  | failed (path : Str)
  | returned (path : Str) (values : List (Value ν))
  | refused (msg : Str)
  deriving DecidableEq, Repr

/-- The modules of a VM; the calls that are executing a body, innermost first; and what has happened. -/
structure Modules (ν : Type) where
  moduleCache : List (CandoModuleEntry ν) := []
  loading : List Loading := []
  log : List (IncludeEvent ν) := []
  deriving DecidableEq, Repr

/-- A call with its arguments and the outcome of `resolve_path`; the end of the innermost body, with its values unless
an error goes through it; an error of the innermost body that is caught outside it. -/
inductive IncludeAct (ν : Type) where
  | call (args : List (Value ν)) (resolved : Option Str)
  | finish (values : Option (List (Value ν)))
  | escape
  deriving DecidableEq, Repr

namespace Modules

/-- The modules whose bodies are being executed. -/
def active (s : Modules ν) : List Str := (s.loading.filter fun l => !l.failed).map Loading.path

def record (s : Modules ν) (e : IncludeEvent ν) : Modules ν := { s with log := s.log ++ [e] }

/-- `native_include` up to the body. -/
def call (files : ModuleFiles) (s : Modules ν) (args : List (Value ν)) (resolved : Option Str) : Modules ν :=
  match args with
  | .string raw :: _ =>
    match resolved with
    | none => s.record (.refused (bytes "include: cannot resolve path '" ++ raw ++ bytes "'"))
    | some canonical =>
      match cacheFind s.moduleCache canonical with
      | some cached => s.record (.returned canonical cached.values)
      | none =>
        match files.error canonical with
        | some msg => s.record (.refused msg)
        | none =>
          { s with
            loading := { path := canonical } :: s.loading
            log := s.log ++ [.started canonical s.active] }
  | _ => s.record (.refused (bytes "include: path must be a string"))

/-- `native_include` from the end of the body; a binary module yields one value. -/
def finish (s : Modules ν) (values : Option (List (Value ν))) : Option (Modules ν) :=
  match s.loading with
  | [] => none
  | l :: rest =>
    match values with
    | some values =>
      if pathIsBinary l.path ∧ values.length ≠ 1 then none
      else
        some
          { moduleCache := cacheInsert s.moduleCache l.path values
            loading := rest
            log := s.log ++ [.returned l.path values] }
    | none =>
      let s := { s with loading := rest }
      some (if l.failed then s else s.record (.failed l.path))

/-- The innermost body that has not failed fails. -/
def failInnermost : List Loading → Option (Str × List Loading)
  | [] => none
  | l :: rest =>
    if l.failed then (failInnermost rest).map fun r => (r.1, l :: r.2)
    else some (l.path, { l with failed := true } :: rest)

/-- `handle_error` in the `vm_run` of a body finds a `TRY` of the code that included it. -/
def escape (s : Modules ν) : Option (Modules ν) :=
  (failInnermost s.loading).map fun r => { s with loading := r.2, log := s.log ++ [.failed r.1] }

end Modules

/-- The calls in any order. -/
def modules (ν : Type) (files : ModuleFiles) : Interleaving (Modules ν) (IncludeAct ν) where
  step s
    | .call args resolved => some (s.call files args resolved)
    | .finish values => s.finish values
    | .escape => s.escape

namespace Modules

/-- What the cache is there for. -/
structure Orderly (s : Modules ν) : Prop where
  /-- a body is started again only after it has failed -/
  once : ∀ p xs ys zs d d', s.log = xs ++ .started p d :: ys ++ .started p d' :: zs → .failed p ∈ ys
  /-- no body is started while it is being executed -/
  noRecursion : ∀ p d, .started p d ∈ s.log → p ∉ d
  /-- all calls that return yield the same values -/
  same : ∀ p vs vs', .returned p vs ∈ s.log → .returned p vs' ∈ s.log → vs = vs'

/-- No module is included while its body is being executed, and no error leaves a body for a `TRY` outside it. -/
def Acyclic (s : Modules ν) : IncludeAct ν → Prop
  | .call _ resolved => ∀ p, resolved = some p → p ∉ s.active
  | .finish _ => True
  | .escape => False

/-! ### The invariant -/

section Log

variable {log : List (IncludeEvent ν)} {e : IncludeEvent ν} {p : Str}

/-- A body has been started and has not failed since. -/
def Begun (log : List (IncludeEvent ν)) (p : Str) : Prop :=
  ∃ xs ys d, log = xs ++ .started p d :: ys ∧ .failed p ∉ ys

/-- A place in a log that has grown by one event. -/
lemma concat_split {x : IncludeEvent ν} {xs ys : List (IncludeEvent ν)} (h : log ++ [e] = xs ++ x :: ys) :
    (ys = [] ∧ e = x ∧ log = xs) ∨ ∃ ys', ys = ys' ++ [e] ∧ log = xs ++ x :: ys' := by
  obtain rfl | ⟨ys', y, rfl⟩ := List.eq_nil_or_concat ys
  · obtain ⟨rfl, same⟩ := List.append_inj' h rfl
    exact .inl ⟨rfl, (List.cons.inj same).1, rfl⟩
  · rw [List.concat_eq_append] at h ⊢
    have h' : log ++ [e] = (xs ++ x :: ys') ++ [y] := by
      rw [h, List.append_assoc, List.cons_append]
    obtain ⟨rfl, same⟩ := List.append_inj' h' rfl
    obtain rfl := (List.cons.inj same).1
    exact .inr ⟨ys', rfl, rfl⟩

lemma Begun.of_concat (b : Begun (log ++ [e]) p) : (∃ d, e = .started p d) ∨ Begun log p ∧ e ≠ .failed p := by
  obtain ⟨xs, ys, d, split, fine⟩ := b
  obtain ⟨rfl, rfl, rfl⟩ | ⟨ys', rfl, rfl⟩ := concat_split split
  · exact .inl ⟨d, rfl⟩
  · rw [List.mem_append, not_or, List.mem_singleton] at fine
    exact .inr ⟨⟨xs, ys', d, rfl, fine.1⟩, fun h => fine.2 h.symm⟩

/-- Each body was started when it had not begun. -/
def Fresh (log : List (IncludeEvent ν)) : Prop := ∀ p xs zs d, log = xs ++ .started p d :: zs → ¬ Begun xs p

lemma Fresh.concat (f : Fresh log) (fresh : ∀ p d, e = .started p d → ¬ Begun log p) : Fresh (log ++ [e]) := by
  intro p xs zs d split
  obtain ⟨rfl, rfl, rfl⟩ | ⟨zs', rfl, rfl⟩ := concat_split split
  · exact fresh p d rfl
  · exact f p xs zs' d rfl

end Log

variable {files : ModuleFiles} {s s' : Modules ν} {p : Str} {e : IncludeEvent ν}

/-- The cache and the calls agree with what has happened. -/
structure Good (s : Modules ν) : Prop where
  clean : ∀ l ∈ s.loading, l.failed = false
  uncached : ∀ l ∈ s.loading, cacheFind s.moduleCache l.path = none
  distinct : (s.loading.map Loading.path).Nodup
  returned : ∀ p vs, .returned p vs ∈ s.log → ∃ cached, cacheFind s.moduleCache p = some cached ∧ cached.values = vs
  begun : ∀ p, Begun s.log p → p ∈ s.loading.map Loading.path ∨ cacheFind s.moduleCache p ≠ none
  fresh : Fresh s.log
  noRecursion : ∀ p d, .started p d ∈ s.log → p ∉ d

lemma Good.orderly (g : Good s) : s.Orderly where
  once p xs ys zs d d' split := by
    by_contra fine
    have split' : s.log = (xs ++ .started p d :: ys) ++ .started p d' :: zs := by
      rw [split, List.append_assoc]
    exact g.fresh p _ zs d' split' ⟨xs, ys, d, rfl, fine⟩
  noRecursion := g.noRecursion
  same p vs vs' h h' := by
    obtain ⟨cached, found, rfl⟩ := g.returned p vs h
    obtain ⟨cached', found', rfl⟩ := g.returned p vs' h'
    rw [found] at found'
    cases found'
    rfl

lemma Good.active (g : Good s) : s.active = s.loading.map Loading.path := by
  rw [Modules.active, List.filter_eq_self.mpr]
  intro l mem
  rw [g.clean l mem]
  rfl

/-- An event that starts nothing and returns what is in the cache. -/
lemma Good.record (g : Good s) (plain : ∀ p d, e ≠ .started p d)
    (known : ∀ p vs, e = .returned p vs → ∃ cached, cacheFind s.moduleCache p = some cached ∧ cached.values = vs) :
    Good (s.record e) where
  clean := g.clean
  uncached := g.uncached
  distinct := g.distinct
  returned p vs mem := by
    rcases List.mem_append.mp mem with mem | mem
    · exact g.returned p vs mem
    · exact known p vs (List.mem_singleton.mp mem).symm
  begun p b := by
    obtain ⟨d, here⟩ | ⟨b, -⟩ := b.of_concat
    · exact absurd here (plain p d)
    · exact g.begun p b
  fresh := g.fresh.concat fun p d here => absurd here (plain p d)
  noRecursion p d mem := by
    rcases List.mem_append.mp mem with mem | mem
    · exact g.noRecursion p d mem
    · exact absurd (List.mem_singleton.mp mem).symm (plain p d)

lemma Good.call {args : List (Value ν)} {resolved : Option Str} (g : Good s)
    (acyclic : s.Acyclic (.call args resolved)) : Good (s.call files args resolved) := by
  have refused : ∀ msg, Good (s.record (.refused msg)) := fun msg =>
    g.record (by rintro p d ⟨⟩) (by rintro p vs ⟨⟩)
  rw [Modules.call.eq_def]
  split
  · rename_i raw _
    cases resolved with
    | none => exact refused _
    | some canonical =>
      have outside : canonical ∉ s.loading.map Loading.path := g.active ▸ acyclic canonical rfl
      simp only
      cases found : cacheFind s.moduleCache canonical with
      | some cached =>
        refine g.record (by rintro p d ⟨⟩) ?_
        rintro p vs ⟨⟩
        exact ⟨cached, found, rfl⟩
      | none =>
        simp only
        cases files.error canonical with
        | some msg => exact refused msg
        | none =>
          constructor
          · exact List.forall_mem_cons.mpr ⟨rfl, g.clean⟩
          · exact List.forall_mem_cons.mpr ⟨found, g.uncached⟩
          · exact List.nodup_cons.mpr ⟨outside, g.distinct⟩
          · intro p vs mem
            rcases List.mem_append.mp mem with mem | mem
            · exact g.returned p vs mem
            · cases List.mem_singleton.mp mem
          · intro p b
            obtain ⟨d, here⟩ | ⟨b, -⟩ := b.of_concat
            · cases here
              exact .inl List.mem_cons_self
            · exact (g.begun p b).imp_left (List.mem_cons_of_mem canonical)
          · refine g.fresh.concat fun p d here b => ?_
            cases here
            obtain loading | cached := g.begun _ b
            · exact outside loading
            · exact cached found
          · intro p d mem
            rcases List.mem_append.mp mem with mem | mem
            · exact g.noRecursion p d mem
            · cases List.mem_singleton.mp mem
              rw [g.active]
              exact outside
  · exact refused _

lemma cacheFind_insert {p : Str} {cache : List (CandoModuleEntry ν)} {canonical : Str} {values : List (Value ν)} :
    cacheFind (cacheInsert cache canonical values) p =
      (cacheFind cache p).or (if canonical = p then some ⟨canonical, values⟩ else none) := by
  rw [cacheFind, cacheInsert, List.find?_append, cacheFind]
  congr 1
  by_cases e : canonical = p
  · simp only [List.find?_cons, e, decide_true, if_true]
  · simp only [List.find?_cons, e, decide_false, if_false, List.find?_nil]

/-- The innermost call is left. -/
lemma Good.drop {l : Loading} {rest : List Loading} (g : Good s) (loading : s.loading = l :: rest) :
    (∀ l' ∈ rest, l'.failed = false) ∧ (∀ l' ∈ rest, cacheFind s.moduleCache l'.path = none) ∧
      l.path ∉ rest.map Loading.path ∧ (rest.map Loading.path).Nodup ∧ cacheFind s.moduleCache l.path = none ∧
      l.failed = false := by
  have clean := g.clean
  have uncached := g.uncached
  have distinct := g.distinct
  rw [loading] at clean uncached distinct
  obtain ⟨here, clean⟩ := List.forall_mem_cons.mp clean
  obtain ⟨mine, uncached⟩ := List.forall_mem_cons.mp uncached
  obtain ⟨other, distinct⟩ := List.nodup_cons.mp distinct
  exact ⟨clean, uncached, other, distinct, mine, here⟩

/-- A body that has yielded values is in the cache. -/
lemma Good.insert {l : Loading} {rest : List Loading} {values : List (Value ν)} (g : Good s)
    (loading : s.loading = l :: rest) :
    Good
      { moduleCache := cacheInsert s.moduleCache l.path values
        loading := rest
        log := s.log ++ [.returned l.path values] } := by
  obtain ⟨clean, uncached, other, distinct, mine, -⟩ := g.drop loading
  constructor
  · exact clean
  · intro l' mem
    have ne : l.path ≠ l'.path := fun e => other (e ▸ List.mem_map_of_mem mem)
    rw [cacheFind_insert, uncached l' mem, if_neg ne]
    rfl
  · exact distinct
  · intro p vs mem
    rw [cacheFind_insert]
    rcases List.mem_append.mp mem with mem | mem
    · obtain ⟨cached, found, same⟩ := g.returned p vs mem
      exact ⟨cached, by rw [found, Option.some_or], same⟩
    · cases List.mem_singleton.mp mem
      exact ⟨⟨l.path, values⟩, by rw [mine, Option.none_or, if_pos rfl], rfl⟩
  · intro p b
    rw [cacheFind_insert]
    obtain ⟨d, here⟩ | ⟨b, -⟩ := b.of_concat
    · cases here
    · by_cases e : l.path = p
      · right
        rw [if_pos e]
        cases cacheFind s.moduleCache p <;> simp
      · rw [if_neg e, Option.or_none]
        refine (g.begun p b).imp_left fun mem => ?_
        rw [loading] at mem
        exact (List.mem_cons.mp mem).resolve_left fun same => e same.symm
  · exact g.fresh.concat (by rintro p d ⟨⟩)
  · intro p d mem
    rcases List.mem_append.mp mem with mem | mem
    · exact g.noRecursion p d mem
    · cases List.mem_singleton.mp mem

/-- A body that has failed may be started again. -/
lemma Good.fail {l : Loading} {rest : List Loading} (g : Good s) (loading : s.loading = l :: rest) :
    Good { s with loading := rest, log := s.log ++ [.failed l.path] } := by
  obtain ⟨clean, uncached, other, distinct, -, -⟩ := g.drop loading
  constructor
  · exact clean
  · exact uncached
  · exact distinct
  · intro p vs mem
    rcases List.mem_append.mp mem with mem | mem
    · exact g.returned p vs mem
    · cases List.mem_singleton.mp mem
  · intro p b
    obtain ⟨d, here⟩ | ⟨b, ne⟩ := b.of_concat
    · cases here
    · refine (g.begun p b).imp_left fun mem => ?_
      rw [loading] at mem
      exact (List.mem_cons.mp mem).resolve_left fun same => ne (same ▸ rfl)
  · exact g.fresh.concat (by rintro p d ⟨⟩)
  · intro p d mem
    rcases List.mem_append.mp mem with mem | mem
    · exact g.noRecursion p d mem
    · cases List.mem_singleton.mp mem

lemma Good.finish {values : Option (List (Value ν))} (g : Good s) (h : s.finish values = some s') : Good s' := by
  cases loading : s.loading with
  | nil =>
    rw [Modules.finish, loading] at h
    cases h
  | cons l rest =>
    rw [Modules.finish, loading] at h
    cases values with
    | some values =>
      simp only [Option.ite_none_left_eq_some] at h
      obtain ⟨-, e⟩ := h
      cases e
      exact g.insert loading
    | none =>
      have here : l.failed = false := (g.drop loading).2.2.2.2.2
      simp only [here] at h
      cases h
      exact g.fail loading

lemma Good.init : Good ({} : Modules ν) where
  clean := by simp
  uncached := by simp
  distinct := List.nodup_nil
  returned := by simp
  begun p b := by
    obtain ⟨xs, ys, d, split, -⟩ := b
    exact absurd split (List.append_ne_nil_of_right_ne_nil xs (List.cons_ne_nil _ _)).symm
  fresh p xs zs d split := absurd split (List.append_ne_nil_of_right_ne_nil xs (List.cons_ne_nil _ _)).symm
  noRecursion := by simp

/-- In every run without cycles and escapes the modules are orderly. -/
theorem modules_orderly {as : List (IncludeAct ν)} (r : (modules ν files).Run Acyclic {} as s) : s.Orderly := by
  have good : Good s := by
    refine r.invariant (fun s a s' acyclic h g => ?_) .init
    cases a with
    | call args resolved =>
      cases h
      exact g.call acyclic
    | finish values => exact g.finish h
    | escape => exact acyclic.elim
  exact good.orderly

/-- All files are scripts that can be parsed. -/
def parsedFiles : ModuleFiles := ⟨fun _ => .parsed, fun _ => .loaded⟩

/-- The check of `Acyclic`. -/
def isAcyclic (s : Modules ν) : IncludeAct ν → Bool
  | .call _ (some p) => !s.active.contains p
  | .call _ none | .finish _ => true
  | .escape => false

/-- A module includes another one, which fails and is then included again; the values of the first are kept. -/
theorem modules_orderly_nested :
    ∃ s : Modules Nat, s.log.length = 6 ∧ s.Orderly := by
  let call (p : UInt8) : IncludeAct Nat := .call [.string [p]] (some [47, p])
  let schedule := [call 97, call 98, .finish none, call 98, .finish (some []), .finish (some [.number 7])]
  let s : Modules Nat :=
    { moduleCache := [⟨[47, 98], []⟩, ⟨[47, 97], [.number 7]⟩]
      log := [.started [47, 97] [], .started [47, 98] [[47, 97]], .failed [47, 98], .started [47, 98] [[47, 97]],
        .returned [47, 98] [], .returned [47, 97] [.number 7]] }
  have run : (modules Nat parsedFiles).Run Acyclic {} schedule s := by
    refine .of_restrict (g := isAcyclic) (by decide) fun s a passes => ?_
    cases a with
    | call args resolved =>
      rintro p rfl
      simpa [isAcyclic] using passes
    | finish values => trivial
    | escape => cases passes
  exact ⟨s, rfl, modules_orderly run⟩

/-- A module that includes itself is executed anew. -/
theorem module_includes_itself :
    ¬ ∀ (as : List (IncludeAct Nat)) (s : Modules Nat), (modules Nat parsedFiles).Run All {} as s → s.Orderly := by
  intro orderly
  have run : (modules Nat parsedFiles).Run All {}
      [.call [.string [97]] (some [47, 97]), .call [.string [97]] (some [47, 97])] _ := .of_after rfl
  have again := (orderly _ _ run).once [47, 97] [] [] [] [] [[47, 97]] rfl
  cases again

end Modules

end Cando
