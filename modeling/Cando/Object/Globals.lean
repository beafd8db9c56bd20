import Cando.Core.Number
import Cando.Lib.RefCount
import Mathlib.Data.List.Induction
import Mathlib.Data.Multiset.AddSub

/-!
# The globals of the object layer

The intern table (`object/string.c`) and the strings of the meta-keys (`object/object.c`), which all VMs of a process
share, and the calls that set them up and tear them down: `cando_open` and `cando_close` (`cando_lib.c`), with
`cando_vm_init` and `cando_vm_destroy` (`vm/vm.c`) inside. The chains of the buckets are one list here: a text is only
ever compared with the entries of its own chain. An access to a freed string and a failed assertion are undefined.
-/

namespace Cando

/-- The names of the meta-keys, `META_INDEX` to `META_NEWINDEX`. -/
def metaNames : List Str :=
  ["__index", "__call", "__type", "__tostring", "__eq", "__lt", "__le", "__add", "__sub", "__mul", "__div", "__mod",
    "__pow", "__unm", "__idiv", "__len", "__newindex"].map bytes

/-- The strings of the process with their counts, and the first address that has not been used; `g_intern_ready`,
`g_intern`, and `g_meta_index` to `g_meta_newindex`. -/
structure ObjectLayer where
  strings : Blocks Str := fun _ => none
  unused : Nat := 0
  internReady : Bool := false
  intern : List Nat := []
  metaKeys : List (Option Nat) := List.replicate metaNames.length none

namespace ObjectLayer

/-- The entry of a text in a chain; each entry up to it is read. -/
def findEntry (strings : Blocks Str) (text : Str) : List Nat → Option (Option Nat)
  | [] => some none
  | a :: rest =>
    match strings.dataAt a with
    | none => none
    | some data => if data = text then some (some a) else findEntry strings text rest

/-- `cdo_intern_init`. -/
def internInit (L : ObjectLayer) : ObjectLayer :=
  if L.internReady then L else { L with intern := [], internReady := true }

/-- `cdo_string_intern`. -/
def stringIntern (L : ObjectLayer) (text : Str) : Option (Nat × ObjectLayer) :=
  if L.internReady then
    match findEntry L.strings text L.intern with
    | none => none
    | some (some a) => (L.strings.retain a).map fun m => (a, { L with strings := m })
    | some none =>
      ((L.strings.create L.unused text).retain L.unused).map fun m =>
        (L.unused, { L with strings := m, unused := L.unused + 1, intern := L.unused :: L.intern })
  else none

/-- One text after the other. -/
def internAll : List Str → ObjectLayer → Option (List Nat × ObjectLayer)
  | [], L => some ([], L)
  | text :: texts, L => do
    let (a, L) ← L.stringIntern text
    let (as, L) ← internAll texts L
    return (a :: as, L)

/-- `cdo_object_init`. -/
def objectInit (L : ObjectLayer) : Option ObjectLayer :=
  (internAll metaNames L.internInit).map fun r => { r.2 with metaKeys := r.1.map some }

/-- `cdo_object_destroy_globals`, with `cdo_intern_destroy`. -/
def objectDestroyGlobals (L : ObjectLayer) : Option ObjectLayer := do
  let m ← L.strings.releaseAll (L.metaKeys.filterMap id)
  let m ← m.releaseAll L.intern
  return { L with strings := m, metaKeys := L.metaKeys.map fun _ => none, intern := [], internReady := false }

/-- The table is set up, its entries are there, and each meta-key is the entry of its name. -/
structure Usable (L : ObjectLayer) : Prop where
  ready : L.internReady = true
  entries : ∀ a ∈ L.intern, L.strings.dataAt a ≠ none
  keys : List.Forall₂ (fun key name => ∃ a ∈ L.intern, key = some a ∧ L.strings.dataAt a = some name) L.metaKeys
    metaNames

end ObjectLayer

/-- The process: its object layer and `g_state_count`. -/
structure Host where
  layer : ObjectLayer := {}
  stateCount : Int := 0

/-- The calls; VMs are known by numbers. -/
inductive HostCall where
  | openVm (vm : Nat)
  | closeVm (vm : Nat)
  | closeNull
  deriving DecidableEq, Repr

namespace Host

/-- `cando_open`, with the call of `cdo_object_init` that `cando_vm_init` makes. -/
def candoOpen (h : Host) : Option Host :=
  let prev := h.stateCount
  let first := if prev = 0 then h.layer.objectInit else some h.layer
  first.bind fun layer => layer.objectInit.map fun layer => { layer, stateCount := prev + 1 }

/-- `cando_close`, with the call of `cdo_object_destroy_globals` that `cando_vm_destroy` makes for a VM with a handle
table of its own. -/
def candoClose (h : Host) : Option Host := do
  let layer ← h.layer.objectDestroyGlobals
  let remaining := h.stateCount - 1
  if remaining ≤ 0 then
    let layer ← layer.objectDestroyGlobals
    return { layer, stateCount := 0 }
  else return { layer, stateCount := remaining }

def perform (h : Host) : HostCall → Option Host
  | .openVm _ => h.candoOpen
  | .closeVm _ => h.candoClose
  | .closeNull => some h

/-- The process after some calls. -/
def run (calls : List HostCall) : Option Host := calls.foldlM perform {}

end Host

/-- The VMs that are open after a call. -/
def HostCall.vms (vms : List Nat) : HostCall → List Nat
  | .openVm vm => vm :: vms
  | .closeVm vm => vms.erase vm
  | .closeNull => vms

/-- The VMs that are open after some calls. -/
def openVms (calls : List HostCall) : List Nat := calls.foldl HostCall.vms []

/-- A VM that is opened is a new one, and one that is closed is open. -/
def HostCall.Proper (vms : List Nat) : HostCall → Prop
  | .openVm vm => vm ∉ vms
  | .closeVm vm => vm ∈ vms
  | .closeNull => True

def Proper (calls : List HostCall) : Prop :=
  ∀ front c rest, calls = front ++ c :: rest → c.Proper (openVms front)

/-- After every one of the calls, the globals are usable if a VM is open, and torn down if none is. -/
def Survives (calls : List HostCall) : Prop :=
  ∀ front, front <+: calls → ∃ h, Host.run front = some h ∧
    (openVms front ≠ [] → h.layer.Usable) ∧ (openVms front = [] → h.layer.internReady = false)

/-! ### One call -/

namespace ObjectLayer

open Blocks

variable {L L' : ObjectLayer} {R : Multiset Nat} {text : Str} {a : Nat}

/-- The strings are held by the table and by the references `R`. -/
structure Sound (L : ObjectLayer) (R : Multiset Nat) : Prop where
  balanced : Balanced L.strings ((L.intern : Multiset Nat) + R)
  unused : ∀ a, L.unused ≤ a → L.strings a = none

lemma Sound.entries (s : Sound L R) (mem : a ∈ L.intern) : L.strings.dataAt a ≠ none := by
  obtain ⟨d, there⟩ := s.balanced.counts a (Multiset.mem_add.mpr (.inl mem))
  rw [dataAt, there]
  simp

/-- A search reads only what is there. -/
lemma findEntry_spec (text : Str) {strings : Blocks Str} {l : List Nat} (there : ∀ a ∈ l, strings.dataAt a ≠ none) :
    findEntry strings text l = some none ∨
      ∃ a ∈ l, findEntry strings text l = some (some a) ∧ strings.dataAt a = some text := by
  induction l with
  | nil => exact .inl rfl
  | cons a l ih =>
    obtain ⟨here, there⟩ := List.forall_mem_cons.mp there
    obtain ⟨data, at_a⟩ := Option.ne_none_iff_exists'.mp here
    simp only [findEntry, at_a]
    by_cases e : data = text
    · subst e
      exact .inr ⟨a, List.mem_cons_self, if_pos rfl, at_a⟩
    · rw [if_neg e]
      refine (ih there).imp_right ?_
      rintro ⟨b, mem, found, at_b⟩
      exact ⟨b, List.mem_cons_of_mem a mem, found, at_b⟩

/-- What interning a text does: there is an entry of it, and one reference more. -/
lemma stringIntern_spec (text : Str) (s : Sound L R) (ready : L.internReady = true) :
    ∃ a L', L.stringIntern text = some (a, L') ∧ Sound L' (a ::ₘ R) ∧ L'.internReady = true ∧
      L'.metaKeys = L.metaKeys ∧ a ∈ L'.intern ∧ L'.strings.dataAt a = some text ∧
      L.intern ⊆ L'.intern ∧ Keeps ((L.intern : Multiset Nat) + R) L.strings L'.strings := by
  rw [stringIntern, if_pos ready]
  obtain absent | ⟨a, mem, found, at_a⟩ := findEntry_spec text fun _ mem => s.entries mem
  · have free := s.unused L.unused (Nat.le_refl _)
    obtain ⟨created, keeps⟩ := s.balanced.create (d := text) free
    obtain ⟨m, retained, balanced, keeps'⟩ := created.retain (Multiset.mem_cons_self _ _)
    have data : m.dataAt L.unused = some text := by
      rw [keeps' L.unused (Multiset.mem_cons_self _ _), dataAt, Blocks.create, Function.update_self]
      rfl
    refine ⟨L.unused, { L with strings := m, unused := L.unused + 1, intern := L.unused :: L.intern }, ?_, ⟨?_, ?_⟩,
      ready, rfl, List.mem_cons_self, data, List.subset_cons_self _ _, ?_⟩
    · rw [absent]
      simp only [retained, Option.map_some]
    · rw [← Multiset.cons_coe, Multiset.cons_add, Multiset.add_cons]
      exact balanced
    · intro b le
      have ne : b ≠ L.unused := by
        rintro rfl
        exact absurd le (Nat.not_succ_le_self _)
      refine balanced.others b fun mem => ?_
      have old := s.unused b (Nat.le_of_succ_le le)
      rcases Multiset.mem_cons.mp mem with same | mem
      · exact ne same
      rcases Multiset.mem_cons.mp mem with same | mem
      · exact ne same
      · obtain ⟨d, there⟩ := s.balanced.counts b mem
        rw [old] at there
        cases there
    · exact keeps.trans (keeps'.mono (Multiset.subset_cons _ _))
  · obtain ⟨m, retained, balanced, keeps⟩ := s.balanced.retain (Multiset.mem_add.mpr (.inl mem))
    refine ⟨a, { L with strings := m }, ?_, ⟨?_, ?_⟩, ready, rfl, mem, ?_, fun _ => id, keeps⟩
    · rw [found]
      simp only [retained, Option.map_some]
    · rw [Multiset.add_cons]
      exact balanced
    · intro b le
      refine balanced.others b fun held => ?_
      have old := s.unused b le
      rcases Multiset.mem_cons.mp held with rfl | held
      · exact s.entries mem (by rw [dataAt, old]; rfl)
      · obtain ⟨d, there⟩ := s.balanced.counts b held
        rw [old] at there
        cases there
    · rw [keeps a (Multiset.mem_add.mpr (.inl mem))]
      exact at_a

/-- What interning several texts does. -/
lemma internAll_spec (texts : List Str) (s : Sound L R) (ready : L.internReady = true) :
    ∃ as L', internAll texts L = some (as, L') ∧ Sound L' ((as : Multiset Nat) + R) ∧ L'.internReady = true ∧
      L'.metaKeys = L.metaKeys ∧ List.Forall₂ (fun a text => a ∈ L'.intern ∧ L'.strings.dataAt a = some text) as texts ∧
      L.intern ⊆ L'.intern ∧ Keeps ((L.intern : Multiset Nat) + R) L.strings L'.strings := by
  induction texts generalizing L R with
  | nil => exact ⟨[], L, rfl, by simpa using s, ready, rfl, .nil, fun _ => id, .refl⟩
  | cons text texts ih =>
    obtain ⟨a, L₁, first, s₁, ready₁, same₁, mem, data, grows, keeps⟩ := stringIntern_spec text s ready
    obtain ⟨as, L₂, rest, s₂, ready₂, same, all, grows', keeps'⟩ := ih s₁ ready₁
    have held : (L.intern : Multiset Nat) + R ⊆ (L₁.intern : Multiset Nat) + (a ::ₘ R) := by
      intro b mem
      rcases Multiset.mem_add.mp mem with mem | mem
      · exact Multiset.mem_add.mpr (.inl (grows mem))
      · exact Multiset.mem_add.mpr (.inr (Multiset.mem_cons_of_mem mem))
    refine ⟨a :: as, L₂, ?_, ?_, ready₂, same.trans same₁, .cons ⟨grows' mem, ?_⟩ all, fun _ h => grows' (grows h),
      keeps.trans (keeps'.mono held)⟩
    · rw [internAll, first]
      simp [rest]
    · rw [← Multiset.cons_coe, Multiset.cons_add, ← Multiset.add_cons]
      exact s₂
    · rw [keeps' a (Multiset.mem_add.mpr (.inl mem))]
      exact data

/-- `cdo_object_init` makes the globals usable, whatever they were before; the references in the meta-keys are lost. -/
lemma objectInit_spec (s : Sound L R) (torn : L.internReady = false → L.intern = []) :
    ∃ L' R', L.objectInit = some L' ∧ Sound L' ((L'.metaKeys.filterMap id : Multiset Nat) + R') ∧ L'.Usable := by
  have start : Sound L.internInit R ∧ L.internInit.internReady = true := by
    rw [internInit]
    cases ready : L.internReady with
    | true => exact ⟨s, ready⟩
    | false =>
      refine ⟨⟨?_, s.unused⟩, rfl⟩
      have balanced := s.balanced
      rw [torn ready] at balanced
      exact balanced
  obtain ⟨as, L', all, s', ready, -, keys, -⟩ := internAll_spec metaNames start.1 start.2
  have held : (as.map some).filterMap id = as := by
    rw [List.filterMap_map]
    exact List.filterMap_some
  refine ⟨{ L' with metaKeys := as.map some }, R, ?_, ?_, ready, fun a mem => s'.entries mem, ?_⟩
  · rw [objectInit, all]
    rfl
  · rw [held]
    exact ⟨s'.balanced, s'.unused⟩
  · rw [List.forall₂_map_left_iff]
    exact keys.imp fun a name entry => ⟨a, entry.1, rfl, entry.2⟩

/-- `cdo_object_destroy_globals` gives up the meta-keys and the table. -/
lemma objectDestroyGlobals_spec (s : Sound L ((L.metaKeys.filterMap id : Multiset Nat) + R)) :
    ∃ L', L.objectDestroyGlobals = some L' ∧ Sound L' ((L'.metaKeys.filterMap id : Multiset Nat) + R) ∧
      L'.internReady = false ∧ L'.intern = [] := by
  have balanced := s.balanced
  rw [add_left_comm] at balanced
  obtain ⟨m, released, balanced, -⟩ := balanced.releaseAll
  obtain ⟨m', released', balanced, -⟩ := balanced.releaseAll
  have none : (L.metaKeys.map fun _ => (Option.none : Option Nat)).filterMap id = [] := by
    rw [List.filterMap_map]
    exact List.filterMap_eq_nil_iff.mpr fun _ _ => rfl
  refine ⟨{ L with strings := m', metaKeys := L.metaKeys.map fun _ => .none, intern := [], internReady := false }, ?_,
    ⟨?_, fun a le => ?_⟩, rfl, rfl⟩
  · rw [objectDestroyGlobals, released]
    simp [released']
  · simp only [none]
    simpa using balanced
  · refine balanced.others a fun mem => ?_
    have old := s.unused a le
    obtain ⟨d, there⟩ := s.balanced.counts a (Multiset.mem_add.mpr (.inr (Multiset.mem_add.mpr (.inr mem))))
    rw [old] at there
    cases there

end ObjectLayer

/-! ### All calls -/

section Calls

variable {calls front rest : List HostCall} {c : HostCall} {h h' : Host} {vm : Nat}

lemma Host.run_concat : Host.run (calls ++ [c]) = (Host.run calls).bind (Host.perform · c) := by
  rw [Host.run, List.foldlM_append]
  cases e : List.foldlM Host.perform {} calls with
  | none => simp [Host.run, e]
  | some h => simp [Host.run, e]

@[simp] lemma openVms_open : openVms (calls ++ [.openVm vm]) = vm :: openVms calls := by
  rw [openVms, List.foldl_append]
  rfl

@[simp] lemma openVms_close : openVms (calls ++ [.closeVm vm]) = (openVms calls).erase vm := by
  rw [openVms, List.foldl_append]
  rfl

@[simp] lemma openVms_null : openVms (calls ++ [.closeNull]) = openVms calls := by
  rw [openVms, List.foldl_append]
  rfl

/-- Calls that close only the VM that alone is open. -/
def ClosesAlone (calls : List HostCall) : Prop :=
  ∀ front vm rest, calls = front ++ .closeVm vm :: rest → openVms front = [vm]

lemma ClosesAlone.begins (h : ClosesAlone (front ++ rest)) : ClosesAlone front := by
  intro xs vm ys e
  refine h xs vm (ys ++ rest) ?_
  rw [e, List.append_assoc, List.cons_append]

/-- The process after calls that close only the VM that alone is open. -/
structure Host.Good (h : Host) (vms : List Nat) : Prop where
  sound : ∃ R, h.layer.Sound ((h.layer.metaKeys.filterMap id : Multiset Nat) + R)
  count : h.stateCount = vms.length
  up : vms ≠ [] → h.layer.Usable
  down : vms = [] → h.layer.internReady = false ∧ h.layer.intern = []

lemma Host.Good.init : Host.Good {} [] where
  sound := ⟨0, ⟨fun a mem => by simp at mem, fun _ _ => rfl⟩, fun _ _ => rfl⟩
  count := rfl
  up := by simp
  down _ := ⟨rfl, rfl⟩

/-- Opening a VM sets everything up once more. -/
lemma Host.Good.opened {vms : List Nat} (g : h.Good vms) : ∃ h', h.candoOpen = some h' ∧ h'.Good (vm :: vms) := by
  have torn : h.layer.internReady = false → h.layer.intern = [] := by
    intro torn
    cases vms with
    | nil => exact (g.down rfl).2
    | cons w vms =>
      rw [(g.up (List.cons_ne_nil w vms)).ready] at torn
      cases torn
  obtain ⟨R, sound⟩ := g.sound
  have first : ∃ L R', (if h.stateCount = 0 then h.layer.objectInit else some h.layer) = some L ∧ L.Sound R' ∧
      (L.internReady = false → L.intern = []) := by
    by_cases none : h.stateCount = 0
    · obtain ⟨L, R', done, sound', usable⟩ := ObjectLayer.objectInit_spec sound torn
      refine ⟨L, _, by rw [if_pos none, done], sound', fun down => ?_⟩
      rw [usable.ready] at down
      cases down
    · exact ⟨h.layer, _, if_neg none, sound, torn⟩
  obtain ⟨L, R', begun, sound', torn'⟩ := first
  obtain ⟨L', R'', done, sound'', usable⟩ := ObjectLayer.objectInit_spec sound' torn'
  refine ⟨{ layer := L', stateCount := h.stateCount + 1 }, ?_, ⟨R'', sound''⟩, ?_, fun _ => usable, by rintro ⟨⟩⟩
  · simp only [Host.candoOpen, begun, Option.bind_some, done, Option.map_some]
  · simp [g.count]

/-- Closing the last VM tears everything down twice. -/
lemma Host.Good.closed (g : h.Good [vm]) : ∃ h', h.candoClose = some h' ∧ h'.Good [] := by
  obtain ⟨R, sound⟩ := g.sound
  obtain ⟨L, torn, sound', -⟩ := ObjectLayer.objectDestroyGlobals_spec sound
  obtain ⟨L', torn', sound'', down, empty⟩ := ObjectLayer.objectDestroyGlobals_spec sound'
  have count := g.count
  refine ⟨{ layer := L', stateCount := 0 }, ?_, ⟨R, sound''⟩, rfl, by simp, fun _ => ⟨down, empty⟩⟩
  rw [Host.candoClose]
  simp [torn, torn', count]

lemma ObjectLayer.destroy_down {L L' : ObjectLayer} (destroyed : L.objectDestroyGlobals = some L') :
    L'.internReady = false := by
  obtain ⟨m, -, destroyed⟩ := Option.bind_eq_some_iff.mp destroyed
  obtain ⟨m', -, destroyed⟩ := Option.bind_eq_some_iff.mp destroyed
  cases destroyed
  rfl

/-- Closing a VM leaves the table torn down. -/
lemma Host.close_down (closed : h.candoClose = some h') : h'.layer.internReady = false := by
  obtain ⟨L, torn, closed⟩ := Option.bind_eq_some_iff.mp closed
  simp only at closed
  split at closed
  · obtain ⟨L', torn', closed⟩ := Option.bind_eq_some_iff.mp closed
    cases closed
    exact ObjectLayer.destroy_down torn'
  · cases closed
    exact ObjectLayer.destroy_down torn

lemma ClosesAlone.good (alone : ClosesAlone calls) : ∃ h, Host.run calls = some h ∧ h.Good (openVms calls) := by
  induction calls using List.reverseRecOn with
  | nil => exact ⟨{}, rfl, .init⟩
  | append_singleton calls c ih =>
    obtain ⟨h, done, g⟩ := ih alone.begins
    rw [Host.run_concat, done, Option.bind_some]
    cases c with
    | openVm vm =>
      rw [openVms_open]
      exact g.opened
    | closeVm vm =>
      have single := alone calls vm [] rfl
      rw [openVms_close, single, List.erase_cons_head]
      rw [single] at g
      exact g.closed
    | closeNull =>
      rw [openVms_null]
      exact ⟨h, rfl, g⟩

/-- A call that closes a VM while another one is open breaks the globals. -/
lemma Survives.alone (proper : Proper calls) (survives : Survives calls) : ClosesAlone calls := by
  intro front vm rest e
  have begun : front ++ [.closeVm vm] <+: calls := ⟨rest, by rw [e, List.append_assoc, List.singleton_append]⟩
  obtain ⟨h, done, up, -⟩ := survives _ begun
  rw [Host.run_concat, Option.bind_eq_some_iff] at done
  obtain ⟨h₀, -, closed⟩ := done
  have down := Host.close_down closed
  have mem : vm ∈ openVms front := proper front (.closeVm vm) rest e
  by_contra other
  have left : openVms (front ++ [.closeVm vm]) ≠ [] := by
    rw [openVms_close]
    intro empty
    have whole := List.perm_cons_erase mem
    rw [empty] at whole
    exact other (List.perm_singleton.mp whole)
  have ready := (up left).ready
  rw [down] at ready
  cases ready

/-- The globals survive exactly the calls that close a VM only when no other one is open. -/
theorem globals_survive_iff (proper : Proper calls) : Survives calls ↔ ClosesAlone calls := by
  constructor
  · exact fun survives => survives.alone proper
  · intro alone front begun
    obtain ⟨rest, rfl⟩ := begun
    obtain ⟨h, done, g⟩ := alone.begins.good
    exact ⟨h, done, g.up, fun none => (g.down none).1⟩

lemma Proper.nil : Proper [] := by
  intro front c rest e
  exact absurd e (List.append_ne_nil_of_right_ne_nil front (List.cons_ne_nil c rest)).symm

lemma Proper.concat (proper : Proper calls) (last : c.Proper (openVms calls)) : Proper (calls ++ [c]) := by
  intro front d rest e
  obtain rfl | ⟨rest', x, rfl⟩ := List.eq_nil_or_concat rest
  · obtain ⟨rfl, same⟩ := List.append_inj' e rfl
    cases same
    exact last
  · rw [List.concat_eq_append, ← List.cons_append, ← List.append_assoc] at e
    exact proper front d rest' (List.append_inj' e rfl).1

/-- One VM after the other. -/
theorem globals_survive_iff_twice :
    Survives [.openVm 1, .closeVm 1, .openVm 2] ↔ ClosesAlone [.openVm 1, .closeVm 1, .openVm 2] := by
  have first : Proper [.openVm 1] := Proper.nil.concat (c := .openVm 1) List.not_mem_nil
  have second : Proper [.openVm 1, .closeVm 1] := first.concat (c := .closeVm 1) List.mem_cons_self
  exact globals_survive_iff (second.concat (c := .openVm 2) List.not_mem_nil)

/-- With two VMs open, closing the first takes the globals from the second. -/
theorem globals_torn_down_early : ¬ ∀ calls, Proper calls → Survives calls := by
  intro survives
  have first : Proper [.openVm 1] := Proper.nil.concat (c := .openVm 1) List.not_mem_nil
  have second : Proper [.openVm 1, .openVm 2] := first.concat (c := .openVm 2) (show 2 ∉ [1] by decide)
  have third : Proper [.openVm 1, .openVm 2, .closeVm 1] := second.concat (c := .closeVm 1) (show 1 ∈ [2, 1] by decide)
  have alone := (survives _ third).alone third [.openVm 1, .openVm 2] 1 [] rfl
  exact absurd alone (by decide)

end Calls

end Cando
