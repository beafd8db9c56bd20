import Cando.Lib.LinearProbing
import Cando.Object.InternTable
import Mathlib.Data.List.TakeWhile

/-!
# The table of global variables

`CandoGlobalEnv` of `vm/vm.h` and the functions of `vm/vm.c` on it: a hash table with open addressing and
linear probing that grows at three quarters of its capacity, whose entries may be write-protected. A name is
the C string it points to. An operation is `none` where a loop does not end or an index lies outside the
array. What the table is for is a finite map with write protection.
-/

namespace Cando

variable {ν : Type}

/-- `vm_global_hash`, which is FNV-1a again. -/
def vmGlobalHash (str : Str) : Nat := fnv1a str

/-- A `CandoGlobalEnv`: `capacity` is the length of `entries`, and an entry without a key is `none`. -/
structure GlobalEnv (ν : Type) where
  entries : List (Option (GlobalEntry ν))
  count : Nat
  deriving DecidableEq, Repr

/-- The name as the functions count and compare it: its length is a `u32`. -/
def countedName (name : Str) : Str := (cstr name).take (u32 (cstr name).length)

namespace GlobalEnv

/-- `capacity - 1`, in `u32`. -/
def mask (g : GlobalEnv ν) : Nat := u32 (g.entries.length + 4294967295)

/-- The cell where the search for a key starts. -/
def homeCell (g : GlobalEnv ν) (key : Str) : Nat := vmGlobalHash key &&& g.mask

/-- The cell after `idx`, around the end of the array. -/
def nextCell (g : GlobalEnv ν) (idx : Nat) : Nat := u32 (idx + 1) &&& g.mask

/-- The loop of `cando_vm_set_global` and `cando_vm_get_global`: the cell that holds the key, or the first
empty one. -/
def probe (g : GlobalEnv ν) (key : Str) : (turns idx : Nat) → Option Nat
  | 0, _ => none
  | turns + 1, idx =>
    match g.entries[idx]? with
    | none => none
    | some none => some idx
    | some (some e) => if e.key = key then some idx else g.probe key turns (g.nextCell idx)

/-- The inner loop of `vm_globals_resize`. -/
def findFree (g : GlobalEnv ν) : (turns idx : Nat) → Option Nat
  | 0, _ => none
  | turns + 1, idx =>
    match g.entries[idx]? with
    | none => none
    | some none => some idx
    | some (some _) => g.findFree turns (g.nextCell idx)

/-- The loop of `vm_globals_resize` over the old entries. -/
def resizeLoop : (old : List (Option (GlobalEntry ν))) → (g : GlobalEnv ν) → Option (GlobalEnv ν)
  | [], g => some g
  | none :: old, g => resizeLoop old g
  | some e :: old, g => do
    let idx ← g.findFree g.entries.length (g.homeCell e.key)
    resizeLoop old { entries := g.entries.set idx (some e), count := u32 (g.count + 1) }

/-- `vm_globals_resize`. -/
def resize (g : GlobalEnv ν) (newCap : Nat) : Option (GlobalEnv ν) :=
  resizeLoop g.entries { entries := List.replicate newCap none, count := 0 }

/-- The part of `cando_vm_set_global` that grows the table: the table and the empty cell for the key. -/
def makeRoom (g : GlobalEnv ν) (key : Str) (idx : Nat) : Option (GlobalEnv ν × Nat) :=
  if u32 (g.entries.length * 3) / 4 < u32 (g.count + 1) then do
    let g ← g.resize (u32 (g.entries.length * 2))
    let idx ← g.findFree g.entries.length (g.homeCell key)
    some (g, idx)
  else some (g, idx)

/-- `cando_vm_set_global`. -/
def setGlobal (g : GlobalEnv ν) (name : Str) (val : Value ν) (isConst : Bool) :
    Option (Bool × GlobalEnv ν) := do
  let key := countedName name
  let idx ← g.probe key g.entries.length (g.homeCell key)
  match (g.entries[idx]?).join with
  | some e =>
    if e.isConst then some (false, g)
    else some (true, { g with entries := g.entries.set idx (some { e with value := val, isConst := isConst }) })
  | none => do
    let (g, idx) ← g.makeRoom key idx
    some (true, { entries := g.entries.set idx (some ⟨key, val, isConst⟩), count := u32 (g.count + 1) })

/-- `cando_vm_get_global`. -/
def getGlobal (g : GlobalEnv ν) (name : Str) : Option (Option (Value ν)) := do
  let key := countedName name
  let idx ← g.probe key g.entries.length (g.homeCell key)
  some ((g.entries[idx]?).join.map (·.value))

/-- The table of a new virtual machine. -/
def new : GlobalEnv ν := { entries := List.replicate 64 none, count := 0 }

end GlobalEnv

/-! ## The map -/

/-- What the table is for: a value for each of finitely many names, some of them write-protected. -/
abbrev GlobalMap (ν : Type) : Type := Str → Option (Value ν × Bool)

/-- The operations on global variables. -/
inductive GlobalOp (ν : Type) where
  | set (name : Str) (val : Value ν) (isConst : Bool)
  | get (name : Str)

/-- What an operation answers. -/
inductive GlobalAnswer (ν : Type) where
  | stored (done : Bool)
  | found (val : Option (Value ν))

/-- The variable of an operation. -/
def GlobalOp.name : GlobalOp ν → Str
  | .set name _ _ => name
  | .get name => name

namespace GlobalMap

/-- Setting a variable is refused when it is write-protected. -/
def perform (m : GlobalMap ν) : GlobalOp ν → GlobalAnswer ν × GlobalMap ν
  | .set name val isConst =>
    match m name with
    | some (_, true) => (.stored false, m)
    | _ => (.stored true, Function.update m name (some (val, isConst)))
  | .get name => (.found ((m name).map (·.1)), m)

end GlobalMap

/-- An operation on the table. -/
def GlobalEnv.perform (g : GlobalEnv ν) : GlobalOp ν → Option (GlobalAnswer ν × GlobalEnv ν)
  | .set name val isConst => (g.setGlobal name val isConst).map fun r => (.stored r.1, r.2)
  | .get name => (g.getGlobal name).map fun r => (.found r, g)

/-! ## The loops are searches -/

open LinearProbing

variable {g g' : GlobalEnv ν} {m : GlobalMap ν} {e : GlobalEntry ν} {key : Str} {idx : Nat}

namespace GlobalEnv

/-- A capacity as `vm_globals_resize` asks for, small enough that no index wraps around. -/
structure Sized (g : GlobalEnv ν) : Prop where
  pow : g.entries.length.isPowerOfTwo
  small : g.entries.length ≤ 2147483648

lemma Sized.pos (v : g.Sized) : 0 < g.entries.length := Nat.pos_of_isPowerOfTwo v.pow

lemma Sized.land_mask (v : g.Sized) (n : Nat) : n &&& g.mask = n % g.entries.length := by
  have pos := v.pos
  have small := v.small
  have wraps : g.entries.length + 4294967295 = (g.entries.length - 1) + 4294967296 := by omega
  have e : g.mask = g.entries.length - 1 := by
    rw [mask, u32, wraps, Nat.add_mod_right, Nat.mod_eq_of_lt (by omega)]
  rw [e, Cando.land_mask v.pow]

lemma Sized.homeCell_eq (v : g.Sized) : g.homeCell key = vmGlobalHash key % g.entries.length := v.land_mask _

lemma Sized.nextCell_eq (v : g.Sized) (lt : idx < g.entries.length) :
    g.nextCell idx = (idx + 1) % g.entries.length := by
  have small := v.small
  rw [nextCell, v.land_mask, HashTable.u32_eq (by omega)]

/-- The loop of the look-ups is the search for the key. -/
lemma Sized.probe_eq (v : g.Sized) (turns : Nat) (lt : idx < g.entries.length) :
    g.probe key turns idx = search g.entries.length (fun j => (entry g.entries j).all (·.key = key)) turns idx := by
  induction turns generalizing idx with
  | zero => rfl
  | succ turns ih =>
    rw [probe, search, entry, List.getElem?_eq_getElem lt]
    cases here : g.entries[idx] with
    | none => simp
    | some e =>
      by_cases found : e.key = key
      · simp [found]
      · simp only [found, if_false, Option.join_some, Option.all_some, decide_false, Bool.false_eq_true]
        rw [v.nextCell_eq lt]
        exact ih (Nat.mod_lt _ v.pos)

/-- The inner loop of `vm_globals_resize` is the search for a free cell. -/
lemma Sized.findFree_eq (v : g.Sized) (turns : Nat) (lt : idx < g.entries.length) :
    g.findFree turns idx = search g.entries.length (fun j => (entry g.entries j).isNone) turns idx := by
  induction turns generalizing idx with
  | zero => rfl
  | succ turns ih =>
    rw [findFree, search, entry, List.getElem?_eq_getElem lt]
    cases here : g.entries[idx] with
    | none => simp
    | some e =>
      simp only [Option.join_some, Option.isNone_some, Bool.false_eq_true, if_false]
      rw [v.nextCell_eq lt]
      exact ih (Nat.mod_lt _ v.pos)

/-- The table holds its entries where the searches for their keys find them, and counts them. -/
structure Inv (g : GlobalEnv ν) : Prop extends Sized g where
  placed : Placed (·.key) vmGlobalHash g.entries
  counts : g.count = g.entries.reduceOption.length

lemma Inv.exists_free (v : g.Inv) (few : g.count < g.entries.length) :
    ∃ i < g.entries.length, entry g.entries i = none :=
  LinearProbing.exists_free (v.counts ▸ few)

/-- A look-up ends at the entry of its key, or at an empty cell that is exposed to it. -/
lemma Inv.probe_spec (v : g.Inv) (few : g.count < g.entries.length) (key : Str) :
    ∃ i < g.entries.length, g.probe key g.entries.length (g.homeCell key) = some i ∧
      Exposed g.entries (vmGlobalHash key) i ∧
      ((∃ e, entry g.entries i = some e ∧ e.key = key) ∨
        entry g.entries i = none ∧ ∀ j e, entry g.entries j = some e → e.key ≠ key) := by
  have lt : g.homeCell key < g.entries.length := v.homeCell_eq ▸ Nat.mod_lt _ v.pos
  rw [v.probe_eq g.entries.length lt, v.homeCell_eq]
  exact v.placed.search_key key (v.exists_free few)

/-- The inner loop of `vm_globals_resize` ends at an empty cell that is exposed to the key. -/
lemma Inv.findFree_spec (v : g.Inv) (few : g.count < g.entries.length) (key : Str) :
    ∃ i < g.entries.length, g.findFree g.entries.length (g.homeCell key) = some i ∧
      Exposed g.entries (vmGlobalHash key) i ∧ entry g.entries i = none := by
  have lt : g.homeCell key < g.entries.length := v.homeCell_eq ▸ Nat.mod_lt _ v.pos
  rw [v.findFree_eq g.entries.length lt, v.homeCell_eq]
  exact search_free _ (v.exists_free few)

/-- A new entry in an empty cell that is exposed to its key. -/
lemma Inv.insert_spec (v : g.Inv) (few : g.count < g.entries.length) (lt : idx < g.entries.length)
    (reach : Exposed g.entries (vmGlobalHash e.key) idx) (free : entry g.entries idx = none)
    (absent : ∀ j e', entry g.entries j = some e' → e'.key ≠ e.key) :
    Inv { entries := g.entries.set idx (some e), count := u32 (g.count + 1) } where
  pow := by simpa using v.pow
  small := by simpa using v.small
  placed := v.placed.insert lt reach absent
  counts := by
    have small := v.small
    rw [(perm_insert free lt e).length_eq, List.length_cons, ← v.counts, HashTable.u32_eq (by omega)]

/-- The loop of `vm_globals_resize` moves every old entry into the new table, which has room for all. -/
lemma Inv.resizeLoop_spec (v : g.Inv) (old : List (Option (GlobalEntry ν)))
    (room : g.count + old.reduceOption.length < g.entries.length)
    (fresh : ((g.entries.reduceOption ++ old.reduceOption).map (·.key)).Nodup) :
    ∃ g', resizeLoop old g = some g' ∧ g'.Inv ∧ g'.entries.length = g.entries.length ∧
      g'.entries.reduceOption.Perm (g.entries.reduceOption ++ old.reduceOption) := by
  induction old generalizing g with
  | nil => exact ⟨g, rfl, v, rfl, by simp⟩
  | cons x old ih =>
    cases x with
    | none => exact ih v room fresh
    | some e =>
      rw [List.reduceOption_cons_of_some, List.length_cons] at room
      rw [List.reduceOption_cons_of_some] at fresh ⊢
      obtain ⟨i, lt, found, reach, free⟩ := v.findFree_spec (by omega) e.key
      have absent : ∀ j e', entry g.entries j = some e' → e'.key ≠ e.key := by
        intro j e' at_j same
        rw [List.map_append, List.nodup_append] at fresh
        have old_key : e'.key ∈ g.entries.reduceOption.map (·.key) :=
          List.mem_map_of_mem (mem_reduceOption.mpr ⟨j, at_j⟩)
        exact fresh.2.2 _ old_key e.key (by simp) same
      have v' := v.insert_spec (by omega) lt reach free absent
      have grown : (g.entries.set i (some e)).reduceOption.Perm (e :: g.entries.reduceOption) :=
        perm_insert free lt e
      have same : ((g.entries.set i (some e)).reduceOption ++ old.reduceOption).Perm
          (g.entries.reduceOption ++ e :: old.reduceOption) :=
        (grown.append_right _).trans List.perm_middle.symm
      have small := v.small
      have counted : u32 (g.count + 1) = g.count + 1 := HashTable.u32_eq (by omega)
      have room' : u32 (g.count + 1) + old.reduceOption.length < (g.entries.set i (some e)).length := by
        rw [List.length_set, counted]
        omega
      obtain ⟨g', run, inv, len, perm⟩ := ih v' room' ((same.map _).nodup_iff.mpr fresh)
      refine ⟨g', ?_, inv, by rw [len, List.length_set], perm.trans same⟩
      rw [resizeLoop, found]
      exact run

/-- `vm_globals_resize` to a larger capacity keeps the entries and loses none. -/
lemma Inv.resize_spec (v : g.Inv) {newCap : Nat} (pow : newCap.isPowerOfTwo) (small : newCap ≤ 2147483648)
    (room : g.count < newCap) :
    ∃ g', g.resize newCap = some g' ∧ g'.Inv ∧ g'.entries.length = newCap ∧
      g'.entries.reduceOption.Perm g.entries.reduceOption := by
  have empty : (List.replicate newCap (none : Option (GlobalEntry ν))).reduceOption = [] := by
    rw [List.reduceOption_replicate_none]
  have v₀ : Inv ({ entries := List.replicate newCap none, count := 0 } : GlobalEnv ν) :=
    { pow := by simpa using pow, small := by simpa using small, placed := placed_replicate newCap,
      counts := by rw [empty]; rfl }
  obtain ⟨g', run, inv, len, perm⟩ := v₀.resizeLoop_spec g.entries
    (by simpa [← v.counts] using room) (by simpa [empty] using v.placed.nodup)
  exact ⟨g', run, inv, by simpa using len, by simpa [empty] using perm⟩

/-- The largest number of variables: one more than three quarters of 2^30. In a table of 2^31 cells
`capacity * 3` wraps around, so the next new variable asks for a table of no cells. -/
def mostGlobals : Nat := 805306369

/-- What the operations keep: the table is at most three quarters full, up to the last growth. -/
structure Kept (g : GlobalEnv ν) : Prop extends Inv g where
  load : g.count * 4 ≤ g.entries.length * 3
  last : g.entries.length = 2147483648 → g.count = mostGlobals

lemma Kept.few (v : g.Kept) : g.count < g.entries.length := by
  have pos := v.pos
  have load := v.load
  omega

/-- Before the last variable the capacity can be doubled. -/
lemma Kept.length_le (v : g.Kept) (more : g.count ≠ mostGlobals) : g.entries.length ≤ 1073741824 := by
  obtain ⟨k, e⟩ := v.pow
  have small := v.small
  have ne : g.entries.length ≠ 2147483648 := fun e => more (v.last e)
  have le : k ≤ 30 := by
    by_contra far
    have ge : 2 ^ 31 ≤ 2 ^ k := Nat.pow_le_pow_right (by omega) (by omega)
    omega
  have bound : 2 ^ k ≤ 2 ^ 30 := Nat.pow_le_pow_right (by omega) le
  omega

/-- The table with room for a new variable holds the same entries and has an empty cell for it. -/
lemma Kept.makeRoom_spec (v : g.Kept) (more : g.count ≠ mostGlobals) (lt : idx < g.entries.length)
    (reach : Exposed g.entries (vmGlobalHash key) idx) (free : entry g.entries idx = none) :
    ∃ g' i, g.makeRoom key idx = some (g', i) ∧ g'.Inv ∧
      g'.entries.reduceOption.Perm g.entries.reduceOption ∧ i < g'.entries.length ∧
      Exposed g'.entries (vmGlobalHash key) i ∧ entry g'.entries i = none ∧
      (g.count + 1) * 4 ≤ g'.entries.length * 3 ∧
      (g'.entries.length = 2147483648 → g.count + 1 = mostGlobals) := by
  have len := v.length_le more
  have load := v.load
  have pos := v.pos
  rw [makeRoom, HashTable.u32_eq (n := g.entries.length * 3) (by omega),
    HashTable.u32_eq (n := g.count + 1) (by omega), HashTable.u32_eq (n := g.entries.length * 2) (by omega)]
  split
  · have pow : (g.entries.length * 2).isPowerOfTwo := Nat.isPowerOfTwo_mul_two_of_isPowerOfTwo v.pow
    obtain ⟨g', grown, inv, len', perm⟩ := v.toInv.resize_spec pow (by omega) (by omega)
    have counts : g'.count = g.count := by rw [inv.counts, v.counts, perm.length_eq]
    obtain ⟨i, lt', found, reach', free'⟩ := inv.findFree_spec (by omega) key
    refine ⟨g', i, ?_, inv, perm, lt', reach', free', by omega, fun e => ?_⟩
    · rw [grown, Option.bind_eq_bind, Option.bind_some, found]
      rfl
    · unfold mostGlobals
      omega
  · exact ⟨g, idx, rfl, v.toInv, .refl _, lt, reach, free, by omega, by omega⟩

/-- The table holds exactly the map's variables. -/
def Represents (g : GlobalEnv ν) (m : GlobalMap ν) : Prop :=
  g.Kept ∧ ∀ e, e ∈ g.entries.reduceOption ↔ m e.key = some (e.value, e.isConst)

/-- A look-up in a table that represents a map, at the map's answer. -/
lemma Represents.probe_spec (rep : g.Represents m) (key : Str) :
    ∃ i < g.entries.length, g.probe key g.entries.length (g.homeCell key) = some i ∧
      Exposed g.entries (vmGlobalHash key) i ∧
      (entry g.entries i).map (fun e => (e.value, e.isConst)) = m key ∧
      ∀ e, entry g.entries i = some e → e.key = key := by
  obtain ⟨v, holds⟩ := rep
  obtain ⟨i, lt, found, reach, hit | ⟨free, absent⟩⟩ := v.probe_spec v.few key
  · obtain ⟨e, here, rfl⟩ := hit
    refine ⟨i, lt, found, reach, ?_, fun e' here' => ?_⟩
    · rw [here, Option.map_some]
      exact ((holds e).mp (mem_reduceOption.mpr ⟨i, here⟩)).symm
    · rw [here] at here'
      exact (Option.some.inj here') ▸ rfl
  · refine ⟨i, lt, found, reach, ?_, fun e here => ?_⟩
    · cases there : m key with
      | none => rw [free, Option.map_none]
      | some vc =>
        obtain ⟨j, at_j⟩ := mem_reduceOption.mp ((holds ⟨key, vc.1, vc.2⟩).mpr there)
        exact absurd rfl (absent j _ at_j)
    · rw [free] at here
      cases here

/-- A new value in the cell of a variable. -/
lemma Represents.overwrite_spec (rep : g.Represents m) (here : entry g.entries idx = some e) (val : Value ν)
    (isConst : Bool) :
    Represents { g with entries := g.entries.set idx (some { e with value := val, isConst := isConst }) }
      (Function.update m e.key (some (val, isConst))) := by
  obtain ⟨v, holds⟩ := rep
  have lt := lt_of_entry here
  have placed : Placed (·.key) vmGlobalHash
      (g.entries.set idx (some { e with value := val, isConst := isConst })) :=
    v.placed.overwrite here rfl
  have kept : Kept { g with entries := g.entries.set idx (some { e with value := val, isConst := isConst }) } :=
    { pow := by simpa using v.pow
      small := by simpa using v.small
      placed := placed
      counts := v.counts.trans (length_overwrite here _).symm
      load := by simpa using v.load
      last := by simpa using v.last }
  refine ⟨kept, fun e' => ?_⟩
  rw [mem_reduceOption, Function.update_apply]
  constructor
  · rintro ⟨j, at_j⟩
    rw [entry_set lt] at at_j
    split at at_j
    · cases at_j
      exact if_pos rfl
    · rename_i ne
      have other : e'.key ≠ e.key := fun same => ne (v.placed.distinct idx j e e' here at_j same.symm)
      rw [if_neg other]
      exact (holds e').mp (mem_reduceOption.mpr ⟨j, at_j⟩)
  · intro known
    split at known
    · rename_i same
      cases e' with
      | mk k v' c' =>
        cases known
        cases same
        exact ⟨idx, by rw [entry_set lt, if_pos rfl]⟩
    · rename_i ne
      obtain ⟨j, at_j⟩ := mem_reduceOption.mp ((holds e').mpr known)
      refine ⟨j, ?_⟩
      rw [entry_set lt, if_neg, at_j]
      rintro rfl
      rw [here] at at_j
      cases at_j
      exact ne rfl

/-- `cando_vm_set_global` does what setting a variable of the map does, but for the variable that is one too
many. -/
lemma Represents.setGlobal_spec (rep : g.Represents m) {name : Str} (counted : countedName name = name)
    (room : g.count ≠ mostGlobals ∨ m name ≠ none) (val : Value ν) (isConst : Bool) :
    ∃ g', g.perform (.set name val isConst) = some ((m.perform (.set name val isConst)).1, g') ∧
      g'.Represents (m.perform (.set name val isConst)).2 := by
  obtain ⟨i, lt, found, reach, known, keyed⟩ := rep.probe_spec name
  rw [GlobalEnv.perform, setGlobal, counted]
  dsimp only
  rw [found, Option.bind_eq_bind, Option.bind_some]
  have at_i : (g.entries[i]?).join = entry g.entries i := rfl
  rw [at_i]
  cases here : entry g.entries i with
  | some e =>
    rw [here, Option.map_some] at known
    have name_eq : e.key = name := keyed e here
    cases const : e.isConst with
    | true =>
      have refused : m.perform (.set name val isConst) = (.stored false, m) := by
        simp [GlobalMap.perform, ← known, const]
      rw [refused]
      exact ⟨g, by simp [const], rep⟩
    | false =>
      have stored : m.perform (.set name val isConst) =
          (.stored true, Function.update m name (some (val, isConst))) := by
        simp [GlobalMap.perform, ← known, const]
      rw [stored]
      refine ⟨{ g with entries := g.entries.set i (some { e with value := val, isConst := isConst }) }, ?_,
        name_eq ▸ rep.overwrite_spec here val isConst⟩
      simp [const]
  | none =>
    rw [here, Option.map_none] at known
    have more := room.resolve_right (not_not.mpr known.symm)
    obtain ⟨v, holds⟩ := rep
    obtain ⟨g₁, i₁, made, inv, perm, lt₁, reach₁, free₁, load, last⟩ := v.makeRoom_spec more lt reach here
    have absent : ∀ j e', entry g₁.entries j = some e' → e'.key ≠ name := by
      intro j e' at_j same
      have old := (holds e').mp (perm.mem_iff.mp (mem_reduceOption.mpr ⟨j, at_j⟩))
      rw [same, ← known] at old
      cases old
    have counts : g₁.count = g.count := by rw [inv.counts, v.counts, perm.length_eq]
    have few : g₁.count < g₁.entries.length := by omega
    have small := inv.small
    have inv' := inv.insert_spec (e := ⟨name, val, isConst⟩) few lt₁ reach₁ free₁ absent
    have count' : u32 (g₁.count + 1) = g.count + 1 := by rw [counts, HashTable.u32_eq (by omega)]
    have stored : m.perform (.set name val isConst) =
        (.stored true, Function.update m name (some (val, isConst))) := by
      simp [GlobalMap.perform, ← known]
    have kept : Kept { entries := g₁.entries.set i₁ (some ⟨name, val, isConst⟩), count := u32 (g₁.count + 1) } :=
      { inv' with
        load := by rw [List.length_set, count']; exact load
        last := fun e => by rw [List.length_set] at e; rw [count']; exact last e }
    rw [stored]
    refine ⟨{ entries := g₁.entries.set i₁ (some ⟨name, val, isConst⟩), count := u32 (g₁.count + 1) }, ?_,
      kept, fun e' => ?_⟩
    · dsimp only
      rw [made]
      rfl
    · dsimp only
      rw [(perm_insert free₁ lt₁ _).mem_iff, List.mem_cons, perm.mem_iff, holds, Function.update_apply]
      by_cases same : e'.key = name
      · rw [if_pos same, same, ← known]
        cases e' with
        | mk k v' c' =>
          cases same
          simp [eq_comm]
      · rw [if_neg same]
        refine or_iff_right fun e => same ?_
        rw [e]

/-- `cando_vm_get_global` answers the map's value for the name as it is counted. -/
lemma Represents.getGlobal_spec (rep : g.Represents m) (name : Str) :
    g.getGlobal name = some ((m (countedName name)).map (·.1)) := by
  obtain ⟨i, lt, found, reach, known, keyed⟩ := rep.probe_spec (countedName name)
  rw [getGlobal, found, Option.bind_eq_bind, Option.bind_some, ← known]
  have at_i : (g.entries[i]?).join = entry g.entries i := rfl
  rw [at_i, Option.map_map]
  rfl

/-- A new table has no variables. -/
lemma represents_new : (GlobalEnv.new : GlobalEnv ν).Represents fun _ => none := by
  have empty : (List.replicate 64 (none : Option (GlobalEntry ν))).reduceOption = [] := by
    rw [List.reduceOption_replicate_none]
  have kept : (GlobalEnv.new : GlobalEnv ν).Kept :=
    { pow := ⟨6, rfl⟩
      small := (by decide : 64 ≤ 2147483648)
      placed := placed_replicate 64
      counts := (congrArg List.length empty).symm
      load := (by decide : 0 * 4 ≤ 64 * 3)
      last := (by decide : 64 = 2147483648 → 0 = mostGlobals) }
  refine ⟨kept, fun e => ?_⟩
  rw [new, empty]
  simp

/-- A table of no cells takes no entry. -/
lemma resizeLoop_nil (old : List (Option (GlobalEntry ν))) (some_entry : old.reduceOption ≠ []) (n : Nat) :
    resizeLoop old { entries := [], count := n } = none := by
  induction old with
  | nil => exact absurd rfl some_entry
  | cons x old ih =>
    cases x with
    | none => exact ih some_entry
    | some e => rfl

/-- With the largest number of variables the capacity is 2^31. -/
lemma Kept.length_full (v : g.Kept) (full : g.count = mostGlobals) : g.entries.length = 2147483648 := by
  obtain ⟨k, e⟩ := v.pow
  have small := v.small
  have load := v.load
  unfold mostGlobals at full
  have ge : 31 ≤ k := by
    by_contra less
    have le : 2 ^ k ≤ 2 ^ 30 := Nat.pow_le_pow_right (by omega) (by omega)
    omega
  have bound : 2 ^ 31 ≤ 2 ^ k := Nat.pow_le_pow_right (by omega) ge
  omega

/-- Growing such a table asks for one of `2147483648 * 2 = 0` cells. -/
lemma Kept.resize_full (v : g.Kept) (full : g.count = mostGlobals) :
    g.resize (u32 (g.entries.length * 2)) = none := by
  have none_left : u32 (g.entries.length * 2) = 0 := by rw [v.length_full full]; rfl
  rw [none_left, resize, List.replicate_zero]
  refine resizeLoop_nil _ (fun empty => ?_) 0
  have counts := v.counts
  rw [full, empty] at counts
  cases counts

/-- One variable more writes outside the array. -/
theorem Represents.setGlobal_full (rep : g.Represents m) {name : Str} (counted : countedName name = name)
    (full : g.count = mostGlobals) (fresh : m name = none) (val : Value ν) (isConst : Bool) :
    g.setGlobal name val isConst = none := by
  obtain ⟨i, lt, found, reach, known, keyed⟩ := rep.probe_spec name
  have free : entry g.entries i = none := by simpa [fresh] using known
  have at_i : (g.entries[i]?).join = none := free
  have over_load : u32 (g.entries.length * 3) / 4 < u32 (g.count + 1) := by
    rw [rep.1.length_full full, full]
    decide
  have no_room : g.makeRoom name i = none := by
    rw [makeRoom, if_pos over_load, rep.1.resize_full full]
    rfl
  rw [setGlobal, counted]
  dsimp only
  rw [found, Option.bind_eq_bind, Option.bind_some, at_i]
  dsimp only
  rw [no_room]
  rfl

end GlobalEnv

/-! ## Runs -/

open GlobalEnv

/-- A table and the map it stands for, after any operations on a new table of which each met `ok` in the state
it was performed in. -/
inductive GlobalRun (ok : GlobalEnv ν → GlobalMap ν → GlobalOp ν → Prop) : GlobalEnv ν → GlobalMap ν → Prop where
  | new : GlobalRun ok .new fun _ => none
  | step {g g' : GlobalEnv ν} {m : GlobalMap ν} {op : GlobalOp ν} {r : GlobalAnswer ν} : GlobalRun ok g m →
      ok g m op → g.perform op = some (r, g') → GlobalRun ok g' (m.perform op).2

/-- The name is a C string. -/
def NulFree (_ : GlobalEnv ν) (_ : GlobalMap ν) (op : GlobalOp ν) : Prop := 0 ∉ op.name

/-- The name is a C string whose length a `u32` holds, and the operation does not add a variable to a table that
has the largest number of them. -/
structure Affords (g : GlobalEnv ν) (m : GlobalMap ν) (op : GlobalOp ν) : Prop where
  nul_free : 0 ∉ op.name
  counted : op.name.length < 4294967296
  room : ∀ name val isConst, op = .set name val isConst → g.count ≠ mostGlobals ∨ m name ≠ none

/-- The table is the map: it has each of the map's names once and counts them, some cell is empty and every
look-up ends, growing keeps the entries, every operation answers what the map does, and setting a
write-protected variable changes nothing. -/
structure GlobalsRefine (ok : GlobalEnv ν → GlobalMap ν → GlobalOp ν → Prop) (g : GlobalEnv ν)
    (m : GlobalMap ν) : Prop where
  distinct : (g.entries.reduceOption.map (·.key)).Nodup
  names : ∀ name, name ∈ g.entries.reduceOption.map (·.key) ↔ m name ≠ none
  counts : g.count = (g.entries.reduceOption.map (·.key)).length
  empty_cell : ∃ i : Nat, g.entries[i]? = some none
  ends : ∀ key, (g.probe key g.entries.length (g.homeCell key)).isSome
  grows : ∀ g', g.resize (u32 (g.entries.length * 2)) = some g' →
    g'.entries.reduceOption.Perm g.entries.reduceOption
  answers : ∀ op, ok g m op → ∃ g', g.perform op = some ((m.perform op).1, g')
  guarded : ∀ name v, m name = some (v, true) → ∀ val isConst, ok g m (.set name val isConst) →
    g.setGlobal name val isConst = some (false, g)

lemma countedName_eq {name : Str} (nul_free : 0 ∉ name) (short : name.length < 4294967296) :
    countedName name = name := by
  rw [countedName, cstr_eq nul_free, HashTable.u32_eq short, List.take_length]

lemma Affords.perform_spec {op : GlobalOp ν} (ok : Affords g m op) (rep : g.Represents m) :
    ∃ g', g.perform op = some ((m.perform op).1, g') ∧ g'.Represents (m.perform op).2 := by
  have counted := countedName_eq ok.nul_free ok.counted
  cases op with
  | set name val isConst => exact rep.setGlobal_spec counted (ok.room name val isConst rfl) val isConst
  | get name =>
    refine ⟨g, ?_, rep⟩
    rw [GlobalEnv.perform, rep.getGlobal_spec, show countedName name = name from counted]
    rfl

lemma GlobalRun.represents (run : GlobalRun Affords g m) : g.Represents m := by
  induction run with
  | new => exact represents_new
  | step _ ok done ih =>
    obtain ⟨g', done', rep⟩ := ok.perform_spec ih
    rw [done] at done'
    cases done'
    exact rep

/-- The map of the variables in the store of the interpreter. -/
def Store.globalMap (w : Store ν) : GlobalMap ν := fun name =>
  (w.globals.find? (·.key == name)).map fun e => (e.value, e.isConst)

lemma Store.getGlobal_eq (w : Store ν) (name : Str) : w.getGlobal name = (w.globalMap name).map (·.1) := by
  rw [Store.getGlobal, Store.globalMap, Option.map_map]
  rfl

/-- The interpreter's store sets its variables as the map does, and so as the table does. -/
theorem Store.setGlobal_eq (w : Store ν) {name : Str} (nul_free : 0 ∉ name) (val : Value ν) (isConst : Bool) :
    w.globalMap.perform (.set name val isConst) =
      match w.setGlobal name val isConst with
      | some w' => (.stored true, w'.globalMap)
      | none => (.stored false, w.globalMap) := by
  rw [Store.setGlobal, cstr_eq nul_free, GlobalMap.perform]
  have known : w.globalMap name = (w.globals.find? (·.key == name)).map fun e => (e.value, e.isConst) := rfl
  cases here : w.globals.find? (·.key == name) with
  | none =>
    rw [here] at known
    simp only [known, Option.map_none]
    congr 1
    funext k
    simp only [Function.update_apply, Store.globalMap, List.find?_append]
    by_cases same : k = name
    · subst same
      simp [here]
    · have ne : name ≠ k := Ne.symm same
      simp [same, ne]
  | some e =>
    rw [here] at known
    cases const : e.isConst with
    | true => simp [known, const]
    | false =>
      simp only [known, Option.map_some, const, Bool.false_eq_true, if_false]
      congr 1
      funext k
      have found := List.find?_some here
      simp only [Function.update_apply, Store.globalMap, List.find?_map]
      by_cases same : k = name
      · subst same
        have pred : ((fun g : GlobalEntry ν => g.key == k) ∘ fun g => if g.key == k then ⟨k, val, isConst⟩ else g) =
            fun g => g.key == k := by
          funext g
          by_cases e : g.key = k <;> simp [e]
        have e_key : e.key = k := by simpa using found
        rw [if_pos rfl, pred, here]
        simp [e_key]
      · have pred : ((fun g : GlobalEntry ν => g.key == k) ∘
            fun g => if g.key == name then ⟨name, val, isConst⟩ else g) = fun g => g.key == k := by
          funext g
          by_cases e : g.key = name
          · have ne : name ≠ k := Ne.symm same
            simp [e]
          · simp [e]
        rw [if_neg same, pred, Option.map_map]
        cases other : w.globals.find? (·.key == k) with
        | none => rfl
        | some g =>
          have at_k : g.key = k := by simpa using List.find?_some other
          have ne : g.key ≠ name := fun e => same (at_k.symm.trans e)
          simp [ne]

/-- In every run whose operations fit, the table refines the map. -/
theorem globals_refine (run : GlobalRun Affords g m) : GlobalsRefine Affords g m := by
  have rep := run.represents
  obtain ⟨v, holds⟩ := rep
  refine ⟨v.placed.nodup, fun name => ?_, by rw [List.length_map, v.counts], ?_, fun key => ?_, fun g' grown => ?_,
    fun op ok => ?_, fun name val guard val' isConst ok => ?_⟩
  · rw [List.mem_map]
    constructor
    · rintro ⟨e, mem, rfl⟩
      rw [(holds e).mp mem]
      nofun
    · intro known
      obtain ⟨vc, e⟩ := Option.ne_none_iff_exists'.mp known
      exact ⟨⟨name, vc.1, vc.2⟩, (holds _).mpr e, rfl⟩
  · obtain ⟨i, lt, free⟩ := v.exists_free v.few
    refine ⟨i, ?_⟩
    rw [entry, List.getElem?_eq_getElem lt, Option.join_some] at free
    rw [List.getElem?_eq_getElem lt, free]
  · obtain ⟨i, _, found, _⟩ := v.probe_spec v.few key
    rw [found]
    rfl
  · by_cases full : g.count = mostGlobals
    · rw [v.resize_full full] at grown
      cases grown
    · have len := v.length_le full
      have few := v.few
      obtain ⟨g₁, grown', _, _, perm⟩ := v.resize_spec (Nat.isPowerOfTwo_mul_two_of_isPowerOfTwo v.pow)
        (by omega) (by omega)
      rw [HashTable.u32_eq (by omega), grown'] at grown
      cases grown
      exact perm
  · obtain ⟨g', done, _⟩ := ok.perform_spec ⟨v, holds⟩
    exact ⟨g', done⟩
  · obtain ⟨g', done, _⟩ := ok.perform_spec ⟨v, holds⟩
    obtain ⟨i, _, found, _, known, keyed⟩ := Represents.probe_spec ⟨v, holds⟩ name
    rw [guard] at known
    obtain ⟨e, here, pair⟩ := Option.map_eq_some_iff.mp known
    have const : e.isConst = true := congrArg Prod.snd pair
    have at_i : (g.entries[i]?).join = some e := here
    rw [setGlobal, show countedName name = name from countedName_eq ok.nul_free ok.counted]
    dsimp only
    rw [found, Option.bind_eq_bind, Option.bind_some, at_i]
    simp [const]

/-- A write-protected variable and two attempts to change it. -/
theorem globals_refine_const : ∃ (g : GlobalEnv Nat) (m : GlobalMap Nat), GlobalRun Affords g m ∧
    GlobalsRefine Affords g m ∧ m (bytes "pi") = some (.number 3, true) ∧
    g.setGlobal (bytes "pi") (.number 4) false = some (false, g) := by
  have ok : ∀ (g : GlobalEnv Nat) m val isConst, g.count ≠ mostGlobals →
      Affords g m (.set (bytes "pi") val isConst) := fun g m val isConst more =>
    ⟨(by decide : (0 : UInt8) ∉ bytes "pi"), (by decide : (bytes "pi").length < 4294967296),
      fun _ _ _ _ => Or.inl more⟩
  have start : Affords (.new : GlobalEnv Nat) (fun _ => none) (.set (bytes "pi") (.number 3) true) :=
    ok _ _ _ _ (by decide)
  obtain ⟨g, done, _⟩ := start.perform_spec represents_new
  have run : GlobalRun Affords g _ := .step .new start done
  have known : GlobalMap.perform (fun _ => none) (.set (bytes "pi") (.number 3) true) =
      (.stored true, Function.update (fun _ => none) (bytes "pi") (some ((.number 3 : Value Nat), true))) := rfl
  have pi : Function.update (fun _ => none) (bytes "pi") (some ((.number 3 : Value Nat), true)) (bytes "pi") =
      some (.number 3, true) := Function.update_self ..
  rw [known] at run
  have sound := globals_refine run
  have again : Affords g (Function.update (fun _ => none) (bytes "pi") (some ((.number 3 : Value Nat), true)))
      (.set (bytes "pi") (.number 4) false) := by
    refine ⟨by decide, by decide, fun name _ _ e => Or.inr ?_⟩
    cases e
    rw [pi]
    nofun
  exact ⟨g, _, run, sound, pi, sound.guarded _ _ pi _ _ again⟩

/-- A name of 2^32 letters is counted as the empty name. -/
lemma countedName_long : countedName (List.replicate 4294967296 97) = [] := by
  have counted : ∀ n, countedName (List.replicate n 97) = (List.replicate n 97).take (u32 n) := fun n => by
    have nul_free : (0 : UInt8) ∉ List.replicate n (97 : UInt8) := fun mem =>
      absurd (List.eq_of_mem_replicate mem) (by decide)
    rw [countedName, cstr_eq nul_free, List.length_replicate]
  have wraps : u32 4294967296 = 0 := Nat.mod_self _
  rw [counted, wraps, List.take_zero]

/-- A variable that was never set is found. -/
theorem long_name_found : ¬ ∀ (g : GlobalEnv Nat) m, GlobalRun NulFree g m → GlobalsRefine NulFree g m := by
  intro h
  obtain ⟨g, done, rep⟩ : ∃ g', GlobalEnv.new.perform (.set [] (.null : Value Nat) false) = some (_, g') ∧ _ :=
    (represents_new (ν := Nat)).setGlobal_spec rfl (Or.inl (by decide)) .null false
  have empty : NulFree (.new : GlobalEnv Nat) (fun _ => none) (.set [] .null false) :=
    (List.not_mem_nil : (0 : UInt8) ∉ [])
  have run : GlobalRun NulFree g _ := .step .new empty done
  have nul_free : NulFree g (GlobalMap.perform (fun _ => none) (.set [] (.null : Value Nat) false)).2
      (.get (List.replicate 4294967296 97)) := fun mem =>
    absurd (List.eq_of_mem_replicate mem) (by decide)
  obtain ⟨g', answer⟩ := (h g _ run).answers _ nul_free
  have long_ne : (List.replicate 4294967296 (97 : UInt8)) ≠ [] := by
    rw [Ne, List.replicate_eq_nil_iff]
    decide
  have known : GlobalMap.perform (fun _ => none) (.set [] (.null : Value Nat) false) =
      (.stored true, Function.update (fun _ => none) [] (some ((.null : Value Nat), false))) := rfl
  rw [GlobalEnv.perform, rep.getGlobal_spec, countedName_long, known] at answer
  dsimp only [GlobalMap.perform] at answer
  rw [Function.update_self, Function.update_of_ne long_ne] at answer
  cases answer

/-- The largest number of variables can be reached. -/
theorem globals_fill (n : Nat) (le : n ≤ mostGlobals) : ∃ (g : GlobalEnv ν) (m : GlobalMap ν),
    GlobalRun Affords g m ∧ g.count = n ∧ ∀ k, n ≤ k → m (List.replicate k 97) = none := by
  induction n with
  | zero => exact ⟨.new, _, .new, rfl, fun _ _ => rfl⟩
  | succ n ih =>
    obtain ⟨g, m, run, count, fresh⟩ := ih (by omega)
    have more : g.count ≠ mostGlobals := by omega
    have nul_free : (0 : UInt8) ∉ List.replicate n (97 : UInt8) := fun mem =>
      absurd (List.eq_of_mem_replicate mem) (by decide)
    have ok : Affords g m (.set (List.replicate n 97) .null false) := by
      refine ⟨nul_free, ?_, fun _ _ _ _ => Or.inl more⟩
      rw [GlobalOp.name, List.length_replicate]
      unfold mostGlobals at le
      omega
    obtain ⟨g', done, rep'⟩ := ok.perform_spec run.represents
    have stored : m.perform (.set (List.replicate n 97) .null false) =
        (.stored true, Function.update m (List.replicate n 97) (some (.null, false))) := by
      rw [GlobalMap.perform, fresh n (Nat.le_refl n)]
    have run' := GlobalRun.step run ok done
    rw [stored] at rep' run'
    dsimp only at rep' run'
    refine ⟨g', _, run', ?_, fun k lek => ?_⟩
    · -- the new table has the old entries and one more
      obtain ⟨v, holds⟩ := run.represents
      obtain ⟨v', holds'⟩ := rep'
      have absent : (⟨List.replicate n 97, .null, false⟩ : GlobalEntry ν) ∉ g.entries.reduceOption := fun mem => by
        have known := (holds _).mp mem
        rw [fresh n (Nat.le_refl n)] at known
        cases known
      have nodup : (⟨List.replicate n 97, .null, false⟩ :: g.entries.reduceOption : List (GlobalEntry ν)).Nodup :=
        List.nodup_cons.mpr ⟨absent, v.placed.nodup.of_map⟩
      have perm := (List.perm_ext_iff_of_nodup v'.placed.nodup.of_map nodup).mpr fun e => by
        rw [holds', List.mem_cons, holds, Function.update_apply]
        by_cases same : e.key = List.replicate n 97
        · rw [if_pos same, same, fresh n (Nat.le_refl n)]
          cases e with
          | mk k v c =>
            cases same
            simp [eq_comm]
        · rw [if_neg same]
          refine (or_iff_right fun e' => same ?_).symm
          rw [e']
      rw [v'.counts, perm.length_eq, List.length_cons, ← v.counts, count]
    · have ne : List.replicate k (97 : UInt8) ≠ List.replicate n 97 := fun e => by
        have len := congrArg List.length e
        rw [List.length_replicate, List.length_replicate] at len
        omega
      rw [Function.update_of_ne ne]
      exact fresh k (by omega)

end Cando
