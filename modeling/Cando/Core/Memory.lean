import Cando.Core.Handle
import Mathlib.Data.List.Perm.Basic

/-!
# The memory controller

`core/memory.c`: the registry of live blocks beside the handle table, and the mark-and-sweep collector. A
block is known by its address; `blocks` holds the headers of the blocks that the C allocator has given out
and not got back, and an access to any other address is undefined. An operation is `none` where an assertion
of the source fails. Locks and payloads are not modelled.
-/

namespace Cando

/-- A `CandoBlockHeader`. -/
structure BlockHeader where
  handle : Nat
  userSize : Nat
  deriving DecidableEq, Repr

/-- A `CandoMemCtrl`: `liveBlocks` is the part of `live_blocks` that is in use, `live_count` its length. -/
structure MemCtrl where
  handles : HandleTable
  liveBlocks : List Nat
  liveCap : Nat
  blocks : Nat → Option BlockHeader

/-- Removal at index `i` by putting the last entry there. -/
def swapRemove (l : List Nat) (i : Nat) : List Nat := (l.set i (l.getLast?.getD 0)).dropLast

namespace MemCtrl

/-- `cando_memctrl_init`. -/
def init : MemCtrl := ⟨HandleTable.init 0, [], 64, fun _ => none⟩

/-- `live_register`. A capacity that wraps to zero makes `cando_realloc` abort. -/
def liveRegister (mc : MemCtrl) (hdr : Nat) : Option MemCtrl :=
  let cap := if mc.liveBlocks.length = mc.liveCap then mc.liveCap * 2 % 4294967296 else mc.liveCap
  if cap = 0 then none else some { mc with liveBlocks := mc.liveBlocks ++ [hdr], liveCap := cap }

/-- `live_unregister`; the assertion at its end fails for a block that is not found. -/
def liveUnregister (mc : MemCtrl) (hdr : Nat) : Option MemCtrl :=
  (mc.liveBlocks.findIdx? (· == hdr)).map fun i =>
    { mc with liveBlocks := swapRemove mc.liveBlocks i }

/-- `cando_memctrl_alloc`, where the C allocator returns `addr`. -/
def alloc (mc : MemCtrl) (userSize addr : Nat) : Option (Nat × MemCtrl) :=
  if userSize = 0 then none
  else do
    let (h, handles) ← mc.handles.alloc addr
    let mc ← liveRegister
      { mc with handles, blocks := Function.update mc.blocks addr (some ⟨h, userSize⟩) } addr
    some (h, mc)

/-- The lines that `cando_memctrl_free` and `cando_gc_sweep` share. -/
def release (mc : MemCtrl) (hdr h : Nat) : Option MemCtrl := do
  let mc ← mc.liveUnregister hdr
  let handles ← mc.handles.free h
  some { mc with handles, blocks := Function.update mc.blocks hdr none }

/-- `cando_memctrl_free`. -/
def free (mc : MemCtrl) (h : Nat) : Option MemCtrl := do
  let hdr ← mc.handles.get h
  mc.release hdr h

/-- `cando_gc_mark`. -/
def gcMark (mc : MemCtrl) (h : Nat) : Option MemCtrl :=
  if h = invalidHandle then some mc
  else (mc.handles.mark h).map fun handles => { mc with handles }

/-- One turn of the loop of `cando_gc_sweep` at index `i`: the block it examines, and where it goes on. -/
def sweepTurn (mc : MemCtrl) (i : Nat) : Option (Nat × Nat × MemCtrl) := do
  let hdr ← mc.liveBlocks[i]?
  let block ← mc.blocks hdr
  let marked ← mc.handles.isMarked block.handle
  if marked then some (hdr, i + 1, mc)
  else do
    let mc ← mc.release hdr block.handle
    some (hdr, i, mc)

/-- The loop of `cando_gc_sweep` from index `i`, with the blocks it examines; `none` also when `turns` are not
enough. -/
def sweepLoop : (turns i : Nat) → MemCtrl → Option (List Nat × MemCtrl)
  | 0, _, _ => none
  | turns + 1, i, mc =>
    if i < mc.liveBlocks.length then do
      let (hdr, i, mc) ← mc.sweepTurn i
      let (examined, mc) ← sweepLoop turns i mc
      some (hdr :: examined, mc)
    else some ([], mc)

/-- `cando_gc_sweep`: a turn for every block and one to leave. -/
def gcSweep (mc : MemCtrl) : Option (List Nat × MemCtrl) :=
  sweepLoop (mc.liveBlocks.length + 1) 0 mc

/-- `cando_gc_collect`. -/
def gcCollect (mc : MemCtrl) (roots : List Nat) : Option (List Nat × MemCtrl) := do
  let mc ← roots.foldlM gcMark { mc with handles := mc.handles.clearMarks }
  mc.gcSweep

/-- The registry and the handle table agree: each registered block is allocated, its header names its
handle, and that handle resolves to it. -/
structure Inv (mc : MemCtrl) : Prop where
  table : ∃ free, mc.handles.Inv free
  pos : 0 < mc.handles.capacity
  nodup : mc.liveBlocks.Nodup
  owned : ∀ a, a ∈ mc.liveBlocks ↔ ∃ b, mc.blocks a = some b
  resolves : ∀ h a, mc.handles.get h = some a ↔ ∃ b, mc.blocks a = some b ∧ b.handle = h

variable {mc mc' : MemCtrl} {a h i : Nat} {b : BlockHeader}

lemma init_inv : init.Inv := by
  obtain ⟨free, v, pos, dead⟩ := HandleTable.init_inv 0 (by decide)
  refine ⟨⟨free, v⟩, pos, List.nodup_nil, fun a => ?_, fun h a => ?_⟩
  · simp [init]
  · simp [init, HandleTable.get, dead]

/-! ### The registry -/

/-- Removing an entry by swapping leaves the entries before it and permutes those after it. -/
lemma swapRemove_append (p r : List Nat) :
    ∃ r', r'.Perm r ∧ swapRemove (p ++ a :: r) p.length = p ++ r' := by
  rcases List.eq_nil_or_concat' r with rfl | ⟨r, y, rfl⟩
  · exact ⟨[], .refl _, by simp [swapRemove]⟩
  · refine ⟨y :: r, (List.perm_append_singleton y r).symm, ?_⟩
    have last : (p ++ a :: (r ++ [y])).getLast? = some y := by
      rw [← List.cons_append, ← List.append_assoc, List.getLast?_concat]
    have set : (p ++ a :: (r ++ [y])).set p.length y = (p ++ y :: r) ++ [y] := by simp
    rw [swapRemove, last, Option.getD_some, set, List.dropLast_concat]

lemma liveRegister_some (e : mc.liveRegister a = some mc') :
    ∃ cap, mc' = { mc with liveBlocks := mc.liveBlocks ++ [a], liveCap := cap } := by
  simp only [liveRegister] at e
  generalize (if mc.liveBlocks.length = mc.liveCap then mc.liveCap * 2 % 4294967296 else mc.liveCap) = cap
    at e
  by_cases zero : cap = 0
  · simp [zero] at e
  · simp only [zero, if_false, Option.some.injEq] at e
    exact ⟨cap, e.symm⟩

/-- `live_unregister` finds the first entry that is the block. -/
lemma liveUnregister_spec {p r : List Nat} (e : mc.liveBlocks = p ++ a :: r) (out : a ∉ p) :
    ∃ r', r'.Perm r ∧ mc.liveUnregister a = some { mc with liveBlocks := p ++ r' } := by
  obtain ⟨r', perm, removed⟩ := swapRemove_append (a := a) p r
  have skip : p.findIdx? (· == a) = none := by
    simp only [List.findIdx?_eq_none_iff, beq_eq_false_iff_ne]
    exact fun x m eq => out (eq ▸ m)
  have found : (p ++ a :: r).findIdx? (· == a) = some p.length := by
    simp [List.findIdx?_append, skip, List.findIdx?_cons]
  exact ⟨r', perm, by simp only [liveUnregister, e, found, Option.map_some, removed]⟩

/-! ### What each operation preserves -/

lemma get_update {t u : HandleTable} {j : Nat} {s : Option HandleSlot}
    (e : u.liveSlot = Function.update t.liveSlot j s) (h : Nat) :
    u.get h = if h = j then s.map (·.ptr) else t.get h := by
  by_cases ej : h = j
  · simp [HandleTable.get, e, ej]
  · simp [HandleTable.get, e, ej]

/-- `cando_memctrl_alloc` gives a new handle to a block that the C allocator had not given out. -/
lemma Inv.alloc_some (v : mc.Inv) {size addr : Nat} (fresh : mc.blocks addr = none)
    (e : mc.alloc size addr = some (h, mc')) : mc'.Inv := by
  obtain ⟨free, table⟩ := v.table
  have nonzero : size ≠ 0 := fun zero => by simp [alloc, zero] at e
  simp only [alloc, nonzero, if_false, Option.bind_eq_bind, Option.bind_eq_some_iff] at e
  obtain ⟨⟨h', handles⟩, ea, u, er, eq⟩ := e
  obtain ⟨rfl, rfl⟩ : h' = h ∧ u = mc' := by simpa using eq
  obtain ⟨free', table', dead, _, map, le⟩ := table.alloc_some v.pos ea
  have unregistered : addr ∉ mc.liveBlocks := fun m => by
    obtain ⟨b, e⟩ := (v.owned addr).mp m
    simp [fresh] at e
  have unused : mc.handles.get h' = none := by simp [HandleTable.get, dead]
  have got := get_update map
  obtain ⟨cap, rfl⟩ := liveRegister_some er
  refine ⟨⟨free', table'⟩, Nat.lt_of_lt_of_le v.pos le, ?_, fun a => ?_, fun k a => ?_⟩
  · exact List.nodup_append.mpr ⟨v.nodup, List.nodup_singleton _, fun x m y m' e => by
      obtain rfl := List.mem_singleton.mp m'
      exact unregistered (e ▸ m)⟩
  · by_cases ea : a = addr
    · simp [ea]
    · simpa [ea] using v.owned a
  · simp only [got]
    by_cases ek : k = h'
    · subst ek
      by_cases ea : a = addr
      · simp [ea]
      · have none := mt (v.resolves k a).mpr (by simp [unused])
        simpa [ea, Ne.symm ea] using none
    · by_cases ea : a = addr
      · subst ea
        have other := v.resolves k a
        simp only [fresh, reduceCtorEq, false_and, exists_false, iff_false] at other
        simpa [ek, Ne.symm ek] using other
      · simpa [ek, ea] using v.resolves k a

/-- Releasing a registered block by its own handle. -/
lemma Inv.release_spec (v : mc.Inv) {p r : List Nat} (e : mc.liveBlocks = p ++ a :: r)
    (hb : mc.blocks a = some b) : ∃ mc' r', mc.release a b.handle = some mc' ∧ mc'.Inv ∧
      r'.Perm r ∧ mc'.liveBlocks = p ++ r' ∧
      mc'.handles.liveSlot = Function.update mc.handles.liveSlot b.handle none ∧
      mc'.blocks = Function.update mc.blocks a none := by
  obtain ⟨free, table⟩ := v.table
  have nodup := v.nodup
  rw [e] at nodup
  have out : a ∉ p := fun m => (List.nodup_append.mp nodup).2.2 a m a (by simp) rfl
  obtain ⟨r', perm, removed⟩ := liveUnregister_spec e out
  have got : mc.handles.get b.handle = some a := (v.resolves _ _).mpr ⟨b, hb, rfl⟩
  obtain ⟨s, live, ptr⟩ : ∃ s, mc.handles.liveSlot b.handle = some s ∧ s.ptr = a := by
    simpa [HandleTable.get] using got
  obtain ⟨t', freed, table', map, cap⟩ := table.free_spec live
  have got' := get_update map
  have permAll : (p ++ a :: r').Perm mc.liveBlocks := e ▸ (perm.cons a).append_left p
  have nodup' : (p ++ a :: r').Nodup := permAll.nodup_iff.mpr v.nodup
  have split := (List.perm_middle.nodup_iff.mp nodup')
  rw [List.nodup_cons] at split
  refine ⟨⟨t', p ++ r', mc.liveCap, Function.update mc.blocks a none⟩, r',
    by simp [release, removed, freed], ⟨⟨_, table'⟩, cap ▸ v.pos, split.2, fun c => ?_,
    fun k c => ?_⟩, perm, rfl, map, rfl⟩
  · have m := v.owned c
    rw [← permAll.mem_iff, List.perm_middle.mem_iff, List.mem_cons] at m
    by_cases ec : c = a
    · simpa [ec] using split.1
    · simpa [ec] using m
  · simp only [got']
    by_cases ek : k = b.handle
    · subst ek
      by_cases ec : c = a
      · simp [ec]
      · have other : mc.handles.get b.handle ≠ some c := by simp [got, Ne.symm ec]
        have none := mt (v.resolves _ c).mpr other
        simpa [ec] using none
    · by_cases ec : c = a
      · subst ec
        have other := v.resolves k c
        simp only [hb, Option.some.injEq, exists_eq_left', Ne.symm ek, iff_false] at other
        simpa [ek] using other
      · simpa [ek, ec] using v.resolves k c

/-- Two live handles do not resolve to one block. -/
lemma Inv.handle_eq (v : mc.Inv) (hb : mc.blocks a = some b) {s : HandleSlot}
    (live : mc.handles.liveSlot h = some s) (ptr : s.ptr = a) : h = b.handle := by
  obtain ⟨b', hb', e⟩ := (v.resolves h a).mp (by simp [HandleTable.get, live, ptr])
  obtain rfl : b' = b := Option.some.inj (hb'.symm.trans hb)
  exact e.symm

/-! ### The collector -/

/-- The loop of the sweep examines every block from index `i` on once and leaves the handles of those that are
marked; the blocks before the index stay. -/
lemma Inv.sweepLoop_spec (v : mc.Inv) {p r : List Nat} {turns : Nat} (e : mc.liveBlocks = p ++ r)
    (enough : r.length < turns) : ∃ examined mc', sweepLoop turns p.length mc = some (examined, mc') ∧
      mc'.Inv ∧ examined.Perm r ∧ ∀ h s, mc'.handles.liveSlot h = some s ↔
        mc.handles.liveSlot h = some s ∧ (s.ptr ∈ r → s.marked = true) := by
  induction turns generalizing mc p r with
  | zero => omega
  | succ turns ih =>
    cases r with
    | nil =>
      have stop : ¬ p.length < mc.liveBlocks.length := by simp [e]
      exact ⟨[], mc, by simp [sweepLoop, stop], v, .refl _, fun h s => by simp⟩
    | cons a r =>
      have go : p.length < mc.liveBlocks.length := by simp [e]
      have here : mc.liveBlocks[p.length]? = some a := by simp [e]
      obtain ⟨b, hb⟩ := (v.owned a).mp (by simp [e])
      obtain ⟨s₀, live, ptr⟩ : ∃ s, mc.handles.liveSlot b.handle = some s ∧ s.ptr = a := by
        have got := (v.resolves b.handle a).mpr ⟨b, hb, rfl⟩
        simpa [HandleTable.get] using got
      have mark : mc.handles.isMarked b.handle = some s₀.marked := by simp [HandleTable.isMarked, live]
      cases marked : s₀.marked with
      | true =>
        have turn : mc.sweepTurn p.length = some (a, p.length + 1, mc) := by
          simp [sweepTurn, here, hb, mark, marked]
        obtain ⟨examined, mc', loop, v', perm, kept⟩ :=
          ih v (p := p ++ [a]) (r := r) (by simp [e]) (by simp only [List.length_cons] at enough; omega)
        rw [List.length_append, List.length_singleton] at loop
        refine ⟨a :: examined, mc', by simp [sweepLoop, go, turn, loop], v', perm.cons a,
          fun h s => (kept h s).trans ?_⟩
        refine and_congr_right fun live' => ⟨fun keep m => ?_, fun keep m =>
          keep (List.mem_cons_of_mem _ m)⟩
        rcases List.mem_cons.mp m with ptr' | m
        · obtain rfl := v.handle_eq hb live' ptr'
          obtain rfl : s₀ = s := Option.some.inj (live.symm.trans live')
          exact marked
        · exact keep m
      | false =>
        obtain ⟨mc₁, r', released, v₁, perm', e₁, map, _⟩ := v.release_spec e hb
        have turn : mc.sweepTurn p.length = some (a, p.length, mc₁) := by
          simp [sweepTurn, here, hb, mark, marked, released]
        obtain ⟨examined, mc', loop, v', perm, kept⟩ := ih v₁ e₁ (by
          have := perm'.length_eq
          simp only [List.length_cons] at enough
          omega)
        refine ⟨a :: examined, mc', by simp [sweepLoop, go, turn, loop], v', (perm.trans perm').cons a,
          fun h s => (kept h s).trans ?_⟩
        by_cases eh : h = b.handle
        · subst eh
          simp only [map, Function.update_self, reduceCtorEq, false_and, false_iff, not_and]
          intro live' keep
          obtain rfl : s₀ = s := Option.some.inj (live.symm.trans live')
          have := keep (by simp [ptr])
          simp [marked] at this
        · simp only [map, Function.update_of_ne eh]
          refine and_congr_right fun live' => ?_
          have ne : s.ptr ≠ a := fun ptr' => eh (v.handle_eq hb live' ptr')
          simp [ne, perm'.mem_iff]

/-- A change to the marks of the handle table alone. -/
lemma Inv.remark (v : mc.Inv) {t : HandleTable} (table : ∃ free, t.Inv free) (pos : 0 < t.capacity)
    (same : ∀ h, t.get h = mc.handles.get h) : MemCtrl.Inv { mc with handles := t } :=
  ⟨table, pos, v.nodup, v.owned, fun h a => by simpa [same] using v.resolves h a⟩

/-- A handle that may be a root: live, or the invalid one. -/
def IsRoot (mc : MemCtrl) (h : Nat) : Prop := h = invalidHandle ∨ (mc.handles.liveSlot h).isSome

/-- Marking one root marks its slot and changes nothing else. -/
lemma Inv.gcMark_spec (v : mc.Inv) (root : mc.IsRoot h) : ∃ t, mc.gcMark h = some { mc with handles := t } ∧
    MemCtrl.Inv { mc with handles := t } ∧ (∀ k, t.get k = mc.handles.get k) ∧
    ∀ k, t.liveSlot k = (mc.handles.liveSlot k).map fun s =>
      { s with marked := s.marked || (decide (k = h) && decide (h ≠ invalidHandle)) } := by
  by_cases invalid : h = invalidHandle
  · refine ⟨mc.handles, by simp [gcMark, invalid], v, fun _ => rfl, fun k => ?_⟩
    simp [invalid]
  · obtain ⟨free, table⟩ := v.table
    obtain ⟨s, live⟩ := Option.isSome_iff_exists.mp (root.resolve_left invalid)
    obtain ⟨t, marked, table', map, cap⟩ := table.mark_spec live
    have same : ∀ k, t.get k = mc.handles.get k := by
      intro k
      rw [get_update map k]
      by_cases ek : k = h
      · simp [HandleTable.get, ek, live]
      · simp [ek]
    refine ⟨t, by simp [gcMark, invalid, marked], v.remark ⟨_, table'⟩ (cap ▸ v.pos) same, same,
      fun k => ?_⟩
    rw [map]
    by_cases ek : k = h
    · subst ek
      simp [live, invalid]
    · simp [ek]

/-- Marking the roots marks the slots of those that are live. -/
lemma Inv.markRoots_spec (v : mc.Inv) (roots : List Nat) (ok : ∀ h ∈ roots, mc.IsRoot h) :
    ∃ t, roots.foldlM gcMark mc = some { mc with handles := t } ∧ MemCtrl.Inv { mc with handles := t } ∧
      (∀ k, t.get k = mc.handles.get k) ∧ ∀ k, t.liveSlot k = (mc.handles.liveSlot k).map fun s =>
        { s with marked := s.marked || (decide (k ∈ roots) && decide (k ≠ invalidHandle)) } := by
  induction roots generalizing mc with
  | nil => exact ⟨mc.handles, rfl, v, fun _ => rfl, fun k => by simp⟩
  | cons h roots ih =>
    obtain ⟨t₁, marked, v₁, same₁, map₁⟩ := v.gcMark_spec (ok h (by simp))
    have ok₁ : ∀ k ∈ roots, MemCtrl.IsRoot { mc with handles := t₁ } k := by
      intro k m
      refine (ok k (by simp [m])).imp id fun live => ?_
      simpa [map₁] using live
    obtain ⟨t, rest, v', same, map⟩ := ih v₁ ok₁
    refine ⟨t, by simp [marked, rest], v', fun k => (same k).trans (same₁ k), fun k => ?_⟩
    rw [map, map₁, Option.map_map]
    congr 1
    funext s
    by_cases ek : k = h
    · subst ek
      have absorb : ∀ x y z : Bool, (x || z || (y && z)) = (x || z) := by decide
      simp [absorb]
    · simp [ek]

/-- `cando_gc_collect` with roots that are live or invalid: every block is examined, and the handles that
stay live are those among the roots. -/
lemma Inv.gcCollect_spec (v : mc.Inv) {roots : List Nat} (ok : ∀ h ∈ roots, mc.IsRoot h) :
    ∃ examined mc', mc.gcCollect roots = some (examined, mc') ∧ mc'.Inv ∧
      examined.Perm mc.liveBlocks ∧
      ∀ h a, mc'.handles.get h = some a ↔ mc.handles.get h = some a ∧ h ∈ roots := by
  obtain ⟨free, table⟩ := v.table
  obtain ⟨table', cleared⟩ := table.clearMarks_spec
  have same₀ : ∀ h, mc.handles.clearMarks.get h = mc.handles.get h := by
    intro h
    simp only [HandleTable.get, cleared, Option.map_map]
    rfl
  have v₀ := v.remark ⟨_, table'⟩ v.pos same₀
  obtain ⟨t, marked, v₁, same, map⟩ := v₀.markRoots_spec roots fun h m =>
    (ok h m).imp id fun live => by simpa [cleared] using live
  obtain ⟨examined, mc', swept, v', perm, kept⟩ :=
    v₁.sweepLoop_spec (p := []) rfl (Nat.lt_succ_self _)
  refine ⟨examined, mc', ?_, v', perm, fun h a => ?_⟩
  · simp only [gcCollect, marked, Option.bind_eq_bind, Option.bind_some]
    exact swept
  · have ptrs : ∀ {k a}, mc.handles.get k = some a → a ∈ mc.liveBlocks ∧ k ≠ invalidHandle := by
      intro k a got
      obtain ⟨b, hb, _⟩ := (v.resolves k a).mp got
      obtain ⟨s, live, _⟩ : ∃ s, mc.handles.liveSlot k = some s ∧ s.ptr = a := by
        simpa [HandleTable.get] using got
      have lt := (table.of_liveSlot live).1
      have bound := table.bound
      rw [table.length] at lt
      exact ⟨(v.owned a).mpr ⟨b, hb⟩, by omega⟩
    have before : mc.handles.get h = some a ↔ t.get h = some a := by rw [same, same₀]
    rw [before]
    simp only [HandleTable.get, Option.map_eq_some_iff, kept]
    constructor
    · rintro ⟨s, ⟨live, keep⟩, rfl⟩
      refine ⟨⟨s, live, rfl⟩, ?_⟩
      have got : mc.handles.get h = some s.ptr := before.mpr (by simp [HandleTable.get, live])
      have mark := keep (ptrs got).1
      rw [map] at live
      obtain ⟨s', live', rfl⟩ := Option.map_eq_some_iff.mp live
      rw [cleared] at live'
      obtain ⟨s₀, _, rfl⟩ := Option.map_eq_some_iff.mp live'
      simp only [Bool.false_or, Bool.and_eq_true, decide_eq_true_eq] at mark
      exact mark.1
    · rintro ⟨⟨s, live, rfl⟩, m⟩
      have got : mc.handles.get h = some s.ptr := before.mpr (by simp [HandleTable.get, live])
      refine ⟨s, ⟨live, fun _ => ?_⟩, rfl⟩
      rw [map] at live
      obtain ⟨s', _, rfl⟩ := Option.map_eq_some_iff.mp live
      simp [m, (ptrs got).2]

/-! ### Histories -/

/-- The states of a memory controller over its operations: an allocation is given a block that is not in use,
a freed handle is live, and so are the roots of a collection, or invalid. An allocation that does not succeed
has aborted the program. -/
inductive Reached : MemCtrl → Prop where
  | init : Reached init
  | alloc {mc mc' : MemCtrl} {size addr h : Nat} : Reached mc → mc.blocks addr = none →
      mc.alloc size addr = some (h, mc') → Reached mc'
  | free {mc mc' : MemCtrl} {h : Nat} : Reached mc → (mc.handles.liveSlot h).isSome →
      mc.free h = some mc' → Reached mc'
  | collect {mc mc' : MemCtrl} {roots examined : List Nat} : Reached mc →
      (∀ h ∈ roots, mc.IsRoot h) → mc.gcCollect roots = some (examined, mc') → Reached mc'

/-- `cando_memctrl_free` of a live handle removes its block and keeps the others. -/
lemma Inv.free_spec (v : mc.Inv) (live : (mc.handles.liveSlot h).isSome) :
    ∃ mc', mc.free h = some mc' ∧ mc'.Inv ∧
      ∀ k a, mc'.handles.get k = some a ↔ mc.handles.get k = some a ∧ k ≠ h := by
  obtain ⟨s, slot⟩ := Option.isSome_iff_exists.mp live
  have got : mc.handles.get h = some s.ptr := by simp [HandleTable.get, slot]
  obtain ⟨b, hb, rfl⟩ := (v.resolves h s.ptr).mp got
  obtain ⟨p, r, e⟩ := List.append_of_mem ((v.owned s.ptr).mpr ⟨b, hb⟩)
  obtain ⟨mc', _, released, v', _, _, map, _⟩ := v.release_spec e hb
  refine ⟨mc', by simp [free, got, released], v', fun k a => ?_⟩
  rw [get_update map k]
  by_cases ek : k = b.handle <;> simp [ek]

lemma Reached.inv (r : mc.Reached) : mc.Inv := by
  induction r with
  | init => exact init_inv
  | alloc _ fresh e ih => exact ih.alloc_some fresh e
  | free _ live e ih =>
    obtain ⟨u, e', v, _⟩ := ih.free_spec live
    obtain rfl := Option.some.inj (e'.symm.trans e)
    exact v
  | collect _ ok e ih =>
    obtain ⟨examined, u, e', v, _⟩ := ih.gcCollect_spec ok
    obtain ⟨rfl, rfl⟩ : _ ∧ u = _ := by simpa using e'.symm.trans e
    exact v

/-- After any sequence of operations the registry has no duplicates and its blocks correspond one to one to the
live handles, each block's header naming the handle that resolves to it. A live handle can be freed. A
collection examines every block once and ends; the handles that survive it are those among the roots, each
resolving to the block it did before, and their blocks are the registry. -/
theorem reached_sound (r : mc.Reached) :
    mc.liveBlocks.Nodup ∧
    (∀ a ∈ mc.liveBlocks, ∃ b, mc.blocks a = some b ∧ mc.handles.get b.handle = some a) ∧
    (∀ h a, mc.handles.get h = some a →
      a ∈ mc.liveBlocks ∧ ∃ b, mc.blocks a = some b ∧ b.handle = h) ∧
    (∀ h, (mc.handles.liveSlot h).isSome → (mc.free h).isSome) ∧
    ∀ roots, (∀ h ∈ roots, mc.IsRoot h) → ∃ examined mc', mc.gcCollect roots = some (examined, mc') ∧
      examined.Perm mc.liveBlocks ∧
      (∀ h a, mc'.handles.get h = some a ↔ mc.handles.get h = some a ∧ h ∈ roots) ∧
      (∀ a, a ∈ mc'.liveBlocks ↔ ∃ h ∈ roots, mc.handles.get h = some a) := by
  have v := r.inv
  have block : ∀ {mc : MemCtrl}, mc.Inv → ∀ a, a ∈ mc.liveBlocks ↔ ∃ h, mc.handles.get h = some a := by
    intro mc v a
    rw [v.owned]
    constructor
    · rintro ⟨b, hb⟩
      exact ⟨b.handle, (v.resolves _ _).mpr ⟨b, hb, rfl⟩⟩
    · rintro ⟨h, got⟩
      obtain ⟨b, hb, _⟩ := (v.resolves h a).mp got
      exact ⟨b, hb⟩
  refine ⟨v.nodup, fun a m => ?_, fun h a got => ?_, fun h live => ?_, fun roots ok => ?_⟩
  · obtain ⟨b, hb⟩ := (v.owned a).mp m
    exact ⟨b, hb, (v.resolves _ _).mpr ⟨b, hb, rfl⟩⟩
  · exact ⟨(block v a).mpr ⟨h, got⟩, (v.resolves h a).mp got⟩
  · obtain ⟨mc', e, _⟩ := v.free_spec live
    simp [e]
  · obtain ⟨examined, mc', e, v', perm, kept⟩ := v.gcCollect_spec ok
    refine ⟨examined, mc', e, perm, kept, fun a => ?_⟩
    rw [block v' a]
    constructor
    · rintro ⟨h, got⟩
      exact ⟨h, ((kept h a).mp got).2, ((kept h a).mp got).1⟩
    · rintro ⟨h, m, got⟩
      exact ⟨h, (kept h a).mpr ⟨got, m⟩⟩

/-- Three blocks, of which a collection with a repeated and an invalid root keeps the outer two. -/
theorem reached_sound_collect : ∃ mc : MemCtrl, mc.Reached ∧ mc.liveBlocks = [100, 200, 300] ∧
    ∃ examined mc', mc.gcCollect [2, invalidHandle, 0, 2] = some (examined, mc') ∧
      examined.Perm [100, 200, 300] ∧ (100 ∈ mc'.liveBlocks ∧ 200 ∉ mc'.liveBlocks) := by
  have run : ((init.alloc 8 100).bind fun x => (x.2.alloc 8 200).bind fun y => (y.2.alloc 8 300).map
      fun z => (x.2.blocks 200, y.2.blocks 300, z.2.liveBlocks, [0, 1, 2].map z.2.handles.get)) =
      some (none, none, [100, 200, 300], [some 100, some 200, some 300]) := by decide
  simp only [Option.bind_eq_some_iff, Option.map_eq_some_iff, List.map_cons, List.map_nil,
    Prod.mk.injEq, List.cons.injEq] at run
  obtain ⟨⟨_, mc₁⟩, e₁, ⟨_, mc₂⟩, e₂, ⟨_, mc⟩, e₃, fresh₁, fresh₂, blocks, got₀, got₁, got₂, _⟩ := run
  have r : mc.Reached := ((Reached.init.alloc rfl e₁).alloc fresh₁ e₂).alloc fresh₂ e₃
  have root : ∀ {h a}, mc.handles.get h = some a → mc.IsRoot h := fun got =>
    Or.inr (by simpa [HandleTable.get] using congrArg Option.isSome got)
  obtain ⟨_, _, _, _, collect⟩ := reached_sound r
  obtain ⟨examined, mc', e, perm, _, kept⟩ := collect [2, invalidHandle, 0, 2] (by
    intro h m
    simp only [List.mem_cons, List.not_mem_nil, or_false] at m
    rcases m with rfl | rfl | rfl | rfl
    · exact root got₂
    · exact Or.inl rfl
    · exact root got₀
    · exact root got₂)
  refine ⟨mc, r, blocks, examined, mc', e, blocks ▸ perm, (kept 100).mpr ⟨0, by simp, got₀⟩, fun m => ?_⟩
  obtain ⟨h, m, got⟩ := (kept 200).mp m
  -- only handle 1 resolves to the block, and it is no root
  obtain ⟨b, hb, rfl⟩ := (r.inv.resolves h 200).mp got
  obtain ⟨b', hb', e₁⟩ := (r.inv.resolves 1 200).mp got₁
  obtain rfl : b = b' := Option.some.inj (hb.symm.trans hb')
  rw [e₁] at m
  exact absurd m (by decide)

end MemCtrl

end Cando
