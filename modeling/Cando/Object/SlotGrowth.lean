import Cando.Object.HashTable
import Mathlib.Algebra.Ring.Nat

/-!
# The growth of the slot array

`obj_ensure_capacity` counts tombstones as used slots and doubles the array when three quarters of it are used; the
array never shrinks, and a rehash that keeps its size is not among the choices. While tombstones stay in proportion
to the fields, so does the array. Keys that come and go leave tombstones behind them, and the array doubles
however few the fields are.
-/

namespace Cando

variable {ν : Type}

namespace HashTable

variable {t t' : HashTable ν} {order : List Nat} {m : FieldMap ν}

/-! ### Growth at any size -/

/-- The array has at most 2^31 slots. For 2^31 of them `slot_cap * 3` has wrapped around to 2^31. -/
structure Sized (t : HashTable ν) : Prop where
  le : t.slots.length ≤ 2147483648
  top : t.slots.length = 2147483648 → (t.fieldCount + t.tombstoneCount) * 4 ≤ 2147483648

/-- `obj_ensure_capacity` has no room for one more field, deleted ones counted. -/
def Grows (t : HashTable ν) : Prop :=
  t.slots.length = 0 ∨ t.slots.length * 3 < (t.fieldCount + t.tombstoneCount + 1) * 4

lemma doubled_from_zero {n turns : Nat} (h : u32 ((n + 1) * 4) ≠ 0) : doubled n turns 0 = none := by
  induction turns with
  | zero => rfl
  | succ turns ih =>
    have again : u32 (0 * 3) < u32 ((n + 1) * 4) := Nat.pos_of_ne_zero h
    rw [doubled, if_pos again]
    exact ih

lemma half_of_pow {n : Nat} (pow : n.isPowerOfTwo) (le : n ≤ 2147483648) (ne : n ≠ 2147483648) : n ≤ 1073741824 := by
  obtain ⟨k, rfl⟩ := pow
  have lt : (2 : Nat) ^ k < 2 ^ 31 := by omega
  have exp : k ≤ 30 := Nat.le_of_lt_succ ((Nat.pow_lt_pow_iff_right (by decide)).mp lt)
  exact Nat.pow_le_pow_right (by decide) exp

/-- The capacity that the array grows to is twice the old one, or 8. -/
lemma Inv.doubled_some (v : t.Inv order) (sized : t.Sized) {newCap : Nat}
    (run : doubled t.fieldCount 32 (if t.slots.length = 0 then 8 else u32 (t.slots.length * 2)) = some newCap) :
    newCap.isPowerOfTwo ∧ newCap = (if t.slots.length = 0 then 8 else t.slots.length * 2) ∧
      newCap ≤ 2147483648 ∧ (t.fieldCount + 1) * 4 ≤ newCap * 3 ∧
      (newCap = 2147483648 → (t.fieldCount + 1) * 4 ≤ 2147483648) := by
  have load := v.load
  rcases v.pow with zero | pow
  · have none : t.fieldCount = 0 := by omega
    rw [if_pos zero, none] at run
    have stop : doubled 0 32 8 = some 8 := rfl
    obtain rfl := Option.some.inj (stop.symm.trans run)
    rw [if_pos zero]
    exact ⟨⟨3, rfl⟩, rfl, by decide, by omega, fun full => absurd full (by decide)⟩
  have pos := Nat.pos_of_isPowerOfTwo pow
  have twice := Nat.isPowerOfTwo_mul_two_of_isPowerOfTwo pow
  rw [if_neg (by omega)] at run ⊢
  by_cases top : t.slots.length = 2147483648
  · -- the doubled capacity wraps around to 0, from where the loop never ends
    have fits := sized.top top
    have need : u32 ((t.fieldCount + 1) * 4) ≠ 0 := by
      rw [u32_eq (by omega)]
      omega
    have wraps : u32 (t.slots.length * 2) = 0 := by rw [top]; rfl
    rw [wraps, doubled_from_zero need] at run
    cases run
  have half := half_of_pow pow sized.le top
  have need : u32 ((t.fieldCount + 1) * 4) = (t.fieldCount + 1) * 4 := u32_eq (by omega)
  rw [u32_eq (by omega), doubled] at run
  split at run
  case isTrue small =>
    -- only 2^31 slots, whose threefold wraps around, can be too few
    rw [need] at small
    have last : t.slots.length = 1073741824 := by
      by_contra less
      have quarter : t.slots.length * 2 ≤ 1073741824 := half_of_pow twice (by omega) (by omega)
      rw [u32_eq (by omega)] at small
      omega
    have wraps : u32 (t.slots.length * 2 * 2) = 0 := by rw [last]; rfl
    rw [wraps, doubled_from_zero (by omega)] at run
    cases run
  case isFalse enough =>
    obtain rfl := Option.some.inj run
    rw [need] at enough
    refine ⟨twice, rfl, by omega, by omega, fun full => ?_⟩
    have wraps : u32 (t.slots.length * 2 * 3) = 2147483648 := by rw [full]; rfl
    omega

/-- `obj_ensure_capacity`, at any size: it keeps the array if there is room in it, and comes back with one of twice as
many slots and no tombstones else. -/
lemma Inv.ensureCapacity_sized (v : t.Inv order) (sized : t.Sized) (run : t.ensureCapacity = some t') :
    ∃ order', t'.Inv order' ∧ order'.map (fieldAt t'.slots) = order.map (fieldAt t.slots) ∧
      t'.readonly = t.readonly ∧ t'.fieldCount = t.fieldCount ∧ t'.slots.length.isPowerOfTwo ∧
      (t'.fieldCount + t'.tombstoneCount + 1) * 4 ≤ t'.slots.length * 3 ∧ t'.slots.length ≤ 2147483648 ∧
      (t'.slots.length = 2147483648 → (t'.fieldCount + t'.tombstoneCount + 1) * 4 ≤ 2147483648) ∧
      (t' = t ∨ t.Grows ∧ t'.tombstoneCount = 0 ∧
        t'.slots.length = if t.slots.length = 0 then 8 else t.slots.length * 2) := by
  have load := v.load
  have le := sized.le
  have used : u32 (t.fieldCount + t.tombstoneCount + 1) = t.fieldCount + t.tombstoneCount + 1 := u32_eq (by omega)
  simp only [ensureCapacity] at run
  split at run
  case isTrue grow =>
    obtain ⟨newCap, choice, moved⟩ := Option.bind_eq_some_iff.mp run
    obtain ⟨pow, cap, small, room, top⟩ := v.doubled_some sized choice
    have bound : newCap < noSlot := Nat.lt_of_le_of_lt small (by decide)
    obtain ⟨t₁, order', moved', v', len, fields, ro, count, clean⟩ := v.rehash_spec pow bound room
    obtain rfl := Option.some.inj (moved'.symm.trans moved)
    refine ⟨order', v', fields, ro, count, len ▸ pow, ?_, len ▸ small, fun full => ?_, .inr ⟨?_, clean, len.trans cap⟩⟩
    · rw [len, count, clean]
      exact room
    · rw [count, clean]
      exact top (len ▸ full)
    · rcases v.pow with zero | pow'
      · exact .inl zero
      · have pos := Nat.pos_of_isPowerOfTwo pow'
        rw [if_neg (by omega)] at cap
        rw [used, u32_eq (by omega), u32_eq (by omega)] at grow
        exact grow
  case isFalse keep =>
    obtain rfl := Option.some.inj run
    rw [not_or, used] at keep
    have pow := v.pow.resolve_left keep.1
    by_cases top : t.slots.length = 2147483648
    · have fits := sized.top top
      have wraps : u32 (t.slots.length * 3) = 2147483648 := by rw [top]; rfl
      rw [wraps, u32_eq (by omega)] at keep
      exact ⟨order, v, rfl, rfl, rfl, pow, by omega, le, fun _ => by omega, .inl rfl⟩
    · have half := half_of_pow pow le top
      rw [u32_eq (by omega), u32_eq (by omega)] at keep
      exact ⟨order, v, rfl, rfl, rfl, pow, by omega, le, fun full => absurd full top, .inl rfl⟩

/-! ### The growth over a history -/

/-- A plain object after a history of operations that all meet `P`, with the largest number of fields it had at one
time. -/
inductive History (P : HashTable ν → FieldOp ν → Prop) : HashTable ν → Nat → Prop where
  | new : History P {} 0
  | step {t t' : HashTable ν} {peak : Nat} {op : FieldOp ν} {r : Bool} : History P t peak → P t op →
      t.perform op = some (r, t') → History P t' (max peak t'.fieldCount)

/-- The condition on an operation: where it makes the array grow, there are at most `f` tombstones for each of the
fields and the new one. -/
def InProportion (f : Nat) (t : HashTable ν) : FieldOp ν → Prop
  | .set _ _ _ => t.readonly = false → t.Grows → t.tombstoneCount ≤ f * (t.fieldCount + 1)
  | _ => True

/-- A write to a field leaves at least one, and no more than one more. -/
lemma set_length (writable : m.readonly ≠ true) (key : Nat) (val : CdoValue ν) (flags : Nat) :
    m.fields.length ≤ (m.perform (.set key val flags)).2.fields.length ∧
      (m.perform (.set key val flags)).2.fields.length ≤ m.fields.length + 1 ∧
      0 < (m.perform (.set key val flags)).2.fields.length := by
  have step : m.perform (.set key val flags) =
      if (OrderedMap.find m.fields key).any fun f => isStatic f.2 then (false, m)
      else (true, { m with fields := OrderedMap.insert m.fields key (val, flags) }) := if_neg writable
  rw [step]
  split
  case isTrue static =>
    refine ⟨Nat.le_refl _, Nat.le_succ _, List.length_pos_of_ne_nil ?_⟩
    intro empty
    rw [empty] at static
    cases static
  case isFalse =>
    simp only [OrderedMap.insert]
    split
    case isTrue mem =>
      obtain ⟨f, mem, -⟩ := List.mem_map.mp mem
      rw [List.length_map]
      exact ⟨Nat.le_refl _, Nat.le_succ _, List.length_pos_of_mem mem⟩
    case isFalse =>
      rw [List.length_append, List.length_singleton]
      exact ⟨Nat.le_succ _, Nat.le_refl _, Nat.succ_pos _⟩

lemma Repr.count (rep : t.Repr m) : t.fieldCount = m.fields.length := by
  obtain ⟨_, order, v, fields⟩ := rep
  rw [v.fields, ← fields, List.length_map]

/-- What a deletion does to the counts. -/
lemma rawdelete_counts {key : Nat} {r : Bool} (run : t.rawdelete key = some (r, t')) :
    (t'.fieldCount = t.fieldCount ∧ t'.tombstoneCount = t.tombstoneCount ∧ r = false) ∨
      (t'.fieldCount = u32 (t.fieldCount + 4294967295) ∧ t'.tombstoneCount = u32 (t.tombstoneCount + 1)) := by
  unfold rawdelete at run
  split at run
  · cases run
    exact .inl ⟨rfl, rfl, rfl⟩
  · obtain ⟨⟨found, at_⟩, -, run⟩ := Option.bind_eq_some_iff.mp run
    cases found with
    | none =>
      cases run
      exact .inl ⟨rfl, rfl, rfl⟩
    | some idx =>
      obtain ⟨s, -, run⟩ := Option.bind_eq_some_iff.mp run
      split at run
      · cases run
        exact .inl ⟨rfl, rfl, rfl⟩
      · obtain ⟨_, -, run⟩ := Option.bind_eq_some_iff.mp run
        cases run
        exact .inr ⟨rfl, rfl⟩

/-- What every operation keeps, whatever the size. -/
lemma Repr.perform_any {r : Bool} {op : FieldOp ν} (rep : t.Repr m) (sized : t.Sized)
    (run : t.perform op = some (r, t')) :
    t'.Repr (m.perform op).2 ∧ t'.Sized ∧
      (t'.slots.length = t.slots.length ∨ ∃ key val flags, op = .set key val flags ∧ t.readonly = false ∧ t.Grows ∧
        t'.slots.length = if t.slots.length = 0 then 8 else t.slots.length * 2) := by
  cases op with
  | setReadonly ro =>
    obtain ⟨_, order, v, fields⟩ := rep
    cases run
    exact ⟨⟨rfl, order, ⟨v.layout, v.pow, v.fields, v.tombs, v.load⟩, fields⟩, ⟨sized.le, sized.top⟩, .inl rfl⟩
  | delete key =>
    obtain ⟨u, run', rep', len⟩ := rep.rawdelete_spec key
    obtain rfl : u = t' := by
      have same := Option.some.inj (run'.symm.trans run)
      exact congrArg Prod.snd same
    refine ⟨rep', ⟨len ▸ sized.le, fun top => ?_⟩, .inl len⟩
    have fits := sized.top (len ▸ top)
    obtain ⟨-, order, v, -⟩ := rep'
    have load := v.load
    rcases rawdelete_counts run with ⟨count, tombs, -⟩ | ⟨count, tombs⟩
    · omega
    · rw [u32] at count tombs
      omega
  | set key val flags =>
    by_cases readonly : m.readonly = true
    · have refused : t.perform (.set key val flags) = some (false, t) := if_pos (rep.1.trans readonly)
      obtain ⟨rfl, rfl⟩ : false = r ∧ t = t' := by simpa using refused.symm.trans run
      have same : (m.perform (.set key val flags)).2 = m := by simp only [FieldMap.perform, if_pos readonly]
      exact ⟨same.symm ▸ rep, sized, .inl rfl⟩
    · have writable : t.readonly ≠ true := rep.1 ▸ readonly
      obtain ⟨ro, order, v, fields⟩ := rep
      have ensured : ∃ t₁, t.ensureCapacity = some t₁ := by
        have unfolded : t.rawset key val flags = some (r, t') := run
        rw [rawset, if_neg writable] at unfolded
        obtain ⟨t₁, ensured, -⟩ := Option.bind_eq_some_iff.mp unfolded
        exact ⟨t₁, ensured⟩
      obtain ⟨t₁, ensured⟩ := ensured
      obtain ⟨order₁, v₁, fields₁, ro₁, count₁, pow, room, le, top, grown⟩ := v.ensureCapacity_sized sized ensured
      obtain ⟨u, run', rep', len, tombs⟩ := Repr.rawset_ensured ⟨ro, order, v, fields⟩ readonly ensured v₁
        (fields₁.trans fields) ro₁ pow room key val flags
      obtain rfl : u = t' := by
        have same := Option.some.inj (run'.symm.trans run)
        exact congrArg Prod.snd same
      refine ⟨rep', ⟨len ▸ le, fun full => ?_⟩, ?_⟩
      · have more := (set_length readonly key val flags).2.1
        have count := rep'.count
        have before := Repr.count ⟨ro, order, v, fields⟩
        have fits := top (len ▸ full)
        omega
      · rcases grown with same | ⟨grows, -, cap⟩
        · exact .inl (by rw [len, same])
        · exact .inr ⟨key, val, flags, rfl, Bool.eq_false_iff.mpr writable, grows, len.trans cap⟩

/-- Every object of a history is well formed. -/
lemma History.repr {P : HashTable ν → FieldOp ν → Prop} {peak : Nat} (h : History P t peak) :
    (∃ m, t.Repr m) ∧ t.Sized ∧ t.fieldCount ≤ peak := by
  induction h with
  | new => exact ⟨⟨{}, rfl, [], inv_new, rfl⟩, ⟨Nat.zero_le _, fun top => nomatch top⟩, Nat.le_refl _⟩
  | step _ _ run ih =>
    obtain ⟨⟨m, rep⟩, sized, -⟩ := ih
    obtain ⟨rep', sized', -⟩ := rep.perform_any sized run
    exact ⟨⟨_, rep'⟩, sized', Nat.le_max_right _ _⟩

/-- While the tombstones are in proportion to the fields, so is the array. -/
theorem slot_cap_bounded {f : Nat} {t : HashTable ν} {peak : Nat} (h : History (InProportion f) t peak) :
    t.slots.length ≤ 6 * (f + 1) * peak + 8 := by
  induction h with
  | new => exact Nat.zero_le _
  | @step t t' peak op r before ok run ih =>
    obtain ⟨⟨m, rep⟩, sized, few⟩ := before.repr
    obtain ⟨rep', -, same | ⟨key, val, flags, rfl, writable, grows, cap⟩⟩ := rep.perform_any sized run
    · have mono : 6 * (f + 1) * peak ≤ 6 * (f + 1) * max peak t'.fieldCount :=
        Nat.mul_le_mul_left _ (Nat.le_max_left _ _)
      omega
    · have tombs := ok writable grows
      rcases grows with zero | full
      · rw [cap, if_pos zero]
        exact Nat.le_add_left _ _
      · -- the fields alone account for their share of the old array
        have readonly : m.readonly ≠ true := by
          rw [← rep.1, writable]
          exact Bool.false_ne_true
        obtain ⟨more, -, pos⟩ := set_length readonly key val flags
        rw [← rep'.count, ← rep.count] at more
        rw [← rep'.count] at pos
        have share : (f + 1) * (t.fieldCount + 1) ≤ (f + 1) * (2 * t'.fieldCount) :=
          Nat.mul_le_mul_left _ (by omega)
        have split : (f + 1) * (t.fieldCount + 1) = f * (t.fieldCount + 1) + (t.fieldCount + 1) := Nat.succ_mul _ _
        have twice : (f + 1) * (2 * t'.fieldCount) = 2 * ((f + 1) * t'.fieldCount) := Nat.mul_left_comm _ _ _
        have mono : (f + 1) * t'.fieldCount ≤ (f + 1) * max peak t'.fieldCount :=
          Nat.mul_le_mul_left _ (Nat.le_max_right _ _)
        have assoc : 6 * (f + 1) * max peak t'.fieldCount = 6 * ((f + 1) * max peak t'.fieldCount) :=
          Nat.mul_assoc _ _ _
        split at cap
        · omega
        · omega

/-- A field that is set and deleted, and another one. -/
theorem slot_cap_bounded_again : ∃ t : HashTable Int, History (InProportion 1) t 1 ∧ t.slots.length ≤ 20 := by
  have ops : ((perform ({} : HashTable Int) (.set 64 (.bool true) 0)).bind fun x =>
      (x.2.perform (.delete 64)).bind fun y => (y.2.perform (.set 128 .null 0)).map fun z =>
        [y.2.tombstoneCount, x.2.fieldCount, y.2.fieldCount, z.2.fieldCount]) = some [1, 1, 0, 1] := by
    decide +kernel
  simp only [Option.bind_eq_some_iff, Option.map_eq_some_iff, List.cons.injEq] at ops
  obtain ⟨⟨_, t₁⟩, e₁, ⟨_, t₂⟩, e₂, ⟨_, t⟩, e₃, (tombs : t₂.tombstoneCount = 1), (n₁ : t₁.fieldCount = 1),
    (n₂ : t₂.fieldCount = 0), (n : t.fieldCount = 1), -⟩ := ops
  have first : InProportion 1 ({} : HashTable Int) (.set 64 (.bool true) 0) := fun _ _ => Nat.zero_le _
  have second : InProportion 1 t₁ (.delete 64) := trivial
  have third : InProportion 1 t₂ (.set 128 .null 0) := by
    intro _ _
    rw [tombs, n₂]
  have history := ((History.new.step first e₁).step second e₂).step third e₃
  rw [n₁, n₂, n] at history
  exact ⟨t, history, slot_cap_bounded history⟩

/-! ### Growth without fields -/

/-- A shift and `^`, as in `ptr_hash`, are undone by three more shifts. -/
lemma exists_xorshift {x n : Nat} (h : x < 2 ^ (4 * n)) : ∃ y < 2 ^ (4 * n), y ^^^ y >>> n = x := by
  have small (k : Nat) : x >>> k < 2 ^ (4 * n) := by
    rw [Nat.shiftRight_eq_div_pow]
    exact Nat.lt_of_le_of_lt (Nat.div_le_self _ _) h
  refine ⟨x ^^^ x >>> n ^^^ x >>> (2 * n) ^^^ x >>> (3 * n), ?_, ?_⟩
  · exact Nat.xor_lt_two_pow (Nat.xor_lt_two_pow (Nat.xor_lt_two_pow h (small _)) (small _)) (small _)
  · have out : x >>> (3 * n + n) = 0 := by
      rw [Nat.shiftRight_eq_div_pow]
      exact Nat.div_eq_of_lt (by rwa [show 3 * n + n = 4 * n by omega])
    have two : n + n = 2 * n := by omega
    have three : 2 * n + n = 3 * n := by omega
    simp only [Nat.shiftRight_xor_distrib, ← Nat.shiftRight_add, two, three, out, Nat.xor_zero]
    generalize x >>> n = a, x >>> (2 * n) = b, x >>> (3 * n) = c
    calc (x ^^^ a ^^^ b ^^^ c) ^^^ (a ^^^ b ^^^ c) = x ^^^ ((a ^^^ b ^^^ c) ^^^ (a ^^^ b ^^^ c)) := by
          simp only [Nat.xor_assoc]
      _ = x := by rw [Nat.xor_self, Nat.xor_zero]

/-- Every 32-bit value is the hash of an address. -/
lemma ptrHash_surjective {h : Nat} (lt : h < 4294967296) : ∃ key < 18446744073709551616, ptrHash key = h := by
  have inverse : 18005711234046747123 * 73244475 % 18446744073709551616 = 1 := by decide
  obtain ⟨q, small, eq⟩ := exists_xorshift (n := 16) (x := h) (by omega)
  obtain ⟨key, small', ek⟩ := exists_xorshift (n := 16) (x := q * 18005711234046747123 % 18446744073709551616)
    (Nat.mod_lt _ (by decide))
  refine ⟨key, small', ?_⟩
  have back : q * 18005711234046747123 % 18446744073709551616 * 73244475 % 18446744073709551616 = q := by
    rw [Nat.mod_mul_mod, Nat.mul_assoc, ← Nat.mul_mod_mod, inverse, Nat.mul_one]
    exact Nat.mod_eq_of_lt small
  unfold ptrHash
  simp only [ek, back, eq]
  exact u32_eq lt

lemma Inv.repr_nil (v : t.Inv []) (writable : t.readonly = false) : t.Repr {} := ⟨writable, [], v, rfl⟩

/-- A key whose search starts at an empty slot goes there, and leaves a tombstone there. -/
lemma Inv.turn (v : t.Inv []) (writable : t.readonly = false) (small : t.slots.length < 268435456) :
    ∃ key t₁ t₂, t.perform (.set key .null 0) = some (true, t₁) ∧ t₁.fieldCount = 1 ∧
      t₁.perform (.delete key) = some (true, t₂) ∧ t₂.Inv [] ∧ t₂.readonly = false ∧
      ((t₂.slots.length = t.slots.length ∧ t₂.tombstoneCount = t.tombstoneCount + 1 ∧
          (t.tombstoneCount + 1) * 4 ≤ t.slots.length * 3) ∨
        (t₂.slots.length = (if t.slots.length = 0 then 8 else t.slots.length * 2) ∧ t₂.tombstoneCount = 1)) := by
  have sized : t.Sized := ⟨by omega, fun top => by omega⟩
  obtain ⟨t₁, -, ensured, -⟩ := v.ensureCapacity_spec small
  obtain ⟨order, v₁, fields, ro, count, pow, room, le, -, grown⟩ := v.ensureCapacity_sized sized ensured
  obtain rfl : order = [] := List.map_eq_nil_iff.mp fields
  have pos := Nat.pos_of_isPowerOfTwo pow
  -- the key of an empty slot
  obtain ⟨i, lt, null⟩ := v₁.layout.exists_null (by rw [← v₁.tombs, ← v₁.fields]; omega)
  obtain ⟨key, -, hash⟩ := ptrHash_surjective (h := i) (by omega)
  have home : homeSlot t₁.slots key = i := by
    rw [homeSlot_eq pow, slotFrom, Nat.add_zero, hash, Nat.mod_eq_of_lt lt]
  obtain ⟨s, get, keyS, -⟩ := exists_slot lt
  rw [null] at keyS
  have found : t₁.lookup key = some (none, some i) := by
    obtain ⟨turns, len⟩ : ∃ turns, t₁.slots.length = turns + 1 := ⟨t₁.slots.length - 1, by omega⟩
    have some : probe t₁.slots key i (turns + 1) i none = some (none, some i) := by
      simp [probe, get, keyS]
    rw [HashTable.lookup, if_neg (by omega), home, len, some]
  have rep := v.repr_nil writable
  obtain ⟨u, run, rep₁, len₁, -⟩ := rep.rawset_ensured Bool.false_ne_true ensured v₁ rfl ro pow room key .null 0
  have tombs₁ : u.tombstoneCount = t₁.tombstoneCount := by
    have unfolded := run
    rw [rawset, if_neg (writable ▸ Bool.false_ne_true), ensured] at unfolded
    simp only [Option.bind_eq_bind, Option.bind_some, found, get, keyS, reduceCtorEq, if_false] at unfolded
    obtain ⟨_, -, e⟩ := Option.bind_eq_some_iff.mp unfolded
    cases e
    rfl
  obtain ⟨t₂, run₂, rep₂, len₂⟩ := rep₁.rawdelete_spec key
  have one : ({} : FieldMap ν).perform (.set key .null 0) = (true, { fields := [(key, .null, 0)] }) := rfl
  have none : ({ fields := [(key, .null, 0)] } : FieldMap ν).perform (.delete key) = (true, {}) := by
    simp [FieldMap.perform, OrderedMap.find, OrderedMap.erase, isStatic]
  rw [one] at run rep₁ run₂ rep₂
  rw [none] at run₂ rep₂
  obtain ⟨ro₂, order₂, v₂, fields₂⟩ := rep₂
  obtain rfl : order₂ = [] := List.map_eq_nil_iff.mp fields₂
  refine ⟨key, u, t₂, run, rep₁.count, run₂, v₂, ro₂, ?_⟩
  rcases rawdelete_counts run₂ with ⟨-, -, refused⟩ | ⟨-, tombs₂⟩
  · cases refused
  · rw [tombs₁, u32_eq (by omega)] at tombs₂
    rw [len₂, len₁, tombs₂]
    rcases grown with rfl | ⟨-, clean, cap⟩
    · exact .inl ⟨rfl, rfl, by omega⟩
    · exact .inr ⟨cap, by rw [clean]⟩

/-- An object that had one field at most, and has none now. -/
structure Churned (t : HashTable ν) : Prop where
  history : History (fun _ _ => True) t 1
  inv : t.Inv []
  writable : t.readonly = false

lemma Churned.turn (h : t.Churned) (small : t.slots.length < 268435456) : ∃ t' : HashTable ν, Churned t' ∧
    ((t'.slots.length = t.slots.length ∧ t'.tombstoneCount = t.tombstoneCount + 1 ∧
        (t.tombstoneCount + 1) * 4 ≤ t.slots.length * 3) ∨
      t'.slots.length = if t.slots.length = 0 then 8 else t.slots.length * 2) := by
  obtain ⟨key, t₁, t₂, run, one, run₂, v, writable, outcome⟩ := h.inv.turn h.writable small
  have history := (h.history.step trivial run).step trivial run₂
  have peak : max (max 1 t₁.fieldCount) t₂.fieldCount = 1 := by
    have none := v.fields
    simp only [List.length_nil] at none
    omega
  refine ⟨t₂, ⟨peak ▸ history, v, writable⟩, ?_⟩
  rcases outcome with keep | ⟨grown, -⟩
  · exact .inl keep
  · exact .inr grown

/-- Enough keys that come and go double the array. -/
lemma Churned.grow (h : t.Churned) (pos : t.slots.length ≠ 0) (small : t.slots.length < 268435456) :
    ∃ t' : HashTable ν, Churned t' ∧ t'.slots.length = t.slots.length * 2 := by
  induction room : t.slots.length * 3 - t.tombstoneCount * 4 using Nat.strong_induction_on generalizing t with
  | _ n ih =>
    obtain ⟨t', h', ⟨len, tombs, fits⟩ | grown⟩ := h.turn small
    · obtain ⟨t'', h'', len'⟩ := ih _ (by omega) h' (by omega) (by omega) rfl
      exact ⟨t'', h'', by rw [len', len]⟩
    · rw [if_neg pos] at grown
      exact ⟨t', h', grown⟩

lemma exists_churned {k : Nat} (h : k ≤ 25) : ∃ t : HashTable ν, t.Churned ∧ t.slots.length = 8 * 2 ^ k := by
  induction k with
  | zero =>
    obtain ⟨key, t₁, t₂, run, one, run₂, v, writable, outcome⟩ := (inv_new (ν := ν)).turn rfl (Nat.succ_pos _)
    have history := ((History.new (P := fun _ _ => True)).step trivial run).step trivial run₂
    have peak : max (max 0 t₁.fieldCount) t₂.fieldCount = 1 := by
      have none := v.fields
      simp only [List.length_nil] at none
      omega
    refine ⟨t₂, ⟨peak ▸ history, v, writable⟩, ?_⟩
    rcases outcome with ⟨-, -, full⟩ | ⟨grown, -⟩
    · cases full
    · exact grown
  | succ k ih =>
    obtain ⟨t, churned, len⟩ := ih (Nat.le_of_succ_le h)
    have bound : 2 ^ k ≤ 2 ^ 24 := Nat.pow_le_pow_right (by decide) (by omega)
    have pos : 0 < 2 ^ k := Nat.pow_pos (by decide)
    obtain ⟨t', churned', len'⟩ := churned.grow (by omega) (by omega)
    exact ⟨t', churned', by rw [len', len, Nat.pow_succ, Nat.mul_assoc]⟩

/-- The array is bounded by a multiple of the largest number of fields at one time, and the initial capacity. -/
def SlotsBounded (ν : Type) (c : Nat) : Prop :=
  ∀ (t : HashTable ν) (peak : Nat), History (fun _ _ => True) t peak → t.slots.length ≤ c * peak + 8

/-- No such multiple is a bound: an object that never had two fields at one time has as many slots as one likes. -/
theorem slot_cap_unbounded : ¬ ∃ c, c < 268435448 ∧ SlotsBounded Int c := by
  rintro ⟨c, lt, bounded⟩
  obtain ⟨t, churned, len⟩ := exists_churned (ν := Int) (Nat.le_refl 25)
  have le := bounded t 1 churned.history
  omega

end HashTable

end Cando
