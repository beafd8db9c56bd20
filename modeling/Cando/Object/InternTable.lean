import Cando.Object.Globals
import Cando.Object.HashTable
import Mathlib.Data.Fintype.EquivFin

/-!
# The intern table

`cdo_string_intern`, `cdo_intern_weak`, `cdo_string_retain` and `cdo_string_release` of `object/string.c`: the strings
of the process with their counts and the 256 chains of the intern table, which are searched by contents. Where a new
string lies is up to the allocator. An access to a freed string and a failed assertion are undefined. What the table is
for is that strings can be compared by their addresses.
-/

namespace Cando

/-- `fnv1a`. -/
@[irreducible] def fnv1a (data : Str) : Nat :=
  data.foldl (fun h c => u32 ((h ^^^ c.toNat) * 16777619)) 2166136261

/-- `INTERN_BUCKETS`. -/
def internBuckets : Nat := 256

/-- The bucket of a text. -/
def bucketOf (text : Str) : Nat := fnv1a text &&& (internBuckets - 1)

/-- `cdo_string_retain`: the count is a `u32`. -/
def stringRetain (strings : Blocks Str) (a : Nat) : Option (Blocks Str) :=
  (strings a).map fun s => Function.update strings a (some { s with count := u32 (s.count + 1) })

/-- `cdo_string_release`: no string has a count of 0, and one whose count was 1 is freed. -/
def stringRelease (strings : Blocks Str) (a : Nat) : Option (Blocks Str) := strings.release a

/-- The strings, and `g_intern` with `g_intern_ready`: for each bucket the strings of its entries. -/
structure InternTable where
  strings : Blocks Str := fun _ => none
  ready : Bool := false
  chains : List (List Nat) := []

/-- The calls. The string of a call of `cdo_string_intern` that makes one is put at `fresh`. -/
inductive InternOp where
  | intern (text : Str) (fresh : Nat)
  | weak (text : Str)
  | retain (a : Nat)
  | release (a : Nat)

namespace InternTable

/-- `cdo_intern_init`. -/
def internInit (t : InternTable) : InternTable :=
  if t.ready then t else { t with chains := List.replicate internBuckets [], ready := true }

/-- `cdo_string_intern`. -/
def stringIntern (t : InternTable) (text : Str) (fresh : Nat) : Option (Nat × InternTable) :=
  if t.ready then
    match t.chains[bucketOf text]? with
    | none => none
    | some chain =>
      match ObjectLayer.findEntry t.strings text chain with
      | none => none
      | some (some a) => (stringRetain t.strings a).map fun m => (a, { t with strings := m })
      | some none =>
        (stringRetain (t.strings.create fresh text) fresh).map fun m =>
          (fresh, { t with strings := m, chains := t.chains.set (bucketOf text) (fresh :: chain) })
  else none

/-- `cdo_intern_weak`. -/
def internWeak (t : InternTable) (text : Str) : Option (Option Nat) :=
  if t.ready then (t.chains[bucketOf text]?).bind (ObjectLayer.findEntry t.strings text) else some none

/-- `cdo_intern_destroy`. -/
def internDestroy (t : InternTable) : Option InternTable :=
  (t.chains.flatten.foldlM stringRelease t.strings).map fun m =>
    { strings := m, ready := false, chains := t.chains.map fun _ => [] }

/-- A call and the address it returns. -/
def perform (t : InternTable) : InternOp → Option (Option Nat × InternTable)
  | .intern text fresh => (t.stringIntern text fresh).map fun r => (some r.1, r.2)
  | .weak text => (t.internWeak text).map fun r => (r, t)
  | .retain a => (stringRetain t.strings a).map fun m => (some a, { t with strings := m })
  | .release a => (stringRelease t.strings a).map fun m => (none, { t with strings := m })

/-- The strings in the table. -/
def table (t : InternTable) : List Nat := t.chains.flatten

end InternTable

namespace InternOp

/-- The references that callers hold after a call. -/
def held (R : Multiset Nat) (result : Option Nat) : InternOp → Multiset Nat
  | .intern _ _ => (result.elim 0 fun a => {a}) + R
  | .weak _ => R
  | .retain a => a ::ₘ R
  | .release a => R.erase a

/-- The strings that interning has returned after a call, with the texts they were asked for by. -/
def returned (l : List (Str × Nat)) (result : Option Nat) : InternOp → List (Str × Nat)
  | .intern text _ => (result.elim [] fun a => [(text, a)]) ++ l
  | .weak text => (result.elim [] fun a => [(text, a)]) ++ l
  | .retain _ => l
  | .release _ => l

/-- The allocator returns memory that is not in use, a string that is retained was returned, and one that is released
is held. -/
def Proper (t : InternTable) (R : Multiset Nat) (l : List (Str × Nat)) : InternOp → Prop
  | .intern _ fresh => t.strings fresh = none
  | .weak _ => True
  | .retain a => ∃ text, (text, a) ∈ l
  | .release a => a ∈ R

/-- The string at `a` gets a reference more. -/
def Raises (a : Nat) (s : Counted Str) : InternOp → Prop
  | .intern text _ => s.data = text
  | .retain b => b = a
  | _ => False

/-- No count that is already `UINT32_MAX` is raised. -/
def Fits (t : InternTable) (op : InternOp) : Prop :=
  ∀ a s, t.strings a = some s → op.Raises a s → s.count < 4294967295

end InternOp

/-- The table, the references that callers hold and the strings that were returned, after any calls each of which met
`ok`. -/
inductive InternRun (ok : InternTable → InternOp → Prop) : InternTable → Multiset Nat → List (Str × Nat) → Prop where
  | init : InternRun ok (InternTable.internInit {}) 0 []
  | step {t t' : InternTable} {R : Multiset Nat} {l : List (Str × Nat)} {op : InternOp} {result : Option Nat} :
      InternRun ok t R l → op.Proper t R l → ok t op → t.perform op = some (result, t') →
      InternRun ok t' (op.held R result) (op.returned l result)

/-- Strings returned are the same exactly when their contents are; they are in the table still, with the contents that
were asked for; the strings in the table count the references that are held and one more; and the next call is
defined. -/
structure InternSound (ok : InternTable → InternOp → Prop) (t : InternTable) (R : Multiset Nat)
    (l : List (Str × Nat)) : Prop where
  same : ∀ x a y b, (x, a) ∈ l → (y, b) ∈ l → (a = b ↔ x = y)
  there : ∀ x a, (x, a) ∈ l → a ∈ t.table ∧ t.strings.dataAt a = some x
  counts : ∀ a ∈ t.table, ∃ s, t.strings a = some s ∧ R.count a + 1 ≤ s.count
  answers : ∀ op : InternOp, op.Proper t R l → ok t op → (t.perform op).isSome

/-! ## One call -/

namespace InternTable

open Blocks

variable {t t' : InternTable} {R : Multiset Nat} {l : List (Str × Nat)} {text x : Str} {a b fresh : Nat}
  {strings : Blocks Str}

/-- The references by which the strings are kept: those of the table and those of the callers. -/
structure Kept (t : InternTable) (R : Multiset Nat) : Prop where
  ready : t.ready = true
  size : t.chains.length = internBuckets
  balanced : Balanced t.strings ((t.table : Multiset Nat) + R)
  nodup : t.table.Nodup
  placed : ∀ (h : Nat) chain, t.chains[h]? = some chain → ∀ a ∈ chain, ∃ d, t.strings.dataAt a = some d ∧ bucketOf d = h
  unique : ∀ a ∈ t.table, ∀ b ∈ t.table, t.strings.dataAt a = t.strings.dataAt b → a = b
  held : ∀ a ∈ R, a ∈ t.table

lemma bucketOf_lt (text : Str) : bucketOf text < internBuckets := by
  have le : bucketOf text ≤ internBuckets - 1 := Nat.and_le_right
  have pos : 0 < internBuckets := by decide
  omega

/-- A search that ends without a string has met none of the text. -/
lemma findEntry_absent {chain : List Nat} (absent : ObjectLayer.findEntry strings text chain = some none) :
    ∀ a ∈ chain, strings.dataAt a ≠ some text := by
  induction chain with
  | nil => simp
  | cons b chain ih =>
    rw [ObjectLayer.findEntry] at absent
    cases there : strings.dataAt b with
    | none =>
      rw [there] at absent
      cases absent
    | some d =>
      rw [there] at absent
      dsimp only at absent
      split at absent
      · cases absent
      · rename_i ne
        intro a mem at_a
        rcases List.mem_cons.mp mem with rfl | mem
        · rw [there] at at_a
          exact ne (Option.some.inj at_a)
        · exact ih absent a mem at_a

/-- A count that does not wrap around is one more. -/
lemma stringRetain_eq (fits : ∀ s, strings a = some s → s.count < 4294967295) :
    stringRetain strings a = strings.retain a := by
  rw [stringRetain, Blocks.retain]
  cases there : strings a with
  | none => rfl
  | some s =>
    have lt := fits s there
    simp only [Option.map_some]
    rw [HashTable.u32_eq (by omega)]

/-- Another string in one of the chains. -/
lemma flatten_set_cons {chains : List (List Nat)} {h : Nat} {chain : List Nat} (at_h : chains[h]? = some chain) :
    (chains.set h (a :: chain)).flatten.Perm (a :: chains.flatten) := by
  obtain ⟨lt, here⟩ := List.getElem?_eq_some_iff.mp at_h
  obtain ⟨front, back, e, _, e'⟩ : ∃ front back, chains = front ++ chains[h] :: back ∧ front.length = h ∧
      chains.set h (a :: chain) = front ++ (a :: chain) :: back := List.exists_of_set lt
  rw [here] at e
  rw [e', e]
  simp only [List.flatten_append, List.flatten_cons, List.cons_append]
  exact List.perm_middle

namespace Kept

lemma count (v : t.Kept R) (mem : a ∈ t.table) : ∃ s, t.strings a = some s ∧ s.count = R.count a + 1 := by
  obtain ⟨d, there⟩ := v.balanced.counts a (Multiset.mem_add.mpr (.inl mem))
  refine ⟨_, there, ?_⟩
  show ((t.table : Multiset Nat) + R).count a = R.count a + 1
  rw [Multiset.count_add, Multiset.coe_count, List.count_eq_one_of_mem v.nodup mem, Nat.add_comm]

lemma dataAt (v : t.Kept R) (mem : a ∈ t.table) : t.strings.dataAt a ≠ none := by
  obtain ⟨s, there, _⟩ := v.count mem
  rw [Blocks.dataAt, there]
  simp

lemma mem_of_chain (_ : t.Kept R) {h : Nat} {chain : List Nat} (at_h : t.chains[h]? = some chain) (mem : a ∈ chain) :
    a ∈ t.table := List.mem_flatten.mpr ⟨chain, List.mem_of_getElem? at_h, mem⟩

/-- The search of a text's chain ends at its string in the table, if there is one. -/
lemma find_spec (v : t.Kept R) (text : Str) : ∃ chain, t.chains[bucketOf text]? = some chain ∧
    ((ObjectLayer.findEntry t.strings text chain = some none ∧ ∀ a ∈ t.table, t.strings.dataAt a ≠ some text) ∨
      ∃ a ∈ t.table, ObjectLayer.findEntry t.strings text chain = some (some a) ∧ t.strings.dataAt a = some text) := by
  have lt : bucketOf text < t.chains.length := v.size ▸ bucketOf_lt text
  obtain ⟨chain, at_h⟩ : ∃ chain, t.chains[bucketOf text]? = some chain := ⟨_, List.getElem?_eq_getElem lt⟩
  refine ⟨chain, at_h, ?_⟩
  have live : ∀ a ∈ chain, t.strings.dataAt a ≠ none := fun a mem => v.dataAt (v.mem_of_chain at_h mem)
  obtain absent | ⟨a, mem, found, at_a⟩ := ObjectLayer.findEntry_spec text live
  · refine .inl ⟨absent, fun a mem at_a => ?_⟩
    -- the chain of the string's contents is the one that was searched
    obtain ⟨other, other_mem, mem⟩ := List.mem_flatten.mp mem
    obtain ⟨h, at_other⟩ := List.mem_iff_getElem?.mp other_mem
    obtain ⟨d, at_d, here⟩ := v.placed h other at_other a mem
    rw [at_a] at at_d
    cases at_d
    rw [here, at_other] at at_h
    cases at_h
    exact findEntry_absent absent a mem at_a
  · exact .inr ⟨a, v.mem_of_chain at_h mem, found, at_a⟩

/-- One reference more to a string in the table. -/
lemma retain_spec (v : t.Kept R) (mem : a ∈ t.table) (fits : ∀ s, t.strings a = some s → s.count < 4294967295) :
    ∃ m, stringRetain t.strings a = some m ∧ Kept { t with strings := m } (a ::ₘ R) ∧
      ∀ b ∈ t.table, Blocks.dataAt m b = t.strings.dataAt b := by
  obtain ⟨m, done, balanced, keeps⟩ := v.balanced.retain (Multiset.mem_add.mpr (.inl mem))
  have data : ∀ b ∈ t.table, Blocks.dataAt m b = t.strings.dataAt b := fun b mem =>
    keeps b (Multiset.mem_add.mpr (.inl mem))
  refine ⟨m, by rw [stringRetain_eq fits, done], ⟨v.ready, v.size, ?_, v.nodup, ?_, ?_, ?_⟩, data⟩
  · rw [Multiset.add_cons]
    exact balanced
  · intro h chain at_h b memb
    obtain ⟨d, at_d, here⟩ := v.placed h chain at_h b memb
    exact ⟨d, (data b (v.mem_of_chain at_h memb)).trans at_d, here⟩
  · intro b memb c memc e
    exact v.unique b memb c memc ((data b memb).symm.trans (e.trans (data c memc)))
  · intro b memb
    rcases Multiset.mem_cons.mp memb with rfl | memb
    · exact mem
    · exact v.held b memb

/-- One reference less; the table keeps the string. -/
lemma release_spec (v : t.Kept R) (mem : a ∈ R) :
    ∃ m, stringRelease t.strings a = some m ∧ Kept { t with strings := m } (R.erase a) ∧
      ∀ b ∈ t.table, Blocks.dataAt m b = t.strings.dataAt b := by
  have balanced := v.balanced
  rw [← Multiset.cons_erase mem, Multiset.add_cons] at balanced
  obtain ⟨m, done, balanced, keeps⟩ := balanced.release
  have data : ∀ b ∈ t.table, Blocks.dataAt m b = t.strings.dataAt b := fun b mem =>
    keeps b (Multiset.mem_add.mpr (.inl mem))
  refine ⟨m, done, ⟨v.ready, v.size, balanced, v.nodup, ?_, ?_,
    fun b memb => v.held b (Multiset.mem_of_mem_erase memb)⟩,
    data⟩
  · intro h chain at_h b memb
    obtain ⟨d, at_d, here⟩ := v.placed h chain at_h b memb
    exact ⟨d, (data b (v.mem_of_chain at_h memb)).trans at_d, here⟩
  · intro b memb c memc e
    exact v.unique b memb c memc ((data b memb).symm.trans (e.trans (data c memc)))

/-- A new string, with the references of the table and of the caller. -/
lemma create_spec (v : t.Kept R) (free : t.strings fresh = none) {chain : List Nat}
    (at_h : t.chains[bucketOf text]? = some chain) (absent : ∀ a ∈ t.table, t.strings.dataAt a ≠ some text) :
    ∃ m, stringRetain (t.strings.create fresh text) fresh = some m ∧
      Kept { t with strings := m, chains := t.chains.set (bucketOf text) (fresh :: chain) } (fresh ::ₘ R) ∧
      Blocks.dataAt m fresh = some text ∧ ∀ b ∈ t.table, Blocks.dataAt m b = t.strings.dataAt b := by
  have out : fresh ∉ t.table := fun mem => v.dataAt mem (by rw [Blocks.dataAt, free]; rfl)
  obtain ⟨created, keeps⟩ := v.balanced.create (d := text) free
  obtain ⟨m, done, balanced, keeps'⟩ := created.retain (Multiset.mem_cons_self _ _)
  have one : ∀ s, t.strings.create fresh text fresh = some s → s.count < 4294967295 := fun s at_s => by
    rw [Blocks.create, Function.update_self] at at_s
    cases at_s
    exact (by decide : 1 < 4294967295)
  have data : ∀ b ∈ t.table, Blocks.dataAt m b = t.strings.dataAt b := fun b mem => by
    have held : b ∈ (t.table : Multiset Nat) + R := Multiset.mem_add.mpr (.inl (Multiset.mem_coe.mpr mem))
    rw [keeps' b (Multiset.mem_cons_of_mem held), keeps b held]
  have here : Blocks.dataAt m fresh = some text := by
    rw [keeps' fresh (Multiset.mem_cons_self _ _), Blocks.dataAt, Blocks.create, Function.update_self]
    rfl
  have perm : (t.chains.set (bucketOf text) (fresh :: chain)).flatten.Perm (fresh :: t.table) := flatten_set_cons at_h
  have lt : bucketOf text < t.chains.length := (List.getElem?_eq_some_iff.mp at_h).1
  refine ⟨m, by rw [stringRetain_eq one, done], ⟨v.ready, by simpa using v.size, ?_, ?_, ?_, ?_, ?_⟩, here, data⟩
  · show Balanced m (((t.chains.set (bucketOf text) (fresh :: chain)).flatten : Multiset Nat) + fresh ::ₘ R)
    rw [Multiset.coe_eq_coe.mpr perm, ← Multiset.cons_coe, Multiset.cons_add, Multiset.add_cons]
    exact balanced
  · exact perm.nodup_iff.mpr (List.nodup_cons.mpr ⟨out, v.nodup⟩)
  · intro h other at_other b mem
    simp only [List.getElem?_set] at at_other
    split at at_other
    · rename_i same
      subst same
      cases at_other
      rcases List.mem_cons.mp mem with rfl | mem
      · exact ⟨text, here, rfl⟩
      · obtain ⟨d, at_d, home⟩ := v.placed _ chain at_h b mem
        exact ⟨d, (data b (v.mem_of_chain at_h mem)).trans at_d, home⟩
    · obtain ⟨d, at_d, home⟩ := v.placed _ other at_other b mem
      exact ⟨d, (data b (v.mem_of_chain at_other mem)).trans at_d, home⟩
  · intro b memb c memc e
    have memb' := perm.mem_iff.mp memb
    have memc' := perm.mem_iff.mp memc
    simp only at e
    rcases List.mem_cons.mp memb' with eb | oldb <;> rcases List.mem_cons.mp memc' with ec | oldc
    · exact eb.trans ec.symm
    · rw [eb, here, data c oldc] at e
      exact absurd e.symm (absent c oldc)
    · rw [ec, here, data b oldb] at e
      exact absurd e (absent b oldb)
    · rw [data b oldb, data c oldc] at e
      exact v.unique b oldb c oldc e
  · intro b memb
    refine perm.mem_iff.mpr ?_
    rcases Multiset.mem_cons.mp memb with rfl | memb
    · exact List.mem_cons_self
    · exact List.mem_cons_of_mem _ (v.held b memb)

/-- What a call does: it is defined, the table keeps its strings, and an interned text has its string in the table. -/
lemma perform_spec (v : t.Kept R) (known : ∀ x a, (x, a) ∈ l → a ∈ t.table ∧ t.strings.dataAt a = some x)
    {op : InternOp} (proper : op.Proper t R l) (fits : op.Fits t) :
    ∃ result t', t.perform op = some (result, t') ∧ t'.Kept (op.held R result) ∧
      ∀ x a, (x, a) ∈ op.returned l result → a ∈ t'.table ∧ t'.strings.dataAt a = some x := by
  have raise : ∀ a ∈ t.table, op.Raises a ⟨(t.strings.dataAt a).getD [], 0⟩ →
      ∀ s, t.strings a = some s → s.count < 4294967295 := by
    intro a _ raises s there
    refine fits a s there ?_
    rw [Blocks.dataAt, there, Option.map_some, Option.getD_some] at raises
    cases op with
    | intern | retain => exact raises
    | weak | release => cases raises
  cases op with
  | intern text fresh =>
    obtain ⟨chain, at_h, ⟨missing, absent⟩ | ⟨a, mem, found, at_a⟩⟩ := v.find_spec text
    · obtain ⟨m, done, kept, here, data⟩ := v.create_spec proper at_h absent
      have perm : (t.chains.set (bucketOf text) (fresh :: chain)).flatten.Perm (fresh :: t.table) :=
        flatten_set_cons at_h
      refine ⟨some fresh, _, ?_, kept, fun x a mem => ?_⟩
      · simp only [perform, stringIntern, v.ready, at_h, missing, done, if_true, Option.map_some]
      · rcases List.mem_cons.mp mem with e | old
        · cases e
          exact ⟨perm.mem_iff.mpr List.mem_cons_self, here⟩
        · obtain ⟨there, at_x⟩ := known x a old
          exact ⟨perm.mem_iff.mpr (List.mem_cons_of_mem _ there), (data a there).trans at_x⟩
    · obtain ⟨m, done, kept, data⟩ := v.retain_spec mem (raise a mem (by rw [at_a]; rfl))
      refine ⟨some a, { t with strings := m }, ?_, kept, fun x b memb => ?_⟩
      · simp only [perform, stringIntern, v.ready, at_h, found, done, if_true, Option.map_some]
      · rcases List.mem_cons.mp memb with e | old
        · cases e
          exact ⟨mem, (data a mem).trans at_a⟩
        · obtain ⟨there, at_x⟩ := known x b old
          exact ⟨there, (data b there).trans at_x⟩
  | weak text =>
    obtain ⟨chain, at_h, ⟨missing, absent⟩ | ⟨a, mem, found, at_a⟩⟩ := v.find_spec text
    · refine ⟨none, t, ?_, v, known⟩
      simp only [perform, internWeak, v.ready, at_h, missing, if_true, Option.bind_some, Option.map_some]
    · refine ⟨some a, t, ?_, v, fun x b memb => ?_⟩
      · simp only [perform, internWeak, v.ready, at_h, found, if_true, Option.bind_some, Option.map_some]
      · rcases List.mem_cons.mp memb with e | old
        · cases e
          exact ⟨mem, at_a⟩
        · exact known x b old
  | retain a =>
    obtain ⟨x, asked⟩ := proper
    have mem := (known x a asked).1
    obtain ⟨m, done, kept, data⟩ := v.retain_spec mem (raise a mem rfl)
    refine ⟨some a, { t with strings := m }, ?_, kept, fun y b memb => ?_⟩
    · rw [perform, done]
      rfl
    · obtain ⟨there, at_y⟩ := known y b memb
      exact ⟨there, (data b there).trans at_y⟩
  | release a =>
    obtain ⟨m, done, kept, data⟩ := v.release_spec proper
    refine ⟨none, { t with strings := m }, ?_, kept, fun y b memb => ?_⟩
    · rw [perform, done]
      rfl
    · obtain ⟨there, at_y⟩ := known y b memb
      exact ⟨there, (data b there).trans at_y⟩

/-- Destroying the table gives up its references: what callers still hold is there and counts them, and nothing else
is left. -/
theorem internDestroy_spec (v : t.Kept R) : ∃ t', t.internDestroy = some t' ∧ Balanced t'.strings R ∧
    t'.table = [] ∧ t'.ready = false := by
  obtain ⟨m, done, balanced, _⟩ := v.balanced.releaseAll
  refine ⟨{ strings := m, ready := false, chains := t.chains.map fun _ => [] }, ?_, balanced, ?_, rfl⟩
  · rw [internDestroy, show t.chains.flatten.foldlM stringRelease t.strings = some m from done]
    rfl
  · simp [table]

end Kept

lemma table_init : (internInit {}).table = [] := List.flatten_replicate_nil

lemma kept_init : (internInit {}).Kept 0 where
  ready := rfl
  size := List.length_replicate
  balanced := by
    rw [table_init]
    exact ⟨fun a mem => by simp at mem, fun _ _ => rfl⟩
  nodup := by
    rw [table_init]
    exact List.nodup_nil
  placed h chain at_h a mem := by
    have empty : chain = [] := List.eq_of_mem_replicate (List.mem_of_getElem? at_h)
    subst empty
    cases mem
  unique a mem := by
    rw [table_init] at mem
    cases mem
  held a mem := by simp at mem

/-- In every run whose calls fit, the table keeps its strings. -/
lemma run_kept (run : InternRun (fun t op => op.Fits t) t R l) :
    t.Kept R ∧ ∀ x a, (x, a) ∈ l → a ∈ t.table ∧ t.strings.dataAt a = some x := by
  induction run with
  | init => exact ⟨kept_init, fun x a mem => by simp at mem⟩
  | step _ proper fits done ih =>
    obtain ⟨result, t', done', kept, known⟩ := ih.1.perform_spec ih.2 proper fits
    rw [done] at done'
    cases done'
    exact ⟨kept, known⟩

/-- In every run whose calls fit, strings are the same exactly when their contents are, and live on in the table. -/
theorem interned_sound (run : InternRun (fun t op => op.Fits t) t R l) :
    InternSound (fun t op => op.Fits t) t R l := by
  obtain ⟨v, known⟩ := run_kept run
  refine ⟨fun x a y b memx memy => ?_, known, fun a mem => ?_, fun op proper fits => ?_⟩
  · obtain ⟨there, at_a⟩ := known x a memx
    obtain ⟨there', at_b⟩ := known y b memy
    constructor
    · rintro rfl
      exact Option.some.inj (at_a.symm.trans at_b)
    · rintro rfl
      exact v.unique a there b there' (at_a.trans at_b.symm)
  · obtain ⟨s, there, count⟩ := v.count mem
    exact ⟨s, there, Nat.le_of_eq count.symm⟩
  · obtain ⟨result, t', done, _⟩ := v.perform_spec known proper fits
    rw [done]
    rfl

lemma run_weaken {ok ok' : InternTable → InternOp → Prop} (weaker : ∀ t op, ok t op → ok' t op)
    (run : InternRun ok t R l) : InternRun ok' t R l := by
  induction run with
  | init => exact .init
  | step _ proper fits done ih => exact .step ih proper (weaker _ _ fits) done

/-- While fewer than 2^32 - 2 references are held, every call fits. -/
lemma Kept.fits (v : t.Kept R) (few : R.card < 4294967294) (op : InternOp) : op.Fits t := by
  intro a s there _
  have mem : a ∈ t.table := by
    by_contra out
    have none_there := v.balanced.others a fun mem => out ((Multiset.mem_add.mp mem).elim id (v.held a))
    rw [there] at none_there
    cases none_there
  obtain ⟨s', there', counted⟩ := v.count mem
  rw [there] at there'
  cases there'
  have le := Multiset.count_le_card a R
  omega

/-- There is memory that is not in use. -/
lemma Kept.exists_free (v : t.Kept R) : ∃ fresh, t.strings fresh = none := by
  obtain ⟨fresh, out⟩ := Infinite.exists_notMem_finset t.table.toFinset
  have out' : fresh ∉ t.table := fun mem => out (List.mem_toFinset.mpr mem)
  exact ⟨fresh, v.balanced.others fresh fun mem => out' ((Multiset.mem_add.mp mem).elim id (v.held fresh))⟩

/-- Any text can be interned next. -/
lemma run_intern (run : InternRun (fun t op => op.Fits t) t R l) (few : R.card < 4294967294) (text : Str) :
    ∃ t' a, InternRun (fun t op => op.Fits t) t' (a ::ₘ R) ((text, a) :: l) := by
  obtain ⟨v, known⟩ := run_kept run
  obtain ⟨fresh, free⟩ := v.exists_free
  have proper : (InternOp.intern text fresh).Proper t R l := free
  obtain ⟨result, t', done, _⟩ := v.perform_spec known proper (v.fits few _)
  have run' := InternRun.step run proper (v.fits few _) done
  obtain ⟨r, _, same⟩ := Option.map_eq_some_iff.mp done
  cases same
  exact ⟨r.2, r.1, run'⟩

/-- Two texts, one of them asked for again: both requests got the same string. -/
theorem interned_sound_twice : ∃ t R a b c, InternSound (fun t op => op.Fits t) t R
    [(bytes "x", c), (bytes "y", b), (bytes "x", a)] ∧ a = c ∧ a ≠ b := by
  obtain ⟨t₁, a, run₁⟩ := run_intern .init (by decide) (bytes "x")
  obtain ⟨t₂, b, run₂⟩ := run_intern run₁ (by simp) (bytes "y")
  obtain ⟨t₃, c, run₃⟩ := run_intern run₂ (by simp) (bytes "x")
  have sound := interned_sound run₃
  refine ⟨t₃, _, a, b, c, sound, ?_, fun e => ?_⟩
  · exact (sound.same (bytes "x") a (bytes "x") c (by simp) (by simp)).mpr rfl
  · exact absurd ((sound.same (bytes "x") a (bytes "y") b (by simp) (by simp)).mp e) (by decide)

/-- A string that has been retained many times. -/
lemma run_retained (n : Nat) (le : n ≤ 4294967293) : ∃ t R l a, InternRun (fun t op => op.Fits t) t R l ∧
    ([], a) ∈ l ∧ R.count a = n + 1 := by
  induction n with
  | zero =>
    obtain ⟨t, a, run⟩ := run_intern .init (by decide) []
    exact ⟨t, _, _, a, run, List.mem_singleton_self _, by simp⟩
  | succ n ih =>
    obtain ⟨t, R, l, a, run, asked, count⟩ := ih (by omega)
    obtain ⟨v, known⟩ := run_kept run
    have proper : (InternOp.retain a).Proper t R l := ⟨[], asked⟩
    have fits : (InternOp.retain a).Fits t := by
      rintro b s there rfl
      obtain ⟨s', there', counted⟩ := v.count (known [] a asked).1
      rw [there] at there'
      cases there'
      omega
    obtain ⟨result, t', done, _⟩ := v.perform_spec known proper fits
    refine ⟨t', _, _, a, .step run proper fits done, asked, ?_⟩
    rw [InternOp.held, Multiset.count_cons_self, count]

/-- The count of a string that is retained once more than a `u32` can tell is 0. -/
theorem retained_count_wraps : ¬ ∀ t R l, InternRun (fun _ _ => True) t R l → InternSound (fun _ _ => True) t R l := by
  intro h
  obtain ⟨t, R, l, a, run, asked, count⟩ := run_retained 4294967293 (Nat.le_refl _)
  obtain ⟨v, known⟩ := run_kept run
  obtain ⟨s, there, counted⟩ := v.count (known [] a asked).1
  have wraps : u32 (s.count + 1) = 0 := by
    rw [counted, count]
    exact Nat.mod_self _
  have done : t.perform (.retain a) =
      some (some a, { t with strings := Function.update t.strings a (some ⟨s.data, 0⟩) }) := by
    rw [perform, stringRetain, there, Option.map_some, wraps]
    rfl
  have proper : (InternOp.retain a).Proper t R l := ⟨[], asked⟩
  have anyway : InternRun (fun _ _ => True) _ _ _ :=
    .step (run_weaken (fun _ _ _ => trivial) run) proper trivial done
  obtain ⟨s', there', enough⟩ := (h _ _ _ anyway).counts a (known [] a asked).1
  dsimp only at there'
  rw [Function.update_self] at there'
  cases there'
  exact absurd enough (Nat.not_succ_le_zero _)

end InternTable

end Cando
