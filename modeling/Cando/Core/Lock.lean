import Cando.Lib.Interleaving
import Cando.Lib.Reentrant
import Mathlib.Algebra.Order.BigOperators.Group.Finset
import Mathlib.Data.Fintype.Basic

/-!
# The lock of a heap object

`core/lock.c`: an owner word, a count of readers and a depth, each an atomic of its own. A reader announces itself and
looks once more; a writer claims the owner word and waits until the readers have gone. The counts are 32 bits wide, so
what is said of the lock is said of runs in which no count goes beyond them.
-/

namespace Cando

open Interleaving

/-- `CandoLockHeader`. -/
structure CandoLockHeader where
  lockId : Nat := 0
  readers : Nat := 0
  writeDepth : Nat := 0
  deriving DecidableEq, Repr

/-- Where a thread is. -/
inductive LockPc where
  | outside
  /-- `cando_lock_read_acquire`: the wait, the announcement, the second look, the way back -/
  | readWait
  | readAnnounce
  | readCheck
  | readBackOff
  /-- `cando_lock_read_release` -/
  | readRelease
  /-- `cando_lock_write_acquire`: the first look, the way of the owner, the compare-exchange, the wait, the store -/
  | writeCheck
  | writeAgain
  | writeClaim
  | writeDrain
  | writeFirst
  /-- `cando_lock_write_release`: the assertion, the decrement, the store -/
  | releaseCheck
  | releaseDepth
  | releaseOwner
  /-- an assertion has failed -/
  | aborted
  deriving DecidableEq, Repr

/-- A thread that uses the lock: how many read and write sections it has open. -/
structure LockUser where
  pc : LockPc := .outside
  reads : Nat := 0
  writes : Nat := 0
  deriving DecidableEq, Repr

/-- The procedures. -/
inductive LockCall where
  | readAcquire | readRelease | writeAcquire | writeRelease
  deriving DecidableEq, Repr

/-- What a thread does next; the compare-exchange is a weak one, so it may fail for no reason. -/
inductive LockMove where
  | call (c : LockCall)
  | step
  | spurious
  deriving DecidableEq, Repr

namespace LockUser

/-- A call; sections are closed that are open. -/
def call (t : LockUser) : LockCall → Option LockUser
  | .readAcquire => some { t with pc := .readWait }
  | .readRelease => if 0 < t.reads then some { t with pc := .readRelease } else none
  | .writeAcquire => some { t with pc := .writeCheck }
  | .writeRelease => if 0 < t.writes then some { t with pc := .releaseCheck } else none

/-- One atomic step of a procedure. -/
def step (me : Nat) (hdr : CandoLockHeader) (t : LockUser) : Option (CandoLockHeader × LockUser) :=
  match t.pc with
  | .outside | .aborted => none
  | .readWait => some (hdr, { t with pc := if hdr.lockId ≠ 0 then .readWait else .readAnnounce })
  | .readAnnounce => some ({ hdr with readers := (hdr.readers + 1) % 4294967296 }, { t with pc := .readCheck })
  | .readCheck =>
    some (hdr, if hdr.lockId = 0 then { t with pc := .outside, reads := t.reads + 1 }
      else { t with pc := .readBackOff })
  | .readBackOff => some ({ hdr with readers := (hdr.readers + 4294967295) % 4294967296 }, { t with pc := .readWait })
  | .readRelease =>
    some ({ hdr with readers := (hdr.readers + 4294967295) % 4294967296 },
      { t with pc := if 0 < hdr.readers then .outside else .aborted, reads := t.reads - 1 })
  | .writeCheck => some (hdr, { t with pc := if hdr.lockId = me then .writeAgain else .writeClaim })
  | .writeAgain =>
    some ({ hdr with writeDepth := (hdr.writeDepth + 1) % 4294967296 },
      { t with pc := .outside, writes := t.writes + 1 })
  | .writeClaim => some (if hdr.lockId = 0 then ({ hdr with lockId := me }, { t with pc := .writeDrain }) else (hdr, t))
  | .writeDrain => some (hdr, { t with pc := if hdr.readers ≠ 0 then .writeDrain else .writeFirst })
  | .writeFirst => some ({ hdr with writeDepth := 1 }, { t with pc := .outside, writes := t.writes + 1 })
  | .releaseCheck => some (hdr, { t with pc := if hdr.lockId = me then .releaseDepth else .aborted })
  | .releaseDepth =>
    some ({ hdr with writeDepth := (hdr.writeDepth + 4294967295) % 4294967296 },
      { t with pc := if hdr.writeDepth = 1 then .releaseOwner else .outside, writes := t.writes - 1 })
  | .releaseOwner => some ({ hdr with lockId := 0 }, { t with pc := .outside })

/-- What a thread may do in some state of the lock. -/
def move (me : Nat) (hdr : CandoLockHeader) (t : LockUser) : LockMove → Option (CandoLockHeader × LockUser)
  | .call c => if t.pc = .outside then (t.call c).map (hdr, ·) else none
  | .step => t.step me hdr
  | .spurious => if t.pc = .writeClaim then some (hdr, t) else none

end LockUser

/-- A lock and the threads that use it. -/
structure LockSystem (ι : Type) where
  header : CandoLockHeader := {}
  users : ι → LockUser := fun _ => {}

instance {ι : Type} [Fintype ι] : DecidableEq (LockSystem ι) := fun S S' =>
  decidable_of_iff (S.header = S'.header ∧ S.users = S'.users) (by
    cases S
    cases S'
    simp only [LockSystem.mk.injEq])

variable {ι : Type} [DecidableEq ι] {tid : ι → Nat} {S S' : LockSystem ι} {i j : ι} {m : LockMove}

/-- The threads in any order; `tid` is `cando_thread_id`. -/
def lockThreads (tid : ι → Nat) : Interleaving (LockSystem ι) (ι × LockMove) where
  step S a :=
    ((S.users a.1).move (tid a.1) S.header a.2).map fun after =>
      { header := after.1, users := Function.update S.users a.1 after.2 }

namespace LockSystem

/-- No count goes beyond 32 bits in the step. -/
def Counts (S : LockSystem ι) (a : ι × LockMove) : Prop :=
  a.2 = .step →
    ((S.users a.1).pc = .readAnnounce → S.header.readers + 1 < 4294967296) ∧
    ((S.users a.1).pc = .writeAgain → S.header.writeDepth + 1 < 4294967296)

/-- What the lock is there for. -/
structure Safe (S : LockSystem ι) : Prop where
  /-- nobody reads while somebody writes -/
  no_reader : ∀ i j, 0 < (S.users i).writes → (S.users j).reads = 0
  /-- at most one thread writes -/
  one_writer : ∀ i j, 0 < (S.users i).writes → 0 < (S.users j).writes → i = j
  /-- the depth is that of the writer -/
  depth : ∀ i, 0 < (S.users i).writes → S.header.writeDepth = (S.users i).writes
  /-- no assertion has failed -/
  asserts : ∀ i, (S.users i).pc ≠ .aborted
  /-- when all sections are closed the words are zero -/
  closed : (∀ i, S.users i = {}) → S.header = {}

end LockSystem

/-! ### The invariant -/

namespace LockUser

/-- The thread is in the owner word. -/
def inside (t : LockUser) : Bool :=
  match t.pc with
  | .writeDrain | .writeFirst | .releaseOwner => true
  | _ => 0 < t.writes

/-- What the thread adds to the count of readers. -/
def counted (t : LockUser) : Nat :=
  match t.pc with
  | .readCheck | .readBackOff => t.reads + 1
  | _ => t.reads

/-- The readers have gone, and no new one gets in. -/
def drained (t : LockUser) : Bool :=
  match t.pc with
  | .writeFirst | .releaseOwner => true
  | _ => 0 < t.writes

/-- The sections that are open at the place where the thread is. -/
def Placed (t : LockUser) : Prop :=
  match t.pc with
  | .readRelease => 0 < t.reads
  | .writeAgain | .releaseCheck | .releaseDepth => 0 < t.writes
  | .writeClaim | .writeDrain | .writeFirst | .releaseOwner => t.writes = 0
  | .aborted => False
  | _ => True

variable {me : Nat} {hdr hdr' : CandoLockHeader} {t t' : LockUser}

lemma inside_of_drained (h : t.drained = true) : t.inside = true := by
  obtain ⟨pc, reads, writes⟩ := t
  cases pc with
  | writeDrain | writeFirst | releaseOwner => rfl
  | _ => exact h

lemma inside_of_writes (h : 0 < t.writes) : t.inside = true := by
  obtain ⟨pc, reads, writes⟩ := t
  cases pc with
  | writeDrain | writeFirst | releaseOwner => rfl
  | _ => exact decide_eq_true h

lemma drained_of_writes (h : 0 < t.writes) : t.drained = true := by
  obtain ⟨pc, reads, writes⟩ := t
  cases pc with
  | writeFirst | releaseOwner => rfl
  | _ => exact decide_eq_true h

lemma reads_le (t : LockUser) : t.reads ≤ t.counted := by
  obtain ⟨pc, reads, writes⟩ := t
  cases pc with
  | readCheck | readBackOff => exact Nat.le_succ _
  | _ => exact Nat.le_refl _

/-- What a call leaves as it was. -/
lemma call_to {c : LockCall} (out : t.pc = .outside) (h : t.call c = some t') :
    t'.inside = t.inside ∧ t'.writes = t.writes ∧ t'.counted = t.counted ∧ t'.reads = t.reads ∧
      t'.drained = t.drained ∧ t'.Placed := by
  obtain ⟨pc, reads, writes⟩ := t
  cases out
  cases c with
  | readAcquire | writeAcquire =>
    cases h
    exact ⟨rfl, rfl, rfl, rfl, rfl, trivial⟩
  | readRelease | writeRelease =>
    obtain ⟨some_open, h⟩ := Option.ite_none_right_eq_some.mp h
    cases h
    exact ⟨rfl, rfl, rfl, rfl, rfl, some_open⟩

/-- What the words tell a thread of itself. -/
structure Known (me : Nat) (hdr : CandoLockHeader) (t : LockUser) : Prop where
  owner_iff : t.inside = true ↔ hdr.lockId = me
  depth_eq : t.inside = true → hdr.writeDepth = t.writes
  outside : t.inside = false → t.writes = 0
  counted_le : t.counted ≤ hdr.readers
  readers_lt : hdr.readers < 4294967296
  depth_lt : hdr.writeDepth < 4294967296
  placed : t.Placed

/-- The part of a step that concerns writing. -/
lemma step_turn (known : Known me hdr t) (room : t.pc = .writeAgain → hdr.writeDepth + 1 < 4294967296)
    (h : t.step me hdr = some (hdr', t')) :
    LockTurn me ⟨hdr.lockId, hdr.writeDepth, t.inside, t.writes⟩
      ⟨hdr'.lockId, hdr'.writeDepth, t'.inside, t'.writes⟩ := by
  obtain ⟨pc, reads, writes⟩ := t
  have placed := known.placed
  have lt := known.depth_lt
  cases pc with
  | outside | aborted => cases h
  | readWait | writeCheck | releaseCheck =>
    cases h
    simp only
    split <;> exact .keep _
  | readAnnounce | readBackOff =>
    cases h
    exact .keep _
  | readCheck =>
    cases h
    simp only
    split <;> exact .keep _
  | readRelease =>
    cases h
    simp only
    split <;> exact .keep _
  | writeAgain =>
    cases h
    have ins : inside ⟨.writeAgain, reads, writes⟩ = true := inside_of_writes placed
    have deep : hdr.writeDepth = writes := known.depth_eq ins
    have small := room rfl
    have ins' : inside ⟨.outside, reads, writes + 1⟩ = true := inside_of_writes (Nat.succ_pos writes)
    rw [ins, ins', deep, Nat.mod_eq_of_lt (deep ▸ small)]
    exact .enter _ _ _
  | writeClaim =>
    simp only [step] at h
    split at h
    · cases h
      rename_i free
      obtain rfl : writes = 0 := placed
      rw [free]
      exact .claim _
    · cases h
      exact .keep _
  | writeDrain =>
    cases h
    simp only
    split
    · exact .keep _
    · exact .keep _
  | writeFirst =>
    cases h
    obtain rfl : writes = 0 := placed
    exact .enter _ _ _
  | releaseDepth =>
    cases h
    have ins : inside ⟨.releaseDepth, reads, writes⟩ = true := inside_of_writes placed
    have deep : hdr.writeDepth = writes := known.depth_eq ins
    obtain ⟨n, rfl⟩ := Nat.exists_eq_succ_of_ne_zero (Nat.ne_of_gt placed)
    have less : (hdr.writeDepth + 4294967295) % 4294967296 = n := by omega
    have ins' : inside ⟨if hdr.writeDepth = 1 then .releaseOwner else .outside, reads, n⟩ = true := by
      split
      · rfl
      · refine inside_of_writes (show 0 < n from ?_)
        omega
    simp only [Nat.succ_sub_one, ins, ins', less]
    exact .leave _ _ _
  | releaseOwner =>
    cases h
    obtain rfl : writes = 0 := placed
    exact .free _ _

/-- The part that concerns the count of readers. -/
lemma step_counted (known : Known me hdr t) (room : t.pc = .readAnnounce → hdr.readers + 1 < 4294967296)
    (h : t.step me hdr = some (hdr', t')) : hdr'.readers + t.counted = hdr.readers + t'.counted := by
  obtain ⟨pc, reads, writes⟩ := t
  have le := known.counted_le
  have lt := known.readers_lt
  cases pc with
  | outside | aborted => cases h
  | readAnnounce =>
    cases h
    have small := room rfl
    simp only [counted, Nat.mod_eq_of_lt small]
    omega
  | readBackOff =>
    cases h
    simp only [counted] at le ⊢
    omega
  | readCheck =>
    cases h
    simp only
    split <;> rfl
  | readRelease =>
    cases h
    have placed : 0 < reads := known.placed
    have less : counted ⟨if 0 < hdr.readers then .outside else .aborted, reads - 1, writes⟩ = reads - 1 := by
      split <;> rfl
    simp only [less]
    simp only [counted] at le ⊢
    omega
  | writeClaim =>
    simp only [step] at h
    split at h <;> cases h <;> rfl
  | readWait | writeCheck | writeDrain | releaseCheck =>
    cases h
    simp only
    split <;> rfl
  | releaseDepth =>
    cases h
    simp only
    split <;> rfl
  | _ =>
    cases h
    rfl

/-- A section for reading is opened only while nobody is in the owner word. -/
lemma step_reads (h : t.step me hdr = some (hdr', t')) :
    t'.reads ≤ t.reads ∨ hdr.lockId = 0 ∧ t'.drained = t.drained := by
  obtain ⟨pc, reads, writes⟩ := t
  cases pc with
  | outside | aborted => cases h
  | readCheck =>
    cases h
    simp only
    split
    · rename_i free
      exact .inr ⟨free, rfl⟩
    · exact .inl (Nat.le_refl _)
  | readRelease =>
    cases h
    exact .inl (Nat.sub_le _ _)
  | writeClaim =>
    simp only [step] at h
    split at h <;> cases h <;> exact .inl (Nat.le_refl _)
  | _ =>
    cases h
    exact .inl (Nat.le_refl _)

/-- A writer goes on when it has seen that there are no readers. -/
lemma step_drained (known : Known me hdr t) (h : t.step me hdr = some (hdr', t')) (later : t'.drained = true) :
    t.drained = true ∨ hdr.readers = 0 := by
  obtain ⟨pc, reads, writes⟩ := t
  have placed := known.placed
  cases pc with
  | outside | aborted => cases h
  | writeAgain | releaseDepth => exact .inl (drained_of_writes placed)
  | writeFirst | releaseOwner => exact .inl rfl
  | writeDrain =>
    cases h
    by_cases none : hdr.readers = 0
    · exact .inr none
    · rw [if_pos none] at later
      exact .inl later
  | writeClaim =>
    simp only [step] at h
    split at h <;> cases h <;> exact .inl later
  | readCheck =>
    cases h
    simp only at later
    split at later <;> exact .inl later
  | readWait | readRelease | writeCheck | releaseCheck =>
    cases h
    simp only at later
    split at later <;> exact .inl later
  | _ =>
    cases h
    exact .inl later

lemma step_placed (known : Known me hdr t) (h : t.step me hdr = some (hdr', t')) : t'.Placed := by
  obtain ⟨pc, reads, writes⟩ := t
  have placed := known.placed
  cases pc with
  | outside | aborted => cases h
  | readAnnounce | readBackOff | writeAgain | writeFirst | releaseOwner =>
    cases h
    exact trivial
  | readWait | readCheck =>
    cases h
    simp only
    split <;> exact trivial
  | readRelease =>
    cases h
    have le : reads ≤ hdr.readers := known.counted_le
    have some_reader : 0 < hdr.readers := Nat.lt_of_lt_of_le placed le
    simp only [if_pos some_reader]
    exact trivial
  | writeCheck =>
    cases h
    simp only
    split
    · rename_i mine
      have ins : decide (0 < writes) = true := known.owner_iff.mpr mine
      have deep : 0 < writes := of_decide_eq_true ins
      exact deep
    · rename_i other
      refine known.outside ?_
      exact Bool.eq_false_iff.mpr fun ins => other (known.owner_iff.mp ins)
  | writeClaim =>
    simp only [step] at h
    split at h <;> cases h <;> exact placed
  | writeDrain =>
    cases h
    simp only
    split <;> exact placed
  | releaseCheck =>
    cases h
    have mine := known.owner_iff.mp (inside_of_writes placed)
    simp only [if_pos mine]
    exact placed
  | releaseDepth =>
    cases h
    have deep := known.depth_eq (inside_of_writes placed)
    simp only at deep ⊢
    split
    · show writes - 1 = 0
      omega
    · exact trivial

lemma step_bounds (known : Known me hdr t) (h : t.step me hdr = some (hdr', t')) :
    hdr'.readers < 4294967296 ∧ hdr'.writeDepth < 4294967296 := by
  obtain ⟨pc, reads, writes⟩ := t
  have readers := known.readers_lt
  have depth := known.depth_lt
  cases pc with
  | outside | aborted => cases h
  | readAnnounce | readBackOff | readRelease =>
    cases h
    exact ⟨Nat.mod_lt _ (Nat.succ_pos _), depth⟩
  | writeAgain | releaseDepth =>
    cases h
    exact ⟨readers, Nat.mod_lt _ (Nat.succ_pos _)⟩
  | writeFirst =>
    cases h
    exact ⟨readers, Nat.succ_lt_succ (Nat.succ_pos _)⟩
  | writeClaim =>
    simp only [step] at h
    split at h <;> cases h <;> exact ⟨readers, depth⟩
  | _ =>
    cases h
    exact ⟨readers, depth⟩

end LockUser

namespace LockSystem

/-- The words and the places of the threads agree. -/
structure Good [Fintype ι] (tid : ι → Nat) (S : LockSystem ι) : Prop where
  writer : Reentrant tid S.header.lockId S.header.writeDepth (fun i => (S.users i).inside) fun i => (S.users i).writes
  readers : S.header.readers = ∑ i, (S.users i).counted
  drained : ∀ i j, (S.users i).drained = true → (S.users j).reads = 0
  placed : ∀ i, (S.users i).Placed
  readers_lt : S.header.readers < 4294967296
  depth_lt : S.header.writeDepth < 4294967296

variable [Fintype ι]

omit [DecidableEq ι] in
lemma Good.known (g : Good tid S) (i : ι) : (S.users i).Known (tid i) S.header where
  owner_iff := g.writer.owner_iff i
  depth_eq := g.writer.depth_eq i
  outside := g.writer.outside i
  counted_le := by
    rw [g.readers]
    exact Finset.single_le_sum (f := fun i => (S.users i).counted) (fun _ _ => Nat.zero_le _) (Finset.mem_univ i)
  readers_lt := g.readers_lt
  depth_lt := g.depth_lt
  placed := g.placed i

omit [DecidableEq ι] in
/-- With no readers counted nobody reads. -/
lemma Good.no_reads (g : Good tid S) (none : S.header.readers = 0) (j : ι) : (S.users j).reads = 0 := by
  have counted := (g.known j).counted_le
  have reads := (S.users j).reads_le
  omega

omit [DecidableEq ι] in
/-- With nobody in the owner word nobody has waited for the readers. -/
lemma Good.undrained (g : Good tid S) (nonzero : ∀ i, tid i ≠ 0) (free : S.header.lockId = 0) (i : ι) :
    (S.users i).drained = false := by
  have empty := (free ▸ g.writer).empty nonzero i
  cases h : (S.users i).drained with
  | false => rfl
  | true =>
    rw [LockUser.inside_of_drained h] at empty
    cases empty

/-- One atomic step keeps the invariant. -/
lemma Good.step {hdr : CandoLockHeader} {t : LockUser} (g : Good tid S) (distinct : Function.Injective tid)
    (nonzero : ∀ i, tid i ≠ 0) (room : S.Counts (i, .step))
    (h : (S.users i).step (tid i) S.header = some (hdr, t)) :
    Good tid { header := hdr, users := Function.update S.users i t } := by
  have known := g.known i
  obtain ⟨room_readers, room_depth⟩ := room rfl
  constructor
  · refine g.writer.turn distinct nonzero (LockUser.step_turn known room_depth h) ?_ fun j ne => ?_
    · simp only [Function.update_self, and_self]
    · simp only [Function.update_of_ne ne, and_self]
  · have total := LockUser.step_counted known room_readers h
    have before := Finset.add_sum_erase Finset.univ (fun j => (S.users j).counted) (Finset.mem_univ i)
    have later := Finset.add_sum_erase Finset.univ
      (fun j => (Function.update S.users i t j).counted) (Finset.mem_univ i)
    have others : ∑ j ∈ Finset.univ.erase i, (Function.update S.users i t j).counted =
        ∑ j ∈ Finset.univ.erase i, (S.users j).counted := by
      refine Finset.sum_congr rfl fun j mem => ?_
      rw [Function.update_of_ne (Finset.ne_of_mem_erase mem)]
    have readers := g.readers
    simp only [Function.update_self] at later
    simp only at before ⊢
    omega
  · -- a reader that gets in finds the owner word free, a writer that goes on finds no reader
    intro k j later
    change (Function.update S.users i t k).drained = true at later
    have reads : (Function.update S.users i t j).reads ≤ (S.users j).reads ∨
        S.header.lockId = 0 ∧ (Function.update S.users i t k).drained = (S.users k).drained := by
      rcases eq_or_ne j i with rfl | other
      · rw [Function.update_self]
        obtain le | ⟨free, same⟩ := LockUser.step_reads h
        · exact .inl le
        · refine .inr ⟨free, ?_⟩
          rcases eq_or_ne k j with rfl | ne
          · rw [Function.update_self, same]
          · rw [Function.update_of_ne ne]
      · rw [Function.update_of_ne other]
        exact .inl (Nat.le_refl _)
    obtain le | ⟨free, same⟩ := reads
    · refine Nat.le_zero.mp (le.trans (Nat.le_of_eq ?_))
      rcases eq_or_ne k i with rfl | ne
      · rw [Function.update_self] at later
        obtain drained | none := LockUser.step_drained known h later
        · exact g.drained k j drained
        · exact g.no_reads none j
      · rw [Function.update_of_ne ne] at later
        exact g.drained k j later
    · rw [same, g.undrained nonzero free k] at later
      cases later
  · exact forall_update (p := fun _ (u : LockUser) => u.Placed) (LockUser.step_placed known h) fun j _ => g.placed j
  · exact (LockUser.step_bounds known h).1
  · exact (LockUser.step_bounds known h).2

/-- A call changes only the place of its thread. -/
lemma Good.call {c : LockCall} {t : LockUser} (g : Good tid S) (out : (S.users i).pc = .outside)
    (h : (S.users i).call c = some t) : Good tid { S with users := Function.update S.users i t } := by
  obtain ⟨inside, writes, counted, reads, drained, placed⟩ := LockUser.call_to out h
  have same : ∀ {β : Type} {f : LockUser → β}, f t = f (S.users i) → ∀ j,
      f (Function.update S.users i t j) = f (S.users j) := by
    intro β f e j
    rcases eq_or_ne j i with rfl | ne
    · rw [Function.update_self, e]
    · rw [Function.update_of_ne ne]
  constructor
  · simp only [same inside, same writes]
    exact g.writer
  · simp only [same counted]
    exact g.readers
  · simp only [same drained, same reads]
    exact g.drained
  · exact forall_update (p := fun _ (u : LockUser) => u.Placed) placed fun j _ => g.placed j
  · exact g.readers_lt
  · exact g.depth_lt

lemma Good.move {a : ι × LockMove} (g : Good tid S) (distinct : Function.Injective tid)
    (nonzero : ∀ i, tid i ≠ 0) (room : S.Counts a) (h : (lockThreads tid).step S a = some S') : Good tid S' := by
  obtain ⟨i, m⟩ := a
  obtain ⟨⟨hdr, t⟩, moved, rfl⟩ := Option.map_eq_some_iff.mp h
  clear h
  simp only at moved ⊢
  cases m with
  | call c =>
    obtain ⟨out, moved⟩ := Option.ite_none_right_eq_some.mp moved
    obtain ⟨t', moved, e⟩ := Option.map_eq_some_iff.mp moved
    cases e
    exact g.call out moved
  | step => exact g.step distinct nonzero room moved
  | spurious =>
    obtain ⟨-, e⟩ := Option.ite_none_right_eq_some.mp moved
    cases e
    rw [Function.update_eq_self]
    exact g

omit [DecidableEq ι] in
lemma Good.init (nonzero : ∀ i, tid i ≠ 0) : Good tid {} where
  writer := .init nonzero
  readers := (Finset.sum_const_zero).symm
  drained _ _ := by rintro ⟨⟩
  placed _ := trivial
  readers_lt := Nat.succ_pos _
  depth_lt := Nat.succ_pos _

omit [DecidableEq ι] in
/-- What the lock is there for follows from the invariant. -/
lemma Good.safe (g : Good tid S) (distinct : Function.Injective tid) : S.Safe where
  no_reader i j writing := g.drained i j (LockUser.drained_of_writes writing)
  one_writer i j hi hj :=
    g.writer.exclusive distinct (LockUser.inside_of_writes hi) (LockUser.inside_of_writes hj)
  depth i writing := g.writer.depth_eq i (LockUser.inside_of_writes writing)
  asserts i failed := by
    have placed := g.placed i
    rw [LockUser.Placed, failed] at placed
    exact placed
  closed idle := by
    have readers : S.header.readers = 0 := by
      rw [g.readers]
      refine Finset.sum_eq_zero fun i _ => ?_
      rw [idle i]
      rfl
    obtain ⟨owner, depth⟩ := g.writer.idle fun i => by rw [idle i]; rfl
    have whole : S.header = ⟨S.header.lockId, S.header.readers, S.header.writeDepth⟩ := rfl
    rw [whole, owner, readers, depth]

end LockSystem

variable [Fintype ι]

/-- In every run in which no count goes beyond 32 bits, the lock keeps writers from each other and from readers. -/
theorem lock_excludes (distinct : Function.Injective tid) (nonzero : ∀ i, tid i ≠ 0) {as : List (ι × LockMove)}
    (r : (lockThreads tid).Run LockSystem.Counts {} as S) : S.Safe := by
  have good : S.Good tid := by
    refine r.invariant (fun s a s' room h g => ?_) (LockSystem.Good.init nonzero)
    exact g.move distinct nonzero room h
  exact good.safe distinct

/-- One thread reads while another claims the lock, waits, enters and enters again. -/
theorem lock_excludes_two : ∃ S : LockSystem (Fin 2), (S.users 1).writes = 2 ∧ S.header.writeDepth = 2 ∧ S.Safe := by
  let schedule : List (Fin 2 × LockMove) :=
    [(0, .call .readAcquire), (0, .step), (0, .step), (0, .step), (1, .call .writeAcquire), (1, .step), (1, .spurious),
      (1, .step), (1, .step), (0, .call .readRelease), (0, .step), (1, .step), (1, .step), (1, .call .writeAcquire),
      (1, .step), (1, .step)]
  let S : LockSystem (Fin 2) :=
    { header := { lockId := 2, writeDepth := 2 }, users := fun i => if i = 1 then { writes := 2 } else {} }
  have run : (lockThreads fun i : Fin 2 => i.val + 1).Run LockSystem.Counts {} schedule S := by
    refine .of_restrict (g := fun S _ => S.header.readers + 1 < 4294967296 ∧ S.header.writeDepth + 1 < 4294967296)
      (by decide) fun S a fits _ => ?_
    obtain ⟨readers, depth⟩ := of_decide_eq_true fits
    exact ⟨fun _ => readers, fun _ => depth⟩
  refine ⟨S, rfl, rfl, lock_excludes (fun i j e => ?_) (fun i => Nat.succ_ne_zero _) run⟩
  exact Fin.ext (Nat.succ.inj e)

omit [Fintype ι] in
/-- The owner takes the lock once more. -/
lemma again_run (mine : S.header.lockId = tid i) (out : (S.users i).pc = .outside) :
    (lockThreads tid).Run All S [(i, .call .writeAcquire), (i, .step), (i, .step)]
      { header := { S.header with writeDepth := (S.header.writeDepth + 1) % 4294967296 }
        users := Function.update S.users i { S.users i with writes := (S.users i).writes + 1 } } := by
  refine .of_after ?_
  obtain ⟨hdr, users⟩ := S
  simp only at mine out
  simp [Interleaving.after, lockThreads, LockUser.move, LockUser.call, LockUser.step, mine, out]

/-- One thread, as deep in the lock as one likes. -/
lemma deep_run (n : Nat) :
    ∃ as, (lockThreads fun _ : Fin 1 => 1).Run All {} as
      { header := { lockId := 1, writeDepth := (n + 1) % 4294967296 }, users := fun _ => { writes := n + 1 } } := by
  induction n with
  | zero =>
    exact ⟨[(0, .call .writeAcquire), (0, .step), (0, .step), (0, .step), (0, .step)], .of_after (by decide)⟩
  | succ n ih =>
    obtain ⟨as, r⟩ := ih
    have more := @again_run (Fin 1) _ (fun _ => 1)
      { header := { lockId := 1, writeDepth := (n + 1) % 4294967296 }, users := fun _ => { writes := n + 1 } } 0 rfl rfl
    have wrapped : ((n + 1) % 4294967296 + 1) % 4294967296 = (n + 1 + 1) % 4294967296 := by omega
    have single : Function.update (fun _ : Fin 1 => ({ writes := n + 1 } : LockUser)) 0 { writes := n + 1 + 1 } =
        fun _ => { writes := n + 1 + 1 } := by
      funext i
      rw [Subsingleton.elim i 0, Function.update_self]
    simp only [wrapped, single] at more
    exact ⟨_, r.append more⟩

/-- After `2 ^ 32` calls of `cando_lock_write_acquire` the depth is zero. -/
theorem lock_depth_wraps :
    ¬ ∀ (as : List (Fin 1 × LockMove)) (S : LockSystem (Fin 1)),
      (lockThreads fun _ => 1).Run All {} as S → S.Safe := by
  intro safe
  obtain ⟨as, r⟩ := deep_run 4294967295
  have depth := (safe as _ r).depth 0 (Nat.succ_pos _)
  simp only at depth
  omega

end Cando
