import Cando.Lib.Interleaving
import Cando.Lib.Reentrant
import Mathlib.Data.Fintype.Basic

/-!
# The lock that scripts use

`object.lock` and `object.unlock` (`lib/object.c`) on one object: an owner word and a depth, each an atomic of its
own. Anybody may call `object.unlock`; only the holder's calls count. The depth is 32 bits wide, so what is said of
the lock is said of runs in which it does not go beyond them.
-/

namespace Cando

open Interleaving

/-- The words of `CdoObject` that the two natives use. -/
structure UserLockWords where
  userLockId : Nat := 0
  userLockDepth : Nat := 0
  deriving DecidableEq, Repr

/-- Where a thread is. -/
inductive UserLockPc where
  | outside
  /-- `obj_lock`: the first look, the way of the holder, the compare-exchange, the store -/
  | lockCheck
  | lockAgain
  | lockClaim
  | lockFirst
  /-- `obj_unlock`: the look, the decrement, the store -/
  | unlockCheck
  | unlockDepth
  | unlockFree
  deriving DecidableEq, Repr

/-- A thread, and how many more times it has locked the object than it has unlocked it. -/
structure UserLocker where
  pc : UserLockPc := .outside
  nesting : Nat := 0
  deriving DecidableEq, Repr

/-- What a thread does next; the compare-exchange is a weak one, so it may fail for no reason. -/
inductive UserLockMove where
  | lock
  | unlock
  | step
  | spurious
  deriving DecidableEq, Repr

namespace UserLocker

/-- One atomic step of `obj_lock` or `obj_unlock`. -/
def step (me : Nat) (obj : UserLockWords) (t : UserLocker) : Option (UserLockWords × UserLocker) :=
  match t.pc with
  | .outside => none
  | .lockCheck => some (obj, { t with pc := if obj.userLockId = me then .lockAgain else .lockClaim })
  | .lockAgain =>
    some ({ obj with userLockDepth := (obj.userLockDepth + 1) % 4294967296 },
      { t with pc := .outside, nesting := t.nesting + 1 })
  | .lockClaim =>
    some (if obj.userLockId = 0 then ({ obj with userLockId := me }, { t with pc := .lockFirst }) else (obj, t))
  | .lockFirst => some ({ obj with userLockDepth := 1 }, { t with pc := .outside, nesting := t.nesting + 1 })
  | .unlockCheck => some (obj, { t with pc := if obj.userLockId ≠ me then .outside else .unlockDepth })
  | .unlockDepth =>
    some ({ obj with userLockDepth := (obj.userLockDepth + 4294967295) % 4294967296 },
      { t with pc := if obj.userLockDepth = 1 then .unlockFree else .outside, nesting := t.nesting - 1 })
  | .unlockFree => some ({ obj with userLockId := 0 }, { t with pc := .outside })

/-- What a thread may do in some state of the lock. -/
def move (me : Nat) (obj : UserLockWords) (t : UserLocker) : UserLockMove → Option (UserLockWords × UserLocker)
  | .lock => if t.pc = .outside then some (obj, { t with pc := .lockCheck }) else none
  | .unlock => if t.pc = .outside then some (obj, { t with pc := .unlockCheck }) else none
  | .step => t.step me obj
  | .spurious => if t.pc = .lockClaim then some (obj, t) else none

end UserLocker

/-- An object and the threads that lock it. -/
structure UserLockSystem (ι : Type) where
  words : UserLockWords := {}
  users : ι → UserLocker := fun _ => {}

instance {ι : Type} [Fintype ι] : DecidableEq (UserLockSystem ι) := fun S S' =>
  decidable_of_iff (S.words = S'.words ∧ S.users = S'.users) (by
    cases S
    cases S'
    simp only [UserLockSystem.mk.injEq])

variable {ι : Type} [DecidableEq ι] {tid : ι → Nat} {S S' : UserLockSystem ι} {i j : ι}

/-- The threads in any order; `tid` is `cando_thread_id`. -/
def userLockers (tid : ι → Nat) : Interleaving (UserLockSystem ι) (ι × UserLockMove) where
  step S a :=
    ((S.users a.1).move (tid a.1) S.words a.2).map fun after =>
      { words := after.1, users := Function.update S.users a.1 after.2 }

namespace UserLockSystem

/-- The depth does not go beyond 32 bits in the step. -/
def Counts (S : UserLockSystem ι) (a : ι × UserLockMove) : Prop :=
  a.2 = .step → (S.users a.1).pc = .lockAgain → S.words.userLockDepth + 1 < 4294967296

/-- What the lock is there for. -/
structure Safe (tid : ι → Nat) (S : UserLockSystem ι) : Prop where
  /-- at most one thread holds the lock -/
  one_holder : ∀ i j, 0 < (S.users i).nesting → 0 < (S.users j).nesting → i = j
  /-- who has locked more often than unlocked has the lock, -/
  held : ∀ i, 0 < (S.users i).nesting → S.words.userLockId = tid i
  /-- and who has not has left it free when the call returns -/
  freed : ∀ i, (S.users i).pc = .outside → (S.users i).nesting = 0 → S.words.userLockId ≠ tid i
  /-- a holder does not wait for the lock -/
  relock : ∀ i, 0 < (S.users i).nesting → (S.users i).pc ≠ .lockClaim ∧ (S.users i).pc ≠ .lockFirst
  /-- a call of `obj_unlock` by somebody else returns at once and leaves the words as they are -/
  stray : ∀ i, (S.users i).nesting = 0 →
    (S.users i).pc ≠ .unlockDepth ∧
    ((S.users i).pc = .unlockCheck →
      (userLockers tid).step S (i, .step) =
        some { S with users := Function.update S.users i { pc := .outside, nesting := 0 } })

end UserLockSystem

/-! ### The invariant -/

namespace UserLocker

/-- The thread is in the owner word. -/
def inside (t : UserLocker) : Bool :=
  match t.pc with
  | .lockFirst | .unlockFree => true
  | _ => 0 < t.nesting

/-- How deep the lock is at the place where the thread is. -/
def Placed (t : UserLocker) : Prop :=
  match t.pc with
  | .lockAgain | .unlockDepth => 0 < t.nesting
  | .lockClaim | .lockFirst | .unlockFree => t.nesting = 0
  | _ => True

variable {me : Nat} {obj obj' : UserLockWords} {t t' : UserLocker}

lemma inside_of_nesting (h : 0 < t.nesting) : t.inside = true := by
  obtain ⟨pc, nesting⟩ := t
  cases pc with
  | lockFirst | unlockFree => rfl
  | _ => exact decide_eq_true h

/-- What the words tell a thread of itself. -/
structure Known (me : Nat) (obj : UserLockWords) (t : UserLocker) : Prop where
  owner_iff : t.inside = true ↔ obj.userLockId = me
  depth_eq : t.inside = true → obj.userLockDepth = t.nesting
  outside : t.inside = false → t.nesting = 0
  depth_lt : obj.userLockDepth < 4294967296
  placed : t.Placed

lemma step_turn (known : Known me obj t) (room : t.pc = .lockAgain → obj.userLockDepth + 1 < 4294967296)
    (h : t.step me obj = some (obj', t')) :
    LockTurn me ⟨obj.userLockId, obj.userLockDepth, t.inside, t.nesting⟩
      ⟨obj'.userLockId, obj'.userLockDepth, t'.inside, t'.nesting⟩ := by
  obtain ⟨pc, nesting⟩ := t
  have placed := known.placed
  have lt := known.depth_lt
  cases pc with
  | outside => cases h
  | lockCheck | unlockCheck =>
    cases h
    simp only
    split <;> exact .keep _
  | lockAgain =>
    cases h
    have ins : inside ⟨.lockAgain, nesting⟩ = true := inside_of_nesting placed
    have ins' : inside ⟨.outside, nesting + 1⟩ = true := inside_of_nesting (Nat.succ_pos nesting)
    have deep : obj.userLockDepth = nesting := known.depth_eq ins
    have small := room rfl
    rw [ins, ins', deep, Nat.mod_eq_of_lt (deep ▸ small)]
    exact .enter _ _ _
  | lockClaim =>
    simp only [step] at h
    split at h
    · cases h
      rename_i free
      obtain rfl : nesting = 0 := placed
      rw [free]
      exact .claim _
    · cases h
      exact .keep _
  | lockFirst =>
    cases h
    obtain rfl : nesting = 0 := placed
    exact .enter _ _ _
  | unlockDepth =>
    cases h
    have ins : inside ⟨.unlockDepth, nesting⟩ = true := inside_of_nesting placed
    have deep : obj.userLockDepth = nesting := known.depth_eq ins
    obtain ⟨n, rfl⟩ := Nat.exists_eq_succ_of_ne_zero (Nat.ne_of_gt placed)
    have less : (obj.userLockDepth + 4294967295) % 4294967296 = n := by omega
    have ins' : inside ⟨if obj.userLockDepth = 1 then .unlockFree else .outside, n⟩ = true := by
      split
      · rfl
      · refine inside_of_nesting (show 0 < n from ?_)
        omega
    simp only [Nat.succ_sub_one, ins, ins', less]
    exact .leave _ _ _
  | unlockFree =>
    cases h
    obtain rfl : nesting = 0 := placed
    exact .free _ _

lemma step_placed (known : Known me obj t) (h : t.step me obj = some (obj', t')) : t'.Placed := by
  obtain ⟨pc, nesting⟩ := t
  have placed := known.placed
  cases pc with
  | outside => cases h
  | lockAgain | lockFirst | unlockFree =>
    cases h
    exact trivial
  | lockCheck =>
    cases h
    simp only
    split
    · rename_i mine
      have ins : decide (0 < nesting) = true := known.owner_iff.mpr mine
      have deep : 0 < nesting := of_decide_eq_true ins
      exact deep
    · rename_i other
      refine known.outside ?_
      exact Bool.eq_false_iff.mpr fun ins => other (known.owner_iff.mp ins)
  | lockClaim =>
    simp only [step] at h
    split at h <;> cases h <;> exact placed
  | unlockCheck =>
    cases h
    by_cases mine : obj.userLockId = me
    · have ins : decide (0 < nesting) = true := known.owner_iff.mpr mine
      have deep : 0 < nesting := of_decide_eq_true ins
      simp only [ne_eq, mine, not_true_eq_false, if_false]
      exact deep
    · simp only [ne_eq, mine, not_false_eq_true, if_true]
      exact trivial
  | unlockDepth =>
    cases h
    have deep := known.depth_eq (inside_of_nesting placed)
    simp only at deep ⊢
    split
    · show nesting - 1 = 0
      omega
    · exact trivial

lemma step_bound (known : Known me obj t) (h : t.step me obj = some (obj', t')) :
    obj'.userLockDepth < 4294967296 := by
  obtain ⟨pc, nesting⟩ := t
  have lt := known.depth_lt
  cases pc with
  | outside => cases h
  | lockAgain | unlockDepth =>
    cases h
    exact Nat.mod_lt _ (Nat.succ_pos _)
  | lockFirst =>
    cases h
    exact Nat.succ_lt_succ (Nat.succ_pos _)
  | lockClaim =>
    simp only [step] at h
    split at h <;> cases h <;> exact lt
  | _ =>
    cases h
    exact lt

end UserLocker

namespace UserLockSystem

/-- The words and the places of the threads agree. -/
structure Good (tid : ι → Nat) (S : UserLockSystem ι) : Prop where
  holder : Reentrant tid S.words.userLockId S.words.userLockDepth (fun i => (S.users i).inside)
    fun i => (S.users i).nesting
  placed : ∀ i, (S.users i).Placed
  depth_lt : S.words.userLockDepth < 4294967296

omit [DecidableEq ι] in
lemma Good.known (g : Good tid S) (i : ι) : (S.users i).Known (tid i) S.words where
  owner_iff := g.holder.owner_iff i
  depth_eq := g.holder.depth_eq i
  outside := g.holder.outside i
  depth_lt := g.depth_lt
  placed := g.placed i

omit [DecidableEq ι] in
lemma Good.init (nonzero : ∀ i, tid i ≠ 0) : Good tid {} where
  holder := .init nonzero
  placed _ := trivial
  depth_lt := Nat.succ_pos _

/-- One atomic step keeps the invariant. -/
lemma Good.step {obj : UserLockWords} {t : UserLocker} (g : Good tid S) (distinct : Function.Injective tid)
    (nonzero : ∀ i, tid i ≠ 0) (room : S.Counts (i, .step))
    (h : (S.users i).step (tid i) S.words = some (obj, t)) :
    Good tid { words := obj, users := Function.update S.users i t } := by
  have known := g.known i
  constructor
  · refine g.holder.turn distinct nonzero (UserLocker.step_turn known (room rfl) h) ?_ fun j ne => ?_
    · simp only [Function.update_self, and_self]
    · simp only [Function.update_of_ne ne, and_self]
  · exact forall_update (p := fun _ (u : UserLocker) => u.Placed) (UserLocker.step_placed known h)
      fun j _ => g.placed j
  · exact UserLocker.step_bound known h

/-- A call changes only the place of its thread. -/
lemma Good.call {pc : UserLockPc} (g : Good tid S) (distinct : Function.Injective tid) (nonzero : ∀ i, tid i ≠ 0)
    (out : (S.users i).pc = .outside) (begun : pc = .lockCheck ∨ pc = .unlockCheck) :
    Good tid { S with users := Function.update S.users i { S.users i with pc := pc } } := by
  constructor
  · refine g.holder.turn (p := i) distinct nonzero (.keep _) ?_ fun j ne => ?_
    · simp only [Function.update_self, UserLocker.inside, out, and_true]
      obtain rfl | rfl := begun <;> rfl
    · simp only [Function.update_of_ne ne, and_self]
  · refine forall_update (p := fun _ (u : UserLocker) => u.Placed) ?_ fun j _ => g.placed j
    obtain rfl | rfl := begun <;> exact trivial
  · exact g.depth_lt

lemma Good.move {a : ι × UserLockMove} (g : Good tid S) (distinct : Function.Injective tid)
    (nonzero : ∀ i, tid i ≠ 0) (room : S.Counts a) (h : (userLockers tid).step S a = some S') : Good tid S' := by
  obtain ⟨i, m⟩ := a
  obtain ⟨⟨obj, t⟩, moved, rfl⟩ := Option.map_eq_some_iff.mp h
  clear h
  simp only at moved ⊢
  cases m with
  | lock =>
    obtain ⟨out, e⟩ := Option.ite_none_right_eq_some.mp moved
    cases e
    exact g.call distinct nonzero out (.inl rfl)
  | unlock =>
    obtain ⟨out, e⟩ := Option.ite_none_right_eq_some.mp moved
    cases e
    exact g.call distinct nonzero out (.inr rfl)
  | step => exact g.step distinct nonzero room moved
  | spurious =>
    obtain ⟨-, e⟩ := Option.ite_none_right_eq_some.mp moved
    cases e
    rw [Function.update_eq_self]
    exact g

/-- What the lock is there for follows from the invariant. -/
lemma Good.safe (g : Good tid S) (distinct : Function.Injective tid) : S.Safe tid where
  one_holder i j hi hj :=
    g.holder.exclusive distinct (UserLocker.inside_of_nesting hi) (UserLocker.inside_of_nesting hj)
  held i deep := (g.holder.owner_iff i).mp (UserLocker.inside_of_nesting deep)
  freed i out none mine := by
    have ins := (g.holder.owner_iff i).mpr mine
    simp only [UserLocker.inside, out, none] at ins
    cases ins
  relock i deep := by
    have placed := g.placed i
    constructor
    · intro at_claim
      rw [UserLocker.Placed, at_claim] at placed
      exact absurd placed (Nat.ne_of_gt deep)
    · intro at_first
      rw [UserLocker.Placed, at_first] at placed
      exact absurd placed (Nat.ne_of_gt deep)
  stray i none := by
    have placed := g.placed i
    constructor
    · intro at_depth
      rw [UserLocker.Placed, at_depth] at placed
      exact absurd none (Nat.ne_of_gt placed)
    · intro at_check
      have user : S.users i = { pc := .unlockCheck, nesting := 0 } := by
        rw [← at_check, ← none]
      have other : S.words.userLockId ≠ tid i := by
        intro mine
        have ins := (g.holder.owner_iff i).mpr mine
        simp only [user] at ins
        cases ins
      simp only [userLockers, UserLocker.move, user, UserLocker.step, if_pos other, Option.map_some]

end UserLockSystem

/-- In every run in which the depth does not go beyond 32 bits, the lock is had by the one thread that has locked it
more often than unlocked it. -/
theorem user_lock_excludes (distinct : Function.Injective tid) (nonzero : ∀ i, tid i ≠ 0)
    {as : List (ι × UserLockMove)} (r : (userLockers tid).Run UserLockSystem.Counts {} as S) : S.Safe tid := by
  have good : S.Good tid := by
    refine r.invariant (fun s a s' room h g => ?_) (UserLockSystem.Good.init nonzero)
    exact g.move distinct nonzero room h
  exact good.safe distinct

/-- A thread locks twice and unlocks once, while another unlocks what it does not hold and waits for the lock. -/
theorem user_lock_excludes_two :
    ∃ S : UserLockSystem (Fin 2), (S.users 0).nesting = 1 ∧ (S.users 1).pc = .lockClaim ∧
      S.Safe fun i => i.val + 1 := by
  let schedule : List (Fin 2 × UserLockMove) :=
    [(0, .lock), (0, .step), (1, .unlock), (0, .step), (1, .step), (0, .step), (1, .lock), (0, .lock), (0, .step),
      (1, .step), (0, .step), (0, .unlock), (0, .step), (1, .spurious), (0, .step), (1, .step)]
  let S : UserLockSystem (Fin 2) :=
    { words := { userLockId := 1, userLockDepth := 1 }
      users := fun i => if i = 0 then { nesting := 1 } else { pc := .lockClaim } }
  have run : (userLockers fun i : Fin 2 => i.val + 1).Run UserLockSystem.Counts {} schedule S := by
    refine .of_restrict (g := fun S _ => S.words.userLockDepth + 1 < 4294967296) (by decide) fun S a fits _ _ => ?_
    exact of_decide_eq_true fits
  refine ⟨S, rfl, rfl, user_lock_excludes (fun i j e => ?_) (fun i => Nat.succ_ne_zero _) run⟩
  exact Fin.ext (Nat.succ.inj e)

/-- The holder locks once more. -/
lemma lock_again_run (mine : S.words.userLockId = tid i) (out : (S.users i).pc = .outside) :
    (userLockers tid).Run All S [(i, .lock), (i, .step), (i, .step)]
      { words := { S.words with userLockDepth := (S.words.userLockDepth + 1) % 4294967296 }
        users := Function.update S.users i { S.users i with nesting := (S.users i).nesting + 1 } } := by
  refine .of_after ?_
  obtain ⟨obj, users⟩ := S
  simp only at mine out
  simp [Interleaving.after, userLockers, UserLocker.move, UserLocker.step, mine, out]

/-- One of two threads holds the lock, as deep as one likes. -/
lemma lock_deep_run (n : Nat) :
    ∃ as, (userLockers fun i : Fin 2 => i.val + 1).Run All {} as
      { words := { userLockId := 1, userLockDepth := (n + 1) % 4294967296 }
        users := fun i => if i = 0 then { nesting := n + 1 } else {} } := by
  induction n with
  | zero => exact ⟨[(0, .lock), (0, .step), (0, .step), (0, .step)], .of_after (by decide)⟩
  | succ n ih =>
    obtain ⟨as, r⟩ := ih
    have more := @lock_again_run (Fin 2) _ (fun i => i.val + 1)
      { words := { userLockId := 1, userLockDepth := (n + 1) % 4294967296 }
        users := fun i => if i = 0 then { nesting := n + 1 } else {} } 0 rfl rfl
    have wrapped : ((n + 1) % 4294967296 + 1) % 4294967296 = (n + 1 + 1) % 4294967296 := by omega
    have users : Function.update (fun i : Fin 2 => if i = 0 then ({ nesting := n + 1 } : UserLocker) else {}) 0
        { nesting := n + 1 + 1 } = fun i => if i = 0 then { nesting := n + 1 + 1 } else {} := by
      funext i
      rcases eq_or_ne i 0 with rfl | ne
      · rw [Function.update_self, if_pos rfl]
      · rw [Function.update_of_ne ne, if_neg ne, if_neg ne]
    simp only [wrapped] at more
    rw [← users]
    exact ⟨_, r.append more⟩

/-- After `2 ^ 32 + 1` locks one unlock frees the object, and another thread locks it too. -/
theorem user_lock_depth_wraps :
    ¬ ∀ (as : List (Fin 2 × UserLockMove)) (S : UserLockSystem (Fin 2)),
      (userLockers fun i => i.val + 1).Run All {} as S →
        ∀ i j, 0 < (S.users i).nesting → 0 < (S.users j).nesting → i = j := by
  intro safe
  obtain ⟨as, r⟩ := lock_deep_run 4294967296
  have wrapped : (4294967296 + 1) % 4294967296 = 1 := by omega
  rw [wrapped] at r
  have more : ∃ S, (userLockers fun i : Fin 2 => i.val + 1).after
      { words := { userLockId := 1, userLockDepth := 1 }
        users := fun i => if i = 0 then { nesting := 4294967297 } else {} }
      [(0, .unlock), (0, .step), (0, .step), (0, .step), (1, .lock), (1, .step), (1, .step), (1, .step)] = some S ∧
      0 < (S.users 0).nesting ∧ 0 < (S.users 1).nesting :=
    ⟨_, rfl, Nat.succ_pos 4294967295, Nat.succ_pos 0⟩
  obtain ⟨S, stepped, first, second⟩ := more
  exact absurd (safe _ S (r.append (.of_after stepped)) 0 1 first second) (by decide)

end Cando
