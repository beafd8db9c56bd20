import Mathlib.Algebra.Ring.Nat
import Mathlib.Tactic.Common

/-!
# Base64

The base 64 encoding of RFC 4648, section 4: groups of 24 bits as four characters of the alphabet, and the padding
of a last group that has only 8 or 16 bits.
-/

namespace Base64

/-- The character of a 6-bit group. -/
def digit (n : Nat) : UInt8 :=
  UInt8.ofNat
    (if n < 26 then 65 + n else if n < 52 then 71 + n else if n < 62 then n - 4 else if n = 62 then 43 else 47)

/-- The padding character. -/
def pad : UInt8 := 61

/-- Three octets as a group of 24 bits. -/
def group (a b c : Nat) : Nat := 65536 * a + 256 * b + c

/-- The four 6-bit groups of a 24-bit group, from the left. -/
def sextets (g : Nat) : List Nat := [g / 262144 % 64, g / 4096 % 64, g / 64 % 64, g % 64]

/-- Three octets in four characters. -/
def quad (a b c : Nat) : List UInt8 := (sextets (group a b c)).map digit

/-- The encoding of a byte string. Missing bits of the last group are zero, and the characters without a bit of
the input are padding. -/
def encode : List UInt8 → List UInt8
  | [] => []
  | [a] => (quad a.toNat 0 0).take 2 ++ [pad, pad]
  | [a, b] => (quad a.toNat b.toNat 0).take 3 ++ [pad]
  | a :: b :: c :: s => quad a.toNat b.toNat c.toNat ++ encode s

/-- The encoding with the bits that are missing taken as zero throughout, and no padding. -/
def zeroFilled : List UInt8 → List UInt8
  | [] => []
  | [a] => quad a.toNat 0 0
  | [a, b] => quad a.toNat b.toNat 0
  | a :: b :: c :: s => quad a.toNat b.toNat c.toNat ++ zeroFilled s

@[simp] lemma quad_length (a b c : Nat) : (quad a b c).length = 4 := rfl

lemma zeroFilled_length (s : List UInt8) : (zeroFilled s).length = 4 * ((s.length + 2) / 3) := by
  induction s using zeroFilled.induct with
  | case1 => rfl
  | case2 a => simp [zeroFilled]
  | case3 a b => simp [zeroFilled]
  | case4 a b c s ih =>
    simp only [zeroFilled, List.length_append, quad_length, ih, List.length_cons]
    omega

lemma digit_ne_pad {n : Nat} (h : n < 64) : digit n ≠ pad := by
  revert n
  decide

lemma sextets_lt {g n : Nat} (h : n ∈ sextets g) : n < 64 := by
  simp only [sextets, List.mem_cons, List.not_mem_nil, or_false] at h
  omega

lemma pad_notMem_quad (a b c : Nat) : pad ∉ quad a b c := by
  intro h
  obtain ⟨n, mem, e⟩ := List.mem_map.mp h
  exact digit_ne_pad (sextets_lt mem) e

/-- Nothing in an encoding without padding is padding. -/
lemma pad_notMem_zeroFilled (s : List UInt8) : pad ∉ zeroFilled s := by
  induction s using zeroFilled.induct with
  | case1 => exact List.not_mem_nil
  | case2 a => exact pad_notMem_quad _ _ _
  | case3 a b => exact pad_notMem_quad _ _ _
  | case4 a b c s ih =>
    rw [zeroFilled, List.mem_append]
    exact fun h => h.elim (pad_notMem_quad _ _ _) ih

/-- Whole groups need no padding. -/
lemma encode_of_mod {s : List UInt8} (h : s.length % 3 = 0) : encode s = zeroFilled s := by
  induction s using zeroFilled.induct with
  | case1 => rfl
  | case2 a => exact absurd h (by simp)
  | case3 a b => exact absurd h (by simp)
  | case4 a b c s ih =>
    have e : s.length % 3 = 0 := by
      simp only [List.length_cons] at h
      omega
    rw [encode, zeroFilled, ih e]

/-- Any other length has padding. -/
lemma pad_mem_encode {s : List UInt8} (h : s.length % 3 ≠ 0) : pad ∈ encode s := by
  induction s using zeroFilled.induct with
  | case1 => exact absurd rfl h
  | case2 a => simp [encode]
  | case3 a b => simp [encode]
  | case4 a b c s ih =>
    have e : s.length % 3 ≠ 0 := by
      simp only [List.length_cons] at h
      omega
    exact List.mem_append_right _ (ih e)

/-- The three octets of a group. -/
def octets (g : Nat) : List UInt8 := [UInt8.ofNat (g / 65536), UInt8.ofNat (g / 256), UInt8.ofNat g]

lemma octets_group (a b c : UInt8) : octets (group a.toNat b.toNat c.toNat) = [a, b, c] := by
  have la := a.toNat_lt
  have lb := b.toNat_lt
  have lc := c.toNat_lt
  have ea : UInt8.ofNat (group a.toNat b.toNat c.toNat / 65536) = a := by
    rw [show group a.toNat b.toNat c.toNat / 65536 = a.toNat by unfold group; omega, UInt8.ofNat_toNat]
  have eb : UInt8.ofNat (group a.toNat b.toNat c.toNat / 256) = b := by
    apply UInt8.toNat_inj.mp
    rw [UInt8.toNat_ofNat']
    unfold group
    omega
  have ec : UInt8.ofNat (group a.toNat b.toNat c.toNat) = c := by
    apply UInt8.toNat_inj.mp
    rw [UInt8.toNat_ofNat']
    unfold group
    omega
  rw [octets, ea, eb, ec]

/-- Three octets come back from their group. -/
lemma group_octets {g : Nat} (h : g < 16777216) :
    group (UInt8.ofNat (g / 65536)).toNat (UInt8.ofNat (g / 256)).toNat (UInt8.ofNat g).toNat = g := by
  simp only [group, UInt8.toNat_ofNat']
  omega

/-- Four 6-bit groups come back from the group they make up. -/
lemma sextets_join {i j k l : Nat} (hi : i < 64) (hj : j < 64) (hk : k < 64) (hl : l < 64) :
    sextets (i * 262144 + j * 4096 + k * 64 + l) = [i, j, k, l] := by
  simp only [sextets, List.cons.injEq, and_true]
  omega

/-- Well-formed text: whole groups of characters, at the end of which there may be one or two of padding. -/
def WellFormed (t : List UInt8) : Prop :=
  t.length % 4 = 0 ∧ ∃ body k, k ≤ 2 ∧ t = body ++ List.replicate k pad ∧ ∀ c ∈ body, ∃ n < 64, c = digit n

/-- `u` is `t` with the bits that the padding leaves unused cleared. -/
def Clears (t u : List UInt8) : Prop :=
  (pad ∉ t ∧ u = t) ∨
    ∃ body n k, 1 ≤ k ∧ k ≤ 2 ∧ t = body ++ digit n :: List.replicate k pad ∧
      u = body ++ digit (n / 4 ^ k * 4 ^ k) :: List.replicate k pad

/-- Where there was padding, there still is. -/
lemma Clears.pad_mem {t u : List UInt8} (h : Clears t u) (mem : pad ∈ t) : pad ∈ u := by
  rcases h with ⟨nomem, -⟩ | ⟨body, n, k, pos, -, -, rfl⟩
  · exact absurd mem nomem
  · apply List.mem_append_right
    apply List.mem_cons_of_mem
    exact List.mem_replicate.mpr ⟨by omega, rfl⟩

end Base64
