import Mathlib.Data.Nat.Digits.Defs
import Mathlib.Data.Nat.Digits.Lemmas

/-!
# Byte strings and machine words

Bytes, little-endian and big-endian words of a fixed number of bytes, and the
byte swap between the two orders. A word of `n` bytes is a natural number
below `256 ^ n`; fixed-width integers are cut out of it with `BitVec.ofNat`.
-/

namespace GameRes.Library

abbrev Byte := BitVec 8
abbrev Bytes := List Byte

/-- Little-endian digits of `v`, exactly `n` bytes. -/
def leBytes : ℕ → ℕ → Bytes
  | 0, _ => []
  | n + 1, v => BitVec.ofNat 8 v :: leBytes n (v / 256)

def leVal (bs : Bytes) : ℕ := Nat.ofDigits 256 (bs.map BitVec.toNat)

def beBytes (n v : ℕ) : Bytes := (leBytes n v).reverse

def beVal (bs : Bytes) : ℕ := leVal bs.reverse

/-- Reversal of the `n` low bytes of a word, the effect of `htonl` and its
relatives on a little-endian machine. -/
def swapBytes (n v : ℕ) : ℕ := leVal (beBytes n v)

@[simp] theorem leVal_nil : leVal [] = 0 := rfl

@[simp] theorem leVal_cons (b : Byte) (bs : Bytes) :
    leVal (b :: bs) = b.toNat + 256 * leVal bs := rfl

@[simp] theorem leBytes_length (n v : ℕ) : (leBytes n v).length = n := by
  induction n generalizing v with
  | zero => rfl
  | succ n ih => simp only [leBytes, List.length_cons, ih]

@[simp] theorem beBytes_length (n v : ℕ) : (beBytes n v).length = n := by
  simp only [beBytes, List.length_reverse, leBytes_length]

theorem leVal_lt (bs : Bytes) : leVal bs < 256 ^ bs.length := by
  have hd : ∀ x ∈ bs.map BitVec.toNat, x < 256 := by
    intro x hx
    obtain ⟨b, -, rfl⟩ := List.mem_map.mp hx
    exact b.isLt
  have h := Nat.ofDigits_lt_base_pow_length (by norm_num) hd
  rwa [List.length_map] at h

theorem leVal_leBytes (n v : ℕ) : leVal (leBytes n v) = v % 256 ^ n := by
  induction n generalizing v with
  | zero => simp only [leBytes, leVal_nil, pow_zero, Nat.mod_one]
  | succ n ih =>
    simp only [leBytes, leVal_cons, BitVec.toNat_ofNat, ih]
    rw [pow_succ' 256 n, Nat.mod_mul]

theorem leBytes_leVal (bs : Bytes) : leBytes bs.length (leVal bs) = bs := by
  induction bs with
  | nil => rfl
  | cons b bs ih =>
    have hb : b.toNat < 256 := b.isLt
    have hdiv : (b.toNat + 256 * leVal bs) / 256 = leVal bs := by omega
    have hmod : BitVec.ofNat 8 (b.toNat + 256 * leVal bs) = b := by
      apply BitVec.eq_of_toNat_eq
      rw [BitVec.toNat_ofNat]
      omega
    simp only [List.length_cons, leVal_cons, leBytes, hdiv, hmod, ih]

theorem beVal_beBytes (n v : ℕ) : beVal (beBytes n v) = v % 256 ^ n := by
  rw [beVal, beBytes, List.reverse_reverse, leVal_leBytes]

theorem beVal_lt (bs : Bytes) : beVal bs < 256 ^ bs.length := by
  have h := leVal_lt bs.reverse
  rwa [List.length_reverse] at h

theorem leBytes_swapBytes (n v : ℕ) : leBytes n (swapBytes n v) = beBytes n v := by
  have h := leBytes_leVal (beBytes n v)
  rwa [beBytes_length] at h

theorem swapBytes_leVal (bs : Bytes) : swapBytes bs.length (leVal bs) = beVal bs := by
  rw [swapBytes, beBytes, leBytes_leVal, beVal]

end GameRes.Library
