import GameRes.Library.Bytes
import Mathlib.Data.List.TakeWhile

/-!
# Heap blocks

An allocated block is the list of its bytes. `memcpy` from and into a block is
partial: `none` is an access outside the block, which the languages modelled
here leave undefined. Zero-terminated strings live in such blocks.
-/

namespace GameRes.Library

def readBlock (block : Bytes) (off n : ℕ) : Option Bytes :=
  if off + n ≤ block.length then some ((block.drop off).take n) else none

def writeBlock (block : Bytes) (off : ℕ) (src : Bytes) : Option Bytes :=
  if off + src.length ≤ block.length then
    some (block.take off ++ src ++ block.drop (off + src.length))
  else none

def zeroBlock (n : ℕ) : Bytes := List.replicate n 0

/-- The characters before the first zero byte of `block`; `none` when the
search runs off its end. -/
def cString (block : Bytes) : Option Bytes :=
  if 0 ∈ block then some (block.takeWhile (· ≠ 0)) else none

theorem readBlock_of_le {block : Bytes} {off n : ℕ} (h : off + n ≤ block.length) :
    readBlock block off n = some ((block.drop off).take n) := by
  simp only [readBlock, h, ite_true]

theorem writeBlock_of_le {block src : Bytes} {off : ℕ} (h : off + src.length ≤ block.length) :
    writeBlock block off src =
      some (block.take off ++ src ++ block.drop (off + src.length)) := by
  simp only [writeBlock, h, ite_true]

theorem readBlock_some {block content : Bytes} {off n : ℕ}
    (h : readBlock block off n = some content) : content.length = n := by
  simp only [readBlock, Option.ite_none_right_eq_some, Option.some.injEq] at h
  obtain ⟨hle, heq⟩ := h
  rw [← heq]
  simp only [List.length_take, List.length_drop]
  omega

theorem writeBlock_some {block src block' : Bytes} {off : ℕ}
    (h : writeBlock block off src = some block') :
    off + src.length ≤ block.length ∧ block'.length = block.length := by
  simp only [writeBlock, Option.ite_none_right_eq_some, Option.some.injEq] at h
  obtain ⟨hle, heq⟩ := h
  refine ⟨hle, ?_⟩
  rw [← heq]
  simp only [List.length_append, List.length_take, List.length_drop]
  omega

@[simp] theorem zeroBlock_length (n : ℕ) : (zeroBlock n).length = n := List.length_replicate

theorem zeroBlock_drop (n k : ℕ) : (zeroBlock n).drop k = zeroBlock (n - k) :=
  List.drop_replicate ..

theorem writeBlock_front (done src : Bytes) (n : ℕ) (h : src.length ≤ n) :
    writeBlock (done ++ zeroBlock n) done.length src =
      some (done ++ src ++ zeroBlock (n - src.length)) := by
  rw [writeBlock_of_le (by simp only [List.length_append, zeroBlock_length]; omega)]
  rw [List.take_left, List.drop_append, zeroBlock_drop, Nat.add_sub_cancel_left,
    List.drop_of_length_le (Nat.le_add_right ..), List.nil_append]

theorem cString_append_zero (s : Bytes) :
    cString (s ++ [0]) = some (s.takeWhile (· ≠ 0)) := by
  have h0 : (0 : Byte) ∈ s ++ [0] := by simp
  have hz : List.takeWhile (· ≠ 0) [(0 : Byte)] = [] := rfl
  simp only [cString, h0, ite_true, List.takeWhile_append, hz, List.append_nil]
  split_ifs with hlen
  · rw [(List.takeWhile_prefix _).eq_of_length hlen]
  · rfl

theorem takeWhile_ne_zero_eq_self {s : Bytes} :
    s.takeWhile (· ≠ 0) = s ↔ (0 : Byte) ∉ s := by
  rw [List.takeWhile_eq_self_iff]
  constructor
  · intro h h0
    simpa using h 0 h0
  · intro h b hb
    have hne : b ≠ 0 := fun he => h (he ▸ hb)
    simpa using hne

end GameRes.Library
