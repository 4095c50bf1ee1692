import GameRes.NetPack.RoundTrip
import GameRes.NetPack.ShortPacket

/-!
# Values that do not come back (netPack/commDef.cpp:386-417, 701-723, commDef.hpp:219-317)

`operator>>(long long&)` widens the low half with its sign before it is joined
to the high half, and `operator>>` on a vector accepts a thousand elements where
`operator<<` counts in a `short`.
-/

namespace GameRes.NetPack
open Library BinaryReadStream

namespace BinaryWriteStream

def readerAt (w : BinaryWriteStream) (cur : ℕ) (junk : ℕ → BitVec 64) : BinaryReadStream :=
  { w.reader junk with cur := cur - w.ptr }

theorem before_readerAt {w w' : BinaryWriteStream} {bs : Bytes} (junk : ℕ → BitVec 64)
    (h : w.Room bs.length) (hwrote : Wrote w w' bs) : (w'.readerAt w.cur junk).Before bs := by
  have hlow := h.low
  have hhigh := h.high
  have hptr := hwrote.ptr
  have hsize : w'.getSize.toNat = w.cur + bs.length - w.ptr := by
    apply getSize_toNat
    · rw [hwrote.cur, hptr]
      omega
    · rw [hwrote.len]
      omega
  constructor
  · change w.cur - w'.ptr + bs.length ≤ w'.getSize.toNat
    rw [hsize, hptr]
    omega
  · have hload := load_reader w' junk (w.cur - w'.ptr) bs.length
    have hstart : w'.ptr + (w.cur - w'.ptr) = w.cur := by
      rw [hptr]
      omega
    rw [hstart, hwrote.written] at hload
    exact hload

end BinaryWriteStream

open BinaryWriteStream

/-! ### `long long` -/

theorem highHalf_getLsbD (i : BitVec 64) {k : ℕ} (hk : k < 32) :
    (highHalf i).getLsbD k = i.getLsbD (32 + k) := by
  simp only [highHalf, BitVec.getLsbD_setWidth, BitVec.getLsbD_ushiftRight, hk, decide_true,
    Bool.true_and]

theorem lowHalf_getLsbD (i : BitVec 64) {k : ℕ} (hk : k < 32) :
    (lowHalf i).getLsbD k = i.getLsbD k := by
  simp only [lowHalf, BitVec.getLsbD_setWidth, hk, decide_true, Bool.true_and]

theorem lowHalf_msb (i : BitVec 64) : (lowHalf i).msb = i.getLsbD 31 := by
  rw [BitVec.msb_eq_getLsbD_last, lowHalf_getLsbD i (by decide)]

theorem joinHalves_getLsbD (i : BitVec 64) {k : ℕ} (hk : k < 64) :
    (joinHalves (highHalf i) (lowHalf i)).getLsbD k =
      (i.getLsbD k || (decide (32 ≤ k) && i.getLsbD 31)) := by
  rw [joinHalves, BitVec.getLsbD_or, BitVec.getLsbD_shiftLeft, BitVec.getLsbD_signExtend,
    BitVec.getLsbD_signExtend, lowHalf_msb]
  by_cases hlow : k < 32
  · have hge : ¬32 ≤ k := by omega
    simp only [hk, hlow, hge, lowHalf_getLsbD i hlow, decide_true, decide_false, Bool.not_true,
      Bool.and_false, Bool.false_and, Bool.true_and, Bool.false_or, Bool.or_false, if_true]
  · have hge : 32 ≤ k := by omega
    have hhalf : k - 32 < 32 := by omega
    have hlt : k - 32 < 64 := by omega
    have hsum : 32 + (k - 32) = k := by omega
    simp only [hk, hlow, hge, hhalf, hlt, highHalf_getLsbD i hhalf, hsum, decide_true,
      decide_false, Bool.not_false, Bool.true_and, if_true, if_false]

def HalvesKept (i : BitVec 64) : Prop :=
  i.getLsbD 31 = false ∨ highHalf i = BitVec.allOnes 32

theorem joinHalves_eq_iff (i : BitVec 64) :
    joinHalves (highHalf i) (lowHalf i) = i ↔ HalvesKept i := by
  constructor
  · intro h
    cases hsign : i.getLsbD 31 with
    | false => exact Or.inl hsign
    | true =>
      refine Or.inr (BitVec.eq_of_getLsbD_eq fun k hk => ?_)
      have hbit := joinHalves_getLsbD i (show 32 + k < 64 by omega)
      rw [h, hsign, Bool.and_true, decide_eq_true (by omega), Bool.or_true] at hbit
      rw [highHalf_getLsbD i hk, hbit, BitVec.getLsbD_allOnes, decide_eq_true hk]
  · intro h
    refine BitVec.eq_of_getLsbD_eq fun k hk => ?_
    rw [joinHalves_getLsbD i hk]
    rcases h with hsign | hones
    · rw [hsign, Bool.and_false, Bool.or_false]
    · by_cases hge : 32 ≤ k
      · have hbit := highHalf_getLsbD i (show k - 32 < 32 by omega)
        rw [hones, BitVec.getLsbD_allOnes, decide_eq_true (by omega),
          show 32 + (k - 32) = k by omega] at hbit
        rw [← hbit, Bool.true_or]
      · rw [decide_eq_false hge, Bool.false_and, Bool.or_false]

/-- A `long long` comes back exactly when its halves do not interfere. -/
theorem longlong_roundTrip_iff (w : BinaryWriteStream) (i prev : BitVec 64) (junk : ℕ → BitVec 64)
    (h : w.Room 8) :
    ∃ w', w.insertLongLong i = some w' ∧
      ((extractLongLong prev (w'.readerAt w.cur junk)).1 = i ↔ HalvesKept i) := by
  obtain ⟨w', hinsert, happ⟩ := appended_insertLongLong i h
  have hroom : w.Room (beInt (highHalf i) ++ beInt (lowHalf i)).length := by
    rw [List.length_append, beInt_length, beInt_length]
    exact h
  have hread := extractLongLong_before prev (before_readerAt junk hroom happ.toWrote)
  refine ⟨w', hinsert, ?_⟩
  rw [hread]
  exact joinHalves_eq_iff i

theorem longlong_roundTrip_positive :
    ∃ w', (BinaryWriteStream.mk 4096 64 4100 (fun _ => 0) (by decide)).insertLongLong 5 = some w' ∧
      (extractLongLong 0 (w'.readerAt 4100 fun _ => 0)).1 = 5 := by
  obtain ⟨w', hinsert, hiff⟩ := longlong_roundTrip_iff ⟨4096, 64, 4100, fun _ => 0, by decide⟩ 5 0
    (fun _ => 0) ⟨by decide, by decide⟩
  exact ⟨w', hinsert, hiff.mpr (Or.inl (by decide))⟩

theorem longlong_lost :
    ¬∀ (w : BinaryWriteStream) (i prev : BitVec 64) (junk : ℕ → BitVec 64), w.Room 8 →
      ∃ w', w.insertLongLong i = some w' ∧
        (extractLongLong prev (w'.readerAt w.cur junk)).1 = i := by
  intro hall
  have hroom : (BinaryWriteStream.mk 4096 64 4100 (fun _ => 0) (by decide)).Room 8 :=
    ⟨by decide, by decide⟩
  obtain ⟨w', hinsert, hread⟩ := hall _ 0x80000000 0 (fun _ => 0) hroom
  obtain ⟨w₁, hinsert₁, happ⟩ := appended_insertLongLong 0x80000000 hroom
  rw [hinsert] at hinsert₁
  rw [Option.some.inj hinsert₁] at hread
  have hvalue := extractLongLong_before 0 (before_readerAt (fun _ => 0) hroom happ.toWrote)
  rw [hvalue] at hread
  have hjoin : joinHalves (highHalf 0x80000000) (lowHalf 0x80000000) = 0x80000000 := hread
  exact absurd hjoin (by decide)

/-! ### Vectors -/

theorem extractVector_length_le {α : Type} (initial : BinaryReadStream → α × BinaryReadStream)
    (elem : α → BinaryReadStream → α × BinaryReadStream) (s : BinaryReadStream) :
    (extractVector initial elem s).1.length ≤ 1000 := by
  simp only [extractVector, rejects_iff]
  split
  · exact Nat.zero_le _
  · rename_i hle
    rw [extractMany_length]
    omega

/-- A vector of `int` and the `int` behind it come back exactly when the vector
has at most a thousand elements. -/
theorem vector_roundTrip_iff (w : BinaryWriteStream) (v : List (BitVec 32)) (x prev : BitVec 32)
    (junk : ℕ → BitVec 64) (h : w.Room (2 + 4 * v.length + 4)) :
    ∃ w₁ w', insertVector (fun i w => w.insertInt i) v w = some w₁ ∧ w₁.insertInt x = some w' ∧
      ((extractInts (w'.readerAt w.cur junk)).1 = v ∧
          (extractInt prev (extractInts (w'.readerAt w.cur junk)).2).1 = x ↔
        v.length ≤ 1000) := by
  rw [← encodeInts_length] at h
  obtain ⟨w₁, hvector, happ⟩ := appended_insert (.vector .int) v (fun _ _ => trivial) w
    (h.mono (Nat.le_add_right _ _))
  obtain ⟨w', hint, happ'⟩ := appended_insert .int x trivial w₁ (by
    have hroom := happ.room h
    rwa [← beInt_length x] at hroom)
  refine ⟨w₁, w', hvector, hint, ?_⟩
  have hwrote : Wrote w w' (encodeInts v ++ beInt x) := happ.toWrote.trans happ'.toWrote h.low
  have hbefore := before_readerAt junk (by
    rw [List.length_append, beInt_length]
    exact h) hwrote
  constructor
  · intro hread
    rw [← hread.1]
    exact extractVector_length_le _ _ _
  · intro hle
    obtain ⟨j, hvec⟩ := extract_before (.vector .int) v ⟨hle, fun _ _ => trivial⟩ []
      (w'.readerAt w.cur junk) hbefore.left
    have hints : extractInts (w'.readerAt w.cur junk) =
        (v, (w'.readerAt w.cur junk).moved (encodeInts v).length j) := hvec
    have hlast := extractInt_before prev (hbefore.right j)
    rw [hints]
    exact ⟨rfl, congrArg Prod.fst hlast⟩

theorem vector_roundTrip_disappear :
    ∃ w₁ w', insertVector (fun i w => w.insertInt i) [7, 9]
        (BinaryWriteStream.mk 4096 64 4100 (fun _ => 0) (by decide)) = some w₁ ∧
      w₁.insertInt 2 = some w' ∧
      (extractInts (w'.readerAt 4100 fun _ => 0)).1 = [7, 9] ∧
      (extractInt 0 (extractInts (w'.readerAt 4100 fun _ => 0)).2).1 = 2 := by
  obtain ⟨w₁, w', hvector, hnext, hiff⟩ := vector_roundTrip_iff
    ⟨4096, 64, 4100, fun _ => 0, by decide⟩ [7, 9] 2 0 (fun _ => 0) ⟨by decide, by decide⟩
  exact ⟨w₁, w', hvector, hnext, hiff.mpr (by decide)⟩

/-- 1001 objects disappear: the reader gives back none and takes the first for the `int`. -/
theorem vector_lost :
    ¬∀ (w : BinaryWriteStream) (v : List (BitVec 32)) (x prev : BitVec 32)
      (junk : ℕ → BitVec 64), w.Room (2 + 4 * v.length + 4) →
      ∃ w₁ w', insertVector (fun i w => w.insertInt i) v w = some w₁ ∧ w₁.insertInt x = some w' ∧
        (extractInts (w'.readerAt w.cur junk)).1 = v ∧
          (extractInt prev (extractInts (w'.readerAt w.cur junk)).2).1 = x := by
  intro hall
  have hroom : (BinaryWriteStream.mk 4096 8192 4100 (fun _ => 0) (by decide)).Room
      (2 + 4 * (List.replicate 1001 (7 : BitVec 32)).length + 4) := by
    rw [List.length_replicate]
    exact ⟨by decide, by decide⟩
  obtain ⟨w₁, w', -, -, hvector, -⟩ := hall _ (List.replicate 1001 7) 2 0 (fun _ => 0) hroom
  have hle : (extractInts _).1.length ≤ 1000 :=
    extractVector_length_le _ _ (w'.readerAt 4100 fun _ => 0)
  rw [hvector, List.length_replicate] at hle
  omega

end GameRes.NetPack
