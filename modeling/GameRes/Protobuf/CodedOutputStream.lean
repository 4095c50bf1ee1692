import GameRes.Protobuf.CodedInputStream

/-!
# Writing into an array (protobuf/google/protobuf/io/coded_stream.h:1072-1190, coded_stream.cc:752-906)

The target has the size that `ByteSize` computed. Every function writes the plain
encoding of its value, and the size functions are the lengths of these.
-/

namespace GameRes.Protobuf
open Library

/-- The loop of `WriteVarint32ToArray`, with at most `n` more turns. -/
def writeVarintLoop : ℕ → BitVec 32 → Bytes
  | 0, value => [value.setWidth 8]
  | n + 1, value =>
    if 0x80 ≤ value then (value ||| 0x80).setWidth 8 :: writeVarintLoop n (value >>> 7)
    else [value.setWidth 8]

def writeVarint32ToArray (value : BitVec 32) : Bytes := writeVarintLoop 4 value

/-- The search tree of `WriteVarint64ToArrayInline`. -/
def varintSizeOfParts (part0 part1 part2 : BitVec 32) : ℕ :=
  if part2 = 0 then
    if part1 = 0 then
      if part0 < 1#32 <<< 14 then if part0 < 1#32 <<< 7 then 1 else 2
      else if part0 < 1#32 <<< 21 then 3 else 4
    else if part1 < 1#32 <<< 14 then if part1 < 1#32 <<< 7 then 5 else 6
    else if part1 < 1#32 <<< 21 then 7 else 8
  else if part2 < 1#32 <<< 7 then 9 else 10

/-- `WriteVarint64ToArrayInline`: the groups with their high bits set, and then the
high bit of the last one cleared. -/
def writeVarint64ToArray (value : BitVec 64) : Bytes :=
  let part0 : BitVec 32 := value.setWidth 32
  let part1 : BitVec 32 := (value >>> 28).setWidth 32
  let part2 : BitVec 32 := (value >>> 56).setWidth 32
  let size := varintSizeOfParts part0 part1 part2
  let groups := [part0, part0 >>> 7, part0 >>> 14, part0 >>> 21, part1, part1 >>> 7,
    part1 >>> 14, part1 >>> 21, part2, part2 >>> 7]
  let target : Bytes := (groups.take size).map fun x => (x ||| 0x80).setWidth 8
  target.modify (size - 1) (· &&& 0x7F)

def writeVarint32SignExtendedToArray (value : BitVec 32) : Bytes :=
  if value.toInt < 0 then writeVarint64ToArray (value.signExtend 64)
  else writeVarint32ToArray value

def writeLittleEndian32ToArray (value : BitVec 32) : Bytes := leBytes 4 value.toNat

def writeLittleEndian64ToArray (value : BitVec 64) : Bytes := leBytes 8 value.toNat

def varintSize32 (value : BitVec 32) : ℕ :=
  if value < 1#32 <<< 7 then 1
  else if value < 1#32 <<< 14 then 2
  else if value < 1#32 <<< 21 then 3
  else if value < 1#32 <<< 28 then 4
  else 5

def varintSize64 (value : BitVec 64) : ℕ :=
  if value < 1#64 <<< 35 then
    if value < 1#64 <<< 7 then 1
    else if value < 1#64 <<< 14 then 2
    else if value < 1#64 <<< 21 then 3
    else if value < 1#64 <<< 28 then 4
    else 5
  else if value < 1#64 <<< 42 then 6
  else if value < 1#64 <<< 49 then 7
  else if value < 1#64 <<< 56 then 8
  else if value < 1#64 <<< 63 then 9
  else 10

def varintSize32SignExtended (value : BitVec 32) : ℕ :=
  if value.toInt < 0 then 10 else varintSize32 value

theorem toNat_group (x : BitVec 32) : ((x ||| 0x80).setWidth 8).toNat = x.toNat % 128 + 128 := by
  rw [BitVec.setWidth_or, show (0x80 : BitVec 32).setWidth 8 = 0x80 from rfl, toNat_or_0x80,
    BitVec.toNat_setWidth]
  omega

theorem writeVarintLoop_eq (n : ℕ) (value : BitVec 32) (h : value.toNat < 128 ^ (n + 1)) :
    writeVarintLoop n value = varint (n + 1) value.toNat := by
  induction n generalizing value with
  | zero => rw [writeVarintLoop, varint_one (by simpa using h), BitVec.ofNat_toNat]
  | succ n ih =>
    rw [writeVarintLoop]
    split_ifs with hmore
    · have hshift : (value >>> 7).toNat = value.toNat / 128 := by
        rw [BitVec.toNat_ushiftRight, Nat.shiftRight_eq_div_pow]
      have hgroup : (value ||| 0x80).setWidth 8 = BitVec.ofNat 8 (value.toNat % 128 + 128) := by
        apply BitVec.eq_of_toNat_eq
        rw [toNat_group, BitVec.toNat_ofNat]
        omega
      rw [varint_more hmore, hgroup, ih _ (by rw [hshift]; exact div_lt_pow h), hshift]
    · rw [varint_one (Nat.not_le.mp hmore), BitVec.ofNat_toNat]

theorem writeVarint32ToArray_eq (value : BitVec 32) :
    writeVarint32ToArray value = varint 10 value.toNat := by
  have hlt : value.toNat < 128 ^ 5 := Nat.lt_trans value.isLt (by norm_num)
  rw [writeVarint32ToArray, writeVarintLoop_eq 4 value hlt,
    varint_room (k := 10) hlt (by decide) (by decide)]

/-! ### The three parts of a 64-bit value -/

theorem varintSizeOfParts_eq (value : BitVec 64) :
    ∃ j < 10, Groups value.toNat j ∧
      varintSizeOfParts (value.setWidth 32) ((value >>> 28).setWidth 32)
        ((value >>> 56).setWidth 32) = j + 1 := by
  have hv := value.isLt
  have h0 : (value.setWidth 32).toNat = value.toNat % 2 ^ 32 := BitVec.toNat_setWidth ..
  have h1 : ((value >>> 28).setWidth 32).toNat = value.toNat / 2 ^ 28 % 2 ^ 32 := by
    rw [BitVec.toNat_setWidth, BitVec.toNat_ushiftRight, Nat.shiftRight_eq_div_pow]
  have h2 : ((value >>> 56).setWidth 32).toNat = value.toNat / 2 ^ 56 % 2 ^ 32 := by
    rw [BitVec.toNat_setWidth, BitVec.toNat_ushiftRight, Nat.shiftRight_eq_div_pow]
  have hzero : ∀ x : BitVec 32, x = 0 ↔ x.toNat = 0 := fun x => BitVec.toNat_inj.symm
  have h7 : (1#32 <<< 7).toNat = 2 ^ 7 := rfl
  have h14 : (1#32 <<< 14).toNat = 2 ^ 14 := rfl
  have h21 : (1#32 <<< 21).toNat = 2 ^ 21 := rfl
  simp only [varintSizeOfParts, hzero, BitVec.lt_def, h0, h1, h2, h7, h14, h21, Groups]
  split_ifs
  · exact ⟨0, by omega⟩
  · exact ⟨1, by omega⟩
  · exact ⟨2, by omega⟩
  · exact ⟨3, by omega⟩
  · exact ⟨4, by omega⟩
  · exact ⟨5, by omega⟩
  · exact ⟨6, by omega⟩
  · exact ⟨7, by omega⟩
  · exact ⟨8, by omega⟩
  · exact ⟨9, by omega⟩

theorem modify_snoc {α : Type*} (xs : List α) (y : α) (f : α → α) :
    (xs ++ [y]).modify xs.length f = xs ++ [f y] := by
  induction xs with
  | nil => rfl
  | cons x xs ih => rw [List.cons_append, List.length_cons, List.modify_succ_cons, ih, List.cons_append]

/-- The ten groups of a 64-bit value, with their high bits set. -/
theorem groups_eq (value : BitVec 64) :
    ([value.setWidth 32, value.setWidth 32 >>> 7, value.setWidth 32 >>> 14,
      value.setWidth 32 >>> 21, (value >>> 28).setWidth 32, (value >>> 28).setWidth 32 >>> 7,
      (value >>> 28).setWidth 32 >>> 14, (value >>> 28).setWidth 32 >>> 21,
      (value >>> 56).setWidth 32, (value >>> 56).setWidth 32 >>> 7] : List (BitVec 32)).map
        (fun x => (x ||| 0x80).setWidth 8) =
      (List.range 10).map fun i => BitVec.ofNat 8 (value.toNat / 128 ^ i % 128 + 128) := by
  have hgroup : ∀ (s i n : ℕ), s + 7 * i = 7 * n → i ≤ 3 →
      (((value >>> s).setWidth 32 >>> (7 * i) ||| 0x80 : BitVec 32).setWidth 8 : Byte) =
        BitVec.ofNat 8 (value.toNat / 128 ^ n % 128 + 128) := by
    intro s i n hsum hi
    apply BitVec.eq_of_toNat_eq
    have hpow : 128 ^ n = 2 ^ s * 2 ^ (7 * i) := by
      rw [← pow_add, hsum, pow_mul]
      norm_num
    rw [toNat_group, BitVec.toNat_ushiftRight, BitVec.toNat_setWidth, BitVec.toNat_ushiftRight,
      Nat.shiftRight_eq_div_pow, Nat.shiftRight_eq_div_pow, BitVec.toNat_ofNat, hpow,
      ← Nat.div_div_eq_div_mul]
    interval_cases i <;> omega
  rw [show List.range 10 = [0, 1, 2, 3, 4, 5, 6, 7, 8, 9] from rfl]
  simp only [List.map_cons, List.map_nil, List.cons.injEq, and_true]
  exact ⟨hgroup 0 0 0 rfl (by decide), hgroup 0 1 1 rfl (by decide), hgroup 0 2 2 rfl (by decide),
    hgroup 0 3 3 rfl (by decide), hgroup 28 0 4 rfl (by decide), hgroup 28 1 5 rfl (by decide),
    hgroup 28 2 6 rfl (by decide), hgroup 28 3 7 rfl (by decide), hgroup 56 0 8 rfl (by decide),
    hgroup 56 1 9 rfl (by decide)⟩

theorem writeVarint64ToArray_eq (value : BitVec 64) :
    writeVarint64ToArray value = varint 10 value.toNat := by
  obtain ⟨j, hj, hgroups, hsize⟩ := varintSizeOfParts_eq value
  have htake : (List.range 10).take (j + 1) = List.range (j + 1) := by
    rw [List.take_range, Nat.min_eq_left hj]
  have hlast : BitVec.ofNat 8 (value.toNat / 128 ^ j % 128 + 128) &&& 0x7F =
      BitVec.ofNat 8 (value.toNat / 128 ^ j) := by
    apply BitVec.eq_of_toNat_eq
    have hlt : value.toNat / 128 ^ j < 128 := by
      apply Nat.div_lt_of_lt_mul
      rw [← pow_succ]
      exact hgroups.1
    generalize value.toNat / 128 ^ j = n at hlt
    rw [toNat_and_0x7F, BitVec.toNat_ofNat, BitVec.toNat_ofNat]
    omega
  have hmodify := modify_snoc
    ((List.range j).map fun i => BitVec.ofNat 8 (value.toNat / 128 ^ i % 128 + 128))
    (BitVec.ofNat 8 (value.toNat / 128 ^ j % 128 + 128)) (· &&& 0x7F)
  rw [List.length_map, List.length_range, hlast] at hmodify
  simp only [writeVarint64ToArray, hsize, Nat.add_sub_cancel]
  rw [List.map_take, groups_eq, ← List.map_take, htake, List.range_succ, List.map_append,
    List.map_singleton, hmodify, varint_groups hgroups hj]

/-! ### The sizes -/

theorem varintSize32_eq (value : BitVec 32) :
    varintSize32 value = (writeVarint32ToArray value).length := by
  have hv := value.isLt
  have h7 : (1#32 <<< 7).toNat = 2 ^ 7 := rfl
  have h14 : (1#32 <<< 14).toNat = 2 ^ 14 := rfl
  have h21 : (1#32 <<< 21).toNat = 2 ^ 21 := rfl
  have h28 : (1#32 <<< 28).toNat = 2 ^ 28 := rfl
  have hsize : ∃ j < 10, Groups value.toNat j ∧ varintSize32 value = j + 1 := by
    simp only [varintSize32, BitVec.lt_def, h7, h14, h21, h28, Groups]
    split_ifs
    · exact ⟨0, by omega⟩
    · exact ⟨1, by omega⟩
    · exact ⟨2, by omega⟩
    · exact ⟨3, by omega⟩
    · exact ⟨4, by omega⟩
  obtain ⟨j, hj, hgroups, heq⟩ := hsize
  rw [heq, writeVarint32ToArray_eq, varint_length hgroups hj]

theorem varintSize64_eq (value : BitVec 64) :
    varintSize64 value = (writeVarint64ToArray value).length := by
  have hv := value.isLt
  have hshift : ∀ k < 64, (1#64 <<< k).toNat = 2 ^ k := by
    intro k hk
    rw [BitVec.toNat_shiftLeft, Nat.shiftLeft_eq, show (1#64).toNat = 1 from rfl, Nat.one_mul,
      Nat.mod_eq_of_lt (Nat.pow_lt_pow_right (by decide) hk)]
  have hsize : ∃ j < 10, Groups value.toNat j ∧ varintSize64 value = j + 1 := by
    simp only [varintSize64, BitVec.lt_def, Groups]
    rw [hshift 7 (by decide), hshift 14 (by decide), hshift 21 (by decide), hshift 28 (by decide),
      hshift 35 (by decide), hshift 42 (by decide), hshift 49 (by decide), hshift 56 (by decide),
      hshift 63 (by decide)]
    split_ifs
    · exact ⟨0, by omega⟩
    · exact ⟨1, by omega⟩
    · exact ⟨2, by omega⟩
    · exact ⟨3, by omega⟩
    · exact ⟨4, by omega⟩
    · exact ⟨5, by omega⟩
    · exact ⟨6, by omega⟩
    · exact ⟨7, by omega⟩
    · exact ⟨8, by omega⟩
    · exact ⟨9, by omega⟩
  obtain ⟨j, hj, hgroups, heq⟩ := hsize
  rw [heq, writeVarint64ToArray_eq, varint_length hgroups hj]

theorem varintSize32SignExtended_eq (value : BitVec 32) :
    varintSize32SignExtended value = (writeVarint32SignExtendedToArray value).length := by
  rw [varintSize32SignExtended, writeVarint32SignExtendedToArray]
  split_ifs with hneg
  · have hgroups : Groups (value.signExtend 64).toNat 9 := by
      have hv := value.isLt
      rw [BitVec.toInt_neg_iff] at hneg
      have hmsb : value.msb = true := by
        rw [BitVec.msb_eq_decide, decide_eq_true_eq]
        omega
      rw [Groups, BitVec.toNat_signExtend, hmsb, if_pos rfl, BitVec.toNat_setWidth]
      omega
    rw [writeVarint64ToArray_eq, varint_length hgroups (by decide)]
  · exact varintSize32_eq value

end GameRes.Protobuf
