import GameRes.NetPack.BinaryReadStream

/-!
# Unpacking reads the wire format (netPack/commDef.cpp:366-492, commDef.hpp:219-244)

A reader that stands before the wire format of a value reads that value and
moves behind it, whatever the variable it reads into held, when the value is one
that the format carries.
-/

namespace GameRes.NetPack
open Library

mutual
/-- The value survives its wire format. `operator>>` on a message does not read the
`msgID` that `operator<<` writes, so a message inside another record does not. -/
def Ty.Decodable : (t : Ty) → t.Val → Prop
  | .longlong, v => joinHalves (highHalf v) (lowHalf v) = v
  | .string, s => List.length s < 2 ^ 16
  | .vector t, (xs : List t.Val) => xs.length ≤ 1000 ∧ ∀ x ∈ xs, t.Decodable x
  | .struct fs, vs => fs.Decodable vs
  | .msg _ _, _ => False
  | _, _ => True

def Fields.Decodable : (fs : Fields) → fs.Vals → Prop
  | .nil, _ => True
  | .cons t fs, (v, vs) => t.Decodable v ∧ fs.Decodable vs
end

namespace BinaryReadStream

def moved (s : BinaryReadStream) (n : ℕ) (junk : ℕ → BitVec 64) : BinaryReadStream :=
  { s with cur := s.cur + n, junk := junk }

/-- `bs` lies at the cursor, inside the packet. -/
structure Before (s : BinaryReadStream) (bs : Bytes) : Prop where
  inside : s.cur + bs.length ≤ s.len
  bytes : load s.mem s.cur bs.length = bs

@[simp] theorem moved_moved (s : BinaryReadStream) (m n : ℕ) (j j' : ℕ → BitVec 64) :
    (s.moved m j).moved n j' = s.moved (m + n) j' := by
  simp only [moved, Nat.add_assoc]

theorem Before.left {s : BinaryReadStream} {bs cs : Bytes} (h : s.Before (bs ++ cs)) :
    s.Before bs := by
  have hinside := h.inside
  have hbytes := h.bytes
  rw [List.length_append] at hinside hbytes
  rw [load_append] at hbytes
  exact ⟨by omega, (List.append_inj hbytes (load_length _ _ _)).1⟩

theorem Before.right {s : BinaryReadStream} {bs cs : Bytes} (h : s.Before (bs ++ cs))
    (j : ℕ → BitVec 64) : (s.moved bs.length j).Before cs := by
  have hinside := h.inside
  have hbytes := h.bytes
  rw [List.length_append] at hinside hbytes
  rw [load_append] at hbytes
  refine ⟨?_, (List.append_inj hbytes (load_length _ _ _)).2⟩
  simp only [moved]
  omega

/-! ### Scalars -/

theorem scalar_before {s : BinaryReadStream} {bs : Bytes} (h : s.Before bs) :
    s.scalar bs.length = (some bs, s.moved bs.length s.junk) := by
  rw [scalar_of_le h.inside, h.bytes]
  rfl

theorem readInt_before {s : BinaryReadStream} {i : BitVec 32} (h : s.Before (beInt i)) :
    s.readInt = (some i, s.moved 4 s.junk) := by
  have hscalar := scalar_before h
  rw [beInt_length] at hscalar
  simp only [readInt, hscalar, Option.map_some, intOfBytes_beInt]

theorem readShort_before {s : BinaryReadStream} {i : BitVec 16} (h : s.Before (beShort i)) :
    s.readShort = (some i, s.moved 2 s.junk) := by
  have hscalar := scalar_before h
  rw [beShort_length] at hscalar
  simp only [readShort, hscalar, Option.map_some, shortOfBytes_beShort]

theorem extractInt_before {s : BinaryReadStream} {i : BitVec 32} (prev : BitVec 32)
    (h : s.Before (beInt i)) : extractInt prev s = (i, s.moved (beInt i).length s.junk) := by
  have hscalar := scalar_before h
  rw [beInt_length] at hscalar
  simp only [extractInt, hscalar, Option.map_some, Option.getD_some, intOfBytes_beInt, beInt_length]

theorem extractShort_before {s : BinaryReadStream} {i : BitVec 16} (prev : BitVec 16)
    (h : s.Before (beShort i)) : extractShort prev s = (i, s.moved (beShort i).length s.junk) := by
  have hscalar := scalar_before h
  rw [beShort_length] at hscalar
  simp only [extractShort, hscalar, Option.map_some, Option.getD_some, shortOfBytes_beShort,
    beShort_length]

theorem extractChar_before {s : BinaryReadStream} {c : Byte} (prev : Byte) (h : s.Before [c]) :
    extractChar prev s = (c, s.moved 1 s.junk) := by
  have hscalar : s.scalar 1 = (some [c], s.moved 1 s.junk) := scalar_before h
  simp only [extractChar, hscalar, Option.bind_some, List.head?_cons, Option.getD_some]

theorem extractLongLong_before {s : BinaryReadStream} {i : BitVec 64} (prev : BitVec 64)
    (h : s.Before (beInt (highHalf i) ++ beInt (lowHalf i))) :
    extractLongLong prev s = (joinHalves (highHalf i) (lowHalf i),
      s.moved (beInt (highHalf i) ++ beInt (lowHalf i)).length s.junk) := by
  have hhigh := readInt_before h.left
  have hrest := h.right s.junk
  rw [beInt_length] at hrest
  have hlow := readInt_before hrest
  simp only [extractLongLong, hhigh, hlow, moved_moved, List.length_append, beInt_length]
  rfl

theorem extractString_before {s : BinaryReadStream} {n : BitVec 16} {bs : Bytes} (prev : Bytes)
    (hn : n.toNat = bs.length) (h : s.Before (beShort n ++ bs)) :
    extractString prev s = (bs, s.moved (beShort n ++ bs).length s.junk) := by
  have hcount := h.left.bytes
  have hfit := h.left.inside
  have hcontent := h.right s.junk
  rw [beShort_length] at hcount hfit hcontent
  have hdeclared : declared s = bs.length := by
    rw [declared, hcount, shortOfBytes_beShort, hn]
  have hfetch := fetch_of_le hcontent.inside
  rw [hcontent.bytes] at hfetch
  have hmoved : ({ s with cur := s.cur + 2 } : BinaryReadStream) = s.moved 2 s.junk := rfl
  simp only [extractString, lengthField_of_le hfit, hdeclared]
  rw [hmoved, hfetch, List.length_append, beShort_length]
  simp only [moved, Nat.add_assoc]

theorem encodeString_of_lt {str : Bytes} (h : str.length < 2 ^ 16) :
    (BitVec.ofNat 16 str.length).toNat = str.length ∧
      encodeString str = beShort (BitVec.ofNat 16 str.length) ++ str := by
  have hnat : (BitVec.ofNat 16 str.length).toNat = str.length := by
    rw [BitVec.toNat_ofNat]
    omega
  exact ⟨hnat, by rw [encodeString, hnat, List.take_length]⟩

theorem extractString_encode {s : BinaryReadStream} {str : Bytes} (prev : Bytes)
    (hlt : str.length < 2 ^ 16) (h : s.Before (encodeString str)) :
    extractString prev s = (str, s.moved (encodeString str).length s.junk) := by
  obtain ⟨hnat, heq⟩ := encodeString_of_lt hlt
  rw [heq] at h ⊢
  exact extractString_before prev hnat h

/-! ### Vectors -/

theorem extractMany_before {α : Type} {elem : α → BinaryReadStream → α × BinaryReadStream}
    {encode : α → Bytes} (xs : List α) (temp : α) (s : BinaryReadStream)
    (helem : ∀ x ∈ xs, ∀ temp (s : BinaryReadStream), s.Before (encode x) →
      ∃ j, elem temp s = (x, s.moved (encode x).length j))
    (h : s.Before (xs.flatMap encode)) :
    ∃ j, extractMany elem xs.length temp s = (xs, s.moved (xs.flatMap encode).length j) := by
  induction xs generalizing temp s with
  | nil => exact ⟨s.junk, rfl⟩
  | cons x xs ih =>
    rw [List.flatMap_cons] at h
    rw [List.forall_mem_cons] at helem
    obtain ⟨j, hx⟩ := helem.1 temp s h.left
    obtain ⟨j', hxs⟩ := ih x (s.moved (encode x).length j) helem.2 (h.right j)
    refine ⟨j', ?_⟩
    simp only [List.length_cons, extractMany, hx, hxs, moved_moved, List.flatMap_cons,
      List.length_append]

theorem shortLength_of_le {n : ℕ} (h : n ≤ 1000) :
    (BitVec.ofNat 16 n).toInt = n ∧ (BitVec.ofNat 16 n).toNat = n := by
  have hnat : (BitVec.ofNat 16 n).toNat = n := by
    rw [BitVec.toNat_ofNat]
    omega
  refine ⟨?_, hnat⟩
  rw [BitVec.toInt_eq_toNat_of_lt (by omega), hnat]

theorem extractVector_before {α : Type} {initial : BinaryReadStream → α × BinaryReadStream}
    {elem : α → BinaryReadStream → α × BinaryReadStream} {encode : α → Bytes} (xs : List α)
    (s : BinaryReadStream) (hxs : xs.length ≤ 1000)
    (hinitial : ∀ s : BinaryReadStream, ∃ j, (initial s).2 = s.moved 0 j)
    (helem : ∀ x ∈ xs, ∀ temp (s : BinaryReadStream), s.Before (encode x) →
      ∃ j, elem temp s = (x, s.moved (encode x).length j))
    (h : s.Before (beShort (BitVec.ofNat 16 xs.length) ++ xs.flatMap encode)) :
    ∃ j, extractVector initial elem s =
      (xs, s.moved (beShort (BitVec.ofNat 16 xs.length) ++ xs.flatMap encode).length j) := by
  obtain ⟨hint, hnat⟩ := shortLength_of_le hxs
  have hcount : s.uninit.2.readShort =
      (some (BitVec.ofNat 16 xs.length), s.uninit.2.moved 2 s.uninit.2.junk) :=
    readShort_before ⟨h.left.inside, h.left.bytes⟩
  have hrange : ¬(((xs.length : ℕ) : ℤ) < 0 ∨ 1000 < ((xs.length : ℕ) : ℤ)) := by omega
  obtain ⟨j, hj⟩ := hinitial (s.uninit.2.moved 2 s.uninit.2.junk)
  have hrest : (s.moved 2 j).Before (xs.flatMap encode) := by
    have hright := h.right j
    rwa [beShort_length] at hright
  have hstart : (s.uninit.2.moved 2 s.uninit.2.junk).moved 0 j = s.moved 2 j := rfl
  obtain ⟨j', hmany⟩ := extractMany_before xs
    (initial (s.uninit.2.moved 2 s.uninit.2.junk)).1 (s.moved 2 j) helem hrest
  refine ⟨j', ?_⟩
  simp only [extractVector, hcount, Option.getD_some, hint, hnat, hrange, if_false, hj, hstart,
    hmany, moved_moved, List.length_append, beShort_length]

end BinaryReadStream

open BinaryReadStream

mutual
theorem initial_moved : (t : Ty) → (s : BinaryReadStream) → ∃ j, (t.initial s).2 = s.moved 0 j
  | .int, _ => ⟨_, rfl⟩
  | .short, _ => ⟨_, rfl⟩
  | .char, _ => ⟨_, rfl⟩
  | .float, _ => ⟨_, rfl⟩
  | .longlong, _ => ⟨_, rfl⟩
  | .string, s => ⟨s.junk, rfl⟩
  | .vector _, s => ⟨s.junk, rfl⟩
  | .struct fs, s => initials_moved fs s
  | .msg _ fs, s => initials_moved fs s

theorem initials_moved :
    (fs : Fields) → (s : BinaryReadStream) → ∃ j, (fs.initial s).2 = s.moved 0 j
  | .nil, s => ⟨s.junk, rfl⟩
  | .cons t fs, s => by
    obtain ⟨j, hj⟩ := initial_moved t s
    obtain ⟨j', hj'⟩ := initials_moved fs (t.initial s).2
    refine ⟨j', ?_⟩
    rw [Fields.initial, hj', hj, moved_moved]
end

/-! ### Any type -/

mutual
theorem extract_before : (t : Ty) → (v : t.Val) → t.Decodable v → (prev : t.Val) →
    (s : BinaryReadStream) → s.Before (t.encode v) →
    ∃ j, t.extract prev s = (v, s.moved (t.encode v).length j)
  | .int, _, _, prev, s, h => ⟨s.junk, extractInt_before prev h⟩
  | .short, _, _, prev, s, h => ⟨s.junk, extractShort_before prev h⟩
  | .char, _, _, prev, s, h => ⟨s.junk, extractChar_before prev h⟩
  | .float, _, _, prev, s, h => ⟨s.junk, extractInt_before prev h⟩
  | .longlong, v, hd, prev, s, h => by
    have hjoin : joinHalves (highHalf v) (lowHalf v) = v := hd
    refine ⟨s.junk, ?_⟩
    rw [Ty.extract, extractLongLong_before prev h, hjoin]
    rfl
  | .string, _, hd, prev, s, h => ⟨s.junk, extractString_encode prev hd h⟩
  | .vector t, xs, hd, prev, s, h =>
    extractVector_before xs s hd.1 (initial_moved t)
      (fun x hx temp s' => extract_before t x (hd.2 x hx) temp s') h
  | .struct fs, vs, hd, prev, s, h => unPack_before fs vs hd prev s h

theorem unPack_before : (fs : Fields) → (vs : fs.Vals) → fs.Decodable vs → (prev : fs.Vals) →
    (s : BinaryReadStream) → s.Before (fs.encode vs) →
    ∃ j, fs.unPack prev s = (vs, s.moved (fs.encode vs).length j)
  | .nil, _, _, _, s, _ => ⟨s.junk, rfl⟩
  | .cons t fs, (v, vs), hd, (prev, prevs), s, h => by
    rw [Fields.encode] at h ⊢
    obtain ⟨j, hv⟩ := extract_before t v hd.1 prev s h.left
    obtain ⟨j', hvs⟩ := unPack_before fs vs hd.2 prevs (s.moved (t.encode v).length j) (h.right j)
    refine ⟨j', ?_⟩
    rw [Fields.unPack, hv]
    dsimp only
    rw [hvs, moved_moved, List.length_append]
end

end GameRes.NetPack
