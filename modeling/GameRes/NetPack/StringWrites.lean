import GameRes.NetPack.Overflow

/-!
# Three ways to write a string (netPack/commDef.cpp:559-572, 666-679, 793-835)

`operator<<(const std::string&)` and `Write(const std::string&)` compute with the
size as a `short`, `Write(const char*, size_t)` with the size itself; the prefix
is an `unsigned short` in all three.
-/

namespace GameRes.NetPack
open Library

namespace BinaryWriteStream

def writeData (w : BinaryWriteStream) (s : Bytes) : Option (Bool × BinaryWriteStream) :=
  w.writeBytes s (BitVec.ofNat 32 s.length)

structure LeavesOut (w : BinaryWriteStream) (s : Bytes) : Prop where
  insert : w.insertString s = some w
  write : w.writeString s = some (false, w)
  data : w.writeData s = some (false, w)

structure Takes (w : BinaryWriteStream) (count s : Bytes) : Prop where
  inside : w.ptr ≤ w.cur ∧ w.cur + (s.length + 2) ≤ w.ptr + w.len
  insert : w.insertString s = some (w.pushed (count ++ s)).flushed
  write : w.writeString s = some (true, w.pushed (count ++ s))
  data : w.writeData s = some (true, w.pushed (count ++ s))

/-- `s` is left out, or appended with its size as two big-endian bytes. -/
def StringFaithful (w : BinaryWriteStream) (s : Bytes) : Prop :=
  LeavesOut w s ∨ ∃ count, count.length = 2 ∧ beVal count = s.length ∧ Takes w count s

def SizeFits (w : BinaryWriteStream) (s : Bytes) : Prop :=
  s.length ≤ 32767 ∧ w.cur + s.length + 2 < 2 ^ 32

def AllRefuse (w : BinaryWriteStream) (s : Bytes) : Prop :=
  w.refusesString s = true ∧ w.refusesBytes (BitVec.ofNat 32 s.length) = true

section
variable {w : BinaryWriteStream} {s : Bytes}

/-! ### Both tests -/

theorem SizeFits.toNat_eq (h : SizeFits w s) : (BitVec.ofNat 32 s.length).toNat = s.length := by
  have hsum := h.2
  rw [BitVec.toNat_ofNat]
  omega

theorem ahead_of_fits (h : SizeFits w s) :
    w.ahead ((s.length + 2 : ℕ) : ℤ) = w.cur + (s.length + 2) := by
  have hsum := h.2
  rw [ahead]
  omega

theorem refusesString_of_fits (h : SizeFits w s) :
    w.refusesString s = true ↔ w.ptr + w.len < w.cur + (s.length + 2) := by
  rw [refusesString_of_short w h.1, ahead_of_fits h]

theorem refusesBytes_of_fits (h : SizeFits w s) :
    w.refusesBytes (BitVec.ofNat 32 s.length) = true ↔
      w.ptr + w.len < w.cur + (s.length + 2) := by
  have hahead := ahead_of_fits h
  push_cast at hahead
  rw [refusesBytes, h.toNat_eq, hahead, decide_eq_true_iff]

theorem leavesOut_of_refuse (h : AllRefuse w s) : LeavesOut w s := by
  refine ⟨?_, ?_, ?_⟩
  · rw [insertString, if_pos h.1]
  · rw [writeString, if_pos h.1]
  · rw [writeData, writeBytes, if_pos h.2]

theorem refuse_of_leavesOut (h : LeavesOut w s) : AllRefuse w s := by
  constructor
  · have hwrite := h.write
    rw [writeString] at hwrite
    split at hwrite
    · assumption
    · obtain ⟨w', -, heq⟩ := Option.map_eq_some_iff.mp hwrite
      cases heq
  · have hdata := h.data
    rw [writeData, writeBytes] at hdata
    split at hdata
    · assumption
    · simp only [Option.bind_eq_bind, Option.bind_eq_some_iff, Option.some.injEq,
        Prod.mk.injEq, Bool.true_eq_false, false_and, and_false, exists_false] at hdata

/-! ### The bytes -/

theorem pushed_pushed (w : BinaryWriteStream) (bs cs : Bytes) :
    (w.pushed bs).pushed cs = w.pushed (bs ++ cs) := by
  simp only [pushed, store_append, List.length_append, Nat.add_assoc]

theorem poke_count (hlow : w.ptr + 4 ≤ w.cur)
    (hroom : w.cur + (s.length + 2) ≤ w.ptr + w.len) (count : BitVec 16) :
    ((w.writeLength count).bind fun w => w.poke s) = some (w.pushed (shortBytes count ++ s)) := by
  have hlen := shortBytes_length count
  have hall : w.Room ((shortBytes count).length + s.length) := ⟨hlow, by omega⟩
  have hcount := poke_eq (hall.mono (Nat.le_add_right _ _))
  have hcontent := poke_eq ((wrote_pushed (shortBytes count)).room hall)
  rw [writeLength, hcount, Option.bind_some, hcontent, pushed_pushed]

theorem takes_of_room (h : SizeFits w s) (hlow : w.ptr + 4 ≤ w.cur)
    (hroom : w.cur + (s.length + 2) ≤ w.ptr + w.len) :
    Takes w (shortBytes (BitVec.ofNat 16 s.length)) s := by
  have hstring : w.refusesString s = false := by
    rw [Bool.eq_false_iff, ne_eq, refusesString_of_fits h]
    omega
  have hbytes : w.refusesBytes (BitVec.ofNat 32 s.length) = false := by
    rw [Bool.eq_false_iff, ne_eq, refusesBytes_of_fits h]
    omega
  have hcopy : w.copyString s = some (w.pushed (shortBytes (BitVec.ofNat 16 s.length) ++ s)) :=
    (copyString_of_short w h.1).trans (poke_count hlow hroom _)
  have hword : (BitVec.ofNat 32 s.length).setWidth 16 = BitVec.ofNat 16 s.length := by
    rw [BitVec.setWidth_ofNat_of_le (by decide)]
  refine ⟨⟨by omega, hroom⟩, ?_, ?_, ?_⟩
  · have hflush : (w.pushed (shortBytes (BitVec.ofNat 16 s.length) ++ s)).Room 0 := by
      refine (wrote_pushed _).room ⟨hlow, ?_⟩
      rw [List.length_append, shortBytes_length]
      omega
    rw [insertString, hstring, if_neg Bool.false_ne_true, hcopy, Option.bind_some,
      flush_eq hflush]
  · rw [writeString, hstring, if_neg Bool.false_ne_true, hcopy, Option.map_some]
  · have hread : readBlock s 0 s.length = some s := by
      rw [readBlock_of_le (by omega), List.drop_zero, List.take_length]
    have hpoke := poke_count hlow hroom (BitVec.ofNat 16 s.length)
    rw [writeData, writeBytes, hbytes, if_neg Bool.false_ne_true, hword, h.toNat_eq, hread]
    simp only [Option.bind_eq_bind, Option.bind_some]
    rw [← Option.bind_assoc, hpoke, Option.bind_some]

theorem beVal_count {n : ℕ} (h : n < 2 ^ 16) : beVal (shortBytes (BitVec.ofNat 16 n)) = n := by
  rw [shortBytes_eq, beShort, beVal_beBytes, BitVec.toNat_ofNat]
  omega

theorem fits_of_takes {count : Bytes} (hcount : count.length = 2) (hval : beVal count = s.length)
    (h : Takes w count s) : SizeFits w s := by
  have hfits := w.fits
  have hinside := h.inside
  have hlt := beVal_lt count
  have hwrite := h.write
  rw [hcount, hval] at hlt
  refine ⟨?_, by omega⟩
  by_contra hlong
  -- Above 32767 the `short` is negative, and nothing comes back from `memcpy`.
  have hneg : (BitVec.ofNat 16 s.length).toInt < 0 := by
    have hnat : (BitVec.ofNat 16 s.length).toNat = s.length := by
      rw [BitVec.toNat_ofNat]
      omega
    rw [BitVec.toInt_eq_toNat_cond, hnat, if_neg (by omega)]
    omega
  have hnone : w.copyString s = none := by
    simp only [copyString, if_pos hneg, Option.bind_eq_bind, Option.bind_fun_none]
  rw [writeString, hnone] at hwrite
  split at hwrite
  · cases hwrite
  · cases hwrite

theorem fits_of_faithful (h : StringFaithful w s) : SizeFits w s ∨ AllRefuse w s := by
  rcases h with hout | ⟨count, hcount, hval, htakes⟩
  · exact Or.inr (refuse_of_leavesOut hout)
  · exact Or.inl (fits_of_takes hcount hval htakes)

theorem faithful_of_fits (h : SizeFits w s) (hlow : w.ptr + 4 ≤ w.cur) : StringFaithful w s := by
  by_cases hroom : w.cur + (s.length + 2) ≤ w.ptr + w.len
  · have hcount : beVal (shortBytes (BitVec.ofNat 16 s.length)) = s.length :=
      beVal_count (by have := h.1; omega)
    exact Or.inr ⟨_, shortBytes_length _, hcount, takes_of_room h hlow hroom⟩
  · refine Or.inl (leavesOut_of_refuse ⟨?_, ?_⟩)
    · exact (refusesString_of_fits h).mpr (by omega)
    · exact (refusesBytes_of_fits h).mpr (by omega)

end

/-- The three writes are faithful and agree exactly when the size is one as a
`short`, or the tests of both kinds refuse the string. -/
theorem string_faithful_iff (w : BinaryWriteStream) (s : Bytes) (h : w.ptr + 4 ≤ w.cur) :
    StringFaithful w s ↔ SizeFits w s ∨ AllRefuse w s := by
  constructor
  · exact fits_of_faithful
  · intro hcond
    rcases hcond with hfits | hrefuse
    · exact faithful_of_fits hfits h
    · exact Or.inl (leavesOut_of_refuse hrefuse)

theorem string_faithful_name :
    StringFaithful ⟨65536, 64, 65540, fun _ => 0, by decide⟩ [65, 66] :=
  (string_faithful_iff ⟨65536, 64, 65540, fun _ => 0, by decide⟩ [65, 66] (by decide)).mpr
    (Or.inl ⟨by decide, by decide⟩)

/-- 32768 bytes are a negative `short`: the test passes and `memcpy` runs off the block. -/
theorem string_runs_off :
    ¬∀ (w : BinaryWriteStream) (s : Bytes), w.ptr + 4 ≤ w.cur → StringFaithful w s := by
  intro hall
  have h := fits_of_faithful (hall ⟨65536, 40000, 65540, fun _ => 0, by decide⟩
    (zeroBlock 32768) (by decide))
  rcases h with hfits | hrefuse
  · have hsize := hfits.1
    rw [zeroBlock_length] at hsize
    omega
  · have hstring := hrefuse.1
    rw [refusesString, zeroBlock_length] at hstring
    exact absurd hstring (by decide)

end BinaryWriteStream
end GameRes.NetPack
