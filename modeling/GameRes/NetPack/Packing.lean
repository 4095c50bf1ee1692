import GameRes.NetPack.BinaryWriteStream

/-!
# Packing appends the wire format (netPack/commDef.cpp:681-876, commDef.hpp:299-323)

Whatever its type, a value is appended whole when there is room for its wire
format and no string in it has a size that is negative as a `short`.
-/

namespace GameRes.NetPack
open Library

mutual
/-- No string has a size that is negative as a `short`. -/
def Ty.Packable : (t : Ty) → t.Val → Prop
  | .string, s => (BitVec.ofNat 16 (List.length s)).toNat < 2 ^ 15
  | .vector t, (xs : List t.Val) => ∀ x ∈ xs, t.Packable x
  | .struct fs, vs => fs.Packable vs
  | .msg _ fs, vs => fs.Packable vs
  | _, _ => True

def Fields.Packable : (fs : Fields) → fs.Vals → Prop
  | .nil, _ => True
  | .cons t fs, (v, vs) => t.Packable v ∧ fs.Packable vs
end

namespace BinaryWriteStream

structure Appended (w w' : BinaryWriteStream) (bs : Bytes) : Prop extends Wrote w w' bs where
  headed : w.Headed → w'.Headed

theorem appended_insertScalar {w : BinaryWriteStream} {bs : Bytes} (h : w.Room bs.length) :
    ∃ w', w.insertScalar bs = some w' ∧ w'.Headed ∧ Appended w w' bs := by
  have hwrote := (wrote_pushed bs).trans wrote_flushed h.low
  rw [List.append_nil] at hwrote
  exact ⟨_, insertScalar_eq h, headed_flushed _, hwrote, fun _ => headed_flushed _⟩

theorem appended_two {w w' : BinaryWriteStream} {bs cs : Bytes} (h : w.Room (bs.length + cs.length))
    (hwrote : Wrote (w.pushed bs) w' cs) :
    w'.flush = some w'.flushed ∧ Appended w w'.flushed (bs ++ cs) := by
  have hroom : (w.pushed bs).Room cs.length := (wrote_pushed bs).room h
  have hroom' : w'.Room 0 := hwrote.room hroom
  have hall := ((wrote_pushed bs).trans hwrote h.low).trans wrote_flushed h.low
  rw [List.append_nil] at hall
  exact ⟨flush_eq hroom', hall, fun _ => headed_flushed _⟩

theorem appended_insertLongLong {w : BinaryWriteStream} (i : BitVec 64) (h : w.Room 8) :
    ∃ w', w.insertLongLong i = some w' ∧
      Appended w w' (beInt (highHalf i) ++ beInt (lowHalf i)) := by
  have hlen : (beInt (highHalf i)).length + (beInt (lowHalf i)).length = 8 := by
    rw [beInt_length, beInt_length]
  rw [← hlen] at h
  have hhigh := writeScalar_eq (h.mono (Nat.le_add_right _ _))
  have hlow := writeScalar_eq ((wrote_pushed (beInt (highHalf i))).room h)
  obtain ⟨hflush, happ⟩ := appended_two h (wrote_pushed (beInt (lowHalf i)))
  refine ⟨_, ?_, happ⟩
  simp only [insertLongLong, writeInt, intBytes_eq, hhigh, hlow, hflush, Option.bind_eq_bind,
    Option.bind_some]

theorem shortLength_of_packable {s : Bytes} (h : (BitVec.ofNat 16 s.length).toNat < 2 ^ 15) :
    (BitVec.ofNat 16 s.length).toInt = (BitVec.ofNat 16 s.length).toNat := by
  rw [BitVec.toInt_eq_toNat_of_lt]
  omega

theorem encodeString_length (s : Bytes) :
    (encodeString s).length = 2 + (BitVec.ofNat 16 s.length).toNat := by
  rw [encodeString, List.length_append, beShort_length, List.length_take, BitVec.toNat_ofNat]
  have hle := Nat.mod_le s.length (2 ^ 16)
  omega

theorem appended_insertString {w : BinaryWriteStream} {s : Bytes}
    (hs : (BitVec.ofNat 16 s.length).toNat < 2 ^ 15) (h : w.Room (encodeString s).length) :
    ∃ w', w.insertString s = some w' ∧ Appended w w' (encodeString s) := by
  have hint := shortLength_of_packable hs
  have hsum := encodeString_length s
  set n := BitVec.ofNat 16 s.length with hn
  have htake : (s.take n.toNat).length = n.toNat := by
    have htotal := congrArg List.length (show encodeString s = beShort n ++ s.take n.toNat from rfl)
    rw [List.length_append, beShort_length] at htotal
    omega
  have hparts : (encodeString s).length = (beShort n).length + (s.take n.toNat).length := by
    rw [beShort_length, htake]
    exact hsum
  rw [hparts] at h
  have hahead : w.refusesString s = false := by
    have hhigh := h.high
    rw [beShort_length, htake] at hhigh
    rw [refusesString, ← hn, hint, decide_eq_false_iff_not]
    rw [show ((n.toNat : ℤ) + 2) = ((n.toNat + 2 : ℕ) : ℤ) by push_cast; rfl, ahead_eq (by omega)]
    omega
  have hcount := poke_eq (h.mono (Nat.le_add_right _ _))
  have hcontent := poke_eq ((wrote_pushed (beShort n)).room h)
  obtain ⟨hflush, happ⟩ := appended_two h (wrote_pushed (s.take n.toNat))
  have hnneg : ¬n.toInt < 0 := by
    rw [hint]
    omega
  refine ⟨_, ?_, happ⟩
  simp only [insertString, hahead, Bool.false_eq_true, if_false, copyString, writeLength,
    shortBytes_eq, ← hn, hcount, hcontent, hnneg, hflush, Option.bind_eq_bind, Option.bind_some]

theorem appended_insertMany {α : Type} {elem : α → BinaryWriteStream → Option BinaryWriteStream}
    {encode : α → Bytes} (xs : List α) (w : BinaryWriteStream)
    (helem : ∀ x ∈ xs, ∀ w : BinaryWriteStream, w.Room (encode x).length →
      ∃ w', elem x w = some w' ∧ Appended w w' (encode x))
    (h : w.Room (xs.flatMap encode).length) :
    ∃ w', insertMany elem xs w = some w' ∧ Wrote w w' (xs.flatMap encode) := by
  induction xs generalizing w with
  | nil => exact ⟨w, rfl, wrote_refl w⟩
  | cons x xs ih =>
    rw [List.flatMap_cons, List.length_append] at h
    rw [List.forall_mem_cons] at helem
    obtain ⟨w₁, hx, happ⟩ := helem.1 w (h.mono (Nat.le_add_right _ _))
    obtain ⟨w₂, hxs, hwrote⟩ := ih w₁ helem.2 (happ.room h)
    refine ⟨w₂, ?_, ?_⟩
    · rw [insertMany, hx, Option.bind_some, hxs]
    · rw [List.flatMap_cons]
      exact happ.toWrote.trans hwrote h.low

theorem appended_insertVector {α : Type} {elem : α → BinaryWriteStream → Option BinaryWriteStream}
    {encode : α → Bytes} (xs : List α) (w : BinaryWriteStream)
    (helem : ∀ x ∈ xs, ∀ w : BinaryWriteStream, w.Room (encode x).length →
      ∃ w', elem x w = some w' ∧ Appended w w' (encode x))
    (h : w.Room (beShort (BitVec.ofNat 16 xs.length) ++ xs.flatMap encode).length) :
    ∃ w', insertVector elem xs w = some w' ∧
      Appended w w' (beShort (BitVec.ofNat 16 xs.length) ++ xs.flatMap encode) := by
  rw [List.length_append] at h
  have hcount := writeScalar_eq (h.mono (Nat.le_add_right _ _))
  obtain ⟨w', hmany, hwrote⟩ := appended_insertMany xs _ helem ((wrote_pushed _).room h)
  obtain ⟨hflush, happ⟩ := appended_two h hwrote
  refine ⟨_, ?_, happ⟩
  simp only [insertVector, writeShort, shortBytes_eq, hcount, hmany, hflush, Option.bind_eq_bind,
    Option.bind_some]

end BinaryWriteStream

open BinaryWriteStream

mutual
theorem appended_insert : (t : Ty) → (v : t.Val) → t.Packable v → (w : BinaryWriteStream) →
    w.Room (t.encode v).length → ∃ w', t.insert v w = some w' ∧ Appended w w' (t.encode v)
  | .int, v, _, w, h => by
    obtain ⟨w', hw', -, happ⟩ := appended_insertScalar h
    exact ⟨w', (congrArg w.insertScalar (intBytes_eq v)).trans hw', happ⟩
  | .short, v, _, w, h => by
    obtain ⟨w', hw', -, happ⟩ := appended_insertScalar h
    exact ⟨w', (congrArg w.insertScalar (shortBytes_eq v)).trans hw', happ⟩
  | .char, v, _, w, h => by
    obtain ⟨w', hw', -, happ⟩ := appended_insertScalar h
    exact ⟨w', hw', happ⟩
  | .float, v, _, w, h => by
    obtain ⟨w', hw', -, happ⟩ := appended_insertScalar h
    exact ⟨w', (congrArg w.insertScalar (intBytes_eq v)).trans hw', happ⟩
  | .longlong, v, _, w, h => appended_insertLongLong v (by simpa [Ty.encode] using h)
  | .string, s, hp, w, h => appended_insertString hp h
  | .vector t, xs, hp, w, h =>
    appended_insertVector xs w (fun x hx w' => appended_insert t x (hp x hx) w') h
  | .struct fs, vs, hp, w, h => appended_pack fs vs hp w h
  | .msg id fs, vs, hp, w, h => by
    rw [Ty.encode, List.length_append] at h
    obtain ⟨w₁, hid, -, happ⟩ := appended_insertScalar (h.mono (Nat.le_add_right _ _))
    obtain ⟨w₂, hpack, happ'⟩ := appended_pack fs vs hp w₁ (happ.room h)
    refine ⟨w₂, ?_, happ.toWrote.trans happ'.toWrote h.low, fun hw => happ'.headed (happ.headed hw)⟩
    rw [Ty.insert, insertInt, intBytes_eq, hid, Option.bind_some, hpack]

theorem appended_pack : (fs : Fields) → (vs : fs.Vals) → fs.Packable vs → (w : BinaryWriteStream) →
    w.Room (fs.encode vs).length → ∃ w', fs.pack vs w = some w' ∧ Appended w w' (fs.encode vs)
  | .nil, _, _, w, _ => ⟨w, rfl, wrote_refl w, id⟩
  | .cons t fs, (v, vs), hp, w, h => by
    rw [Fields.encode, List.length_append] at h
    obtain ⟨w₁, hv, happ⟩ := appended_insert t v hp.1 w (h.mono (Nat.le_add_right _ _))
    obtain ⟨w₂, hvs, happ'⟩ := appended_pack fs vs hp.2 w₁ (happ.room h)
    refine ⟨w₂, ?_, happ.toWrote.trans happ'.toWrote h.low, fun hw => happ'.headed (happ.headed hw)⟩
    rw [Fields.pack, hv, Option.bind_some, hvs]
end

end GameRes.NetPack
