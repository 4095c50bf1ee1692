import GameRes.NetPack.Packing
import GameRes.NetPack.Unpacking

/-!
# What `Pack` wrote, `UnPack` reads (netPack/commDef.cpp:364-492, 681-876, commDef.hpp:889-937)

`Clear` puts the cursor behind the header, `Pack` appends the wire format of the
message and keeps the header at the size, and a reader over the written bytes
stands before that same wire format.
-/

namespace GameRes.NetPack
open Library

/-! ### The values that both sides agree on -/

/-- Strings whose size is positive as a `short`, vectors that the reader accepts, and
no `long long`, whose low half is read back with its sign. -/
def Ty.Carried : (t : Ty) → t.Val → Prop
  | .int, _ => True
  | .short, _ => True
  | .char, _ => True
  | .float, _ => True
  | .string, s => List.length s ≤ 32767
  | .vector .int, xs => List.length xs ≤ 1000
  | _, _ => False

def Fields.Carried : (fs : Fields) → fs.Vals → Prop
  | .nil, _ => True
  | .cons t fs, (v, vs) => t.Carried v ∧ fs.Carried vs

theorem carried_survives (t : Ty) (v : t.Val) (h : t.Carried v) : t.Packable v ∧ t.Decodable v := by
  cases t with
  | int => exact ⟨trivial, trivial⟩
  | short => exact ⟨trivial, trivial⟩
  | char => exact ⟨trivial, trivial⟩
  | float => exact ⟨trivial, trivial⟩
  | longlong => exact absurd h id
  | string =>
    have hlen : List.length v ≤ 32767 := h
    constructor
    · change (BitVec.ofNat 16 (List.length v)).toNat < 2 ^ 15
      rw [BitVec.toNat_ofNat]
      omega
    · change List.length v < 2 ^ 16
      omega
  | vector t =>
    cases t with
    | int => exact ⟨fun _ _ => trivial, h, fun _ _ => trivial⟩
    | _ => exact absurd h id
  | struct fs => exact absurd h id
  | msg id fs => exact absurd h fun h => h

theorem fields_carried_survive (fs : Fields) (vs : fs.Vals) (h : fs.Carried vs) :
    fs.Packable vs ∧ fs.Decodable vs := by
  induction fs using Fields.tailInduction with
  | nil => exact ⟨trivial, trivial⟩
  | cons t fs ih =>
    obtain ⟨hpack, hdecode⟩ := carried_survives t vs.1 h.1
    obtain ⟨hpacks, hdecodes⟩ := ih vs.2 h.2
    exact ⟨⟨hpack, hpacks⟩, hdecode, hdecodes⟩

/-! ### From one stream to the other -/

namespace BinaryWriteStream

/-- `BinaryReadStream(GetData(), GetSize())`. -/
def reader (w : BinaryWriteStream) (junk : ℕ → BitVec 64) : BinaryReadStream :=
  { mem := fun i => w.mem (w.ptr + i), len := w.getSize.toNat, junk := junk }

theorem load_reader (w : BinaryWriteStream) (junk : ℕ → BitVec 64) (a n : ℕ) :
    load (w.reader junk).mem a n = load w.mem (w.ptr + a) n := by
  simp only [load, reader, Nat.add_assoc]

theorem clear_cur {w : BinaryWriteStream} (h : 4 ≤ w.len) : w.clear.cur = w.ptr + 4 := by
  have hfits := w.fits
  simp only [clear]
  omega

theorem room_clear {w : BinaryWriteStream} {n : ℕ} (h : 4 + n ≤ w.len) : w.clear.Room n := by
  have hcur := clear_cur (w := w) (by omega)
  constructor
  · exact hcur.ge
  · rw [hcur]
    change w.ptr + 4 + n ≤ w.ptr + w.len
    omega

theorem getSize_toNat {w : BinaryWriteStream} {n : ℕ} (hcur : w.cur = w.ptr + n)
    (hn : n ≤ w.len) : w.getSize.toNat = n := by
  have hfits := w.fits
  rw [getSize, BitVec.toNat_ofNat]
  omega

theorem Headed.beVal_eq {w : BinaryWriteStream} (h : w.Headed) :
    beVal (load w.mem w.ptr 4) = w.getSize.toNat := by
  have hlt : w.getSize.toNat < 256 ^ 4 := w.getSize.isLt
  rw [h, beInt, beVal_beBytes, Nat.mod_eq_of_lt hlt]

theorem before_reader {w w' : BinaryWriteStream} {bs : Bytes} (junk : ℕ → BitVec 64)
    (hroom : 4 + bs.length ≤ w.len) (hwrote : Wrote w.clear w' bs) :
    (w'.reader junk).Before bs ∧ (w'.reader junk).len = 4 + bs.length := by
  have hclear := clear_cur (w := w) (by omega)
  have hptr : w'.ptr = w.ptr := hwrote.ptr
  have hlen : w'.len = w.len := hwrote.len
  have hcur : w'.cur = w'.ptr + (4 + bs.length) := by
    rw [hwrote.cur, hclear, hptr]
    omega
  have hsize : (w'.reader junk).len = 4 + bs.length := getSize_toNat hcur (by omega)
  refine ⟨⟨hsize.ge, ?_⟩, hsize⟩
  have hwritten := hwrote.written
  rw [hclear] at hwritten
  rw [load_reader, hptr]
  exact hwritten

end BinaryWriteStream

open BinaryWriteStream BinaryReadStream

theorem pack_unPack (id : BitVec 32) (fs : Fields) (vs prev : fs.Vals) (w : BinaryWriteStream)
    (junk : ℕ → BitVec 64) (hpack : fs.Packable vs) (hdecode : fs.Decodable vs)
    (hroom : 4 + ((Ty.msg id fs).encode vs).length ≤ w.len) :
    ∃ w', (Ty.msg id fs).insert vs w.clear = some w' ∧ w'.Headed ∧
      ∃ s, (w'.reader junk).readInt = (some id, s) ∧ (fs.unPack prev s).1 = vs ∧
        (fs.unPack prev s).2.isEnd = some true := by
  have hencode : (Ty.msg id fs).encode vs = beInt id ++ fs.encode vs := rfl
  have hspace := room_clear hroom
  rw [hencode, List.length_append] at hspace
  obtain ⟨w₁, hid, hheaded, hfirst⟩ := appended_insertScalar (hspace.mono (Nat.le_add_right _ _))
  obtain ⟨w', hrest, happ⟩ := appended_pack fs vs hpack w₁ (hfirst.room hspace)
  have hwrote := hfirst.toWrote.trans happ.toWrote hspace.low
  obtain ⟨hbefore, hlen⟩ := before_reader junk hroom hwrote
  have hread := readInt_before hbefore.left
  have hfields := hbefore.right (w'.reader junk).junk
  rw [beInt_length] at hfields
  obtain ⟨j, hunPack⟩ := unPack_before fs vs hdecode prev _ hfields
  refine ⟨w', ?_, happ.headed hheaded, _, hread, ?_, ?_⟩
  · change (w.clear.insertScalar (intBytes id)).bind (fs.pack vs) = some w'
    rw [intBytes_eq, hid, Option.bind_some, hrest]
  · rw [hunPack]
  · have hend : 4 + 4 + (fs.encode vs).length = (w'.reader junk).len := by
      rw [hlen, hencode, List.length_append, beInt_length]
      omega
    rw [hunPack, moved_moved, isEnd]
    change (if 4 + (4 + (fs.encode vs).length) ≤ (w'.reader junk).len then _ else _) = _
    rw [if_pos (by omega)]
    change some (decide (4 + (4 + (fs.encode vs).length) = (w'.reader junk).len)) = _
    rw [decide_eq_true (by omega)]

/-- A packed message comes back whole, with its size in front and nothing left over. -/
theorem message_roundTrip (id : BitVec 32) (fs : Fields) (vs prev : fs.Vals) (w : BinaryWriteStream)
    (junk : ℕ → BitVec 64) (hvs : fs.Carried vs)
    (hroom : 4 + ((Ty.msg id fs).encode vs).length ≤ w.len) :
    ∃ w', (Ty.msg id fs).insert vs w.clear = some w' ∧
      beVal (load w'.mem w'.ptr 4) = w'.getSize.toNat ∧
      ∃ s, (w'.reader junk).readInt = (some id, s) ∧ (fs.unPack prev s).1 = vs ∧
        (fs.unPack prev s).2.isEnd = some true := by
  obtain ⟨hpack, hdecode⟩ := fields_carried_survive fs vs hvs
  obtain ⟨w', hinsert, hheaded, hread⟩ := pack_unPack id fs vs prev w junk hpack hdecode hroom
  exact ⟨w', hinsert, hheaded.beVal_eq, hread⟩

/-- `DEFINE_MSG_2(GSObjectDisappear, 1, ...)` (`MessageBuf.hpp:100-102`). -/
def gsObjectDisappear : Fields := .cons .int (.cons (.vector .int) .nil)

theorem message_roundTrip_disappear :
    ∃ w', (Ty.msg 1 gsObjectDisappear).insert ((2 : BitVec 32), ([7, 9] : List (BitVec 32)), ())
        (BinaryWriteStream.mk 4096 64 4096 (fun _ => 0) (by decide)).clear = some w' ∧
      beVal (load w'.mem w'.ptr 4) = w'.getSize.toNat ∧
      ∃ s, (w'.reader fun _ => 0).readInt = (some 1, s) ∧
        (gsObjectDisappear.unPack ((0 : BitVec 32), ([] : List (BitVec 32)), ()) s).1 =
          ((2 : BitVec 32), ([7, 9] : List (BitVec 32)), ()) ∧
        (gsObjectDisappear.unPack ((0 : BitVec 32), ([] : List (BitVec 32)), ()) s).2.isEnd =
          some true :=
  message_roundTrip 1 gsObjectDisappear _ _ _ _ ⟨trivial, Nat.le_of_ble_eq_true rfl, trivial⟩ (by decide)

end GameRes.NetPack
