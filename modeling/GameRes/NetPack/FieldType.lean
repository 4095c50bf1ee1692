import GameRes.Library.Bytes

/-!
# Field types and their wire format (netPack/commDef.hpp:219-323, 450-1200)

`DEFINE_STRUCT_n` and `DEFINE_MSG_n` differ only in the number of their fields:
a record is a list of field types, and a message is a record with the `msgID`
that its constructor sets and nothing assigns later. `float` stands for its
32-bit pattern. The wire format is what `Pack` writes, without the stream.
-/

namespace GameRes.NetPack
open Library

mutual
inductive Ty where
  | int
  | short
  | char
  | float
  | longlong
  | string
  | vector (t : Ty)
  | struct (fs : Fields)
  | msg (id : BitVec 32) (fs : Fields)

inductive Fields where
  | nil
  | cons (t : Ty) (fs : Fields)
end

@[elab_as_elim]
theorem Fields.tailInduction {P : Fields → Prop} (nil : P .nil)
    (cons : ∀ t fs, P fs → P (.cons t fs)) : ∀ fs, P fs
  | .nil => nil
  | .cons t fs => cons t fs (Fields.tailInduction nil cons fs)

mutual
def Ty.Val : Ty → Type
  | .int => BitVec 32
  | .short => BitVec 16
  | .char => Byte
  | .float => BitVec 32
  | .longlong => BitVec 64
  | .string => Bytes
  | .vector t => List t.Val
  | .struct fs => fs.Vals
  | .msg _ fs => fs.Vals

def Fields.Vals : Fields → Type
  | .nil => Unit
  | .cons t fs => t.Val × fs.Vals
end

/-! ### Byte order

`htonl` and `ntohl` are the same byte swap on the little-endian machine, `htons`
and `ntohs` likewise; the `memcpy` on either side uses the order of the machine. -/

def htonl (v : BitVec 32) : BitVec 32 := BitVec.ofNat 32 (swapBytes 4 v.toNat)

def htons (v : BitVec 16) : BitVec 16 := BitVec.ofNat 16 (swapBytes 2 v.toNat)

def intBytes (v : BitVec 32) : Bytes := leBytes 4 (htonl v).toNat

def shortBytes (v : BitVec 16) : Bytes := leBytes 2 (htons v).toNat

def intOfBytes (bs : Bytes) : BitVec 32 := htonl (BitVec.ofNat 32 (leVal bs))

def shortOfBytes (bs : Bytes) : BitVec 16 := htons (BitVec.ofNat 16 (leVal bs))

def highHalf (v : BitVec 64) : BitVec 32 := (v >>> 32).setWidth 32

def lowHalf (v : BitVec 64) : BitVec 32 := v.setWidth 32

/-- What the reader puts together from two `int`s (`commDef.cpp:414-415`): the low half
is widened with its sign. -/
def joinHalves (high low : BitVec 32) : BitVec 64 :=
  (high.signExtend 64 <<< 32) ||| low.signExtend 64

/-! ### The wire format -/

def beInt (v : BitVec 32) : Bytes := beBytes 4 v.toNat

def beShort (v : BitVec 16) : Bytes := beBytes 2 v.toNat

/-- A string whose size does not fit a `short` loses the excess. -/
def encodeString (s : Bytes) : Bytes :=
  beShort (BitVec.ofNat 16 s.length) ++ s.take (BitVec.ofNat 16 s.length).toNat

mutual
def Ty.encode : (t : Ty) → t.Val → Bytes
  | .int, v => beInt v
  | .short, v => beShort v
  | .char, v => [v]
  | .float, v => beInt v
  | .longlong, v => beInt (highHalf v) ++ beInt (lowHalf v)
  | .string, s => encodeString s
  | .vector t, (xs : List t.Val) => beShort (BitVec.ofNat 16 xs.length) ++ xs.flatMap t.encode
  | .struct fs, vs => fs.encode vs
  | .msg id fs, vs => beInt id ++ fs.encode vs

def Fields.encode : (fs : Fields) → fs.Vals → Bytes
  | .nil, _ => []
  | .cons t fs, (v, vs) => t.encode v ++ fs.encode vs
end

@[simp] theorem beInt_length (v : BitVec 32) : (beInt v).length = 4 := beBytes_length 4 _

@[simp] theorem beShort_length (v : BitVec 16) : (beShort v).length = 2 := beBytes_length 2 _

theorem swap_toNat_lt (n : ℕ) (v : ℕ) : swapBytes n v < 256 ^ n := by
  have h := leVal_lt (beBytes n v)
  rwa [beBytes_length] at h

theorem intBytes_eq (v : BitVec 32) : intBytes v = beInt v := by
  have hlt : swapBytes 4 v.toNat < 2 ^ 32 := swap_toNat_lt 4 v.toNat
  rw [intBytes, htonl, BitVec.toNat_ofNat, Nat.mod_eq_of_lt hlt, leBytes_swapBytes, beInt]

theorem shortBytes_eq (v : BitVec 16) : shortBytes v = beShort v := by
  have hlt : swapBytes 2 v.toNat < 2 ^ 16 := swap_toNat_lt 2 v.toNat
  rw [shortBytes, htons, BitVec.toNat_ofNat, Nat.mod_eq_of_lt hlt, leBytes_swapBytes, beShort]

theorem intBytes_length (v : BitVec 32) : (intBytes v).length = 4 := leBytes_length 4 _

theorem shortBytes_length (v : BitVec 16) : (shortBytes v).length = 2 := leBytes_length 2 _

theorem intOfBytes_eq {bs : Bytes} (h : bs.length = 4) :
    intOfBytes bs = BitVec.ofNat 32 (beVal bs) := by
  have hlt := leVal_lt bs
  rw [h] at hlt
  rw [intOfBytes, htonl, BitVec.toNat_ofNat, Nat.mod_eq_of_lt (by omega), ← h, swapBytes_leVal]

theorem shortOfBytes_eq {bs : Bytes} (h : bs.length = 2) :
    shortOfBytes bs = BitVec.ofNat 16 (beVal bs) := by
  have hlt := leVal_lt bs
  rw [h] at hlt
  rw [shortOfBytes, htons, BitVec.toNat_ofNat, Nat.mod_eq_of_lt (by omega), ← h, swapBytes_leVal]

theorem intOfBytes_beInt (v : BitVec 32) : intOfBytes (beInt v) = v := by
  rw [intOfBytes_eq (beInt_length v), beInt, beVal_beBytes]
  apply BitVec.eq_of_toNat_eq
  rw [BitVec.toNat_ofNat]
  have hv := v.isLt
  omega

theorem shortOfBytes_beShort (v : BitVec 16) : shortOfBytes (beShort v) = v := by
  rw [shortOfBytes_eq (beShort_length v), beShort, beVal_beBytes]
  apply BitVec.eq_of_toNat_eq
  rw [BitVec.toNat_ofNat]
  have hv := v.isLt
  omega

end GameRes.NetPack
