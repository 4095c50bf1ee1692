import GameRes.Library.Memory
import GameRes.NetPack.FieldType

/-!
# `BinaryReadStream` (netPack/commDef.cpp:248-542, commDef.hpp:173-253)

The cursor is the offset `cur - ptr`, and the memory is what lies at and after
`ptr`, beyond the packet too. `junk` supplies what uninitialised locals hold;
`overran` records that a byte at or beyond `ptr + len` was read. Both are there
for the statements only. Sums with the cursor do not wrap here: a length has at most
16 bits, so one would only for a block in the last 64 KB of the addresses, while the
text streams read lengths with a sign.
-/

namespace GameRes.NetPack
open Library

structure BinaryReadStream where
  mem : ℕ → Byte
  len : ℕ
  cur : ℕ := 4
  junk : ℕ → BitVec 64 := fun _ => 0
  overran : Bool := false

namespace BinaryReadStream

def fetch (s : BinaryReadStream) (n : ℕ) : Bytes × BinaryReadStream :=
  (load s.mem s.cur n, { s with cur := s.cur + n, overran := s.overran || s.len < s.cur + n })

/-- The test, `memcpy` and advance shared by the scalar reads. -/
def scalar (s : BinaryReadStream) (n : ℕ) : Option Bytes × BinaryReadStream :=
  if s.len < s.cur + n then (none, s)
  else
    let r := s.fetch n
    (some r.1, r.2)

def uninit (s : BinaryReadStream) : BitVec 64 × BinaryReadStream :=
  (s.junk 0, { s with junk := fun n => s.junk (n + 1) })

/-! ### `Read` (commDef.cpp:264-364); `none` is the return value `false` -/

def readInt (s : BinaryReadStream) : Option (BitVec 32) × BinaryReadStream :=
  let r := s.scalar 4
  (r.1.map intOfBytes, r.2)

def readShort (s : BinaryReadStream) : Option (BitVec 16) × BinaryReadStream :=
  let r := s.scalar 2
  (r.1.map shortOfBytes, r.2)

def readChar (s : BinaryReadStream) : Option Byte × BinaryReadStream :=
  let r := s.scalar 1
  (r.1.bind List.head?, r.2)

def readLengthWithoutOffset (s : BinaryReadStream) : Option ℕ × BinaryReadStream :=
  let r := s.scalar 2
  (r.1.map fun bs => (shortOfBytes bs).toNat, { r.2 with cur := s.cur })

/-- The length field is two bytes wide and the cursor moves by four. -/
def readLength (s : BinaryReadStream) : Option ℕ × BinaryReadStream :=
  match s.readLengthWithoutOffset with
  | (none, s) => (none, s)
  | (some outlen, s) => (some outlen, { s with cur := s.cur + 4 })

def readString (s : BinaryReadStream) : Option Bytes × BinaryReadStream :=
  match s.readLengthWithoutOffset with
  | (none, s) => (none, s)
  | (some fieldlen, s) =>
    let r := { s with cur := s.cur + 2 }.fetch fieldlen
    (some r.1, r.2)

/-- `Read(char*, size_t, size_t&)` with a destination of `strlen` bytes. -/
def readChars (s : BinaryReadStream) (strlen : ℕ) : Option Bytes × BinaryReadStream :=
  match s.readLengthWithoutOffset with
  | (none, s) => (none, s)
  | (some fieldlen, s) =>
    if strlen < fieldlen then (none, s)
    else
      let r := { s with cur := s.cur + 2 }.fetch fieldlen
      (some r.1, r.2)

/-! ### `operator>>` (commDef.cpp:366-492); the argument keeps its value on failure -/

def extractInt (i : BitVec 32) (s : BinaryReadStream) : BitVec 32 × BinaryReadStream :=
  let r := s.scalar 4
  ((r.1.map intOfBytes).getD i, r.2)

def extractFloat (f : BitVec 32) (s : BinaryReadStream) : BitVec 32 × BinaryReadStream :=
  let r := s.scalar 4
  ((r.1.map intOfBytes).getD f, r.2)

def extractShort (i : BitVec 16) (s : BinaryReadStream) : BitVec 16 × BinaryReadStream :=
  let r := s.scalar 2
  ((r.1.map shortOfBytes).getD i, r.2)

def extractChar (c : Byte) (s : BinaryReadStream) : Byte × BinaryReadStream :=
  let r := s.scalar 1
  ((r.1.bind List.head?).getD c, r.2)

def extractLongLong (i : BitVec 64) (s : BinaryReadStream) : BitVec 64 × BinaryReadStream :=
  match s.readInt with
  | (none, s) => (i, s)
  | (some high, s) =>
    match s.readInt with
    | (none, s) => (i, s)
    | (some low, s) => (joinHalves high low, s)

def extractString (str : Bytes) (s : BinaryReadStream) : Bytes × BinaryReadStream :=
  match s.readLengthWithoutOffset with
  | (none, s) => (str, s)
  | (some fieldlen, s) => { s with cur := s.cur + 2 }.fetch fieldlen

/-- `n` turns of `*this >> temp; val.push_back(temp);`. -/
def extractMany {α : Type} (elem : α → BinaryReadStream → α × BinaryReadStream) :
    ℕ → α → BinaryReadStream → List α × BinaryReadStream
  | 0, _, s => ([], s)
  | n + 1, temp, s =>
    let r := elem temp s
    let rest := extractMany elem n r.1 r.2
    (r.1 :: rest.1, rest.2)

/-- `operator>>(std::vector<T>&)` (`commDef.hpp:219-237`); `initial` is `T temp;`. -/
def extractVector {α : Type} (initial : BinaryReadStream → α × BinaryReadStream)
    (elem : α → BinaryReadStream → α × BinaryReadStream) (s : BinaryReadStream) :
    List α × BinaryReadStream :=
  let junk := s.uninit
  let r := junk.2.readShort
  let vallen := r.1.getD (junk.1.setWidth 16)
  if vallen.toInt < 0 ∨ 1000 < vallen.toInt then ([], r.2)
  else
    let temp := initial r.2
    extractMany elem vallen.toNat temp.1 temp.2

def declared (s : BinaryReadStream) : ℕ := (shortOfBytes (load s.mem s.cur 2)).toNat

/-- `IsEnd` (`commDef.cpp:523-527`); `none` is a failed assertion. -/
def isEnd (s : BinaryReadStream) : Option Bool :=
  if s.cur ≤ s.len then some (s.cur = s.len) else none

/-! ### The reads on either side of their test -/

theorem fetch_of_le {s : BinaryReadStream} {n : ℕ} (h : s.cur + n ≤ s.len) :
    s.fetch n = (load s.mem s.cur n, { s with cur := s.cur + n }) := by
  have hn : ¬s.len < s.cur + n := by omega
  simp only [fetch, hn, decide_false, Bool.or_false]

theorem scalar_of_lt {s : BinaryReadStream} {n : ℕ} (h : s.len < s.cur + n) :
    s.scalar n = (none, s) := by
  simp only [scalar, if_pos h]

theorem scalar_of_le {s : BinaryReadStream} {n : ℕ} (h : s.cur + n ≤ s.len) :
    s.scalar n = (some (load s.mem s.cur n), { s with cur := s.cur + n }) := by
  have hn : ¬s.len < s.cur + n := by omega
  simp only [scalar, if_neg hn, fetch_of_le h]

theorem lengthField_of_lt {s : BinaryReadStream} (h : s.len < s.cur + 2) :
    s.readLengthWithoutOffset = (none, s) := by
  simp only [readLengthWithoutOffset, scalar_of_lt h, Option.map_none]

theorem lengthField_of_le {s : BinaryReadStream} (h : s.cur + 2 ≤ s.len) :
    s.readLengthWithoutOffset = (some (declared s), s) := by
  simp only [readLengthWithoutOffset, scalar_of_le h, Option.map_some, declared]

end BinaryReadStream

open BinaryReadStream

/-! ### Default-initialised fields -/

mutual
def Ty.initial : (t : Ty) → BinaryReadStream → t.Val × BinaryReadStream
  | .int, s => (s.uninit.1.setWidth 32, s.uninit.2)
  | .short, s => (s.uninit.1.setWidth 16, s.uninit.2)
  | .char, s => (s.uninit.1.setWidth 8, s.uninit.2)
  | .float, s => (s.uninit.1.setWidth 32, s.uninit.2)
  | .longlong, s => s.uninit
  | .string, s => (([] : Bytes), s)
  | .vector t, s => (([] : List t.Val), s)
  | .struct fs, s => fs.initial s
  | .msg _ fs, s => fs.initial s

def Fields.initial : (fs : Fields) → BinaryReadStream → fs.Vals × BinaryReadStream
  | .nil, s => ((), s)
  | .cons t fs, s =>
    let r := t.initial s
    let rs := fs.initial r.2
    ((r.1, rs.1), rs.2)
end

/-! ### `operator>>` by type, and the `UnPack` of the macros -/

mutual
def Ty.extract : (t : Ty) → t.Val → BinaryReadStream → t.Val × BinaryReadStream
  | .int, i, s => extractInt i s
  | .short, i, s => extractShort i s
  | .char, c, s => extractChar c s
  | .float, f, s => extractFloat f s
  | .longlong, i, s => extractLongLong i s
  | .string, str, s => extractString str s
  | .vector t, _, s => extractVector t.initial t.extract s
  | .struct fs, vs, s => fs.unPack vs s
  | .msg _ fs, vs, s => fs.unPack vs s

def Fields.unPack : (fs : Fields) → fs.Vals → BinaryReadStream → fs.Vals × BinaryReadStream
  | .nil, _, s => ((), s)
  | .cons t fs, (v, vs), s =>
    let r := t.extract v s
    let rs := fs.unPack vs r.2
    ((r.1, rs.1), rs.2)
end

end GameRes.NetPack
