import GameRes.Library.Block

/-!
# The growing message buffer (NetApp/Buffer.h)

A `std::vector<uint8_t>` with a read and a write position. Inserting grows the
vector when it is too short, extracting past the vector gives zero and still
moves the read position. `none` is an access outside the vector. Floating-point
values are their bit patterns. What is inserted lies in memory beside the vector, so
that no sum with its size wraps a `size_t`; the sums that the reads test may.
-/

namespace GameRes.NetApp
open Library

structure MessageBuffer where
  buffer : Bytes
  rpos : ℕ
  wpos : ℕ
  deriving Repr, DecidableEq

def messageMaxLength : ℕ := 1024 * 4

/-- `std::vector::resize`; new elements are zero. -/
def resizeBlock (block : Bytes) (n : ℕ) : Bytes := block.take n ++ zeroBlock (n - block.length)

theorem resizeBlock_length (block : Bytes) (n : ℕ) : (resizeBlock block n).length = n := by
  simp only [resizeBlock, List.length_append, List.length_take, zeroBlock_length]
  omega

theorem resizeBlock_of_le {block : Bytes} {n : ℕ} (h : block.length ≤ n) :
    resizeBlock block n = block ++ zeroBlock (n - block.length) := by
  rw [resizeBlock, List.take_of_length_le h]

/-- `std::isfinite` on the bits of a `float`: the exponent is not all ones. -/
def isFiniteFloat (value : BitVec 32) : Bool := value.extractLsb' 23 8 ≠ 0xff

def isFiniteDouble (value : BitVec 64) : Bool := value.extractLsb' 52 11 ≠ 0x7ff

/-- The sum of two `size_t`. -/
def sizeAdd (m n : ℕ) : ℕ := (m + n) % 2 ^ 32

theorem sizeAdd_le (m n : ℕ) : sizeAdd m n ≤ m + n := Nat.mod_le _ _

namespace MessageBuffer

def fresh : MessageBuffer := ⟨resizeBlock [] messageMaxLength, 0, 0⟩

def reset (b : MessageBuffer) : MessageBuffer := { b with wpos := 0, rpos := 0 }

def getBufferSize (b : MessageBuffer) : ℕ := b.buffer.length

/-! ### Inserting (Buffer.h:108-206) -/

def grown (b : MessageBuffer) (cnt : ℕ) : Bytes :=
  if b.buffer.length < b.wpos + cnt then resizeBlock b.buffer (b.wpos + cnt) else b.buffer

def append (b : MessageBuffer) (src : Bytes) : Option MessageBuffer :=
  if src.length = 0 then some b
  else
    (writeBlock (b.grown src.length) b.wpos src).map fun buffer =>
      { b with buffer := buffer, wpos := b.wpos + src.length }

/-- `append<T>` of a `T` of `n` bytes whose value is `v`. -/
def appendWord (b : MessageBuffer) (n v : ℕ) : Option MessageBuffer := b.append (leBytes n v)

def insertUint8 (b : MessageBuffer) (value : BitVec 8) := b.appendWord 1 value.toNat
def insertInt8 (b : MessageBuffer) (value : BitVec 8) := b.appendWord 1 value.toNat
def insertUint16 (b : MessageBuffer) (value : BitVec 16) := b.appendWord 2 (swapBytes 2 value.toNat)
def insertInt16 (b : MessageBuffer) (value : BitVec 16) := b.appendWord 2 (swapBytes 2 value.toNat)
def insertInt (b : MessageBuffer) (value : BitVec 32) := b.appendWord 4 (swapBytes 4 value.toNat)
def insertUint64 (b : MessageBuffer) (value : BitVec 64) := b.appendWord 8 (swapBytes 8 value.toNat)
def insertInt64 (b : MessageBuffer) (value : BitVec 64) := b.appendWord 8 (swapBytes 8 value.toNat)
def insertFloat (b : MessageBuffer) (value : BitVec 32) := b.appendWord 4 value.toNat
def insertDouble (b : MessageBuffer) (value : BitVec 64) := b.appendWord 8 value.toNat

def insertString (b : MessageBuffer) (value : Bytes) : Option MessageBuffer := do
  let b ← if value.length ≠ 0 then b.append value else some b
  b.appendWord 1 0

/-! ### Extracting (Buffer.h:218-339) -/

/-- `read<T>(pos)` for a `T` of `n` bytes. -/
def readAt (b : MessageBuffer) (n pos : ℕ) : Option Bytes :=
  if sizeAdd pos n > b.getBufferSize then some (zeroBlock n) else readBlock b.buffer pos n

/-- `read<T>()`: the bytes read, and the buffer with the position moved on. -/
def read (b : MessageBuffer) (n : ℕ) : Option (Bytes × MessageBuffer) :=
  (b.readAt n b.rpos).map fun bytes => (bytes, { b with rpos := b.rpos + n })

/-- `operator>>` without byte swap, and with it. -/
def readWord (b : MessageBuffer) (n : ℕ) : Option (ℕ × MessageBuffer) :=
  (b.read n).map fun r => (leVal r.1, r.2)

def readSwapped (b : MessageBuffer) (n : ℕ) : Option (ℕ × MessageBuffer) :=
  (b.read n).map fun r => (swapBytes n (leVal r.1), r.2)

def extractUint8 (b : MessageBuffer) := (b.readWord 1).map fun r => (BitVec.ofNat 8 r.1, r.2)
def extractInt8 (b : MessageBuffer) := (b.readWord 1).map fun r => (BitVec.ofNat 8 r.1, r.2)
def extractUint16 (b : MessageBuffer) := (b.readSwapped 2).map fun r => (BitVec.ofNat 16 r.1, r.2)
def extractInt16 (b : MessageBuffer) := (b.readSwapped 2).map fun r => (BitVec.ofNat 16 r.1, r.2)
def extractInt (b : MessageBuffer) := (b.readSwapped 4).map fun r => (BitVec.ofNat 32 r.1, r.2)
def extractUint64 (b : MessageBuffer) := (b.readSwapped 8).map fun r => (BitVec.ofNat 64 r.1, r.2)
def extractInt64 (b : MessageBuffer) := (b.readSwapped 8).map fun r => (BitVec.ofNat 64 r.1, r.2)

/-- `operator>>(float&)`; `value` is what the variable held before. -/
def extractFloat (b : MessageBuffer) (value : BitVec 32) : Option (BitVec 32 × MessageBuffer) :=
  (b.readWord 4).map fun r =>
    (if isFiniteFloat (BitVec.ofNat 32 r.1) then BitVec.ofNat 32 r.1 else value, r.2)

def extractDouble (b : MessageBuffer) (value : BitVec 64) : Option (BitVec 64 × MessageBuffer) :=
  (b.readWord 8).map fun r =>
    (if isFiniteDouble (BitVec.ofNat 64 r.1) then BitVec.ofNat 64 r.1 else value, r.2)

/-- The loop of `operator>>(std::string&)` with `left` bytes up to the end of the vector. -/
def scanString : ℕ → MessageBuffer → Bytes → Option (Bytes × MessageBuffer)
  | 0, b, value => some (value, b)
  | left + 1, b, value =>
    match b.read 1 with
    | none => none
    | some r => if leVal r.1 = 0 then some (value, r.2) else scanString left r.2 (value ++ r.1)

def extractString (b : MessageBuffer) : Option (Bytes × MessageBuffer) :=
  scanString (b.getBufferSize - b.rpos) b []

/-! ### Single operations -/

def appended (b : MessageBuffer) (src : Bytes) : MessageBuffer :=
  { b with
    buffer := b.buffer.take b.wpos ++ src ++ b.buffer.drop (b.wpos + src.length)
    wpos := b.wpos + src.length }

theorem grown_length (b : MessageBuffer) (cnt : ℕ) : b.wpos + cnt ≤ (b.grown cnt).length := by
  unfold grown
  split
  next => exact (resizeBlock_length _ _).ge
  next hroom => exact Nat.not_lt.mp hroom

theorem grown_take {b : MessageBuffer} (h : b.wpos ≤ b.buffer.length) (cnt : ℕ) :
    (b.grown cnt).take b.wpos = b.buffer.take b.wpos := by
  unfold grown
  split
  next hshort => rw [resizeBlock_of_le hshort.le, List.take_append_of_le_length h]
  next => rfl

theorem grown_drop (b : MessageBuffer) (cnt : ℕ) :
    (b.grown cnt).drop (b.wpos + cnt) = b.buffer.drop (b.wpos + cnt) := by
  unfold grown
  split
  next hshort =>
    -- A vector that grows ends where the new bytes end.
    have hlen := resizeBlock_length b.buffer (b.wpos + cnt)
    rw [List.drop_of_length_le hlen.le, List.drop_of_length_le hshort.le]
  next => rfl

theorem append_eq {b : MessageBuffer} (h : b.wpos ≤ b.buffer.length) (src : Bytes) :
    b.append src = some (b.appended src) := by
  unfold append
  split
  next hnil =>
    have hsrc := List.eq_nil_of_length_eq_zero hnil
    simp only [appended, hsrc, List.append_nil, List.length_nil, Nat.add_zero,
      List.take_append_drop]
  next =>
    rw [writeBlock_of_le (b.grown_length src.length), Option.map_some, grown_take h, grown_drop,
      appended]

theorem appendWord_eq {b : MessageBuffer} (h : b.wpos ≤ b.buffer.length) (n v : ℕ) :
    b.appendWord n v = some (b.appended (leBytes n v)) :=
  append_eq h (leBytes n v)

theorem appended_take {b : MessageBuffer} (h : b.wpos ≤ b.buffer.length) (src : Bytes) :
    (b.appended src).buffer.take (b.appended src).wpos = b.buffer.take b.wpos ++ src := by
  have hlen : (b.buffer.take b.wpos ++ src).length = b.wpos + src.length := by
    simp only [List.length_append, List.length_take]
    omega
  simp only [appended]
  exact List.take_left' hlen

theorem appended_fits {b : MessageBuffer} (h : b.wpos ≤ b.buffer.length) (src : Bytes) :
    (b.appended src).wpos ≤ (b.appended src).buffer.length := by
  simp only [appended, List.length_append, List.length_take]
  omega

theorem appended_appended {b : MessageBuffer} (h : b.wpos ≤ b.buffer.length) (src more : Bytes) :
    (b.appended src).appended more = b.appended (src ++ more) := by
  have hlen : (b.buffer.take b.wpos ++ src).length = b.wpos + src.length := by
    simp only [List.length_append, List.length_take]
    omega
  have htake := appended_take h src
  have hdrop : (b.appended src).buffer.drop (b.wpos + src.length + more.length) =
      b.buffer.drop (b.wpos + src.length + more.length) := by
    rw [appended, ← List.drop_drop, List.drop_left' hlen, List.drop_drop]
  rw [appended, htake]
  simp only [appended] at hdrop ⊢
  rw [hdrop, List.length_append, ← List.append_assoc, Nat.add_assoc]

theorem read_of_le {b : MessageBuffer} {n : ℕ} (h : b.rpos + n ≤ b.buffer.length) :
    b.read n = some ((b.buffer.drop b.rpos).take n, { b with rpos := b.rpos + n }) := by
  have hguard : ¬(sizeAdd b.rpos n > b.getBufferSize) := Nat.not_lt.mpr ((sizeAdd_le _ _).trans h)
  simp only [read, readAt, hguard, ite_false, readBlock_of_le h, Option.map_some]

theorem read_eq {b : MessageBuffer} {before src behind : Bytes}
    (hbuf : b.buffer = before ++ src ++ behind) (hpos : b.rpos = before.length) :
    b.read src.length = some (src, { b with rpos := b.rpos + src.length }) := by
  have hle : b.rpos + src.length ≤ b.buffer.length := by
    simp only [hbuf, hpos, List.length_append]
    omega
  rw [read_of_le hle, hbuf, hpos, List.append_assoc, List.drop_left, List.take_left]

theorem readWord_eq {b : MessageBuffer} {n v : ℕ} {before behind : Bytes}
    (hbuf : b.buffer = before ++ leBytes n v ++ behind) (hpos : b.rpos = before.length) :
    b.readWord n = some (v % 256 ^ n, { b with rpos := b.rpos + n }) := by
  have hread := read_eq hbuf hpos
  rw [leBytes_length] at hread
  rw [readWord, hread, Option.map_some, leVal_leBytes]

theorem readSwapped_eq {b : MessageBuffer} {n v : ℕ} {before behind : Bytes}
    (hbuf : b.buffer = before ++ leBytes n (swapBytes n v) ++ behind)
    (hpos : b.rpos = before.length) :
    b.readSwapped n = some (v % 256 ^ n, { b with rpos := b.rpos + n }) := by
  rw [leBytes_swapBytes] at hbuf
  have hread := read_eq hbuf hpos
  have hswap := swapBytes_leVal (beBytes n v)
  rw [beBytes_length] at hread hswap
  rw [readSwapped, hread, Option.map_some, hswap, beVal_beBytes]

end MessageBuffer
end GameRes.NetApp
