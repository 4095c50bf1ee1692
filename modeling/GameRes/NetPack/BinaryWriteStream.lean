import GameRes.Library.Block
import GameRes.Library.Memory
import GameRes.NetPack.FieldType

/-!
# `BinaryWriteStream` (netPack/commDef.cpp:544-888, commDef.hpp:255-343)

The cursor is an address of the 32-bit machine, and the tests on it wrap as
pointer arithmetic does. A write outside the block is `none`. The capacity is a
parameter: the constructor's ten bytes are marked as to be replaced.
-/

namespace GameRes.NetPack
open Library

/-- The block lies inside the address space. -/
structure BinaryWriteStream where
  ptr : ℕ
  len : ℕ
  cur : ℕ
  mem : ℕ → Byte
  fits : ptr + len < 2 ^ 32

namespace BinaryWriteStream

def ahead (w : BinaryWriteStream) (n : ℤ) : ℕ := ((w.cur + n) % 2 ^ 32).toNat

def pushed (w : BinaryWriteStream) (bs : Bytes) : BinaryWriteStream :=
  { w with mem := store w.mem w.cur bs, cur := w.cur + bs.length }

def poke (w : BinaryWriteStream) (bs : Bytes) : Option BinaryWriteStream :=
  if w.ptr ≤ w.cur ∧ w.cur + bs.length ≤ w.ptr + w.len then some (w.pushed bs) else none

def getSize (w : BinaryWriteStream) : BitVec 32 := BitVec.ofNat 32 (w.cur + 2 ^ 32 - w.ptr)

/-- `Flush` (`commDef.cpp:860-876`): the size at the front of the block. -/
def flush (w : BinaryWriteStream) : Option BinaryWriteStream :=
  if 4 ≤ w.len then some { w with mem := store w.mem w.ptr (intBytes w.getSize) } else none

def clear (w : BinaryWriteStream) : BinaryWriteStream := { w with cur := (w.ptr + 4) % 2 ^ 32 }

/-- `Seek` (`commDef.cpp:838-846`); a large argument is a step back. -/
def seek (w : BinaryWriteStream) (length : BitVec 32) : Bool × BinaryWriteStream :=
  if w.ptr + w.len < w.ahead length.toNat ∨ w.ahead length.toNat < (w.ptr + 4) % 2 ^ 32 then
    (false, w)
  else (true, { w with cur := w.ahead length.toNat })

/-! ### `Write` (commDef.cpp:559-679) -/

/-- The test, `memcpy` and advance shared by the scalar writes. -/
def writeScalar (w : BinaryWriteStream) (bs : Bytes) : Option (Bool × BinaryWriteStream) :=
  if w.ptr + w.len < w.ahead bs.length then some (false, w)
  else (w.poke bs).map fun w => (true, w)

def writeFloat (w : BinaryWriteStream) (f : BitVec 32) : Option (Bool × BinaryWriteStream) :=
  w.writeScalar (intBytes f)

def writeInt (w : BinaryWriteStream) (i : BitVec 32) : Option (Bool × BinaryWriteStream) :=
  w.writeScalar (intBytes i)

def writeShort (w : BinaryWriteStream) (i : BitVec 16) : Option (Bool × BinaryWriteStream) :=
  w.writeScalar (shortBytes i)

def writeChar (w : BinaryWriteStream) (c : Byte) : Option (Bool × BinaryWriteStream) :=
  w.writeScalar [c]

def writeUnsignedChar (w : BinaryWriteStream) (c : Byte) : Option (Bool × BinaryWriteStream) :=
  w.writeScalar [c]

/-- `WriteLength` (`commDef.cpp:817-835`) tests nothing. -/
def writeLength (w : BinaryWriteStream) (length : BitVec 16) : Option BinaryWriteStream :=
  w.poke (shortBytes length)

def refusesBytes (w : BinaryWriteStream) (length : BitVec 32) : Bool :=
  w.ptr + w.len < w.ahead (length.toNat + 2)

/-- `Write(const char*, size_t)`; `str` is the block behind the pointer. -/
def writeBytes (w : BinaryWriteStream) (str : Bytes) (length : BitVec 32) :
    Option (Bool × BinaryWriteStream) :=
  if w.refusesBytes length then some (false, w)
  else do
    let w ← w.writeLength (length.setWidth 16)
    let content ← readBlock str 0 length.toNat
    let w ← w.poke content
    some (true, w)

/-- `WriteNoLength` (`commDef.cpp:575-585`) tests for a length it does not write. -/
def writeNoLength (w : BinaryWriteStream) (str : Bytes) (length : BitVec 32) :
    Option (Bool × BinaryWriteStream) :=
  if w.ptr + w.len < w.ahead (length.toNat + 4) then some (false, w)
  else do
    let content ← readBlock str 0 length.toNat
    let w ← w.poke content
    some (true, w)

/-- The string writes keep the size in a `short`; a negative one makes `memcpy`
copy almost the whole address space. -/
def copyString (w : BinaryWriteStream) (str : Bytes) : Option BinaryWriteStream := do
  let length := BitVec.ofNat 16 str.length
  let w ← w.writeLength length
  if length.toInt < 0 then none else w.poke (str.take length.toNat)

def refusesString (w : BinaryWriteStream) (str : Bytes) : Bool :=
  w.ptr + w.len < w.ahead ((BitVec.ofNat 16 str.length).toInt + 2)

def writeString (w : BinaryWriteStream) (str : Bytes) : Option (Bool × BinaryWriteStream) :=
  if w.refusesString str then some (false, w)
  else (w.copyString str).map fun w => (true, w)

/-! ### `operator<<` (commDef.cpp:681-809); a refused value leaves the stream alone -/

def insertScalar (w : BinaryWriteStream) (bs : Bytes) : Option BinaryWriteStream :=
  if w.ptr + w.len < w.ahead bs.length then some w
  else (w.poke bs).bind flush

def insertInt (w : BinaryWriteStream) (i : BitVec 32) : Option BinaryWriteStream :=
  w.insertScalar (intBytes i)

def insertFloat (w : BinaryWriteStream) (f : BitVec 32) : Option BinaryWriteStream :=
  w.insertScalar (intBytes f)

def insertShort (w : BinaryWriteStream) (i : BitVec 16) : Option BinaryWriteStream :=
  w.insertScalar (shortBytes i)

def insertChar (w : BinaryWriteStream) (c : Byte) : Option BinaryWriteStream :=
  w.insertScalar [c]

def insertUnsignedChar (w : BinaryWriteStream) (c : Byte) : Option BinaryWriteStream :=
  w.insertScalar [c]

def insertLongLong (w : BinaryWriteStream) (i : BitVec 64) : Option BinaryWriteStream := do
  let high ← w.writeInt (highHalf i)
  let low ← high.2.writeInt (lowHalf i)
  low.2.flush

def insertString (w : BinaryWriteStream) (str : Bytes) : Option BinaryWriteStream :=
  if w.refusesString str then some w
  else (w.copyString str).bind flush

/-- `*this << (*it)` for every element. -/
def insertMany {α : Type} (elem : α → BinaryWriteStream → Option BinaryWriteStream) :
    List α → BinaryWriteStream → Option BinaryWriteStream
  | [], w => some w
  | x :: xs, w => (elem x w).bind (insertMany elem xs)

/-- `operator<<(const std::vector<T>&)` (`commDef.hpp:299-317`). -/
def insertVector {α : Type} (elem : α → BinaryWriteStream → Option BinaryWriteStream)
    (xs : List α) (w : BinaryWriteStream) : Option BinaryWriteStream := do
  let vallen ← w.writeShort (BitVec.ofNat 16 xs.length)
  let w ← insertMany elem xs vallen.2
  w.flush

end BinaryWriteStream

open BinaryWriteStream

/-! ### `operator<<` by type, and the `Pack` of the macros -/

mutual
def Ty.insert : (t : Ty) → t.Val → BinaryWriteStream → Option BinaryWriteStream
  | .int, i, w => w.insertInt i
  | .short, i, w => w.insertShort i
  | .char, c, w => w.insertChar c
  | .float, f, w => w.insertFloat f
  | .longlong, i, w => w.insertLongLong i
  | .string, str, w => w.insertString str
  | .vector t, xs, w => insertVector t.insert xs w
  | .struct fs, vs, w => fs.pack vs w
  | .msg id fs, vs, w => (w.insertInt id).bind (fs.pack vs)

def Fields.pack : (fs : Fields) → fs.Vals → BinaryWriteStream → Option BinaryWriteStream
  | .nil, _, w => some w
  | .cons t fs, (v, vs), w => (t.insert v w).bind (fs.pack vs)
end

namespace BinaryWriteStream

/-! ### The writes with room -/

structure Room (w : BinaryWriteStream) (n : ℕ) : Prop where
  low : w.ptr + 4 ≤ w.cur
  high : w.cur + n ≤ w.ptr + w.len

/-- The first four bytes are the size. -/
def Headed (w : BinaryWriteStream) : Prop := load w.mem w.ptr 4 = beInt w.getSize

/-- `bs` was written behind what was there, at most the header besides. -/
structure Wrote (w w' : BinaryWriteStream) (bs : Bytes) : Prop where
  ptr : w'.ptr = w.ptr
  len : w'.len = w.len
  cur : w'.cur = w.cur + bs.length
  written : load w'.mem w.cur bs.length = bs
  kept : ∀ i, w.ptr + 4 ≤ i → i < w.cur → w'.mem i = w.mem i

theorem Room.mono {w : BinaryWriteStream} {m n : ℕ} (h : w.Room n) (hmn : m ≤ n) : w.Room m :=
  ⟨h.low, by have := h.high; omega⟩

theorem ahead_eq {w : BinaryWriteStream} {n : ℕ} (h : w.cur + n ≤ w.ptr + w.len) :
    w.ahead n = w.cur + n := by
  have hfits := w.fits
  rw [ahead]
  omega

theorem poke_eq {w : BinaryWriteStream} {bs : Bytes} (h : w.Room bs.length) :
    w.poke bs = some (w.pushed bs) := by
  have hlow := h.low
  have hhigh := h.high
  rw [poke, if_pos ⟨by omega, hhigh⟩]

theorem writeScalar_eq {w : BinaryWriteStream} {bs : Bytes} (h : w.Room bs.length) :
    w.writeScalar bs = some (true, w.pushed bs) := by
  have hn : ¬w.ptr + w.len < w.ahead bs.length := by
    rw [ahead_eq h.high]
    exact Nat.not_lt.mpr h.high
  rw [writeScalar, if_neg hn, poke_eq h, Option.map_some]

def flushed (w : BinaryWriteStream) : BinaryWriteStream :=
  { w with mem := store w.mem w.ptr (beInt w.getSize) }

theorem flush_eq {w : BinaryWriteStream} {n : ℕ} (h : w.Room n) : w.flush = some w.flushed := by
  have hlow := h.low
  have hhigh := h.high
  rw [flush, if_pos (by omega), intBytes_eq]
  rfl

theorem headed_flushed (w : BinaryWriteStream) : w.flushed.Headed := by
  have h := load_store w.mem w.ptr (beInt w.getSize)
  rwa [beInt_length] at h

theorem flushed_mem {w : BinaryWriteStream} {i : ℕ} (h : w.ptr + 4 ≤ i) :
    w.flushed.mem i = w.mem i := by
  apply store_of_not_mem
  right
  rw [beInt_length]
  exact h

theorem pushed_mem {w : BinaryWriteStream} {bs : Bytes} {i : ℕ} (h : i < w.cur) :
    (w.pushed bs).mem i = w.mem i :=
  store_of_not_mem (Or.inl h)

theorem wrote_pushed {w : BinaryWriteStream} (bs : Bytes) : Wrote w (w.pushed bs) bs := by
  refine ⟨rfl, rfl, rfl, load_store w.mem w.cur bs, ?_⟩
  intro i _ hcur
  exact pushed_mem hcur

theorem wrote_flushed {w : BinaryWriteStream} : Wrote w w.flushed [] := by
  refine ⟨rfl, rfl, rfl, rfl, ?_⟩
  intro i hi _
  exact flushed_mem hi

theorem wrote_refl (w : BinaryWriteStream) : Wrote w w [] := ⟨rfl, rfl, rfl, rfl, fun _ _ _ => rfl⟩

theorem Wrote.trans {w w₁ w₂ : BinaryWriteStream} {bs cs : Bytes} (h : Wrote w w₁ bs)
    (h' : Wrote w₁ w₂ cs) (hlow : w.ptr + 4 ≤ w.cur) : Wrote w w₂ (bs ++ cs) := by
  have hkept : ∀ i, w.ptr + 4 ≤ i → i < w.cur + bs.length → w₂.mem i = w₁.mem i := by
    intro i hi hcur
    apply h'.kept
    · rw [h.ptr]
      exact hi
    · rw [h.cur]
      exact hcur
  refine ⟨h'.ptr.trans h.ptr, h'.len.trans h.len, ?_, ?_, ?_⟩
  · rw [h'.cur, h.cur, List.length_append, Nat.add_assoc]
  · have hfirst : load w₂.mem w.cur bs.length = load w₁.mem w.cur bs.length := by
      apply load_congr
      intro i hi hlt
      exact hkept i (by omega) hlt
    rw [List.length_append, load_append, ← h.cur, h'.written, hfirst, h.written]
  · intro i hi hcur
    rw [hkept i hi (by omega)]
    exact h.kept i hi hcur

theorem Wrote.room {w w₁ : BinaryWriteStream} {bs : Bytes} {n : ℕ} (h : Wrote w w₁ bs)
    (hroom : w.Room (bs.length + n)) : w₁.Room n := by
  have hlow := hroom.low
  have hhigh := hroom.high
  constructor
  · rw [h.ptr, h.cur]
    omega
  · rw [h.ptr, h.cur, h.len]
    omega

theorem insertScalar_eq {w : BinaryWriteStream} {bs : Bytes} (h : w.Room bs.length) :
    w.insertScalar bs = some (w.pushed bs).flushed := by
  have hn : ¬w.ptr + w.len < w.ahead bs.length := by
    rw [ahead_eq h.high]
    exact Nat.not_lt.mpr h.high
  have hroom : (w.pushed bs).Room 0 := (wrote_pushed bs).room h
  rw [insertScalar, if_neg hn, poke_eq h, Option.bind_some, flush_eq hroom]

end BinaryWriteStream
end GameRes.NetPack
