import GameRes.Library.Memory
import GameRes.Library.Numerals

/-!
# The text streams, both versions (netPack/commDef.cpp:11-244, 891-1135)

`TextWriteStream` and `TextWriteStream2` differ in the width of the length
prefix and in what they store in the header; the readers differ in what a
refused field does to the cursor. The cursor is the offset `cur - ptr`, and a
comparison of pointers wraps as on the 32-bit machine. `none` is an access
outside the block.
-/

namespace GameRes.NetPack
open Library

/-- The constants of one version (`commDef.hpp:66-76`): digits of a length prefix,
digits asked of `snprintf`, whether a field that fails late gives its prefix back,
the largest payload, and what the header counts besides the payload. -/
structure TextFormat where
  packlen : ℕ
  minwidth : ℕ
  restore : Bool
  maxlen : ℕ
  counted : ℕ
  packlen_ne_zero : packlen ≠ 0 := by decide
  packlen_le : packlen ≤ 6 := by decide
  minwidth_le : minwidth ≤ packlen := by decide

def textFormat : TextFormat where
  packlen := 4
  minwidth := 0
  restore := true
  maxlen := 0xffff
  counted := 0

def textFormat2 : TextFormat where
  packlen := 6
  minwidth := 6
  restore := false
  maxlen := 0xffffff
  counted := 6

/-- Memory from `ptr` on, the block being its first `len` bytes. -/
structure TextWriter where
  ptr : ℕ
  len : ℕ
  mem : ℕ → Byte
  cur : ℕ
  fits : ptr + len < 2 ^ 32

structure TextReader where
  ptr : ℕ
  len : ℕ
  mem : ℕ → Byte
  cur : ℕ

/-! ### Writing (commDef.cpp:132-244, 1017-1135) -/

namespace TextWriter

def beyond (s : TextWriter) (n : ℕ) : Bool := s.ptr + s.len < (s.ptr + s.cur + n) % 2 ^ 32

def poke (s : TextWriter) (off : ℕ) (src : Bytes) : Option TextWriter :=
  if off + src.length ≤ s.len then some { s with mem := store s.mem off src } else none

def writeContent (s : TextWriter) (str : Bytes) : Option (Bool × TextWriter) :=
  (s.poke s.cur str).map fun t => (true, { t with cur := s.cur + str.length })

def writeLength (f : TextFormat) (s : TextWriter) (length : ℕ) : Option (Bool × TextWriter) :=
  let lengthstr := snprintf 32 (hexText f.minwidth length)
  if lengthstr.length > f.packlen then some (false, s)
  else s.writeContent (lengthstr.leftpad f.packlen (digitChar 0))

def write (f : TextFormat) (s : TextWriter) (str : Bytes) : Option (Bool × TextWriter) :=
  if s.beyond (f.packlen + str.length) then some (false, s)
  else
    match s.writeLength f str.length with
    | none => none
    | some (false, s) => some (false, s)
    | some (true, s) =>
      match s.writeContent str with
      | none => none
      | some (true, s) => some (true, s)
      | some (false, s) =>
        some (false, if f.restore then { s with cur := s.cur - f.packlen } else s)

def isValid (f : TextFormat) (s : TextWriter) : Bool :=
  0 < s.cur - f.packlen ∧ s.cur - f.packlen ≤ f.maxlen

def flush (f : TextFormat) (s : TextWriter) : Option TextWriter :=
  let datalen := s.cur - f.packlen
  let lenstr := snprintf (f.packlen + 1) (hexText f.packlen (datalen + f.counted))
  s.poke 0 (lenstr.take f.packlen)

def getSize (s : TextWriter) : ℕ := s.cur

end TextWriter

namespace TextWriteStream
open TextWriter

def write (s : TextWriter) (str : Bytes) := s.write textFormat str
def writeInt (s : TextWriter) (i : BitVec 32) := write s (snprintf 32 (intText i.toInt))
def writeShort (s : TextWriter) (i : BitVec 16) := write s (snprintf 32 (intText i.toInt))
def writeChar (s : TextWriter) (c : Byte) := write s [c]
def isValid (s : TextWriter) := s.isValid textFormat
def flush (s : TextWriter) := s.flush textFormat
def clear (s : TextWriter) : TextWriter := { s with cur := 4 }

end TextWriteStream

namespace TextWriteStream2
open TextWriter

def write (s : TextWriter) (str : Bytes) := s.write textFormat2 str
def writeInt (s : TextWriter) (i : BitVec 32) := write s (snprintf 32 (intText i.toInt))
def writeShort (s : TextWriter) (i : BitVec 16) := write s (snprintf 32 (intText i.toInt))
def writeChar (s : TextWriter) (c : Byte) := write s [c]
def isValid (s : TextWriter) := s.isValid textFormat2
def flush (s : TextWriter) := s.flush textFormat2
def clear (s : TextWriter) : TextWriter := { s with cur := 6 }

end TextWriteStream2

/-! ### Reading (commDef.cpp:11-130, 894-1015); the inner `none` is the return value `false` -/

namespace TextReader

def beyond (s : TextReader) (n : ℕ) : Bool := s.ptr + s.len < (s.ptr + s.cur + n) % 2 ^ 32

def peek (s : TextReader) (n : ℕ) : Option Bytes :=
  if s.cur + n ≤ s.len then some (load s.mem s.cur n) else none

/-- `strtol` gives a `long`, the length is a `size_t`. -/
def readLengthWithoutOffset (f : TextFormat) (s : TextReader) : Option (Option ℕ) :=
  if s.beyond f.packlen then some none
  else (s.peek f.packlen).map fun lenstr => some (strtol 16 lenstr % 2 ^ 32).toNat

def readContent (s : TextReader) (maxlen : ℕ) : Option (Option Bytes × TextReader) :=
  if s.beyond maxlen then some (none, s)
  else (s.peek maxlen).map fun str => (some str, { s with cur := s.cur + maxlen })

/-- `Read(char*, size_t, size_t&)` with a destination of `strlen` bytes. -/
def read (f : TextFormat) (s : TextReader) (strlen : ℕ) : Option (Option Bytes × TextReader) :=
  match s.readLengthWithoutOffset f with
  | none => none
  | some none => some (none, s)
  | some (some fieldlen) =>
    if strlen < fieldlen then some (none, s)
    else
      match { s with cur := s.cur + f.packlen }.readContent fieldlen with
      | none => none
      | some (some str, t) => some (some str, t)
      | some (none, t) =>
        some (none, if f.restore then { t with cur := t.cur - f.packlen } else t)

def readLength (f : TextFormat) (s : TextReader) : Option (Option ℕ × TextReader) :=
  (s.readLengthWithoutOffset f).map fun r =>
    match r with
    | none => (none, s)
    | some outlen => (some outlen, { s with cur := s.cur + f.packlen })

/-- `IsEnd`; `none` is a failed assertion. -/
def isEnd (s : TextReader) : Option Bool :=
  if s.cur ≤ s.len then some (s.cur = s.len) else none

end TextReader

/-- `atoi` up to the terminating zero, as `strtol` in base ten. -/
def atoi (text : Bytes) : BitVec 32 := BitVec.ofInt 32 (strtol 10 text)

namespace TextReadStream

def read (s : TextReader) (strlen : ℕ) := s.read textFormat strlen

def readInt (s : TextReader) : Option (Option (BitVec 32) × TextReader) :=
  (read s 31).map fun r => (r.1.map atoi, r.2)

def readShort (s : TextReader) : Option (Option (BitVec 16) × TextReader) :=
  (readInt s).map fun r => (r.1.map fun i => i.setWidth 16, r.2)

/-- A field without a character leaves `c` as it is. -/
def readChar (s : TextReader) (c : Byte) : Option (Option Byte × TextReader) :=
  (read s 1).map fun r => (r.1.map fun str => str.head?.getD c, r.2)

end TextReadStream

namespace TextReadStream2

def read (s : TextReader) (strlen : ℕ) := s.read textFormat2 strlen

def readInt (s : TextReader) : Option (Option (BitVec 32) × TextReader) :=
  (read s 31).map fun r => (r.1.map atoi, r.2)

def readShort (s : TextReader) : Option (Option (BitVec 16) × TextReader) :=
  (read s 31).map fun r => (r.1.map fun intstr => (atoi intstr).setWidth 16, r.2)

def readChar (s : TextReader) (c : Byte) : Option (Option Byte × TextReader) :=
  (read s 1).map fun r => (r.1.map fun str => str.head?.getD c, r.2)

end TextReadStream2

end GameRes.NetPack
