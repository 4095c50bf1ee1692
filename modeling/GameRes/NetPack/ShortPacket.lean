import Mathlib.Data.List.GetD
import GameRes.NetPack.Unpacking

/-!
# Reading at the end of a packet (netPack/commDef.cpp:366-492, commDef.hpp:219-237)

`Over bs c` are the readers over the packet `bs` with the cursor at `c`; what lies
behind the packet, and what uninitialised locals hold, is up to them. A read at
`c` leaves its variable alone, or reads a value, or puts in a value that depends
on the reader but not on the variable.
-/

namespace GameRes.NetPack
open Library BinaryReadStream

structure Over (bs : Bytes) (c : ℕ) (s : BinaryReadStream) : Prop where
  cur : s.cur = c
  len : s.len = bs.length
  bytes : load s.mem 0 bs.length = bs

section
variable {bs : Bytes} {c : ℕ} {s : BinaryReadStream}

theorem Over.load_eq (h : Over bs c s) (n : ℕ) (hn : c + n ≤ bs.length) :
    load s.mem c n = (bs.drop c).take n := by
  have hbytes := load_eq_iff.mp h.bytes
  apply List.ext_getElem
  · rw [load_length, List.length_take, List.length_drop]
    omega
  · intro i hi _
    rw [load_length] at hi
    have hbyte := hbytes (c + i) (by omega)
    rw [Nat.zero_add] at hbyte
    simp only [load, List.getElem_map, List.getElem_range, List.getElem_take, List.getElem_drop,
      hbyte]

theorem Over.before (h : Over bs c s) {xs : Bytes} (hc : c ≤ bs.length) (hxs : xs <+: bs.drop c) :
    s.Before xs := by
  have hlen := hxs.length_le
  rw [List.length_drop] at hlen
  constructor
  · rw [h.cur, h.len]
    omega
  · rw [h.cur, h.load_eq xs.length (by omega)]
    exact (List.prefix_iff_eq_take.mp hxs).symm

theorem Over.moved (h : Over bs c s) (n : ℕ) (junk : ℕ → BitVec 64) :
    Over bs (c + n) (s.moved n junk) :=
  ⟨congrArg (· + n) h.cur, h.len, h.bytes⟩

theorem Over.at (h : Over bs c s) (c' : ℕ) : Over bs c' { s with cur := c' } :=
  ⟨rfl, h.len, h.bytes⟩

end

/-! ### The three outcomes of a read -/

section
variable {α : Type} {f : α → BinaryReadStream → α × BinaryReadStream} {bs : Bytes} {c c' : ℕ}

end

/-! ### Field types of the messages -/

def Ty.Plain : Ty → Prop
  | .int => True
  | .short => True
  | .char => True
  | .float => True
  | .longlong => True
  | .string => True
  | .vector .int => True
  | _ => False

def Fields.Plain : Fields → Prop
  | .nil => True
  | .cons t fs => t.Plain ∧ fs.Plain

/-- The bytes that have to be left before `operator>>` touches its argument; a vector
is cleared in any case. -/
def Ty.need : Ty → ℕ
  | .char => 1
  | .short => 2
  | .string => 2
  | .vector _ => 0
  | _ => 4

/-! ### Too few bytes -/

theorem extractString_of_lt {s : BinaryReadStream} (str : Bytes) (h : s.len < s.cur + 2) :
    extractString str s = (str, s) := by
  simp only [extractString, lengthField_of_lt h]

section
variable {bs : Bytes} {c : ℕ}

end

/-! ### Vectors -/

theorem rejects_iff (n : BitVec 16) : (n.toInt < 0 ∨ 1000 < n.toInt) ↔ 1000 < n.toNat := by
  have hn := n.isLt
  rw [BitVec.toInt_eq_toNat_cond]
  split <;> omega

theorem extractMany_length {α : Type} (elem : α → BinaryReadStream → α × BinaryReadStream) (n : ℕ)
    (temp : α) (s : BinaryReadStream) : (extractMany elem n temp s).1.length = n := by
  induction n generalizing temp s with
  | zero => rfl
  | succ n ih => simp only [extractMany, List.length_cons, ih]

section
variable {α : Type} {initial : BinaryReadStream → α × BinaryReadStream}
  {elem : α → BinaryReadStream → α × BinaryReadStream} {s : BinaryReadStream}

def counted (s : BinaryReadStream) : BinaryReadStream := s.moved 2 fun i => s.junk (i + 1)

theorem extractVector_counted {n : BitVec 16} (hn : n.toNat ≤ 1000) (h : s.Before (beShort n)) :
    extractVector initial elem s =
      extractMany elem n.toNat (initial (counted s)).1 (initial (counted s)).2 := by
  have hcount : s.uninit.2.readShort = (some n, s.uninit.2.moved 2 s.uninit.2.junk) :=
    readShort_before ⟨h.inside, h.bytes⟩
  have hle : ¬1000 < n.toNat := Nat.not_lt.mpr hn
  simp only [extractVector, hcount, Option.getD_some, rejects_iff, hle, if_false]
  rfl

end

def extractInts (s : BinaryReadStream) : List (BitVec 32) × BinaryReadStream :=
  extractVector (fun s => (s.uninit.1.setWidth 32, s.uninit.2)) extractInt s

section
variable {bs : Bytes} {c : ℕ}

theorem ints_length (xs : List (BitVec 32)) : (xs.flatMap beInt).length = 4 * xs.length := by
  induction xs with
  | nil => rfl
  | cons x xs ih =>
    rw [List.flatMap_cons, List.length_append, beInt_length, ih, List.length_cons]
    omega

def encodeInts (xs : List (BitVec 32)) : Bytes :=
  beShort (BitVec.ofNat 16 xs.length) ++ xs.flatMap beInt

theorem encodeInts_length (xs : List (BitVec 32)) : (encodeInts xs).length = 2 + 4 * xs.length := by
  rw [encodeInts, List.length_append, beShort_length, ints_length]

end

end GameRes.NetPack
