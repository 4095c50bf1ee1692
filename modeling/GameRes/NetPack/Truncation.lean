import GameRes.NetPack.RoundTrip
import GameRes.NetPack.ShortPacket

/-!
# Messages cut short (netPack/commDef.cpp:366-492, commDef.hpp:219-244, 889-937)

`operator>>` reports a failure only by leaving its argument alone, so the fields
behind the cut are still read from whatever bytes are left. What a truncated
message unpacks to is settled field by field: a field before the cut is read, the
field at the cut is not, and every later one has to find too few bytes.
-/

namespace GameRes.NetPack
open Library BinaryReadStream BinaryWriteStream

def Fields.Skip : Fields → ℕ → Prop
  | .nil, _ => True
  | .cons t fs, r => r < t.need ∧ fs.Skip r

/-- An empty vector in place of a count that the reader rejects. -/
def Ty.Emptied : (t : Ty) → t.Val → Bytes → Prop
  | .vector t, xs, rest => (xs : List t.Val) = [] ∧ 2 ≤ rest.length ∧
      1000 < (shortOfBytes (rest.take 2)).toNat
  | _, _, _ => False

def Ty.Resumes (t : Ty) (v : t.Val) (rest : Bytes) : Prop :=
  (t.encode v <+: rest ∧ t.Decodable v) ∨ t.Emptied v rest

/-- The bytes left over read as values of the next fields, as far as they suffice. -/
def Fields.Resumed : (fs : Fields) → fs.Vals → Bytes → Prop
  | .nil, _, _ => True
  | .cons t fs, (v, vs), rest => (rest.length < t.need ∧ fs.Skip rest.length) ∨
      (t.Resumes v rest ∧ fs.Resumed vs (rest.drop (t.encode v).length))

/-- All elements behind the first `k` equal the last one of these. -/
def Repeats {α : Type} (xs : List α) (k : ℕ) : Prop :=
  ∀ x ∈ xs.drop k, (xs.take k).getLast? = some x

/-- The cut behind the first `a` bytes of a field. -/
def Ty.CutAt : (t : Ty) → t.Val → ℕ → (fs : Fields) → fs.Vals → Prop
  | .longlong, _, a, fs, _ => fs.Skip (a % 4)
  | .string, _, a, fs, _ => a < 2 ∧ fs.Skip a
  | .vector .int, xs, a, fs, vs => 2 ≤ a ∧ List.length xs ≤ 1000 ∧ Repeats xs ((a - 2) / 4) ∧
      fs.Resumed vs (((encodeInts xs).take a).drop (2 + 4 * ((a - 2) / 4)))
  | _, _, a, fs, _ => fs.Skip a

def Fields.Cut : (fs : Fields) → fs.Vals → ℕ → Prop
  | .nil, _, _ => True
  | .cons t fs, (v, vs), a =>
    if (t.encode v).length ≤ a then t.Decodable v ∧ fs.Cut vs (a - (t.encode v).length)
    else t.CutAt v a fs vs

/-! ### Unpacking at a cursor -/

def Fields.Kept (fs : Fields) (bs : Bytes) (c : ℕ) : Prop :=
  ∀ prev s, Over bs c s → (fs.unPack prev s).1 = prev

section
variable {t : Ty} {fs : Fields} {v x : t.Val} {vs : fs.Vals} {bs : Bytes} {c c' : ℕ}

end

/-! ### Behind the cut -/

section
variable {bs : Bytes} {c : ℕ}

end

/-! ### Prefixes of a packed message -/

end GameRes.NetPack
