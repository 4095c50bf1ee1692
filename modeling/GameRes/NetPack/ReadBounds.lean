import GameRes.Library.Runs
import GameRes.NetPack.BinaryReadStream

/-!
# Reads inside the packet (netPack/commDef.cpp:248-530, commDef.hpp:219-244)

Scalar reads test their own width. The string reads test only the two length
bytes, and `ReadLength` tests two bytes and moves by four; where the declared
bytes, or the four, lie inside the packet, every read stays inside it.
-/

namespace GameRes.NetPack
open Library BinaryReadStream

/-- The public reads. `UnPack` of a record is `operator>>` at its type. -/
inductive ReadOp where
  | readInt
  | readShort
  | readChar
  | readString
  | readChars (strlen : ℕ)
  | readLength
  | readLengthWithoutOffset
  | extract (t : Ty) (v : t.Val)

def ReadOp.run : ReadOp → BinaryReadStream → BinaryReadStream
  | .readInt, s => s.readInt.2
  | .readShort, s => s.readShort.2
  | .readChar, s => s.readChar.2
  | .readString, s => s.readString.2
  | .readChars strlen, s => (s.readChars strlen).2
  | .readLength, s => s.readLength.2
  | .readLengthWithoutOffset, s => s.readLengthWithoutOffset.2
  | .extract t v, s => (t.extract v s).2

/-- Nothing outside the packet was read, and the cursor is inside. -/
structure InBounds (s : BinaryReadStream) : Prop where
  low : 4 ≤ s.cur
  high : s.cur ≤ s.len
  inside : s.overran = false

/-! ### When the reads fit -/

/-- A string at the cursor whose length bytes are inside the packet is inside whole. -/
def StringFits (s : BinaryReadStream) : Prop :=
  s.cur + 2 ≤ s.len → s.cur + 2 + declared s ≤ s.len

def ManyFit {α : Type} (elem : α → BinaryReadStream → α × BinaryReadStream)
    (fits : α → BinaryReadStream → Prop) : ℕ → α → BinaryReadStream → Prop
  | 0, _, _ => True
  | n + 1, temp, s => fits temp s ∧ ManyFit elem fits n (elem temp s).1 (elem temp s).2

def VectorFits {α : Type} (initial : BinaryReadStream → α × BinaryReadStream)
    (elem : α → BinaryReadStream → α × BinaryReadStream) (fits : α → BinaryReadStream → Prop)
    (s : BinaryReadStream) : Prop :=
  let junk := s.uninit
  let r := junk.2.readShort
  let vallen := r.1.getD (junk.1.setWidth 16)
  ¬(vallen.toInt < 0 ∨ 1000 < vallen.toInt) →
    ManyFit elem fits vallen.toNat (initial r.2).1 (initial r.2).2

mutual
def Ty.Fits : (t : Ty) → t.Val → BinaryReadStream → Prop
  | .string, _, s => StringFits s
  | .vector t, _, s => VectorFits t.initial t.extract t.Fits s
  | .struct fs, vs, s => fs.Fits vs s
  | .msg _ fs, vs, s => fs.Fits vs s
  | _, _, _ => True

def Fields.Fits : (fs : Fields) → fs.Vals → BinaryReadStream → Prop
  | .nil, _, _ => True
  | .cons t fs, (v, vs), s => t.Fits v s ∧ fs.Fits vs (t.extract v s).2
end

def ReadOp.Fits : ReadOp → BinaryReadStream → Prop
  | .readString, s => StringFits s
  | .readChars strlen, s => declared s ≤ strlen → StringFits s
  | .readLength, s => s.cur + 2 ≤ s.len → s.cur + 4 ≤ s.len
  | .extract t v, s => t.Fits v s
  | _, _ => True

/-! ### What a read does to the bounds -/

/-- A read that stays inside the packet exactly when `P` holds. -/
structure Bounded (P : Prop) (s s' : BinaryReadStream) : Prop where
  inside : InBounds s → P → InBounds s'
  outside : InBounds s → ¬P → s'.overran = true
  keeps : s.overran = true → s'.overran = true

theorem Bounded.refl (s : BinaryReadStream) : Bounded True s s :=
  ⟨fun h _ => h, fun _ h => absurd trivial h, id⟩

theorem Bounded.trans {P Q : Prop} {s s' s'' : BinaryReadStream} (h : Bounded P s s')
    (h' : Bounded Q s' s'') : Bounded (P ∧ Q) s s'' := by
  constructor
  · intro hs hpq
    exact h'.inside (h.inside hs hpq.1) hpq.2
  · intro hs hpq
    rcases Classical.em P with hp | hp
    · exact h'.outside (h.inside hs hp) fun hq => hpq ⟨hp, hq⟩
    · exact h'.keeps (h.outside hs hp)
  · intro hs
    exact h'.keeps (h.keeps hs)

theorem Bounded.congr {P Q : Prop} {s s' : BinaryReadStream} (h : Bounded P s s') (hpq : P ↔ Q) :
    Bounded Q s s' := by
  rw [← propext hpq]
  exact h

theorem bounded_uninit (s : BinaryReadStream) : Bounded True s s.uninit.2 :=
  ⟨fun h _ => ⟨h.low, h.high, h.inside⟩, fun _ h => absurd trivial h, id⟩

theorem bounded_scalar (s : BinaryReadStream) (n : ℕ) : Bounded True s (s.scalar n).2 := by
  unfold scalar
  split
  · exact Bounded.refl s
  · rename_i hfit
    refine ⟨fun h _ => ⟨?_, ?_, ?_⟩, fun _ h => absurd trivial h, ?_⟩
    · have hlow := h.low
      simp only [fetch]
      omega
    · simp only [fetch]
      omega
    · simp only [fetch, h.inside, Bool.false_or, decide_eq_false_iff_not]
      exact hfit
    · intro h
      simp only [fetch, h, Bool.true_or]

theorem bounded_content {s : BinaryReadStream} (n : ℕ) :
    Bounded (s.cur + 2 + n ≤ s.len) s ({ s with cur := s.cur + 2 }.fetch n).2 := by
  constructor
  · intro h hn
    have hlow := h.low
    refine ⟨?_, hn, ?_⟩
    · simp only [fetch]
      omega
    · simp only [fetch, h.inside, Bool.false_or, decide_eq_false_iff_not]
      omega
  · intro h hn
    simp only [fetch, Bool.or_eq_true, decide_eq_true_eq]
    right
    omega
  · intro h
    simp only [fetch, h, Bool.true_or]

theorem stringFits_of_lt {s : BinaryReadStream} (h : s.len < s.cur + 2) : StringFits s :=
  fun hle => absurd hle (by omega)

theorem stringFits_iff {s : BinaryReadStream} (h : s.cur + 2 ≤ s.len) :
    StringFits s ↔ s.cur + 2 + declared s ≤ s.len :=
  ⟨fun hs => hs h, fun hs _ => hs⟩

theorem bounded_extractString (str : Bytes) (s : BinaryReadStream) :
    Bounded (StringFits s) s (extractString str s).2 := by
  rcases Nat.lt_or_ge s.len (s.cur + 2) with hfit | hfit
  · simp only [extractString, lengthField_of_lt hfit]
    exact (Bounded.refl s).congr (iff_of_true trivial (stringFits_of_lt hfit))
  · simp only [extractString, lengthField_of_le hfit]
    exact (bounded_content (declared s)).congr (stringFits_iff hfit).symm

theorem bounded_extractLongLong (i : BitVec 64) (s : BinaryReadStream) :
    Bounded True s (extractLongLong i s).2 := by
  have hhigh : Bounded True s s.readInt.2 := bounded_scalar s 4
  unfold extractLongLong
  split
  · rename_i s₁ h₁
    rwa [h₁] at hhigh
  · rename_i high s₁ h₁
    rw [h₁] at hhigh
    have hlow : Bounded True s₁ s₁.readInt.2 := bounded_scalar s₁ 4
    split
    · rename_i s₂ h₂
      rw [h₂] at hlow
      exact (hhigh.trans hlow).congr (by simp)
    · rename_i low s₂ h₂
      rw [h₂] at hlow
      exact (hhigh.trans hlow).congr (by simp)

/-! ### Composite reads -/

theorem bounded_extractMany {α : Type} {elem : α → BinaryReadStream → α × BinaryReadStream}
    {fits : α → BinaryReadStream → Prop}
    (helem : ∀ temp s, Bounded (fits temp s) s (elem temp s).2) (n : ℕ) (temp : α)
    (s : BinaryReadStream) :
    Bounded (ManyFit elem fits n temp s) s (extractMany elem n temp s).2 := by
  induction n generalizing temp s with
  | zero => exact Bounded.refl s
  | succ n ih => exact (helem temp s).trans (ih (elem temp s).1 (elem temp s).2)

theorem bounded_extractVector {α : Type} {initial : BinaryReadStream → α × BinaryReadStream}
    {elem : α → BinaryReadStream → α × BinaryReadStream} {fits : α → BinaryReadStream → Prop}
    (hinitial : ∀ s, Bounded True s (initial s).2)
    (helem : ∀ temp s, Bounded (fits temp s) s (elem temp s).2) (s : BinaryReadStream) :
    Bounded (VectorFits initial elem fits s) s (extractVector initial elem s).2 := by
  have hcount := (bounded_uninit s).trans (bounded_scalar s.uninit.2 2)
  unfold extractVector VectorFits
  dsimp only
  split
  · rename_i hrange
    exact hcount.congr (by simp [hrange])
  · rename_i hrange
    have hmany := (hcount.trans (hinitial _)).trans (bounded_extractMany helem
      (BitVec.toNat (s.uninit.2.readShort.1.getD (s.uninit.1.setWidth 16)))
      (initial s.uninit.2.readShort.2).1 (initial s.uninit.2.readShort.2).2)
    exact hmany.congr (by simp [hrange])

mutual
theorem bounded_initial : (t : Ty) → (s : BinaryReadStream) → Bounded True s (t.initial s).2
  | .int, s => bounded_uninit s
  | .short, s => bounded_uninit s
  | .char, s => bounded_uninit s
  | .float, s => bounded_uninit s
  | .longlong, s => bounded_uninit s
  | .string, s => Bounded.refl s
  | .vector _, s => Bounded.refl s
  | .struct fs, s => bounded_initials fs s
  | .msg _ fs, s => bounded_initials fs s

theorem bounded_initials :
    (fs : Fields) → (s : BinaryReadStream) → Bounded True s (fs.initial s).2
  | .nil, s => Bounded.refl s
  | .cons t fs, s =>
    ((bounded_initial t s).trans (bounded_initials fs (t.initial s).2)).congr (by simp)
end

mutual
theorem bounded_extract :
    (t : Ty) → (v : t.Val) → (s : BinaryReadStream) → Bounded (t.Fits v s) s (t.extract v s).2
  | .int, _, s => bounded_scalar s 4
  | .short, _, s => bounded_scalar s 2
  | .char, _, s => bounded_scalar s 1
  | .float, _, s => bounded_scalar s 4
  | .longlong, i, s => bounded_extractLongLong i s
  | .string, str, s => bounded_extractString str s
  | .vector t, _, s => bounded_extractVector (bounded_initial t) (bounded_extract t) s
  | .struct fs, vs, s => bounded_unPack fs vs s
  | .msg _ fs, vs, s => bounded_unPack fs vs s

theorem bounded_unPack : (fs : Fields) → (vs : fs.Vals) → (s : BinaryReadStream) →
    Bounded (fs.Fits vs s) s (fs.unPack vs s).2
  | .nil, _, s => Bounded.refl s
  | .cons t fs, (v, vs), s => (bounded_extract t v s).trans (bounded_unPack fs vs (t.extract v s).2)
end

/-! ### Sequences of reads -/

def Reads (s : BinaryReadStream) (op : ReadOp) (s' : BinaryReadStream) : Prop := s' = op.run s

def received (bs : Bytes) : BinaryReadStream := { mem := fun i => bs.getD i 0, len := bs.length }

end GameRes.NetPack
