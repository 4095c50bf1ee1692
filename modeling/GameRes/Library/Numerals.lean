import GameRes.Library.Bytes
import Mathlib.Data.List.TakeWhile

/-!
# Numbers as text

What the C library prints for an integer (`%x` and `%d`, with zero padding) and
what `strtol` reads: spaces, a sign, for base sixteen the mark `0x`, then digits
up to the first other character, in a `long` of 32 bits.
-/

namespace GameRes.Library

/-- The character of a digit, letters in lower case. -/
def digitChar (d : ℕ) : Byte := BitVec.ofNat 8 (if d < 10 then 48 + d else 87 + d)

/-- The value of a digit or letter, 36 for every other character. -/
def charDigit (b : Byte) : ℕ :=
  if 48 ≤ b.toNat ∧ b.toNat ≤ 57 then b.toNat - 48
  else if 97 ≤ b.toNat ∧ b.toNat ≤ 122 then b.toNat - 87
  else if 65 ≤ b.toNat ∧ b.toNat ≤ 90 then b.toNat - 55
  else 36

def isDigit (base : ℕ) (b : Byte) : Bool := charDigit b < base

def isSpace (b : Byte) : Bool := b.toNat = 32 ∨ 9 ≤ b.toNat ∧ b.toNat ≤ 13

/-! ### Printing -/

def natText (base n : ℕ) : Bytes :=
  if n = 0 then [digitChar 0] else (base.digits n).reverse.map digitChar

def intText (i : ℤ) : Bytes :=
  if i < 0 then 45 :: natText 10 i.natAbs else natText 10 i.natAbs

/-- `%zx` padded with zeros to `width` characters. -/
def hexText (width n : ℕ) : Bytes := (natText 16 n).leftpad width (digitChar 0)

/-- The characters `snprintf` leaves in front of the zero in `size` bytes. -/
def snprintf (size : ℕ) (text : Bytes) : Bytes := text.take (size - 1)

/-! ### Reading -/

def digitsValue (base : ℕ) (text : Bytes) : ℕ :=
  (text.takeWhile (isDigit base)).foldl (fun acc b => acc * base + charDigit b) 0

/-- The mark `0x` is skipped only when a digit follows it. -/
def skipMark : Bytes → Bytes
  | z :: x :: d :: rest =>
    if z = 48 ∧ (x = 120 ∨ x = 88) ∧ isDigit 16 d then d :: rest else z :: x :: d :: rest
  | text => text

def unsignedValue (base : ℕ) (text : Bytes) : ℕ :=
  digitsValue base (if base = 16 then skipMark text else text)

def signedValue (base : ℕ) : Bytes → ℤ
  | [] => 0
  | b :: rest =>
    if b = 45 then -unsignedValue base rest
    else if b = 43 then unsignedValue base rest
    else unsignedValue base (b :: rest)

/-- A value out of range becomes the nearest `long`. -/
def clampLong (i : ℤ) : ℤ := max (-2 ^ 31) (min (2 ^ 31 - 1) i)

def strtol (base : ℕ) (text : Bytes) : ℤ := clampLong (signedValue base (text.dropWhile isSpace))

theorem clampLong_of_mem {i : ℤ} (hlow : -2 ^ 31 ≤ i) (hhigh : i < 2 ^ 31) : clampLong i = i := by
  rw [clampLong, min_eq_right (by omega), max_eq_right hlow]

/-! ### Digits -/

theorem charDigit_digitChar : ∀ d < 36, charDigit (digitChar d) = d := by decide

theorem isDigit_digitChar {base d : ℕ} (hbase : base ≤ 36) (hd : d < base) :
    isDigit base (digitChar d) = true := by
  rw [isDigit, charDigit_digitChar d (by omega)]
  exact decide_eq_true hd

theorem le_of_isDigit {base : ℕ} (hbase : base ≤ 36) {b : Byte} (h : isDigit base b = true) :
    48 ≤ b.toNat := by
  by_contra hlow
  have hother : charDigit b = 36 := by
    rw [charDigit, if_neg (by omega), if_neg (by omega), if_neg (by omega)]
  rw [isDigit, hother, decide_eq_true_eq] at h
  omega

theorem isSpace_of_isDigit {base : ℕ} (hbase : base ≤ 36) {b : Byte} (h : isDigit base b = true) :
    ¬isSpace b = true := by
  have hlow := le_of_isDigit hbase h
  simp only [isSpace, decide_eq_true_eq]
  omega

theorem ne_sign_of_isDigit {base : ℕ} (hbase : base ≤ 36) {b : Byte} (h : isDigit base b = true) :
    b ≠ 45 ∧ b ≠ 43 := by
  have hlow := le_of_isDigit hbase h
  constructor
  · intro hb
    rw [hb] at hlow
    exact absurd hlow (by decide)
  · intro hb
    rw [hb] at hlow
    exact absurd hlow (by decide)

theorem skipMark_digits {text : Bytes} (h : ∀ b ∈ text, isDigit 16 b = true) :
    skipMark text = text := by
  unfold skipMark
  split
  next z x d rest =>
    have hx := h x (by simp)
    rw [if_neg]
    intro hmark
    obtain hlower | hupper := hmark.2.1
    · rw [hlower] at hx
      exact absurd hx (by decide)
    · rw [hupper] at hx
      exact absurd hx (by decide)
  next => rfl

theorem unsignedValue_digits {base : ℕ} {text : Bytes} (h : ∀ b ∈ text, isDigit base b = true) :
    unsignedValue base text = digitsValue base text := by
  unfold unsignedValue
  split
  next hbase => rw [skipMark_digits (hbase ▸ h)]
  next => rfl

theorem strtol_digits {base : ℕ} (hbase : base ≤ 36) {text : Bytes}
    (h : ∀ b ∈ text, isDigit base b = true) :
    strtol base text = clampLong (digitsValue base text) := by
  cases text with
  | nil => rfl
  | cons b rest =>
    have hb := h b List.mem_cons_self
    have hspace := isSpace_of_isDigit hbase hb
    obtain ⟨hminus, hplus⟩ := ne_sign_of_isDigit hbase hb
    rw [strtol, List.dropWhile_cons_of_neg hspace, signedValue, if_neg hminus,
      if_neg hplus, unsignedValue_digits h]

theorem strtol_minus {base : ℕ} {text : Bytes} (h : ∀ b ∈ text, isDigit base b = true) :
    strtol base (45 :: text) = clampLong (-digitsValue base text) := by
  have hspace : ¬isSpace 45 = true := by decide
  rw [strtol, List.dropWhile_cons_of_neg hspace, signedValue, if_pos rfl,
    unsignedValue_digits h]

/-! ### What was printed is read back -/

theorem natText_digits {base : ℕ} (hbase : 1 < base) (hle : base ≤ 36) (n : ℕ) :
    ∀ b ∈ natText base n, isDigit base b = true := by
  intro b hb
  unfold natText at hb
  split at hb
  next =>
    rw [List.mem_singleton.mp hb]
    exact isDigit_digitChar hle (by omega)
  next =>
    obtain ⟨d, hd, rfl⟩ := List.mem_map.mp hb
    exact isDigit_digitChar hle (Nat.digits_lt_base hbase (List.mem_reverse.mp hd))

theorem natText_length {base : ℕ} (hbase : 1 < base) {n k : ℕ} (hk : k ≠ 0) :
    (natText base n).length ≤ k ↔ n < base ^ k := by
  unfold natText
  split
  next hn =>
    have hpos : 0 < base ^ k := Nat.pow_pos (by omega)
    rw [hn, List.length_singleton]
    omega
  next => rw [List.length_map, List.length_reverse, Nat.digits_length_le_iff hbase]

theorem foldl_digitChar {base : ℕ} (hle : base ≤ 36) {ds : List ℕ} (h : ∀ d ∈ ds, d < base) :
    (ds.reverse.map digitChar).foldl (fun acc b => acc * base + charDigit b) 0 =
      Nat.ofDigits base ds := by
  rw [List.foldl_map, List.foldl_reverse]
  induction ds with
  | nil => rfl
  | cons d ds ih =>
    obtain ⟨hd, hds⟩ := List.forall_mem_cons.mp h
    rw [List.foldr_cons, ih hds, charDigit_digitChar d (by omega), Nat.ofDigits_cons]
    ring

theorem foldl_zeros (base k : ℕ) :
    (List.replicate k (digitChar 0)).foldl (fun acc b => acc * base + charDigit b) 0 = 0 := by
  have hzero : charDigit (digitChar 0) = 0 := rfl
  induction k with
  | zero => rfl
  | succ k ih => rw [List.replicate_succ, List.foldl_cons, Nat.zero_mul, hzero, ih]

theorem digitsValue_of_digits {base : ℕ} {text : Bytes} (h : ∀ b ∈ text, isDigit base b = true) :
    digitsValue base text = text.foldl (fun acc b => acc * base + charDigit b) 0 := by
  rw [digitsValue, List.takeWhile_eq_self_iff.mpr h]

theorem digitsValue_natText {base : ℕ} (hbase : 1 < base) (hle : base ≤ 36) (n : ℕ) :
    digitsValue base (natText base n) = n := by
  rw [digitsValue_of_digits (natText_digits hbase hle n)]
  unfold natText
  split
  next hn =>
    rw [hn]
    exact foldl_zeros base 1
  next =>
    rw [foldl_digitChar hle fun d hd => Nat.digits_lt_base hbase hd, Nat.ofDigits_digits]

theorem hexText_digits (width n : ℕ) : ∀ b ∈ hexText width n, isDigit 16 b = true := by
  intro b hb
  rw [hexText, List.leftpad] at hb
  cases List.mem_append.mp hb with
  | inl hpad =>
    rw [List.eq_of_mem_replicate hpad]
    exact isDigit_digitChar (by omega) (by omega)
  | inr hnum => exact natText_digits (by omega) (by omega) n b hnum

theorem digitsValue_hexText (width n : ℕ) : digitsValue 16 (hexText width n) = n := by
  have hdigits := hexText_digits width n
  have hnum := digitsValue_natText (show 1 < 16 by omega) (by omega) n
  rw [digitsValue_of_digits (natText_digits (by omega) (by omega) n)] at hnum
  rw [digitsValue_of_digits hdigits, hexText, List.leftpad, List.foldl_append, foldl_zeros, hnum]

theorem foldl_lt {base : ℕ} {text : Bytes} (h : ∀ b ∈ text, isDigit base b = true) :
    text.foldl (fun acc b => acc * base + charDigit b) 0 < base ^ text.length := by
  induction text using List.reverseRecOn with
  | nil => exact Nat.one_pos
  | append_singleton text b ih =>
    have hb : charDigit b < base := of_decide_eq_true (h b (by simp))
    have hih := ih fun c hc => h c (List.mem_append_left _ hc)
    rw [List.foldl_append, List.foldl_cons, List.foldl_nil, List.length_append,
      List.length_singleton, pow_succ]
    calc _ < text.foldl (fun acc b => acc * base + charDigit b) 0 * base + base := by omega
      _ = (text.foldl (fun acc b => acc * base + charDigit b) 0 + 1) * base := by ring
      _ ≤ base ^ text.length * base := Nat.mul_le_mul_right base hih

theorem strtol_lt {base : ℕ} (hbase : base ≤ 36) {text : Bytes}
    (h : ∀ b ∈ text, isDigit base b = true) : strtol base text < max 1 (base ^ text.length : ℕ) := by
  have hlt := foldl_lt h
  rw [strtol_digits hbase h, digitsValue_of_digits h, clampLong]
  omega

theorem hexText_length_le (width n : ℕ) : width ≤ (hexText width n).length := by
  rw [hexText, List.leftpad, List.length_append, List.length_replicate]
  omega

theorem hexText_length {width n : ℕ} (hw : width ≠ 0) (hn : n < 16 ^ width) :
    (hexText width n).length = width := by
  have hlen := (natText_length (show 1 < 16 by omega) hw).mpr hn
  rw [hexText, List.leftpad, List.length_append, List.length_replicate]
  omega

theorem strtol_hexText {width n : ℕ} (hn : n < 2 ^ 31) : strtol 16 (hexText width n) = n := by
  rw [strtol_digits (by omega) (hexText_digits width n), digitsValue_hexText]
  exact clampLong_of_mem (by omega) (by omega)

theorem strtol_intText {i : ℤ} (hlow : -2 ^ 31 ≤ i) (hhigh : i < 2 ^ 31) :
    strtol 10 (intText i) = i := by
  have hdigits := natText_digits (show 1 < 10 by omega) (by omega) i.natAbs
  have hvalue := digitsValue_natText (show 1 < 10 by omega) (by omega) i.natAbs
  unfold intText
  split
  next hneg =>
    rw [strtol_minus hdigits, hvalue, clampLong_of_mem (by omega) (by omega)]
    omega
  next =>
    rw [strtol_digits (by omega) hdigits, hvalue, clampLong_of_mem (by omega) (by omega)]
    omega

theorem intText_length {i : ℤ} (hlow : -2 ^ 31 ≤ i) (hhigh : i < 2 ^ 31) :
    (intText i).length ≤ 11 := by
  have hlen := (natText_length (n := i.natAbs) (k := 10) (show 1 < 10 by omega) (by omega)).mpr
    (by omega)
  unfold intText
  split
  next =>
    rw [List.length_cons]
    omega
  next => omega

/-! ### Decimal forms -/

/-- An optional minus sign and digits, at least one. -/
inductive DecimalForm : Bytes → ℤ → Prop where
  | plain {text : Bytes} (hne : text ≠ []) (hdigits : ∀ b ∈ text, isDigit 10 b = true) :
      DecimalForm text (digitsValue 10 text)
  | minus {text : Bytes} (hne : text ≠ []) (hdigits : ∀ b ∈ text, isDigit 10 b = true) :
      DecimalForm (45 :: text) (-digitsValue 10 text)

theorem strtol_decimalForm {text : Bytes} {i : ℤ} (h : DecimalForm text i) :
    strtol 10 text = clampLong i := by
  cases h with
  | plain _ hdigits => exact strtol_digits (by omega) hdigits
  | minus _ hdigits => exact strtol_minus hdigits

theorem natText_ne_nil (base n : ℕ) : natText base n ≠ [] := by
  unfold natText
  split
  next => exact List.cons_ne_nil _ _
  next hn =>
    rw [Ne, List.map_eq_nil_iff, List.reverse_eq_nil_iff]
    exact Nat.digits_ne_nil_iff_ne_zero.mpr hn

theorem decimalForm_intText (i : ℤ) : DecimalForm (intText i) i := by
  have hne := natText_ne_nil 10 i.natAbs
  have hdigits := natText_digits (show 1 < 10 by omega) (by omega) i.natAbs
  have hvalue := digitsValue_natText (show 1 < 10 by omega) (by omega) i.natAbs
  unfold intText
  split
  next hneg =>
    have hminus := DecimalForm.minus hne hdigits
    rwa [hvalue, show -(i.natAbs : ℤ) = i by omega] at hminus
  next hpos =>
    have hplain := DecimalForm.plain hne hdigits
    rwa [hvalue, show (i.natAbs : ℤ) = i by omega] at hplain

end GameRes.Library
