import GameRes.NetPack.TextReads

/-!
# Numeric fields of the text streams (netPack/commDef.cpp:51-72, 155-175, 930-956)

`Read(int&)` and `Read(short&)` report what the framing reports and convert with
`atoi`, which has no way to refuse: a field that is no number reads as zero, and a
number that is too large for the target is narrowed.
-/

namespace GameRes.NetPack
open Library

def Representable (w : ℕ) (i : ℤ) : Prop := -2 ^ (w - 1) ≤ i ∧ i < 2 ^ (w - 1)

instance (w : ℕ) (i : ℤ) : Decidable (Representable w i) := inferInstanceAs (Decidable (_ ∧ _))

structure HoldsField (f : TextFormat) (s : TextReader) (content : Bytes) : Prop where
  bytes : load s.mem s.cur (f.encode content).length = f.encode content
  room : s.cur + (f.encode content).length ≤ s.len
  addr : s.ptr + s.len < 2 ^ 32

/-- A read that returns true found the decimal form of a number and stored the number. -/
def Validated {w : ℕ} (content : Bytes) (r : Option (Option (BitVec w) × TextReader)) : Prop :=
  ∀ v t, r = some (some v, t) → ∃ i, DecimalForm content i ∧ v.toInt = i

/-- Both reads return true and store what `atoi` makes of the content, and that is the
number whose decimal form the content is, exactly if the target can hold it. -/
structure NumericReads (content : Bytes) (int : Option (Option (BitVec 32) × TextReader))
    (short : Option (Option (BitVec 16) × TextReader)) (t : TextReader) : Prop where
  int : int = some (some (atoi content), t)
  short : short = some (some ((atoi content).setWidth 16), t)
  exactInt : ∀ i, DecimalForm content i → ((atoi content).toInt = i ↔ Representable 32 i)
  exactShort : ∀ i, DecimalForm content i →
    (((atoi content).setWidth 16).toInt = i ↔ Representable 16 i)

def TextWriter.readerAt (s : TextWriter) (cur : ℕ) : TextReader := ⟨s.ptr, s.len, s.mem, cur⟩

/-- An `int` that was written is read as the `short` of its low bits. -/
def ReadsAsShort (write : TextWriter → BitVec 32 → Option (Bool × TextWriter))
    (read : TextReader → Option (Option (BitVec 16) × TextReader)) (s : TextWriter) (i : BitVec 32) :
    Prop :=
  ∀ t, write s i = some (true, t) → ∃ r, read (t.readerAt s.cur) = some (some (i.setWidth 16), r) ∧
    ((i.setWidth 16).toInt = i.toInt ↔ Representable 16 i.toInt)

/-! ### Conversions -/

theorem representable_toInt {w : ℕ} (v : BitVec w) : Representable w v.toInt :=
  ⟨v.le_toInt, BitVec.toInt_lt⟩

theorem ofInt_clampLong {w : ℕ} (hpos : 0 < w) (hw : w ≤ 32) (i : ℤ) :
    (BitVec.ofInt w (clampLong i)).toInt = i ↔ Representable w i := by
  constructor
  · intro h
    rw [← h]
    exact representable_toInt _
  · intro h
    obtain ⟨hlow, hhigh⟩ := h
    have hpow : (2 : ℤ) ^ (w - 1) ≤ 2 ^ 31 := pow_le_pow_right₀ (by omega) (by omega)
    rw [clampLong_of_mem (by omega) (by omega)]
    exact BitVec.toInt_ofInt_eq_self hpos hlow hhigh

theorem setWidth_ofInt (i : ℤ) : (BitVec.ofInt 32 i).setWidth 16 = BitVec.ofInt 16 i := by
  apply BitVec.eq_of_toNat_eq
  rw [BitVec.toNat_setWidth, BitVec.toNat_ofInt, BitVec.toNat_ofInt]
  omega

theorem atoi_exact {content : Bytes} {i : ℤ} (h : DecimalForm content i) :
    (atoi content).toInt = i ↔ Representable 32 i := by
  rw [atoi, strtol_decimalForm h]
  exact ofInt_clampLong (by omega) (by omega) i

theorem atoi_short_exact {content : Bytes} {i : ℤ} (h : DecimalForm content i) :
    ((atoi content).setWidth 16).toInt = i ↔ Representable 16 i := by
  rw [atoi, strtol_decimalForm h, setWidth_ofInt]
  exact ofInt_clampLong (by omega) (by omega) i

/-! ### Reads -/

section
variable {f : TextFormat} {s : TextReader} {content : Bytes}

theorem HoldsField.read (h : HoldsField f s content) (hlen : content.length ≤ 31)
    (hpack : 4 ≤ f.packlen) :
    s.read f 31 = some (some content, s.moved (f.encode content).length) := by
  have hpow : 16 ^ 4 ≤ 16 ^ f.packlen := Nat.pow_le_pow_right (by omega) hpack
  have hwidth := hexText_length f.packlen_ne_zero (show content.length < 16 ^ f.packlen by omega)
  have hsize : (f.encode content).length = f.packlen + content.length := by
    rw [TextFormat.encode, List.length_append, hwidth]
  have hroom := h.room
  have hbytes := h.bytes
  rw [hsize, load_append, TextFormat.encode] at hbytes
  rw [hsize] at hroom ⊢
  obtain ⟨hlength, hcontent⟩ := List.append_inj hbytes (by rw [load_length, hwidth])
  have hfieldlen : s.fieldlen f = content.length := by
    rw [TextReader.fieldlen, hlength, strtol_hexText (by omega)]
    omega
  have hpeek : (s.moved f.packlen).peek content.length = some content := by
    rw [TextReader.peek, if_pos (by change s.cur + f.packlen + content.length ≤ s.len; omega)]
    exact congrArg some hcontent
  have hlengthIn := not_beyond_of_inside h.addr (show s.cur + f.packlen ≤ s.len by omega)
  have hcontentIn : ¬(s.moved f.packlen).beyond (s.fieldlen f) = true := by
    rw [hfieldlen]
    exact not_beyond_of_inside h.addr
      (show s.cur + f.packlen + content.length ≤ s.len by omega)
  rw [TextReader.read_of_content hlengthIn (by omega) (by omega) hcontentIn, hfieldlen, hpeek,
    Option.map_some]

theorem TextReadStream.numericReads (hlen : content.length ≤ 31)
    (h : HoldsField textFormat s content) :
    NumericReads content (readInt s) (readShort s) (s.moved (textFormat.encode content).length) := by
  have hread : read s 31 = _ := h.read hlen (by decide)
  refine ⟨?_, ?_, fun _ => atoi_exact, fun _ => atoi_short_exact⟩
  · rw [readInt, hread]
    rfl
  · rw [readShort, readInt, hread]
    rfl

theorem TextReadStream2.numericReads (hlen : content.length ≤ 31)
    (h : HoldsField textFormat2 s content) :
    NumericReads content (readInt s) (readShort s) (s.moved (textFormat2.encode content).length) := by
  have hread : read s 31 = _ := h.read hlen (by decide)
  refine ⟨?_, ?_, fun _ => atoi_exact, fun _ => atoi_short_exact⟩
  · rw [readInt, hread]
    rfl
  · rw [readShort, hread]
    rfl

end

/-! ### An `int` read as a `short` -/

section
variable {f : TextFormat} {s t : TextWriter}

theorem holdsField_written {str : Bytes} (hcur : s.cur ≤ s.len + 6)
    (h : s.write f str = some (true, t)) : HoldsField f (t.readerAt s.cur) str := by
  rcases TextWriter.write_cases f (TextWriter.sumFits_of_write hcur h) with hrefused | ⟨-, hroom, hwrite⟩
  · rw [hrefused] at h
    cases h
  · rw [hwrite] at h
    cases h
    exact ⟨load_store _ _ _, hroom, s.fits⟩

theorem readsAsShort {write : TextWriter → BitVec 32 → Option (Bool × TextWriter)}
    {read : TextReader → Option (Option (BitVec 16) × TextReader)}
    (hwrite : ∀ i, write s i = s.write f (snprintf 32 (intText i.toInt)))
    (hread : ∀ (r : TextReader) (content : Bytes), content.length ≤ 31 →
      HoldsField f r content →
        ∃ u, read r = some (some ((atoi content).setWidth 16), u))
    (hcur : s.cur ≤ s.len + 6) (i : BitVec 32) : ReadsAsShort write read s i := by
  intro t h
  rw [hwrite, snprintf_intText (by omega)] at h
  obtain ⟨u, hu⟩ := hread _ _ (intText_fits (by omega) i) (holdsField_written hcur h)
  have hexact := atoi_short_exact (decimalForm_intText i.toInt)
  rw [atoi_int] at hu hexact
  exact ⟨u, hu, hexact⟩

end

/-- Every field of at most 31 bytes is read as a number; the value is the number that
stands there exactly if the target type can hold it, also for an `int` read as a `short`. -/
theorem numericFields_exact (content : Bytes) (hlen : content.length ≤ 31) (s : TextReader) :
    (HoldsField textFormat s content →
      NumericReads content (TextReadStream.readInt s) (TextReadStream.readShort s)
        (s.moved (textFormat.encode content).length)) ∧
    (HoldsField textFormat2 s content →
      NumericReads content (TextReadStream2.readInt s) (TextReadStream2.readShort s)
        (s.moved (textFormat2.encode content).length)) ∧
    ∀ (w : TextWriter) (i : BitVec 32), w.cur ≤ w.len + 6 →
      ReadsAsShort TextWriteStream.writeInt TextReadStream.readShort w i ∧
        ReadsAsShort TextWriteStream2.writeInt TextReadStream2.readShort w i := by
  refine ⟨TextReadStream.numericReads hlen, TextReadStream2.numericReads hlen, ?_⟩
  intro w i hcur
  constructor
  · apply readsAsShort (f := textFormat) _ _ hcur i
    · intro j
      rfl
    · intro r content hfits h
      exact ⟨_, (TextReadStream.numericReads hfits h).short⟩
  · apply readsAsShort (f := textFormat2) _ _ hcur i
    · intro j
      rfl
    · intro r content hfits h
      exact ⟨_, (TextReadStream2.numericReads hfits h).short⟩

theorem numericFields_exact_field :
    ∃ s t, HoldsField textFormat s [45, 52, 50] ∧
      NumericReads [45, 52, 50] (TextReadStream.readInt s) (TextReadStream.readShort s) t := by
  have hfield : HoldsField textFormat
      (packetOf 4096 4 [48, 48, 48, 55, 48, 48, 48, 51, 45, 52, 50]) [45, 52, 50] :=
    ⟨rfl, by decide, by decide⟩
  exact ⟨_, _, hfield, (numericFields_exact [45, 52, 50] (by decide) _).1 hfield⟩

/-- The letters `abc` are read as zero, and `70000` is read as the `short` 4464. -/
theorem letters_read_as_zero :
    HoldsField textFormat (packetOf 4096 4 [48, 48, 48, 55, 48, 48, 48, 51, 97, 98, 99])
        [97, 98, 99] ∧
      ¬Validated [97, 98, 99]
        (TextReadStream.readInt (packetOf 4096 4 [48, 48, 48, 55, 48, 48, 48, 51, 97, 98, 99])) ∧
      ¬Representable 16 (70000 : BitVec 32).toInt ∧
      ∃ t r, TextWriteStream.writeInt ⟨4096, 16, fun _ => 0, 4, by decide⟩ 70000 = some (true, t) ∧
        TextReadStream.readShort (t.readerAt 4) = some (some 4464, r) := by
  refine ⟨⟨rfl, by decide, by decide⟩, ?_, by decide, ?_⟩
  · intro h
    obtain ⟨i, hform, -⟩ := h 0 _ rfl
    cases hform with
    | plain _ hdigits => exact absurd (hdigits 97 (by simp)) (by decide)
  · exact ⟨_, _, rfl, rfl⟩

end GameRes.NetPack
