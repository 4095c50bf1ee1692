import GameRes.NetPack.TextStream

/-!
# Fields on the text streams (netPack/commDef.cpp:27-112, 139-204, 907-1089)

One `Write` puts a length prefix and the text of the field behind the payload or
leaves the stream alone, unless the sum of its bound test wraps; one `Read` with a
large enough destination takes the field again.
-/

namespace GameRes.NetPack
open Library

inductive TextField where
  | string (str : Bytes)
  | int (i : BitVec 32)
  | short (i : BitVec 16)
  | char (c : Byte)
  deriving Repr, DecidableEq

/-- The argument of a `Read`: the size of the destination, or what it held. -/
inductive TextRead where
  | string (strlen : ℕ)
  | int
  | short
  | char (c : Byte)
  deriving Repr, DecidableEq

def TextField.text : TextField → Bytes
  | .string str => str
  | .int i => intText i.toInt
  | .short i => intText i.toInt
  | .char c => [c]

/-- The overload is that of the field, and a string fits its destination. -/
inductive TextRead.Takes : TextRead → TextField → Prop where
  | string {strlen : ℕ} {str : Bytes} (h : str.length ≤ strlen) : Takes (.string strlen) (.string str)
  | int {i : BitVec 32} : Takes .int (.int i)
  | short {i : BitVec 16} : Takes .short (.short i)
  | char {c d : Byte} : Takes (.char c) (.char d)

def TextWriteStream.writeField (s : TextWriter) : TextField → Option (Bool × TextWriter)
  | .string str => write s str
  | .int i => writeInt s i
  | .short i => writeShort s i
  | .char c => writeChar s c

def TextWriteStream2.writeField (s : TextWriter) : TextField → Option (Bool × TextWriter)
  | .string str => write s str
  | .int i => writeInt s i
  | .short i => writeShort s i
  | .char c => writeChar s c

def TextReadStream.readField (s : TextReader) : TextRead → Option (Option TextField × TextReader)
  | .string strlen => (read s strlen).map fun r => (r.1.map .string, r.2)
  | .int => (readInt s).map fun r => (r.1.map .int, r.2)
  | .short => (readShort s).map fun r => (r.1.map .short, r.2)
  | .char c => (readChar s c).map fun r => (r.1.map .char, r.2)

def TextReadStream2.readField (s : TextReader) : TextRead → Option (Option TextField × TextReader)
  | .string strlen => (read s strlen).map fun r => (r.1.map .string, r.2)
  | .int => (readInt s).map fun r => (r.1.map .int, r.2)
  | .short => (readShort s).map fun r => (r.1.map .short, r.2)
  | .char c => (readChar s c).map fun r => (r.1.map .char, r.2)

def TextFormat.encode (f : TextFormat) (str : Bytes) : Bytes := hexText f.packlen str.length ++ str

/-- The sum `cur + packlen + len` of the bound test is an address. It matters for the
lengths that the prefix can hold: `WriteLength` refuses the others. -/
def TextWriter.SumFits (f : TextFormat) (s : TextWriter) (str : Bytes) : Prop :=
  str.length < 16 ^ f.packlen → s.ptr + s.cur + f.packlen + str.length < 2 ^ 32

instance (f : TextFormat) (s : TextWriter) (str : Bytes) : Decidable (s.SumFits f str) :=
  inferInstanceAs (Decidable (_ → _))

theorem TextFormat.pow_le (f : TextFormat) : 16 ^ f.packlen ≤ 2 ^ 24 :=
  (Nat.pow_le_pow_right (by omega) f.packlen_le).trans (by norm_num)

/-! ### Writing one field -/

namespace TextWriter

def pushed (s : TextWriter) (bs : Bytes) : TextWriter :=
  { s with mem := store s.mem s.cur bs, cur := s.cur + bs.length }

theorem writeContent_eq {s : TextWriter} {str : Bytes} (h : s.cur + str.length ≤ s.len) :
    s.writeContent str = some (true, s.pushed str) := by
  rw [writeContent, poke, if_pos h, Option.map_some, pushed]

theorem pushed_append (s : TextWriter) (bs cs : Bytes) :
    (s.pushed bs).pushed cs = s.pushed (bs ++ cs) := by
  simp only [pushed, store_append, List.length_append, Nat.add_assoc]

theorem prefix_text (f : TextFormat) {n : ℕ} (hn : n < 16 ^ f.packlen) :
    snprintf 32 (hexText f.minwidth n) = hexText f.minwidth n ∧
      (hexText f.minwidth n).length ≤ f.packlen ∧
      (hexText f.minwidth n).leftpad f.packlen (digitChar 0) = hexText f.packlen n := by
  have hpack := f.packlen_le
  have hmin := f.minwidth_le
  have hnum := (natText_length (show 1 < 16 by omega) f.packlen_ne_zero).mpr hn
  have hlen : (hexText f.minwidth n).length ≤ f.packlen := by
    rw [hexText, List.leftpad, List.length_append, List.length_replicate]
    omega
  refine ⟨?_, hlen, ?_⟩
  · rw [snprintf, List.take_of_length_le (by omega)]
  · simp only [hexText, List.leftpad, List.length_append, List.length_replicate]
    rw [← List.append_assoc, List.replicate_append_replicate]
    congr 2
    omega

theorem prefix_refused (f : TextFormat) {n : ℕ} (hn : 16 ^ f.packlen ≤ n) :
    f.packlen < (snprintf 32 (hexText f.minwidth n)).length := by
  have hpack := f.packlen_le
  have hnum := (natText_length (n := n) (show 1 < 16 by omega) f.packlen_ne_zero).not.mpr
    (Nat.not_lt.mpr hn)
  rw [snprintf, List.length_take, hexText, List.leftpad, List.length_append, List.length_replicate]
  omega

theorem writeLength_refused (f : TextFormat) (s : TextWriter) {n : ℕ} (hn : 16 ^ f.packlen ≤ n) :
    s.writeLength f n = some (false, s) := by
  rw [writeLength, if_pos (prefix_refused f hn)]

theorem writeLength_eq (f : TextFormat) {s : TextWriter} {n : ℕ} (hn : n < 16 ^ f.packlen)
    (hroom : s.cur + f.packlen ≤ s.len) :
    s.writeLength f n = some (true, s.pushed (hexText f.packlen n)) := by
  obtain ⟨htext, hlen, hpad⟩ := prefix_text f hn
  have hwidth := hexText_length f.packlen_ne_zero hn
  rw [writeLength, htext, if_neg (Nat.not_lt.mpr hlen), hpad, writeContent_eq (by omega)]

theorem beyond_iff {s : TextWriter} {n : ℕ} (hsum : s.ptr + s.cur + n < 2 ^ 32) :
    s.beyond n = true ↔ s.len < s.cur + n := by
  rw [beyond, decide_eq_true_eq, Nat.mod_eq_of_lt hsum]
  omega

/-- A sum that wraps comes out below the block. -/
theorem not_beyond_of_wrap {s : TextWriter} {n : ℕ} (hcur : s.cur ≤ s.len + 6)
    (hn : n < 2 ^ 24 + 6) (hwrap : 2 ^ 32 ≤ s.ptr + s.cur + n) : ¬s.beyond n = true := by
  have hfits := s.fits
  rw [beyond, decide_eq_true_eq]
  omega

theorem encode_length (f : TextFormat) {str : Bytes} (hshort : str.length < 16 ^ f.packlen) :
    (f.encode str).length = f.packlen + str.length := by
  rw [TextFormat.encode, List.length_append, hexText_length f.packlen_ne_zero hshort]

theorem write_of_room (f : TextFormat) {s : TextWriter} {str : Bytes}
    (hshort : str.length < 16 ^ f.packlen) (hroom : s.cur + (f.encode str).length ≤ s.len) :
    s.write f str = some (true, s.pushed (f.encode str)) := by
  have hfits := s.fits
  have hwidth := hexText_length f.packlen_ne_zero hshort
  rw [encode_length f hshort] at hroom
  have hinside : ¬s.beyond (f.packlen + str.length) = true := by
    rw [beyond_iff (by omega)]
    omega
  have hcontent := writeContent_eq (show (s.pushed (hexText f.packlen str.length)).cur + str.length ≤
    (s.pushed (hexText f.packlen str.length)).len by simp only [pushed, hwidth]; omega)
  rw [pushed_append] at hcontent
  rw [write, if_neg hinside, writeLength_eq f hshort (by omega)]
  simp only [hcontent, TextFormat.encode]

/-- A `Write` returns false with the stream unchanged, or appends prefix and text. -/
theorem write_cases (f : TextFormat) {s : TextWriter} {str : Bytes} (hsum : s.SumFits f str) :
    s.write f str = some (false, s) ∨
      str.length < 16 ^ f.packlen ∧ s.cur + (f.encode str).length ≤ s.len ∧
        s.write f str = some (true, s.pushed (f.encode str)) := by
  by_cases hbeyond : s.beyond (f.packlen + str.length) = true
  · left
    rw [write, if_pos hbeyond]
  · by_cases hlong : 16 ^ f.packlen ≤ str.length
    · -- The sum may have wrapped for such a string, its prefix is refused in any case.
      left
      rw [write, if_neg hbeyond, writeLength_refused f s hlong]
    · right
      have hshort := Nat.lt_of_not_le hlong
      have haddr := hsum hshort
      rw [beyond_iff (by omega)] at hbeyond
      have hroom : s.cur + (f.encode str).length ≤ s.len := by
        rw [encode_length f hshort]
        omega
      exact ⟨hshort, hroom, write_of_room f hshort hroom⟩

theorem writeContent_overruns {s : TextWriter} {str : Bytes} (h : s.len < s.cur + str.length) :
    s.writeContent str = none := by
  rw [writeContent, poke, if_neg (Nat.not_le.mpr h), Option.map_none]

/-- With a wrapped sum the test is passed, and the prefix or the text leaves the block. -/
theorem write_overruns (f : TextFormat) {s : TextWriter} (hcur : s.cur ≤ s.len + 6) {str : Bytes}
    (hsum : ¬s.SumFits f str) : s.write f str = none := by
  have hfits := s.fits
  have hpack := f.packlen_le
  have hpow := f.pow_le
  rw [SumFits, Classical.not_imp] at hsum
  obtain ⟨hshort, hwrap⟩ := hsum
  have hinside := not_beyond_of_wrap hcur (n := f.packlen + str.length) (by omega) (by omega)
  have hwidth := hexText_length f.packlen_ne_zero hshort
  rw [write, if_neg hinside]
  by_cases hroom : s.cur + f.packlen ≤ s.len
  · have hcontent : (s.pushed (hexText f.packlen str.length)).writeContent str = none :=
      writeContent_overruns (by simp only [pushed, hwidth]; omega)
    rw [writeLength_eq f hshort hroom]
    simp only [hcontent]
  · obtain ⟨htext, hlen, hpad⟩ := prefix_text f hshort
    rw [writeLength, htext, if_neg (Nat.not_lt.mpr hlen), hpad,
      writeContent_overruns (by rw [hwidth]; omega)]

theorem sumFits_of_write {f : TextFormat} {s : TextWriter} {str : Bytes} {r : Bool × TextWriter}
    (hcur : s.cur ≤ s.len + 6) (h : s.write f str = some r) : s.SumFits f str := by
  by_contra hsum
  rw [write_overruns f hcur hsum] at h
  cases h

end TextWriter

theorem toInt_range {w : ℕ} (hw : w ≤ 32) (i : BitVec w) : -2 ^ 31 ≤ i.toInt ∧ i.toInt < 2 ^ 31 := by
  have hpow : 2 ^ w ≤ 2 ^ 32 := Nat.pow_le_pow_right (by omega) hw
  have hlt := i.isLt
  rw [BitVec.toInt_eq_toNat_cond]
  split
  next h =>
    constructor
    · omega
    · omega
  next h =>
    constructor
    · omega
    · omega

theorem snprintf_intText {w : ℕ} (hw : w ≤ 32) (i : BitVec w) :
    snprintf 32 (intText i.toInt) = intText i.toInt := by
  obtain ⟨hlow, hhigh⟩ := toInt_range hw i
  have hlen := intText_length hlow hhigh
  rw [snprintf, List.take_of_length_le (by omega)]

theorem TextWriteStream.writeField_eq (s : TextWriter) (field : TextField) :
    writeField s field = s.write textFormat field.text := by
  cases field with
  | string str => rfl
  | int i => rw [writeField, writeInt, snprintf_intText (by omega), write, TextField.text]
  | short i => rw [writeField, writeShort, snprintf_intText (by omega), write, TextField.text]
  | char c => rfl

theorem TextWriteStream2.writeField_eq (s : TextWriter) (field : TextField) :
    writeField s field = s.write textFormat2 field.text := by
  cases field with
  | string str => rfl
  | int i => rw [writeField, writeInt, snprintf_intText (by omega), write, TextField.text]
  | short i => rw [writeField, writeShort, snprintf_intText (by omega), write, TextField.text]
  | char c => rfl

/-! ### Reading one field -/

namespace TextReader

/-- `bs` stands at the cursor, inside a packet whose addresses do not wrap. -/
structure Stands (s : TextReader) (bs : Bytes) : Prop where
  bytes : load s.mem s.cur bs.length = bs
  room : s.cur + bs.length ≤ s.len
  fits : s.ptr + s.len < 2 ^ 32

def moved (s : TextReader) (n : ℕ) : TextReader := { s with cur := s.cur + n }

theorem moved_moved (s : TextReader) (m n : ℕ) : (s.moved m).moved n = s.moved (m + n) := by
  simp only [moved, Nat.add_assoc]

theorem Stands.left {s : TextReader} {bs cs : Bytes} (h : s.Stands (bs ++ cs)) : s.Stands bs := by
  have hbytes := h.bytes
  have hroom := h.room
  rw [List.length_append] at hbytes hroom
  rw [load_append] at hbytes
  exact ⟨(List.append_inj hbytes (load_length ..)).1, by omega, h.fits⟩

theorem Stands.right {s : TextReader} {bs cs : Bytes} (h : s.Stands (bs ++ cs)) :
    (s.moved bs.length).Stands cs := by
  have hbytes := h.bytes
  have hroom := h.room
  rw [List.length_append] at hbytes hroom
  rw [load_append] at hbytes
  refine ⟨(List.append_inj hbytes (load_length ..)).2, ?_, h.fits⟩
  simp only [moved]
  omega

theorem Stands.peek {s : TextReader} {bs : Bytes} (h : s.Stands bs) :
    ¬s.beyond bs.length = true ∧ s.peek bs.length = some bs := by
  have hfits := h.fits
  have hroom := h.room
  constructor
  · rw [beyond, decide_eq_true_eq, Nat.mod_eq_of_lt (by omega)]
    omega
  · rw [TextReader.peek, if_pos hroom, h.bytes]

theorem readLength_eq (f : TextFormat) {s : TextReader} {n : ℕ} (hn : n < 16 ^ f.packlen)
    (h : s.Stands (hexText f.packlen n)) : s.readLengthWithoutOffset f = some (some n) := by
  have hpow := f.pow_le
  obtain ⟨hinside, hpeek⟩ := h.peek
  rw [hexText_length f.packlen_ne_zero hn] at hinside hpeek
  have hvalue : (strtol 16 (hexText f.packlen n) % 2 ^ 32).toNat = n := by
    rw [strtol_hexText (by omega)]
    omega
  rw [readLengthWithoutOffset, if_neg hinside, hpeek, Option.map_some, hvalue]

theorem read_eq (f : TextFormat) {s : TextReader} {str : Bytes} {strlen : ℕ}
    (hshort : str.length < 16 ^ f.packlen) (hdest : str.length ≤ strlen)
    (h : s.Stands (f.encode str)) :
    s.read f strlen = some (some str, s.moved (f.encode str).length) := by
  have hlength := readLength_eq f hshort h.left
  have hwidth := hexText_length f.packlen_ne_zero hshort
  have hcontent := h.right
  rw [hwidth] at hcontent
  obtain ⟨hinside, hpeek⟩ := hcontent.peek
  have hread : (s.moved f.packlen).readContent str.length =
      some (some str, (s.moved f.packlen).moved str.length) := by
    rw [readContent, if_neg hinside, hpeek, Option.map_some, moved, moved]
  have hmoved : (s.moved f.packlen).moved str.length = s.moved (f.encode str).length := by
    rw [moved_moved, TextFormat.encode, List.length_append, hwidth]
  rw [hmoved] at hread
  rw [read, hlength]
  simp only [Nat.not_lt.mpr hdest, ite_false]
  simp only [moved] at hread ⊢
  rw [hread]

end TextReader

theorem intText_fits {w : ℕ} (hw : w ≤ 32) (i : BitVec w) : (intText i.toInt).length ≤ 31 := by
  obtain ⟨hlow, hhigh⟩ := toInt_range hw i
  exact (intText_length hlow hhigh).trans (by omega)

theorem atoi_intText {w : ℕ} (hw : w ≤ 32) (i : BitVec w) :
    atoi (intText i.toInt) = BitVec.ofInt 32 i.toInt := by
  obtain ⟨hlow, hhigh⟩ := toInt_range hw i
  rw [atoi, strtol_intText hlow hhigh]

theorem atoi_int (i : BitVec 32) : atoi (intText i.toInt) = i := by
  rw [atoi_intText (by omega), BitVec.ofInt_toInt]

theorem atoi_short (i : BitVec 16) : (atoi (intText i.toInt)).setWidth 16 = i := by
  have hlt := i.isLt
  rw [atoi_intText (by omega)]
  apply BitVec.eq_of_toNat_eq
  rw [BitVec.toNat_setWidth, BitVec.toNat_ofInt, BitVec.toInt_eq_toNat_cond]
  split
  next => omega
  next => omega

theorem TextReadStream.readField_eq {s : TextReader} {arg : TextRead} {field : TextField}
    (htakes : arg.Takes field) (hshort : field.text.length < 16 ^ textFormat.packlen)
    (h : s.Stands (textFormat.encode field.text)) :
    readField s arg = some (some field, s.moved (textFormat.encode field.text).length) := by
  cases htakes with
  | @string strlen str hfit =>
    have hread : read s strlen = _ := TextReader.read_eq textFormat hshort hfit h
    rw [readField, hread]
    rfl
  | @int i =>
    have hread : read s 31 = _ := TextReader.read_eq textFormat hshort (intText_fits (by omega) i) h
    rw [readField, readInt, hread]
    simp only [Option.map_some, TextField.text, atoi_int]
  | @short i =>
    have hread : read s 31 = _ := TextReader.read_eq textFormat hshort (intText_fits (by omega) i) h
    rw [readField, readShort, readInt, hread]
    simp only [Option.map_some, TextField.text, atoi_short]
  | @char c d =>
    have hread : read s 1 = _ := TextReader.read_eq textFormat hshort (Nat.le_refl 1) h
    rw [readField, readChar, hread]
    rfl

theorem TextReadStream2.readField_eq {s : TextReader} {arg : TextRead} {field : TextField}
    (htakes : arg.Takes field) (hshort : field.text.length < 16 ^ textFormat2.packlen)
    (h : s.Stands (textFormat2.encode field.text)) :
    readField s arg = some (some field, s.moved (textFormat2.encode field.text).length) := by
  cases htakes with
  | @string strlen str hfit =>
    have hread : read s strlen = _ := TextReader.read_eq textFormat2 hshort hfit h
    rw [readField, hread]
    rfl
  | @int i =>
    have hread : read s 31 = _ := TextReader.read_eq textFormat2 hshort (intText_fits (by omega) i) h
    rw [readField, readInt, hread]
    simp only [Option.map_some, TextField.text, atoi_int]
  | @short i =>
    have hread : read s 31 = _ := TextReader.read_eq textFormat2 hshort (intText_fits (by omega) i) h
    rw [readField, readShort, hread]
    simp only [Option.map_some, TextField.text, atoi_short]
  | @char c d =>
    have hread : read s 1 = _ := TextReader.read_eq textFormat2 hshort (Nat.le_refl 1) h
    rw [readField, readChar, hread]
    rfl

end GameRes.NetPack
