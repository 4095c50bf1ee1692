import GameRes.NetPack.TextReads

/-!
# Length prefixes that are no numbers (netPack/commDef.cpp:80-112, 964-996)

`ReadLength` hands the characters of a prefix to `strtol` and looks at neither
the end of the number nor its sign, so every prefix inside the packet is
accepted. `ReadContent` adds the length to the cursor, where a sum may wrap.
-/

namespace GameRes.NetPack
open Library TextReader

def HexPrefix (f : TextFormat) (s : TextReader) : Prop :=
  s.cur + f.packlen ≤ s.len ∧ ∀ b ∈ load s.mem s.cur f.packlen, isDigit 16 b = true

def prefixValue (f : TextFormat) (s : TextReader) : ℕ :=
  digitsValue 16 (load s.mem s.cur f.packlen)

/-- `ReadLength` returns, with true exactly for a hexadecimal prefix and its value;
a `ReadContent` of that length then reads inside the packet, or returns false. -/
def ByGrammar (f : TextFormat) (s : TextReader) : Prop :=
  ∃ outlen t, s.readLength f = some (outlen, t) ∧ (outlen.isSome ↔ HexPrefix f s) ∧
    ∀ length, outlen = some length →
      length = prefixValue f s ∧ (t.readContent length).isSome

/-- Too few characters are left, or they are hexadecimal digits, and the sum of
the addresses that is compared does not wrap. -/
def PrefixHolds (f : TextFormat) (s : TextReader) : Prop :=
  s.len < s.cur + f.packlen ∧ s.ptr + s.cur + f.packlen < 2 ^ 32 ∨
    HexPrefix f s ∧ s.ptr + s.cur + f.packlen + prefixValue f s < 2 ^ 32

section
variable {f : TextFormat} {s : TextReader}

/-! ### What `ReadLength` does -/

theorem readLength_of_beyond (h : s.beyond f.packlen = true) :
    s.readLength f = some (none, s) := by
  rw [readLength, prefix_of_beyond h, Option.map_some]

theorem readLength_of_outside (h : ¬s.beyond f.packlen = true) (hout : s.len < s.cur + f.packlen) :
    s.readLength f = none := by
  rw [readLength, prefix_of_outside h hout, Option.map_none]

theorem readLength_of_inside (h : ¬s.beyond f.packlen = true) (hin : s.cur + f.packlen ≤ s.len) :
    s.readLength f = some (some (s.fieldlen f), s.moved f.packlen) := by
  rw [readLength, prefix_of_inside h hin, Option.map_some, moved]

theorem readContent_isSome (s : TextReader) (n : ℕ) :
    (s.readContent n).isSome ↔ s.beyond n = true ∨ s.cur + n ≤ s.len := by
  by_cases hbeyond : s.beyond n = true
  · rw [readContent, if_pos hbeyond]
    exact ⟨fun _ => Or.inl hbeyond, fun _ => rfl⟩
  · rw [readContent, if_neg hbeyond, Option.isSome_map, peek]
    by_cases hin : s.cur + n ≤ s.len
    · rw [if_pos hin]
      exact ⟨fun _ => Or.inr hin, fun _ => rfl⟩
    · rw [if_neg hin]
      constructor
      · intro h
        cases h
      · intro h
        rcases h with hover | hover
        · exact absurd hover hbeyond
        · exact absurd hover hin

/-! ### Hexadecimal prefixes -/

theorem prefixValue_lt (h : HexPrefix f s) : prefixValue f s < 2 ^ 24 := by
  have hlt := foldl_lt h.2
  rw [load_length] at hlt
  rw [prefixValue, digitsValue_of_digits h.2]
  exact hlt.trans_le f.pow_le

theorem fieldlen_of_hex (h : HexPrefix f s) : s.fieldlen f = prefixValue f s := by
  have hlt := prefixValue_lt h
  have hstrtol : strtol 16 (load s.mem s.cur f.packlen) = prefixValue f s := by
    rw [strtol_digits (by decide) h.2]
    exact clampLong_of_mem (by omega) (by change (prefixValue f s : ℤ) < 2 ^ 31; omega)
  rw [fieldlen, hstrtol]
  omega

/-- A sum that wraps lands below the end of the packet. -/
theorem content_isSome_iff (haddr : s.ptr + s.len < 2 ^ 32) (h : HexPrefix f s) :
    ((s.moved f.packlen).readContent (prefixValue f s)).isSome ↔
      s.ptr + s.cur + f.packlen + prefixValue f s < 2 ^ 32 := by
  have hin := h.1
  have hlt := prefixValue_lt h
  have hbeyond : (s.moved f.packlen).beyond (prefixValue f s) = true ↔
      s.ptr + s.len < (s.ptr + (s.cur + f.packlen) + prefixValue f s) % 2 ^ 32 := by
    rw [beyond, decide_eq_true_iff]
    rfl
  rw [readContent_isSome, hbeyond]
  change _ ∨ s.cur + f.packlen + prefixValue f s ≤ s.len ↔ _
  omega

theorem byGrammar_of_holds (haddr : s.ptr + s.len < 2 ^ 32) (h : PrefixHolds f s) :
    ByGrammar f s := by
  rcases h with ⟨hshort, hwrap⟩ | ⟨hhex, hwrap⟩
  · have hbeyond : s.beyond f.packlen = true := by
      rw [beyond, decide_eq_true_iff, Nat.mod_eq_of_lt hwrap]
      omega
    refine ⟨none, s, readLength_of_beyond hbeyond, ?_, fun _ heq => by cases heq⟩
    constructor
    · intro hsome
      cases hsome
    · intro hhex
      exact absurd hhex.1 (by omega)
  · have hread := readLength_of_inside (not_beyond_of_inside haddr hhex.1) hhex.1
    refine ⟨_, _, hread, ⟨fun _ => hhex, fun _ => rfl⟩, ?_⟩
    intro length heq
    have hlength : length = prefixValue f s :=
      (Option.some.inj heq).symm.trans (fieldlen_of_hex hhex)
    rw [hlength]
    exact ⟨rfl, (content_isSome_iff haddr hhex).mpr hwrap⟩

theorem holds_of_byGrammar (haddr : s.ptr + s.len < 2 ^ 32) (hcur : s.cur ≤ s.len + 6)
    (h : ByGrammar f s) : PrefixHolds f s := by
  have hpack := f.packlen_le
  obtain ⟨outlen, t, hread, hsome, hlength⟩ := h
  by_cases hbeyond : s.beyond f.packlen = true
  · have hover := hbeyond
    rw [beyond, decide_eq_true_iff] at hover
    have hout : s.len < s.cur + f.packlen := by
      by_contra hin
      exact not_beyond_of_inside haddr (Nat.le_of_not_lt hin) hbeyond
    exact Or.inl ⟨hout, by omega⟩
  · by_cases hin : s.cur + f.packlen ≤ s.len
    · rw [readLength_of_inside hbeyond hin] at hread
      cases hread
      have hhex := hsome.mp rfl
      obtain ⟨heq, hcontent⟩ := hlength _ rfl
      rw [heq] at hcontent
      exact Or.inr ⟨hhex, (content_isSome_iff haddr hhex).mp hcontent⟩
    · rw [readLength_of_outside hbeyond (Nat.lt_of_not_le hin)] at hread
      cases hread

end

/-- Both versions parse a prefix by its grammar exactly when the characters are
hexadecimal digits, or too few, and no sum wraps. -/
theorem readLength_byGrammar_iff (s : TextReader) (haddr : s.ptr + s.len < 2 ^ 32)
    (hcur : s.cur ≤ s.len + 6) :
    (ByGrammar textFormat s ↔ PrefixHolds textFormat s) ∧
      (ByGrammar textFormat2 s ↔ PrefixHolds textFormat2 s) := by
  constructor
  · exact ⟨holds_of_byGrammar haddr hcur, byGrammar_of_holds haddr⟩
  · exact ⟨holds_of_byGrammar haddr hcur, byGrammar_of_holds haddr⟩

theorem readLength_byGrammar_field :
    ByGrammar textFormat (packetOf 4096 4 [48, 48, 48, 57, 48, 48, 48, 49, 65]) ∧
      ByGrammar textFormat2 (packetOf 4096 4 [48, 48, 48, 57, 48, 48, 48, 49, 65]) := by
  obtain ⟨hfirst, hsecond⟩ := readLength_byGrammar_iff
    (packetOf 4096 4 [48, 48, 48, 57, 48, 48, 48, 49, 65]) (by decide) (by decide)
  -- Five characters are left: a prefix of four, and one too few for one of six.
  refine ⟨hfirst.mpr (Or.inr ⟨⟨by decide, ?_⟩, by decide⟩), hsecond.mpr (Or.inl ⟨by decide, by decide⟩)⟩
  decide

/-- The prefix `-001` is accepted as the length 4294967295, and the sum with the
cursor wraps to an address inside the packet. -/
theorem readLength_negative :
    ¬ByGrammar textFormat (packetOf 4096 4 [48, 48, 48, 56, 45, 48, 48, 49]) := by
  intro h
  have hminus : (45 : Byte) ∈
      load (packetOf 4096 4 [48, 48, 48, 56, 45, 48, 48, 49]).mem 4 textFormat.packlen := by decide
  rcases holds_of_byGrammar (by decide) (by decide) h with hshort | hhex
  · exact absurd hshort.1 (by decide)
  · exact absurd (hhex.1.2 45 hminus) (by decide)

end GameRes.NetPack
