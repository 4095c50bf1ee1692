import GameRes.Library.Runs
import GameRes.NetPack.TextFields

/-!
# Reads that fail on the text streams (netPack/commDef.cpp:11-112, 894-996)

Every `Read` of a version is that version's `Read(char*, size_t, size_t&)` with a
destination of its own size. A length prefix is accepted or not before the cursor
moves; when the content is cut off, the cursor has moved over the prefix, and the
first version moves it back.
-/

namespace GameRes.NetPack
open Library

def TextRead.room : TextRead → ℕ
  | .string strlen => strlen
  | .int => 31
  | .short => 31
  | .char _ => 1

inductive TextCall where
  | read (r : TextRead)
  | readLength
  | readContent (maxlen : ℕ)
  deriving Repr, DecidableEq

def outcome {α : Type} (r : Option (Option α × TextReader)) : Option (Bool × TextReader) :=
  r.map fun x => (x.1.isSome, x.2)

def TextReadStream.call (s : TextReader) : TextCall → Option (Bool × TextReader)
  | .read r => outcome (readField s r)
  | .readLength => outcome (s.readLength textFormat)
  | .readContent maxlen => outcome (s.readContent maxlen)

def TextReadStream2.call (s : TextReader) : TextCall → Option (Bool × TextReader)
  | .read r => outcome (readField s r)
  | .readLength => outcome (s.readLength textFormat2)
  | .readContent maxlen => outcome (s.readContent maxlen)

theorem TextReadStream.call_read (s : TextReader) (r : TextRead) :
    call s (.read r) = outcome (s.read textFormat r.room) := by
  cases r with
  | string strlen =>
    simp only [call, outcome, readField, read, TextRead.room, Option.map_map, Function.comp_def,
      Option.isSome_map]
  | int =>
    simp only [call, outcome, readField, readInt, read, TextRead.room, Option.map_map,
      Function.comp_def, Option.isSome_map]
  | short =>
    simp only [call, outcome, readField, readShort, readInt, read, TextRead.room, Option.map_map,
      Function.comp_def, Option.isSome_map]
  | char c =>
    simp only [call, outcome, readField, readChar, read, TextRead.room, Option.map_map,
      Function.comp_def, Option.isSome_map]

theorem TextReadStream2.call_read (s : TextReader) (r : TextRead) :
    call s (.read r) = outcome (s.read textFormat2 r.room) := by
  cases r with
  | string strlen =>
    simp only [call, outcome, readField, read, TextRead.room, Option.map_map, Function.comp_def,
      Option.isSome_map]
  | int =>
    simp only [call, outcome, readField, readInt, read, TextRead.room, Option.map_map,
      Function.comp_def, Option.isSome_map]
  | short =>
    simp only [call, outcome, readField, readShort, read, TextRead.room, Option.map_map,
      Function.comp_def, Option.isSome_map]
  | char c =>
    simp only [call, outcome, readField, readChar, read, TextRead.room, Option.map_map,
      Function.comp_def, Option.isSome_map]

namespace TextReader

/-- What `strtol` makes of the prefix at the cursor, as a `size_t`. -/
def fieldlen (f : TextFormat) (s : TextReader) : ℕ :=
  (strtol 16 (load s.mem s.cur f.packlen) % 2 ^ 32).toNat

section
variable {f : TextFormat} {s : TextReader} {n : ℕ}

/-! ### The ways a `Read` can go -/

theorem prefix_of_beyond (h : s.beyond f.packlen = true) :
    s.readLengthWithoutOffset f = some none := by
  rw [readLengthWithoutOffset, if_pos h]

theorem prefix_of_outside (h : ¬s.beyond f.packlen = true) (hout : s.len < s.cur + f.packlen) :
    s.readLengthWithoutOffset f = none := by
  rw [readLengthWithoutOffset, if_neg h, peek, if_neg (by omega), Option.map_none]

theorem prefix_of_inside (h : ¬s.beyond f.packlen = true) (hin : s.cur + f.packlen ≤ s.len) :
    s.readLengthWithoutOffset f = some (some (s.fieldlen f)) := by
  rw [readLengthWithoutOffset, if_neg h, peek, if_pos hin, Option.map_some, fieldlen]

theorem read_of_beyond (h : s.beyond f.packlen = true) : s.read f n = some (none, s) := by
  simp only [read, prefix_of_beyond h]

theorem read_of_outside (h : ¬s.beyond f.packlen = true) (hout : s.len < s.cur + f.packlen) :
    s.read f n = none := by
  simp only [read, prefix_of_outside h hout]

theorem read_of_long (h : ¬s.beyond f.packlen = true) (hin : s.cur + f.packlen ≤ s.len)
    (hlong : n < s.fieldlen f) : s.read f n = some (none, s) := by
  simp only [read, prefix_of_inside h hin, if_pos hlong]

theorem read_of_cut (h : ¬s.beyond f.packlen = true) (hin : s.cur + f.packlen ≤ s.len)
    (hshort : s.fieldlen f ≤ n) (hcut : (s.moved f.packlen).beyond (s.fieldlen f) = true) :
    s.read f n = some (none, if f.restore then s else s.moved f.packlen) := by
  have hback : ({ s.moved f.packlen with cur := (s.moved f.packlen).cur - f.packlen } :
      TextReader) = s := by
    simp only [moved, Nat.add_sub_cancel]
  have hcontent : (s.moved f.packlen).readContent (s.fieldlen f) =
      some (none, s.moved f.packlen) := by
    rw [readContent, if_pos hcut]
  simp only [read, prefix_of_inside h hin, if_neg (Nat.not_lt.mpr hshort)]
  simp only [moved] at hcontent hback ⊢
  rw [hcontent]
  simp only [hback]

theorem read_of_content (h : ¬s.beyond f.packlen = true) (hin : s.cur + f.packlen ≤ s.len)
    (hshort : s.fieldlen f ≤ n) (hcut : ¬(s.moved f.packlen).beyond (s.fieldlen f) = true) :
    s.read f n = ((s.moved f.packlen).peek (s.fieldlen f)).map fun str =>
      (some str, s.moved (f.packlen + s.fieldlen f)) := by
  have hcontent : (s.moved f.packlen).readContent (s.fieldlen f) =
      ((s.moved f.packlen).peek (s.fieldlen f)).map fun str =>
        (some str, (s.moved f.packlen).moved (s.fieldlen f)) := by
    rw [readContent, if_neg hcut]
    rfl
  rw [moved_moved] at hcontent
  simp only [read, prefix_of_inside h hin, if_neg (Nat.not_lt.mpr hshort)]
  simp only [moved] at hcontent ⊢
  rw [hcontent]
  cases ({ s with cur := s.cur + f.packlen } : TextReader).peek (s.fieldlen f) with
  | none => rfl
  | some str => rfl

/-! ### Inside addresses that do not wrap -/

theorem beyond_iff {k : ℕ} (hcur : s.cur ≤ s.len) (hk : s.ptr + s.len + k < 2 ^ 32) :
    s.beyond k = true ↔ s.len < s.cur + k := by
  rw [beyond, decide_eq_true_eq, Nat.mod_eq_of_lt (by omega)]
  omega

theorem readContent_eq (hcur : s.cur ≤ s.len) (hn : s.ptr + s.len + n < 2 ^ 32) :
    s.readContent n =
      if s.len < s.cur + n then some (none, s)
      else some (some (load s.mem s.cur n), s.moved n) := by
  rw [readContent, if_congr (beyond_iff hcur hn) rfl rfl]
  split
  · rfl
  · rename_i hin
    rw [peek, if_pos (by omega), Option.map_some, moved]

theorem readLength_cases (hcur : s.cur ≤ s.len) (hpack : s.ptr + s.len + f.packlen < 2 ^ 32) :
    s.readLength f =
      if s.len < s.cur + f.packlen then some (none, s)
      else some (some (s.fieldlen f), s.moved f.packlen) := by
  have hbeyond := beyond_iff hcur hpack
  split
  · rename_i hout
    rw [readLength, prefix_of_beyond (hbeyond.mpr hout), Option.map_some]
  · rename_i hin
    rw [readLength, prefix_of_inside (hbeyond.not.mpr hin) (by omega), Option.map_some, moved]

/-- A `Read` that finds no field leaves the stream alone, a field that is cut off
leaves it where the version says, and a whole one is taken. -/
theorem read_cases (hcur : s.cur ≤ s.len) (hpack : s.ptr + s.len + f.packlen < 2 ^ 32)
    (hn : s.ptr + s.len + n < 2 ^ 32) :
    s.read f n = some (none, s) ∨
      s.cur + f.packlen ≤ s.len ∧
        s.read f n = some (none, if f.restore then s else s.moved f.packlen) ∨
      s.fieldlen f ≤ n ∧ s.cur + (f.packlen + s.fieldlen f) ≤ s.len ∧
        s.read f n = some (some (load s.mem (s.cur + f.packlen) (s.fieldlen f)),
          s.moved (f.packlen + s.fieldlen f)) := by
  have hbeyond := beyond_iff hcur hpack
  by_cases hin : s.cur + f.packlen ≤ s.len
  · have hnot : ¬s.beyond f.packlen = true := hbeyond.not.mpr (by omega)
    by_cases hshort : s.fieldlen f ≤ n
    · have hafter : (s.moved f.packlen).beyond (s.fieldlen f) = true ↔
          s.len < s.cur + f.packlen + s.fieldlen f :=
        beyond_iff hin (by change s.ptr + s.len + s.fieldlen f < 2 ^ 32; omega)
      by_cases hcut : s.cur + (f.packlen + s.fieldlen f) ≤ s.len
      · have hpeek : (s.moved f.packlen).peek (s.fieldlen f) =
            some (load s.mem (s.cur + f.packlen) (s.fieldlen f)) := by
          rw [peek, if_pos (by change s.cur + f.packlen + s.fieldlen f ≤ s.len; omega)]
          rfl
        refine Or.inr (Or.inr ⟨hshort, hcut, ?_⟩)
        rw [read_of_content hnot hin hshort (hafter.not.mpr (by omega)), hpeek, Option.map_some]
      · exact Or.inr (Or.inl ⟨hin, read_of_cut hnot hin hshort (hafter.mpr (by omega))⟩)
    · exact Or.inl (read_of_long hnot hin (Nat.lt_of_not_le hshort))
  · exact Or.inl (read_of_beyond (hbeyond.mpr (by omega)))

end

end TextReader

open TextReader

/-! ### The first version -/

/-- The most a call adds to an address of the packet. -/
def TextCall.reach : TextCall → ℕ
  | .read r => max 4 r.room
  | .readLength => 4
  | .readContent maxlen => maxlen

/-- Destinations below two gigabytes, and no address wraps. -/
def TextCall.Legal (s : TextReader) (c : TextCall) : Prop :=
  c.reach < 2 ^ 31 ∧ s.ptr + s.len + c.reach < 2 ^ 32

def TextStep (s : TextReader) (c : TextCall) (t : TextReader) : Prop :=
  ∃ ok, TextReadStream.call s c = some (ok, t)

structure InPacket (s t : TextReader) : Prop where
  ptr : t.ptr = s.ptr
  len : t.len = s.len
  mem : t.mem = s.mem
  cur : 4 ≤ t.cur ∧ t.cur ≤ t.len

/-- A failed call leaves the cursor alone, and a `Read` that succeeds copied no
more than its destination holds and moved behind what it copied. -/
structure Atomic (s : TextReader) (c : TextCall) (ok : Bool) (t : TextReader) : Prop where
  failed : ok = false → t.cur = s.cur
  taken : ∀ r, c = .read r → ok = true → ∃ str, s.read textFormat r.room = some (some str, t) ∧
    str.length ≤ r.room ∧ t.cur = s.cur + (4 + str.length)

theorem inPacket_moved {s : TextReader} {n : ℕ} (h4 : 4 ≤ s.cur) (h : s.cur + n ≤ s.len) :
    InPacket s (s.moved n) :=
  ⟨rfl, rfl, rfl, h4.trans (Nat.le_add_right _ _), h⟩

theorem textRead_atomic {s : TextReader} (h4 : 4 ≤ s.cur) (hcur : s.cur ≤ s.len) (r : TextRead)
    (h : (TextCall.read r).Legal s) :
    ∃ ok t, TextReadStream.call s (.read r) = some (ok, t) ∧ InPacket s t ∧
      Atomic s (.read r) ok t := by
  have hreach : max 4 r.room = (TextCall.read r).reach := rfl
  have hwrap := h.2
  rw [TextReadStream.call_read]
  have hself : InPacket s s := ⟨rfl, rfl, rfl, h4, hcur⟩
  have hstill : Atomic s (.read r) false s := by
    refine ⟨fun _ => rfl, ?_⟩
    intro _ _ hok
    exact absurd hok Bool.false_ne_true
  have hpack : textFormat.packlen = 4 := rfl
  rcases read_cases (f := textFormat) (n := r.room) hcur (by omega) (by omega) with
    hread | ⟨-, hread⟩ | ⟨hshort, hin, hread⟩
  · exact ⟨false, s, by rw [hread]; rfl, hself, hstill⟩
  · exact ⟨false, s, by rw [hread]; rfl, hself, hstill⟩
  · refine ⟨true, _, by rw [hread]; rfl, inPacket_moved h4 hin, ?_, ?_⟩
    · intro hok
      exact absurd hok.symm Bool.false_ne_true
    · intro r' heq _
      cases heq
      refine ⟨_, hread, ?_, ?_⟩
      · rw [load_length]
        exact hshort
      · rw [load_length]
        rfl

theorem moved_or_still {s : TextReader} {c : TextCall} {r : Option (Bool × TextReader)} {k : ℕ}
    (h4 : 4 ≤ s.cur) (hcur : s.cur ≤ s.len) (hc : ∀ arg, c ≠ .read arg)
    (hr : r = if s.len < s.cur + k then some (false, s) else some (true, s.moved k)) :
    ∃ ok t, r = some (ok, t) ∧ InPacket s t ∧ Atomic s c ok t := by
  have hread : ∀ arg, c = .read arg → False := fun arg heq => hc arg heq
  split at hr
  · refine ⟨false, s, hr, ⟨rfl, rfl, rfl, h4, hcur⟩, fun _ => rfl, ?_⟩
    intro arg heq
    exact (hread arg heq).elim
  · refine ⟨true, s.moved k, hr, inPacket_moved h4 (by omega), ?_, ?_⟩
    · intro hok
      exact absurd hok.symm Bool.false_ne_true
    · intro arg heq
      exact (hread arg heq).elim

theorem textCall_atomic {s : TextReader} (h4 : 4 ≤ s.cur) (hcur : s.cur ≤ s.len) (c : TextCall)
    (h : c.Legal s) :
    ∃ ok t, TextReadStream.call s c = some (ok, t) ∧ InPacket s t ∧ Atomic s c ok t := by
  cases c with
  | read r => exact textRead_atomic h4 hcur r h
  | readLength =>
    have hlength : s.readLength textFormat = if s.len < s.cur + 4 then some (none, s)
        else some (some (s.fieldlen textFormat), s.moved 4) := readLength_cases hcur h.2
    apply moved_or_still (k := 4) h4 hcur fun arg heq => by cases heq
    rw [TextReadStream.call, hlength, outcome]
    split
    · rfl
    · rfl
  | readContent maxlen =>
    have hcontent := readContent_eq (n := maxlen) hcur h.2
    apply moved_or_still (k := maxlen) h4 hcur fun arg heq => by cases heq
    rw [TextReadStream.call, hcontent, outcome]
    split
    · rfl
    · rfl

theorem InPacket.trans {s t u : TextReader} (h : InPacket s t) (h' : InPacket t u) :
    InPacket s u :=
  ⟨h'.ptr.trans h.ptr, h'.len.trans h.len, h'.mem.trans h.mem, h'.cur⟩

theorem InPacket.legal {s t : TextReader} {c : TextCall} (h : InPacket s t) (hc : c.Legal s) :
    c.Legal t := by
  rw [TextCall.Legal, h.ptr, h.len]
  exact hc

/-- From a new stream, every sequence of calls stays inside the packet, and every
call takes a whole field or leaves the cursor where it was. -/
theorem textReads_atomic {s t : TextReader} {tr : List (TextReader × TextCall)} (hnew : s.cur = 4)
    (hlen : 4 ≤ s.len) (hrun : Run TextStep s tr t) (hlegal : Meets (fun _ c => c.Legal s) tr) :
    InPacket s t ∧ ∀ c : TextCall, c.Legal s →
      ∃ ok u, TextReadStream.call t c = some (ok, u) ∧ InPacket s u ∧ Atomic t c ok u := by
  have hpacket : InPacket s t := by
    apply Run.invariant_of_meets _ hrun ⟨rfl, rfl, rfl, by omega, by omega⟩ hlegal
    intro t c u ht hc hstep
    obtain ⟨ok, hcall⟩ := hstep
    obtain ⟨ok', u', hcall', hin, -⟩ := textCall_atomic ht.cur.1 ht.cur.2 c (ht.legal hc)
    rw [hcall] at hcall'
    cases hcall'
    exact ht.trans hin
  refine ⟨hpacket, ?_⟩
  intro c hc
  obtain ⟨ok, u, hcall, hin, hatomic⟩ :=
    textCall_atomic hpacket.cur.1 hpacket.cur.2 c (hpacket.legal hc)
  exact ⟨ok, u, hcall, hpacket.trans hin, hatomic⟩

def packetOf (ptr cur : ℕ) (bs : Bytes) : TextReader :=
  { ptr := ptr, len := bs.length, mem := fun i => bs.getD i 0, cur := cur }

theorem textReads_atomic_field :
    InPacket (packetOf 4096 4 [48, 48, 48, 57, 48, 48, 48, 49, 65])
        (packetOf 4096 9 [48, 48, 48, 57, 48, 48, 48, 49, 65]) ∧
      ∀ c : TextCall, c.Legal (packetOf 4096 4 [48, 48, 48, 57, 48, 48, 48, 49, 65]) →
        ∃ ok u, TextReadStream.call (packetOf 4096 9 [48, 48, 48, 57, 48, 48, 48, 49, 65]) c =
            some (ok, u) ∧
          InPacket (packetOf 4096 4 [48, 48, 48, 57, 48, 48, 48, 49, 65]) u ∧
          Atomic (packetOf 4096 9 [48, 48, 48, 57, 48, 48, 48, 49, 65]) c ok u := by
  have h0 : Run TextStep (packetOf 4096 4 [48, 48, 48, 57, 48, 48, 48, 49, 65]) [] _ := .nil
  have hstep : TextStep (packetOf 4096 4 [48, 48, 48, 57, 48, 48, 48, 49, 65])
      (.read (.string 8)) (packetOf 4096 9 [48, 48, 48, 57, 48, 48, 48, 49, 65]) := ⟨true, rfl⟩
  exact textReads_atomic rfl (by decide) (h0.snoc hstep)
    (meets_snoc.mpr ⟨meets_nil _, by decide, by decide⟩)

/-- Two bytes below the end of the address space the sum for a prefix is 2, and the four
bytes behind an empty packet are read for one. -/
theorem prefix_passes_packet :
    0xfffffffa + 4 + (TextRead.char 0).room < 2 ^ 32 ∧
      TextReadStream.call ⟨0xfffffffa, 4, fun _ => 0, 4⟩ (.read (.char 0)) = none := by
  constructor
  · decide
  · rfl

/-! ### The second version -/

def Text2Step (s : TextReader) (c : TextCall) (t : TextReader) : Prop :=
  ∃ ok, TextReadStream2.call s c = some (ok, t)

def Restores (s : TextReader) (c : TextCall) : Prop :=
  ∀ r t, c = .read r → TextReadStream2.call s c = some (false, t) → t.cur = s.cur

/-- The prefix is inside the packet and fits the destination, and the field it
announces goes beyond the end. -/
def CutOff (s : TextReader) (r : TextRead) : Prop :=
  s.cur + 6 ≤ s.len ∧ s.fieldlen textFormat2 ≤ r.room ∧
    (s.moved 6).beyond (s.fieldlen textFormat2) = true

def NotCutOff (s : TextReader) (c : TextCall) : Prop := ∀ r, c = .read r → ¬CutOff s r

theorem not_beyond_of_inside {s : TextReader} {n : ℕ} (haddr : s.ptr + s.len < 2 ^ 32)
    (h : s.cur + n ≤ s.len) : ¬s.beyond n = true := by
  rw [beyond, decide_eq_true_eq, Nat.mod_eq_of_lt (by omega)]
  omega

theorem not_cutOff_of_restores {s : TextReader} {r : TextRead} (haddr : s.ptr + s.len < 2 ^ 32)
    (h : Restores s (.read r)) : ¬CutOff s r := by
  intro hall
  obtain ⟨hin, hshort, hcut⟩ := hall
  have hread : s.read textFormat2 r.room = some (none, s.moved 6) :=
    read_of_cut (f := textFormat2) (not_beyond_of_inside haddr hin) hin hshort hcut
  have hcall : TextReadStream2.call s (.read r) = some (false, s.moved 6) := by
    rw [TextReadStream2.call_read, hread]
    rfl
  have hcur : s.cur + 6 = s.cur := h r _ rfl hcall
  omega

theorem read_false_still {s t : TextReader} {r : TextRead} (hcut : ¬CutOff s r)
    (h : TextReadStream2.call s (.read r) = some (false, t)) : t = s := by
  rw [TextReadStream2.call_read] at h
  by_cases hbeyond : s.beyond textFormat2.packlen = true
  · rw [read_of_beyond hbeyond] at h
    cases h
    rfl
  · by_cases hin : s.cur + textFormat2.packlen ≤ s.len
    · by_cases hshort : s.fieldlen textFormat2 ≤ r.room
      · have hafter : ¬(s.moved textFormat2.packlen).beyond (s.fieldlen textFormat2) = true :=
          fun hover => hcut ⟨hin, hshort, hover⟩
        rw [read_of_content hbeyond hin hshort hafter] at h
        -- A field that is read is never reported as `false`.
        cases hpeek : (s.moved textFormat2.packlen).peek (s.fieldlen textFormat2) with
        | none =>
          rw [hpeek] at h
          cases h
        | some str =>
          rw [hpeek] at h
          cases h
      · rw [read_of_long hbeyond hin (Nat.lt_of_not_le hshort)] at h
        cases h
        rfl
    · rw [read_of_outside hbeyond (Nat.lt_of_not_le hin)] at h
      cases h

theorem restores_iff {s : TextReader} (haddr : s.ptr + s.len < 2 ^ 32) (c : TextCall) :
    Restores s c ↔ NotCutOff s c := by
  constructor
  · intro h r heq
    subst heq
    exact not_cutOff_of_restores haddr h
  · intro h r t heq hcall
    subst heq
    rw [read_false_still (h r rfl) hcall]

theorem read_block {s : TextReader} {n : ℕ} {x : Option Bytes × TextReader}
    (h : s.read textFormat2 n = some x) : x.2.ptr + x.2.len = s.ptr + s.len := by
  by_cases hbeyond : s.beyond textFormat2.packlen = true
  · rw [read_of_beyond hbeyond] at h
    cases h
    rfl
  · by_cases hin : s.cur + textFormat2.packlen ≤ s.len
    · by_cases hshort : s.fieldlen textFormat2 ≤ n
      · by_cases hover : (s.moved textFormat2.packlen).beyond (s.fieldlen textFormat2) = true
        · rw [read_of_cut hbeyond hin hshort hover] at h
          cases h
          rfl
        · rw [read_of_content hbeyond hin hshort hover] at h
          obtain ⟨str, -, heq⟩ := Option.map_eq_some_iff.mp h
          cases heq
          rfl
      · rw [read_of_long hbeyond hin (Nat.lt_of_not_le hshort)] at h
        cases h
        rfl
    · rw [read_of_outside hbeyond (Nat.lt_of_not_le hin)] at h
      cases h

theorem text2Step_block {s t : TextReader} {c : TextCall} (h : Text2Step s c t) :
    t.ptr + t.len = s.ptr + s.len := by
  obtain ⟨ok, hcall⟩ := h
  cases c with
  | read r =>
    rw [TextReadStream2.call_read] at hcall
    obtain ⟨x, hx, heq⟩ := Option.map_eq_some_iff.mp hcall
    cases heq
    exact read_block hx
  | readLength =>
    obtain ⟨x, hx, heq⟩ := Option.map_eq_some_iff.mp hcall
    obtain ⟨r, -, hr⟩ := Option.map_eq_some_iff.mp hx
    cases heq
    subst hr
    cases r with
    | none => rfl
    | some outlen => rfl
  | readContent maxlen =>
    obtain ⟨x, hx, heq⟩ := Option.map_eq_some_iff.mp hcall
    cases heq
    rw [readContent] at hx
    split at hx
    · cases hx
      rfl
    · obtain ⟨str, -, hr⟩ := Option.map_eq_some_iff.mp hx
      subst hr
      rfl

/-- In a run of calls every failed `Read` leaves the cursor where it was exactly
when no `Read` meets a field whose content is cut off. -/
theorem text2_restores_iff {s t : TextReader} {tr : List (TextReader × TextCall)}
    (haddr : s.ptr + s.len < 2 ^ 32) (hrun : Run Text2Step s tr t) :
    Meets Restores tr ↔ Meets NotCutOff tr := by
  have hblock : Throughout (fun u => u.ptr + u.len = s.ptr + s.len) tr t := by
    apply Run.throughout (I := fun u => u.ptr + u.len = s.ptr + s.len) (G := fun _ _ => True) _
      hrun rfl fun _ _ => trivial
    intro u c v hu _ hstep
    exact (text2Step_block hstep).trans hu
  constructor
  · intro hall x hx
    have haddr' := (hblock.1 x hx).trans_lt haddr
    exact (restores_iff haddr' x.2).mp (hall x hx)
  · intro hall x hx
    have haddr' := (hblock.1 x hx).trans_lt haddr
    exact (restores_iff haddr' x.2).mpr (hall x hx)

theorem text2_restores_field :
    Meets Restores [(packetOf 4096 6 [48, 48, 48, 48, 48, 100, 48, 48, 48, 48, 48, 49, 65],
        TextCall.read (.string 0)),
      (packetOf 4096 6 [48, 48, 48, 48, 48, 100, 48, 48, 48, 48, 48, 49, 65],
        TextCall.read (.string 8))] := by
  have h0 : Run Text2Step
      (packetOf 4096 6 [48, 48, 48, 48, 48, 100, 48, 48, 48, 48, 48, 49, 65]) [] _ := .nil
  -- The destination of the first call is too short, the second takes the field.
  have hrefused : Text2Step
      (packetOf 4096 6 [48, 48, 48, 48, 48, 100, 48, 48, 48, 48, 48, 49, 65])
      (.read (.string 0))
      (packetOf 4096 6 [48, 48, 48, 48, 48, 100, 48, 48, 48, 48, 48, 49, 65]) := ⟨false, rfl⟩
  have htaken : Text2Step
      (packetOf 4096 6 [48, 48, 48, 48, 48, 100, 48, 48, 48, 48, 48, 49, 65])
      (.read (.string 8))
      (packetOf 4096 13 [48, 48, 48, 48, 48, 100, 48, 48, 48, 48, 48, 49, 65]) := ⟨true, rfl⟩
  have hwhole : ∀ strlen, ¬CutOff
      (packetOf 4096 6 [48, 48, 48, 48, 48, 100, 48, 48, 48, 48, 48, 49, 65]) (.string strlen) := by
    intro strlen hcut
    exact absurd hcut.2.2 (by decide)
  apply (text2_restores_iff (by decide) ((h0.snoc hrefused).snoc htaken)).mpr
  refine meets_snoc.mpr ⟨meets_snoc.mpr ⟨meets_nil _, ?_⟩, ?_⟩
  · intro r hr
    cases hr
    exact hwhole 0
  · intro r hr
    cases hr
    exact hwhole 8

/-- The field `000005` has one byte of content: the call fails behind the prefix. -/
theorem text2_moves_on :
    ¬Restores (packetOf 4096 6 [48, 48, 48, 48, 48, 100, 48, 48, 48, 48, 48, 53, 65])
      (.read (.string 8)) := by
  intro h
  have hcut : CutOff (packetOf 4096 6 [48, 48, 48, 48, 48, 100, 48, 48, 48, 48, 48, 53, 65])
      (.string 8) := ⟨by decide, by decide, by decide⟩
  exact not_cutOff_of_restores (by decide) h hcut

end GameRes.NetPack
