import GameRes.NetApp.MessageBuffer

/-!
# Inserting and extracting values (NetApp/Buffer.h:135-339)

Sequences of `operator<<` and of `operator>>`. An item is a variable of one of
the ten types with the value it holds.
-/

namespace GameRes.NetApp
open Library

inductive Kind where
  | uint8 | int8 | uint16 | int16 | int | uint64 | int64 | float | double | string
  deriving Repr, DecidableEq

inductive Item where
  | uint8 (value : BitVec 8)
  | int8 (value : BitVec 8)
  | uint16 (value : BitVec 16)
  | int16 (value : BitVec 16)
  | int (value : BitVec 32)
  | uint64 (value : BitVec 64)
  | int64 (value : BitVec 64)
  | float (value : BitVec 32)
  | double (value : BitVec 64)
  | string (value : Bytes)
  deriving Repr, DecidableEq

namespace Item

def kind : Item → Kind
  | uint8 _ => .uint8
  | int8 _ => .int8
  | uint16 _ => .uint16
  | int16 _ => .int16
  | int _ => .int
  | uint64 _ => .uint64
  | int64 _ => .int64
  | float _ => .float
  | double _ => .double
  | string _ => .string

/-- What an item must be to come back: floating-point values finite, strings
without a zero byte. -/
def Plain : Item → Prop
  | float value => isFiniteFloat value = true
  | double value => isFiniteDouble value = true
  | string value => 0 ∉ value
  | _ => True

def insert (b : MessageBuffer) : Item → Option MessageBuffer
  | uint8 value => b.insertUint8 value
  | int8 value => b.insertInt8 value
  | uint16 value => b.insertUint16 value
  | int16 value => b.insertInt16 value
  | int value => b.insertInt value
  | uint64 value => b.insertUint64 value
  | int64 value => b.insertInt64 value
  | float value => b.insertFloat value
  | double value => b.insertDouble value
  | string value => b.insertString value

/-- `operator>>` into the variable `item`. -/
def extract (b : MessageBuffer) : Item → Option (Item × MessageBuffer)
  | uint8 _ => b.extractUint8.map fun r => (uint8 r.1, r.2)
  | int8 _ => b.extractInt8.map fun r => (int8 r.1, r.2)
  | uint16 _ => b.extractUint16.map fun r => (uint16 r.1, r.2)
  | int16 _ => b.extractInt16.map fun r => (int16 r.1, r.2)
  | int _ => b.extractInt.map fun r => (int r.1, r.2)
  | uint64 _ => b.extractUint64.map fun r => (uint64 r.1, r.2)
  | int64 _ => b.extractInt64.map fun r => (int64 r.1, r.2)
  | float value => (b.extractFloat value).map fun r => (float r.1, r.2)
  | double value => (b.extractDouble value).map fun r => (double r.1, r.2)
  | string _ => b.extractString.map fun r => (string r.1, r.2)

/-- The bytes of one item: swapped words, floating-point values as they are in
memory, strings with their zero. -/
def encode : Item → Bytes
  | uint8 value => leBytes 1 value.toNat
  | int8 value => leBytes 1 value.toNat
  | uint16 value => leBytes 2 (swapBytes 2 value.toNat)
  | int16 value => leBytes 2 (swapBytes 2 value.toNat)
  | int value => leBytes 4 (swapBytes 4 value.toNat)
  | uint64 value => leBytes 8 (swapBytes 8 value.toNat)
  | int64 value => leBytes 8 (swapBytes 8 value.toNat)
  | float value => leBytes 4 value.toNat
  | double value => leBytes 8 value.toNat
  | string value => value ++ leBytes 1 0

end Item

namespace MessageBuffer

def insertAll (b : MessageBuffer) : List Item → Option MessageBuffer
  | [] => some b
  | item :: items =>
    match item.insert b with
    | none => none
    | some b' => insertAll b' items

def extractAll (b : MessageBuffer) : List Item → Option (List Item × MessageBuffer)
  | [] => some ([], b)
  | item :: items =>
    match item.extract b with
    | none => none
    | some r => (extractAll r.2 items).map fun rest => (r.1 :: rest.1, rest.2)

/-! ### One item -/

theorem insertString_eq {b : MessageBuffer} (h : b.wpos ≤ b.buffer.length) (value : Bytes) :
    b.insertString value = some (b.appended (value ++ leBytes 1 0)) := by
  have hzero := appendWord_eq (appended_fits h value) 1 0
  rw [appended_appended h] at hzero
  unfold insertString
  split
  next =>
    rw [append_eq h]
    exact hzero
  next hnil =>
    have hvalue := List.eq_nil_of_length_eq_zero (not_not.mp hnil)
    rw [hvalue, List.nil_append]
    exact appendWord_eq h 1 0

theorem insert_eq {b : MessageBuffer} (h : b.wpos ≤ b.buffer.length) (item : Item) :
    item.insert b = some (b.appended item.encode) := by
  cases item with
  | uint8 value => exact appendWord_eq h 1 value.toNat
  | int8 value => exact appendWord_eq h 1 value.toNat
  | uint16 value => exact appendWord_eq h 2 (swapBytes 2 value.toNat)
  | int16 value => exact appendWord_eq h 2 (swapBytes 2 value.toNat)
  | int value => exact appendWord_eq h 4 (swapBytes 4 value.toNat)
  | uint64 value => exact appendWord_eq h 8 (swapBytes 8 value.toNat)
  | int64 value => exact appendWord_eq h 8 (swapBytes 8 value.toNat)
  | float value => exact appendWord_eq h 4 value.toNat
  | double value => exact appendWord_eq h 8 value.toNat
  | string value => exact insertString_eq h value

theorem scanString_eq {value : Bytes} (hzero : 0 ∉ value) {before behind : Bytes}
    (b : MessageBuffer) (done : Bytes) {left : ℕ}
    (hbuf : b.buffer = before ++ (value ++ leBytes 1 0) ++ behind)
    (hpos : b.rpos = before.length) (hleft : value.length < left) :
    scanString left b done = some (done ++ value, { b with rpos := b.rpos + (value.length + 1) }) := by
  induction value generalizing b before done left with
  | nil =>
    cases left with
    | zero => exact absurd hleft (Nat.not_lt_zero _)
    | succ left =>
      rw [List.nil_append] at hbuf
      have hread : b.read 1 = some (leBytes 1 0, { b with rpos := b.rpos + 1 }) :=
        read_eq hbuf hpos
      have hstop : leVal (leBytes 1 0) = 0 := rfl
      simp only [scanString, hread, hstop, ite_true, List.append_nil, List.length_nil, Nat.zero_add]
  | cons c value ih =>
    cases left with
    | zero => exact absurd hleft (Nat.not_lt_zero _)
    | succ left =>
      have hc : ¬0 = c := fun hc => hzero (hc ▸ List.mem_cons_self)
      have hrest : 0 ∉ value := fun hmem => hzero (List.mem_cons_of_mem _ hmem)
      have hsplit : b.buffer = before ++ [c] ++ (value ++ leBytes 1 0 ++ behind) := by
        rw [hbuf]
        simp only [List.append_assoc, List.cons_append, List.nil_append]
      have hread : b.read 1 = some ([c], { b with rpos := b.rpos + 1 }) := read_eq hsplit hpos
      have hgo : leVal [c] ≠ 0 := by
        intro hval
        apply hc
        apply BitVec.eq_of_toNat_eq
        rw [leVal_cons, leVal_nil, Nat.mul_zero, Nat.add_zero] at hval
        exact hval.symm
      -- The character is taken, and the loop goes on behind it.
      have hbuf' : b.buffer = before ++ [c] ++ (value ++ leBytes 1 0) ++ behind := by
        rw [hsplit, ← List.append_assoc]
      have hpos' : b.rpos + 1 = (before ++ [c]).length := by
        rw [hpos, List.length_append, List.length_singleton]
      have hnext := ih hrest { b with rpos := b.rpos + 1 } (done ++ [c]) hbuf' hpos'
        (Nat.lt_of_succ_lt_succ hleft)
      simp only [scanString, hread, hgo, ite_false, hnext, List.append_assoc, List.cons_append,
        List.nil_append, List.length_cons, Option.some.injEq, Prod.mk.injEq, true_and]
      congr 1
      omega

theorem ofNat_word {w n : ℕ} (hw : 256 ^ n = 2 ^ w) (value : BitVec w) :
    BitVec.ofNat w (value.toNat % 256 ^ n) = value := by
  rw [hw, Nat.mod_eq_of_lt value.isLt, BitVec.ofNat_toNat, BitVec.setWidth_eq]

theorem extractWord_eq {b : MessageBuffer} {w n : ℕ} (hw : 256 ^ n = 2 ^ w) {value : BitVec w}
    {before behind : Bytes} (hbuf : b.buffer = before ++ leBytes n value.toNat ++ behind)
    (hpos : b.rpos = before.length) :
    (b.readWord n).map (fun r => (BitVec.ofNat w r.1, r.2)) =
      some (value, { b with rpos := b.rpos + n }) := by
  rw [readWord_eq hbuf hpos, Option.map_some, ofNat_word hw]

theorem extractSwapped_eq {b : MessageBuffer} {w n : ℕ} (hw : 256 ^ n = 2 ^ w) {value : BitVec w}
    {before behind : Bytes}
    (hbuf : b.buffer = before ++ leBytes n (swapBytes n value.toNat) ++ behind)
    (hpos : b.rpos = before.length) :
    (b.readSwapped n).map (fun r => (BitVec.ofNat w r.1, r.2)) =
      some (value, { b with rpos := b.rpos + n }) := by
  rw [readSwapped_eq hbuf hpos, Option.map_some, ofNat_word hw]

theorem extractFloat_eq {b : MessageBuffer} {value : BitVec 32} (hfinite : isFiniteFloat value = true)
    (old : BitVec 32) {before behind : Bytes}
    (hbuf : b.buffer = before ++ leBytes 4 value.toNat ++ behind) (hpos : b.rpos = before.length) :
    b.extractFloat old = some (value, { b with rpos := b.rpos + 4 }) := by
  have hvalue : BitVec.ofNat 32 (value.toNat % 256 ^ 4) = value := ofNat_word rfl value
  rw [extractFloat, readWord_eq hbuf hpos, Option.map_some, hvalue, hfinite, if_pos rfl]

theorem extractDouble_eq {b : MessageBuffer} {value : BitVec 64}
    (hfinite : isFiniteDouble value = true) (old : BitVec 64) {before behind : Bytes}
    (hbuf : b.buffer = before ++ leBytes 8 value.toNat ++ behind) (hpos : b.rpos = before.length) :
    b.extractDouble old = some (value, { b with rpos := b.rpos + 8 }) := by
  have hvalue : BitVec.ofNat 64 (value.toNat % 256 ^ 8) = value := ofNat_word rfl value
  rw [extractDouble, readWord_eq hbuf hpos, Option.map_some, hvalue, hfinite, if_pos rfl]

theorem extractString_eq {b : MessageBuffer} {value : Bytes} (hzero : 0 ∉ value)
    {before behind : Bytes} (hbuf : b.buffer = before ++ (value ++ leBytes 1 0) ++ behind)
    (hpos : b.rpos = before.length) :
    b.extractString = some (value, { b with rpos := b.rpos + (value.length + 1) }) := by
  have hleft : value.length < b.getBufferSize - b.rpos := by
    simp only [getBufferSize, hbuf, hpos, List.length_append, leBytes_length]
    omega
  exact scanString_eq hzero b [] hbuf hpos hleft

theorem extract_eq {b : MessageBuffer} {item : Item} (hplain : item.Plain) {dest : Item}
    (hkind : dest.kind = item.kind) {before behind : Bytes}
    (hbuf : b.buffer = before ++ item.encode ++ behind) (hpos : b.rpos = before.length) :
    dest.extract b = some (item, { b with rpos := b.rpos + item.encode.length }) := by
  cases item with
  | uint8 value =>
    cases dest <;> cases hkind
    exact congrArg (Option.map _) (extractWord_eq (w := 8) (n := 1) rfl hbuf hpos)
  | int8 value =>
    cases dest <;> cases hkind
    exact congrArg (Option.map _) (extractWord_eq (w := 8) (n := 1) rfl hbuf hpos)
  | uint16 value =>
    cases dest <;> cases hkind
    exact congrArg (Option.map _) (extractSwapped_eq (w := 16) (n := 2) rfl hbuf hpos)
  | int16 value =>
    cases dest <;> cases hkind
    exact congrArg (Option.map _) (extractSwapped_eq (w := 16) (n := 2) rfl hbuf hpos)
  | int value =>
    cases dest <;> cases hkind
    exact congrArg (Option.map _) (extractSwapped_eq (w := 32) (n := 4) rfl hbuf hpos)
  | uint64 value =>
    cases dest <;> cases hkind
    exact congrArg (Option.map _) (extractSwapped_eq (w := 64) (n := 8) rfl hbuf hpos)
  | int64 value =>
    cases dest <;> cases hkind
    exact congrArg (Option.map _) (extractSwapped_eq (w := 64) (n := 8) rfl hbuf hpos)
  | float value =>
    cases dest <;> cases hkind
    exact congrArg (Option.map _) (extractFloat_eq hplain _ hbuf hpos)
  | double value =>
    cases dest <;> cases hkind
    exact congrArg (Option.map _) (extractDouble_eq hplain _ hbuf hpos)
  | string value =>
    cases dest <;> cases hkind
    have hlen : (Item.string value).encode.length = value.length + 1 := by
      simp only [Item.encode, List.length_append, leBytes_length]
    rw [hlen]
    exact congrArg (Option.map _) (extractString_eq hplain hbuf hpos)

/-! ### Sequences -/

theorem insertAll_eq {b : MessageBuffer} (h : b.wpos ≤ b.buffer.length) (items : List Item) :
    b.insertAll items = some (b.appended (items.flatMap Item.encode)) := by
  induction items generalizing b with
  | nil =>
    simp only [insertAll, appended, List.flatMap_nil, List.append_nil, List.length_nil,
      Nat.add_zero, List.take_append_drop]
  | cons item items ih =>
    rw [insertAll, insert_eq h]
    simp only [ih (appended_fits h _), appended_appended h, List.flatMap_cons]

theorem extractAll_eq {items : List Item} (hplain : ∀ item ∈ items, item.Plain) {dests : List Item}
    (hkinds : dests.map Item.kind = items.map Item.kind) {b : MessageBuffer} {before behind : Bytes}
    (hbuf : b.buffer = before ++ items.flatMap Item.encode ++ behind)
    (hpos : b.rpos = before.length) :
    b.extractAll dests =
      some (items, { b with rpos := b.rpos + (items.flatMap Item.encode).length }) := by
  induction items generalizing b before dests with
  | nil =>
    rw [List.map_nil, List.map_eq_nil_iff] at hkinds
    rw [hkinds, extractAll, List.flatMap_nil, List.length_nil, Nat.add_zero]
  | cons item items ih =>
    cases dests with
    | nil => cases hkinds
    | cons dest dests =>
      obtain ⟨hkind, hrest⟩ := List.cons.inj hkinds
      rw [List.flatMap_cons, ← List.append_assoc] at hbuf
      have hitem : b.buffer = before ++ item.encode ++ (items.flatMap Item.encode ++ behind) := by
        rw [hbuf, List.append_assoc]
      have hfirst := extract_eq (hplain item List.mem_cons_self) hkind hitem hpos
      have hnext := ih (fun i hi => hplain i (List.mem_cons_of_mem _ hi)) hrest
        (b := { b with rpos := b.rpos + item.encode.length }) hbuf
        (by rw [hpos, List.length_append])
      simp only [extractAll, hfirst, hnext, Option.map_some, List.flatMap_cons, List.length_append,
        Nat.add_assoc]

/-- Plain items inserted into a fresh or reset buffer are extracted again, and the read
position ends at the write position. -/
theorem insertAll_extractAll {b : MessageBuffer} (hstart : b = fresh ∨ ∃ old, b = reset old)
    {items dests : List Item} (hplain : ∀ item ∈ items, item.Plain)
    (hkinds : dests.map Item.kind = items.map Item.kind) :
    ∃ full rest, b.insertAll items = some full ∧ full.extractAll dests = some (items, rest) ∧
      rest.rpos = rest.wpos := by
  have hzero : b.rpos = 0 ∧ b.wpos = 0 := by
    obtain hfresh | ⟨old, hreset⟩ := hstart
    · rw [hfresh]
      exact ⟨rfl, rfl⟩
    · rw [hreset]
      exact ⟨rfl, rfl⟩
  obtain ⟨hrpos, hwpos⟩ := hzero
  have hinsert := insertAll_eq (b := b) (by omega) items
  have hbuf : (b.appended (items.flatMap Item.encode)).buffer =
      [] ++ items.flatMap Item.encode ++ b.buffer.drop (items.flatMap Item.encode).length := by
    simp only [appended, hwpos, List.take_zero, Nat.zero_add]
  have hextract := extractAll_eq hplain hkinds hbuf hrpos
  refine ⟨_, _, hinsert, hextract, ?_⟩
  simp only [appended, hrpos, hwpos]

theorem insertAll_extractAll_reset :
    ∃ full rest,
      (reset ⟨[7, 7, 7], 2, 3⟩).insertAll [.int16 0x1234, .string [65], .float 0x3f800000] =
          some full ∧
        full.extractAll [.int16 0, .string [1, 2], .float 0] =
          some ([.int16 0x1234, .string [65], .float 0x3f800000], rest) ∧
        rest.rpos = rest.wpos := by
  have hstring : (0 : Byte) ∉ [65] := by decide
  have hfloat : isFiniteFloat 0x3f800000 = true := by decide
  have hplain : ∀ item ∈ [Item.int16 0x1234, .string [65], .float 0x3f800000], item.Plain := by
    simp only [List.forall_mem_cons, Item.Plain, hstring, hfloat, List.not_mem_nil]
    simp
  exact insertAll_extractAll (Or.inr ⟨_, rfl⟩) hplain rfl

end MessageBuffer
end GameRes.NetApp
