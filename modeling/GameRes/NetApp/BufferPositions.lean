import GameRes.NetApp.BufferMoves
import GameRes.NetApp.StringInserters
import GameRes.Library.Runs

/-!
# The positions of a message buffer (NetApp/Buffer.h:31-339)

Any sequence of calls on a buffer. The calls that move the read position test it
against the size of the vector, those of `read<T>` move it also when the test failed,
`Write` has no test at all, and `Resize` cuts the vector wherever the positions are.
-/

namespace GameRes.NetApp
open Library

namespace MessageBuffer

def write (b : MessageBuffer) (data : Bytes) : Option MessageBuffer :=
  if data.length ≠ 0 then
    (writeBlock b.buffer b.wpos data).map fun buffer =>
      { b with buffer := buffer, wpos := b.wpos + data.length }
  else some b

/-- `read(dest, len)`: what was copied, nothing when the vector is too short. -/
def readBytes (b : MessageBuffer) (len : ℕ) : Option (Bytes × MessageBuffer) :=
  if sizeAdd b.rpos len > b.getBufferSize then some ([], b)
  else (readBlock b.buffer b.rpos len).map fun dest => (dest, { b with rpos := b.rpos + len })

def resize (b : MessageBuffer) : MessageBuffer :=
  { b with buffer := resizeBlock b.buffer messageMaxLength }

def writeComplete (b : MessageBuffer) (bytes : ℕ) : MessageBuffer := { b with wpos := b.wpos + bytes }

def readComplete (b : MessageBuffer) (bytes : ℕ) : MessageBuffer := { b with rpos := b.rpos + bytes }

/-- The cells of the vector that `n` bytes from `pos` on are taken from; `none` is a zero
that stands for a byte behind the vector. -/
def cells (b : MessageBuffer) (n pos : ℕ) : List (Option ℕ) :=
  if pos + n > b.getBufferSize then List.replicate n none else (List.range' pos n).map some

end MessageBuffer

/-- The calls, with the data they are given. Before `ReadComplete` the caller takes
`peeked` bytes at the read pointer, before `WriteComplete` it puts `data` at the write
pointer. `left` is the vector that the caller of `Move` leaves behind; `none` is a caller
that drops the reference. -/
inductive BufferCall where
  | write (data : Bytes)
  | append (src : Bytes)
  | insert (item : Item)
  | assign (str : Option Bytes)
  | readAt (n : ℕ) (pos : BitVec 32)
  | read (n : ℕ)
  | readBytes (len : BitVec 32)
  | extract (item : Item)
  | normalize
  | reset
  | resize
  | move (left : Option Bytes)
  | readComplete (peeked bytes : ℕ)
  | writeComplete (data : Bytes) (bytes : ℕ)
  deriving Repr, DecidableEq

namespace BufferCall
open MessageBuffer

def run (b : MessageBuffer) : BufferCall → Option MessageBuffer
  | write data => b.write data
  | append src => b.append src
  | insert item => item.insert b
  | assign str => b.assign str
  | readAt n pos => (b.readAt n pos.toNat).map fun _ => b
  | read n => (b.read n).map Prod.snd
  | readBytes len => (b.readBytes len.toNat).map Prod.snd
  | extract item => (item.extract b).map Prod.snd
  | normalize => b.normalize
  | reset => some b.reset
  | resize => some b.resize
  | move left => some ⟨left.getD b.buffer, 0, 0⟩
  | readComplete peeked bytes => (readBlock b.buffer b.rpos peeked).map fun _ => b.readComplete bytes
  | writeComplete data bytes => (writeBlock b.buffer b.wpos data).map fun buffer =>
      MessageBuffer.writeComplete { b with buffer := buffer } bytes

/-- The sizes that the callers of `ReadComplete` and `WriteComplete` are asked for. -/
def Legal (b : MessageBuffer) : BufferCall → Prop
  | readComplete peeked bytes => peeked ≤ b.getActiveSize ∧ bytes ≤ b.getActiveSize
  | writeComplete data bytes => data.length ≤ b.getRemainingSpace ∧ bytes ≤ b.getRemainingSpace
  | _ => True

/-- What a call that left `b'` extracted from `b`. -/
def extracted (b b' : MessageBuffer) : BufferCall → List (Option ℕ)
  | readAt n pos => b.cells n pos.toNat
  | read _ | readBytes _ | extract _ => b.cells (b'.rpos - b.rpos) b.rpos
  | readComplete peeked _ => b.cells peeked b.rpos
  | _ => []

/-- The cells written since the last `Reset` after a call that left `b'`. A `Normalize`
that returns has moved none, and the bytes of a vector left by `Move` are its taker's. -/
def marked (b b' : MessageBuffer) (written : ℕ → Bool) : BufferCall → ℕ → Bool
  | reset | move (some _) => fun _ => false
  | resize => fun i => written i && decide (i < messageMaxLength)
  | writeComplete data _ => fun i => written i || decide (b.wpos ≤ i ∧ i < b.wpos + data.length)
  | _ => fun i => written i || decide (b.wpos ≤ i ∧ i < b'.wpos)

end BufferCall

/-- A buffer with what happened to it: the cells written since the last `Reset`, the number
of bytes that were extracted and not so written, and whether a call left the vector. -/
structure Watched where
  buffer : MessageBuffer
  written : ℕ → Bool := fun _ => false
  unwritten : ℕ := 0
  outside : Bool := false

namespace MessageBuffer

/-! ### How far a read moves -/

/-- A read of `n` bytes moves the read position by `n`, or leaves the vector. -/
def Advances {α : Type} (b : MessageBuffer) (n : ℕ) (r : Option (α × MessageBuffer)) : Prop :=
  (∃ v, r = some (v, { b with rpos := b.rpos + n })) ∨ r = none ∧ b.buffer.length < b.rpos + n

theorem Advances.map {α β : Type} {b : MessageBuffer} {n : ℕ} {r : Option (α × MessageBuffer)}
    (h : b.Advances n r) (f : α → β) : b.Advances n (r.map fun x => (f x.1, x.2)) := by
  rcases h with ⟨v, hv⟩ | ⟨hnone, hbehind⟩
  · rw [hv]
    exact Or.inl ⟨f v, rfl⟩
  · rw [hnone]
    exact Or.inr ⟨rfl, hbehind⟩

theorem readAt_cases (b : MessageBuffer) (n pos : ℕ) :
    (∃ bytes, b.readAt n pos = some bytes) ∨
      b.readAt n pos = none ∧ b.buffer.length < pos + n ∧ sizeAdd pos n ≤ b.buffer.length := by
  unfold readAt
  split
  next => exact Or.inl ⟨_, rfl⟩
  next hguard =>
    by_cases hinside : pos + n ≤ b.buffer.length
    · rw [readBlock_of_le hinside]
      exact Or.inl ⟨_, rfl⟩
    · rw [readBlock, if_neg hinside]
      exact Or.inr ⟨rfl, Nat.not_le.mp hinside, Nat.not_lt.mp hguard⟩

theorem read_advances (b : MessageBuffer) (n : ℕ) : b.Advances n (b.read n) := by
  unfold read
  rcases b.readAt_cases n b.rpos with ⟨bytes, hread⟩ | ⟨hnone, hbehind, -⟩
  · rw [hread]
    exact Or.inl ⟨bytes, rfl⟩
  · rw [hnone]
    exact Or.inr ⟨rfl, hbehind⟩

theorem readAt_cells {b : MessageBuffer} {n pos : ℕ} {bytes : Bytes}
    (h : b.readAt n pos = some bytes) :
    bytes = (b.cells n pos).map fun cell => (cell.bind fun i => b.buffer[i]?).getD 0 := by
  unfold readAt at h
  unfold cells
  split at h
  next hguard =>
    have hbehind : pos + n > b.getBufferSize := hguard.trans_le (sizeAdd_le pos n)
    cases h
    rw [if_pos hbehind, List.map_replicate]
    rfl
  next =>
    rw [readBlock, Option.ite_none_right_eq_some] at h
    obtain ⟨hinside, heq⟩ := h
    have hguard : ¬(pos + n > b.getBufferSize) := Nat.not_lt.mpr hinside
    cases heq
    rw [if_neg hguard, List.map_map]
    apply List.ext_getElem
    · simp only [List.length_take, List.length_drop, List.length_map, List.length_range']
      omega
    · intro i hi hi'
      rw [List.length_map, List.length_range'] at hi'
      have hget : pos + i < b.buffer.length := by omega
      simp only [List.getElem_take, List.getElem_drop, List.getElem_map, List.getElem_range',
        Function.comp_apply, Option.bind_some, Nat.one_mul, List.getElem?_eq_getElem hget,
        Option.getD_some]

theorem readWord_advances (b : MessageBuffer) (n : ℕ) : b.Advances n (b.readWord n) :=
  (b.read_advances n).map leVal

theorem readSwapped_advances (b : MessageBuffer) (n : ℕ) : b.Advances n (b.readSwapped n) :=
  (b.read_advances n).map fun bytes => swapBytes n (leVal bytes)

/-- The bytes that the loop of `operator>>(std::string&)` takes from `bytes`. -/
def scanned : Bytes → ℕ
  | [] => 0
  | x :: xs => if x = 0 then 1 else scanned xs + 1

theorem scanned_le_iff (bytes : Bytes) {k : ℕ} (hk : k ≤ bytes.length) :
    scanned bytes ≤ k ↔ 0 ∈ bytes.take k ∨ k = bytes.length := by
  induction bytes generalizing k with
  | nil =>
    have hzero : k = 0 := Nat.le_zero.mp hk
    simp only [scanned, hzero, le_refl, List.length_nil, or_true]
  | cons x xs ih =>
    cases k with
    | zero =>
      simp only [scanned, List.take_zero, List.not_mem_nil, List.length_cons, false_or]
      split
      next => omega
      next => omega
    | succ k =>
      rw [List.length_cons] at hk
      by_cases hx : x = 0
      · simp only [scanned, hx, if_true, List.take_succ_cons, List.mem_cons, true_or, iff_true]
        omega
      · have hne : (0 : Byte) ≠ x := fun h => hx h.symm
        have hrest := ih (k := k) (by omega)
        simp only [scanned, hx, if_false, List.take_succ_cons, List.mem_cons, hne, false_or,
          List.length_cons, Nat.add_le_add_iff_right, Nat.add_right_cancel_iff]
        exact hrest

theorem scanString_moves (b : MessageBuffer) (left : ℕ) (value : Bytes)
    (hleft : left = b.buffer.length - b.rpos) :
    ∃ v, scanString left b value =
      some (v, { b with rpos := b.rpos + scanned (b.buffer.drop b.rpos) }) := by
  induction left generalizing b value with
  | zero =>
    rw [List.drop_of_length_le (by omega)]
    exact ⟨value, rfl⟩
  | succ left ih =>
    have hlt : b.rpos < b.buffer.length := by omega
    have hread := read_of_le (b := b) (n := 1) hlt
    rw [List.drop_eq_getElem_cons hlt] at hread ⊢
    have hbyte : leVal [b.buffer[b.rpos]] = 0 ↔ b.buffer[b.rpos] = 0 := by
      rw [leVal_cons, leVal_nil, Nat.mul_zero, Nat.add_zero]
      exact (BitVec.toNat_eq (y := 0)).symm
    simp only [scanString, hread, List.take_succ_cons, List.take_zero, hbyte, scanned]
    split
    next => exact ⟨value, rfl⟩
    next =>
      obtain ⟨v, hv⟩ := ih { b with rpos := b.rpos + 1 } (value ++ [b.buffer[b.rpos]])
        (by change left = b.buffer.length - (b.rpos + 1); omega)
      refine ⟨v, hv.trans ?_⟩
      simp only [Nat.add_assoc, Nat.add_comm 1]

theorem extractString_moves (b : MessageBuffer) :
    ∃ v, b.extractString = some (v, { b with rpos := b.rpos + scanned (b.buffer.drop b.rpos) }) :=
  scanString_moves b _ [] rfl

/-- What `operator>>` takes: the width of a number, or up to the end of a string. -/
def taken (b : MessageBuffer) : Item → ℕ
  | .string _ => scanned (b.buffer.drop b.rpos)
  | item => item.encode.length

theorem extract_advances (b : MessageBuffer) (item : Item) :
    b.Advances (b.taken item) (item.extract b) := by
  cases item with
  | uint8 _ => exact ((b.readWord_advances 1).map (BitVec.ofNat 8)).map Item.uint8
  | int8 _ => exact ((b.readWord_advances 1).map (BitVec.ofNat 8)).map Item.int8
  | uint16 _ => exact ((b.readSwapped_advances 2).map (BitVec.ofNat 16)).map Item.uint16
  | int16 _ => exact ((b.readSwapped_advances 2).map (BitVec.ofNat 16)).map Item.int16
  | int _ => exact ((b.readSwapped_advances 4).map (BitVec.ofNat 32)).map Item.int
  | uint64 _ => exact ((b.readSwapped_advances 8).map (BitVec.ofNat 64)).map Item.uint64
  | int64 _ => exact ((b.readSwapped_advances 8).map (BitVec.ofNat 64)).map Item.int64
  | float value =>
    have hfloat : b.Advances 4 (b.extractFloat value) := (b.readWord_advances 4).map fun v =>
      if isFiniteFloat (BitVec.ofNat 32 v) then BitVec.ofNat 32 v else value
    exact hfloat.map Item.float
  | double value =>
    have hdouble : b.Advances 8 (b.extractDouble value) := (b.readWord_advances 8).map fun v =>
      if isFiniteDouble (BitVec.ofNat 64 v) then BitVec.ofNat 64 v else value
    exact hdouble.map Item.double
  | string _ =>
    have hstring : b.Advances (scanned (b.buffer.drop b.rpos)) b.extractString :=
      Or.inl b.extractString_moves
    exact hstring.map Item.string

end MessageBuffer

namespace Watched

def isWritten (written : ℕ → Bool) (cell : Option ℕ) : Bool := cell.any written

def after (s : Watched) (c : BufferCall) : Watched :=
  match c.run s.buffer with
  | none => { s with outside := true }
  | some b => {
      buffer := b
      written := c.marked s.buffer b s.written
      unwritten := s.unwritten +
        (c.extracted s.buffer b).countP fun cell => !isWritten s.written cell
      outside := s.outside }

def Step (s : Watched) (c : BufferCall) (t : Watched) : Prop := c.Legal s.buffer ∧ t = s.after c

/-- The positions are in order and inside the vector, no call left the vector, and every
byte extracted was written since the last `Reset`. -/
structure Sound (s : Watched) : Prop where
  placed : s.buffer.Positioned
  inside : s.outside = false
  fresh : s.unwritten = 0

/-- The `n` cells from `pos` on were written since the last `Reset`. -/
def Filled (s : Watched) (n pos : ℕ) : Prop := ∀ i, pos ≤ i → i < pos + n → s.written i = true

/-- What each call needs of the state it finds. -/
def Careful (s : Watched) : BufferCall → Prop
  | .write data => s.buffer.wpos + data.length ≤ s.buffer.buffer.length
  | .readAt n pos => n = 0 ∨ pos.toNat + n ≤ s.buffer.buffer.length ∧ s.Filled n pos.toNat
  | .read n => s.buffer.rpos + n ≤ s.buffer.wpos ∧ s.Filled n s.buffer.rpos
  | .readBytes len => s.buffer.rpos + len.toNat ≤ s.buffer.wpos ∧ s.Filled len.toNat s.buffer.rpos ∨
      s.buffer.buffer.length < sizeAdd s.buffer.rpos len.toNat
  | .extract (.string str) => (0 ∈ s.buffer.active ∨ s.buffer.wpos = s.buffer.buffer.length) ∧
      s.Filled (s.buffer.taken (.string str)) s.buffer.rpos
  | .extract item => s.buffer.rpos + item.encode.length ≤ s.buffer.wpos ∧
      s.Filled item.encode.length s.buffer.rpos
  | .normalize => s.buffer.rpos = 0 ∨ s.buffer.rpos = s.buffer.wpos
  | .resize => s.buffer.wpos ≤ messageMaxLength
  | .readComplete peeked _ => s.Filled peeked s.buffer.rpos
  | _ => True

/-! ### One call -/

/-- The call keeps the state sound exactly if it is careful. -/
def Decides (s : Watched) (c : BufferCall) : Prop := Sound (s.after c) ↔ Careful s c

section
variable {s : Watched} {c : BufferCall} {b : MessageBuffer}

theorem decides_of_sound (hcareful : Careful s c) (h : Sound (s.after c)) : Decides s c :=
  ⟨fun _ => hcareful, fun _ => h⟩

theorem after_eq (hrun : c.run s.buffer = some b) :
    s.after c = {
      buffer := b
      written := c.marked s.buffer b s.written
      unwritten := s.unwritten +
        (c.extracted s.buffer b).countP fun cell => !isWritten s.written cell
      outside := s.outside } := by
  rw [after, hrun]

theorem countP_cells_iff {n pos : ℕ} :
    (b.cells n pos).countP (fun cell => !isWritten s.written cell) = 0 ↔
      n = 0 ∨ pos + n ≤ b.buffer.length ∧ s.Filled n pos := by
  unfold MessageBuffer.cells
  split
  next hbehind =>
    have hnot : ¬pos + n ≤ b.buffer.length := Nat.not_le.mpr hbehind
    simp only [List.countP_replicate, isWritten, Option.any_none, Bool.not_false, if_true, hnot,
      false_and, or_false]
  next hguard =>
    have hinside : pos + n ≤ b.buffer.length := Nat.not_lt.mp hguard
    simp only [List.countP_eq_zero, List.forall_mem_map, List.mem_range'_1, isWritten,
      Option.any_some, Bool.not_eq_true', Bool.not_eq_false, hinside, true_and, Filled]
    constructor
    · intro h
      exact Or.inr fun i hlow hhigh => h i ⟨hlow, hhigh⟩
    · intro h i hi
      rcases h with hzero | hwritten
      · omega
      · exact hwritten i hi.1 hi.2

theorem countP_inside_iff {n pos : ℕ} (hinside : pos + n ≤ b.buffer.length) :
    (b.cells n pos).countP (fun cell => !isWritten s.written cell) = 0 ↔ s.Filled n pos := by
  rw [countP_cells_iff]
  constructor
  · intro h
    rcases h with hzero | hfilled
    · intro i hlow hhigh
      omega
    · exact hfilled.2
  · intro hfilled
    exact Or.inr ⟨hinside, hfilled⟩

theorem sound_moved_iff (hs : Sound s) {r : ℕ}
    (hrun : c.run s.buffer = some { s.buffer with rpos := s.buffer.rpos + r })
    (hcells : c.extracted s.buffer { s.buffer with rpos := s.buffer.rpos + r } =
      s.buffer.cells r s.buffer.rpos) :
    Sound (s.after c) ↔ s.buffer.rpos + r ≤ s.buffer.wpos ∧ s.Filled r s.buffer.rpos := by
  have hinside := hs.placed.inside
  rw [after_eq hrun, hcells, hs.fresh, Nat.zero_add]
  constructor
  · intro h
    have hordered : s.buffer.rpos + r ≤ s.buffer.wpos := h.placed.ordered
    exact ⟨hordered, (countP_inside_iff (hordered.trans hinside)).mp h.fresh⟩
  · intro h
    obtain ⟨hordered, hfilled⟩ := h
    exact ⟨⟨hordered, hinside⟩, hs.inside, (countP_inside_iff (hordered.trans hinside)).mpr hfilled⟩

theorem sound_written (hs : Sound s) (hrun : c.run s.buffer = some b)
    (hrpos : b.rpos = s.buffer.rpos) (hgrows : s.buffer.wpos ≤ b.wpos)
    (hfits : b.wpos ≤ b.buffer.length) (hcells : c.extracted s.buffer b = []) :
    Sound (s.after c) := by
  have hordered := hs.placed.ordered
  rw [after_eq hrun, hcells]
  refine ⟨⟨?_, hfits⟩, hs.inside, hs.fresh⟩
  change b.rpos ≤ b.wpos
  omega

theorem decides_appended (hs : Sound s) (src : Bytes)
    (hrun : c.run s.buffer = some (s.buffer.appended src)) (hcareful : Careful s c)
    (hcells : ∀ b', c.extracted s.buffer b' = []) : Decides s c :=
  decides_of_sound hcareful (sound_written hs hrun rfl (Nat.le_add_right _ _)
    (MessageBuffer.appended_fits hs.placed.inside src) (hcells _))

theorem not_sound_of_none (hrun : c.run s.buffer = none) : ¬Sound (s.after c) := by
  intro h
  have hinside := h.inside
  rw [after, hrun] at hinside
  cases hinside

theorem decides_of_outside (hrun : c.run s.buffer = none) (hcareless : ¬Careful s c) : Decides s c :=
  ⟨fun h => absurd h (not_sound_of_none hrun), fun h => absurd h hcareless⟩

theorem decides_reading (hs : Sound s) {r : ℕ}
    (hrun : s.buffer.Advances r ((c.run s.buffer).map fun b' => ((), b')))
    (hcells : c.extracted s.buffer { s.buffer with rpos := s.buffer.rpos + r } =
      s.buffer.cells r s.buffer.rpos)
    (hcareful : Careful s c ↔ s.buffer.rpos + r ≤ s.buffer.wpos ∧ s.Filled r s.buffer.rpos) :
    Decides s c := by
  rcases hrun with ⟨v, hmoved⟩ | ⟨hnone, hbehind⟩
  · obtain ⟨b', hsome, heq⟩ := Option.map_eq_some_iff.mp hmoved
    cases heq
    rw [Decides, hcareful]
    exact sound_moved_iff hs hsome hcells
  · have hinside := hs.placed.inside
    apply decides_of_outside (Option.map_eq_none_iff.mp hnone)
    rw [hcareful]
    omega

theorem write_eq {data : Bytes} (h : b.wpos + data.length ≤ b.buffer.length) :
    b.write data = some (b.appended data) := by
  unfold MessageBuffer.write
  split
  next =>
    rw [writeBlock_of_le h]
    rfl
  next hnil =>
    rw [← MessageBuffer.append_eq (by omega), MessageBuffer.append, if_pos (not_not.mp hnil)]

theorem decides_write (hs : Sound s) (data : Bytes) : Decides s (.write data) := by
  by_cases hfits : s.buffer.wpos + data.length ≤ s.buffer.buffer.length
  · exact decides_appended hs data (write_eq hfits) hfits fun _ => rfl
  · have hne : data.length ≠ 0 := by
      have hinside := hs.placed.inside
      omega
    have hnone : BufferCall.run s.buffer (.write data) = none := by
      rw [BufferCall.run, MessageBuffer.write, if_pos hne, writeBlock, if_neg hfits, Option.map_none]
    exact decides_of_outside hnone hfits

theorem assign_appended (h : b.wpos ≤ b.buffer.length) (str : Option Bytes) :
    ∃ src, b.assign str = some (b.appended src) := by
  have hsome : b.assign str = b.assign (some (str.getD [])) := rfl
  rw [hsome, MessageBuffer.assign_eq h, MessageBuffer.insertAll_eq h]
  exact ⟨_, rfl⟩

theorem decides_readAt (hs : Sound s) (n : ℕ) (pos : BitVec 32) : Decides s (.readAt n pos) := by
  rcases s.buffer.readAt_cases n pos.toNat with ⟨bytes, hread⟩ | ⟨hnone, hbehind, hwraps⟩
  · have hrun : BufferCall.run s.buffer (.readAt n pos) = some s.buffer := by
      rw [BufferCall.run, hread, Option.map_some]
    rw [Decides, after_eq hrun, hs.fresh, Nat.zero_add]
    constructor
    · intro h
      exact countP_cells_iff.mp h.fresh
    · intro hcareful
      exact ⟨hs.placed, hs.inside, countP_cells_iff.mpr hcareful⟩
  · have hrun : BufferCall.run s.buffer (.readAt n pos) = none := by
      rw [BufferCall.run, hnone, Option.map_none]
    apply decides_of_outside hrun
    intro hcareful
    rcases hcareful with hzero | ⟨hinside, -⟩
    · -- A position alone does not wrap.
      have hpos : sizeAdd pos.toNat n = pos.toNat := by
        rw [sizeAdd, hzero, Nat.add_zero]
        exact Nat.mod_eq_of_lt pos.isLt
      omega
    · omega

theorem decides_read (hs : Sound s) (n : ℕ) : Decides s (.read n) := by
  refine decides_reading hs (r := n) ?_ ?_ Iff.rfl
  · rw [BufferCall.run, Option.map_map]
    exact (s.buffer.read_advances n).map fun _ => ()
  · rw [BufferCall.extracted, Nat.add_sub_cancel_left]

theorem decides_readBytes (hs : Sound s) (len : BitVec 32) : Decides s (.readBytes len) := by
  by_cases hshort : s.buffer.buffer.length < sizeAdd s.buffer.rpos len.toNat
  · have hguard : sizeAdd s.buffer.rpos len.toNat > s.buffer.getBufferSize := hshort
    have hstill := sound_moved_iff hs (c := .readBytes len) (r := 0)
      (by rw [BufferCall.run, MessageBuffer.readBytes, if_pos hguard]; rfl)
      (by rw [BufferCall.extracted, Nat.add_sub_cancel_left])
    refine decides_of_sound (Or.inr hshort) (hstill.mpr ⟨hs.placed.ordered, ?_⟩)
    intro i hlow hhigh
    omega
  · have hguard : ¬(sizeAdd s.buffer.rpos len.toNat > s.buffer.getBufferSize) := hshort
    refine decides_reading hs (r := len.toNat) ?_ ?_ (or_iff_left hshort)
    · rw [BufferCall.run, MessageBuffer.readBytes, if_neg hguard, readBlock]
      by_cases hinside : s.buffer.rpos + len.toNat ≤ s.buffer.buffer.length
      · rw [if_pos hinside]
        exact Or.inl ⟨(), rfl⟩
      · rw [if_neg hinside]
        exact Or.inr ⟨rfl, Nat.not_le.mp hinside⟩
    · rw [BufferCall.extracted, Nat.add_sub_cancel_left]

theorem careful_extract_iff (hplaced : s.buffer.Positioned) (item : Item) :
    Careful s (.extract item) ↔ s.buffer.rpos + s.buffer.taken item ≤ s.buffer.wpos ∧
      s.Filled (s.buffer.taken item) s.buffer.rpos := by
  have hordered := hplaced.ordered
  have hinside := hplaced.inside
  cases item with
  | string _ =>
    have hlen := List.length_drop (i := s.buffer.rpos) (l := s.buffer.buffer)
    have hscan := MessageBuffer.scanned_le_iff (s.buffer.buffer.drop s.buffer.rpos)
      (k := s.buffer.wpos - s.buffer.rpos) (by omega)
    have hend : s.buffer.wpos - s.buffer.rpos = (s.buffer.buffer.drop s.buffer.rpos).length ↔
        s.buffer.wpos = s.buffer.buffer.length := by
      rw [hlen]
      omega
    rw [hend] at hscan
    apply and_congr_left
    intro _
    exact hscan.symm.trans (by rw [MessageBuffer.taken]; omega)
  | _ => exact Iff.rfl

theorem decides_extract (hs : Sound s) (item : Item) : Decides s (.extract item) := by
  refine decides_reading hs ?_ ?_ (careful_extract_iff hs.placed item)
  · rw [BufferCall.run, Option.map_map]
    exact (s.buffer.extract_advances item).map fun _ => ()
  · rw [BufferCall.extracted, Nat.add_sub_cancel_left]

theorem sound_restarted (hs : Sound s) (hrun : c.run s.buffer = some b) (hrpos : b.rpos = 0)
    (hwpos : b.wpos = 0) (hcells : c.extracted s.buffer b = []) : Sound (s.after c) := by
  rw [after_eq hrun, hcells]
  refine ⟨⟨?_, ?_⟩, hs.inside, hs.fresh⟩
  · exact hrpos.trans_le (Nat.zero_le _)
  · exact hwpos.trans_le (Nat.zero_le _)

theorem decides_normalize (hs : Sound s) : Decides s .normalize := by
  by_cases hfront : s.buffer.rpos = 0
  · have hrun : BufferCall.run s.buffer .normalize = some s.buffer :=
      MessageBuffer.normalize_front hfront
    have hcareful : Careful s .normalize := Or.inl hfront
    apply decides_of_sound hcareful
    rw [after_eq hrun]
    exact ⟨hs.placed, hs.inside, hs.fresh⟩
  · by_cases hempty : s.buffer.rpos = s.buffer.wpos
    · exact decides_of_sound (Or.inr hempty)
        (sound_restarted hs (MessageBuffer.normalize_empty hempty) rfl rfl rfl)
    · have hnone : BufferCall.run s.buffer .normalize = none :=
        MessageBuffer.normalize_outside hfront hempty
      have hcareless : ¬Careful s .normalize := not_or.mpr ⟨hfront, hempty⟩
      exact decides_of_outside hnone hcareless

theorem decides_resize (hs : Sound s) : Decides s .resize := by
  have hrun : BufferCall.run s.buffer .resize = some s.buffer.resize := rfl
  have hlen : s.buffer.resize.buffer.length = messageMaxLength := resizeBlock_length _ _
  rw [Decides, after_eq hrun]
  constructor
  · intro h
    exact h.placed.inside.trans_eq hlen
  · intro hcut
    exact ⟨⟨hs.placed.ordered, hcut.trans_eq hlen.symm⟩, hs.inside, hs.fresh⟩

theorem decides_readComplete (hs : Sound s) {peeked bytes : ℕ}
    (hlegal : BufferCall.Legal s.buffer (.readComplete peeked bytes)) :
    Decides s (.readComplete peeked bytes) := by
  have hordered := hs.placed.ordered
  have hinside := hs.placed.inside
  obtain ⟨hpeeked, hbytes⟩ := hlegal
  rw [hs.placed.activeSize] at hpeeked hbytes
  have hblock : s.buffer.rpos + peeked ≤ s.buffer.buffer.length := by omega
  have hmoved : s.buffer.rpos + bytes ≤ s.buffer.wpos := by omega
  have hrun : BufferCall.run s.buffer (.readComplete peeked bytes) =
      some (s.buffer.readComplete bytes) := by
    rw [BufferCall.run, readBlock_of_le hblock, Option.map_some]
  rw [Decides, after_eq hrun, hs.fresh, Nat.zero_add]
  constructor
  · intro h
    exact (countP_inside_iff hblock).mp h.fresh
  · intro hfilled
    exact ⟨⟨hmoved, hinside⟩, hs.inside, (countP_inside_iff hblock).mpr hfilled⟩

theorem writeComplete_run {data : Bytes} (h : b.wpos + data.length ≤ b.buffer.length) (bytes : ℕ) :
    BufferCall.run b (.writeComplete data bytes) =
      some ⟨(b.appended data).buffer, b.rpos, b.wpos + bytes⟩ := by
  rw [BufferCall.run, writeBlock_of_le h]
  rfl

theorem decides_writeComplete (hs : Sound s) {data : Bytes} {bytes : ℕ}
    (hlegal : BufferCall.Legal s.buffer (.writeComplete data bytes)) :
    Decides s (.writeComplete data bytes) := by
  have hinside := hs.placed.inside
  obtain ⟨hdata, hbytes⟩ := hlegal
  rw [hs.placed.remainingSpace] at hdata hbytes
  have hblock : s.buffer.wpos + data.length ≤ s.buffer.buffer.length := by omega
  have hlen := (writeBlock_some (writeBlock_of_le hblock)).2
  refine decides_of_sound trivial
    (sound_written hs (writeComplete_run hblock bytes) rfl (Nat.le_add_right _ _) ?_ rfl)
  change s.buffer.wpos + bytes ≤ (_ ++ _ ++ _ : Bytes).length
  rw [hlen]
  omega

theorem decides (hs : Sound s) (c : BufferCall) (hlegal : c.Legal s.buffer) : Decides s c := by
  have hinside := hs.placed.inside
  cases c with
  | write data => exact decides_write hs data
  | append src =>
    exact decides_appended hs src (MessageBuffer.append_eq hinside src) trivial fun _ => rfl
  | insert item =>
    exact decides_appended hs _ (MessageBuffer.insert_eq hinside item) trivial fun _ => rfl
  | assign str =>
    obtain ⟨src, hassign⟩ := assign_appended hinside str
    exact decides_appended hs src hassign trivial fun _ => rfl
  | readAt n pos => exact decides_readAt hs n pos
  | read n => exact decides_read hs n
  | readBytes len => exact decides_readBytes hs len
  | extract item => exact decides_extract hs item
  | normalize => exact decides_normalize hs
  | reset => exact decides_of_sound trivial (sound_restarted hs rfl rfl rfl rfl)
  | resize => exact decides_resize hs
  | move left => exact decides_of_sound trivial (sound_restarted hs rfl rfl rfl rfl)
  | readComplete peeked bytes => exact decides_readComplete hs hlegal
  | writeComplete data bytes => exact decides_writeComplete hs hlegal

end

/-! ### Runs -/

theorem step_after {s : Watched} {c : BufferCall} (h : c.Legal s.buffer) : Step s c (s.after c) :=
  ⟨h, rfl⟩

def start : Watched := { buffer := MessageBuffer.fresh }

theorem sound_start : Sound start := ⟨⟨le_rfl, Nat.zero_le _⟩, rfl, rfl⟩

/-- The positions stay in order, the calls inside the vector and the extracted bytes among
those written, in every state of a run exactly when every call is careful. -/
theorem sound_iff_careful {tr : List (Watched × BufferCall)} {s : Watched}
    (hrun : Run Step start tr s) : Throughout Sound tr s ↔ Meets Careful tr := by
  apply hrun.throughout_iff_self _ sound_start
  intro t c u ht hstep
  rw [hstep.2]
  exact decides ht c hstep.1

theorem read_run {b : MessageBuffer} {n : ℕ} (h : b.rpos + n ≤ b.buffer.length) :
    BufferCall.run b (.read n) = some { b with rpos := b.rpos + n } := by
  rw [BufferCall.run, MessageBuffer.read_of_le h, Option.map_some]

theorem sound_iff_careful_byte :
    ∃ tr s, Run Step start tr s ∧ s.buffer.rpos = 1 ∧ s.buffer.wpos = 1 ∧ Throughout Sound tr s := by
  have hlen : start.buffer.buffer.length = messageMaxLength := resizeBlock_length _ _
  have hroom : start.buffer.wpos + [(7 : Byte)].length ≤ start.buffer.buffer.length := by
    rw [hlen]
    decide
  have hlegal : BufferCall.Legal start.buffer (.writeComplete [7] 1) := by
    rw [BufferCall.Legal, sound_start.placed.remainingSpace, hlen]
    decide
  have hwritten := after_eq (writeComplete_run hroom 1)
  have hplaced : (start.after (.writeComplete [7] 1)).buffer.Positioned := by
    rw [hwritten]
    exact ⟨Nat.zero_le _, MessageBuffer.appended_fits sound_start.placed.inside [7]⟩
  have hcareful : Careful (start.after (.writeComplete [7] 1)) (.read 1) := by
    rw [hwritten]
    refine ⟨le_rfl, ?_⟩
    intro i _ hi
    exact decide_eq_true ⟨Nat.zero_le i, hi⟩
  have htaken := after_eq (read_run (hcareful.1.trans hplaced.inside))
  have h1 := Run.nil.snoc (step_after hlegal)
  have h2 := h1.snoc (step_after (c := .read 1) trivial)
  refine ⟨_, _, h2, ?_, ?_, (sound_iff_careful h2).mpr
    (meets_snoc.mpr ⟨meets_snoc.mpr ⟨meets_nil _, trivial⟩, hcareful⟩)⟩
  · rw [htaken, hwritten]
    rfl
  · rw [htaken, hwritten]
    rfl

/-- An `int` is extracted from a new buffer: the read position passes the write position,
and four bytes were never written. -/
theorem read_passes_write :
    ∃ s, Run Step start [(start, .extract (.int 0))] s ∧ ¬Sound s := by
  have hrun : Run Step start ([] ++ [(start, .extract (.int 0))]) (start.after (.extract (.int 0))) :=
    Run.nil.snoc (step_after trivial)
  refine ⟨_, hrun, ?_⟩
  intro hsound
  have hcareful := (decides sound_start (.extract (.int 0)) trivial).mp hsound
  have hle : 0 + (Item.int 0).encode.length ≤ 0 := hcareful.1
  exact absurd hle (by decide)

end Watched
end GameRes.NetApp
