import GameRes.Library.Runs
import GameRes.NetPack.StringWrites

/-!
# The cursor of a `BinaryWriteStream` (netPack/commDef.cpp:559-881, commDef.hpp:299-323)

Every call that writes tests for the room first, `Seek` tests where it lands, and
nothing else moves the cursor. So it stays behind the header and inside the
block, as long as no sum of an address and a size wraps.
-/

namespace GameRes.NetPack
open Library BinaryWriteStream

/-- The calls of the public interface that change a stream. -/
inductive WriteCall where
  | insert (t : Ty) (v : t.Val)
  | insertUnsignedChar (c : Byte)
  | insertUnsignedChars (cs : List Byte)
  | writeInt (i : BitVec 32)
  | writeFloat (f : BitVec 32)
  | writeShort (i : BitVec 16)
  | writeChar (c : Byte)
  | writeUnsignedChar (c : Byte)
  | writeString (str : Bytes)
  | writeBytes (str : Bytes) (length : BitVec 32)
  | writeNoLength (str : Bytes) (length : BitVec 32)
  | seek (length : BitVec 32)
  | clear
  | flush

def WriteCall.call : WriteCall → BinaryWriteStream → Option BinaryWriteStream
  | .insert t v, w => t.insert v w
  | .insertUnsignedChar c, w => w.insertUnsignedChar c
  | .insertUnsignedChars cs, w => insertVector (fun c w => w.insertUnsignedChar c) cs w
  | .writeInt i, w => (w.writeInt i).map Prod.snd
  | .writeFloat f, w => (w.writeFloat f).map Prod.snd
  | .writeShort i, w => (w.writeShort i).map Prod.snd
  | .writeChar c, w => (w.writeChar c).map Prod.snd
  | .writeUnsignedChar c, w => (w.writeUnsignedChar c).map Prod.snd
  | .writeString str, w => (w.writeString str).map Prod.snd
  | .writeBytes str length, w => (w.writeBytes str length).map Prod.snd
  | .writeNoLength str length, w => (w.writeNoLength str length).map Prod.snd
  | .seek length, w => some (w.seek length).2
  | .clear, w => some w.clear
  | .flush, w => w.flush

/-- Strings have at most 32767 bytes, and behind a pointer lie as many bytes as
the call says, at most 65535. -/
def WriteCall.Legal : WriteCall → Prop
  | .insert t v => t.ShortStrings v
  | .writeString str => str.length ≤ 32767
  | .writeBytes str length => length.toNat ≤ str.length ∧ length.toNat ≤ 65535
  | .writeNoLength str length => length.toNat ≤ str.length ∧ length.toNat ≤ 65535
  | _ => True

def WriteStep (w : BinaryWriteStream) (c : WriteCall) (w' : BinaryWriteStream) : Prop :=
  c.call w = some w'

/-- The cursor is behind the header and inside the block, and nothing outside
the block was written. -/
structure InBlock (w w' : BinaryWriteStream) : Prop where
  ptr : w'.ptr = w.ptr
  len : w'.len = w.len
  cur : w'.ptr + 4 ≤ w'.cur ∧ w'.cur ≤ w'.ptr + w'.len
  size : 4 ≤ w'.getSize.toNat ∧ w'.getSize.toNat ≤ w'.len
  outside : ∀ i, i < w.ptr ∨ w.ptr + w.len ≤ i → w'.mem i = w.mem i

namespace BinaryWriteStream

/-- No size up to 65535, with a length in front, wraps behind the block. -/
structure Sound (w : BinaryWriteStream) : Prop where
  room : w.Room 0
  wrap : w.ptr + w.len + 65541 < 2 ^ 32

structure Stays (w w' : BinaryWriteStream) : Prop where
  ptr : w'.ptr = w.ptr
  len : w'.len = w.len
  room : w'.Room 0
  outside : ∀ i, i < w.ptr ∨ w.ptr + w.len ≤ i → w'.mem i = w.mem i

/-- The call returns, and the cursor and what it wrote are inside the block. -/
def Safe (f : BinaryWriteStream → Option BinaryWriteStream) : Prop :=
  ∀ w, w.Sound → ∃ w', f w = some w' ∧ Stays w w'

section
variable {w w₁ w₂ : BinaryWriteStream}

theorem Stays.sound (h : Stays w w₁) (hw : w.Sound) : w₁.Sound := by
  refine ⟨h.room, ?_⟩
  rw [h.ptr, h.len]
  exact hw.wrap

theorem stays_refl (hw : w.Sound) : Stays w w := ⟨rfl, rfl, hw.room, fun _ _ => rfl⟩

theorem Stays.trans (h : Stays w w₁) (h' : Stays w₁ w₂) : Stays w w₂ := by
  refine ⟨h'.ptr.trans h.ptr, h'.len.trans h.len, h'.room, ?_⟩
  intro i hi
  have hsecond := h'.outside i (by rw [h.ptr, h.len]; exact hi)
  exact hsecond.trans (h.outside i hi)

theorem stays_pushed {bs : Bytes} (h : w.Room bs.length) : Stays w (w.pushed bs) := by
  have hlow := h.low
  have hhigh := h.high
  refine ⟨rfl, rfl, (wrote_pushed bs).room h, ?_⟩
  intro i hi
  exact store_of_not_mem (by omega)

theorem stays_flushed (hw : w.Sound) : Stays w w.flushed := by
  have hlow := hw.room.low
  have hhigh := hw.room.high
  refine ⟨rfl, rfl, ⟨hlow, hhigh⟩, ?_⟩
  intro i hi
  apply store_of_not_mem
  rw [beInt_length]
  omega

theorem ahead_of_sound {n : ℕ} (hw : w.Sound) (hn : n ≤ 65541) : w.ahead n = w.cur + n := by
  have hhigh := hw.room.high
  have hwrap := hw.wrap
  rw [ahead]
  omega

end

/-! ### Calls put together from others -/

section
variable {f g : BinaryWriteStream → Option BinaryWriteStream}

theorem safe_some : Safe some := by
  intro w hw
  exact ⟨w, rfl, stays_refl hw⟩

theorem safe_flush : Safe flush := by
  intro w hw
  exact ⟨_, flush_eq hw.room, stays_flushed hw⟩

theorem Safe.bind (hf : Safe f) (hg : Safe g) : Safe fun w => (f w).bind g := by
  intro w hw
  obtain ⟨w₁, hw₁, hstays⟩ := hf w hw
  obtain ⟨w₂, hw₂, hstays'⟩ := hg w₁ (hstays.sound hw)
  refine ⟨w₂, ?_, hstays.trans hstays'⟩
  change (f w).bind g = some w₂
  rw [hw₁, Option.bind_some, hw₂]

/-- A call that refuses, or finds the room it tested for. -/
theorem safe_guarded {n : ℕ} (hn : n ≤ 65541)
    (hf : ∀ w : BinaryWriteStream, f w = if w.ptr + w.len < w.ahead n then some w else g w)
    (hg : ∀ w : BinaryWriteStream, w.Sound → w.Room n → ∃ w', g w = some w' ∧ Stays w w') :
    Safe f := by
  intro w hw
  rw [hf, ahead_of_sound hw hn]
  split
  · exact ⟨w, rfl, stays_refl hw⟩
  · exact hg w hw ⟨hw.room.low, by omega⟩

end

/-! ### The calls -/

theorem safe_insertScalar {bs : Bytes} {n : ℕ} (hbs : bs.length = n) (hn : n ≤ 8) :
    Safe fun w => w.insertScalar bs := by
  apply safe_guarded (n := bs.length) (by omega) (fun _ => rfl)
  intro w hw hroom
  have hpushed := stays_pushed hroom
  obtain ⟨w', hw', hstays⟩ := safe_flush _ (hpushed.sound hw)
  refine ⟨w', ?_, hpushed.trans hstays⟩
  rw [poke_eq hroom, Option.bind_some, hw']

theorem safe_writeScalar {bs : Bytes} {n : ℕ} (hbs : bs.length = n) (hn : n ≤ 8) :
    Safe fun w => (w.writeScalar bs).map Prod.snd := by
  apply safe_guarded (n := bs.length) (by omega) fun w => writeScalar_snd w bs
  intro w _ hroom
  exact ⟨_, poke_eq hroom, stays_pushed hroom⟩

theorem safe_insertLongLong (i : BitVec 64) : Safe fun w => w.insertLongLong i := by
  have hhigh := safe_writeScalar (intBytes_length (highHalf i)) (by decide)
  have hlow := safe_writeScalar (intBytes_length (lowHalf i)) (by decide)
  rw [funext fun w => insertLongLong_bind w i]
  exact hhigh.bind (hlow.bind safe_flush)

theorem stays_string {w : BinaryWriteStream} {str : Bytes} (count : BitVec 16)
    (hroom : w.Room (str.length + 2)) :
    ((w.writeLength count).bind fun w => w.poke str) = some (w.pushed (shortBytes count ++ str)) ∧
      Stays w (w.pushed (shortBytes count ++ str)) := by
  have hlen : (shortBytes count ++ str).length = str.length + 2 := by
    rw [List.length_append, shortBytes_length, Nat.add_comm]
  rw [← hlen] at hroom
  refine ⟨poke_count hroom.low ?_ count, stays_pushed hroom⟩
  rw [← hlen]
  exact hroom.high

theorem safe_insertString (str : Bytes) (hstr : str.length ≤ 32767) :
    Safe fun w => w.insertString str := by
  apply safe_guarded (by omega) fun w => insertString_of_short w hstr
  intro w hw hroom
  obtain ⟨hcopy, hstays⟩ := stays_string (BitVec.ofNat 16 str.length) hroom
  obtain ⟨w', hw', hstays'⟩ := safe_flush _ (hstays.sound hw)
  refine ⟨w', ?_, hstays.trans hstays'⟩
  rw [copyString_of_short w hstr, hcopy, Option.bind_some, hw']

theorem safe_writeString (str : Bytes) (hstr : str.length ≤ 32767) :
    Safe fun w => (w.writeString str).map Prod.snd := by
  have hform : ∀ w : BinaryWriteStream, (w.writeString str).map Prod.snd =
      if w.ptr + w.len < w.ahead ((str.length + 2 : ℕ) : ℤ) then some w
      else w.copyString str := by
    intro w
    rw [writeString, if_congr (refusesString_of_short w hstr) rfl rfl]
    split
    · rfl
    · cases w.copyString str with
      | none => rfl
      | some w' => rfl
  apply safe_guarded (by omega) hform
  intro w _ hroom
  obtain ⟨hcopy, hstays⟩ := stays_string (BitVec.ofNat 16 str.length) hroom
  exact ⟨_, (copyString_of_short w hstr).trans hcopy, hstays⟩

theorem readBlock_take {str : Bytes} {n : ℕ} (h : n ≤ str.length) :
    readBlock str 0 n = some (str.take n) := by
  rw [readBlock_of_le (by omega), List.drop_zero]

theorem safe_writeBytes (str : Bytes) (length : BitVec 32) (hstr : length.toNat ≤ str.length)
    (hlen : length.toNat ≤ 65535) : Safe fun w => (w.writeBytes str length).map Prod.snd := by
  have htake : (str.take length.toNat).length = length.toNat := by
    rw [List.length_take]
    omega
  have hform : ∀ w : BinaryWriteStream, (w.writeBytes str length).map Prod.snd =
      if w.ptr + w.len < w.ahead ((length.toNat + 2 : ℕ) : ℤ) then some w
      else (w.writeLength (length.setWidth 16)).bind fun w => w.poke (str.take length.toNat) := by
    intro w
    have htest : w.refusesBytes length = true ↔
        w.ptr + w.len < w.ahead ((length.toNat + 2 : ℕ) : ℤ) := by
      rw [refusesBytes, decide_eq_true_iff]
      rfl
    rw [writeBytes, if_congr htest rfl rfl, readBlock_take hstr]
    split
    · rfl
    · simp only [Option.bind_eq_bind, Option.bind_some, Option.map_bind, Function.comp_def,
        Option.map_some, Option.bind_fun_some]
  apply safe_guarded (by omega) hform
  intro w _ hroom
  rw [← htake] at hroom
  obtain ⟨hcopy, hstays⟩ := stays_string (length.setWidth 16) hroom
  exact ⟨_, hcopy, hstays⟩

theorem safe_writeNoLength (str : Bytes) (length : BitVec 32) (hstr : length.toNat ≤ str.length)
    (hlen : length.toNat ≤ 65535) : Safe fun w => (w.writeNoLength str length).map Prod.snd := by
  have htake : (str.take length.toNat).length = length.toNat := by
    rw [List.length_take]
    omega
  have hform : ∀ w : BinaryWriteStream, (w.writeNoLength str length).map Prod.snd =
      if w.ptr + w.len < w.ahead ((length.toNat + 4 : ℕ) : ℤ) then some w
      else w.poke (str.take length.toNat) := by
    intro w
    rw [writeNoLength, readBlock_take hstr]
    push_cast
    split
    · rfl
    · simp only [Option.bind_eq_bind, Option.bind_some, Option.map_bind, Function.comp_def,
        Option.map_some, Option.bind_fun_some]
  apply safe_guarded (by omega) hform
  intro w _ hroom
  have hfit : w.Room (str.take length.toNat).length := hroom.mono (by omega)
  exact ⟨_, poke_eq hfit, stays_pushed hfit⟩

theorem safe_seek (length : BitVec 32) : Safe fun w => some (w.seek length).2 := by
  intro w hw
  refine ⟨_, rfl, ?_⟩
  have hwrap := hw.wrap
  rw [seek]
  split
  · exact stays_refl hw
  · rename_i hinside
    -- The sum that was compared is the new cursor, wrapped or not.
    refine ⟨rfl, rfl, ⟨?_, ?_⟩, fun _ _ => rfl⟩
    · change w.ptr + 4 ≤ w.ahead length.toNat
      omega
    · change w.ahead length.toNat ≤ w.ptr + w.len
      omega

theorem safe_clear : Safe fun w => some w.clear := by
  intro w hw
  have hlow := hw.room.low
  have hhigh := hw.room.high
  exact ⟨_, rfl, rfl, rfl, room_clear (by omega), fun _ _ => rfl⟩

/-! ### Vectors and records -/

theorem safe_insertMany {α : Type} {elem : α → BinaryWriteStream → Option BinaryWriteStream}
    (xs : List α) (helem : ∀ x ∈ xs, Safe (elem x)) : Safe (insertMany elem xs) := by
  induction xs with
  | nil => exact safe_some
  | cons x xs ih =>
    rw [List.forall_mem_cons] at helem
    exact helem.1.bind (ih helem.2)

theorem safe_insertVector {α : Type} {elem : α → BinaryWriteStream → Option BinaryWriteStream}
    (xs : List α) (helem : ∀ x ∈ xs, Safe (elem x)) : Safe (insertVector elem xs) := by
  have hcount := safe_writeScalar (shortBytes_length (BitVec.ofNat 16 xs.length)) (by decide)
  rw [insertVector_bind]
  exact hcount.bind ((safe_insertMany xs helem).bind safe_flush)

end BinaryWriteStream

mutual
theorem safe_insert : (t : Ty) → (v : t.Val) → t.ShortStrings v → Safe (t.insert v)
  | .int, v, _ => safe_insertScalar (intBytes_length v) (by decide)
  | .short, v, _ => safe_insertScalar (shortBytes_length v) (by decide)
  | .char, v, _ => safe_insertScalar (List.length_singleton (a := v)) (by decide)
  | .float, v, _ => safe_insertScalar (intBytes_length v) (by decide)
  | .longlong, v, _ => safe_insertLongLong v
  | .string, str, h => safe_insertString str h
  | .vector t, xs, h => safe_insertVector xs fun x hx => safe_insert t x (h x hx)
  | .struct fs, vs, h => safe_pack fs vs h
  | .msg id fs, vs, h =>
    (safe_insertScalar (intBytes_length id) (by decide)).bind (safe_pack fs vs h)

theorem safe_pack : (fs : Fields) → (vs : fs.Vals) → fs.ShortStrings vs → Safe (fs.pack vs)
  | .nil, _, _ => safe_some
  | .cons t fs, (v, vs), h => (safe_insert t v h.1).bind (safe_pack fs vs h.2)
end

theorem safe_call (c : WriteCall) (h : c.Legal) : Safe c.call := by
  cases c with
  | insert t v => exact safe_insert t v h
  | insertUnsignedChar c => exact safe_insertScalar List.length_singleton (by decide)
  | insertUnsignedChars cs =>
    exact safe_insertVector cs fun c _ => safe_insertScalar List.length_singleton (by decide)
  | writeInt i => exact safe_writeScalar (intBytes_length i) (by decide)
  | writeFloat f => exact safe_writeScalar (intBytes_length f) (by decide)
  | writeShort i => exact safe_writeScalar (shortBytes_length i) (by decide)
  | writeChar c => exact safe_writeScalar List.length_singleton (by decide)
  | writeUnsignedChar c => exact safe_writeScalar List.length_singleton (by decide)
  | writeString str => exact safe_writeString str h
  | writeBytes str length => exact safe_writeBytes str length h.1 h.2
  | writeNoLength str length => exact safe_writeNoLength str length h.1 h.2
  | seek length => exact safe_seek length
  | clear => exact safe_clear
  | flush => exact safe_flush

/-! ### Sequences of calls -/

theorem inBlock_of_stays {w w' : BinaryWriteStream} (h : Stays w w') : InBlock w w' := by
  have hlow := h.room.low
  have hhigh := h.room.high
  have hsize : w'.getSize.toNat = w'.cur - w'.ptr := getSize_toNat (by omega) (by omega)
  refine ⟨h.ptr, h.len, ⟨hlow, hhigh⟩, ?_, h.outside⟩
  rw [hsize]
  omega

theorem stays_of_run {w t : BinaryWriteStream} {tr : List (BinaryWriteStream × WriteCall)}
    (hw : w.Sound) (hrun : Run WriteStep w tr t) (hlegal : Meets (fun _ c => c.Legal) tr) :
    Stays w t := by
  apply Run.invariant_of_meets _ hrun (stays_refl hw) hlegal
  intro t c u ht hc hstep
  obtain ⟨u', hu', hstays⟩ := safe_call c hc t (ht.sound hw)
  have hsame : u = u' := Option.some.inj (hstep.symm.trans hu')
  rw [hsame]
  exact ht.trans hstays

/-- From a new stream, every sequence of calls returns, writes inside the block
only and leaves the cursor between the header and the end of the block. -/
theorem calls_inBlock {w t : BinaryWriteStream} {tr : List (BinaryWriteStream × WriteCall)}
    (hnew : w.cur = w.ptr + 4) (hlen : 4 ≤ w.len) (hwrap : w.ptr + w.len + 65541 < 2 ^ 32)
    (hrun : Run WriteStep w tr t) (hlegal : Meets (fun _ c => c.Legal) tr) :
    InBlock w t ∧ ∀ c : WriteCall, c.Legal → ∃ u, c.call t = some u ∧ InBlock w u := by
  have hw : w.Sound := ⟨⟨by omega, by omega⟩, hwrap⟩
  have hstays := stays_of_run hw hrun hlegal
  refine ⟨inBlock_of_stays hstays, ?_⟩
  intro c hc
  obtain ⟨u, hu, hstays'⟩ := safe_call c hc t (hstays.sound hw)
  exact ⟨u, hu, inBlock_of_stays (hstays.trans hstays')⟩

def tenBytes : BinaryWriteStream := ⟨4096, 10, 4100, fun _ => 0, by decide⟩

theorem calls_inBlock_seek :
    InBlock tenBytes ((tenBytes.pushed [7]).seek 0xffffffff).2 ∧
      ∀ c : WriteCall, c.Legal →
        ∃ u, c.call ((tenBytes.pushed [7]).seek 0xffffffff).2 = some u ∧ InBlock tenBytes u := by
  have h0 : Run WriteStep tenBytes [] tenBytes := .nil
  have hwrite : WriteStep tenBytes (.writeUnsignedChar 7) (tenBytes.pushed [7]) := rfl
  have hseek : WriteStep (tenBytes.pushed [7]) (.seek 0xffffffff)
      ((tenBytes.pushed [7]).seek 0xffffffff).2 := rfl
  have h2 := (h0.snoc hwrite).snoc hseek
  exact calls_inBlock rfl (by decide) (by decide) h2
    (meets_snoc.mpr ⟨meets_snoc.mpr ⟨meets_nil _, trivial⟩, trivial⟩)

end GameRes.NetPack
