import GameRes.NetApp.MessageBuffer
import Mathlib.Logic.Function.Basic

/-!
# Moving a message buffer (NetApp/Buffer.h:18-104, 341-344)

`Normalize` moves the unread bytes to the front of the vector. The constructors and
assignments work on objects at addresses; a vector that was moved from is empty. The
members of a new object are initialised in the order of their declaration: vector,
read position, write position.
-/

namespace GameRes.NetApp
open Library

def sizeSub (m n : ℕ) : ℕ := if n ≤ m then m - n else 2 ^ 32 + m - n

theorem sizeSub_of_le {m n : ℕ} (h : n ≤ m) : sizeSub m n = m - n := if_pos h

namespace MessageBuffer

def getActiveSize (b : MessageBuffer) : ℕ := sizeSub b.wpos b.rpos

def getRemainingSpace (b : MessageBuffer) : ℕ := sizeSub b.buffer.length b.wpos

def active (b : MessageBuffer) : Bytes := (b.buffer.drop b.rpos).take (b.wpos - b.rpos)

structure Positioned (b : MessageBuffer) : Prop where
  ordered : b.rpos ≤ b.wpos
  inside : b.wpos ≤ b.buffer.length

theorem Positioned.activeSize {b : MessageBuffer} (h : b.Positioned) :
    b.getActiveSize = b.wpos - b.rpos := sizeSub_of_le h.ordered

theorem Positioned.remainingSpace {b : MessageBuffer} (h : b.Positioned) :
    b.getRemainingSpace = b.buffer.length - b.wpos := sizeSub_of_le h.inside

/-! ### `Normalize` (Buffer.h:61-73) -/

/-- `memmove` inside one block: all bytes are read before the first is written. -/
def memmove (block : Bytes) (dest src n : ℕ) : Option Bytes :=
  (readBlock block src n).bind fun bytes => writeBlock block dest bytes

def normalize (b : MessageBuffer) : Option MessageBuffer :=
  if b.rpos ≠ 0 then do
    let buffer ←
      if b.rpos ≠ b.wpos then memmove b.buffer 0 b.rpos b.getBufferSize else some b.buffer
    some { buffer := buffer, wpos := sizeSub b.wpos b.rpos, rpos := 0 }
  else some b

/-- `b'` holds the active bytes of `b` at its front, in a vector of the same size. -/
structure Compacted (b b' : MessageBuffer) : Prop where
  active : b'.active = b.active
  rpos : b'.rpos = 0
  wpos : b'.wpos = b.active.length
  size : b'.buffer.length = b.buffer.length

def NormalizesSafely (b : MessageBuffer) : Prop := ∃ b', b.normalize = some b' ∧ Compacted b b'

theorem active_length {b : MessageBuffer} (h : b.Positioned) : b.active.length = b.wpos - b.rpos := by
  have hordered := h.ordered
  have hinside := h.inside
  rw [active, List.length_take, List.length_drop]
  omega

theorem memmove_outside {block : Bytes} {dest src n : ℕ} (h : block.length < src + n) :
    memmove block dest src n = none := by
  rw [memmove, readBlock, if_neg (Nat.not_le.mpr h), Option.bind_none]

theorem normalize_front {b : MessageBuffer} (h : b.rpos = 0) : b.normalize = some b := by
  rw [normalize, if_neg (not_not.mpr h)]

theorem normalize_empty {b : MessageBuffer} (h : b.rpos = b.wpos) :
    b.normalize = some { b with rpos := 0, wpos := 0 } := by
  unfold normalize
  split
  next =>
    have hzero : sizeSub b.wpos b.rpos = 0 := by rw [sizeSub_of_le h.le, h, Nat.sub_self]
    rw [if_neg (not_not.mpr h), hzero]
    rfl
  next hzero =>
    obtain ⟨buffer, rpos, wpos⟩ := b
    have hrpos : rpos = 0 := not_not.mp hzero
    have hwpos : wpos = 0 := h.symm.trans hrpos
    rw [hrpos, hwpos]

/-- The count is the size of the whole vector, so the read ends as far behind the vector
as it begins behind its start. -/
theorem normalize_outside {b : MessageBuffer} (hfront : b.rpos ≠ 0) (hactive : b.rpos ≠ b.wpos) :
    b.normalize = none := by
  have hmove : memmove b.buffer 0 b.rpos b.getBufferSize = none :=
    memmove_outside (by rw [getBufferSize]; omega)
  rw [normalize, if_pos hfront, if_pos hactive, hmove]
  rfl

/-- `Normalize` compacts the buffer inside its vector exactly when the unread bytes are at
the front already or there are none. -/
theorem normalizesSafely_iff (b : MessageBuffer) (h : b.Positioned) :
    NormalizesSafely b ↔ b.rpos = 0 ∨ b.rpos = b.wpos := by
  have hlen := active_length h
  constructor
  · intro hsafe
    obtain ⟨b', hnormalize, -⟩ := hsafe
    by_contra hneither
    obtain ⟨hfront, hactive⟩ := not_or.mp hneither
    rw [normalize_outside hfront hactive] at hnormalize
    cases hnormalize
  · intro hcond
    rcases hcond with hfront | hempty
    · rw [hfront, Nat.sub_zero] at hlen
      exact ⟨b, normalize_front hfront, rfl, hfront, hlen.symm, rfl⟩
    · have hnone : b.active = [] := by
        rw [active, hempty, Nat.sub_self, List.take_zero]
      refine ⟨_, normalize_empty hempty, ?_, rfl, ?_, rfl⟩
      · rw [hnone]
        rfl
      · rw [hnone]
        rfl

theorem normalizesSafely_read : NormalizesSafely ⟨[1, 2, 3], 2, 2⟩ :=
  (normalizesSafely_iff ⟨[1, 2, 3], 2, 2⟩ ⟨by decide, by decide⟩).mpr (Or.inr rfl)

/-- One byte was read of two: the move reads three bytes from the second of three on. -/
theorem normalize_overruns : ¬NormalizesSafely ⟨[1, 2, 3], 1, 2⟩ := by
  intro h
  obtain ⟨b', hnormalize, -⟩ := h
  rw [normalize_outside (by decide) (by decide)] at hnormalize
  cases hnormalize

end MessageBuffer

/-! ### Constructors and assignments (Buffer.h:23-29, 75-104) -/

/-- The objects of the program by address. -/
abbrev Objects := ℕ → MessageBuffer

namespace MessageBuffer

/-- `Move` and the move of the vector it refers to: what the receiver gets, and what is left. -/
def move (b : MessageBuffer) : Bytes × MessageBuffer := (b.buffer, ⟨[], 0, 0⟩)

def copyConstruct (m : Objects) (this right : ℕ) : Objects :=
  Function.update m this ⟨(m right).buffer, (m right).rpos, (m right).wpos⟩

def moveConstruct (m : Objects) (this right : ℕ) : Objects :=
  let moved := (m right).move
  let m := Function.update m right moved.2
  Function.update m this ⟨moved.1, (m right).rpos, (m right).wpos⟩

def copyAssign (m : Objects) (this right : ℕ) : Objects :=
  if this ≠ right then
    Function.update m this
      { wpos := (m right).wpos, rpos := (m right).rpos, buffer := (m right).buffer }
  else m

def moveAssign (m : Objects) (this right : ℕ) : Objects :=
  if this ≠ right then
    let wpos := (m right).wpos
    let rpos := (m right).rpos
    let moved := (m right).move
    Function.update (Function.update m right moved.2) this ⟨moved.1, rpos, wpos⟩
  else m

/-- `this` has in `m'` the active bytes and the positions that `right` had in `m`. -/
structure Carries (m m' : Objects) (this right : ℕ) : Prop where
  active : (m' this).active = (m right).active
  rpos : (m' this).rpos = (m right).rpos
  wpos : (m' this).wpos = (m right).wpos

def Copied (m m' : Objects) (this right : ℕ) : Prop := Carries m m' this right ∧ m' right = m right

def Moved (m m' : Objects) (this right : ℕ) : Prop :=
  Carries m m' this right ∧ (m' right).active = []

section
variable {m m' : Objects} {this right : ℕ}

theorem carries_of_eq (h : m' this = m right) : Carries m m' this right := by
  constructor
  · rw [h]
  · rw [h]
  · rw [h]

theorem copied_copyConstruct (hnew : this ≠ right) :
    Copied m (copyConstruct m this right) this right :=
  ⟨carries_of_eq (Function.update_self ..), Function.update_of_ne hnew.symm ..⟩

theorem copied_copyAssign : Copied m (copyAssign m this right) this right := by
  unfold copyAssign
  split
  next hother => exact copied_copyConstruct hother
  next hself =>
    rw [not_not.mp hself]
    exact ⟨carries_of_eq rfl, rfl⟩

theorem moved_moveAssign (hother : this ≠ right) :
    Moved m (moveAssign m this right) this right := by
  rw [moveAssign, if_pos hother]
  refine ⟨carries_of_eq (Function.update_self ..), ?_⟩
  rw [Function.update_of_ne hother.symm, Function.update_self]
  rfl

theorem moved_moveAssign_self :
    Moved m (moveAssign m right right) right right ↔ (m right).active = [] := by
  rw [moveAssign, if_neg (not_not.mpr rfl)]
  exact ⟨fun h => h.2, fun h => ⟨carries_of_eq rfl, h⟩⟩

/-- The positions are read after `Move` has set them to zero. -/
theorem moved_moveConstruct_iff (hnew : this ≠ right) :
    Moved m (moveConstruct m this right) this right ↔ (m right).rpos = 0 ∧ (m right).wpos = 0 := by
  have hthis : moveConstruct m this right this = ⟨(m right).buffer, 0, 0⟩ := by
    rw [moveConstruct]
    simp only [Function.update_self]
    rfl
  have hright : moveConstruct m this right right = ⟨[], 0, 0⟩ := by
    rw [moveConstruct, Function.update_of_ne hnew.symm, Function.update_self]
    rfl
  constructor
  · intro h
    have hrpos := h.1.rpos
    have hwpos := h.1.wpos
    rw [hthis] at hrpos hwpos
    exact ⟨hrpos.symm, hwpos.symm⟩
  · intro h
    obtain ⟨hrpos, hwpos⟩ := h
    refine ⟨⟨?_, ?_, ?_⟩, ?_⟩
    · rw [hthis, active, active, hrpos, hwpos]
    · rw [hthis, hrpos]
    · rw [hthis, hwpos]
    · rw [hright]
      rfl

theorem moved_moveAssign_of_zero (h : (m right).wpos = 0) :
    Moved m (moveAssign m this right) this right := by
  by_cases hself : this = right
  · rw [hself, moved_moveAssign_self, active, h, Nat.zero_sub, List.take_zero]
  · exact moved_moveAssign hself

end

/-- All four ways carry the message exactly from a buffer with both positions at zero, and
it is move construction that needs that. -/
theorem fourWays_iff (m : Objects) (new dest right : ℕ) (hnew : new ≠ right) :
    (Copied m (copyConstruct m new right) new right ∧
        Moved m (moveConstruct m new right) new right ∧
        Copied m (copyAssign m dest right) dest right ∧
        Moved m (moveAssign m dest right) dest right) ↔
      (m right).rpos = 0 ∧ (m right).wpos = 0 := by
  constructor
  · intro h
    exact (moved_moveConstruct_iff hnew).mp h.2.1
  · intro h
    exact ⟨copied_copyConstruct hnew, (moved_moveConstruct_iff hnew).mpr h, copied_copyAssign,
      moved_moveAssign_of_zero h.2⟩

theorem fourWays_reset :
    Copied (fun _ => ⟨[7, 8], 0, 0⟩) (copyConstruct (fun _ => ⟨[7, 8], 0, 0⟩) 0 1) 0 1 ∧
      Moved (fun _ => ⟨[7, 8], 0, 0⟩) (moveConstruct (fun _ => ⟨[7, 8], 0, 0⟩) 0 1) 0 1 ∧
      Copied (fun _ => ⟨[7, 8], 0, 0⟩) (copyAssign (fun _ => ⟨[7, 8], 0, 0⟩) 2 1) 2 1 ∧
      Moved (fun _ => ⟨[7, 8], 0, 0⟩) (moveAssign (fun _ => ⟨[7, 8], 0, 0⟩) 2 1) 2 1 :=
  (fourWays_iff (fun _ => ⟨[7, 8], 0, 0⟩) 0 2 1 (by decide)).mpr ⟨rfl, rfl⟩

/-- A buffer with two unread bytes arrives without them. -/
theorem moveConstruct_loses :
    ¬Moved (fun _ => ⟨[1, 2, 3], 0, 2⟩) (moveConstruct (fun _ => ⟨[1, 2, 3], 0, 2⟩) 0 1) 0 1 := by
  intro h
  have hpositions := (moved_moveConstruct_iff (by decide)).mp h
  exact absurd hpositions.2 (by decide)

end MessageBuffer
end GameRes.NetApp
