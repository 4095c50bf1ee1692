import GameRes.NetApp.MessageItems

/-!
# The string inserters of the message buffer (NetApp/Buffer.h:198-216)

`operator=(const char*)` ends with `append((uint8_t *)0)`, where `operator<<` of a
string has `append((uint8_t)0)`: the template takes its argument for a pointer and
appends as many zero bytes as a pointer has.
-/

namespace GameRes.NetApp
open Library

/-- `sizeof(uint8_t*)` for `Win32`, the only platform of the project files. -/
def pointerSize : ℕ := 4

namespace MessageBuffer

/-- `operator=(const char*)`: the characters before the terminator, or a null pointer. -/
def assign (b : MessageBuffer) (str : Option Bytes) : Option MessageBuffer := do
  let str := str.getD []
  let b ← if str.length ≠ 0 then b.append str else some b
  b.appendWord pointerSize 0

/-- Both inserters leave the same buffer, and from an empty one the string and whatever is
inserted behind it are extracted again. -/
structure Interchangeable (b : MessageBuffer) (s : Bytes) : Prop where
  same : b.assign (some s) = b.insertString s
  readsBack : b.rpos = b.wpos → b.wpos ≤ b.buffer.length →
    ∀ items dests : List Item, (∀ item ∈ items, item.Plain) →
      dests.map Item.kind = items.map Item.kind →
        ∃ mid full rest, b.assign (some s) = some mid ∧ mid.insertAll items = some full ∧
          full.extractAll (.string [] :: dests) = some (.string s :: items, rest)

/-! ### What is appended -/

section
variable {b t : MessageBuffer}

theorem append_moves {src : Bytes} (h : b.append src = some t) :
    t.rpos = b.rpos ∧ t.wpos = b.wpos + src.length := by
  unfold append at h
  split at h
  next hnil =>
    cases h
    exact ⟨rfl, by rw [hnil, Nat.add_zero]⟩
  next =>
    obtain ⟨buffer, -, heq⟩ := Option.map_eq_some_iff.mp h
    rw [← heq]
    exact ⟨rfl, rfl⟩

theorem append_isSome (b : MessageBuffer) (src : Bytes) : ∃ t, b.append src = some t := by
  unfold append
  split
  next => exact ⟨b, rfl⟩
  next =>
    rw [writeBlock_of_le (b.grown_length src.length)]
    exact ⟨_, rfl⟩

theorem assign_bind (b : MessageBuffer) (s : Bytes) :
    b.assign (some s) = (b.append s).bind fun b => b.appendWord pointerSize 0 := by
  unfold assign
  simp only [Option.getD_some]
  split
  next => rfl
  next hnil =>
    rw [append, if_pos (not_not.mp hnil)]
    rfl

theorem insertString_bind (b : MessageBuffer) (s : Bytes) :
    b.insertString s = (b.append s).bind fun b => b.appendWord 1 0 := by
  unfold insertString
  split
  next => rfl
  next hnil =>
    rw [append, if_pos (not_not.mp hnil)]
    rfl

theorem inserters_move (b : MessageBuffer) (s : Bytes) :
    ∃ t u, b.assign (some s) = some t ∧ b.insertString s = some u ∧
      t.wpos = b.wpos + s.length + pointerSize ∧ u.wpos = b.wpos + s.length + 1 := by
  obtain ⟨mid, hmid⟩ := b.append_isSome s
  obtain ⟨t, ht⟩ := mid.append_isSome (leBytes pointerSize 0)
  obtain ⟨u, hu⟩ := mid.append_isSome (leBytes 1 0)
  have hchars := (append_moves hmid).2
  refine ⟨t, u, ?_, ?_, ?_, ?_⟩
  · rw [assign_bind, hmid]
    exact ht
  · rw [insertString_bind, hmid]
    exact hu
  · rw [(append_moves ht).2, hchars, leBytes_length]
  · rw [(append_moves hu).2, hchars, leBytes_length]

/-- `operator=` is `operator<<` of the string and of three more zero bytes. -/
theorem assign_eq (h : b.wpos ≤ b.buffer.length) (s : Bytes) :
    b.assign (some s) = b.insertAll (.string s :: List.replicate 3 (.uint8 0)) := by
  have hzeros : leBytes pointerSize 0 = leBytes 1 0 ++ [0, 0, 0] := by decide
  have hitems : (Item.string s :: List.replicate 3 (Item.uint8 0)).flatMap Item.encode =
      s ++ leBytes pointerSize 0 := by
    rw [hzeros, ← List.append_assoc]
    rfl
  rw [insertAll_eq h, hitems, assign_bind, append_eq h, Option.bind_some,
    appendWord_eq (appended_fits h s), appended_appended h]

end

/-- What is inserted behind the string comes back behind three zero bytes. -/
theorem assign_extractAll {b : MessageBuffer} (hempty : b.rpos = b.wpos)
    (hfits : b.wpos ≤ b.buffer.length) {s : Bytes} (hs : 0 ∉ s) {items dests : List Item}
    (hplain : ∀ item ∈ items, item.Plain) (hkinds : dests.map Item.kind = items.map Item.kind) :
    ∃ mid full rest, b.assign (some s) = some mid ∧ mid.insertAll items = some full ∧
      full.extractAll (.string [] :: List.replicate 3 (.uint8 0) ++ dests) =
        some (.string s :: List.replicate 3 (.uint8 0) ++ items, rest) := by
  have hassign := (assign_eq hfits s).trans (insertAll_eq hfits _)
  have hinsert := insertAll_eq (appended_fits hfits
    ((Item.string s :: List.replicate 3 (Item.uint8 0)).flatMap Item.encode)) items
  rw [appended_appended hfits, ← List.flatMap_append] at hinsert
  have hall : ∀ item ∈ Item.string s :: List.replicate 3 (Item.uint8 0) ++ items, item.Plain := by
    intro item hitem
    rcases List.mem_append.mp hitem with hfront | hbehind
    · rcases List.mem_cons.mp hfront with hstring | hzero
      · rw [hstring]
        exact hs
      · rw [List.eq_of_mem_replicate hzero]
        trivial
    · exact hplain item hbehind
  have hsame : (Item.string [] :: List.replicate 3 (Item.uint8 0) ++ dests).map Item.kind =
      (Item.string s :: List.replicate 3 (Item.uint8 0) ++ items).map Item.kind := by
    rw [List.map_append, List.map_append, hkinds]
    rfl
  have hpos : b.rpos = (b.buffer.take b.wpos).length :=
    hempty.trans (List.length_take_of_le hfits).symm
  have hbuf : (b.appended ((Item.string s :: List.replicate 3 (Item.uint8 0) ++ items).flatMap
      Item.encode)).buffer = b.buffer.take b.wpos ++ _ ++ _ := rfl
  exact ⟨_, _, _, hassign, hinsert, extractAll_eq hall hsame hbuf hpos⟩

theorem assign_ne (b : MessageBuffer) (s : Bytes) : b.assign (some s) ≠ b.insertString s := by
  obtain ⟨t, u, ht, hu, htpos, hupos⟩ := inserters_move b s
  intro hsame
  rw [ht, hu] at hsame
  cases hsame
  rw [htpos] at hupos
  exact absurd (Nat.add_left_cancel hupos) (by decide)

/-- The two inserters are interchangeable for no buffer and no string. -/
theorem never_interchangeable (b : MessageBuffer) (s : Bytes) : ¬Interchangeable b s := by
  intro h
  exact assign_ne b s h.same

/-- Behind the string `A` the byte 7 was inserted, and a zero is extracted. -/
theorem zero_read_for_seven :
    ¬Interchangeable ⟨[], 0, 0⟩ [65] ∧
      ∃ mid full rest, assign ⟨[], 0, 0⟩ (some [65]) = some mid ∧
        mid.insertAll [.uint8 7] = some full ∧
        full.extractAll [.string [], .uint8 0] = some ([.string [65], .uint8 0], rest) := by
  refine ⟨fun h => assign_ne _ _ h.same, ?_⟩
  exact ⟨_, _, _, rfl, rfl, rfl⟩

end MessageBuffer
end GameRes.NetApp
