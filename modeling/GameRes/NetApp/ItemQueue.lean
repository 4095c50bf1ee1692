import GameRes.NetApp.MessageItems
import GameRes.NetApp.BufferMoves
import GameRes.Library.Runs

/-!
# A message buffer as a queue of items (NetApp/Buffer.h:31-39, 61-73, 135-339)

Both sides of the game pass a `MessageBuffer` around: one part inserts, another extracts,
and `Normalize` and `Reset` run in between. Beside the buffer stand the items inserted
and the items extracted since the last `Reset`.
-/

namespace GameRes.NetApp
open Library

structure Traffic where
  buffer : MessageBuffer := .fresh
  inserted : List Item := []
  extracted : List Item := []

inductive TrafficCall where
  | insert (item : Item)
  | extract (dest : Item)
  | normalize
  | reset
  | resize
  deriving Repr, DecidableEq

namespace Traffic

/-- `none` is an access outside the vector. -/
def after (t : Traffic) : TrafficCall → Option Traffic
  | .insert item =>
    (item.insert t.buffer).map fun b => { t with buffer := b, inserted := t.inserted ++ [item] }
  | .extract dest =>
    (dest.extract t.buffer).map fun r =>
      { t with buffer := r.2, extracted := t.extracted ++ [r.1] }
  | .normalize => t.buffer.normalize.map fun b => { t with buffer := b }
  | .reset => some { buffer := t.buffer.reset }
  | .resize =>
    some { t with buffer := { t.buffer with buffer := resizeBlock t.buffer.buffer messageMaxLength } }

def Step (t : Traffic) (c : TrafficCall) (u : Traffic) : Prop := t.after c = some u

/-- The items that were inserted and not extracted yet. -/
def waiting (t : Traffic) : List Item := t.inserted.drop t.extracted.length

/-- What the two parts agree on: the variables have the kinds of the items that come, and
the buffer is moved only where no unread byte has to move, and cut only behind the write
position. -/
def Matching (t : Traffic) : TrafficCall → Prop
  | .insert item => item.Plain
  | .extract dest => ∃ item ∈ t.waiting.head?, dest.kind = item.kind
  | .normalize => t.buffer.rpos = 0 ∨ t.buffer.rpos = t.buffer.wpos
  | .reset => True
  | .resize => t.buffer.wpos ≤ messageMaxLength

/-- First in, first out: what was extracted is a first part of what was inserted, and the
unread bytes are the encodings of the rest. -/
structure Ordered (t : Traffic) : Prop where
  placed : t.buffer.Positioned
  plain : ∀ item ∈ t.waiting, item.Plain
  first : t.extracted ++ t.waiting = t.inserted
  bytes : t.buffer.active = t.waiting.flatMap Item.encode

end Traffic

namespace MessageBuffer
variable {b : MessageBuffer}

theorem active_eq (b : MessageBuffer) : b.active = (b.buffer.take b.wpos).drop b.rpos := by
  rw [active, List.drop_take]

theorem active_appended (h : b.Positioned) (src : Bytes) :
    (b.appended src).active = b.active ++ src := by
  have hrpos : b.rpos ≤ (b.buffer.take b.wpos).length := by
    rw [List.length_take, Nat.min_eq_left h.inside]
    exact h.ordered
  have htake := appended_take h.inside src
  rw [active_eq, active_eq, htake, ← List.drop_append_of_le_length hrpos]
  rfl

theorem positioned_appended (h : b.Positioned) (src : Bytes) : (b.appended src).Positioned := by
  refine ⟨?_, appended_fits h.inside src⟩
  exact h.ordered.trans (Nat.le_add_right _ _)

/-- The vector is what was read, the unread bytes and what is behind them. -/
theorem split_active (h : b.Positioned) :
    b.buffer = b.buffer.take b.rpos ++ b.active ++ b.buffer.drop b.wpos := by
  have hread : (b.buffer.take b.wpos).take b.rpos = b.buffer.take b.rpos := by
    rw [List.take_take, Nat.min_eq_left h.ordered]
  rw [active_eq, ← hread, List.take_append_drop, List.take_append_drop]

theorem active_advanced {src rest : Bytes} (hsrc : b.active = src ++ rest) :
    ({ b with rpos := b.rpos + src.length } : MessageBuffer).active = rest := by
  have hrest : b.active.drop src.length = rest := by rw [hsrc, List.drop_left]
  rw [active_eq, ← hrest, active_eq, List.drop_drop]

theorem positioned_advanced (h : b.Positioned) {src rest : Bytes} (hsrc : b.active = src ++ rest) :
    ({ b with rpos := b.rpos + src.length } : MessageBuffer).Positioned := by
  have hlen := active_length h
  have hordered := h.ordered
  rw [hsrc, List.length_append] at hlen
  refine ⟨?_, h.inside⟩
  change b.rpos + src.length ≤ b.wpos
  omega

/-- The item at the head of the unread bytes is extracted. -/
theorem extract_active (h : b.Positioned) {item dest : Item} (hplain : item.Plain)
    (hkind : dest.kind = item.kind) {rest : Bytes} (hbytes : b.active = item.encode ++ rest) :
    dest.extract b = some (item, { b with rpos := b.rpos + item.encode.length }) := by
  have hsplit := split_active h
  have hread : (b.buffer.take b.rpos).length = b.rpos := by
    rw [List.length_take, Nat.min_eq_left (h.ordered.trans h.inside)]
  rw [hbytes, ← List.append_assoc, List.append_assoc] at hsplit
  exact extract_eq hplain hkind hsplit hread.symm

theorem active_resized (hinside : b.wpos ≤ b.buffer.length) (hfits : b.wpos ≤ messageMaxLength) :
    ({ b with buffer := resizeBlock b.buffer messageMaxLength } : MessageBuffer).active =
      b.active := by
  have hlen : (b.buffer.take messageMaxLength).length = min messageMaxLength b.buffer.length :=
    List.length_take
  have htake : (resizeBlock b.buffer messageMaxLength).take b.wpos = b.buffer.take b.wpos := by
    rw [resizeBlock, List.take_append_of_le_length (by omega), List.take_take,
      Nat.min_eq_left hfits]
  rw [active_eq, active_eq, htake]

end MessageBuffer

namespace Traffic
open MessageBuffer
variable {t : Traffic} {b : MessageBuffer} {item dest : Item}

theorem after_insert (h : item.insert t.buffer = some b) :
    t.after (.insert item) = some { t with buffer := b, inserted := t.inserted ++ [item] } := by
  rw [after, h, Option.map_some]

theorem after_extract (h : dest.extract t.buffer = some (item, b)) :
    t.after (.extract dest) = some { t with buffer := b, extracted := t.extracted ++ [item] } := by
  rw [after, h, Option.map_some]

theorem after_normalize (h : t.buffer.normalize = some b) :
    t.after .normalize = some { t with buffer := b } := by
  rw [after, h, Option.map_some]

theorem ordered_empty (buffer : Bytes) : Ordered { buffer := ⟨buffer, 0, 0⟩ } := by
  refine ⟨⟨Nat.le_refl 0, Nat.zero_le _⟩, ?_, rfl, List.take_zero⟩
  intro item hitem
  cases hitem

/-! ### One call -/

theorem ordered_insert (h : t.Ordered) (hplain : item.Plain) :
    ∃ u, t.after (.insert item) = some u ∧ u.Ordered := by
  have hextracted : t.extracted.length ≤ t.inserted.length := by
    rw [← h.first, List.length_append]
    exact Nat.le_add_right _ _
  have hwaiting : (t.inserted ++ [item]).drop t.extracted.length = t.waiting ++ [item] :=
    List.drop_append_of_le_length hextracted
  refine ⟨_, after_insert (insert_eq h.placed.inside item), ?_, ?_, ?_, ?_⟩
  · exact positioned_appended h.placed item.encode
  · intro i hi
    rw [waiting, hwaiting, List.mem_append, List.mem_singleton] at hi
    rcases hi with hold | hnew
    · exact h.plain i hold
    · rw [hnew]
      exact hplain
  · rw [waiting, hwaiting, ← List.append_assoc, h.first]
  · rw [waiting, hwaiting, List.flatMap_append, List.flatMap_singleton, ← h.bytes]
    exact active_appended h.placed item.encode

theorem ordered_extract (h : t.Ordered)
    (hmatch : ∃ item ∈ t.waiting.head?, dest.kind = item.kind) :
    ∃ u, t.after (.extract dest) = some u ∧ u.Ordered := by
  obtain ⟨item, hhead, hkind⟩ := hmatch
  obtain ⟨rest, hwaiting⟩ := List.head?_eq_some_iff.mp hhead
  have hbytes : t.buffer.active = item.encode ++ rest.flatMap Item.encode := by
    rw [h.bytes, hwaiting, List.flatMap_cons]
  have hmem : item ∈ t.waiting := hwaiting ▸ List.mem_cons_self
  have hextract := extract_active h.placed (h.plain item hmem) hkind hbytes
  have hrest : t.inserted.drop (t.extracted ++ [item]).length = rest := by
    rw [List.length_append, ← List.drop_drop]
    change t.waiting.drop 1 = rest
    rw [hwaiting]
    rfl
  refine ⟨_, after_extract hextract, ?_, ?_, ?_, ?_⟩
  · exact positioned_advanced h.placed hbytes
  · intro i hi
    rw [waiting, hrest] at hi
    exact h.plain i (hwaiting ▸ List.mem_cons_of_mem _ hi)
  · rw [waiting, hrest, List.append_assoc, List.singleton_append, ← hwaiting, h.first]
  · rw [waiting, hrest]
    exact active_advanced hbytes

theorem ordered_normalize (h : t.Ordered)
    (hmatch : t.buffer.rpos = 0 ∨ t.buffer.rpos = t.buffer.wpos) :
    ∃ u, t.after .normalize = some u ∧ u.Ordered := by
  obtain ⟨b, hnormalize, hcompacted⟩ := (normalizesSafely_iff t.buffer h.placed).mpr hmatch
  refine ⟨_, after_normalize hnormalize, ⟨?_, ?_⟩, h.plain, h.first, ?_⟩
  · change b.rpos ≤ b.wpos
    rw [hcompacted.rpos]
    exact Nat.zero_le _
  · change b.wpos ≤ b.buffer.length
    have hinside := h.placed.inside
    rw [hcompacted.wpos, hcompacted.size, active_length h.placed]
    omega
  · exact hcompacted.active.trans h.bytes

theorem ordered_resize (h : t.Ordered) (hfits : t.buffer.wpos ≤ messageMaxLength) :
    ∃ u, t.after .resize = some u ∧ u.Ordered := by
  refine ⟨_, rfl, ⟨h.placed.ordered, ?_⟩, h.plain, h.first, ?_⟩
  · change t.buffer.wpos ≤ (resizeBlock t.buffer.buffer messageMaxLength).length
    rw [resizeBlock_length]
    exact hfits
  · exact (active_resized h.placed.inside hfits).trans h.bytes

/-- A matching call stays inside the vector and keeps the order. -/
theorem ordered_after (h : t.Ordered) {c : TrafficCall} (hmatch : t.Matching c) :
    ∃ u, t.after c = some u ∧ u.Ordered := by
  cases c with
  | insert item => exact ordered_insert h hmatch
  | extract dest => exact ordered_extract h hmatch
  | normalize => exact ordered_normalize h hmatch
  | reset => exact ⟨_, rfl, ordered_empty t.buffer.buffer⟩
  | resize => exact ordered_resize h hmatch

/-! ### Whole runs -/

/-- As long as the two parts match, a buffer is a queue: at every moment of a run the items
extracted are the first of the items inserted, the unread bytes encode the others, and the
next matching call stays inside the vector. -/
theorem first_in_first_out {tr : List (Traffic × TrafficCall)} {t : Traffic}
    (hrun : Run Step {} tr t) (hmatch : Meets Matching tr) :
    Throughout (fun s => s.Ordered ∧ ∀ c, s.Matching c → ∃ u, Step s c u) tr t := by
  have hordered : Throughout Ordered tr t := by
    apply hrun.throughout _ (ordered_empty _) hmatch
    intro s c u hs hc hstep
    obtain ⟨u', hafter, hu⟩ := ordered_after hs hc
    have hsame : u' = u := Option.some.inj (hafter.symm.trans hstep)
    exact hsame ▸ hu
  apply hordered.mono
  intro s hs
  refine ⟨hs, ?_⟩
  intro c hc
  obtain ⟨u, hafter, -⟩ := ordered_after hs hc
  exact ⟨u, hafter⟩

/-- A string goes in, comes out, and the buffer is moved back. -/
def passed : Traffic :=
  { buffer := MessageBuffer.fresh.appended [65, 0], inserted := [.string [65]] }

def taken : Traffic :=
  { passed with
    buffer := { passed.buffer with rpos := passed.buffer.rpos + 2 }
    extracted := [.string [65]] }

def passing : List (Traffic × TrafficCall) :=
  [({}, .insert (.string [65])), (passed, .extract (.string [])), (taken, .normalize)]

theorem first_in_first_out_string :
    Throughout (fun s => s.Ordered ∧ ∀ c, s.Matching c → ∃ u, Step s c u) passing
      { taken with buffer := { taken.buffer with rpos := 0, wpos := 0 } } := by
  have hplain : (Item.string [65]).Plain := fun hmem => absurd hmem (by decide)
  have hkind : (Item.string []).kind = (Item.string [65]).kind := rfl
  have hfresh : MessageBuffer.fresh.Positioned := ⟨Nat.le_refl 0, Nat.zero_le _⟩
  have hencode : (Item.string [65]).encode = [65, 0] := by decide
  have hinsert : (Item.string [65]).insert .fresh = some passed.buffer := by
    rw [insert_eq hfresh.inside, hencode]
    rfl
  have hactive : passed.buffer.active = (Item.string [65]).encode ++ [] := by
    have hnone : MessageBuffer.fresh.active = [] :=
      List.eq_nil_of_length_eq_zero (active_length hfresh)
    have hactive := active_appended hfresh [65, 0]
    rw [hnone, List.nil_append] at hactive
    rw [hencode, List.append_nil]
    exact hactive
  have hextract := extract_active (positioned_appended hfresh [65, 0]) hplain hkind hactive
  rw [hencode] at hextract
  have hin : Step {} (.insert (.string [65])) passed := after_insert hinsert
  have hout : Step passed (.extract (.string [])) taken := after_extract hextract
  have hback : Step taken .normalize _ := after_normalize (normalize_empty rfl)
  have hmatch : Meets Matching passing := by
    simp only [Meets, passing, List.forall_mem_cons]
    exact ⟨hplain, ⟨_, rfl, rfl⟩, Or.inr rfl, meets_nil Matching⟩
  exact first_in_first_out (((Run.nil.snoc hin).snoc hout).snoc hback) hmatch

end Traffic
end GameRes.NetApp
