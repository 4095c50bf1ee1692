import GameRes.Library.Bytes
import Mathlib.Data.List.TakeWhile

/-!
# Readers of byte strings

A reader takes a value from the front of its input. It is local if what it
accepts depends on the bytes it takes and on nothing behind them; the encodings of
local readers are prefix codes, and sequences of them are read back one by one.
-/

namespace GameRes.Library
variable {α β γ : Type*}

abbrev Reader (α : Type*) := Bytes → Option (α × Bytes)

/-- `r` reads `a` off `bs`, whatever follows. -/
def Reader.Reads (r : Reader α) (bs : Bytes) (a : α) : Prop :=
  ∀ rest, r (bs ++ rest) = some (a, rest)

def Reader.Local (r : Reader α) : Prop :=
  ∀ bs a rest, r bs = some (a, rest) → ∃ front, bs = front ++ rest ∧ r.Reads front a

def Reader.Advances (r : Reader α) : Prop :=
  ∀ bs a rest, r bs = some (a, rest) → rest.length < bs.length

def Reader.bind (r : Reader α) (f : α → Reader β) : Reader β :=
  fun bs => (r bs).bind fun x => f x.1 x.2

def Reader.map (g : α → β) (r : Reader α) : Reader β :=
  fun bs => (r bs).map fun x => (g x.1, x.2)

/-- The next `n` bytes. -/
def takeBytes (n : ℕ) : Reader Bytes :=
  fun bs => if n ≤ bs.length then some (bs.take n, bs.drop n) else none

namespace Reader
variable {r : Reader α} {f : α → Reader β}

theorem Reads.nil_append {bs : Bytes} {a : α} (h : r.Reads bs a) : r bs = some (a, []) := by
  have hr := h []
  rwa [List.append_nil] at hr

theorem Reads.bind {bs cs : Bytes} {a : α} {b : β} (hr : r.Reads bs a) (hf : (f a).Reads cs b) :
    (r.bind f).Reads (bs ++ cs) b := by
  intro rest
  rw [Reader.bind, List.append_assoc, hr, Option.bind_some]
  exact hf rest

theorem Reads.map {bs : Bytes} {a : α} (g : α → β) (hr : r.Reads bs a) :
    (r.map g).Reads bs (g a) := by
  intro rest
  rw [Reader.map, hr, Option.map_some]

theorem Local.bind (hr : r.Local) (hf : ∀ a, (f a).Local) : (r.bind f).Local := by
  intro bs b rest h
  obtain ⟨x, hx, hfx⟩ := Option.bind_eq_some_iff.mp h
  obtain ⟨front, hbs, hfront⟩ := hr bs x.1 x.2 hx
  obtain ⟨back, hback, hb⟩ := hf x.1 x.2 b rest hfx
  refine ⟨front ++ back, ?_, hfront.bind hb⟩
  rw [hbs, hback, List.append_assoc]

theorem Local.map (g : α → β) (hr : r.Local) : (r.map g).Local := by
  intro bs b rest h
  obtain ⟨x, hx, heq⟩ := Option.map_eq_some_iff.mp h
  obtain ⟨rfl, rfl⟩ := Prod.mk.inj heq
  obtain ⟨front, hbs, hfront⟩ := hr bs x.1 x.2 hx
  exact ⟨front, hbs, hfront.map g⟩

theorem Local.read_append (hr : r.Local) {bs rest : Bytes} {a : α} (h : r bs = some (a, rest))
    (more : Bytes) : r (bs ++ more) = some (a, rest ++ more) := by
  obtain ⟨front, rfl, hfront⟩ := hr bs a rest h
  rw [List.append_assoc]
  exact hfront (rest ++ more)

theorem Local.length_le (hr : r.Local) {bs rest : Bytes} {a : α} (h : r bs = some (a, rest)) :
    rest.length ≤ bs.length := by
  obtain ⟨front, rfl, -⟩ := hr bs a rest h
  rw [List.length_append]
  exact Nat.le_add_left _ _

/-- Cut short anywhere, an encoding is refused. -/
theorem Local.cut (hr : r.Local) {bs : Bytes} {a : α} (h : r.Reads bs a) {k : ℕ}
    (hk : k < bs.length) : r (bs.take k) = none := by
  cases hcut : r (bs.take k) with
  | none => rfl
  | some x =>
    have hwhole := hr.read_append hcut (bs.drop k)
    rw [List.take_append_drop, h.nil_append, Option.some.injEq, Prod.mk.injEq] at hwhole
    have hnil := (List.append_eq_nil_iff.mp hwhole.2.symm).2
    rw [List.drop_eq_nil_iff] at hnil
    omega

theorem Advances.bind (hr : r.Advances) (hf : ∀ a, (f a).Local) : (r.bind f).Advances := by
  intro bs b rest h
  obtain ⟨x, hx, hfx⟩ := Option.bind_eq_some_iff.mp h
  have hlt := hr bs x.1 x.2 hx
  have hle := (hf x.1).length_le hfx
  omega

end Reader

theorem takeBytes_reads (bs : Bytes) : (takeBytes bs.length).Reads bs bs := by
  intro rest
  have hle : bs.length ≤ (bs ++ rest).length := by
    rw [List.length_append]
    omega
  rw [takeBytes, if_pos hle, List.take_left' rfl, List.drop_left' rfl]

theorem takeBytes_length {n : ℕ} {bs s rest : Bytes} (h : takeBytes n bs = some (s, rest)) :
    s.length = n ∧ bs = s ++ rest := by
  rw [takeBytes] at h
  split_ifs at h with hle
  cases h
  exact ⟨by rw [List.length_take, Nat.min_eq_left hle], (List.take_append_drop n bs).symm⟩

theorem takeBytes_local (n : ℕ) : (takeBytes n).Local := by
  intro bs s rest h
  obtain ⟨hlen, heq⟩ := takeBytes_length h
  refine ⟨s, heq, ?_⟩
  rw [← hlen]
  exact takeBytes_reads s

/-! ### A whole input -/

def Reader.allFrom (r : Reader α) : ℕ → Bytes → Option (List α)
  | _, [] => some []
  | 0, _ :: _ => none
  | n + 1, b :: bs => (r (b :: bs)).bind fun x => (r.allFrom n x.2).map (x.1 :: ·)

/-- One value after the other, to the end. A reader that advances has at most as many
turns as there are bytes. -/
def Reader.all (r : Reader α) (bs : Bytes) : Option (List α) := r.allFrom bs.length bs

namespace Reader
variable {r : Reader α}

theorem allFrom_eq (hr : r.Advances) {n m : ℕ} {bs : Bytes} (hn : bs.length ≤ n)
    (hm : bs.length ≤ m) : r.allFrom n bs = r.allFrom m bs := by
  induction n generalizing m bs with
  | zero =>
    rw [List.length_eq_zero_iff.mp (Nat.le_zero.mp hn)]
    cases m <;> rfl
  | succ n ih =>
    cases bs with
    | nil => cases m <;> rfl
    | cons b bs =>
      obtain ⟨m, rfl⟩ := Nat.exists_eq_succ_of_ne_zero (Nat.ne_of_gt (Nat.zero_lt_of_lt hm))
      rw [allFrom, allFrom]
      cases hread : r (b :: bs) with
      | none => rfl
      | some x =>
        have hlt : x.2.length < (b :: bs).length := hr _ _ _ hread
        rw [List.length_cons] at hlt hn hm
        have hrest : r.allFrom n x.2 = r.allFrom m x.2 := ih (by omega) (by omega)
        rw [Option.bind_some, Option.bind_some, hrest]

theorem all_step (hr : r.Advances) {bs : Bytes} (hne : bs ≠ []) :
    r.all bs = (r bs).bind fun x => (r.all x.2).map (x.1 :: ·) := by
  cases bs with
  | nil => exact absurd rfl hne
  | cons b bs =>
    rw [all, List.length_cons, allFrom]
    cases hread : r (b :: bs) with
    | none => rfl
    | some x =>
      have hlt : x.2.length < (b :: bs).length := hr _ _ _ hread
      have hrest : r.allFrom bs.length x.2 = r.all x.2 :=
        allFrom_eq hr (Nat.le_of_lt_succ hlt) (Nat.le_refl _)
      rw [Option.bind_some, Option.bind_some, hrest]

theorem Advances.reads_ne_nil (hr : r.Advances) {front : Bytes} {a : α} (h : r.Reads front a) :
    front ≠ [] := by
  intro heq
  subst heq
  have hlt := hr _ _ _ (h [])
  exact absurd hlt (Nat.lt_irrefl _)

theorem all_reads (hr : r.Advances) {front : Bytes} {a : α} (h : r.Reads front a) (rest : Bytes) :
    r.all (front ++ rest) = (r.all rest).map (a :: ·) := by
  have hne : front ++ rest ≠ [] := fun heq =>
    hr.reads_ne_nil h (List.append_eq_nil_iff.mp heq).1
  rw [all_step hr hne, h, Option.bind_some]

/-- The rule of induction for an input that is read to its end. -/
theorem all_induction (hr : r.Advances) (hlocal : r.Local) {P : Bytes → List α → Prop}
    (hnil : P [] [])
    (hcons : ∀ front a rest as, r.Reads front a → r.all rest = some as → P rest as →
      P (front ++ rest) (a :: as)) {bs : Bytes} {as : List α} (h : r.all bs = some as) : P bs as := by
  induction hn : bs.length using Nat.strongRecOn generalizing bs as with
  | ind n ih =>
    by_cases hne : bs = []
    · subst hne
      cases h
      exact hnil
    · rw [all_step hr hne] at h
      obtain ⟨x, hx, hrest⟩ := Option.bind_eq_some_iff.mp h
      obtain ⟨as, has, rfl⟩ := Option.map_eq_some_iff.mp hrest
      obtain ⟨front, rfl, hreads⟩ := hlocal _ _ _ hx
      have hlt : x.2.length < n := hn ▸ hr _ _ _ hx
      exact hcons front x.1 x.2 as hreads has (ih _ hlt has rfl)

theorem all_append (hr : r.Advances) (hlocal : r.Local) {bs : Bytes} {as : List α}
    (h : r.all bs = some as) (more : Bytes) : r.all (bs ++ more) = (r.all more).map (as ++ ·) := by
  refine all_induction hr hlocal (P := fun bs as => r.all (bs ++ more) = (r.all more).map (as ++ ·))
    ?_ ?_ h
  · rw [List.nil_append]
    cases r.all more <;> rfl
  · intro front a rest as hreads _ ih
    rw [List.append_assoc, all_reads hr hreads, ih, Option.map_map]
    rfl

theorem all_flatMap (hr : r.Advances) {ι : Type*} (enc : ι → Bytes) (val : ι → α) (is : List ι)
    (h : ∀ i ∈ is, r.Reads (enc i) (val i)) : r.all (is.flatMap enc) = some (is.map val) := by
  induction is with
  | nil => rfl
  | cons i is ih =>
    rw [List.flatMap_cons, all_reads hr (h i List.mem_cons_self),
      ih fun j hj => h j (List.mem_cons_of_mem i hj)]
    rfl

/-- An input that ends inside a value is refused. -/
theorem all_cut (hr : r.Advances) (hlocal : r.Local) {front : Bytes} {a : α}
    (hreads : r.Reads front a) {k : ℕ} (h0 : 0 < k) (hk : k < front.length) :
    r.all (front.take k) = none := by
  have hne : front.take k ≠ [] := by
    intro heq
    have hlen := congrArg List.length heq
    rw [List.length_take, List.length_nil] at hlen
    omega
  rw [all_step hr hne, hlocal.cut hreads hk, Option.bind_none]

section
variable {ι : Type*} {enc : ι → Bytes} {val : ι → α} {is : List ι}

/-- A front of a sequence of values is read when it ends between two of them. -/
theorem all_take_isSome_iff (hr : r.Advances) (hlocal : r.Local)
    (h : ∀ i ∈ is, r.Reads (enc i) (val i)) {k : ℕ} (hk : k ≤ (is.flatMap enc).length) :
    (r.all ((is.flatMap enc).take k)).isSome ↔ ∃ j, k = ((is.take j).flatMap enc).length := by
  induction is generalizing k with
  | nil =>
    have hzero : k = 0 := Nat.le_zero.mp hk
    subst hzero
    exact ⟨fun _ => ⟨0, rfl⟩, fun _ => rfl⟩
  | cons i is ih =>
    have hi := h i List.mem_cons_self
    have hpos : 0 < (enc i).length := List.length_pos_iff.mpr (hr.reads_ne_nil hi)
    rw [List.flatMap_cons] at hk ⊢
    by_cases h0 : k = 0
    · subst h0
      exact ⟨fun _ => ⟨0, rfl⟩, fun _ => rfl⟩
    · by_cases hin : k < (enc i).length
      · have hnone := all_cut hr hlocal hi (Nat.pos_of_ne_zero h0) hin
        rw [List.take_append_of_le_length (Nat.le_of_lt hin), hnone]
        refine ⟨fun hsome => absurd hsome (by simp), fun hj => ?_⟩
        obtain ⟨j, hj⟩ := hj
        cases j with
        | zero => exact absurd hj h0
        | succ j =>
          rw [List.take_succ_cons, List.flatMap_cons, List.length_append] at hj
          omega
      · have hrest := ih (fun j hj => h j (List.mem_cons_of_mem i hj)) (k := k - (enc i).length)
          (by rw [List.length_append] at hk; omega)
        have hsplit : k = (enc i).length + (k - (enc i).length) := by omega
        rw [hsplit, List.take_length_add_append, all_reads hr hi, Option.isSome_map, hrest]
        constructor
        · rintro ⟨j, hj⟩
          refine ⟨j + 1, ?_⟩
          rw [List.take_succ_cons, List.flatMap_cons, List.length_append, ← hj]
        · rintro ⟨j, hj⟩
          cases j with
          | zero =>
            rw [List.take_zero, List.flatMap_nil, List.length_nil] at hj
            omega
          | succ j =>
            rw [List.take_succ_cons, List.flatMap_cons, List.length_append] at hj
            exact ⟨j, by omega⟩

/-- An input that is cut at a byte with which no value starts is read only whole. -/
theorem all_takeWhile (hr : r.Advances) (hlocal : r.Local)
    (h : ∀ i ∈ is, r.Reads (enc i) (val i)) (p : Byte → Bool)
    (hhead : ∀ i ∈ is, ∀ b ∈ (enc i).head?, p b = true) :
    r.all ((is.flatMap enc).takeWhile p) =
      if ∀ b ∈ is.flatMap enc, p b = true then some (is.map val) else none := by
  induction is with
  | nil => rfl
  | cons i is ih =>
    have hi := h i List.mem_cons_self
    rw [List.flatMap_cons, List.takeWhile_append]
    by_cases hall : ∀ b ∈ enc i, p b = true
    · have hsame : (enc i).takeWhile p = enc i := List.takeWhile_eq_self_iff.mpr hall
      rw [hsame, if_pos rfl, all_reads hr hi, ih (fun j hj => h j (List.mem_cons_of_mem i hj))
        fun j hj => hhead j (List.mem_cons_of_mem i hj)]
      have hiff : (∀ b ∈ enc i ++ is.flatMap enc, p b = true) ↔ ∀ b ∈ is.flatMap enc, p b = true := by
        rw [List.forall_mem_append]
        exact and_iff_right hall
      simp only [hiff]
      split_ifs <;> rfl
    · have hlt : ((enc i).takeWhile p).length < (enc i).length := by
        refine lt_of_le_of_ne (List.takeWhile_prefix p).length_le fun heq => hall ?_
        have hsame := (List.takeWhile_prefix p).eq_of_length heq
        exact List.takeWhile_eq_self_iff.mp hsame
      have hpos : 0 < ((enc i).takeWhile p).length := by
        obtain ⟨b, bs, hcons⟩ := List.exists_cons_of_ne_nil (hr.reads_ne_nil hi)
        have hb := hhead i List.mem_cons_self b (by rw [hcons]; rfl)
        rw [hcons, List.takeWhile_cons_of_pos hb]
        exact Nat.succ_pos _
      have hcut := all_cut hr hlocal hi hpos hlt
      rw [← List.prefix_iff_eq_take.mp (List.takeWhile_prefix p)] at hcut
      have hnot : ¬∀ b ∈ enc i ++ is.flatMap enc, p b = true := fun hb =>
        hall (List.forall_mem_append.mp hb).1
      rw [if_neg (Nat.ne_of_lt hlt), hcut, if_neg hnot]

end

end Reader

end GameRes.Library
