import GameRes.NetPack.RoundTrip

/-!
# Packing into a full stream (netPack/commDef.cpp:544-551, 681-876, commDef.hpp:299-323)

Each `operator<<` tests the space for itself and returns the stream in any case,
so the fields behind a refused one are still written where it would have been.
The stream is left with an initial run of the fields exactly when, from the first
one that does not fit, every test fails.
-/

namespace GameRes.NetPack
open Library

def Fields.encodings : (fs : Fields) → fs.Vals → List Bytes
  | .nil, _ => []
  | .cons t fs, (v, vs) => t.encode v :: fs.encodings vs

/-- The complete encodings of the first fields, up to any of them. -/
def Fields.IsRun (fs : Fields) (vs : fs.Vals) (bs : Bytes) : Prop :=
  ∃ k, bs = ((fs.encodings vs).take k).flatten

mutual
def Ty.ShortStrings : (t : Ty) → t.Val → Prop
  | .string, s => List.length s ≤ 32767
  | .vector t, (xs : List t.Val) => ∀ x ∈ xs, t.ShortStrings x
  | .struct fs, vs => fs.ShortStrings vs
  | .msg _ fs, vs => fs.ShortStrings vs
  | _, _ => True

def Fields.ShortStrings : (fs : Fields) → fs.Vals → Prop
  | .nil, _ => True
  | .cons t fs, (v, vs) => t.ShortStrings v ∧ fs.ShortStrings vs
end

mutual
/-- The numbers of bytes that `operator<<` compares with the space left, one for each test. -/
def Ty.tests : (t : Ty) → t.Val → List ℕ
  | .int, _ => [4]
  | .short, _ => [2]
  | .char, _ => [1]
  | .float, _ => [4]
  | .longlong, _ => [4, 4]
  | .string, s => [List.length s + 2]
  | .vector t, (xs : List t.Val) => 2 :: xs.flatMap t.tests
  | .struct fs, vs => fs.tests vs
  | .msg _ fs, vs => 4 :: fs.tests vs

def Fields.tests : (fs : Fields) → fs.Vals → List ℕ
  | .nil, _ => []
  | .cons t fs, (v, vs) => t.tests v ++ fs.tests vs
end

/-- Every test at `c` fails; one whose sum wraps does not. -/
def Refused (ns : List ℕ) (c last : ℕ) : Prop := ∀ n ∈ ns, last < c + n ∧ c + n < 2 ^ 32

/-- From the first field that does not fit behind `c` on, every test fails. -/
def Fields.Fitting : (fs : Fields) → fs.Vals → ℕ → ℕ → Prop
  | .nil, _, _, _ => True
  | .cons t fs, (v, vs), c, last =>
    if c + (t.encode v).length ≤ last then fs.Fitting vs (c + (t.encode v).length) last
    else Refused ((Fields.cons t fs).tests (v, vs)) c last

theorem ofNat_toNat_of_short {n : ℕ} (h : n ≤ 32767) : (BitVec.ofNat 16 n).toNat = n := by
  rw [BitVec.toNat_ofNat]
  omega

mutual
theorem packable_of_short : (t : Ty) → (v : t.Val) → t.ShortStrings v → t.Packable v
  | .int, _, _ => trivial
  | .short, _, _ => trivial
  | .char, _, _ => trivial
  | .float, _, _ => trivial
  | .longlong, _, _ => trivial
  | .string, _, h => (ofNat_toNat_of_short h).trans_lt (Nat.lt_succ_of_le h)
  | .vector t, _, h => fun x hx => packable_of_short t x (h x hx)
  | .struct fs, vs, h => fields_packable_of_short fs vs h
  | .msg _ fs, vs, h => fields_packable_of_short fs vs h

theorem fields_packable_of_short :
    (fs : Fields) → (vs : fs.Vals) → fs.ShortStrings vs → fs.Packable vs
  | .nil, _, _ => trivial
  | .cons t fs, (v, vs), h => ⟨packable_of_short t v h.1, fields_packable_of_short fs vs h.2⟩
end

/-! ### Runs -/

section
variable {t : Ty} {fs : Fields} {v : t.Val} {vs : fs.Vals}

theorem isRun_nil (fs : Fields) (vs : fs.Vals) : fs.IsRun vs [] := ⟨0, rfl⟩

theorem isRun_append (bs : Bytes) :
    (Fields.cons t fs).IsRun (v, vs) (t.encode v ++ bs) ↔ fs.IsRun vs bs := by
  constructor
  · intro h
    obtain ⟨k, hk⟩ := h
    cases k with
    | zero =>
      rw [(List.append_eq_nil_iff.mp hk).2]
      exact isRun_nil fs vs
    | succ k => exact ⟨k, List.append_cancel_left hk⟩
  · intro h
    obtain ⟨k, hk⟩ := h
    exact ⟨k + 1, congrArg (t.encode v ++ ·) hk⟩

theorem isRun_short {bs : Bytes} (h : (Fields.cons t fs).IsRun (v, vs) bs)
    (hlt : bs.length < (t.encode v).length) : bs = [] := by
  obtain ⟨k, hk⟩ := h
  cases k with
  | zero => exact hk
  | succ k =>
    have hlen : bs.length = (t.encode v ++ ((fs.encodings vs).take k).flatten).length :=
      congrArg List.length hk
    rw [List.length_append] at hlen
    omega

end

namespace BinaryWriteStream

/-! ### What a write can do to a stream -/

def Grew (w w' : BinaryWriteStream) : Prop := ∃ bs : Bytes, w.Room bs.length ∧ Wrote w w' bs

def Refuses (w : BinaryWriteStream) (ns : List ℕ) : Prop := Refused ns w.cur (w.ptr + w.len)

/-- The operation makes the tests `ns`: it leaves the cursor alone when all of them fail,
and only then. -/
structure Tested (f : BinaryWriteStream → Option BinaryWriteStream) (ns : List ℕ) : Prop where
  refused : ∀ w, w.Room 0 → w.Refuses ns → ∃ w', f w = some w' ∧ Wrote w w' []
  grew : ∀ w w', w.Room 0 → f w = some w' → Grew w w'
  still : ∀ w w', w.Room 0 → f w = some w' → w'.cur = w.cur → w.Refuses ns

section
variable {w w₁ w₂ : BinaryWriteStream}

theorem grew_refl (h : w.Room 0) : Grew w w := ⟨[], h, wrote_refl w⟩

theorem grew_flushed (h : w.Room 0) : Grew w w.flushed := ⟨[], h, wrote_flushed⟩

theorem Grew.room (h : Grew w w₁) : w₁.Room 0 := by
  obtain ⟨bs, hroom, hwrote⟩ := h
  exact hwrote.room hroom

theorem Grew.le (h : Grew w w₁) : w.cur ≤ w₁.cur := by
  obtain ⟨bs, -, hwrote⟩ := h
  rw [hwrote.cur]
  omega

theorem Grew.trans (h : Grew w w₁) (h' : Grew w₁ w₂) : Grew w w₂ := by
  obtain ⟨bs, hroom, hwrote⟩ := h
  obtain ⟨cs, hroom', hwrote'⟩ := h'
  have hhigh := hroom'.high
  rw [hwrote.cur, hwrote.ptr, hwrote.len] at hhigh
  refine ⟨bs ++ cs, ⟨hroom.low, ?_⟩, hwrote.trans hwrote' hroom.low⟩
  rw [List.length_append]
  omega

theorem Wrote.refuses {ns : List ℕ} (h : Wrote w w₁ []) : w₁.Refuses ns ↔ w.Refuses ns := by
  rw [Refuses, Refuses, h.cur, h.ptr, h.len]
  rfl

theorem Grew.wrote_nil (h : Grew w w₁) (hcur : w₁.cur = w.cur) : Wrote w w₁ [] := by
  obtain ⟨bs, -, hwrote⟩ := h
  have hlen := hwrote.cur
  have hnil : bs = [] := List.length_eq_zero_iff.mp (by omega)
  rwa [hnil] at hwrote

theorem refuses_append {ns ms : List ℕ} :
    w.Refuses (ns ++ ms) ↔ w.Refuses ns ∧ w.Refuses ms := List.forall_mem_append

theorem ahead_refuses {n : ℕ} (h : w.Room 0) (hn : n < 2 ^ 32) :
    w.ptr + w.len < w.ahead n ↔ w.Refuses [n] := by
  have hhigh := h.high
  have hfits := w.fits
  rw [Refuses, Refused, List.forall_mem_singleton, ahead]
  -- A sum that wraps lands below the cursor.
  omega

theorem grew_poke {bs : Bytes} (h : w.Room 0) (hpoke : w.poke bs = some w₁) :
    Grew w w₁ ∧ w₁.cur = w.cur + bs.length := by
  rw [poke] at hpoke
  split at hpoke
  · rename_i hinside
    cases hpoke
    exact ⟨⟨bs, ⟨h.low, hinside.2⟩, wrote_pushed bs⟩, rfl⟩
  · cases hpoke

theorem grew_flush (h : w.Room 0) (hflush : w.flush = some w₁) : Grew w w₁ ∧ w₁.cur = w.cur := by
  rw [flush_eq h] at hflush
  cases hflush
  exact ⟨grew_flushed h, rfl⟩

end

/-! ### Operations put together from others -/

section
variable {f g : BinaryWriteStream → Option BinaryWriteStream} {ns ms : List ℕ}

theorem tested_some : Tested some [] := by
  refine ⟨?_, ?_, ?_⟩
  · intro w _ _
    exact ⟨w, rfl, wrote_refl w⟩
  · intro w w' h hw'
    cases hw'
    exact grew_refl h
  · intro _ _ _ _ _ n hn
    exact absurd hn List.not_mem_nil

theorem tested_flush : Tested flush [] := by
  refine ⟨?_, ?_, ?_⟩
  · intro w h _
    exact ⟨_, flush_eq h, wrote_flushed⟩
  · intro w w' h hw'
    exact (grew_flush h hw').1
  · intro _ _ _ _ _ n hn
    exact absurd hn List.not_mem_nil

theorem Tested.bind (hf : Tested f ns) (hg : Tested g ms) :
    Tested (fun w => (f w).bind g) (ns ++ ms) := by
  refine ⟨?_, ?_, ?_⟩
  · intro w h hrefuses
    rw [refuses_append] at hrefuses
    obtain ⟨w₁, hw₁, hwrote⟩ := hf.refused w h hrefuses.1
    have hgrew : Grew w w₁ := ⟨[], h, hwrote⟩
    obtain ⟨w₂, hw₂, hwrote'⟩ := hg.refused w₁ hgrew.room (hwrote.refuses.mpr hrefuses.2)
    refine ⟨w₂, ?_, hwrote.trans hwrote' h.low⟩
    rw [hw₁, Option.bind_some, hw₂]
  · intro w w₂ h hbind
    obtain ⟨w₁, hw₁, hw₂⟩ := Option.bind_eq_some_iff.mp hbind
    have hgrew := hf.grew w w₁ h hw₁
    exact hgrew.trans (hg.grew w₁ w₂ hgrew.room hw₂)
  · intro w w₂ h hbind hcur
    obtain ⟨w₁, hw₁, hw₂⟩ := Option.bind_eq_some_iff.mp hbind
    have hgrew := hf.grew w w₁ h hw₁
    have hle := (hg.grew w₁ w₂ hgrew.room hw₂).le
    have hcur₁ : w₁.cur = w.cur := le_antisymm (hle.trans hcur.le) hgrew.le
    have hlast := hg.still w₁ w₂ hgrew.room hw₂ (hcur.trans hcur₁.symm)
    rw [(hgrew.wrote_nil hcur₁).refuses] at hlast
    exact refuses_append.mpr ⟨hf.still w w₁ h hw₁ hcur₁, hlast⟩

theorem tested_guarded {n : ℕ} (hn : n < 2 ^ 32)
    (hf : ∀ w, f w = if w.ptr + w.len < w.ahead n then some w else g w)
    (hg : ∀ w w', w.Room 0 → g w = some w' → Grew w w' ∧ w.cur < w'.cur) : Tested f [n] := by
  refine ⟨?_, ?_, ?_⟩
  · intro w h hrefuses
    rw [hf, if_pos ((ahead_refuses h hn).mpr hrefuses)]
    exact ⟨w, rfl, wrote_refl w⟩
  · intro w w' h hw'
    rw [hf] at hw'
    split at hw'
    · cases hw'
      exact grew_refl h
    · exact (hg w w' h hw').1
  · intro w w' h hw' hcur
    rw [hf] at hw'
    split at hw'
    · rename_i hahead
      exact (ahead_refuses h hn).mp hahead
    · have hlt := (hg w w' h hw').2
      omega

end

/-! ### The operations as tests and binds -/

theorem writeScalar_snd (w : BinaryWriteStream) (bs : Bytes) : (w.writeScalar bs).map Prod.snd =
    if w.ptr + w.len < w.ahead bs.length then some w else w.poke bs := by
  rw [writeScalar]
  split
  · rfl
  · cases w.poke bs with
    | none => rfl
    | some w' => rfl

theorem insertLongLong_bind (w : BinaryWriteStream) (i : BitVec 64) : w.insertLongLong i =
    ((w.writeInt (highHalf i)).map Prod.snd).bind fun w =>
      ((w.writeInt (lowHalf i)).map Prod.snd).bind flush := by
  simp only [insertLongLong, Option.bind_eq_bind, Option.bind_map, Function.comp_def]

theorem insertVector_bind {α : Type} (elem : α → BinaryWriteStream → Option BinaryWriteStream)
    (xs : List α) : insertVector elem xs = fun w =>
      ((w.writeShort (BitVec.ofNat 16 xs.length)).map Prod.snd).bind fun w =>
        (insertMany elem xs w).bind flush := by
  funext w
  simp only [insertVector, Option.bind_eq_bind, Option.bind_map, Function.comp_def]

section
variable {str : Bytes}

theorem toInt_ofNat_short {n : ℕ} (h : n ≤ 32767) : (BitVec.ofNat 16 n).toInt = n := by
  have hnat := ofNat_toNat_of_short h
  rw [BitVec.toInt_eq_toNat_of_lt (by omega), hnat]

theorem refusesString_of_short (w : BinaryWriteStream) (h : str.length ≤ 32767) :
    w.refusesString str = true ↔ w.ptr + w.len < w.ahead ((str.length + 2 : ℕ) : ℤ) := by
  rw [refusesString, toInt_ofNat_short h, decide_eq_true_iff]
  rfl

theorem copyString_of_short (w : BinaryWriteStream) (h : str.length ≤ 32767) :
    w.copyString str = (w.writeLength (BitVec.ofNat 16 str.length)).bind fun w => w.poke str := by
  have hnneg : ¬(BitVec.ofNat 16 str.length).toInt < 0 := by
    rw [toInt_ofNat_short h]
    omega
  simp only [copyString, if_neg hnneg, ofNat_toNat_of_short h, List.take_length]
  rfl

theorem insertString_of_short (w : BinaryWriteStream) (h : str.length ≤ 32767) :
    w.insertString str = if w.ptr + w.len < w.ahead ((str.length + 2 : ℕ) : ℤ) then some w
      else (w.copyString str).bind flush := by
  rw [insertString, if_congr (refusesString_of_short w h) rfl rfl]

end

/-! ### The operators -/

theorem grew_poke_flush {w w' : BinaryWriteStream} {bs : Bytes} (h : w.Room 0)
    (hw' : (w.poke bs).bind flush = some w') : Grew w w' ∧ w'.cur = w.cur + bs.length := by
  obtain ⟨w₁, hw₁, hflush⟩ := Option.bind_eq_some_iff.mp hw'
  obtain ⟨hgrew, hcur⟩ := grew_poke h hw₁
  obtain ⟨hgrew', hcur'⟩ := grew_flush hgrew.room hflush
  exact ⟨hgrew.trans hgrew', hcur'.trans hcur⟩

section
variable {bs : Bytes} {n : ℕ}

theorem tested_insertScalar (hbs : bs.length = n) (hpos : 0 < n) (hlt : n < 2 ^ 32) :
    Tested (fun w => w.insertScalar bs) [n] := by
  rw [← hbs] at hpos hlt ⊢
  apply tested_guarded hlt (fun _ => rfl)
  intro w w' h hw'
  obtain ⟨hgrew, hcur⟩ := grew_poke_flush h hw'
  exact ⟨hgrew, by omega⟩

theorem tested_writeScalar (hbs : bs.length = n) (hpos : 0 < n) (hlt : n < 2 ^ 32) :
    Tested (fun w => (w.writeScalar bs).map Prod.snd) [n] := by
  rw [← hbs] at hpos hlt ⊢
  apply tested_guarded hlt fun w => writeScalar_snd w bs
  intro w w' h hw'
  obtain ⟨hgrew, hcur⟩ := grew_poke h hw'
  exact ⟨hgrew, by omega⟩

end

theorem tested_insertInt (i : BitVec 32) : Tested (fun w => w.insertInt i) [4] :=
  tested_insertScalar (intBytes_length i) (by decide) (by decide)

theorem tested_insertShort (i : BitVec 16) : Tested (fun w => w.insertShort i) [2] :=
  tested_insertScalar (shortBytes_length i) (by decide) (by decide)

theorem tested_writeInt (i : BitVec 32) : Tested (fun w => (w.writeInt i).map Prod.snd) [4] :=
  tested_writeScalar (intBytes_length i) (by decide) (by decide)

theorem tested_writeShort (i : BitVec 16) : Tested (fun w => (w.writeShort i).map Prod.snd) [2] :=
  tested_writeScalar (shortBytes_length i) (by decide) (by decide)

theorem tested_insertLongLong (i : BitVec 64) : Tested (fun w => w.insertLongLong i) [4, 4] := by
  have h := (tested_writeInt (highHalf i)).bind ((tested_writeInt (lowHalf i)).bind tested_flush)
  rw [funext fun w => insertLongLong_bind w i]
  exact h

theorem tested_insertString (s : Bytes) (hs : s.length ≤ 32767) :
    Tested (fun w => w.insertString s) [s.length + 2] := by
  apply tested_guarded (by omega) fun w => insertString_of_short w hs
  intro w w' h hw'
  obtain ⟨w₂, hcopy, hflush⟩ := Option.bind_eq_some_iff.mp hw'
  rw [copyString_of_short w hs] at hcopy
  obtain ⟨w₁, hcount, hcontent⟩ := Option.bind_eq_some_iff.mp hcopy
  obtain ⟨hgrew₁, hcur₁⟩ := grew_poke h hcount
  obtain ⟨hgrew₂, hcur₂⟩ := grew_poke hgrew₁.room hcontent
  obtain ⟨hgrew, hcur⟩ := grew_flush hgrew₂.room hflush
  rw [shortBytes_length] at hcur₁
  exact ⟨(hgrew₁.trans hgrew₂).trans hgrew, by omega⟩

theorem tested_insertMany {α : Type} {elem : α → BinaryWriteStream → Option BinaryWriteStream}
    {tests : α → List ℕ} (xs : List α) (helem : ∀ x ∈ xs, Tested (elem x) (tests x)) :
    Tested (insertMany elem xs) (xs.flatMap tests) := by
  induction xs with
  | nil => exact tested_some
  | cons x xs ih =>
    rw [List.forall_mem_cons] at helem
    rw [List.flatMap_cons]
    exact helem.1.bind (ih helem.2)

theorem tested_insertVector {α : Type} {elem : α → BinaryWriteStream → Option BinaryWriteStream}
    {tests : α → List ℕ} (xs : List α) (helem : ∀ x ∈ xs, Tested (elem x) (tests x)) :
    Tested (insertVector elem xs) (2 :: xs.flatMap tests) := by
  have h := (tested_writeShort (BitVec.ofNat 16 xs.length)).bind
    ((tested_insertMany xs helem).bind tested_flush)
  rw [List.append_nil] at h
  rw [insertVector_bind]
  exact h

end BinaryWriteStream

open BinaryWriteStream

mutual
theorem tested_insert : (t : Ty) → (v : t.Val) → t.ShortStrings v → Tested (t.insert v) (t.tests v)
  | .int, i, _ => tested_insertInt i
  | .short, i, _ => tested_insertShort i
  | .char, c, _ => tested_insertScalar (List.length_singleton (a := c)) (by decide) (by decide)
  | .float, f, _ => tested_insertInt f
  | .longlong, i, _ => tested_insertLongLong i
  | .string, s, h => tested_insertString s h
  | .vector t, xs, h => tested_insertVector xs fun x hx => tested_insert t x (h x hx)
  | .struct fs, vs, h => tested_pack fs vs h
  | .msg id fs, vs, h => (tested_insertInt id).bind (tested_pack fs vs h)

theorem tested_pack : (fs : Fields) → (vs : fs.Vals) → fs.ShortStrings vs →
    Tested (fs.pack vs) (fs.tests vs)
  | .nil, _, _ => tested_some
  | .cons t fs, (v, vs), h => (tested_insert t v h.1).bind (tested_pack fs vs h.2)
end

/-! ### What is left in the stream -/

namespace BinaryWriteStream
variable {w w₁ w₂ : BinaryWriteStream} {bs : Bytes}

def since (w : BinaryWriteStream) (c : ℕ) : Bytes := load w.mem c (w.cur - c)

def payload (w : BinaryWriteStream) : Bytes := w.since (w.ptr + 4)

theorem Wrote.since_eq (h : Wrote w w₁ bs) : w₁.since w.cur = bs := by
  rw [since, h.cur, Nat.add_sub_cancel_left, h.written]

theorem Wrote.since_grew (h : Wrote w w₁ bs) (hlow : w.ptr + 4 ≤ w.cur) (h' : Grew w₁ w₂) :
    w₂.since w.cur = bs ++ w₂.since w₁.cur := by
  obtain ⟨cs, -, hwrote⟩ := h'
  rw [(h.trans hwrote hlow).since_eq, hwrote.since_eq]

end BinaryWriteStream

section
variable {w w' : BinaryWriteStream}

theorem isRun_iff_refused (t : Ty) (fs : Fields) (v : t.Val) (vs : fs.Vals)
    (h : (Fields.cons t fs).ShortStrings (v, vs)) (hroom : w.Room 0)
    (hfull : w.ptr + w.len < w.cur + (t.encode v).length) :
    (∃ w', (Fields.cons t fs).pack (v, vs) w = some w' ∧
        (Fields.cons t fs).IsRun (v, vs) (w'.since w.cur)) ↔
      w.Refuses ((Fields.cons t fs).tests (v, vs)) := by
  have htests := tested_pack (.cons t fs) (v, vs) h
  constructor
  · intro hleft
    obtain ⟨w', hw', hrun⟩ := hleft
    obtain ⟨bs, hbs, hwrote⟩ := htests.grew w w' hroom hw'
    have hhigh := hbs.high
    rw [hwrote.since_eq] at hrun
    have hnil := isRun_short hrun (by omega)
    have hcur := hwrote.cur
    rw [hnil, List.length_nil, Nat.add_zero] at hcur
    exact htests.still w w' hroom hw' hcur
  · intro hrefuses
    obtain ⟨w', hw', hwrote⟩ := htests.refused w hroom hrefuses
    refine ⟨w', hw', ?_⟩
    rw [hwrote.since_eq]
    exact isRun_nil _ _

theorem pack_isRun_iff (fs : Fields) (vs : fs.Vals) (h : fs.ShortStrings vs) (hroom : w.Room 0) :
    (∃ w', fs.pack vs w = some w' ∧ fs.IsRun vs (w'.since w.cur)) ↔
      fs.Fitting vs w.cur (w.ptr + w.len) := by
  induction fs using Fields.tailInduction generalizing w with
  | nil =>
    have hrun : ∃ w', Fields.nil.pack vs w = some w' ∧ Fields.nil.IsRun vs (w'.since w.cur) := by
      refine ⟨w, rfl, ?_⟩
      rw [(wrote_refl w).since_eq]
      exact isRun_nil _ _
    exact iff_of_true hrun trivial
  | cons t fs ih =>
    obtain ⟨v, vs⟩ := vs
    rw [Fields.Fitting]
    split
    · rename_i hfit
      obtain ⟨w₁, hw₁, happ⟩ :=
        appended_insert t v (packable_of_short t v h.1) w ⟨hroom.low, hfit⟩
      have hroom₁ : w₁.Room 0 := happ.room ⟨hroom.low, hfit⟩
      have ih₁ := ih vs h.2 hroom₁
      rw [happ.ptr, happ.len, happ.cur] at ih₁
      rw [← ih₁, Fields.pack, hw₁, Option.bind_some]
      apply exists_congr
      intro w₂
      apply and_congr_right
      intro hw₂
      have hgrew := (tested_pack fs vs h.2).grew w₁ w₂ hroom₁ hw₂
      rw [happ.since_grew hroom.low hgrew, isRun_append, happ.cur]
    · rename_i hfull
      exact isRun_iff_refused t fs v vs h hroom (Nat.not_le.mp hfull)

theorem clear_room (h : 4 ≤ w.len) : w.clear.Room 0 := by
  have hcur := clear_cur h
  have hptr : w.clear.ptr = w.ptr := rfl
  have hlen : w.clear.len = w.len := rfl
  constructor
  · omega
  · omega

theorem payload_eq (fs : Fields) (vs : fs.Vals) (h : fs.ShortStrings vs) (hlen : 4 ≤ w.len)
    (hw' : fs.pack vs w.clear = some w') : w'.payload = w'.since w.clear.cur := by
  obtain ⟨bs, -, hwrote⟩ := (tested_pack fs vs h).grew _ w' (clear_room hlen) hw'
  rw [payload, hwrote.ptr, clear_cur hlen]
  rfl

end

/-- A chain of `operator<<` leaves an initial run of its fields exactly when nothing is
written from the first field without room on. -/
theorem payload_isRun_iff (fs : Fields) (vs : fs.Vals) (w : BinaryWriteStream)
    (h : fs.ShortStrings vs) (hlen : 4 ≤ w.len) :
    (∃ w', fs.pack vs w.clear = some w' ∧ fs.IsRun vs w'.payload) ↔
      fs.Fitting vs (w.ptr + 4) (w.ptr + w.len) := by
  have hiff := pack_isRun_iff fs vs h (clear_room hlen)
  rw [clear_cur hlen] at hiff
  refine Iff.trans ?_ hiff
  apply exists_congr
  intro w'
  apply and_congr_right
  intro hw'
  rw [payload_eq fs vs h hlen hw', clear_cur hlen]

/-- `RequestLoginRet` (`MessageBuf.hpp:27-30`), its `msgID` in front. -/
def requestLoginRet : Fields := .cons .int (.cons .string (.cons .string (.cons .int .nil)))

def loginRet : requestLoginRet.Vals :=
  ((1 : BitVec 32), ([97] : Bytes), List.replicate 10 (103 : Byte), (0x00024142 : BitVec 32), ())

def twentyBytes : BinaryWriteStream := BinaryWriteStream.mk 4096 20 4096 (fun _ => 0) (by decide)

theorem payload_isRun_loginRet :
    ∃ w', requestLoginRet.pack loginRet
        (BinaryWriteStream.mk 4096 40 4096 (fun _ => 0) (by decide)).clear = some w' ∧
      requestLoginRet.IsRun loginRet w'.payload :=
  (payload_isRun_iff requestLoginRet loginRet (BinaryWriteStream.mk 4096 40 4096 (fun _ => 0) (by decide))
    ⟨trivial, show 1 ≤ 32767 by decide, show 10 ≤ 32767 by decide, trivial, trivial⟩
    (by decide)).mpr trivial

/-- The GUID does not fit and the flag does, so the client takes the bytes of the flag
for a GUID "AB". -/
theorem flag_read_as_guid :
    ∃ w', requestLoginRet.pack loginRet twentyBytes.clear = some w' ∧
      ¬requestLoginRet.IsRun loginRet w'.payload ∧
      (requestLoginRet.unPack ((1 : BitVec 32), ([] : Bytes), ([] : Bytes), (0 : BitVec 32), ())
          (w'.reader fun _ => 0)).1 =
        ((1 : BitVec 32), ([97] : Bytes), ([65, 66] : Bytes), (0 : BitVec 32), ()) := by
  refine ⟨_, rfl, ?_, rfl⟩
  intro hrun
  have hshort : requestLoginRet.ShortStrings loginRet :=
    ⟨trivial, show 1 ≤ 32767 by decide, show 10 ≤ 32767 by decide, trivial, trivial⟩
  have hlen : 4 ≤ twentyBytes.len := by decide
  rw [payload_eq requestLoginRet loginRet hshort hlen rfl] at hrun
  have hfitting := (pack_isRun_iff requestLoginRet loginRet hshort (clear_room hlen)).mp
    ⟨_, rfl, hrun⟩
  -- With nine bytes left, the test of the flag passes.
  have hrefused : Refused [12, 4] 4107 4116 := hfitting
  exact absurd (hrefused 4 (by decide)).1 (by decide)

end GameRes.NetPack
