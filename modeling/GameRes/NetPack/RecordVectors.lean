import GameRes.NetPack.LostValues

/-!
# Vectors of records (netPack/commDef.hpp:219-323, 431-466, 879-898)

`WriteVector` and `ReadVector` do with `Pack` and `UnPack` what the operators do
with themselves. The `Pack` of a message writes its `msgID` and the `UnPack`
does not read it.
-/

namespace GameRes.NetPack
open Library

/-- `WriteVector` (`commDef.hpp:432-451`). -/
def writeVector {α : Type} (pack : α → BinaryWriteStream → Option BinaryWriteStream)
    (usn : BinaryWriteStream) (val : List α) : Option (Bool × BinaryWriteStream) := do
  let result ← usn.writeShort (BitVec.ofNat 16 val.length)
  if result.1 = false then some result
  else do
    let usn ← BinaryWriteStream.insertMany pack val result.2
    some (true, usn)

/-- `ReadVector` (`commDef.hpp:453-466`); `initial` is `T temp;`. -/
def readVector {α : Type} (initial : BinaryReadStream → α × BinaryReadStream)
    (unPack : α → BinaryReadStream → α × BinaryReadStream) (sn : BinaryReadStream) :
    List α × BinaryReadStream :=
  let junk := sn.uninit
  let r := junk.2.readShort
  let vallen := r.1.getD (junk.1.setWidth 16)
  let temp := initial r.2
  BinaryReadStream.extractMany unPack vallen.toInt.toNat temp.1 temp.2

open BinaryWriteStream BinaryReadStream

def Ty.RecordCarried : (t : Ty) → t.Val → Prop
  | .struct fs, vs => fs.Carried vs
  | .msg _ fs, vs => fs.Carried vs
  | _, _ => False

def Ty.IsStruct : Ty → Prop
  | .struct _ => True
  | _ => False

/-- Either reader gives `v` and stops at `fin`. -/
structure VectorReadsBack (R : Ty) (v : List R.Val) (s : BinaryReadStream) (fin : ℕ) : Prop where
  read : (readVector R.initial R.extract s).1 = v
  readEnd : (readVector R.initial R.extract s).2.cur = fin
  extract : (extractVector R.initial R.extract s).1 = v
  extractEnd : (extractVector R.initial R.extract s).2.cur = fin

/-- Either writer writes `v`, and either reader reads it back up to the writer's cursor. -/
structure VectorRoundTrips (R : Ty) (v : List R.Val) (w : BinaryWriteStream)
    (junk : ℕ → BitVec 64) : Prop where
  written : ∃ w', writeVector R.insert w v = some (true, w') ∧
    VectorReadsBack R v (w'.readerAt w.cur junk) (w'.cur - w'.ptr)
  inserted : ∃ w', insertVector R.insert v w = some w' ∧
    VectorReadsBack R v (w'.readerAt w.cur junk) (w'.cur - w'.ptr)

/-! ### Either writer writes the same -/

section
variable {R : Ty} {v : List R.Val} {w : BinaryWriteStream}

theorem packable_of_record (R : Ty) (x : R.Val) (h : R.RecordCarried x) : R.Packable x := by
  cases R with
  | struct fs => exact (fields_carried_survive fs x h).1
  | msg id fs => exact (fields_carried_survive fs x h).1
  | _ => exact absurd h id

theorem appended_writeVector (hv : ∀ x ∈ v, R.Packable x)
    (h : w.Room ((Ty.vector R).encode v).length) :
    ∃ w', writeVector R.insert w v = some (true, w') ∧ Wrote w w' ((Ty.vector R).encode v) := by
  have hencode : (Ty.vector R).encode v =
      beShort (BitVec.ofNat 16 v.length) ++ v.flatMap R.encode := rfl
  rw [hencode, List.length_append] at h
  have hcount := writeScalar_eq (h.mono (Nat.le_add_right _ _))
  obtain ⟨w', hmany, hwrote⟩ := appended_insertMany v _
    (fun x hx w => appended_insert R x (hv x hx) w) ((wrote_pushed _).room h)
  refine ⟨w', ?_, (wrote_pushed _).trans hwrote h.low⟩
  simp only [writeVector, writeShort, shortBytes_eq, hcount, hmany, Option.bind_eq_bind,
    Option.bind_some, Bool.true_eq_false, if_false]

end

/-! ### Either reader reads the same -/

section
variable {α : Type} {initial : BinaryReadStream → α × BinaryReadStream}
  {elem : α → BinaryReadStream → α × BinaryReadStream} {s : BinaryReadStream}

theorem readVector_counted {n : BitVec 16} (hn : n.toNat ≤ 1000) (h : s.Before (beShort n)) :
    readVector initial elem s = extractVector initial elem s := by
  have hcount : s.uninit.2.readShort = (some n, s.uninit.2.moved 2 s.uninit.2.junk) :=
    readShort_before ⟨h.inside, h.bytes⟩
  have hint : n.toInt.toNat = n.toNat := by
    rw [BitVec.toInt_eq_toNat_of_lt (by omega), Int.toNat_natCast]
  rw [extractVector_counted hn h]
  simp only [readVector, hcount, Option.getD_some, hint]
  rfl

end

def Returned (R : Ty) (v : List R.Val) (s : BinaryReadStream) : Prop :=
  (extractVector R.initial R.extract s).1 = v ∧
    (extractVector R.initial R.extract s).2.cur = s.cur + ((Ty.vector R).encode v).length

section
variable {R : Ty} {v : List R.Val} {w w' : BinaryWriteStream} {junk : ℕ → BitVec 64}

theorem readsBack_iff (hlen : v.length ≤ 1000) (h : w.Room ((Ty.vector R).encode v).length)
    (hwrote : Wrote w w' ((Ty.vector R).encode v)) :
    VectorReadsBack R v (w'.readerAt w.cur junk) (w'.cur - w'.ptr) ↔
      Returned R v (w'.readerAt w.cur junk) := by
  have hbefore := before_readerAt junk h hwrote
  have hcount : (w'.readerAt w.cur junk).Before (beShort (BitVec.ofNat 16 v.length)) :=
    hbefore.left
  have hsame : readVector R.initial R.extract (w'.readerAt w.cur junk) =
      extractVector R.initial R.extract (w'.readerAt w.cur junk) :=
    readVector_counted (by rw [(shortLength_of_le hlen).2]; exact hlen) hcount
  have hfin : w'.cur - w'.ptr =
      (w'.readerAt w.cur junk).cur + ((Ty.vector R).encode v).length := by
    have hlow := h.low
    change w'.cur - w'.ptr = w.cur - w'.ptr + _
    rw [hwrote.cur, hwrote.ptr]
    omega
  rw [hfin]
  constructor
  · intro hall
    exact ⟨hall.extract, hall.extractEnd⟩
  · intro hall
    exact ⟨by rw [hsame]; exact hall.1, by rw [hsame]; exact hall.2, hall.1, hall.2⟩

/-- The four combinations differ in the header of the packet at most. -/
theorem roundTrips_of_returned (hv : ∀ x ∈ v, R.Packable x) (hlen : v.length ≤ 1000)
    (h : w.Room ((Ty.vector R).encode v).length)
    (hall : ∀ s : BinaryReadStream, s.Before ((Ty.vector R).encode v) → Returned R v s) :
    VectorRoundTrips R v w junk := by
  obtain ⟨w₁, hwritten, hwrote₁⟩ := appended_writeVector hv h
  obtain ⟨w₂, hinserted, happ₂⟩ := appended_insert (.vector R) v hv w h
  constructor
  · exact ⟨w₁, hwritten, (readsBack_iff hlen h hwrote₁).mpr
      (hall _ (before_readerAt junk h hwrote₁))⟩
  · exact ⟨w₂, hinserted, (readsBack_iff hlen h happ₂.toWrote).mpr
      (hall _ (before_readerAt junk h happ₂.toWrote))⟩

theorem returned_of_roundTrips (hv : ∀ x ∈ v, R.Packable x) (hlen : v.length ≤ 1000)
    (h : w.Room ((Ty.vector R).encode v).length) (hall : VectorRoundTrips R v w junk) :
    ∃ s : BinaryReadStream, s.Before ((Ty.vector R).encode v) ∧ Returned R v s := by
  obtain ⟨w', hinserted, hback⟩ := hall.inserted
  obtain ⟨w₂, hinserted₂, happ⟩ := appended_insert (.vector R) v hv w h
  have hsame : w' = w₂ := Option.some.inj (hinserted.symm.trans hinserted₂)
  subst hsame
  exact ⟨_, before_readerAt junk h happ.toWrote, (readsBack_iff hlen h happ.toWrote).mp hback⟩

end

/-! ### Records that come back -/

theorem returned_struct (fs : Fields) (v : List (Ty.struct fs).Val)
    (hv : ∀ x ∈ v, (Ty.struct fs).RecordCarried x) (hlen : v.length ≤ 1000) (s : BinaryReadStream)
    (h : s.Before ((Ty.vector (.struct fs)).encode v)) : Returned (.struct fs) v s := by
  have hdecode : (Ty.vector (.struct fs)).Decodable v :=
    ⟨hlen, fun x hx => (fields_carried_survive fs x (hv x hx)).2⟩
  obtain ⟨j, hread⟩ := extract_before (.vector (.struct fs)) v hdecode [] s h
  have hvector : extractVector (Ty.struct fs).initial (Ty.struct fs).extract s =
      (v, s.moved ((Ty.vector (.struct fs)).encode v).length j) := hread
  rw [Returned, hvector]
  exact ⟨rfl, rfl⟩

theorem returned_nil (R : Ty) (s : BinaryReadStream) (h : s.Before ((Ty.vector R).encode [])) :
    Returned R [] s := by
  have hcount : s.Before (beShort 0) := Before.left h
  obtain ⟨j, hj⟩ := initial_moved R (counted s)
  rw [Returned, extractVector_counted (by decide) hcount]
  refine ⟨rfl, ?_⟩
  change (R.initial (counted s)).2.cur = _
  rw [hj]
  rfl

/-! ### Messages -/

section
variable {α : Type} {initial : BinaryReadStream → α × BinaryReadStream}
  {elem : α → BinaryReadStream → α × BinaryReadStream} {encode : α → Bytes}

theorem extractMany_cur_le (helem : ∀ temp s, (elem temp s).2.cur ≤
      s.cur + (encode (elem temp s).1).length) (n : ℕ) (temp : α) (s : BinaryReadStream) :
    (extractMany elem n temp s).2.cur ≤
      s.cur + ((extractMany elem n temp s).1.flatMap encode).length := by
  induction n generalizing temp s with
  | zero => exact Nat.le_add_right _ _
  | succ n ih =>
    have hfirst := helem temp s
    have hrest := ih (elem temp s).1 (elem temp s).2
    simp only [extractMany, List.flatMap_cons, List.length_append]
    omega

theorem extractVector_cur_le (helem : ∀ temp s, (elem temp s).2.cur ≤
      s.cur + (encode (elem temp s).1).length)
    (hinitial : ∀ s : BinaryReadStream, (initial s).2.cur = s.cur) (s : BinaryReadStream) :
    (extractVector initial elem s).2.cur ≤
      s.cur + 2 + ((extractVector initial elem s).1.flatMap encode).length := by
  have hcount : s.uninit.2.readShort.2.cur ≤ s.cur + 2 := by
    simp only [readShort, scalar]
    split
    · exact Nat.le_add_right _ _
    · exact le_rfl
  simp only [extractVector]
  generalize s.uninit.2.readShort.1.getD (s.uninit.1.setWidth 16) = vallen
  split
  · exact hcount.trans (Nat.le_add_right _ _)
  · have hmany := extractMany_cur_le helem vallen.toNat (initial s.uninit.2.readShort.2).1
      (initial s.uninit.2.readShort.2).2
    rw [hinitial] at hmany
    exact hmany.trans (Nat.add_le_add_right hcount _)

end

theorem scalar_cur_le (s : BinaryReadStream) (n : ℕ) : (s.scalar n).2.cur ≤ s.cur + n := by
  rw [scalar]
  split
  · exact Nat.le_add_right _ _
  · exact le_rfl

theorem extractString_cur_le (prev : Bytes) (s : BinaryReadStream) :
    (extractString prev s).2.cur ≤
      s.cur + (encodeString (extractString prev s).1).length := by
  rw [encodeString_length]
  by_cases h : s.len < s.cur + 2
  · rw [extractString_of_lt prev h]
    exact Nat.le_add_right _ _
  · have hlt : declared s < 2 ^ 16 := (shortOfBytes _).isLt
    simp only [extractString, lengthField_of_le (Nat.le_of_not_lt h), fetch, load_length,
      BitVec.toNat_ofNat]
    omega

theorem extract_cur_le (t : Ty) (v : t.Val) (hv : t.Carried v) (prev : t.Val)
    (s : BinaryReadStream) :
    (t.extract prev s).2.cur ≤ s.cur + (t.encode (t.extract prev s).1).length := by
  cases t with
  | int => exact (scalar_cur_le s 4).trans_eq (congrArg _ (beInt_length _).symm)
  | short => exact (scalar_cur_le s 2).trans_eq (congrArg _ (beShort_length _).symm)
  | char => exact scalar_cur_le s 1
  | float => exact (scalar_cur_le s 4).trans_eq (congrArg _ (beInt_length _).symm)
  | longlong => exact absurd hv id
  | string => exact extractString_cur_le prev s
  | vector t =>
    cases t with
    | int =>
      have hint : ∀ (temp : BitVec 32) (s : BinaryReadStream), (extractInt temp s).2.cur ≤
          s.cur + (beInt (extractInt temp s).1).length := fun temp s =>
        (scalar_cur_le s 4).trans_eq (congrArg _ (beInt_length _).symm)
      have hvector : (extractInts s).2.cur ≤
          s.cur + 2 + ((extractInts s).1.flatMap beInt).length :=
        extractVector_cur_le hint (fun _ => rfl) s
      have hencode := encodeInts_length (extractInts s).1
      have hints := ints_length (extractInts s).1
      change (extractInts s).2.cur ≤ s.cur + (encodeInts (extractInts s).1).length
      omega
    | _ => exact absurd hv id
  | struct fs => exact absurd hv id
  | msg id fs => exact absurd hv fun h => h

theorem unPack_cur_le (fs : Fields) (vs : fs.Vals) (hvs : fs.Carried vs) (prevs : fs.Vals)
    (s : BinaryReadStream) :
    (fs.unPack prevs s).2.cur ≤ s.cur + (fs.encode (fs.unPack prevs s).1).length := by
  induction fs using Fields.tailInduction generalizing s with
  | nil => exact Nat.le_add_right _ _
  | cons t fs ih =>
    have hfirst := extract_cur_le t vs.1 hvs.1 prevs.1 s
    have hrest := ih vs.2 hvs.2 prevs.2 (t.extract prevs.1 s).2
    change (fs.unPack prevs.2 (t.extract prevs.1 s).2).2.cur ≤ s.cur +
      (t.encode (t.extract prevs.1 s).1 ++
        fs.encode (fs.unPack prevs.2 (t.extract prevs.1 s).2).1).length
    rw [List.length_append]
    omega

theorem flatMap_append_length {α : Type} (bs : Bytes) (encode : α → Bytes) (xs : List α) :
    (xs.flatMap fun x => bs ++ encode x).length =
      bs.length * xs.length + (xs.flatMap encode).length := by
  induction xs with
  | nil => rfl
  | cons x xs ih =>
    rw [List.flatMap_cons, List.flatMap_cons, List.length_append, List.length_append,
      List.length_append, ih, List.length_cons, Nat.mul_succ]
    omega

theorem not_returned_msg (id : BitVec 32) (fs : Fields) (x : fs.Vals) (v : List fs.Vals)
    (hx : fs.Carried x) (s : BinaryReadStream) : ¬Returned (.msg id fs) (x :: v) s := by
  intro h
  have hinitial : ∀ s : BinaryReadStream, ((Ty.msg id fs).initial s).2.cur = s.cur := by
    intro s
    obtain ⟨j, hj⟩ := initial_moved (.msg id fs) s
    rw [hj]
    rfl
  have hle : (extractVector (Ty.msg id fs).initial (Ty.msg id fs).extract s).2.cur ≤
      s.cur + 2 + ((extractVector (Ty.msg id fs).initial (Ty.msg id fs).extract s).1.flatMap
        fs.encode).length :=
    extractVector_cur_le (fun temp s => unPack_cur_le fs x hx temp s) hinitial s
  have hlen : ((Ty.vector (.msg id fs)).encode (x :: v)).length =
      2 + (4 * (v.length + 1) + ((x :: v).flatMap fs.encode).length) := by
    have hids := flatMap_append_length (beInt id) fs.encode (x :: v)
    rw [beInt_length, List.length_cons] at hids
    rw [← hids]
    change (beShort _ ++ (x :: v).flatMap (Ty.msg id fs).encode).length = _
    rw [List.length_append, beShort_length]
    rfl
  rw [h.2, h.1] at hle
  -- The readers stop short of the end by the ids, which no `UnPack` reads.
  have hshort : s.cur + ((Ty.vector (.msg id fs)).encode (x :: v)).length ≤
      s.cur + 2 + ((x :: v).flatMap fs.encode).length := hle
  omega

/-- Vectors of records come back through either interface exactly when their
elements are no messages. -/
theorem records_roundTrip_iff (R : Ty) (v : List R.Val) (w : BinaryWriteStream)
    (junk : ℕ → BitVec 64) (hv : ∀ x ∈ v, R.RecordCarried x) (hlen : v.length ≤ 1000)
    (h : w.Room ((Ty.vector R).encode v).length) :
    VectorRoundTrips R v w junk ↔ R.IsStruct ∨ v = [] := by
  have hpack : ∀ x ∈ v, R.Packable x := fun x hx => packable_of_record R x (hv x hx)
  constructor
  · intro hall
    obtain ⟨s, -, hreturned⟩ := returned_of_roundTrips hpack hlen h hall
    cases v with
    | nil => exact Or.inr rfl
    | cons x v =>
      have hx := hv x List.mem_cons_self
      cases R with
      | struct fs => exact Or.inl trivial
      | msg id fs => exact absurd hreturned (not_returned_msg id fs x v hx s)
      | _ => exact absurd hx fun h => h
  · intro hcond
    rcases hcond with hstruct | hnil
    · cases R with
      | struct fs => exact roundTrips_of_returned hpack hlen h (returned_struct fs v hv hlen)
      | _ => exact absurd hstruct fun h => h
    · subst hnil
      exact roundTrips_of_returned hpack hlen h (returned_nil R)

theorem records_roundTrip_pairs :
    VectorRoundTrips (.struct (.cons .int (.cons .string .nil)))
      [((7 : BitVec 32), ([65] : Bytes), ())] ⟨4096, 64, 4100, fun _ => 0, by decide⟩ (fun _ => 0) :=
  (records_roundTrip_iff (.struct (.cons .int (.cons .string .nil))) _ _ _
    (List.forall_mem_singleton.mpr ⟨trivial, Nat.le_of_ble_eq_true rfl, trivial⟩)
    (Nat.le_of_ble_eq_true rfl) ⟨by decide, by decide⟩).mpr (Or.inl trivial)

theorem records_ids_left :
    ¬VectorRoundTrips (.msg 1 (.cons .int .nil)) [((7 : BitVec 32), ())]
      ⟨4096, 64, 4100, fun _ => 0, by decide⟩ fun _ => 0 := by
  intro hall
  have hcarried : (Fields.cons .int .nil).Carried ((7 : BitVec 32), ()) := ⟨trivial, trivial⟩
  obtain ⟨s, -, hreturned⟩ := returned_of_roundTrips
    (List.forall_mem_singleton.mpr (packable_of_record (.msg 1 (.cons .int .nil)) _ hcarried))
    (Nat.le_of_ble_eq_true rfl) ⟨by decide, by decide⟩ hall
  exact not_returned_msg 1 (.cons .int .nil) _ [] hcarried s hreturned

end GameRes.NetPack
