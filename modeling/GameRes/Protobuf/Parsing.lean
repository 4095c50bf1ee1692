import GameRes.Protobuf.Message

/-!
# Parsing field by field (protobuf/NetMessage.pb.cc, google/protobuf/message_lite.cc:107-200)

Without its fast paths the generated parser reads one field after the other and
applies each to the message so far. From this follows what a message followed by
another one parses to.
-/

namespace GameRes.Protobuf
open Library

/-! ### One field -/

theorem FieldType.read_local (t : FieldType) : t.read.Local := by
  cases t with
  | string => exact readLengthDelimited_local
  | uint32 => exact readVarint32_local
  | int32 => exact readVarint32_local
  | bool => exact readVarint64_local.map fun value => decide (value ≠ 0)
  | float => exact readLittleEndian32_local

theorem select_local {fs : List FieldDescriptor} {tag : BitVec 32}
    {s : Reader (Fields fs → Fields fs) × Option (BitVec 32)} (h : select fs tag = some s) :
    s.1.Local := by
  induction fs with
  | nil => cases h
  | cons f fs ih =>
    rw [select] at h
    split_ifs at h with htag
    · cases h
      dsimp only
      exact f.type.read_local.map _
    · obtain ⟨s', hs', rfl⟩ := Option.map_eq_some_iff.mp h
      dsimp only
      exact (ih hs').map _

theorem select_mem {fs : List FieldDescriptor} {tag : BitVec 32}
    {s : Reader (Fields fs → Fields fs) × Option (BitVec 32)} (h : select fs tag = some s) :
    ∃ f ∈ fs, tag = f.tag := by
  induction fs with
  | nil => cases h
  | cons f fs ih =>
    rw [select] at h
    split_ifs at h with htag
    · exact ⟨f, List.mem_cons_self, htag⟩
    · obtain ⟨s', hs', -⟩ := Option.map_eq_some_iff.mp h
      obtain ⟨g, hg, heq⟩ := ih hs'
      exact ⟨g, List.mem_cons_of_mem f hg, heq⟩

/-- A field that is set is set in what a message is merged with. -/
theorem select_merge {fs : List FieldDescriptor} {tag : BitVec 32}
    {s : Reader (Fields fs → Fields fs) × Option (BitVec 32)} (h : select fs tag = some s)
    {bs rest : Bytes} {set : Fields fs → Fields fs} (hread : s.1 bs = some (set, rest))
    (x y : Fields fs) : set (x.merge y) = x.merge (set y) := by
  induction fs generalizing bs rest with
  | nil => cases h
  | cons f fs ih =>
    rw [select] at h
    split_ifs at h with htag
    · cases h
      obtain ⟨v, -, heq⟩ := Option.map_eq_some_iff.mp hread
      cases heq
      cases x with
      | cons value x =>
        cases y with
        | cons value' y => rfl
    · obtain ⟨s', hs', rfl⟩ := Option.map_eq_some_iff.mp h
      obtain ⟨v, hv, heq⟩ := Option.map_eq_some_iff.mp hread
      cases heq
      cases x with
      | cons value x =>
        cases y with
        | cons value' y => exact congrArg (Fields.cons (value'.or value)) (ih hs' hv x y)

namespace Descriptor
variable {d : Descriptor} {f : FieldDescriptor}

theorem number_lt (hf : f ∈ d.fields) : f.number < 2 ^ 29 := by
  have hbound := (d.bounds f hf).2
  have htwo := d.two_bytes
  omega

theorem tag_le_cutoff (hf : f ∈ d.fields) : f.tag ≤ d.cutoff := by
  have hbound := (d.bounds f hf).2
  have hcode : f.type.wireType.code.toNat ≤ 7 := by cases f.type <;> decide
  rw [BitVec.le_def, FieldDescriptor.tag, makeTag_toNat (number_lt hf)]
  omega

theorem tag_ne_zero (hf : f ∈ d.fields) : f.tag ≠ 0 :=
  makeTag_ne_zero (number_lt hf) (Or.inl (Nat.ne_of_gt (d.bounds f hf).1))

theorem select_zero (d : Descriptor) : select d.fields 0 = none := by
  cases h : select d.fields 0 with
  | none => rfl
  | some s =>
    obtain ⟨f, hf, heq⟩ := select_mem h
    exact absurd heq.symm (tag_ne_zero hf)

/-- What a tag stands for, read without the fast paths. -/
def readTagged (d : Descriptor) (tag : BitVec 32) : Reader (Message d → Message d) :=
  match select d.fields tag with
  | some s => Reader.map (fun set m => { m with fields := set m.fields }) s.1
  | none =>
    if tag = 0 ∨ getTagWireType tag = some .endGroup then fun _ => none
    else
      Reader.map (fun field m => { m with unknown := m.unknown ++ [field] })
        (skipUnknown recursionLimit tag)

def readField (d : Descriptor) : Reader (Message d → Message d) :=
  Reader.bind (varintBits 32) d.readTagged

theorem readTagged_local (d : Descriptor) (tag : BitVec 32) : (d.readTagged tag).Local := by
  unfold readTagged
  split
  · next s hs => exact (select_local hs).map _
  · split_ifs with hend
    · intro bs a rest h
      cases h
    · exact (skipUnknown_local recursionLimit tag).map _

theorem readTagged_cases {tag : BitVec 32} {bs rest : Bytes} {set : Message d → Message d}
    (h : d.readTagged tag bs = some (set, rest)) :
    (∃ s y, select d.fields tag = some s ∧ s.1 bs = some (y, rest) ∧
      set = fun m => { m with fields := y m.fields }) ∨
    (select d.fields tag = none ∧ tag ≠ 0 ∧ ∃ field, skipUnknown recursionLimit tag bs =
      some (field, rest) ∧ set = fun m => { m with unknown := m.unknown ++ [field] }) := by
  rw [readTagged] at h
  cases hs : select d.fields tag with
  | some s =>
    rw [hs] at h
    obtain ⟨y, hy, heq⟩ := Option.map_eq_some_iff.mp h
    cases heq
    exact Or.inl ⟨s, y.1, rfl, hy, rfl⟩
  | none =>
    rw [hs] at h
    dsimp only at h
    split_ifs at h with hend
    obtain ⟨y, hy, heq⟩ := Option.map_eq_some_iff.mp h
    cases heq
    exact Or.inr ⟨rfl, fun h0 => hend (Or.inl h0), y.1, hy, rfl⟩

theorem readField_local (d : Descriptor) : d.readField.Local :=
  (varintBits_local 32).bind d.readTagged_local

theorem readField_advances (d : Descriptor) : d.readField.Advances :=
  (varintBits_advances 32).bind d.readTagged_local

end Descriptor

/-! ### The loop -/

theorem readExpected_eq (cutoff : BitVec 32) (expect : Option (BitVec 32)) (bs : Bytes) :
    (readExpected cutoff expect bs).1 = tagAt bs ∧
      ∀ tag rest, tagAt bs = .tag tag rest → tag ≠ 0 → tag ≤ cutoff →
        (readExpected cutoff expect bs).2 = true := by
  have hhead : (readTagWithCutoff cutoff bs).1 = tagAt bs ∧
      ∀ tag rest, tagAt bs = .tag tag rest → tag ≠ 0 → tag ≤ cutoff →
        (readTagWithCutoff cutoff bs).2 = true := by
    obtain ⟨hfst, hsnd⟩ := readTagWithCutoff_eq cutoff bs
    refine ⟨hfst, fun tag rest htag h0 hle => ?_⟩
    rw [hsnd tag rest htag h0, decide_eq_true hle]
  unfold readExpected
  split
  · exact hhead
  · next tag =>
    cases hexpect : expectTag tag bs with
    | none => exact hhead
    | some rest => exact ⟨(expectTag_eq hexpect).symm, fun _ _ _ _ _ => rfl⟩

namespace Message
variable {d : Descriptor}

/-- A message that was parsed, if it was consumed entirely. -/
def consumed : Option (Message d × Bool) → Option (Message d)
  | some (m, true) => some m
  | _ => none

def applied (sets : List (Message d → Message d)) (m : Message d) : Message d :=
  sets.foldl (fun m set => set m) m

/-- A message does not end at a tag that is zero or cannot be read. -/
theorem readField_zero {bs rest : Bytes} (h : tagAt bs = .tag 0 rest) : d.readField bs = none := by
  obtain ⟨-, hzero⟩ := tagAt_zero h
  rw [Descriptor.readField, Reader.bind]
  cases hread : varintBits 32 bs with
  | none => rfl
  | some x =>
    rw [Option.bind_some, hzero x.1 x.2 hread, Descriptor.readTagged, d.select_zero]
    dsimp only
    rw [if_pos (Or.inl rfl)]

theorem readField_tag {tag : BitVec 32} {bs rest : Bytes} (h : tagAt bs = .tag tag rest)
    (h0 : tag ≠ 0) : bs ≠ [] ∧ rest.length < bs.length ∧
      d.readField bs = d.readTagged tag rest := by
  have hread := tagAt_tag h h0
  have hlt : rest.length < bs.length := varintBits_advances 32 _ _ _ hread
  refine ⟨fun heq => ?_, hlt, ?_⟩
  · rw [heq] at hlt
    exact absurd hlt (Nat.not_lt_zero _)
  · rw [Descriptor.readField, Reader.bind, hread, Option.bind_some]

theorem mergePartial_eq {fuel : ℕ} (expect : Option (BitVec 32)) (m : Message d) {bs : Bytes}
    (h : bs.length < fuel) :
    consumed (mergePartial fuel expect m bs) =
      (d.readField.all bs).map fun sets => applied sets m := by
  induction fuel generalizing expect m bs with
  | zero => exact absurd h (Nat.not_lt_zero _)
  | succ fuel ih =>
    obtain ⟨htag, hbelow⟩ := readExpected_eq d.cutoff expect bs
    rw [mergePartial]
    generalize readExpected d.cutoff expect bs = out at htag hbelow
    obtain ⟨t, below⟩ := out
    dsimp only at htag hbelow
    subst htag
    cases htag : tagAt bs with
    | atEnd =>
      rw [tagAt_atEnd htag]
      rfl
    | tag tag rest =>
      rw [htag] at hbelow
      dsimp only
      by_cases h0 : tag = 0
      · subst h0
        obtain ⟨hne, -⟩ := tagAt_zero htag
        rw [d.select_zero, ite_self, Reader.all_step d.readField_advances hne, readField_zero htag]
        rfl
      · obtain ⟨hne, hlt, hread⟩ := readField_tag htag h0
        rw [Reader.all_step d.readField_advances hne, hread, Descriptor.readTagged]
        cases hselect : select d.fields tag with
        | some s =>
          obtain ⟨f, hf, rfl⟩ := select_mem hselect
          rw [hbelow _ rest rfl h0 (Descriptor.tag_le_cutoff hf), if_pos rfl]
          dsimp only
          cases hset : s.1 rest with
          | none =>
            rw [Reader.map, hset]
            rfl
          | some x =>
            have hle := (select_local hselect).length_le hset
            rw [Reader.map, hset, Option.map_some, Option.bind_some, Option.bind_some,
              ih s.2 _ (by omega), Option.map_map]
            rfl
        | none =>
          rw [ite_self]
          dsimp only
          split_ifs with hend
          · rfl
          · cases hskip : skipUnknown recursionLimit tag rest with
            | none =>
              rw [Reader.map, hskip]
              rfl
            | some x =>
              have hle := (skipUnknown_local recursionLimit tag).length_le hskip
              rw [Reader.map, hskip, Option.map_some, Option.bind_some, Option.bind_some,
                ih none _ (by omega), Option.map_map]
              rfl

/-- The parser as generated reads field by field. -/
theorem parseFromString_eq (d : Descriptor) (data : Bytes) :
    parseFromString d data = (d.readField.all data).map fun sets => applied sets (clear d) :=
  mergePartial_eq none (clear d) (Nat.lt_succ_self _)

/-! ### One message behind the other -/

theorem merge_empty {fs : List FieldDescriptor} (x : Fields fs) : x.merge (Fields.empty fs) = x := by
  induction x with
  | nil => rfl
  | cons value x ih =>
    rw [Fields.empty, Fields.merge, ih]
    rfl

theorem mergeFrom_clear (m : Message d) : m.mergeFrom (clear d) = m := by
  rw [mergeFrom, clear, merge_empty, List.append_nil]

theorem readField_merge {bs rest : Bytes} {set : Message d → Message d}
    (h : d.readField bs = some (set, rest)) (m m' : Message d) :
    set (m.mergeFrom m') = m.mergeFrom (set m') := by
  obtain ⟨x, -, hx⟩ := Option.bind_eq_some_iff.mp h
  rcases Descriptor.readTagged_cases hx with ⟨s, y, hs, hy, rfl⟩ | ⟨-, -, field, -, rfl⟩
  · simp only [mergeFrom, select_merge hs hy]
  · simp only [mergeFrom, List.append_assoc]

theorem applied_merge {bs : Bytes} {sets : List (Message d → Message d)}
    (h : d.readField.all bs = some sets) (m m' : Message d) :
    applied sets (m.mergeFrom m') = m.mergeFrom (applied sets m') := by
  refine Reader.all_induction d.readField_advances d.readField_local
    (P := fun _ sets => ∀ m', applied sets (m.mergeFrom m') = m.mergeFrom (applied sets m'))
    (fun _ => rfl) ?_ h m'
  intro front set rest sets hreads _ ih m'
  have hset := readField_merge hreads.nil_append m m'
  rw [applied, applied, List.foldl_cons, List.foldl_cons, hset]
  exact ih (set m')

/-- What follows a message is merged into it. -/
theorem parseFromString_append {d : Descriptor} {data : Bytes} {m : Message d}
    (h : parseFromString d data = some m) (more : Bytes) :
    parseFromString d (data ++ more) = (parseFromString d more).map m.mergeFrom := by
  rw [parseFromString_eq] at h
  obtain ⟨sets, hsets, rfl⟩ := Option.map_eq_some_iff.mp h
  rw [parseFromString_eq, parseFromString_eq,
    Reader.all_append d.readField_advances d.readField_local hsets]
  cases hmore : d.readField.all more with
  | none => rfl
  | some sets' =>
    have hmerge := applied_merge hmore (applied sets (clear d)) (clear d)
    rw [mergeFrom_clear] at hmerge
    rw [Option.map_some, Option.map_some, Option.map_some, Option.map_some, ← hmerge, applied,
      applied, applied, List.foldl_append]

end Message

end GameRes.Protobuf
