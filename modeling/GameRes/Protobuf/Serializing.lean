import GameRes.Protobuf.Parsing

/-!
# Serializing and parsing again (protobuf/NetMessage.pb.cc, google/protobuf/message_lite.cc)

Every message whose strings and unknown fields can be written comes back from its
bytes, and everything that was parsed is such a message. The size that `ByteSize`
computes for the buffer is the number of bytes written.
-/

namespace GameRes.Protobuf
open Library

/-! ### The values of the fields -/

theorem setWidth_signExtend (value : BitVec 32) : (value.signExtend 64).setWidth 32 = value := by
  apply BitVec.eq_of_toNat_eq
  have hlt := value.isLt
  rw [BitVec.toNat_setWidth, BitVec.toNat_signExtend, BitVec.toNat_setWidth]
  split_ifs <;> omega

theorem FieldType.read_write {t : FieldType} {value : t.Val} (h : t.Fits value) :
    t.read.Reads (t.write value) value := by
  cases t with
  | string => exact readLengthDelimited_reads h
  | uint32 => exact readVarint32_reads value
  | int32 =>
    intro rest
    rw [FieldType.write, writeVarint32SignExtendedToArray]
    split_ifs with hneg
    · have hread := readVarint64_reads (value.signExtend 64) rest
      have hcut := varintBits_setWidth (writeVarint64ToArray (value.signExtend 64) ++ rest)
      rw [readVarint64_eq] at hread
      rw [hread, Option.map_some, setWidth_signExtend] at hcut
      rw [FieldType.read, readVarint32_eq, ← hcut]
    · exact readVarint32_reads value rest
  | bool =>
    intro rest
    rw [FieldType.read, FieldType.write, Reader.map, readVarint64_eq, writeVarint32ToArray_eq]
    cases value with
    | false => rfl
    | true => rfl
  | float => exact readLittleEndian32_reads value

theorem FieldType.read_fits {t : FieldType} {bs rest : Bytes} {value : t.Val}
    (h : t.read bs = some (value, rest)) : t.Fits value := by
  cases t with
  | string => exact readLengthDelimited_length h
  | _ => trivial

theorem FieldType.size_eq (t : FieldType) (value : t.Val) : t.size value = (t.write value).length := by
  cases t with
  | string => rw [FieldType.size, FieldType.write, List.length_append, varintSize32_eq]
  | uint32 => exact varintSize32_eq value
  | int32 => exact varintSize32SignExtended_eq value
  | bool => cases value <;> rfl
  | float => rw [FieldType.size, FieldType.write, writeLittleEndian32ToArray, leBytes_length]

/-! ### The fields of a message -/

namespace Fields

/-- The fields that are set: the tag, the bytes behind it, and the assignment. -/
def items {fs : List FieldDescriptor} : Fields fs → List (BitVec 32 × Bytes × (Fields fs → Fields fs))
  | .nil => []
  | .cons (f := f) value rest =>
    value.toList.map (fun v => (f.tag, f.type.write v, set v)) ++
      (items rest).map fun i => (i.1, i.2.1, onRest i.2.2)

theorem write_eq {fs : List FieldDescriptor} (x : Fields fs) :
    x.write = x.items.flatMap fun i => writeVarint32ToArray i.1 ++ i.2.1 := by
  induction x with
  | nil => rfl
  | cons value x ih =>
    rw [items, List.flatMap_append, List.flatMap_map, List.flatMap_map]
    cases value with
    | none => exact ih
    | some value =>
      rw [write, ih, Option.toList_some, List.flatMap_cons, List.flatMap_nil, List.append_nil]

/-- The first `j` of the fields that are set. -/
def first {fs : List FieldDescriptor} : Fields fs → ℕ → Fields fs
  | .nil, _ => .nil
  | .cons none rest, j => .cons none (first rest j)
  | .cons (some _) rest, 0 => .cons none (first rest 0)
  | .cons (some value) rest, j + 1 => .cons (some value) (first rest j)

theorem items_first {fs : List FieldDescriptor} (x : Fields fs) (j : ℕ) :
    (x.first j).items = x.items.take j := by
  induction x generalizing j with
  | nil => exact List.take_nil.symm
  | cons value x ih =>
    cases value with
    | none =>
      rw [first, items, items, ih, List.map_take]
      rfl
    | some value =>
      cases j with
      | zero =>
        rw [first, items, ih]
        rfl
      | succ j =>
        rw [first, items, items, ih, List.map_take]
        rfl

theorem All.first {P : (t : FieldType) → t.Val → Prop} {fs : List FieldDescriptor} {x : Fields fs}
    (h : x.All P) (j : ℕ) : (x.first j).All P := by
  induction x generalizing j with
  | nil => trivial
  | cons value x ih =>
    rw [All] at h
    cases value with
    | none => exact ⟨h.1, ih h.2 j⟩
    | some value =>
      cases j with
      | zero => exact ⟨fun v hv => absurd hv (by simp), ih h.2 0⟩
      | succ j => exact ⟨h.1, ih h.2 j⟩

theorem applied_onRest {f : FieldDescriptor} {fs : List FieldDescriptor}
    (is : List (BitVec 32 × Bytes × (Fields fs → Fields fs))) (value : Option f.type.Val)
    (y : Fields fs) :
    (is.map fun i => ((i.1, i.2.1, onRest (f := f) i.2.2) : BitVec 32 × Bytes × _)).foldl
      (fun z i => i.2.2 z) (.cons value y) = .cons value (is.foldl (fun z i => i.2.2 z) y) := by
  induction is generalizing y with
  | nil => rfl
  | cons i is ih => exact ih (i.2.2 y)

theorem applied_items {fs : List FieldDescriptor} (x : Fields fs) :
    x.items.foldl (fun y i => i.2.2 y) (empty fs) = x := by
  induction x with
  | nil => rfl
  | cons value x ih =>
    rw [items, List.foldl_append]
    cases value with
    | none => exact (applied_onRest x.items none (empty _)).trans (congrArg _ ih)
    | some value => exact (applied_onRest x.items (some value) (empty _)).trans (congrArg _ ih)

end Fields

theorem tag_injective {f g : FieldDescriptor} (hf : f.number < 2 ^ 29) (hg : g.number < 2 ^ 29)
    (h : f.tag = g.tag) : f.number = g.number := by
  have hnum := congrArg getTagFieldNumber h
  rwa [FieldDescriptor.tag, FieldDescriptor.tag, getTagFieldNumber_makeTag hf,
    getTagFieldNumber_makeTag hg] at hnum

theorem select_item {fs : List FieldDescriptor}
    (hincreasing : fs.Pairwise fun f g => f.number < g.number)
    (hbounds : ∀ f ∈ fs, f.number < 2 ^ 29) {x : Fields fs} (hfit : x.All FieldType.Fits) :
    ∀ i ∈ x.items, ∃ s, select fs i.1 = some s ∧ s.1.Reads i.2.1 i.2.2 := by
  induction x with
  | nil =>
    intro i hi
    exact absurd hi List.not_mem_nil
  | @cons f fs value x ih =>
    rw [List.pairwise_cons] at hincreasing
    rw [Fields.All] at hfit
    intro i hi
    rw [Fields.items, List.mem_append, List.mem_map, List.mem_map] at hi
    rcases hi with ⟨v, hv, rfl⟩ | ⟨j, hj, rfl⟩
    · refine ⟨_, if_pos rfl, ?_⟩
      exact (FieldType.read_write (hfit.1 v (Option.mem_toList.mp hv))).map _
    · obtain ⟨s, hs, hreads⟩ :=
        ih hincreasing.2 (fun g hg => hbounds g (List.mem_cons_of_mem f hg)) hfit.2 j hj
      obtain ⟨g, hg, heq⟩ := select_mem hs
      have hne : j.1 ≠ f.tag := by
        intro htag
        have hnum := tag_injective (hbounds g (List.mem_cons_of_mem f hg))
          (hbounds f List.mem_cons_self) (heq.symm.trans htag)
        have hlt := hincreasing.1 g hg
        omega
      exact ⟨_, (if_neg hne).trans (congrArg _ hs), hreads.map _⟩

/-! ### Zero bytes -/

theorem zero_notMem_varint32 {value : BitVec 32} (h : value ≠ 0) :
    (0 : Byte) ∉ writeVarint32ToArray value := by
  rw [writeVarint32ToArray_eq]
  exact zero_notMem_varint (Nat.lt_trans value.isLt (by norm_num))
    fun hzero => h (BitVec.eq_of_toNat_eq hzero)

/-- The values whose bytes hold a zero. -/
def FieldType.HasZero : (t : FieldType) → t.Val → Prop
  | .string, value => value = [] ∨ (0 : Byte) ∈ value
  | .uint32, value => value = 0
  | .int32, value => value = 0
  | .bool, value => value = false
  | .float, value => (0 : Byte) ∈ writeLittleEndian32ToArray value

theorem FieldType.zero_mem_write {t : FieldType} {value : t.Val} (h : t.Fits value) :
    (0 : Byte) ∈ t.write value ↔ t.HasZero value := by
  have hvarint : ∀ v : BitVec 32, (0 : Byte) ∈ writeVarint32ToArray v ↔ v = 0 := by
    intro v
    refine ⟨fun hmem => ?_, fun heq => ?_⟩
    · by_contra h0
      exact zero_notMem_varint32 h0 hmem
    · rw [heq]
      decide
  cases t with
  | string =>
    have hlen : BitVec.ofNat 32 value.length = 0 ↔ value = [] := by
      have hfits : value.length < 2 ^ 31 := h
      rw [← BitVec.toNat_inj, BitVec.toNat_ofNat, Nat.mod_eq_of_lt (by omega)]
      exact List.length_eq_zero_iff
    rw [FieldType.write, FieldType.HasZero, List.mem_append, hvarint, hlen]
  | uint32 => exact hvarint value
  | int32 =>
    rw [FieldType.write, writeVarint32SignExtendedToArray, FieldType.HasZero]
    split_ifs with hneg
    · have hne : value ≠ 0 := by
        rintro rfl
        exact absurd hneg (by decide)
      have hwide : (value.signExtend 64).toNat ≠ 0 := by
        intro hzero
        have hcut := setWidth_signExtend value
        rw [BitVec.eq_of_toNat_eq (x := value.signExtend 64) (y := 0#64) hzero] at hcut
        exact hne hcut.symm
      rw [writeVarint64ToArray_eq]
      exact iff_of_false
        (zero_notMem_varint (Nat.lt_trans (value.signExtend 64).isLt (by norm_num)) hwide) hne
    · exact hvarint value
  | bool =>
    rw [FieldType.write, FieldType.HasZero, hvarint]
    cases value <;> decide
  | float => exact Iff.rfl

def Fields.HasZero {fs : List FieldDescriptor} : Fields fs → Prop
  | .nil => False
  | .cons (f := f) value rest => (∃ v, value = some v ∧ f.type.HasZero v) ∨ rest.HasZero

theorem Fields.zero_mem_write {fs : List FieldDescriptor} (htag : ∀ f ∈ fs, f.tag ≠ 0)
    {x : Fields fs} (hfit : x.All FieldType.Fits) : (0 : Byte) ∈ x.write ↔ x.HasZero := by
  induction x with
  | nil => exact iff_of_false List.not_mem_nil id
  | @cons f fs value x ih =>
    rw [Fields.All] at hfit
    have hrest := ih (fun g hg => htag g (List.mem_cons_of_mem f hg)) hfit.2
    cases value with
    | none =>
      rw [Fields.write, Fields.HasZero, hrest]
      exact (or_iff_right fun ⟨v, heq, _⟩ => absurd heq (by simp)).symm
    | some value =>
      have hvalue := FieldType.zero_mem_write (hfit.1 value rfl)
      have hno := zero_notMem_varint32 (htag f List.mem_cons_self)
      have hset : (∃ v, some value = some v ∧ f.type.HasZero v) ↔ f.type.HasZero value :=
        ⟨fun ⟨v, heq, hv⟩ => Option.some.inj heq ▸ hv, fun hv => ⟨value, rfl, hv⟩⟩
      rw [Fields.write, Fields.HasZero, List.mem_append, List.mem_append, or_iff_right hno, hvalue,
        hrest, hset]

/-! ### Messages -/

namespace Message
variable {d : Descriptor}

/-- The strings are not too long, and every unknown field can be written and is one
that the message does not know. -/
structure Encodable (m : Message d) : Prop where
  fields : m.fields.All FieldType.Fits
  unknown : ∀ u ∈ m.unknown, u.Encodable recursionLimit ∧ select d.fields u.tag = none

theorem tag_reads (tag : BitVec 32) : (varintBits 32).Reads (writeVarint32ToArray tag) tag := by
  intro rest
  rw [← readVarint32_eq]
  exact readVarint32_reads tag rest

/-- What a message is written as, one field after the other, and what each sets. -/
def pieces (m : Message d) : List (Bytes × (Message d → Message d)) :=
  (m.fields.items.map fun i => (writeVarint32ToArray i.1 ++ i.2.1,
    fun m => { m with fields := i.2.2 m.fields })) ++
  m.unknown.map fun u => (writeVarint32ToArray u.tag ++ u.payload,
    fun m => { m with unknown := m.unknown ++ [u] })

theorem serializeUnknown_eq (us : List UnknownField) : serializeUnknownFieldsToArray us =
    us.flatMap fun u => writeVarint32ToArray u.tag ++ u.payload := by
  induction us with
  | nil => rw [serializeUnknownFieldsToArray, List.flatMap_nil]
  | cons u us ih => rw [serializeUnknownFieldsToArray, List.flatMap_cons, ih]

theorem serialize_eq (m : Message d) : m.serialize = m.pieces.flatMap Prod.fst := by
  rw [serialize, Fields.write_eq, serializeUnknown_eq, pieces, List.flatMap_append,
    List.flatMap_map, List.flatMap_map]

/-- Every piece starts with a tag, and is read as one field. -/
theorem pieces_read {m : Message d} (h : m.Encodable) :
    ∀ i ∈ m.pieces, d.readField.Reads i.1 i.2 ∧
      ∃ (tag : BitVec 32) (rest : Bytes), tag ≠ 0 ∧ i.1 = writeVarint32ToArray tag ++ rest := by
  intro i hi
  rcases List.mem_append.mp hi with hi | hi
  · obtain ⟨j, hj, rfl⟩ := List.mem_map.mp hi
    obtain ⟨s, hs, hreads⟩ := select_item d.increasing (fun _ => Descriptor.number_lt) h.fields j hj
    obtain ⟨f, hf, htag⟩ := select_mem hs
    refine ⟨(tag_reads j.1).bind ?_, j.1, j.2.1, htag ▸ Descriptor.tag_ne_zero hf, rfl⟩
    rw [Descriptor.readTagged, hs]
    exact hreads.map _
  · obtain ⟨u, hu, rfl⟩ := List.mem_map.mp hi
    obtain ⟨hencodable, hselect⟩ := h.unknown u hu
    obtain ⟨h0, hend⟩ := hencodable.tag_ne
    refine ⟨(tag_reads u.tag).bind ?_, u.tag, u.payload, h0, rfl⟩
    rw [Descriptor.readTagged, hselect]
    dsimp only
    rw [if_neg (by rw [not_or]; exact ⟨h0, hend⟩)]
    exact (skipUnknown_reads hencodable).map _

theorem applied_fields (is : List (BitVec 32 × Bytes × (Fields d.fields → Fields d.fields)))
    (m : Message d) :
    applied (is.map fun i m => { m with fields := i.2.2 m.fields }) m =
      ⟨is.foldl (fun y i => i.2.2 y) m.fields, m.unknown⟩ := by
  induction is generalizing m with
  | nil => rfl
  | cons i is ih => exact ih _

theorem applied_unknown (us : List UnknownField) (m : Message d) :
    applied (us.map fun u m => { m with unknown := m.unknown ++ [u] }) m =
      ⟨m.fields, m.unknown ++ us⟩ := by
  induction us generalizing m with
  | nil => rw [List.append_nil]; rfl
  | cons u us ih =>
    refine (ih _).trans ?_
    rw [List.append_assoc, List.singleton_append]

theorem applied_pieces (m : Message d) : applied (m.pieces.map Prod.snd) (clear d) = m := by
  have hset : applied (m.fields.items.map fun i m => { m with fields := i.2.2 m.fields })
      (clear d) = ⟨m.fields, []⟩ := by
    rw [applied_fields, clear, Fields.applied_items]
  rw [pieces, List.map_append, List.map_map, List.map_map, applied, List.foldl_append, ← applied,
    ← applied]
  exact (congrArg _ hset).trans (applied_unknown m.unknown _)

/-- What was serialized parses to the same message. -/
theorem parseFromString_serialize {m : Message d} (h : m.Encodable) :
    parseFromString d m.serialize = some m := by
  have hall := Reader.all_flatMap d.readField_advances _ _ m.pieces
    fun i hi => (pieces_read h i hi).1
  rw [parseFromString_eq, serialize_eq, hall, Option.map_some, applied_pieces]

/-! ### Messages cut short -/

/-- The message with the first `j` of its fields, known ones before unknown ones. -/
def first (m : Message d) (j : ℕ) : Message d :=
  ⟨m.fields.first j, m.unknown.take (j - m.fields.items.length)⟩

theorem first_pieces (m : Message d) (j : ℕ) : (m.first j).pieces = m.pieces.take j := by
  rw [pieces, pieces, first, List.take_append, List.length_map, Fields.items_first, List.map_take,
    List.map_take]

theorem first_serialize (m : Message d) (j : ℕ) :
    (m.first j).serialize = (m.pieces.take j).flatMap Prod.fst := by
  rw [serialize_eq, first_pieces]

theorem Encodable.first {m : Message d} (h : m.Encodable) (j : ℕ) : (m.first j).Encodable :=
  ⟨h.fields.first j, fun u hu => h.unknown u (List.mem_of_mem_take hu)⟩

theorem take_first (m : Message d) (j : ℕ) :
    m.serialize.take (m.first j).serialize.length = (m.first j).serialize := by
  have hsplit : m.serialize = (m.first j).serialize ++ (m.pieces.drop j).flatMap Prod.fst := by
    rw [first_serialize, serialize_eq, ← List.flatMap_append, List.take_append_drop]
  rw [hsplit, List.take_left]

/-- A front of the bytes of a message is accepted when it ends between two fields, and is
the message up to there. -/
theorem parseFromString_take {m : Message d} (h : m.Encodable) {k : ℕ}
    (hk : k ≤ m.serialize.length) (x : Message d) :
    parseFromString d (m.serialize.take k) = some x ↔
      ∃ j, x = m.first j ∧ k = (m.first j).serialize.length := by
  have hsome : (parseFromString d (m.serialize.take k)).isSome ↔
      ∃ j, k = (m.first j).serialize.length := by
    simp only [first_serialize]
    rw [serialize_eq] at hk ⊢
    rw [parseFromString_eq, Option.isSome_map]
    exact Reader.all_take_isSome_iff d.readField_advances d.readField_local
      (fun i hi => (pieces_read h i hi).1) hk
  have hfirst : ∀ j, k = (m.first j).serialize.length →
      parseFromString d (m.serialize.take k) = some (m.first j) := by
    rintro j rfl
    rw [take_first, parseFromString_serialize (h.first j)]
  constructor
  · intro hx
    obtain ⟨j, hj⟩ := hsome.mp (Option.isSome_iff_exists.mpr ⟨x, hx⟩)
    rw [hfirst j hj] at hx
    exact ⟨j, (Option.some.inj hx).symm, hj⟩
  · rintro ⟨j, rfl, hj⟩
    exact hfirst j hj

/-- Cut at the first zero byte, a message is refused or was not cut: no field starts
with a zero byte. -/
theorem parseFromString_takeWhile {m : Message d} (h : m.Encodable) :
    parseFromString d (m.serialize.takeWhile (· ≠ 0)) =
      if (0 : Byte) ∈ m.serialize then none else some m := by
  have hhead : ∀ i ∈ m.pieces, ∀ b ∈ i.1.head?, decide (b ≠ 0) = true := by
    intro i hi b hb
    obtain ⟨-, tag, rest, h0, heq⟩ := pieces_read h i hi
    have hnat : tag.toNat ≠ 0 := fun hzero => h0 (BitVec.eq_of_toNat_eq hzero)
    have hlt : tag.toNat < 128 ^ 10 := Nat.lt_trans tag.isLt (by norm_num)
    have hmem : b ∈ varint 10 tag.toNat := by
      rw [heq, writeVarint32ToArray_eq, List.head?_append_of_ne_nil _ (varint_ne_nil 9 _)] at hb
      exact List.mem_of_mem_head? hb
    rw [decide_eq_true_eq]
    rintro rfl
    exact zero_notMem_varint hlt hnat hmem
  have hall := Reader.all_takeWhile d.readField_advances d.readField_local
    (fun i hi => (pieces_read h i hi).1) (fun b => decide (b ≠ 0)) hhead
  have hzero : (∀ b ∈ m.pieces.flatMap Prod.fst, decide (b ≠ 0) = true) ↔
      (0 : Byte) ∉ m.pieces.flatMap Prod.fst := by
    simp only [decide_eq_true_eq]
    exact List.forall_mem_ne'
  rw [parseFromString_eq, serialize_eq, hall]
  simp only [hzero]
  split_ifs with hin
  · rfl
  · rw [Option.map_some, applied_pieces]

/-! ### What was parsed can be written -/

theorem select_all {P : (t : FieldType) → t.Val → Prop} {fs : List FieldDescriptor}
    {tag : BitVec 32} {s : Reader (Fields fs → Fields fs) × Option (BitVec 32)}
    (h : select fs tag = some s) {bs rest : Bytes} {set : Fields fs → Fields fs}
    (hread : s.1 bs = some (set, rest))
    (hP : ∀ (t : FieldType) (v : t.Val), t.read bs = some (v, rest) → P t v) {x : Fields fs}
    (hx : x.All P) : (set x).All P := by
  induction fs with
  | nil => cases h
  | cons f fs ih =>
    rw [select] at h
    split_ifs at h with htag
    · cases h
      obtain ⟨v, hv, heq⟩ := Option.map_eq_some_iff.mp hread
      cases heq
      cases x with
      | cons value x =>
        rw [Fields.All] at hx
        rw [Fields.set, Fields.All]
        refine ⟨fun w hw => ?_, hx.2⟩
        rw [← Option.some.inj hw]
        exact hP f.type v.1 hv
    · obtain ⟨s', hs', rfl⟩ := Option.map_eq_some_iff.mp h
      obtain ⟨v, hv, heq⟩ := Option.map_eq_some_iff.mp hread
      cases heq
      cases x with
      | cons value x =>
        rw [Fields.All] at hx
        rw [Fields.onRest, Fields.All]
        exact ⟨hx.1, ih hs' hv hx.2⟩

theorem clear_all (P : (t : FieldType) → t.Val → Prop) (fs : List FieldDescriptor) :
    (Fields.empty fs).All P := by
  induction fs with
  | nil => trivial
  | cons f fs ih =>
    rw [Fields.empty, Fields.All]
    exact ⟨fun v hv => absurd hv (Option.not_mem_none v), ih⟩

theorem readField_encodable {bs rest : Bytes} {set : Message d → Message d}
    (h : d.readField bs = some (set, rest)) {m : Message d} (hm : m.Encodable) :
    (set m).Encodable := by
  obtain ⟨x, -, hx⟩ := Option.bind_eq_some_iff.mp h
  rcases Descriptor.readTagged_cases hx with ⟨s, y, hs, hy, rfl⟩ | ⟨hs, h0, u, hu, rfl⟩
  · exact ⟨select_all hs hy (fun t v hv => FieldType.read_fits hv) hm.fields, hm.unknown⟩
  · refine ⟨hm.fields, fun v hv => ?_⟩
    rcases List.mem_append.mp hv with hv | hv
    · exact hm.unknown v hv
    · obtain ⟨hencodable, htag⟩ := skipUnknown_encodable h0 hu
      rw [List.mem_singleton.mp hv, htag]
      exact ⟨hencodable, hs⟩

theorem clear_encodable (d : Descriptor) : (clear d).Encodable :=
  ⟨clear_all _ d.fields, fun _ hu => absurd hu List.not_mem_nil⟩

theorem encodable_of_parse {data : Bytes} {m : Message d} (h : parseFromString d data = some m) :
    m.Encodable := by
  rw [parseFromString_eq] at h
  obtain ⟨sets, hsets, rfl⟩ := Option.map_eq_some_iff.mp h
  refine Reader.all_induction d.readField_advances d.readField_local
    (P := fun _ sets => ∀ m : Message d, m.Encodable → (applied sets m).Encodable)
    (fun _ hm => hm) ?_ hsets (clear d) (clear_encodable d)
  intro front set rest sets hreads _ ih m hm
  exact ih (set m) (readField_encodable hreads.nil_append hm)

/-- A string with its length takes no more than the bytes it was read from. -/
def StringsWithin (n : ℕ) : (t : FieldType) → t.Val → Prop
  | .string, value => 1 + FieldType.string.size value ≤ n
  | _, _ => True

theorem read_within {t : FieldType} {bs rest : Bytes} {value : t.Val}
    (h : t.read bs = some (value, rest)) {n : ℕ} (hn : bs.length < n) :
    StringsWithin n t value := by
  cases t with
  | string =>
    obtain ⟨x, hx, hstring⟩ := Option.bind_eq_some_iff.mp h
    obtain ⟨hlen, -, hrest⟩ := readString_length hstring
    rw [readVarint32_eq] at hx
    obtain ⟨y, hy, rfl⟩ := Option.map_eq_some_iff.mp hx
    obtain ⟨front, rfl, hpos, hle, hnum, -⟩ := takeVarint_some hy
    dsimp only at hlen hrest
    have hvalue : value.length < 128 ^ front.length := by
      rw [hlen, BitVec.toNat_ofNat]
      exact Nat.lt_of_le_of_lt (Nat.mod_le _ _) hnum
    have hsize : varintSize32 (BitVec.ofNat 32 value.length) ≤ front.length := by
      have hnat : (BitVec.ofNat 32 value.length).toNat = value.length := by
        rw [hlen, BitVec.ofNat_toNat, BitVec.setWidth_eq]
      rw [varintSize32_eq, writeVarint32ToArray_eq, hnat, varint_room hvalue hle hpos]
      exact varint_length_le _ _
    rw [StringsWithin, FieldType.size]
    rw [List.length_append, hrest, List.length_append] at hn
    omega
  | _ => trivial

theorem strings_within {data : Bytes} {m : Message d} (h : parseFromString d data = some m) :
    m.fields.All (StringsWithin data.length) := by
  rw [parseFromString_eq] at h
  obtain ⟨sets, hsets, rfl⟩ := Option.map_eq_some_iff.mp h
  refine Reader.all_induction d.readField_advances d.readField_local
    (P := fun bs sets => ∀ n, bs.length ≤ n → ∀ m : Message d, m.fields.All (StringsWithin n) →
      (applied sets m).fields.All (StringsWithin n))
    (fun _ _ _ hm => hm) ?_ hsets _ (Nat.le_refl _) (clear d) (clear_all _ d.fields)
  intro front set rest sets hreads _ ih n hn m hm
  rw [List.length_append] at hn
  refine ih n (by omega) (set m) ?_
  obtain ⟨x, htag, hx⟩ := Option.bind_eq_some_iff.mp hreads.nil_append
  have hlt : x.2.length < front.length := varintBits_advances 32 _ _ _ htag
  rcases Descriptor.readTagged_cases hx with ⟨s, y, hs, hy, rfl⟩ | ⟨hs, h0, u, hu, rfl⟩
  · exact select_all hs hy (fun t v hv => read_within hv (by omega)) hm
  · exact hm

/-! ### Sizes -/

theorem tag_size {f : FieldDescriptor} (h : f ∈ d.fields) :
    (if f.number < 16 then 1 else 2) = (writeVarint32ToArray f.tag).length := by
  have hcode : f.type.wireType.code.toNat < 8 := by cases f.type <;> decide
  have hbound := d.bounds f h
  have htwo := d.two_bytes
  have htag : f.tag.toNat = 8 * f.number + f.type.wireType.code.toNat :=
    makeTag_toNat (Descriptor.number_lt h) _
  rw [writeVarint32ToArray_eq]
  split_ifs with hone
  · rw [varint_length (j := 0) ⟨by omega, Or.inl rfl⟩ (by decide)]
  · rw [varint_length (j := 1) ⟨by omega, Or.inr (by omega)⟩ (by decide)]

theorem fields_size_eq {fs : List FieldDescriptor}
    (h : ∀ f ∈ fs, (if f.number < 16 then 1 else 2) = (writeVarint32ToArray f.tag).length)
    (x : Fields fs) : x.size = x.write.length := by
  induction x with
  | nil => rfl
  | @cons f fs value x ih =>
    have hrest := ih fun g hg => h g (List.mem_cons_of_mem f hg)
    cases value with
    | none => exact hrest
    | some value =>
      rw [Fields.size, Fields.write, hrest, h f List.mem_cons_self, FieldType.size_eq,
        List.length_append, List.length_append]

theorem byteSize_eq (m : Message d) : m.byteSize = m.serialize.length := by
  rw [byteSize, serialize, List.length_append, computeUnknownFieldsSize_eq,
    fields_size_eq (fun f hf => tag_size hf)]

end Message

end GameRes.Protobuf
