import GameRes.Protobuf.NetMessage

/-!
# What the generated code does (protobuf/NetMessage.pb.cc, google/protobuf/io, message_lite.cc)

The results about the varints, the parser and the serializer together, for every
generated class.
-/

namespace GameRes.Protobuf
open Library

/-! ### Varints -/

/-- Where no end of the buffer is checked, none is passed, and what is read is what
the slow path reads byte by byte. -/
theorem unchecked_reads_inside {bs : Bytes} (h : unchecked bs = true) :
    readVarint64Fast 0 {} bs = some (readVarint64Slow 0 0 bs) ∧
      readVarint32FromArray 0 0 bs =
        some ((readVarint64Slow 0 0 bs).map fun x => (x.1.setWidth 32, x.2)) := by
  refine ⟨?_, ?_⟩
  · rw [readVarint64Fast_zero h, readVarint64Slow_zero]
  · rw [readVarint32FromArray_zero h, readVarint64Slow_zero, varintBits_setWidth]

theorem unchecked_reads_inside_300 :
    readVarint64Fast 0 {} [0xAC, 0x02] = some (readVarint64Slow 0 0 [0xAC, 0x02]) ∧
      readVarint32FromArray 0 0 [0xAC, 0x02] =
        some ((readVarint64Slow 0 0 [0xAC, 0x02]).map fun x => (x.1.setWidth 32, x.2)) :=
  unchecked_reads_inside (by decide)

/-- Each of the three writers is read back, whatever follows, and writes as many bytes
as its size says. -/
theorem varints_read_back (value : BitVec 64) (small : BitVec 32) (rest : Bytes) :
    (readVarint64 (writeVarint64ToArray value ++ rest) = some (value, rest) ∧
      varintSize64 value = (writeVarint64ToArray value).length) ∧
    (readVarint32 (writeVarint32ToArray small ++ rest) = some (small, rest) ∧
      varintSize32 small = (writeVarint32ToArray small).length) ∧
    readVarint32 (writeVarint32SignExtendedToArray small ++ rest) = some (small, rest) ∧
      varintSize32SignExtended small = (writeVarint32SignExtendedToArray small).length := by
  have hsigned : FieldType.int32.read (FieldType.int32.write small ++ rest) = some (small, rest) :=
    FieldType.read_write (t := .int32) trivial rest
  exact ⟨⟨readVarint64_reads value rest, varintSize64_eq value⟩,
    ⟨readVarint32_reads small rest, varintSize32_eq small⟩,
    hsigned, varintSize32SignExtended_eq small⟩

/-! ### Messages -/

/-- One field after the other, each tag as a varint, with none of the fast paths. -/
def Message.parseFields (d : Descriptor) (data : Bytes) : Option (Message d) :=
  (d.readField.all data).map fun sets => Message.applied sets (Message.clear d)

section
variable {M : Type} [ProtoMessage M]

/-- The one and two byte tags, `ExpectTag` and the jumps between the cases of the
switch change nothing in what is accepted and what comes out. -/
theorem parse_without_fast_paths (data : Bytes) : parseFromString M data =
    (Message.parseFields (ProtoMessage.descriptor M) data).map ProtoMessage.members.symm := by
  rw [parseFromString, Message.parseFromString_eq]
  rfl

/-- The messages that come back from their bytes; `ByteSize` is exact for all. -/
theorem serialize_restored_iff (m : M) :
    (parseFromString M (serializeAsString m) = some m ↔ Encodable m) ∧
      byteSize m = (serializeAsString m).length :=
  ⟨⟨parse_encodable, parse_serialize⟩, Message.byteSize_eq _⟩

/-- Whatever bytes a message came from, unknown fields and groups among them, it is
written so that it is parsed to the same message again. -/
theorem parsed_restored {data : Bytes} {m : M} (h : parseFromString M data = some m) :
    parseFromString M (serializeAsString m) = some m :=
  parse_serialize (parse_encodable h)

/-- Parsing one message behind another is `MergeFrom`. -/
theorem parse_behind {data : Bytes} {m : M} (h : parseFromString M data = some m) (more : Bytes) :
    parseFromString M (data ++ more) = (parseFromString M more).map (mergeFrom m) := by
  rw [parseFromString, Message.parseFromString_append (parse_iff.mp h), parseFromString,
    Option.map_map, Option.map_map]
  congr 1
  funext x
  rw [Function.comp_apply, Function.comp_apply, mergeFrom, Equiv.apply_symm_apply]

/-- The first `j` of the fields a message has, its unknown fields after the known ones. -/
def firstFields (m : M) (j : ℕ) : M := ProtoMessage.members.symm ((ProtoMessage.members m).first j)

/-- A message that was cut anywhere is accepted exactly when the cut is between two of
its fields, and comes out as the fields before the cut. -/
theorem cut_parsed_iff {m : M} (h : Encodable m) {k : ℕ} (hk : k ≤ (serializeAsString m).length)
    (x : M) : parseFromString M ((serializeAsString m).take k) = some x ↔
      ∃ j, x = firstFields m j ∧ k = (serializeAsString (firstFields m j)).length := by
  have hlength : ∀ j, serializeAsString (firstFields m j) =
      ((ProtoMessage.members m).first j).serialize := fun j => by
    rw [serializeAsString, firstFields, Equiv.apply_symm_apply]
  rw [parse_iff, serializeAsString, Message.parseFromString_take h hk]
  simp only [hlength]
  refine exists_congr fun j => and_congr_left fun _ => ?_
  rw [firstFields, Equiv.eq_symm_apply]

end

theorem parsed_restored_login :
    parseFromString CRequestLogin (serializeAsString
      ({ userName := some [0x61], unknown := [.varint 9 5] } : CRequestLogin)) =
        some { userName := some [0x61], unknown := [.varint 9 5] } :=
  @parsed_restored CRequestLogin _ [0x48, 0x05, 0x0A, 0x01, 0x61] _ rfl

theorem parse_behind_login :
    parseFromString CRequestLogin ([0x0A, 0x01, 0x61] ++ [0x28, 0x01]) =
      (parseFromString CRequestLogin [0x28, 0x01]).map (mergeFrom { userName := some [0x61] }) :=
  parse_behind rfl [0x28, 0x01]

theorem cut_parsed_login :
    parseFromString CRequestLogin ((serializeAsString
      ({ userName := some [0x61], userPassword := some [0x62] } : CRequestLogin)).take 3) =
        some { userName := some [0x61] } :=
  have hwhole : parseFromString CRequestLogin [0x0A, 0x01, 0x61, 0x12, 0x01, 0x62] =
      some { userName := some [0x61], userPassword := some [0x62] } := rfl
  (cut_parsed_iff (parse_encodable hwhole) (by decide) _).mpr ⟨1, rfl, rfl⟩

end GameRes.Protobuf
