import GameRes.Protobuf.WireFormat

/-!
# Generated messages (protobuf/NetMessage.pb.cc, google/protobuf/message_lite.cc:90-200)

The messages whose fields are optional scalars and strings, which the seven of the login
are. The code that `protoc` generates for such a message is determined by the numbers and
the types of its fields; repeated, packed, enumeration and message fields, which other
messages have, are not here. `MergePartialFromCodedStream` is its loop, with the jump that
`ExpectTag` makes to the field behind the one just read.
-/

namespace GameRes.Protobuf
open Library

inductive FieldType where
  | string
  | uint32
  | int32
  | bool
  | float
  deriving DecidableEq, Repr

/-- A `float` is its bits. -/
abbrev FieldType.Val : FieldType → Type
  | .string => Bytes
  | .uint32 => BitVec 32
  | .int32 => BitVec 32
  | .bool => Bool
  | .float => BitVec 32

namespace FieldType

def wireType : FieldType → WireType
  | string => .lengthDelimited
  | uint32 => .varint
  | int32 => .varint
  | bool => .varint
  | float => .fixed32

/-- `ReadString` and `ReadPrimitive` (`wire_format_lite_inl.h:61-164`). -/
def read : (t : FieldType) → Reader t.Val
  | string => readLengthDelimited
  | uint32 => readVarint32
  | int32 => readVarint32
  | bool => Reader.map (fun value => decide (value ≠ 0)) readVarint64
  | float => readLittleEndian32

def write : (t : FieldType) → t.Val → Bytes
  | string, value => writeVarint32ToArray (BitVec.ofNat 32 value.length) ++ value
  | uint32, value => writeVarint32ToArray value
  | int32, value => writeVarint32SignExtendedToArray value
  | bool, value => writeVarint32ToArray (if value then 1 else 0)
  | float, value => writeLittleEndian32ToArray value

def size : (t : FieldType) → t.Val → ℕ
  | string, value => varintSize32 (BitVec.ofNat 32 value.length) + value.length
  | uint32, value => varintSize32 value
  | int32, value => varintSize32SignExtended value
  | bool, _ => 1
  | float, _ => 4

/-- The length of a string is an `int`. -/
def Fits : (t : FieldType) → t.Val → Prop
  | string, value => value.length < 2 ^ 31
  | _, _ => True

end FieldType

structure FieldDescriptor where
  number : ℕ
  type : FieldType
  deriving DecidableEq, Repr

def FieldDescriptor.tag (f : FieldDescriptor) : BitVec 32 := makeTag f.number f.type.wireType

/-- The fields by number, and the tag up to which the generated switch looks. -/
structure Descriptor where
  fields : List FieldDescriptor
  cutoff : BitVec 32
  increasing : fields.Pairwise fun f g => f.number < g.number
  bounds : ∀ f ∈ fields, 0 < f.number ∧ 8 * f.number + 7 ≤ cutoff.toNat
  two_bytes : cutoff.toNat < 2 ^ 14

/-- The values of the fields, `none` where the has bit is clear. -/
inductive Fields : List FieldDescriptor → Type where
  | nil : Fields []
  | cons {f : FieldDescriptor} {fs : List FieldDescriptor} (value : Option f.type.Val)
      (rest : Fields fs) : Fields (f :: fs)

structure Message (d : Descriptor) where
  fields : Fields d.fields
  unknown : List UnknownField

namespace Fields

/-- What `Clear` leaves. -/
def empty : (fs : List FieldDescriptor) → Fields fs
  | [] => .nil
  | _ :: fs => .cons none (empty fs)

def set {f : FieldDescriptor} {fs : List FieldDescriptor} (value : f.type.Val) :
    Fields (f :: fs) → Fields (f :: fs)
  | .cons _ rest => .cons (some value) rest

def onRest {f : FieldDescriptor} {fs : List FieldDescriptor} (g : Fields fs → Fields fs) :
    Fields (f :: fs) → Fields (f :: fs)
  | .cons value rest => .cons value (g rest)

def merge {fs : List FieldDescriptor} : Fields fs → Fields fs → Fields fs
  | .nil, .nil => .nil
  | .cons value rest, .cons value' rest' => .cons (value'.or value) (merge rest rest')

def write {fs : List FieldDescriptor} : Fields fs → Bytes
  | .nil => []
  | .cons none rest => write rest
  | .cons (f := f) (some value) rest =>
    writeVarint32ToArray f.tag ++ f.type.write value ++ write rest

def size {fs : List FieldDescriptor} : Fields fs → ℕ
  | .nil => 0
  | .cons none rest => size rest
  | .cons (f := f) (some value) rest =>
    (if f.number < 16 then 1 else 2) + f.type.size value + size rest

/-- Every field that is set has a value with `P`. -/
def All (P : (t : FieldType) → t.Val → Prop) {fs : List FieldDescriptor} : Fields fs → Prop
  | .nil => True
  | .cons (f := f) value rest => (∀ v ∈ value, P f.type v) ∧ All P rest

end Fields

def nextTag : List FieldDescriptor → Option (BitVec 32)
  | [] => none
  | f :: _ => some f.tag

/-- The case of the switch for a tag: what reads the field and sets it, and the tag
expected next; `none` is the jump to `handle_unusual`. -/
def select : (fs : List FieldDescriptor) → BitVec 32 →
    Option (Reader (Fields fs → Fields fs) × Option (BitVec 32))
  | [], _ => none
  | f :: fs, tag =>
    if tag = f.tag then some (Reader.map Fields.set f.type.read, nextTag fs)
    else (select fs tag).map fun s => (Reader.map Fields.onRest s.1, s.2)

/-- The tag that comes next, by `ExpectTag` or at the head of the loop. -/
def readExpected (cutoff : BitVec 32) (expect : Option (BitVec 32)) (bs : Bytes) : TagRead × Bool :=
  match expect with
  | none => readTagWithCutoff cutoff bs
  | some tag =>
    match expectTag tag bs with
    | some rest => (.tag tag rest, true)
    | none => readTagWithCutoff cutoff bs

/-- The default of `recursion_limit_`. -/
def recursionLimit : ℕ := 100

namespace Message
variable {d : Descriptor}

def clear (d : Descriptor) : Message d := ⟨Fields.empty d.fields, []⟩

/-- `MergeFrom`. -/
def mergeFrom (m from_ : Message d) : Message d :=
  ⟨m.fields.merge from_.fields, m.unknown ++ from_.unknown⟩

/-- `MergePartialFromCodedStream`, for at most `fuel` fields; the flag is
`legitimate_message_end_`. -/
def mergePartial : ℕ → Option (BitVec 32) → Message d → Bytes → Option (Message d × Bool)
  | 0, _, _, _ => none
  | fuel + 1, expect, m, bs =>
    match readExpected d.cutoff expect bs with
    | (.atEnd, _) => some (m, true)
    | (.tag tag rest, below) =>
      match if below then select d.fields tag else none with
      | some s => (s.1 rest).bind fun x => mergePartial fuel s.2 { m with fields := x.1 m.fields } x.2
      | none =>
        if tag = 0 ∨ getTagWireType tag = some .endGroup then some (m, false)
        else
          (skipUnknown recursionLimit tag rest).bind fun x =>
            mergePartial fuel none { m with unknown := m.unknown ++ [x.1] } x.2

/-- `ParseFromString`: a message that ends at a tag was not consumed entirely. -/
def parseFromString (d : Descriptor) (data : Bytes) : Option (Message d) :=
  match mergePartial (data.length + 1) none (clear d) data with
  | some (m, true) => some m
  | _ => none

/-- `SerializeWithCachedSizesToArray`. -/
def serialize (m : Message d) : Bytes := m.fields.write ++ serializeUnknownFieldsToArray m.unknown

def byteSize (m : Message d) : ℕ := m.fields.size + computeUnknownFieldsSize m.unknown

end Message

end GameRes.Protobuf
