import GameRes.Protobuf.Serializing
import Mathlib.Logic.Equiv.Defs

/-!
# The messages of the login (protobuf/NetMessage.proto, protobuf/NetMessage.pb.cc)

The requests that `CLogin` parses and the replies it serializes. A generated class
has the fields of its descriptor under their names; its parser, serializer and
`MergeFrom` are those of `Message`.
-/

namespace GameRes.Protobuf
open Library

/-- A generated class `M` with the fields and the tag cutoff of its code. -/
class ProtoMessage (M : Type) where
  descriptor : Descriptor
  members : M ≃ Message descriptor

section Generated
variable {M : Type} [ProtoMessage M]

/-- `MessageLite::ParseFromString`. -/
def parseFromString (M : Type) [ProtoMessage M] (data : Bytes) : Option M :=
  (Message.parseFromString (ProtoMessage.descriptor M) data).map ProtoMessage.members.symm

/-- `MessageLite::SerializeAsString`. -/
def serializeAsString (m : M) : Bytes := (ProtoMessage.members m).serialize

def byteSize (m : M) : ℕ := (ProtoMessage.members m).byteSize

def mergeFrom (m from_ : M) : M :=
  ProtoMessage.members.symm ((ProtoMessage.members m).mergeFrom (ProtoMessage.members from_))

def Encodable (m : M) : Prop := (ProtoMessage.members m).Encodable

theorem parse_iff {data : Bytes} {m : M} : parseFromString M data = some m ↔
    Message.parseFromString (ProtoMessage.descriptor M) data = some (ProtoMessage.members m) := by
  rw [parseFromString, Option.map_eq_some_iff]
  constructor
  · rintro ⟨x, hx, rfl⟩
    rw [hx, Equiv.apply_symm_apply]
  · intro h
    exact ⟨_, h, Equiv.symm_apply_apply _ m⟩

theorem parse_serialize {m : M} (h : Encodable m) :
    parseFromString M (serializeAsString m) = some m :=
  parse_iff.mpr (Message.parseFromString_serialize h)

theorem parse_encodable {data : Bytes} {m : M} (h : parseFromString M data = some m) :
    Encodable m :=
  Message.encodable_of_parse (parse_iff.mp h)

end Generated

/-! ### Requests (NetMessage.pb.cc:2742-3180, 5760-5960, 24840-25170) -/

structure CRequestLogin where
  userName : Option Bytes := none
  userPassword : Option Bytes := none
  userGUID : Option Bytes := none
  deviceToken : Option Bytes := none
  reConnect : Option Bool := none
  unknown : List UnknownField := []

abbrev CRequestLogin.descriptor : Descriptor :=
  ⟨[⟨1, .string⟩, ⟨2, .string⟩, ⟨3, .string⟩, ⟨4, .string⟩, ⟨5, .bool⟩], 127,
    by decide, by decide, by decide⟩

instance : ProtoMessage CRequestLogin where
  descriptor := CRequestLogin.descriptor
  members := {
    toFun m := ⟨.cons m.userName <| .cons m.userPassword <| .cons m.userGUID <|
      .cons m.deviceToken <| .cons m.reConnect .nil, m.unknown⟩
    invFun := fun
      | ⟨.cons a <| .cons b <| .cons c <| .cons d <| .cons e .nil, unknown⟩ =>
        ⟨a, b, c, d, e, unknown⟩
    left_inv := fun _ => rfl
    right_inv := fun
      | ⟨.cons _ <| .cons _ <| .cons _ <| .cons _ <| .cons _ .nil, _⟩ => rfl }

structure CGCSendCreateRole where
  u32VocationID : Option (BitVec 32) := none
  byteGender : Option Bool := none
  nickName : Option Bytes := none
  byteVerify : Option Bool := none
  unknown : List UnknownField := []

abbrev CGCSendCreateRole.descriptor : Descriptor :=
  ⟨[⟨1, .uint32⟩, ⟨2, .bool⟩, ⟨3, .string⟩, ⟨4, .bool⟩], 127, by decide, by decide, by decide⟩

instance : ProtoMessage CGCSendCreateRole where
  descriptor := CGCSendCreateRole.descriptor
  members := {
    toFun m := ⟨.cons m.u32VocationID <| .cons m.byteGender <| .cons m.nickName <|
      .cons m.byteVerify .nil, m.unknown⟩
    invFun := fun
      | ⟨.cons a <| .cons b <| .cons c <| .cons d .nil, unknown⟩ => ⟨a, b, c, d, unknown⟩
    left_inv := fun _ => rfl
    right_inv := fun
      | ⟨.cons _ <| .cons _ <| .cons _ <| .cons _ .nil, _⟩ => rfl }

structure CGCAskSelectRole where
  roleName : Option Bytes := none
  unknown : List UnknownField := []

abbrev CGCAskSelectRole.descriptor : Descriptor :=
  ⟨[⟨1, .string⟩], 127, by decide, by decide, by decide⟩

instance : ProtoMessage CGCAskSelectRole where
  descriptor := CGCAskSelectRole.descriptor
  members := {
    toFun m := ⟨.cons m.roleName .nil, m.unknown⟩
    invFun := fun
      | ⟨.cons a .nil, unknown⟩ => ⟨a, unknown⟩
    left_inv := fun _ => rfl
    right_inv := fun
      | ⟨.cons _ .nil, _⟩ => rfl }

/-! ### Replies (NetMessage.pb.cc:3440-3760, 4090-5130, 7350-7740, 25340-25530) -/

structure CRequestLoginRet where
  userName : Option Bytes := none
  userGUID : Option Bytes := none
  flag : Option (BitVec 32) := none
  unknown : List UnknownField := []

abbrev CRequestLoginRet.descriptor : Descriptor :=
  ⟨[⟨1, .string⟩, ⟨2, .string⟩, ⟨3, .int32⟩], 127, by decide, by decide, by decide⟩

instance : ProtoMessage CRequestLoginRet where
  descriptor := CRequestLoginRet.descriptor
  members := {
    toFun m := ⟨.cons m.userName <| .cons m.userGUID <| .cons m.flag .nil, m.unknown⟩
    invFun := fun
      | ⟨.cons a <| .cons b <| .cons c .nil, unknown⟩ => ⟨a, b, c, unknown⟩
    left_inv := fun _ => rfl
    right_inv := fun
      | ⟨.cons _ <| .cons _ <| .cons _ .nil, _⟩ => rfl }

structure CGCSendCreateRoleRet where
  result : Option (BitVec 32) := none
  unknown : List UnknownField := []

abbrev CGCSendCreateRoleRet.descriptor : Descriptor :=
  ⟨[⟨1, .int32⟩], 127, by decide, by decide, by decide⟩

instance : ProtoMessage CGCSendCreateRoleRet where
  descriptor := CGCSendCreateRoleRet.descriptor
  members := {
    toFun m := ⟨.cons m.result .nil, m.unknown⟩
    invFun := fun
      | ⟨.cons a .nil, unknown⟩ => ⟨a, unknown⟩
    left_inv := fun _ => rfl
    right_inv := fun
      | ⟨.cons _ .nil, _⟩ => rfl }

structure CGSNotifyChangeScene where
  m_un32MapID : Option (BitVec 32) := none
  m_un32SceneID : Option (BitVec 32) := none
  m_un32ClientNO : Option (BitVec 32) := none
  m_fPosX : Option (BitVec 32) := none
  m_fPosY : Option (BitVec 32) := none
  m_fPosZ : Option (BitVec 32) := none
  unknown : List UnknownField := []

abbrev CGSNotifyChangeScene.descriptor : Descriptor :=
  ⟨[⟨1, .uint32⟩, ⟨2, .uint32⟩, ⟨3, .uint32⟩, ⟨4, .float⟩, ⟨5, .float⟩, ⟨6, .float⟩], 127,
    by decide, by decide, by decide⟩

instance : ProtoMessage CGSNotifyChangeScene where
  descriptor := CGSNotifyChangeScene.descriptor
  members := {
    toFun m := ⟨.cons m.m_un32MapID <| .cons m.m_un32SceneID <| .cons m.m_un32ClientNO <|
      .cons m.m_fPosX <| .cons m.m_fPosY <| .cons m.m_fPosZ .nil, m.unknown⟩
    invFun := fun
      | ⟨.cons a <| .cons b <| .cons c <| .cons d <| .cons e <| .cons f .nil, unknown⟩ =>
        ⟨a, b, c, d, e, f, unknown⟩
    left_inv := fun _ => rfl
    right_inv := fun
      | ⟨.cons _ <| .cons _ <| .cons _ <| .cons _ <| .cons _ <| .cons _ .nil, _⟩ => rfl }

structure CGSNotifyRoleBaseInfo where
  m_un32ObjID : Option (BitVec 32) := none
  m_n32RoleNickName : Option Bytes := none
  m_n32CareerID : Option (BitVec 32) := none
  m_bGender : Option Bool := none
  m_un32CoatTypeID : Option (BitVec 32) := none
  m_un32LegGuardId : Option (BitVec 32) := none
  m_un32ShoeId : Option (BitVec 32) := none
  m_un32NecklaceId : Option (BitVec 32) := none
  m_un32RingId : Option (BitVec 32) := none
  m_un32WeaponId : Option (BitVec 32) := none
  m_un32Level : Option (BitVec 32) := none
  m_un32Exp : Option (BitVec 32) := none
  m_un32CurHP : Option (BitVec 32) := none
  m_un32CurMP : Option (BitVec 32) := none
  m_un32CurHPVessel : Option (BitVec 32) := none
  m_un32CurMPVessel : Option (BitVec 32) := none
  m_un32MaxHP : Option (BitVec 32) := none
  m_un32MaxMP : Option (BitVec 32) := none
  m_un32MaxHPVessel : Option (BitVec 32) := none
  m_un32MaxMPVessel : Option (BitVec 32) := none
  m_un32Max_packages : Option (BitVec 32) := none
  wingID : Option (BitVec 32) := none
  unknown : List UnknownField := []

abbrev CGSNotifyRoleBaseInfo.descriptor : Descriptor :=
  ⟨[⟨1, .uint32⟩, ⟨2, .string⟩, ⟨3, .int32⟩, ⟨4, .bool⟩, ⟨5, .uint32⟩, ⟨6, .uint32⟩,
    ⟨7, .uint32⟩, ⟨8, .uint32⟩, ⟨9, .uint32⟩, ⟨10, .uint32⟩, ⟨11, .uint32⟩, ⟨12, .uint32⟩,
    ⟨13, .uint32⟩, ⟨14, .uint32⟩, ⟨15, .uint32⟩, ⟨16, .uint32⟩, ⟨17, .uint32⟩, ⟨18, .uint32⟩,
    ⟨19, .uint32⟩, ⟨20, .uint32⟩, ⟨21, .uint32⟩, ⟨22, .uint32⟩], 16383,
    by decide, by decide, by decide⟩

instance : ProtoMessage CGSNotifyRoleBaseInfo where
  descriptor := CGSNotifyRoleBaseInfo.descriptor
  members := {
    toFun m := ⟨.cons m.m_un32ObjID <| .cons m.m_n32RoleNickName <| .cons m.m_n32CareerID <|
      .cons m.m_bGender <| .cons m.m_un32CoatTypeID <| .cons m.m_un32LegGuardId <|
      .cons m.m_un32ShoeId <| .cons m.m_un32NecklaceId <| .cons m.m_un32RingId <|
      .cons m.m_un32WeaponId <| .cons m.m_un32Level <| .cons m.m_un32Exp <| .cons m.m_un32CurHP <|
      .cons m.m_un32CurMP <| .cons m.m_un32CurHPVessel <| .cons m.m_un32CurMPVessel <|
      .cons m.m_un32MaxHP <| .cons m.m_un32MaxMP <| .cons m.m_un32MaxHPVessel <|
      .cons m.m_un32MaxMPVessel <| .cons m.m_un32Max_packages <| .cons m.wingID .nil, m.unknown⟩
    invFun := fun
      | ⟨.cons a <| .cons b <| .cons c <| .cons d <| .cons e <| .cons f <| .cons g <| .cons h <|
          .cons i <| .cons j <| .cons k <| .cons l <| .cons m <| .cons n <| .cons o <| .cons p <|
          .cons q <| .cons r <| .cons s <| .cons t <| .cons u <| .cons v .nil, unknown⟩ =>
        ⟨a, b, c, d, e, f, g, h, i, j, k, l, m, n, o, p, q, r, s, t, u, v, unknown⟩
    left_inv := fun _ => rfl
    right_inv := fun
      | ⟨.cons _ <| .cons _ <| .cons _ <| .cons _ <| .cons _ <| .cons _ <| .cons _ <| .cons _ <|
          .cons _ <| .cons _ <| .cons _ <| .cons _ <| .cons _ <| .cons _ <| .cons _ <| .cons _ <|
          .cons _ <| .cons _ <| .cons _ <| .cons _ <| .cons _ <| .cons _ .nil, _⟩ => rfl }

end GameRes.Protobuf
