import GameRes.Server.CLogin

/-!
# Requests and their answers (Server/CLogin.cpp, Server/AppManager.cpp:24-96)

A request reaches its handler as a string that ends at its first zero byte. No field
of a message starts with one, so what is left of a request with a zero byte is never
a message, and the request is dropped without an answer. The block `Pack` allocates
for an answer can be too small for one of the answers only.
-/

namespace GameRes.Server
open Library NetApp
open Protobuf (ProtoMessage parseFromString serializeAsString Encodable
  CRequestLogin CGCSendCreateRole CGCAskSelectRole varintSize32 varintSize32SignExtended)
open CeC2GType CeG2CType

/-- What a client asks of the login. -/
inductive Request where
  | login (inData : CRequestLogin)
  | createRole (inData : CGCSendCreateRole)
  | selectRole (inData : CGCAskSelectRole)

namespace Request

def cmd : Request → BitVec 16
  | login _ => 2
  | createRole _ => 3
  | selectRole _ => 4

def body : Request → Bytes
  | login inData => serializeAsString inData
  | createRole inData => serializeAsString inData
  | selectRole inData => serializeAsString inData

def Encodable : Request → Prop
  | login inData => Protobuf.Encodable inData
  | createRole inData => Protobuf.Encodable inData
  | selectRole inData => Protobuf.Encodable inData

/-- What the request is for, as the handlers have it. -/
def answer (users : UserList) (conn : ConnID) : Request → UserList × List SendCall
  | login inData => (users, [sendClient conn G2C_LoginRet (CLogin.loginRet inData)])
  | createRole inData =>
    (users.insert conn inData, [sendClient conn G2C_RoleCreateRet CLogin.createRet,
      sendClient conn G2C_RoleList (CLogin.roleRet inData)])
  | selectRole _ => (users, [sendClient conn G2C_RoleChangeScene CLogin.outData])

end Request

/-! ### Answered or dropped -/

theorem parse_cut {M : Type} [ProtoMessage M] {m : M} (h : Encodable m) :
    parseFromString M ((serializeAsString m).takeWhile (· ≠ 0)) =
      if (0 : Byte) ∈ serializeAsString m then none else some m := by
  have hcut := Protobuf.Message.parseFromString_takeWhile h
  rw [parseFromString, serializeAsString, hcut]
  split_ifs
  · rfl
  · rw [Option.map_some, Equiv.symm_apply_apply]

theorem served_request (users : UserList) (conn : ConnID) {r : Request} (h : r.Encodable)
    (hmax : r.body.length ≤ maxBody) :
    served users conn (packet r.cmd r.body) =
      if r.body = [] ∨ (0 : Byte) ∈ r.body then (users, []) else r.answer users conn := by
  by_cases hnil : r.body = []
  · rw [if_pos (Or.inl hnil), hnil, served, chunkDispatch, packet_length, if_pos (by decide)]
    rfl
  · have hpos : 0 < r.body.length := List.length_pos_iff.mpr hnil
    simp only [hnil, false_or]
    cases r with
    | login inData =>
      have hparse := parse_cut (show Protobuf.Encodable inData from h)
      have hreg : lastRegistered CLogin.registerMessage ((Request.cmd (.login inData)).setWidth 32) =
          some .handleLogin := rfl
      rw [served_packet users conn hreg hpos hmax, CLogin.Handler.run,
        CLogin.handleLogin, Request.body, hparse]
      split_ifs <;> rfl
    | createRole inData =>
      have hparse := parse_cut (show Protobuf.Encodable inData from h)
      have hreg : lastRegistered CLogin.registerMessage ((Request.cmd (.createRole inData)).setWidth 32) =
          some .handleCreateRole := rfl
      rw [served_packet users conn hreg hpos hmax, CLogin.Handler.run,
        CLogin.handleCreateRole, Request.body, hparse]
      split_ifs <;> rfl
    | selectRole inData =>
      have hparse := parse_cut (show Protobuf.Encodable inData from h)
      have hreg : lastRegistered CLogin.registerMessage ((Request.cmd (.selectRole inData)).setWidth 32) =
          some .handleSelectRole := rfl
      rw [served_packet users conn hreg hpos hmax, CLogin.Handler.run,
        CLogin.handleSelectRole, Request.body, hparse]
      split_ifs <;> rfl

/-- A request that arrives as one chunk is answered as it was meant or dropped, and it
is dropped exactly when it sets no field or holds a zero byte. -/
theorem request_answered_or_dropped {d : MessageDispatch CLogin.Handler} (hd : Registered d)
    (users : UserList) (conn : ConnID) (r : Request) (h : r.Encodable)
    (hmax : r.body.length ≤ maxBody) (rest : Bytes) :
    ∃ d', Registered d' ∧ receive d users conn (some (packet r.cmd r.body ++ rest))
        (BitVec.ofNat 32 (packet r.cmd r.body).length) =
      some (d', if r.body = [] ∨ (0 : Byte) ∈ r.body then (users, []) else r.answer users conn) := by
  have hlen : (BitVec.ofNat 32 (packet r.cmd r.body).length).toNat =
      (packet r.cmd r.body).length := by
    simp only [maxBody] at hmax
    rw [packet_length, BitVec.toNat_ofNat]
    omega
  have hblock : (BitVec.ofNat 32 (packet r.cmd r.body).length).toNat ≤
      (packet r.cmd r.body ++ rest).length := by
    rw [hlen, List.length_append]
    exact Nat.le_add_right _ _
  obtain ⟨d', hd', heq⟩ := receive_eq hd users conn hblock
  refine ⟨d', hd', ?_⟩
  rw [heq, hlen, List.take_left, served_request users conn h hmax]

theorem request_answered_or_dropped_login :
    ∃ d', Registered d' ∧ receive (registered CLogin.registerMessage) ∅ 7
        (some (packet 2 [0x0A, 0x01, 0x61] ++ [])) 7 =
      some (d', ∅, [⟨7, 1, [0x0A, 0x01, 0x61]⟩]) :=
  request_answered_or_dropped registered_registerMessage ∅ 7 (.login { userName := some [0x61] })
    (@Protobuf.parse_encodable CRequestLogin _ [0x0A, 0x01, 0x61] _ rfl) (by decide) []

/-! ### Roles that cannot be created -/

theorem createRole_zero_iff {inData : CGCSendCreateRole} (h : Encodable inData)
    (hplain : inData.unknown = []) :
    (0 : Byte) ∈ serializeAsString inData ↔
      inData.u32VocationID = some 0 ∨ inData.byteGender = some false ∨
        (∃ name, inData.nickName = some name ∧ (name = [] ∨ (0 : Byte) ∈ name)) ∨
        inData.byteVerify = some false := by
  have hfields : serializeAsString inData = (ProtoMessage.members inData).fields.write := by
    rw [serializeAsString, Protobuf.Message.serialize,
      show (ProtoMessage.members inData).unknown = [] from hplain,
      Protobuf.serializeUnknownFieldsToArray, List.append_nil]
  have hzero := Protobuf.Fields.zero_mem_write
    (fun f hf => Protobuf.Descriptor.tag_ne_zero (d := CGCSendCreateRole.descriptor) hf) h.fields
  rw [hfields, hzero]
  have hone : ∀ {α : Type} (x : Option α) (a : α), (∃ v, x = some v ∧ v = a) ↔ x = some a := by
    intro α x a
    constructor
    · rintro ⟨v, hx, rfl⟩
      exact hx
    · exact fun hx => ⟨a, hx, rfl⟩
  rw [← hone inData.u32VocationID, ← hone inData.byteGender, ← hone inData.byteVerify]
  exact Iff.of_eq (by
    simp only [ProtoMessage.members, Equiv.coe_fn_mk, Protobuf.Fields.HasZero,
      Protobuf.FieldType.HasZero, or_false])

/-- A role is created exactly by the requests that set a field, and set none to a
default: no vocation zero, no gender or verify flag `false`, no empty name. -/
theorem createRole_created_iff (users : UserList) (conn : ConnID) (inData : CGCSendCreateRole)
    (h : Encodable inData) (hplain : inData.unknown = [])
    (hmax : (serializeAsString inData).length ≤ maxBody) :
    (served users conn (packet 3 (serializeAsString inData))).1.lookup conn = some inData ∧
        (served users conn (packet 3 (serializeAsString inData))).2.length = 2 ↔
      serializeAsString inData ≠ [] ∧ inData.u32VocationID ≠ some 0 ∧
        inData.byteGender ≠ some false ∧
        (∀ name, inData.nickName = some name → name ≠ [] ∧ (0 : Byte) ∉ name) ∧
        inData.byteVerify ≠ some false := by
  have hserved := served_request users conn (r := .createRole inData) h hmax
  have hzero := createRole_zero_iff h hplain
  rw [Request.body, Request.cmd] at hserved
  have hmeans : ((0 : Byte) ∉ serializeAsString inData) ↔ inData.u32VocationID ≠ some 0 ∧
      inData.byteGender ≠ some false ∧
      (∀ name, inData.nickName = some name → name ≠ [] ∧ (0 : Byte) ∉ name) ∧
      inData.byteVerify ≠ some false := by
    rw [hzero]
    simp only [not_or, not_exists, not_and, ne_eq]
  rw [hserved, ← hmeans, ← not_or]
  by_cases hdrop : serializeAsString inData = [] ∨ (0 : Byte) ∈ serializeAsString inData
  · rw [if_pos hdrop]
    exact iff_of_false (fun hboth => absurd hboth.2 (by simp)) (not_not.mpr hdrop)
  · rw [if_neg hdrop]
    exact iff_of_true ⟨AList.lookup_insert _, rfl⟩ hdrop

theorem createRole_created_one :
    (served ∅ 7 (packet 3 (serializeAsString
      ({ u32VocationID := some 1 } : CGCSendCreateRole)))).1.lookup 7 =
        some { u32VocationID := some 1 } ∧
      (served ∅ 7 (packet 3 (serializeAsString
        ({ u32VocationID := some 1 } : CGCSendCreateRole)))).2.length = 2 :=
  (createRole_created_iff ∅ 7 { u32VocationID := some 1 }
    (@Protobuf.parse_encodable CGCSendCreateRole _ [0x08, 0x01] _ rfl) rfl (by decide)).mpr
    ⟨by decide, by decide, by decide, nofun, by decide⟩

/-! ### Answers that overrun their block -/

/-- `Pack` in `SendClient`. -/
def SendCall.pack (c : SendCall) : Option (Bytes × MessageHead) :=
  Server.pack {} c.body (BitVec.ofNat 16 c.body.length) (c.cmd.setWidth 16)

theorem SendCall.pack_isSome (c : SendCall) :
    c.pack.isSome ↔ c.body.length % 2 ^ 16 ≤ maxBody := by
  have hmod : (BitVec.ofNat 16 c.body.length).toNat = c.body.length % 2 ^ 16 := BitVec.toNat_ofNat ..
  rw [SendCall.pack, pack_isSome_iff _ _ (by rw [hmod]; exact Nat.mod_le ..), hmod]

/-- The length of the answer that describes a role. -/
def roleRetLength (inData : CGCSendCreateRole) : ℕ :=
  49 + varintSize32 (BitVec.ofNat 32 (inData.nickName.getD []).length) +
    (inData.nickName.getD []).length + varintSize32SignExtended (inData.u32VocationID.getD 0)

theorem roleRet_length (inData : CGCSendCreateRole) :
    (serializeAsString (CLogin.roleRet inData)).length = roleRetLength inData := by
  have hsize := Protobuf.Message.byteSize_eq (ProtoMessage.members (CLogin.roleRet inData))
  rw [serializeAsString, ← hsize, roleRetLength]
  simp only [Protobuf.Message.byteSize, ProtoMessage.members, Equiv.coe_fn_mk, CLogin.roleRet,
    Protobuf.Fields.size, Protobuf.FieldType.size, Protobuf.computeUnknownFieldsSize,
    show varintSize32 1 = 1 from rfl, show varintSize32 100 = 1 from rfl]
  norm_num
  omega

theorem loginRet_length {msg : Bytes} {inData : CRequestLogin}
    (h : parseFromString CRequestLogin msg = some inData) :
    (serializeAsString (CLogin.loginRet inData)).length ≤ max 2 msg.length := by
  have hwithin := Protobuf.Message.strings_within (Protobuf.parse_iff.mp h)
  have hsize := Protobuf.Message.byteSize_eq (ProtoMessage.members (CLogin.loginRet inData))
  rw [serializeAsString, ← hsize]
  have hname := hwithin.1
  cases hn : inData.userName with
  | none =>
    simp only [Protobuf.Message.byteSize, ProtoMessage.members, Equiv.coe_fn_mk, CLogin.loginRet, hn]
    exact le_max_left 2 _
  | some name =>
    have hle := hname name hn
    simp only [Protobuf.Message.StringsWithin] at hle
    simp only [Protobuf.Message.byteSize, ProtoMessage.members, Equiv.coe_fn_mk, CLogin.loginRet, hn,
      Protobuf.Fields.size, Protobuf.computeUnknownFieldsSize, Option.getD_some]
    exact le_max_of_le_right hle

theorem run_packs_iff (func : CLogin.Handler) (users : UserList) (conn : ConnID) {msg : Bytes}
    (hmsg : msg.length ≤ maxBody) :
    (∀ c ∈ (func.run users conn msg).2, c.pack.isSome) ↔
      ∀ inData, func = .handleCreateRole → parseFromString CGCSendCreateRole msg = some inData →
        roleRetLength inData % 2 ^ 16 ≤ maxBody := by
  cases func with
  | handleLogin =>
    refine iff_of_true ?_ fun _ heq => absurd heq (by decide)
    simp only [CLogin.Handler.run, CLogin.handleLogin]
    split
    · exact fun c hc => absurd hc List.not_mem_nil
    · next inData hparse =>
      intro c hc
      have hlen := loginRet_length hparse
      have hle := Nat.mod_le (serializeAsString (CLogin.loginRet inData)).length (2 ^ 16)
      simp only [maxBody] at hmsg ⊢
      rw [List.mem_singleton.mp hc, SendCall.pack_isSome]
      simp only [sendClient, maxBody]
      omega
  | handleSelectRole =>
    refine iff_of_true ?_ fun _ heq => absurd heq (by decide)
    simp only [CLogin.Handler.run, CLogin.handleSelectRole]
    split
    · exact fun c hc => absurd hc List.not_mem_nil
    · intro c hc
      rw [List.mem_singleton.mp hc, SendCall.pack_isSome]
      show (serializeAsString CLogin.outData).length % 2 ^ 16 ≤ maxBody
      decide
  | handleCreateRole =>
    simp only [CLogin.Handler.run, CLogin.handleCreateRole]
    cases hparse : parseFromString CGCSendCreateRole msg with
    | none => exact iff_of_true (fun c hc => absurd hc List.not_mem_nil) fun _ _ heq => by cases heq
    | some inData =>
      have hret : (sendClient conn G2C_RoleCreateRet CLogin.createRet).pack.isSome := by
        rw [SendCall.pack_isSome]
        show (serializeAsString CLogin.createRet).length % 2 ^ 16 ≤ maxBody
        decide
      have hrole : (sendClient conn G2C_RoleList (CLogin.roleRet inData)).pack.isSome ↔
          roleRetLength inData % 2 ^ 16 ≤ maxBody := by
        rw [SendCall.pack_isSome, sendClient, roleRet_length]
      rw [List.forall_mem_cons, List.forall_mem_singleton, hrole]
      constructor
      · rintro ⟨-, hle⟩ inData' - heq
        obtain rfl := Option.some.inj heq
        exact hle
      · exact fun hall => ⟨hret, hall inData trivial rfl⟩

theorem chunkDispatch_length {conn : ConnID} {chunk : Bytes} {x : BitVec 32 × BitVec 32 × Bytes}
    (h : x ∈ chunkDispatch conn chunk.length chunk) :
    chunkDispatch conn chunk.length chunk = [x] ∧ x.2.1 = conn ∧ x.2.2.length ≤ maxBody := by
  unfold chunkDispatch at h ⊢
  split_ifs at h ⊢ with hshort
  · exact absurd h List.not_mem_nil
  · rw [List.mem_singleton.mp h]
    refine ⟨rfl, rfl, ?_⟩
    have htw := (List.takeWhile_prefix (fun b : Byte => decide (b ≠ 0))
      (l := (chunk.take (chunk.length % 2 ^ 16)).drop 4)).length_le
    have hmod := Nat.mod_lt chunk.length (show 0 < 2 ^ 16 by norm_num)
    rw [List.length_drop, List.length_take] at htw
    simp only [maxBody]
    omega

theorem lastRegistered_login (cmd : BitVec 32) :
    lastRegistered CLogin.registerMessage cmd =
      if cmd = C2G_Login then some .handleLogin
      else if cmd = C2G_CreateRole then some .handleCreateRole
      else if cmd = C2G_SelectRole then some .handleSelectRole
      else none := by
  by_cases h2 : cmd = C2G_Login
  · rw [if_pos h2, h2]
    rfl
  · by_cases h3 : cmd = C2G_CreateRole
    · rw [if_neg h2, if_pos h3, h3]
      rfl
    · by_cases h4 : cmd = C2G_SelectRole
      · rw [if_neg h2, if_neg h3, if_pos h4, h4]
        rfl
      · rw [if_neg h2, if_neg h3, if_neg h4, lastRegistered, CLogin.registerMessage]
        simp [Ne.symm h2, Ne.symm h3, Ne.symm h4]

theorem handleCreateRole_iff {cmd : BitVec 32} {func : CLogin.Handler}
    (h : lastRegistered CLogin.registerMessage cmd = some func) :
    func = .handleCreateRole ↔ C2G_CreateRole = cmd := by
  have hreg := lastRegistered_login cmd
  rw [h] at hreg
  split_ifs at hreg with h2 h3 h4
  · rw [Option.some.inj hreg, h2]
    decide
  · rw [Option.some.inj hreg, h3]
    decide
  · rw [Option.some.inj hreg, h4]
    decide

/-- The answers to a chunk fit into their blocks unless it creates a role whose
description leaves no room for its header. -/
theorem answers_fit_iff (users : UserList) (conn : ConnID) (chunk : Bytes) :
    (∀ c ∈ (served users conn chunk).2, c.pack.isSome) ↔
      ∀ msg inData, (C2G_CreateRole, conn, msg) ∈ chunkDispatch conn chunk.length chunk →
        parseFromString CGCSendCreateRole msg = some inData →
        roleRetLength inData % 2 ^ 16 ≤ maxBody := by
  by_cases hnone : chunkDispatch conn chunk.length chunk = []
  · rw [served, hnone, List.flatMap_nil]
    exact iff_of_true (fun c hc => absurd hc List.not_mem_nil)
      fun msg _ hmem => absurd hmem List.not_mem_nil
  · obtain ⟨⟨cmd, conn', msg⟩, hmem⟩ := List.exists_mem_of_ne_nil _ hnone
    obtain ⟨hone, rfl, hlen⟩ := chunkDispatch_length hmem
    rw [served, hone, List.flatMap_cons, List.flatMap_nil, List.append_nil]
    simp only [List.mem_singleton, Prod.mk.injEq]
    cases hfunc : lastRegistered CLogin.registerMessage cmd with
    | none =>
      refine iff_of_true (fun c hc => absurd hc List.not_mem_nil) ?_
      rintro msg' inData ⟨rfl, -⟩
      exact absurd hfunc (by decide)
    | some func =>
      have hcreate := handleCreateRole_iff hfunc
      rw [Option.toList_some, List.map_singleton, runCalls_one, run_packs_iff _ _ _ hlen]
      constructor
      · rintro hall msg' inData ⟨hcmd, -, rfl⟩ hparse
        exact hall inData (hcreate.mpr hcmd) hparse
      · exact fun hall inData hf hparse => hall msg inData ⟨hcreate.mp hf, trivial, rfl⟩ hparse

end GameRes.Server
