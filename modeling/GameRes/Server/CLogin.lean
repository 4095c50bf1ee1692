import GameRes.Protobuf.NetMessage
import GameRes.Server.Framing
import GameRes.Server.Lengths

/-!
# The handlers of the login (Server/CLogin.cpp)

`CLogin` registers a handler for each of three commands. A handler parses its
request and answers with `SendClient`; a request that cannot be parsed is dropped.
-/

namespace GameRes.Server
open Library NetApp
open Protobuf (ProtoMessage parseFromString serializeAsString byteSize Encodable
  CRequestLogin CRequestLoginRet CGCSendCreateRole CGCSendCreateRoleRet CGCAskSelectRole
  CGSNotifyChangeScene CGSNotifyRoleBaseInfo)

/-! ### Commands (NetMessage.proto:7-20, 145-170) -/

namespace CeC2GType
def C2G_Login : BitVec 32 := 2
def C2G_CreateRole : BitVec 32 := 3
def C2G_SelectRole : BitVec 32 := 4
end CeC2GType

namespace CeG2CType
def G2C_LoginRet : BitVec 32 := 1
def G2C_RoleList : BitVec 32 := 2
def G2C_RoleCreateRet : BitVec 32 := 3
def G2C_RoleChangeScene : BitVec 32 := 14
end CeG2CType

open CeC2GType CeG2CType

/-- A call of `SendClient(conn, cmd, ptrMsg)`, with what it serializes. -/
structure SendCall where
  conn : ConnID
  cmd : BitVec 32
  body : Bytes
  deriving Repr, DecidableEq

def sendClient {M : Type} [ProtoMessage M] (conn : ConnID) (cmd : BitVec 32) (msg : M) : SendCall :=
  ⟨conn, cmd, serializeAsString msg⟩

/-- `m_UserList`. -/
abbrev UserList := AList fun _ : ConnID => CGCSendCreateRole

namespace CLogin

inductive Handler where
  | handleLogin
  | handleCreateRole
  | handleSelectRole
  deriving Repr, DecidableEq

/-- `RegisterMessage` (`CLogin.cpp:19-24`). -/
def registerMessage : List (BitVec 32 × Handler) :=
  [(C2G_Login, .handleLogin), (C2G_CreateRole, .handleCreateRole),
    (C2G_SelectRole, .handleSelectRole)]

def loginRet (inData : CRequestLogin) : CRequestLoginRet :=
  { userName := some (inData.userName.getD []) }

def handleLogin (users : UserList) (connection : ConnID) (recvMsg : Bytes) :
    UserList × List SendCall :=
  match parseFromString CRequestLogin recvMsg with
  | none => (users, [])
  | some inData => (users, [sendClient connection G2C_LoginRet (loginRet inData)])

/-- `roleRet` of `HandleCreateRole` (`CLogin.cpp:84-107`). -/
def roleRet (inData : CGCSendCreateRole) : CGSNotifyRoleBaseInfo where
  m_un32ObjID := some 1
  m_n32RoleNickName := some (inData.nickName.getD [])
  m_n32CareerID := some (inData.u32VocationID.getD 0)
  m_bGender := some (inData.byteGender.getD false)
  m_un32CoatTypeID := some 1
  m_un32LegGuardId := some 1
  m_un32ShoeId := some 1
  m_un32NecklaceId := some 1
  m_un32RingId := some 1
  m_un32WeaponId := some 1
  m_un32Level := some 1
  m_un32Exp := some 1
  m_un32CurHP := some 1
  m_un32CurMP := some 1
  m_un32CurHPVessel := some 1
  m_un32CurMPVessel := some 1
  m_un32MaxHP := some 100
  m_un32MaxMP := some 100
  m_un32MaxHPVessel := some 100
  m_un32MaxMPVessel := some 100
  m_un32Max_packages := some 1
  wingID := some 1

def createRet : CGCSendCreateRoleRet := { result := some 0 }

def handleCreateRole (users : UserList) (connection : ConnID) (recvMsg : Bytes) :
    UserList × List SendCall :=
  match parseFromString CGCSendCreateRole recvMsg with
  | none => (users, [])
  | some inData =>
    (users.insert connection inData, [sendClient connection G2C_RoleCreateRet createRet,
      sendClient connection G2C_RoleList (roleRet inData)])

/-- The positions are -2.12, -0.82 and -0.01. -/
def outData : CGSNotifyChangeScene where
  m_un32MapID := some 100000001
  m_un32SceneID := some 1
  m_un32ClientNO := some 19
  m_fPosX := some 0xC007AE14
  m_fPosY := some 0xBF51EB85
  m_fPosZ := some 0xBC23D70A

def handleSelectRole (users : UserList) (connection : ConnID) (recvMsg : Bytes) :
    UserList × List SendCall :=
  match parseFromString CGCAskSelectRole recvMsg with
  | none => (users, [])
  | some _ => (users, [sendClient connection G2C_RoleChangeScene outData])

def Handler.run : Handler → UserList → ConnID → Bytes → UserList × List SendCall
  | .handleLogin => CLogin.handleLogin
  | .handleCreateRole => CLogin.handleCreateRole
  | .handleSelectRole => CLogin.handleSelectRole

/-- Calls of handlers, one after the other. -/
def runCalls (users : UserList) : List (Handler × BitVec 32 × BitVec 32 × Bytes) →
    UserList × List SendCall
  | [] => (users, [])
  | (func, _, conn, msg) :: cs =>
    let out := func.run users conn msg
    let more := runCalls out.1 cs
    (more.1, out.2 ++ more.2)

end CLogin

/-! ### What reaches the handlers -/

/-- `AppManager::RecivedMessage` with the handlers it calls. -/
def receive (d : MessageDispatch CLogin.Handler) (users : UserList) (conn : ConnID)
    (buf : Option Bytes) (len : BitVec 32) :
    Option (MessageDispatch CLogin.Handler × UserList × List SendCall) :=
  (recivedMessage d conn buf len).map fun out => (out.1, CLogin.runCalls users (calls out.2))

/-- A table that was asked for commands but still has the handlers registered first. -/
def Registered (d : MessageDispatch CLogin.Handler) : Prop :=
  ∀ cmd, (d.message.lookup cmd).join = lastRegistered CLogin.registerMessage cmd

theorem registered_registerMessage : Registered (registered CLogin.registerMessage) := by
  intro cmd
  rw [lookup_registered]
  cases lastRegistered CLogin.registerMessage cmd <;> rfl

theorem Registered.dispatch {d : MessageDispatch CLogin.Handler} (h : Registered d)
    (cmd : BitVec 32) (args : BitVec 32 × BitVec 32 × Bytes) :
    Registered (d.dispatchMessageHandle cmd args).2.1 ∧
      calls (d.dispatchMessageHandle cmd args).2.2 =
        (lastRegistered CLogin.registerMessage cmd).toList.map
          fun func => (func, args.1, args.2.1, args.2.2) := by
  have hcmd := h cmd
  unfold MessageDispatch.dispatchMessageHandle
  cases hlookup : d.message.lookup cmd with
  | none =>
    rw [hlookup] at hcmd
    refine ⟨fun cmd' => ?_, by rw [← hcmd]; rfl⟩
    by_cases heq : cmd' = cmd
    · subst heq
      rw [AList.lookup_insert, ← hcmd]
      rfl
    · rw [AList.lookup_insert_ne heq]
      exact h cmd'
  | some f =>
    rw [hlookup] at hcmd
    cases f with
    | none => exact ⟨h, by rw [← hcmd]; rfl⟩
    | some func => exact ⟨h, by rw [← hcmd]; rfl⟩

theorem calls_dispatch (cmd conn : BitVec 32) (msg : Bytes) (es : List (Effect CLogin.Handler)) :
    calls (.dispatch cmd conn msg :: es) = calls es := rfl

/-- What a chunk with this content does. -/
def served (users : UserList) (conn : ConnID) (chunk : Bytes) : UserList × List SendCall :=
  CLogin.runCalls users ((chunkDispatch conn chunk.length chunk).flatMap fun x =>
    (lastRegistered CLogin.registerMessage x.1).toList.map fun func => (func, x))

theorem chunkDispatch_take (conn : ConnID) {len : ℕ} {block : Bytes} (h : len ≤ block.length) :
    chunkDispatch conn (block.take len).length (block.take len) = chunkDispatch conn len block := by
  have hle := Nat.mod_le len (2 ^ 16)
  rw [List.length_take, Nat.min_eq_left h, chunkDispatch, chunkDispatch]
  split_ifs with hshort
  · rfl
  · have h2 : ((block.take len).drop 2).take 2 = (block.drop 2).take 2 := by
      rw [List.drop_take, List.take_take, Nat.min_eq_left (by omega)]
    rw [h2, List.take_take, Nat.min_eq_left hle]

/-- A chunk never makes the logic thread read behind its block, and is served by
what it holds up to its length. -/
theorem receive_eq {d : MessageDispatch CLogin.Handler} (hd : Registered d) (users : UserList)
    (conn : ConnID) {block : Bytes} {len : BitVec 32} (hlen : len.toNat ≤ block.length) :
    ∃ d', Registered d' ∧ receive d users conn (some block) len =
      some (d', served users conn (block.take len.toNat)) := by
  rw [served, chunkDispatch_take conn hlen]
  by_cases hshort : len.toNat % 2 ^ 16 ≤ 4
  · obtain ⟨es, hes, -, hcalls⟩ := recivedMessage_of_short d conn len block hshort
    refine ⟨d, hd, ?_⟩
    rw [receive, hes, Option.map_some, hcalls, chunkDispatch, if_pos hshort]
    rfl
  · have hmod := Nat.mod_le len.toNat (2 ^ 16)
    have hblock : len.toNat % 2 ^ 16 ≤ block.length := by omega
    have hlong := recivedMessage_of_long d conn len (by omega) hblock
    obtain ⟨hd', hcalls⟩ := hd.dispatch ((word16 ((block.drop 2).take 2)).setWidth 32)
      ((word16 ((block.drop 2).take 2)).setWidth 32, conn,
        ((block.take (len.toNat % 2 ^ 16)).drop 4).takeWhile (· ≠ 0))
    refine ⟨_, hd', ?_⟩
    rw [receive, hlong, Option.map_some, calls_dispatch, hcalls, chunkDispatch, if_neg hshort,
      List.flatMap_cons, List.flatMap_nil, List.append_nil]

theorem runCalls_one (users : UserList) (func : CLogin.Handler) (cmd conn : BitVec 32)
    (msg : Bytes) : CLogin.runCalls users [(func, cmd, conn, msg)] = func.run users conn msg := by
  simp only [CLogin.runCalls, List.append_nil]

/-- A whole packet for a registered command. -/
theorem served_packet (users : UserList) (conn : ConnID) {cmd : BitVec 16} {body : Bytes}
    {func : CLogin.Handler}
    (hreg : lastRegistered CLogin.registerMessage (cmd.setWidth 32) = some func)
    (h0 : 0 < body.length) (h : body.length ≤ maxBody) :
    served users conn (packet cmd body) = func.run users conn (body.takeWhile (· ≠ 0)) := by
  obtain ⟨-, hcmd, hbody⟩ := packet_fields cmd h
  have hlt : (packet cmd body).length < 2 ^ 16 := by
    simp only [maxBody] at h
    rw [packet_length]
    omega
  have hlong : ¬(packet cmd body).length ≤ 4 := by
    rw [packet_length]
    omega
  rw [served, chunkDispatch, Nat.mod_eq_of_lt hlt, if_neg hlong, List.take_length, hcmd, hbody,
    List.flatMap_cons, List.flatMap_nil, hreg, List.append_nil, Option.toList_some,
    List.map_singleton, runCalls_one]

/-- The answer to a message does not depend on the users. -/
theorem run_sends (func : CLogin.Handler) (users users' : UserList) (conn : ConnID) (msg : Bytes) :
    (func.run users conn msg).2 = (func.run users' conn msg).2 := by
  cases func with
  | handleLogin =>
    simp only [CLogin.Handler.run, CLogin.handleLogin]
    split <;> rfl
  | handleCreateRole =>
    simp only [CLogin.Handler.run, CLogin.handleCreateRole]
    split <;> rfl
  | handleSelectRole =>
    simp only [CLogin.Handler.run, CLogin.handleSelectRole]
    split <;> rfl

theorem runCalls_sends (users users' : UserList)
    (cs : List (CLogin.Handler × BitVec 32 × BitVec 32 × Bytes)) :
    (CLogin.runCalls users cs).2 = (CLogin.runCalls users' cs).2 := by
  induction cs generalizing users users' with
  | nil => rfl
  | cons c cs ih =>
    obtain ⟨func, cmd, conn, msg⟩ := c
    have hrest := ih (func.run users conn msg).1 (func.run users' conn msg).1
    rw [CLogin.runCalls, CLogin.runCalls, run_sends func users users', hrest]

end GameRes.Server
