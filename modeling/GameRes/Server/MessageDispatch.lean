import GameRes.Server.MessageHead
import Mathlib.Data.List.AList

/-!
# Dispatch of received messages (NetApp/MessageDispatch.hpp, Server/AppManager.cpp:39-61)

`AppManager::RecivedMessage` parses one chunk as one packet and hands command,
connection and body to the handler registered for the command. The body reaches
the handler as a `std::string` built from a `char*`.
-/

namespace GameRes.Server
open Library

/-- `MessageDispatch<PARAMS>`: the `std::function` stored for each command,
`none` the empty one that `operator[]` inserts. -/
structure MessageDispatch (H : Type) where
  message : AList (fun _ : BitVec 32 => Option H) := ∅

/-- What `RecivedMessage` does, in order. -/
inductive Effect (H : Type) where
  | userLoginOut (conn : BitVec 32)
  | dispatch (cmd conn : BitVec 32) (msg : Bytes)
  | call (func : H) (cmd conn : BitVec 32) (msg : Bytes)

variable {H : Type}

/-- `RegisterMessageHandle` (`MessageDispatch.hpp:24-27`). -/
def MessageDispatch.registerMessageHandle (d : MessageDispatch H) (cmd : BitVec 32) (func : H) :
    MessageDispatch H :=
  ⟨d.message.insert cmd (some func)⟩

/-- `DispatchMessageHandle` (`MessageDispatch.hpp:29-39`). -/
def MessageDispatch.dispatchMessageHandle (d : MessageDispatch H) (cmd : BitVec 32)
    (args : BitVec 32 × BitVec 32 × Bytes) : Bool × MessageDispatch H × List (Effect H) :=
  match d.message.lookup cmd with
  | some (some func) => (true, d, [.call func args.1 args.2.1 args.2.2])
  | some none => (false, d, [])
  | none => (false, ⟨d.message.insert cmd none⟩, [])

/-- `AppManager::RecivedMessage` (`AppManager.cpp:39-61`); the length is narrowed
to 16 bits by the call of `Parse`. -/
def recivedMessage (d : MessageDispatch H) (conn : BitVec 32) (buf : Option Bytes)
    (len : BitVec 32) : Option (MessageDispatch H × List (Effect H)) :=
  match buf with
  | none => some (d, [.userLoginOut conn])
  | some msg =>
    if len = 0 then some (d, [.userLoginOut conn])
    else do
      let (ok, head) ← parse {} msg (len.setWidth 16)
      if ok = false then some (d, [])
      else do
        let body ← head.body
        let str ← cString body
        let cmd := head.cmd.setWidth 32
        let out := d.dispatchMessageHandle cmd (cmd, conn, str)
        some (out.2.1, .dispatch cmd conn str :: out.2.2)

def calls : List (Effect H) → List (H × BitVec 32 × BitVec 32 × Bytes)
  | [] => []
  | .call func cmd conn msg :: es => (func, cmd, conn, msg) :: calls es
  | _ :: es => calls es

def dispatches : List (Effect H) → List (BitVec 32 × BitVec 32 × Bytes)
  | [] => []
  | .dispatch cmd conn msg :: es => (cmd, conn, msg) :: dispatches es
  | _ :: es => dispatches es

def registered (regs : List (BitVec 32 × H)) : MessageDispatch H :=
  regs.foldl (fun d r => d.registerMessageHandle r.1 r.2) {}

def lastRegistered (regs : List (BitVec 32 × H)) (cmd : BitVec 32) : Option H :=
  ((regs.filter fun r => r.1 = cmd).getLast?).map Prod.snd

theorem lookup_registered (regs : List (BitVec 32 × H)) (cmd : BitVec 32) :
    (registered regs).message.lookup cmd = (lastRegistered regs cmd).map some := by
  induction regs using List.reverseRecOn with
  | nil => rfl
  | append_singleton regs r ih =>
    have hreg : registered (regs ++ [r]) =
        (registered regs).registerMessageHandle r.1 r.2 := by
      simp only [registered, List.foldl_append, List.foldl_cons, List.foldl_nil]
    rw [hreg, MessageDispatch.registerMessageHandle]
    by_cases hr : r.1 = cmd
    · subst hr
      rw [AList.lookup_insert]
      simp [lastRegistered]
    · rw [AList.lookup_insert_ne (Ne.symm hr), ih]
      simp [lastRegistered, hr]

theorem recivedMessage_of_long (d : MessageDispatch H) (conn len : BitVec 32) {msg : Bytes}
    (hlong : 4 < len.toNat % 2 ^ 16) (hmsg : len.toNat % 2 ^ 16 ≤ msg.length) :
    recivedMessage d conn (some msg) len =
      let cmd := (word16 ((msg.drop 2).take 2)).setWidth 32
      let str := ((msg.take (len.toNat % 2 ^ 16)).drop 4).takeWhile (· ≠ 0)
      let out := d.dispatchMessageHandle cmd (cmd, conn, str)
      some (out.2.1, .dispatch cmd conn str :: out.2.2) := by
  have hlen : (len.setWidth 16).toNat = len.toNat % 2 ^ 16 := BitVec.toNat_setWidth ..
  have hne : len ≠ 0 := by
    intro heq
    subst heq
    simp at hlong
  have hparse := parse_of_long {} (by rw [hlen]; exact hlong) (by rw [hlen]; exact hmsg)
  simp only [recivedMessage, if_neg hne, hparse, hlen, Option.bind_eq_bind, Option.bind_some,
    Bool.true_eq_false, ite_false, cString_append_zero]

theorem recivedMessage_of_short (d : MessageDispatch H) (conn len : BitVec 32) (msg : Bytes)
    (hshort : len.toNat % 2 ^ 16 ≤ 4) :
    ∃ es, recivedMessage d conn (some msg) len = some (d, es) ∧
      dispatches es = [] ∧ calls es = [] := by
  by_cases h0 : len = 0
  · exact ⟨[.userLoginOut conn], by simp only [recivedMessage, if_pos h0], rfl, rfl⟩
  · have hlen : (len.setWidth 16).toNat = len.toNat % 2 ^ 16 := BitVec.toNat_setWidth ..
    refine ⟨[], ?_, rfl, rfl⟩
    simp only [recivedMessage, if_neg h0, parse_of_short {} msg (by rw [hlen]; exact hshort),
      Option.bind_eq_bind, Option.bind_some, ite_true]

/-! ### Delivery of one whole packet -/

/-- One call of the handler last registered for `cmd`, with the body unchanged. -/
def Delivers (regs : List (BitVec 32 × H)) (conn : BitVec 32) (cmd : BitVec 16) (body : Bytes)
    (func : H) : Prop :=
  ∃ wire d es, packed body cmd = some wire ∧
    recivedMessage (registered regs) conn (some wire) (BitVec.ofNat 32 wire.length) =
      some (d, es) ∧
    calls es = [(func, cmd.setWidth 32, conn, body)]

theorem recivedMessage_packet (regs : List (BitVec 32 × H)) (conn : BitVec 32) (cmd : BitVec 16)
    (body : Bytes) (func : H) (hreg : lastRegistered regs (cmd.setWidth 32) = some func)
    (h0 : 0 < body.length) (h : body.length ≤ maxBody) :
    recivedMessage (registered regs) conn (some (packet cmd body))
        (BitVec.ofNat 32 (packet cmd body).length) =
      some (registered regs,
        [.dispatch (cmd.setWidth 32) conn (body.takeWhile (· ≠ 0)),
          .call func (cmd.setWidth 32) conn (body.takeWhile (· ≠ 0))]) := by
  have hlen : (BitVec.ofNat 32 (packet cmd body).length).toNat % 2 ^ 16 = body.length + 4 := by
    simp only [maxBody] at h
    rw [packet_length, BitVec.toNat_ofNat]
    omega
  obtain ⟨-, hcmd, hbody⟩ := packet_fields cmd h
  have hlookup := lookup_registered regs (cmd.setWidth 32)
  rw [hreg, Option.map_some] at hlookup
  rw [recivedMessage_of_long _ _ _ (by rw [hlen]; omega) (by rw [hlen, packet_length]), hlen,
    ← packet_length cmd body, List.take_length, hcmd, hbody]
  simp only [MessageDispatch.dispatchMessageHandle, hlookup]

/-- Delivery is exact when, and only when, the body holds no zero byte. -/
theorem recivedMessage_delivers_iff (regs : List (BitVec 32 × H)) (conn : BitVec 32)
    (cmd : BitVec 16) (body : Bytes) (func : H)
    (hreg : lastRegistered regs (cmd.setWidth 32) = some func)
    (h0 : 1 ≤ body.length) (h : body.length ≤ maxBody) :
    Delivers regs conn cmd body func ↔ (0 : Byte) ∉ body := by
  have hrecv := recivedMessage_packet regs conn cmd body func hreg h0 h
  rw [← takeWhile_ne_zero_eq_self]
  constructor
  · intro hall
    obtain ⟨wire, d, es, hw, hr, hc⟩ := hall
    rw [packed_eq body cmd h] at hw
    cases hw
    rw [hrecv] at hr
    cases hr
    simpa [calls] using hc
  · intro heq
    refine ⟨packet cmd body, _, _, packed_eq body cmd h, hrecv, ?_⟩
    simp only [calls, heq]

theorem recivedMessage_delivers_text :
    Delivers [(2, "HandleLogin")] 1 2 [10, 3, 65, 66, 67] "HandleLogin" :=
  (recivedMessage_delivers_iff [(2, "HandleLogin")] 1 2 [10, 3, 65, 66, 67] "HandleLogin"
    (by decide) (by decide) (by decide)).mpr (by decide)

/-- `CGCSendCreateRole` with `_u32VocationID = 1`, `_byteGender = false`: the
serialized `false` is a zero byte, and the handler gets three of the four bytes. -/
theorem recivedMessage_cuts_createRole :
    ¬∀ (regs : List (BitVec 32 × String)) (conn : BitVec 32) (cmd : BitVec 16) (body : Bytes)
      (func : String), lastRegistered regs (cmd.setWidth 32) = some func →
      1 ≤ body.length → body.length ≤ maxBody → Delivers regs conn cmd body func := by
  intro hall
  have hd := hall [(3, "HandleCreateRole")] 1 3 [8, 1, 16, 0] "HandleCreateRole"
    (by decide) (by decide) (by decide)
  obtain ⟨wire, d, es, hw, hr, hc⟩ := hd
  rw [packed_eq _ _ (by decide)] at hw
  cases hw
  rw [recivedMessage_packet _ 1 3 [8, 1, 16, 0] "HandleCreateRole" (by decide) (by decide)
    (by decide)] at hr
  cases hr
  exact absurd hc (by decide)

end GameRes.Server
