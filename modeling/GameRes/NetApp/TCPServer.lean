import GameRes.Library.Block
import Mathlib.Data.List.AList
import Mathlib.Data.List.Perm.Basic

/-!
# Connection tables and queues of the server (NetApp/NetFrame.cpp:39-386)

`uv::TCPServer` keeps the online connections in two maps, hands out connection
ids from a free list and a counter, and exchanges messages with the logic thread
through two queues. The callbacks are functions of the server state; what libuv
and the allocator decide (addresses, return codes, the iteration order of an
`unordered_map`) is passed in. Pointers are those of the Win32 build.
-/

namespace GameRes.NetApp
open Library

/-- A pointer of the 32-bit build; zero is the null pointer. -/
abbrev Ptr := BitVec 32

abbrev ConnID := BitVec 32

inductive Status where
  | none
  | runing
  | close
  deriving Repr, DecidableEq

/-- `struct MessageInfo` (`NetFrame.h:24-45`); `buf` is the block behind the
`char*`. `origin` is a history variable that no function of the server reads. -/
structure MessageInfo (γ : Type) where
  conn : ConnID
  len : BitVec 32
  buf : Option Bytes
  origin : γ
  deriving Repr, DecidableEq

/-- The members of `class TCPServer` (`NetFrame.h:86-104`) that the callbacks
use; queues and the free list have their front at the head. -/
structure TCPServer (γ : Type) where
  onlineStream : AList (fun _ : Ptr => ConnID) := ∅
  onlineID : AList (fun _ : ConnID => Ptr) := ∅
  connectionID : List ConnID := []
  sendMessage : List (MessageInfo γ) := []
  recvMessage : List (MessageInfo γ) := []
  maxConnectionID : ConnID := 0
  status : Status := .none

/-- `UV_EOF` and `UV_ECONNRESET` of the Windows build (`uv-errno.h`). -/
def uvEof : ℤ := -4095
def uvEconnreset : ℤ := -4077

namespace TCPServer
variable {γ : Type}

/-! ### The tables and the queues (NetFrame.cpp:303-386) -/

def getConnectionID (s : TCPServer γ) : ConnID × TCPServer γ :=
  match s.connectionID with
  | [] => (s.maxConnectionID + 1, { s with maxConnectionID := s.maxConnectionID + 1 })
  | id :: rest => (id, { s with connectionID := rest })

def addConnection (s : TCPServer γ) (conn : ConnID) (handle : Ptr) : TCPServer γ :=
  { s with
    onlineStream := s.onlineStream.insert handle conn
    onlineID := s.onlineID.insert conn handle }

/-- `ReleaseConnection` (`NetFrame.cpp:328-348`). `order` is the order in which
the first loop meets the keys of `m_OnlineID`; it stops at the first id of `handle`. -/
def releaseConnection (s : TCPServer γ) (order : List ConnID) (handle : Ptr) : TCPServer γ :=
  match order.find? fun id => s.onlineID.lookup id = some handle with
  | some id =>
    { s with
      connectionID := s.connectionID ++ [id]
      onlineID := s.onlineID.erase id
      onlineStream := s.onlineStream.erase handle }
  | none => { s with onlineStream := s.onlineStream.erase handle }

/-- `PushRecvMessage` (`NetFrame.cpp:350-356`); `operator[]` inserts id zero for a
stream that is not in the table. -/
def pushRecvMessage (s : TCPServer γ) (handle : Ptr) (buf : Option Bytes) (len : BitVec 32)
    (origin : γ) : TCPServer γ :=
  match s.onlineStream.lookup handle with
  | some conn => { s with recvMessage := s.recvMessage ++ [⟨conn, len, buf, origin⟩] }
  | none =>
    { s with
      onlineStream := s.onlineStream.insert handle 0
      recvMessage := s.recvMessage ++ [⟨0, len, buf, origin⟩] }

def getRecvMessage (s : TCPServer γ) : Option (MessageInfo γ) × TCPServer γ :=
  match s.recvMessage with
  | [] => (none, s)
  | m :: rest => (some m, { s with recvMessage := rest })

def pushSendMessage (s : TCPServer γ) (conn : ConnID) (buf : Option Bytes) (len : BitVec 32)
    (origin : γ) : TCPServer γ :=
  { s with sendMessage := s.sendMessage ++ [⟨conn, len, buf, origin⟩] }

def getSendMessage (s : TCPServer γ) : Option (MessageInfo γ) × TCPServer γ :=
  match s.sendMessage with
  | [] => (none, s)
  | m :: rest => (some m, { s with sendMessage := rest })

/-! ### The callbacks of libuv -/

/-- `on_connection` (`NetFrame.cpp:123-165`) with the results of `malloc`,
`uv_tcp_init`, `uv_accept` and `uv_read_start`. -/
def onConnection (s : TCPServer γ) (status : ℤ) (stream : Ptr) (rInit rAccept rRead : ℤ) :
    TCPServer γ :=
  if status ≠ 0 then s
  else if stream = 0 then s
  else if rInit ≠ 0 then s
  else if rAccept ≠ 0 then s
  else if rRead ≠ 0 then s
  else
    let conn := s.getConnectionID
    conn.2.addConnection conn.1 stream

/-- `after_read` (`NetFrame.cpp:39-76`): the new state, and whether `uv_shutdown`
is called on the stream. -/
def afterRead (s : TCPServer γ) (handle : Ptr) (nread : ℤ) (base : Bytes)
    (order : List ConnID) (origin : γ) : TCPServer γ × Bool :=
  if nread < 0 then
    ((s.pushRecvMessage handle none 0 origin).releaseConnection order handle,
      nread ≠ uvEof ∧ nread ≠ uvEconnreset)
  else if nread = 0 then (s, false)
  else (s.pushRecvMessage handle (some base) (BitVec.ofInt 32 nread) origin, false)

end TCPServer

inductive TimerAction where
  | idle
  | shutdown (stream : Ptr)
  | empty
  | write (stream : Ptr) (data : Bytes)
  deriving Repr, DecidableEq

namespace TCPServer
variable {γ : Type}

/-- The branches of `timer_cb` on the message it popped (`NetFrame.cpp:188-221`).
`strcmp(msg->buf, "")` compares the first byte with zero. -/
def timerAction (s : TCPServer γ) (m : MessageInfo γ) : TimerAction :=
  match s.onlineID.lookup m.conn with
  | none => .idle
  | some stream =>
    match m.buf with
    | none => .shutdown stream
    | some block =>
      if block.head? = some 0 then .empty
      else .write stream (block.take m.len.toNat)

/-- `timer_cb` (`NetFrame.cpp:183-230`): the popped message, what is done with it
and whether the timer is started again. -/
def timerCb (s : TCPServer γ) : TCPServer γ × Option (MessageInfo γ) × TimerAction × Bool :=
  let msg := s.getSendMessage
  let action := match msg.1 with
    | none => .idle
    | some m => s.timerAction m
  (msg.2, msg.1, action, s.status ≠ .close)

def setStatus (s : TCPServer γ) (status : Status) : TCPServer γ := { s with status := status }

/-! ### What each operation leaves alone -/

theorem getSendMessage_tables (s : TCPServer γ) :
    s.getSendMessage.2 = { s with sendMessage := s.sendMessage.tail } := by
  obtain ⟨onlineStream, onlineID, connectionID, sendMessage, recvMessage, maxID, status⟩ := s
  cases sendMessage <;> rfl

theorem getRecvMessage_tables (s : TCPServer γ) :
    s.getRecvMessage.2 = { s with recvMessage := s.recvMessage.tail } := by
  obtain ⟨onlineStream, onlineID, connectionID, sendMessage, recvMessage, maxID, status⟩ := s
  cases recvMessage <;> rfl

theorem onConnection_ok (s : TCPServer γ) {stream : Ptr} (h : stream ≠ 0) :
    s.onConnection 0 stream 0 0 0 =
      s.getConnectionID.2.addConnection s.getConnectionID.1 stream := by
  have h0 : ¬(stream = 0) := h
  simp only [onConnection, h0, ne_eq, not_true_eq_false, ite_false]

theorem onConnection_fail (s : TCPServer γ) {status rInit rAccept rRead : ℤ} {stream : Ptr}
    (h : ¬(status = 0 ∧ stream ≠ 0 ∧ rInit = 0 ∧ rAccept = 0 ∧ rRead = 0)) :
    s.onConnection status stream rInit rAccept rRead = s := by
  unfold onConnection
  split_ifs <;> simp_all

theorem pushRecvMessage_online (s : TCPServer γ) {handle : Ptr} {conn : ConnID}
    (h : s.onlineStream.lookup handle = some conn) (buf : Option Bytes) (len : BitVec 32) (o : γ) :
    s.pushRecvMessage handle buf len o =
      { s with recvMessage := s.recvMessage ++ [⟨conn, len, buf, o⟩] } := by
  simp only [pushRecvMessage, h]

end TCPServer
end GameRes.NetApp
