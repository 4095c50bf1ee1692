import GameRes.Library.Runs
import GameRes.NetApp.TCPServer

/-!
# The client and its event loop (NetApp/NetFrame.cpp:388-570)

`uv::TCPClient` keeps one connection: `connect_cb` starts the timer, and
`timer_cb` connects again or serves the queues, according to the status. What the
libuv calls return is passed in. One step of the loop is one callback, or one
call of the application thread.
-/

namespace GameRes.NetApp
open Library

/-- The members of `class TCPClient` (`NetFrame.h:107-145`) that the callbacks use. -/
structure TCPClient where
  unicode : BitVec 32
  status : Status := .none
  sendMessage : List (MessageInfo Unit) := []
  recvMessage : List (MessageInfo Unit) := []
  deriving Repr, DecidableEq

/-- What `timer_cb` asks of libuv: `uv_shutdown`, `uv_tcp_connect`, or `uv_read_start`,
a `uv_write` of the message it popped, and `uv_timer_start`. -/
inductive ClientAction where
  | shutdown
  | connect
  | serve (msg : Option (MessageInfo Unit))
  deriving Repr, DecidableEq

namespace TCPClient

/-! ### The callbacks (NetFrame.cpp:394-490) -/

def closeCb (s : TCPClient) : TCPClient := { s with status := .none }

/-- The chunk `read_cb` makes a message of, a local variable that it drops. -/
def chunk (s : TCPClient) (nread : ℤ) (base : Bytes) : MessageInfo Unit :=
  ⟨s.unicode, BitVec.ofInt 32 nread, some base, ()⟩

/-- `read_cb`: the new state, and whether `uv_close` is called. -/
def readCb (s : TCPClient) (nread : ℤ) (base : Bytes) : TCPClient × Bool :=
  if nread = 0 then (s, false)
  else if nread < 0 then (s, true)
  else
    let _msg := s.chunk nread base
    (s, false)

def connectCb (s : TCPClient) (status : ℤ) : TCPClient :=
  if status ≠ 0 then s
  else if s.status = .none then { s with status := .runing }
  else s

def getSendMessage (s : TCPClient) : Option (MessageInfo Unit) × TCPClient :=
  match s.sendMessage with
  | [] => (none, s)
  | m :: rest => (some m, { s with sendMessage := rest })

def timerCb (s : TCPClient) : TCPClient × ClientAction :=
  if s.status = .close then (s, .shutdown)
  else if s.status = .none then (s, .connect)
  else
    let msg := s.getSendMessage
    (msg.2, .serve msg.1)

/-! ### The application thread (NetFrame.cpp:501-505, 543-558) -/

def close (s : TCPClient) : TCPClient := { s with status := .close }

def getRecvMessage (s : TCPClient) : Option (MessageInfo Unit) × TCPClient :=
  match s.recvMessage with
  | [] => (none, s)
  | m :: rest => (some m, { s with recvMessage := rest })

def pushSendMssage (s : TCPClient) (msg : MessageInfo Unit) : TCPClient :=
  { s with sendMessage := s.sendMessage ++ [msg] }

theorem getSendMessage_eq (s : TCPClient) :
    s.getSendMessage = (s.sendMessage.head?, { s with sendMessage := s.sendMessage.tail }) := by
  obtain ⟨unicode, status, sendMessage, recvMessage⟩ := s
  cases sendMessage <;> rfl

theorem getRecvMessage_eq (s : TCPClient) :
    s.getRecvMessage = (s.recvMessage.head?, { s with recvMessage := s.recvMessage.tail }) := by
  obtain ⟨unicode, status, sendMessage, recvMessage⟩ := s
  cases recvMessage <;> rfl

theorem readCb_same (s : TCPClient) (nread : ℤ) (base : Bytes) : (s.readCb nread base).1 = s := by
  unfold readCb
  split
  next => rfl
  next => split <;> rfl

end TCPClient

/-! ### The loop -/

/-- The client with what libuv holds for it: the outstanding connect requests, whether the
timer is armed, whether the stream is read, whether its close is pending. History:
`closed` says that `Close` was called, `chunks` are the reads with `nread > 0`, and the
other lists the messages that passed each end of the queues. -/
structure ClientLoop where
  client : TCPClient
  connecting : ℕ := 0
  armed : Bool := false
  reading : Bool := false
  closing : Bool := false
  closed : Bool := false
  chunks : List (MessageInfo Unit) := []
  returned : List (MessageInfo Unit) := []
  accepted : List (MessageInfo Unit) := []
  written : List (MessageInfo Unit) := []
  deriving Repr, DecidableEq

inductive ClientEvent where
  | connectCb (status rInit rStart : ℤ)
  | timerCb (rConnect rRead rWrite rStart : ℤ)
  | readCb (nread : ℤ) (base : Bytes)
  | closeCb
  | close
  | getRecv
  | pushSend (msg : MessageInfo Unit)
  deriving Repr, DecidableEq

namespace ClientLoop

/-- `Start` (`NetFrame.cpp:513-536`) up to `uv_run`; `none` when it returns an error. The
result of `uv_tcp_init` is not looked at. -/
def start (unicode : BitVec 32) (rAddr rConnect : ℤ) : Option ClientLoop :=
  if rAddr ≠ 0 then none
  else if rConnect ≠ 0 then none
  else some { client := { unicode := unicode }, connecting := 1 }

def connectCb (w : ClientLoop) (status rInit rStart : ℤ) : ClientLoop :=
  { w with
    client := w.client.connectCb status
    connecting := w.connecting - 1
    armed := if rInit ≠ 0 then w.armed else rStart = 0 }

def timerCb (w : ClientLoop) (rConnect rRead rWrite rStart : ℤ) : ClientLoop :=
  let r := w.client.timerCb
  let w := { w with client := r.1, armed := false }
  match r.2 with
  | .shutdown => w
  | .connect => if rConnect = 0 then { w with connecting := w.connecting + 1 } else w
  | .serve msg =>
    { w with
      reading := w.reading || rRead = 0
      written := w.written ++ if rWrite = 0 then msg.toList else []
      armed := rStart = 0 }

def readCb (w : ClientLoop) (nread : ℤ) (base : Bytes) : ClientLoop :=
  let r := w.client.readCb nread base
  { w with
    client := r.1
    closing := w.closing || r.2
    reading := w.reading && !r.2
    chunks := if 0 < nread then w.chunks ++ [w.client.chunk nread base] else w.chunks }

def closeCb (w : ClientLoop) : ClientLoop := { w with client := w.client.closeCb, closing := false }

def close (w : ClientLoop) : ClientLoop := { w with client := w.client.close, closed := true }

def getRecv (w : ClientLoop) : ClientLoop :=
  let r := w.client.getRecvMessage
  { w with client := r.2, returned := w.returned ++ r.1.toList }

def pushSend (w : ClientLoop) (msg : MessageInfo Unit) : ClientLoop :=
  { w with client := w.client.pushSendMssage msg, accepted := w.accepted ++ [msg] }

/-- libuv runs a callback only for what it holds: a connect request, an armed timer, a
stream that is read and not being closed, a pending close. -/
inductive Step : ClientLoop → ClientEvent → ClientLoop → Prop where
  | connectCb {w : ClientLoop} (status rInit rStart : ℤ) (h : w.connecting ≠ 0) :
      Step w (.connectCb status rInit rStart) (w.connectCb status rInit rStart)
  | timerCb {w : ClientLoop} (rConnect rRead rWrite rStart : ℤ) (h : w.armed = true) :
      Step w (.timerCb rConnect rRead rWrite rStart) (w.timerCb rConnect rRead rWrite rStart)
  | readCb {w : ClientLoop} (nread : ℤ) (base : Bytes) (hread : w.reading = true)
      (hopen : w.closing = false) : Step w (.readCb nread base) (w.readCb nread base)
  | closeCb {w : ClientLoop} (h : w.closing = true) : Step w .closeCb w.closeCb
  | close (w : ClientLoop) : Step w .close w.close
  | getRecv (w : ClientLoop) : Step w .getRecv w.getRecv
  | pushSend (w : ClientLoop) (msg : MessageInfo Unit) : Step w (.pushSend msg) (w.pushSend msg)

/-! ### The callbacks by status -/

theorem timerCb_close {w : ClientLoop} (h : w.client.status = .close)
    (rConnect rRead rWrite rStart : ℤ) :
    w.timerCb rConnect rRead rWrite rStart = { w with armed := false } := by
  simp only [timerCb, TCPClient.timerCb, if_pos h]

theorem timerCb_none {w : ClientLoop} (h : w.client.status = .none)
    (rConnect rRead rWrite rStart : ℤ) :
    w.timerCb rConnect rRead rWrite rStart =
      { w with armed := false, connecting := w.connecting + if rConnect = 0 then 1 else 0 } := by
  have hclose : w.client.status ≠ .close := by simp [h]
  simp only [timerCb, TCPClient.timerCb, if_neg hclose, if_pos h]
  split <;> rfl

theorem timerCb_runing {w : ClientLoop} (h : w.client.status = .runing)
    (rConnect rRead rWrite rStart : ℤ) :
    w.timerCb rConnect rRead rWrite rStart =
      { w with
        client := w.client.getSendMessage.2
        armed := rStart = 0
        reading := w.reading || rRead = 0
        written := w.written ++ if rWrite = 0 then w.client.getSendMessage.1.toList else [] } := by
  have hclose : w.client.status ≠ .close := by simp [h]
  have hnone : w.client.status ≠ .none := by simp [h]
  simp only [timerCb, TCPClient.timerCb, if_neg hclose, if_neg hnone]

theorem start_some {unicode : BitVec 32} {rAddr rConnect : ℤ} {w : ClientLoop}
    (h : start unicode rAddr rConnect = some w) :
    w = { client := { unicode := unicode }, connecting := 1 } := by
  unfold start at h
  split at h
  next => cases h
  next =>
    split at h
    next => cases h
    next => exact (Option.some.inj h).symm

end ClientLoop
end GameRes.NetApp
