import GameRes.Library.Runs
import GameRes.NetApp.TCPServer
import GameRes.Server.MessageHead
import Mathlib.Logic.Function.Basic

/-!
# The running server (NetApp/NetFrame.cpp:33-386, Server/AppManager.cpp:72-96)

One step is one callback of the network thread or one queue operation of the
logic thread. libuv and the heap are in the state as far as the callbacks depend
on them: which streams are allocated, and what was already reported or requested
on each. Accepted connections are numbered in order of acceptance.
-/

namespace GameRes.Server
open Library NetApp

/-- A stream allocated by `on_connection`: the number of its connection, and
whether an end was read, a shutdown is requested, a close is requested. -/
structure Handle where
  serial : ℕ
  ended : Bool := false
  shutting : Bool := false
  closing : Bool := false
  deriving Repr, DecidableEq

/-- A message of the two queues, with the connection whose bytes it goes back to. -/
abbrev Message := MessageInfo (Option ℕ)

/-- A buffer handed to `uv_write`, with what its stream was at that moment. -/
structure Write where
  stream : Ptr
  handle : Option Handle
  msg : Message
  data : Bytes
  deriving Repr, DecidableEq

/-- The state between callbacks. `given` lists the ids by connection number,
`reads` what libuv delivered, `popped` what left `m_RecvMessage`; `handling` are
the chunks the logic thread may still answer. -/
structure World where
  srv : TCPServer (Option ℕ) := {}
  heap : Ptr → Option Handle := fun _ => none
  given : List ConnID := []
  reads : List (ℕ × Option Bytes) := []
  popped : List Message := []
  handling : List Message := []
  writes : List Write := []
  timer : Bool := true

inductive Event where
  | accept (stream : Ptr)
  | acceptFailed (status : ℤ) (stream : Ptr) (rInit rAccept rRead : ℤ)
  | readData (stream : Ptr) (chunk rest : Bytes)
  | readNothing (stream : Ptr)
  | readEnd (stream : Ptr) (nread : ℤ) (order : List ConnID) (ret : ℤ)
  | afterShutdown (stream : Ptr)
  | onClose (stream : Ptr)
  | timer (ret : ℤ)
  | pop
  | reply (m : Message) (data : Bytes) (len : BitVec 32)
  | handled (m : Message)
  | push (conn : ConnID) (buf : Option Bytes) (len : BitVec 32)
  | sendClient (conn : ConnID) (cmd : BitVec 32) (body : Bytes)
  | close

namespace World

/-! ### The callbacks, with the stream they are called for (NetFrame.cpp:33-230) -/

def accept (w : World) (stream : Ptr) : World :=
  { w with
    srv := w.srv.onConnection 0 stream 0 0 0
    heap := Function.update w.heap stream (some { serial := w.given.length })
    given := w.given ++ [w.srv.getConnectionID.1] }

def readData (w : World) (stream : Ptr) (h : Handle) (chunk rest : Bytes) : World :=
  { w with
    srv := (w.srv.afterRead stream chunk.length (chunk ++ rest) [] (some h.serial)).1
    reads := w.reads ++ [(h.serial, some chunk)] }

/-- `after_read` with an error code; `ret` is what `uv_shutdown` returns. -/
def readEnd (w : World) (stream : Ptr) (h : Handle) (nread : ℤ) (order : List ConnID) (ret : ℤ) :
    World :=
  let r := w.srv.afterRead stream nread [] order (some h.serial)
  { w with
    srv := r.1
    heap := Function.update w.heap stream
      (some { h with ended := true, shutting := h.shutting || (r.2 && ret = 0) })
    reads := w.reads ++ [(h.serial, none)] }

/-- `after_shutdown` (`NetFrame.cpp:33-37`). -/
def afterShutdown (w : World) (stream : Ptr) (h : Handle) : World :=
  { w with heap := Function.update w.heap stream (some { h with closing := true }) }

/-- `on_close` (`NetFrame.cpp:112-115`): the stream is freed, the tables are not touched. -/
def onClose (w : World) (stream : Ptr) : World :=
  { w with heap := Function.update w.heap stream none }

def shutdown (w : World) (stream : Ptr) (ret : ℤ) : World :=
  if ret = 0 then
    { w with
      heap := Function.update w.heap stream
        ((w.heap stream).map fun h => { h with shutting := true }) }
  else w

def act (w : World) (ret : ℤ) : Option Message → TimerAction → World
  | some m, .write stream data =>
    { w with writes := w.writes ++ [⟨stream, w.heap stream, m, data⟩] }
  | some _, .shutdown stream => w.shutdown stream ret
  | _, _ => w

/-- `timer_cb`; `ret` is what `uv_shutdown` returns. -/
def tick (w : World) (ret : ℤ) : World :=
  let r := w.srv.timerCb
  { w with srv := r.1, timer := r.2.2.2 }.act ret r.2.1 r.2.2.1

/-! ### The logic thread -/

def pop (w : World) : World :=
  match w.srv.getRecvMessage with
  | (none, _) => w
  | (some m, srv) =>
    -- An end of stream is taken like a chunk, and there is nothing to answer.
    { w with
      srv := srv
      popped := w.popped ++ [m]
      handling := if m.buf.isSome then w.handling ++ [m] else w.handling }

def reply (w : World) (m : Message) (data : Bytes) (len : BitVec 32) : World :=
  { w with srv := w.srv.pushSendMessage m.conn (some data) len m.origin }

def push (w : World) (conn : ConnID) (buf : Option Bytes) (len : BitVec 32) : World :=
  { w with srv := w.srv.pushSendMessage conn buf len none }

/-- `AppManager::SendClient` (`AppManager.cpp:72-96`) on a serialized body. -/
def sendClient (w : World) (conn : ConnID) (cmd : BitVec 32) (body : Bytes) : Option World :=
  (pack {} body (BitVec.ofNat 16 body.length) (cmd.setWidth 16)).map fun r =>
    w.push conn (some r.1) (r.2.len.setWidth 32)

end World

/-- A stream on which libuv may still deliver a read. -/
structure Reading (w : World) (stream : Ptr) (h : Handle) : Prop where
  heap : w.heap stream = some h
  ended : h.ended = false
  closing : h.closing = false

/-- The steps of the two threads. What libuv and the allocator promise is in the
premises: `malloc` returns no block in use, nothing is read after an end or a
close, `after_shutdown` follows a shutdown and `on_close` a close. -/
inductive Step : World → Event → World → Prop where
  | accept {w stream} (hnull : stream ≠ 0) (hfree : w.heap stream = none) :
      Step w (.accept stream) (w.accept stream)
  | acceptFailed {w status stream rInit rAccept rRead}
      (hfail : ¬(status = 0 ∧ stream ≠ 0 ∧ rInit = 0 ∧ rAccept = 0 ∧ rRead = 0)) :
      Step w (.acceptFailed status stream rInit rAccept rRead)
        { w with srv := w.srv.onConnection status stream rInit rAccept rRead }
  | readData {w stream h chunk rest} (hread : Reading w stream h) (hne : chunk ≠ [])
      (hlen : chunk.length < 2 ^ 31) :
      Step w (.readData stream chunk rest) (w.readData stream h chunk rest)
  | readNothing {w stream h} (hread : Reading w stream h) :
      Step w (.readNothing stream)
        { w with srv := (w.srv.afterRead stream 0 [] [] (some h.serial)).1 }
  | readEnd {w stream h nread order ret} (hread : Reading w stream h) (hneg : nread < 0)
      (horder : order.Perm w.srv.onlineID.keys) :
      Step w (.readEnd stream nread order ret) (w.readEnd stream h nread order ret)
  | afterShutdown {w stream h} (hheap : w.heap stream = some h) (hshut : h.shutting = true) :
      Step w (.afterShutdown stream) (w.afterShutdown stream h)
  | onClose {w stream h} (hheap : w.heap stream = some h) (hclosing : h.closing = true) :
      Step w (.onClose stream) (w.onClose stream)
  | timer {w ret} (htimer : w.timer = true) : Step w (.timer ret) (w.tick ret)
  | pop {w} : Step w .pop w.pop
  | reply {w m data len} (hm : m ∈ w.handling) : Step w (.reply m data len) (w.reply m data len)
  | handled {w m} : Step w (.handled m) { w with handling := w.handling.erase m }
  | push {w conn buf len} : Step w (.push conn buf len) (w.push conn buf len)
  | sendClient {w u conn cmd body} (hsend : w.sendClient conn cmd body = some u) :
      Step w (.sendClient conn cmd body) u
  | close {w} : Step w .close { w with srv := w.srv.setStatus .close }

/-! ### One tick of the timer -/

theorem tick_nil {w : World} (h : w.srv.sendMessage = []) (ret : ℤ) :
    w.tick ret = { w with timer := w.srv.status ≠ .close } := by
  simp only [World.tick, TCPServer.timerCb, TCPServer.getSendMessage, h, World.act]

theorem tick_cons {w : World} {m : Message} {rest : List Message}
    (h : w.srv.sendMessage = m :: rest) (ret : ℤ) :
    w.tick ret = ({ w with
      srv := { w.srv with sendMessage := rest }
      timer := w.srv.status ≠ .close } : World).act ret (some m) (w.srv.timerAction m) := by
  simp only [World.tick, TCPServer.timerCb, TCPServer.getSendMessage, h]

theorem timerAction_shutdown {γ : Type} {s : TCPServer γ} {m : MessageInfo γ} {p : Ptr}
    (h : s.timerAction m = .shutdown p) : m.buf = none := by
  unfold TCPServer.timerAction at h
  split at h
  · exact absurd h (by simp)
  · split at h
    · assumption
    · split at h <;> exact absurd h (by simp)

theorem timerAction_write {γ : Type} {s : TCPServer γ} {m : MessageInfo γ} {p : Ptr} {data : Bytes}
    (h : s.timerAction m = .write p data) : s.onlineID.lookup m.conn = some p := by
  unfold TCPServer.timerAction at h
  split at h
  · exact absurd h (by simp)
  · next q hq =>
    split at h
    · exact absurd h (by simp)
    · split at h
      · exact absurd h (by simp)
      · rw [hq, (TimerAction.write.inj h).1]

/-- What the next tick writes. -/
def World.tickWrites (w : World) : List Write :=
  match w.srv.sendMessage with
  | [] => []
  | m :: _ =>
    match w.srv.timerAction m with
    | .write stream data => [⟨stream, w.heap stream, m, data⟩]
    | _ => []

theorem tick_writes (w : World) (ret : ℤ) : (w.tick ret).writes = w.writes ++ w.tickWrites := by
  unfold World.tickWrites
  cases hq : w.srv.sendMessage with
  | nil =>
    rw [tick_nil hq]
    exact (List.append_nil _).symm
  | cons m rest =>
    rw [tick_cons hq]
    cases haction : w.srv.timerAction m with
    | write p data => simp only [World.act, haction]
    | shutdown p =>
      simp only [World.act, World.shutdown, haction]
      split <;> exact (List.append_nil _).symm
    | idle => simp only [World.act, haction, List.append_nil]
    | empty => simp only [World.act, haction, List.append_nil]

theorem mem_tickWrites {w : World} {r : Write} (hr : r ∈ w.tickWrites) :
    (∃ rest, w.srv.sendMessage = r.msg :: rest) ∧
      w.srv.timerAction r.msg = .write r.stream r.data ∧ r.handle = w.heap r.stream := by
  unfold World.tickWrites at hr
  split at hr
  · exact absurd hr List.not_mem_nil
  · next m rest hq =>
    split at hr
    · next p data haction =>
      rw [List.mem_singleton.mp hr]
      exact ⟨⟨rest, hq⟩, haction, rfl⟩
    · exact absurd hr List.not_mem_nil

theorem tick_queues (w : World) (ret : ℤ) :
    (w.tick ret).srv.recvMessage = w.srv.recvMessage ∧ (w.tick ret).handling = w.handling ∧
      (w.tick ret).srv.sendMessage = w.srv.sendMessage.tail := by
  cases hq : w.srv.sendMessage with
  | nil =>
    rw [tick_nil hq]
    exact ⟨rfl, rfl, by rw [hq]; rfl⟩
  | cons m rest =>
    rw [tick_cons hq]
    cases w.srv.timerAction m with
    | shutdown p =>
      simp only [World.act, World.shutdown]
      split <;> exact ⟨rfl, rfl, rfl⟩
    | idle => exact ⟨rfl, rfl, rfl⟩
    | empty => exact ⟨rfl, rfl, rfl⟩
    | write p data => exact ⟨rfl, rfl, rfl⟩

theorem pop_cons {w : World} {m : Message} {rest : List Message} (h : w.srv.recvMessage = m :: rest) :
    w.pop.srv.recvMessage = rest ∧ w.pop.popped = w.popped ++ [m] ∧
      w.pop.handling = if m.buf.isSome then w.handling ++ [m] else w.handling := by
  simp only [World.pop, TCPServer.getRecvMessage, h, and_self]

/-! ### What a step sends -/

def Event.sent : Event → List Message
  | .reply m data len => [⟨m.conn, len, some data, m.origin⟩]
  | .push conn buf len => [⟨conn, len, buf, none⟩]
  | .sendClient conn cmd body =>
    ((pack {} body (BitVec.ofNat 16 body.length) (cmd.setWidth 16)).map fun r =>
      ⟨conn, r.2.len.setWidth 32, some r.1, none⟩).toList
  | _ => []

theorem afterRead_sendMessage {γ : Type} (s : TCPServer γ) (p : Ptr) (nread : ℤ) (base : Bytes)
    (order : List ConnID) (o : γ) :
    (s.afterRead p nread base order o).1.sendMessage = s.sendMessage := by
  simp only [TCPServer.afterRead, TCPServer.releaseConnection, TCPServer.pushRecvMessage]
  split_ifs <;> repeat' split
  all_goals rfl

theorem accept_srv (w : World) {p : Ptr} (hnull : p ≠ 0) :
    (w.accept p).srv = w.srv.getConnectionID.2.addConnection w.srv.getConnectionID.1 p :=
  TCPServer.onConnection_ok _ hnull

theorem accept_queues (w : World) {p : Ptr} (hnull : p ≠ 0) :
    (w.accept p).srv.recvMessage = w.srv.recvMessage ∧
      (w.accept p).srv.sendMessage = w.srv.sendMessage := by
  rw [accept_srv w hnull]
  simp only [TCPServer.addConnection, TCPServer.getConnectionID]
  split <;> exact ⟨rfl, rfl⟩

theorem step_sent {w u : World} {e : Event} (hstep : Step w e u) :
    (∃ ret, e = .timer ret ∧ u = w.tick ret) ∨
      (u.writes = w.writes ∧ u.srv.sendMessage = w.srv.sendMessage ++ e.sent) := by
  have hnil : w.srv.sendMessage = w.srv.sendMessage ++ [] := (List.append_nil _).symm
  cases hstep with
  | accept hnull hfree => exact Or.inr ⟨rfl, (accept_queues w hnull).2.trans hnil⟩
  | acceptFailed hfail =>
    refine Or.inr ⟨rfl, ?_⟩
    rw [TCPServer.onConnection_fail _ hfail]
    exact hnil
  | readData hread hne hlen => exact Or.inr ⟨rfl, (afterRead_sendMessage ..).trans hnil⟩
  | readEnd hread hneg horder => exact Or.inr ⟨rfl, (afterRead_sendMessage ..).trans hnil⟩
  | timer htimer => exact Or.inl ⟨_, rfl, rfl⟩
  | pop =>
    right
    unfold World.pop
    split
    · exact ⟨rfl, hnil⟩
    · next m srv hget =>
      have htables := TCPServer.getRecvMessage_tables w.srv
      rw [hget] at htables
      exact ⟨rfl, (congrArg TCPServer.sendMessage htables).trans hnil⟩
  | reply hm => exact Or.inr ⟨rfl, rfl⟩
  | push => exact Or.inr ⟨rfl, rfl⟩
  | sendClient hsend =>
    obtain ⟨r, hr, rfl⟩ := Option.map_eq_some_iff.mp hsend
    refine Or.inr ⟨rfl, ?_⟩
    simp only [Event.sent, hr, Option.map_some, Option.toList_some]
    rfl
  | _ => exact Or.inr ⟨rfl, hnil⟩

/-! ### Conditions on steps -/

/-- No server-initiated disconnect is queued. -/
def NoDisconnect (_ : World) (e : Event) : Prop := ∀ conn len, e ≠ .push conn none len

/-- Every close frees a stream on which an end was read. -/
def ClosesEnded (w : World) (e : Event) : Prop :=
  ∀ stream h, e = .onClose stream → w.heap stream = some h → h.ended = true

end GameRes.Server
