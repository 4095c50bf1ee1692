import GameRes.NetApp.ClientMessages
import GameRes.Server.Answers

/-!
# A client and the server (NetApp/NetFrame.cpp, Server/Server.cpp)

The loop of `uv::TCPClient` and the game server, which may have other clients, with one
TCP connection between them: two streams of bytes, each read in pieces of any size. What
`uv_write` accepted is in the stream. On the server it accepts every packet here, whose
bytes are then in the stream; `timer_cb` ignores its result (NetFrame.cpp:212). The
client's side lasts until it reads the end of its stream.
-/

namespace GameRes.Server
open Library NetApp

/-- What `uv_write` is given for a message. -/
def bytesOf (m : MessageInfo Unit) : Bytes := (m.buf.getD []).take m.len.toNat

/-- The pieces read on connection number `n`. -/
def chunksOn (n : ℕ) (w : World) : List Bytes := (delivered n w).filterMap id

/-- `up` are the bytes the client wrote that the server has not read, `down` those the
server wrote that the client has not read. -/
structure Conversation where
  server : GameServer := {}
  client : ClientLoop
  up : Bytes := []
  down : Bytes := []

inductive ConversationEvent where
  | server (e : GameEvent)
  | client (e : ClientEvent)

/-- `e` reads `chunk` on connection number `n`. -/
def ReadsOn (n : ℕ) (g : GameServer) (chunk : Bytes) (e : GameEvent) : Prop :=
  ∃ p h rest, e = .net (.readData p chunk rest) ∧ g.world.heap p = some h ∧ h.serial = n

namespace Conversation

/-- What was written to connection number `n` since the server was `g`. -/
def sentDown (n : ℕ) (g u : GameServer) : Bytes :=
  ((writtenOn n u.world).drop (writtenOn n g.world).length).flatten

/-- What the client wrote since it was `w`. -/
def sentUp (w u : ClientLoop) : Bytes := (u.written.drop w.written.length).flatMap bytesOf

/-- Connection number `n` of the server is the client's. -/
inductive Step (n : ℕ) : Conversation → ConversationEvent → Conversation → Prop
  | readUp {s : Conversation} {e : GameEvent} {u : GameServer} {chunk up : Bytes}
      (hread : ReadsOn n s.server chunk e) (hup : s.up = chunk ++ up)
      (hstep : GameServer.Step s.server e u) : Step n s (.server e) { s with server := u, up := up }
  | server {s : Conversation} {e : GameEvent} {u : GameServer}
      (hother : ∀ chunk, ¬ReadsOn n s.server chunk e) (hstep : GameServer.Step s.server e u) :
      Step n s (.server e) { s with server := u, down := s.down ++ sentDown n s.server u }
  | readDown {s : Conversation} {w : ClientLoop} {chunk down : Bytes} (hdown : s.down = chunk ++ down)
      (hlen : chunk.length < 2 ^ 31)
      (hstep : ClientLoop.Step s.client (.readCb chunk.length chunk) w) :
      Step n s (.client (.readCb chunk.length chunk)) { s with client := w, down := down }
  | client {s : Conversation} {e : ClientEvent} {w : ClientLoop}
      (hother : ∀ nread base, e = .readCb nread base → nread = 0)
      (hstep : ClientLoop.Step s.client e w) :
      Step n s (.client e) { s with client := w, up := s.up ++ sentUp s.client w }

/-- No `uv_write` of the client fails, and the server reads the messages it was written one
by one. -/
def Whole (n : ℕ) (s : Conversation) : ConversationEvent → Prop
  | .server e => ∀ chunk, ReadsOn n s.server chunk e →
    (s.client.written.map bytesOf)[(chunksOn n s.server.world).length]? = some chunk
  | .client (.timerCb _ _ rWrite _) =>
    s.client.client.status = .runing → s.client.client.sendMessage ≠ [] → rWrite = 0
  | .client _ => True

/-- The messages the client's application pushed that the server has not read. -/
def unread (n : ℕ) (s : Conversation) : List (MessageInfo Unit) :=
  s.client.accepted.drop (chunksOn n s.server.world).length

/-- The bytes that answer a message. -/
def answerTo (k : ConnID) (m : MessageInfo Unit) : Bytes := (replies k (some (bytesOf m))).flatten

end Conversation

/-! ### What a step of the server reads and writes -/

theorem step_reads {w u : World} {e : Event} (hstep : Step w e u) :
    (∃ p h chunk rest, e = .readData p chunk rest ∧ w.heap p = some h ∧
        u.reads = w.reads ++ [(h.serial, some chunk)]) ∨
      (∀ p chunk rest, e ≠ .readData p chunk rest) ∧
        ((∃ j, u.reads = w.reads ++ [(j, none)]) ∨ u.reads = w.reads) := by
  cases hstep with
  | readData hread hne hlen => exact Or.inl ⟨_, _, _, _, rfl, hread.heap, rfl⟩
  | readEnd hread hneg horder =>
    refine Or.inr ⟨?_, Or.inl ⟨_, rfl⟩⟩
    intro p chunk rest heq
    cases heq
  | timer htimer =>
    refine Or.inr ⟨?_, Or.inr (tick_popped w _).2⟩
    intro p chunk rest heq
    cases heq
  | pop =>
    refine Or.inr ⟨?_, Or.inr (still_pop w).reads⟩
    intro p chunk rest heq
    cases heq
  | sendClient hsend =>
    obtain ⟨r, -, rfl⟩ := Option.map_eq_some_iff.mp hsend
    refine Or.inr ⟨?_, Or.inr rfl⟩
    intro p chunk rest heq
    cases heq
  | _ =>
    refine Or.inr ⟨?_, Or.inr rfl⟩
    intro p chunk rest heq
    cases heq

section
variable {g u : GameServer} {e : GameEvent} {n : ℕ} {chunk : Bytes}

theorem chunksOn_snoc {w w' : World} {j : ℕ} {x : Option Bytes} (h : w'.reads = w.reads ++ [(j, x)]) :
    chunksOn n w' = chunksOn n w ++ if j = n then x.toList else [] := by
  rw [chunksOn, chunksOn, delivered, delivered, h, List.filter_append, List.map_append,
    List.filterMap_append]
  congr 1
  by_cases hj : j = n
  · rw [List.filter_cons_of_pos (by simpa using hj), if_pos hj]
    cases x <;> rfl
  · rw [List.filter_cons_of_neg (by simpa using hj), if_neg hj]
    rfl

theorem chunksOn_same {w w' : World} (h : w'.reads = w.reads) : chunksOn n w' = chunksOn n w := by
  rw [chunksOn, delivered, h, ← delivered, ← chunksOn]

theorem event_readData {p : Ptr} {chunk rest : Bytes} (h : e.event g = .readData p chunk rest) :
    e = .net (.readData p chunk rest) := by
  cases e with
  | net e =>
    rw [show GameEvent.event g (.net e) = e from rfl] at h
    rw [h]
  | poll => cases h
  | send =>
    rw [GameEvent.event] at h
    split at h
    · split at h <;> cases h
    · cases h
  | done =>
    rw [GameEvent.event] at h
    split at h <;> cases h

theorem chunksOn_read (hg : Serving g) (hread : ReadsOn n g chunk e) (hstep : GameServer.Step g e u) :
    chunksOn n u.world = chunksOn n g.world ++ [chunk] := by
  obtain ⟨p, h, rest, rfl, hheap, hserial⟩ := hread
  rcases step_reads (step_world hg hstep).1 with ⟨q, h', chunk', rest', heq, hheap', hreads⟩ | ⟨hno, -⟩
  · obtain ⟨rfl, rfl, -⟩ := Event.readData.inj heq
    rw [hheap] at hheap'
    obtain rfl := Option.some.inj hheap'
    rw [chunksOn_snoc hreads, if_pos hserial]
    rfl
  · exact absurd rfl (hno p chunk rest)

theorem chunksOn_other (hg : Serving g) (hother : ∀ chunk, ¬ReadsOn n g chunk e)
    (hstep : GameServer.Step g e u) : chunksOn n u.world = chunksOn n g.world := by
  rcases step_reads (step_world hg hstep).1 with ⟨p, h, chunk, rest, heq, hheap, hreads⟩ |
    ⟨-, ⟨j, hreads⟩ | hreads⟩
  · have hserial : h.serial ≠ n := fun hserial =>
      hother chunk ⟨p, h, rest, event_readData heq, hheap, hserial⟩
    rw [chunksOn_snoc hreads, if_neg hserial, List.append_nil]
  · rw [chunksOn_snoc hreads]
    split <;> exact List.append_nil _
  · exact chunksOn_same hreads

theorem writtenOn_read (hg : Serving g) (hread : ReadsOn n g chunk e) (hstep : GameServer.Step g e u) :
    writtenOn n u.world = writtenOn n g.world := by
  obtain ⟨p, h, rest, rfl, -⟩ := hread
  rcases step_sent (step_world hg hstep).1 with ⟨ret, heq, -⟩ | ⟨hwrites, -⟩
  · cases heq
  · rw [writtenOn, hwrites, writtenOn]

theorem writtenOn_append (hg : Serving g) (hstep : GameServer.Step g e u) :
    (writtenOn n g.world).flatten ++ Conversation.sentDown n g u = (writtenOn n u.world).flatten := by
  have hprefix : writtenOn n g.world <+: writtenOn n u.world := by
    rcases step_sent (step_world hg hstep).1 with ⟨ret, -, hu⟩ | ⟨hwrites, -⟩
    · rw [hu, writtenOn, writtenOn, tick_writes, List.filter_append, List.map_append]
      exact List.prefix_append _ _
    · rw [writtenOn, writtenOn, hwrites]
  rw [Conversation.sentDown, ← List.flatten_append, List.prefix_iff_eq_append.mp hprefix]

end

/-! ### What a step of the client reads and writes -/

/-- What a step of the client other than a read leaves as it was. -/
structure Kept (w u : ClientLoop) : Prop where
  chunks : u.chunks = w.chunks
  written : w.written <+: u.written
  silent : w.returned = [] ∧ w.client.recvMessage = [] → u.returned = [] ∧ u.client.recvMessage = []

section
variable {w u : ClientLoop} {e : ClientEvent}

theorem kept_timerCb (w : ClientLoop) (rConnect rRead rWrite rStart : ℤ) :
    Kept w (w.timerCb rConnect rRead rWrite rStart) := by
  cases hs : w.client.status with
  | close =>
    rw [ClientLoop.timerCb_close hs]
    exact ⟨rfl, List.prefix_refl _, id⟩
  | none =>
    rw [ClientLoop.timerCb_none hs]
    exact ⟨rfl, List.prefix_refl _, id⟩
  | runing =>
    rw [ClientLoop.timerCb_runing hs, TCPClient.getSendMessage_eq]
    exact ⟨rfl, List.prefix_append _ _, id⟩

theorem sends_step (hwrites : ∀ rConnect rRead rWrite rStart, e = .timerCb rConnect rRead rWrite rStart →
      w.client.status = .runing → w.client.sendMessage ≠ [] → rWrite = 0)
    (hstep : ClientLoop.Step w e u) (h : w.written ++ w.client.sendMessage = w.accepted) :
    u.written ++ u.client.sendMessage = u.accepted := by
  cases hstep with
  | connectCb status rInit rStart _ =>
    obtain ⟨-, hsend⟩ := ClientLoop.connectCb_queues w.client status
    rw [ClientLoop.connectCb, hsend]
    exact h
  | timerCb rConnect rRead rWrite rStart _ =>
    cases hs : w.client.status with
    | close =>
      rw [ClientLoop.timerCb_close hs]
      exact h
    | none =>
      rw [ClientLoop.timerCb_none hs]
      exact h
    | runing =>
      have haccepted : (w.timerCb rConnect rRead rWrite rStart).accepted = w.accepted := by
        rw [ClientLoop.timerCb_runing hs]
      rw [haccepted]
      exact (ClientLoop.timerCb_outgoing hs h ..).mpr (hwrites _ _ _ _ rfl hs)
  | readCb nread base _ _ =>
    rw [ClientLoop.readCb, TCPClient.readCb_same]
    exact h
  | closeCb _ => exact h
  | close => exact h
  | getRecv =>
    rw [ClientLoop.getRecv, TCPClient.getRecvMessage_eq]
    exact h
  | pushSend msg =>
    rw [ClientLoop.pushSend, TCPClient.pushSendMssage, ← List.append_assoc, h]

theorem kept_step (hother : ∀ nread base, e = .readCb nread base → nread = 0)
    (hstep : ClientLoop.Step w e u) : Kept w u := by
  cases hstep with
  | connectCb status rInit rStart _ =>
    obtain ⟨hrecv, -⟩ := ClientLoop.connectCb_queues w.client status
    refine ⟨rfl, List.prefix_refl _, ?_⟩
    intro h
    exact ⟨h.1, hrecv.trans h.2⟩
  | timerCb rConnect rRead rWrite rStart _ => exact kept_timerCb w rConnect rRead rWrite rStart
  | readCb nread base _ _ =>
    obtain rfl := hother nread base rfl
    exact ⟨rfl, List.prefix_refl _, id⟩
  | closeCb _ => exact ⟨rfl, List.prefix_refl _, id⟩
  | close => exact ⟨rfl, List.prefix_refl _, id⟩
  | getRecv =>
    refine ⟨rfl, List.prefix_refl _, ?_⟩
    intro h
    rw [ClientLoop.getRecv, TCPClient.getRecvMessage_eq, h.1, h.2]
    exact ⟨rfl, rfl⟩
  | pushSend msg => exact ⟨rfl, List.prefix_refl _, id⟩

theorem Kept.append (h : Kept w u) :
    w.written.flatMap bytesOf ++ Conversation.sentUp w u = u.written.flatMap bytesOf := by
  rw [Conversation.sentUp, ← List.flatMap_append, List.prefix_iff_eq_append.mp h.written]

/-- A read makes a message of the bytes, and drops it. -/
theorem readCb_chunk {chunk : Bytes} (hlen : chunk.length < 2 ^ 31) :
    (w.readCb chunk.length chunk).written = w.written ∧
      (w.readCb chunk.length chunk).accepted = w.accepted ∧
      (w.readCb chunk.length chunk).client = w.client ∧
      (w.readCb chunk.length chunk).returned = w.returned ∧
      (w.readCb chunk.length chunk).chunks.flatMap bytesOf = w.chunks.flatMap bytesOf ++ chunk := by
  refine ⟨rfl, rfl, TCPClient.readCb_same _ _ _, rfl, ?_⟩
  have hnat : (BitVec.ofInt 32 (chunk.length : ℤ)).toNat = chunk.length := by
    rw [BitVec.toNat_ofInt]
    omega
  rw [ClientLoop.readCb]
  split
  next =>
    rw [List.flatMap_append, List.flatMap_singleton, TCPClient.chunk, bytesOf, hnat]
    rw [Option.getD_some, List.take_length]
  next hpos =>
    have hnil : chunk = [] := List.eq_nil_of_length_eq_zero (by omega)
    rw [hnil, List.append_nil]

end

/-! ### The two streams -/

namespace Conversation

/-- Each side has read a first part of what the other wrote, and the rest is under way; the
client's application got nothing. -/
structure Connected (n : ℕ) (s : Conversation) : Prop where
  serving : Serving s.server
  up : (chunksOn n s.server.world).flatten ++ s.up = s.client.written.flatMap bytesOf
  down : s.client.chunks.flatMap bytesOf ++ s.down = (writtenOn n s.server.world).flatten
  silent : s.client.returned = [] ∧ s.client.client.recvMessage = []

theorem connected_init {n : ℕ} {unicode : BitVec 32} {rAddr rConnect : ℤ} {w : ClientLoop}
    (hstart : ClientLoop.start unicode rAddr rConnect = some w) : Connected n { client := w } := by
  rw [ClientLoop.start_some hstart]
  exact ⟨serving_init, rfl, rfl, rfl, rfl⟩

theorem connected_step {n : ℕ} {s t : Conversation} {e : ConversationEvent} (h : Connected n s)
    (hstep : Step n s e t) : Connected n t := by
  cases hstep with
  | @readUp e u chunk up hread hup hstep =>
    refine ⟨serving_step h.serving hstep, ?_, ?_, h.silent⟩
    · rw [chunksOn_read h.serving hread hstep, List.flatten_append, List.flatten_singleton,
        List.append_assoc, ← hup]
      exact h.up
    · rw [writtenOn_read h.serving hread hstep]
      exact h.down
  | server hother hstep =>
    refine ⟨serving_step h.serving hstep, ?_, ?_, h.silent⟩
    · rw [chunksOn_other h.serving hother hstep]
      exact h.up
    · rw [← writtenOn_append h.serving hstep, ← h.down, List.append_assoc]
  | @readDown w chunk down hdown hlen hstep =>
    cases hstep with
    | readCb _ _ hread hopen =>
      obtain ⟨hwritten, -, hclient, hreturned, hchunks⟩ := readCb_chunk (w := s.client) hlen
      refine ⟨h.serving, ?_, ?_, ?_⟩
      · rw [hwritten]
        exact h.up
      · rw [hchunks, List.append_assoc, ← hdown]
        exact h.down
      · rw [hclient, hreturned]
        exact h.silent
  | client hother hstep =>
    have hkept := kept_step hother hstep
    refine ⟨h.serving, ?_, ?_, hkept.silent h.silent⟩
    · rw [← List.append_assoc, h.up, hkept.append]
    · rw [hkept.chunks]
      exact h.down

/-! ### One message at a time -/

/-- The server read the first of the client's messages, each in one piece, and what the
application pushed is written or queued. -/
structure Framed (n : ℕ) (s : Conversation) : Prop where
  chunks : chunksOn n s.server.world <+: s.client.written.map bytesOf
  sends : s.client.written ++ s.client.client.sendMessage = s.client.accepted

theorem prefix_snoc_of_getElem? {α : Type} {xs ys : List α} {x : α} (h : xs <+: ys)
    (hx : ys[xs.length]? = some x) : xs ++ [x] <+: ys := by
  obtain ⟨rest, rfl⟩ := h
  rw [List.getElem?_append_right (Nat.le_refl _), Nat.sub_self, ← List.head?_eq_getElem?] at hx
  obtain ⟨rest', rfl⟩ := List.head?_eq_some_iff.mp hx
  exact ⟨rest', by rw [List.append_assoc, List.singleton_append]⟩

theorem framed_step {n : ℕ} {s t : Conversation} {e : ConversationEvent} (hs : Connected n s)
    (h : Framed n s) (hwhole : Whole n s e) (hstep : Step n s e t) : Framed n t := by
  cases hstep with
  | readUp hread hup hstep =>
    refine ⟨?_, h.sends⟩
    rw [chunksOn_read hs.serving hread hstep]
    exact prefix_snoc_of_getElem? h.chunks (hwhole _ hread)
  | server hother hstep =>
    refine ⟨?_, h.sends⟩
    rw [chunksOn_other hs.serving hother hstep]
    exact h.chunks
  | readDown hdown hlen hstep =>
    cases hstep with
    | readCb _ _ hread hopen =>
      obtain ⟨hwritten, haccepted, hclient, -⟩ := readCb_chunk (w := s.client) hlen
      refine ⟨?_, ?_⟩
      · rw [hwritten]
        exact h.chunks
      · rw [hwritten, haccepted, hclient]
        exact h.sends
  | client hother hstep =>
    refine ⟨h.chunks.trans ((kept_step hother hstep).written.map bytesOf), ?_⟩
    apply sends_step _ hstep h.sends
    rintro rConnect rRead rWrite rStart rfl
    exact hwhole

variable {n : ℕ} {unicode : BitVec 32} {rAddr rConnect : ℤ} {w : ClientLoop}
  {tr : List (Conversation × ConversationEvent)} {s : Conversation}

/-- The server's part of a conversation is a run of the server. -/
theorem server_run (hrun : Run (Step n) { client := w } tr s) :
    ∃ tr', Run GameServer.Step {} tr' s.server := by
  have hsim : ∀ (t : Conversation) (e : ConversationEvent) (u : Conversation) (g : GameServer),
      t.server = g → True → Step n t e u →
        u.server = g ∨ ∃ e' g', GameServer.Step g e' g' ∧ True ∧ u.server = g' := by
    rintro t e u g rfl - hstep
    cases hstep with
    | readUp hread hup hserver => exact Or.inr ⟨_, _, hserver, trivial, rfl⟩
    | server hother hserver => exact Or.inr ⟨_, _, hserver, trivial, rfl⟩
    | readDown hdown hlen hclient => exact Or.inl rfl
    | client hother hclient => exact Or.inl rfl
  obtain ⟨tr', g, hserver, -, rfl⟩ := hrun.simulate hsim (fun _ _ => trivial) rfl
  exact ⟨tr', hserver⟩

theorem connected_run (hstart : ClientLoop.start unicode rAddr rConnect = some w)
    (hrun : Run (Step n) { client := w } tr s) : Connected n s := by
  induction hrun with
  | nil => exact connected_init hstart
  | snoc _ hlast ih => exact connected_step ih hlast

theorem framed_run (hstart : ClientLoop.start unicode rAddr rConnect = some w)
    (hrun : Run (Step n) { client := w } tr s) (hwhole : Meets (Whole n) tr) : Framed n s := by
  induction hrun with
  | nil =>
    rw [ClientLoop.start_some hstart]
    exact ⟨List.prefix_refl _, rfl⟩
  | snoc hprev hlast ih =>
    obtain ⟨htr, he⟩ := meets_snoc.mp hwhole
    exact framed_step (connected_run hstart hprev) (ih htr) he hlast

/-- What was read on the connection are the first messages the application pushed. -/
theorem Framed.read (h : Framed n s) :
    chunksOn n s.server.world =
      (s.client.accepted.take (chunksOn n s.server.world).length).map bytesOf := by
  have hlen := h.chunks.length_le
  rw [List.length_map] at hlen
  rw [← h.sends, List.take_append_of_le_length hlen, List.map_take]
  exact List.prefix_iff_eq_take.mp h.chunks

theorem flatten_replies (k : ConnID) (ms : List (MessageInfo Unit)) :
    (((ms.map bytesOf).map some).flatMap (replies k)).flatten = ms.flatMap (answerTo k) := by
  induction ms with
  | nil => rfl
  | cons m ms ih =>
    rw [List.map_cons, List.map_cons, List.flatMap_cons, List.flatten_append, ih, List.flatMap_cons,
      answerTo]

theorem Framed.answers (h : Framed n s) (hconnected : Connected n s) (hanswering : Answering s.server)
    {p : Ptr} {k : ConnID} (honline : s.server.world.seen p = some (n, false))
    (hk : s.server.world.given[n]? = some k) (hone : accepted k s.server.world = [n]) :
    s.client.chunks.flatMap bytesOf ++ s.down ++ (upcoming k s.server).flatten ++
        (unread n s).flatMap (answerTo k) =
      s.client.accepted.flatMap (answerTo k) := by
  have hanswers := hanswering.live p n k honline hk hone
  obtain ⟨chunks, hchunks⟩ := hconnected.serving.world.separated.live p n honline
  have hdelivered : delivered n s.server.world = (chunksOn n s.server.world).map some := by
    rw [chunksOn, hchunks, List.filterMap_map]
    exact congrArg _ List.filterMap_some.symm
  rw [hdelivered, h.read] at hanswers
  rw [hconnected.down, ← List.flatten_append, hanswers, flatten_replies, unread,
    ← List.flatMap_append, List.take_append_drop]

/-- End to end, while messages stay whole: what the client read, what is on its way to it,
what the server has still to write and the answers to the messages it has still to read are
the answers to all that the client's application pushed, in order; and none of it gets to the
application. -/
theorem conversation_answered (hstart : ClientLoop.start unicode rAddr rConnect = some w)
    (hrun : Run (Step n) { client := w } tr s) (hwhole : Meets (Whole n) tr) {p : Ptr} {k : ConnID}
    (honline : s.server.world.seen p = some (n, false)) (hk : s.server.world.given[n]? = some k)
    (hone : accepted k s.server.world = [n]) :
    s.client.chunks.flatMap bytesOf ++ s.down ++ (upcoming k s.server).flatten ++
          (unread n s).flatMap (answerTo k) =
        s.client.accepted.flatMap (answerTo k) ∧
      s.client.returned = [] := by
  obtain ⟨tr', hserver⟩ := server_run hrun
  have hconnected := connected_run hstart hrun
  have hframed := framed_run hstart hrun hwhole
  exact ⟨hframed.answers hconnected (answering_run hserver) honline hk hone, hconnected.silent.1⟩

/-! ### A login -/

/-- The client asks to log in as "a". -/
def loginMessage : MessageInfo Unit := ⟨7, 7, some (packet 2 [0x0A, 0x01, 0x61]), ()⟩

theorem not_readsOn {g : GameServer} {e : GameEvent}
    (h : ∀ p chunk rest, e ≠ .net (.readData p chunk rest)) (chunk : Bytes) : ¬ReadsOn n g chunk e := by
  intro hread
  obtain ⟨p, a, rest, heq, -⟩ := hread
  exact h p chunk rest heq

def Reached (n : ℕ) (w : ClientLoop) (s : Conversation) : Prop :=
  ∃ tr, Run (Step n) { client := w } tr s ∧ Meets (Whole n) tr

theorem Reached.snoc {t : Conversation} {e : ConversationEvent} (h : Reached n w s)
    (hstep : Step n s e t) (he : Whole n s e) : Reached n w t := by
  obtain ⟨tr, hrun, hwhole⟩ := h
  exact ⟨_, hrun.snoc hstep, meets_snoc.mpr ⟨hwhole, he⟩⟩

theorem Reached.server {e : GameEvent} {u : GameServer} (h : Reached n w s)
    (hother : ∀ p chunk rest, e ≠ .net (.readData p chunk rest)) (hstep : GameServer.Step s.server e u) :
    Reached n w { s with server := u, down := s.down ++ sentDown n s.server u } :=
  h.snoc (.server (not_readsOn hother) hstep) fun chunk hread =>
    absurd hread (not_readsOn hother chunk)

def loginClient : ClientLoop where
  client := { unicode := 7 }
  connecting := 1

/-- The client pushed its request and is connected. -/
def readyClient : ClientLoop := (loginClient.pushSend loginMessage).connectCb 0 0 0

def writtenClient : ClientLoop := readyClient.timerCb 0 0 0 0

def answered : GameServer := { loggedIn with world := loggedIn.world.tick 0 }

/-- The client has read the answer. -/
def loggedInBoth : Conversation where
  server := answered
  client := writtenClient.readCb 7 (packet 1 [0x0A, 0x01, 0x61])

/-- The request is under way. -/
def requested : Conversation :=
  ⟨{ world := ({} : World).accept 64 }, writtenClient, packet 2 [0x0A, 0x01, 0x61], []⟩

theorem requested_reached : Reached 0 loginClient requested := by
  have hstart : Reached 0 loginClient { client := loginClient } := ⟨[], Run.nil, meets_nil _⟩
  have hpushed : Reached 0 loginClient { client := loginClient.pushSend loginMessage } :=
    hstart.snoc (.client (fun _ _ heq => by cases heq) (.pushSend _ _)) trivial
  have hready : Reached 0 loginClient { client := readyClient } :=
    hpushed.snoc (.client (fun _ _ heq => by cases heq) (.connectCb 0 0 0 (by decide))) trivial
  have hwritten : Reached 0 loginClient
      { client := writtenClient, up := packet 2 [0x0A, 0x01, 0x61] } :=
    hready.snoc (.client (fun _ _ heq => by cases heq) (.timerCb 0 0 0 0 (by decide))) fun _ _ => rfl
  exact hwritten.server (fun _ _ _ heq => by cases heq) accept_step

theorem login_reached : Reached 0 loginClient loggedInBoth := by
  have hasking : Reached 0 loginClient ⟨asking, writtenClient, [], []⟩ := by
    have hall : requested.up = packet 2 [0x0A, 0x01, 0x61] ++ [] := rfl
    apply requested_reached.snoc (.readUp ⟨64, { serial := 0 }, [], rfl, rfl, rfl⟩ hall asking_step)
    intro chunk hread
    obtain ⟨p, a, rest, heq, -⟩ := hread
    cases heq
    rfl
  have htaken : Reached 0 loginClient ⟨taken, writtenClient, [], []⟩ :=
    hasking.server (fun _ _ _ heq => by cases heq) taken_step
  have hqueued : Reached 0 loginClient ⟨loggedIn, writtenClient, [], []⟩ :=
    htaken.server (fun _ _ _ heq => by cases heq) loggedIn_step
  have hsent : Reached 0 loginClient ⟨answered, writtenClient, [], packet 1 [0x0A, 0x01, 0x61]⟩ :=
    hqueued.server (fun _ _ _ heq => by cases heq) answered_step
  have hread : ClientLoop.Step writtenClient
      (.readCb (packet 1 [0x0A, 0x01, 0x61]).length (packet 1 [0x0A, 0x01, 0x61])) loggedInBoth.client :=
    .readCb _ _ rfl rfl
  have hall : packet 1 [0x0A, 0x01, 0x61] = packet 1 [0x0A, 0x01, 0x61] ++ [] := rfl
  exact hsent.snoc (.readDown hall (by decide) hread) trivial

theorem conversation_answered_login :
    loggedInBoth.client.chunks.flatMap bytesOf = packet 1 [0x0A, 0x01, 0x61] ∧
      loggedInBoth.client.chunks.flatMap bytesOf ++ loggedInBoth.down ++
            (upcoming 1 loggedInBoth.server).flatten ++
            (unread 0 loggedInBoth).flatMap (answerTo 1) =
          loggedInBoth.client.accepted.flatMap (answerTo 1) ∧
        loggedInBoth.client.returned = [] := by
  obtain ⟨tr, hrun, hwhole⟩ := login_reached
  have hstart : ClientLoop.start 7 0 0 = some loginClient := rfl
  exact ⟨by decide, conversation_answered hstart hrun hwhole (p := 64) rfl rfl rfl⟩

end Conversation
end GameRes.Server
