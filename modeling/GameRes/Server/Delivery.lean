import GameRes.Server.Conversation
import GameRes.Server.LogicThread

/-!
# Every request is answered in the end (NetApp/NetFrame.cpp, Server/Server.cpp)

From a state in which a client is connected, its own timer, the server's reads on its
connection, the server's own steps and the client's reads bring all the answers to it:
the queue of the client empties into the stream, the stream into the queue of the server,
and so on.
-/

namespace GameRes.Server
open Library NetApp

namespace Conversation

/-- The connection is up: the timer is armed, and the stream is read. -/
structure Ready (w : ClientLoop) : Prop where
  status : w.client.status = .runing
  armed : w.armed = true
  reading : w.reading = true
  closing : w.closing = false

/-- The message can be read in one piece, and no answer to it overruns its block. -/
structure Fits (k : ConnID) (m : MessageInfo Unit) : Prop where
  nonempty : bytesOf m ≠ []
  short : (bytesOf m).length < 2 ^ 31
  answers : ∀ c ∈ answers k (some (bytesOf m)), c.pack.isSome

/-- The steps of the two sides that need nobody else. -/
def Own : ConversationEvent → Prop
  | .client (.timerCb _ _ _ _) | .client (.readCb _ _) => True
  | .client _ => False
  | .server (.net (.readData _ _ _)) => True
  | .server e => e.Own

/-- The client is connected as number `n` at `p`, with the id `k` that no other had, and
its application pushed `ms`. -/
structure Going (n : ℕ) (p : Ptr) (k : ConnID) (ms : List (MessageInfo Unit)) (s : Conversation) :
    Prop where
  connected : Connected n s
  framed : Framed n s
  ready : Ready s.client
  ticking : Ticking s.server.world
  fitting : NoOverrun s.server
  online : s.server.world.seen p = some (n, false)
  id : s.server.world.given[n]? = some k
  only : accepted k s.server.world = [n]
  pushed : s.client.accepted = ms

/-- The server has read everything, and nothing is left for it to do. -/
structure Answered (n : ℕ) (s : Conversation) : Prop where
  queue : s.client.client.sendMessage = []
  read : (chunksOn n s.server.world).length = s.client.written.length
  drained : Drained s.server

/-- A message costs a tick of the client and a read, and then what the server does for it. -/
def toDo (n : ℕ) (s : Conversation) : ℕ :=
  8 * s.client.client.sendMessage.length +
    7 * (s.client.written.length - (chunksOn n s.server.world).length) + work s.server

section
variable {n : ℕ} {p : Ptr} {k : ConnID} {ms : List (MessageInfo Unit)} {s : Conversation}

theorem own_not_readsOn {g : GameServer} {e : GameEvent} (h : e.Own) (chunk : Bytes) :
    ¬ReadsOn n g chunk e := by
  intro hread
  obtain ⟨q, a, rest, rfl, -⟩ := hread
  cases h

theorem own_server {e : GameEvent} (h : e.Own) : Own (.server e) := by
  cases e with
  | net e =>
    cases h
    rfl
  | _ => trivial

/-- An online stream of a healthy server is read. -/
theorem Going.stream (h : Going n p k ms s) : ∃ a, Reading s.server.world p a ∧ a.serial = n := by
  obtain ⟨a, ha, heq⟩ := Option.map_eq_some_iff.mp h.online
  obtain ⟨hserial, hended⟩ := Prod.mk.inj heq
  have hclosing : a.closing = false := by
    cases hc : a.closing with
    | false => rfl
    | true =>
      have htorn := h.connected.serving.world.undisturbed.torn p a ha (Or.inr hc)
      rw [htorn] at hended
      cases hended
  exact ⟨a, ⟨ha, hended, hclosing⟩, hserial⟩

/-! ### The client's tick -/

theorem Going.tick (h : Going n p k ms s) (hqueue : s.client.client.sendMessage ≠ []) :
    ∃ e t, Step n s e t ∧ Own e ∧ Going n p k ms t ∧ toDo n t < toDo n s := by
  have hother : ∀ nread base, ClientEvent.timerCb 0 0 0 0 = .readCb nread base → nread = 0 := by
    intro nread base heq
    cases heq
  have hstep : Step n s (.client (.timerCb 0 0 0 0)) _ :=
    .client hother (.timerCb 0 0 0 0 h.ready.armed)
  have hwhole : Whole n s (.client (.timerCb 0 0 0 0)) := fun _ _ => rfl
  have hconnected := connected_step h.connected hstep
  have hframed := framed_step h.connected h.framed hwhole hstep
  have htick := ClientLoop.timerCb_runing h.ready.status 0 0 0 0
  refine ⟨_, _, hstep, trivial, ⟨hconnected, hframed, ?_, h.ticking, h.fitting, h.online, h.id,
    h.only, ?_⟩, ?_⟩
  · rw [htick, TCPClient.getSendMessage_eq]
    exact ⟨h.ready.status, rfl, Bool.or_true _, h.ready.closing⟩
  · rw [htick]
    exact h.pushed
  · obtain ⟨m, rest, hcons⟩ := List.exists_cons_of_ne_nil hqueue
    have hlen := h.framed.chunks.length_le
    rw [List.length_map] at hlen
    simp only [toDo, htick, TCPClient.getSendMessage_eq, hcons, List.head?_cons, ite_true,
      Option.toList_some, List.tail_cons, List.length_append, List.length_cons, List.length_nil]
    omega

/-! ### The server's read -/

/-- The next message the server has to read is at the front of the stream. -/
theorem Going.front (h : Going n p k ms s)
    (hleft : (chunksOn n s.server.world).length < s.client.written.length) :
    ∃ m rest, m ∈ ms ∧ s.up = bytesOf m ++ rest ∧
      (s.client.written.map bytesOf)[(chunksOn n s.server.world).length]? = some (bytesOf m) := by
  obtain ⟨later, hlater⟩ := h.framed.chunks
  have hget : (s.client.written.map bytesOf)[(chunksOn n s.server.world).length]? =
      some (bytesOf s.client.written[(chunksOn n s.server.world).length]) := by
    rw [List.getElem?_map, List.getElem?_eq_getElem hleft, Option.map_some]
  have hfront : later.head? = some (bytesOf s.client.written[(chunksOn n s.server.world).length]) := by
    rw [← hget, ← hlater, List.getElem?_append_right (Nat.le_refl _), Nat.sub_self,
      List.head?_eq_getElem?]
  obtain ⟨rest, hrest⟩ := List.head?_eq_some_iff.mp hfront
  have hup : s.up = later.flatten := by
    have hall := h.connected.up
    rw [List.flatMap_def, ← hlater, List.flatten_append] at hall
    exact List.append_cancel_left hall
  refine ⟨_, rest.flatten, ?_, ?_, hget⟩
  · rw [← h.pushed, ← h.framed.sends]
    exact List.mem_append_left _ (List.getElem_mem hleft)
  · rw [hup, hrest, List.flatten_cons]

theorem Going.readUp (h : Going n p k ms s) (hfits : ∀ m ∈ ms, Fits k m)
    (hleft : (chunksOn n s.server.world).length < s.client.written.length) :
    ∃ e t, Step n s e t ∧ Own e ∧ Going n p k ms t ∧ toDo n t < toDo n s := by
  obtain ⟨m, rest, hmem, hup, hget⟩ := h.front hleft
  obtain ⟨a, hread, hserial⟩ := h.stream
  obtain ⟨hne, hshort, hanswers⟩ := hfits m hmem
  have hserving := h.connected.serving
  have hon : ReadsOn n s.server (bytesOf m) (.net (.readData p (bytesOf m) [])) :=
    ⟨p, a, [], rfl, hread.heap, hserial⟩
  have hserver : GameServer.Step s.server (.net (.readData p (bytesOf m) [])) _ :=
    .net trivial (.readData hread hne hshort)
  have hstep : Step n s _ _ := .readUp hon hup hserver
  have hwhole : Whole n s (.server (.net (.readData p (bytesOf m) []))) := by
    intro chunk hchunk
    obtain ⟨q, b, rest', heq, -⟩ := hchunk
    cases heq
    exact hget
  obtain ⟨k', hk', -, hworld⟩ := @Sound.readData_eq _ hserving.world.sound _ _ _ [] hread hne
  have hsame : k' = k := by
    rw [hserial, h.id] at hk'
    exact (Option.some.inj hk').symm
  refine ⟨_, _, hstep, trivial, ⟨connected_step h.connected hstep,
    framed_step h.connected h.framed hwhole hstep, h.ready, ticking_next h.ticking hserving hserver,
    ⟨h.fitting.1, ?_⟩, h.online, h.id, h.only, h.pushed⟩, ?_⟩
  · rw [hworld]
    intro m' hm'
    rcases List.mem_append.mp hm' with hold | hnew
    · exact h.fitting.2 m' hold
    · have hnat : (BitVec.ofInt 32 ((bytesOf m).length : ℤ)).toNat = (bytesOf m).length := by
        rw [BitVec.toNat_ofInt]
        omega
      rw [List.mem_singleton.mp hnew, content, Option.map_some, hnat, List.take_left, hsame]
      exact hanswers
  · have hchunks := congrArg List.length (chunksOn_read hserving hon hserver)
    have hmore : work { s.server with world := s.server.world.readData p a (bytesOf m) [] } =
        work s.server + 6 := by
      simp only [work, hworld, List.length_append, List.length_singleton]
      omega
    rw [List.length_append, List.length_singleton] at hchunks
    simp only [toDo, hchunks, hmore]
    omega

/-! ### The server's own steps -/

theorem Going.own (h : Going n p k ms s) (hwork : ¬Drained s.server) :
    ∃ e t, Step n s e t ∧ Own e ∧ Going n p k ms t ∧ toDo n t < toDo n s := by
  have hserving := h.connected.serving
  obtain ⟨e, u, hserver, hown, hfitting, hsame, hless⟩ := own_step hserving h.ticking h.fitting hwork
  have hstep : Step n s (.server e) _ := .server (own_not_readsOn hown) hserver
  have hwhole : Whole n s (.server e) := fun chunk hread => absurd hread (own_not_readsOn hown chunk)
  have hchunks : chunksOn n u.world = chunksOn n s.server.world := chunksOn_same hsame.reads
  refine ⟨_, _, hstep, own_server hown, ⟨connected_step h.connected hstep,
    framed_step h.connected h.framed hwhole hstep, h.ready, ticking_next h.ticking hserving hserver,
    hfitting, (hsame.seen p).trans h.online, ?_, ?_, h.pushed⟩, ?_⟩
  · rw [hsame.given]
    exact h.id
  · rw [accepted, hsame.given, ← accepted]
    exact h.only
  · simp only [toDo, hchunks]
    omega

/-! ### The client's reads -/

theorem Going.readDown (h : Going n p k ms s) (hdone : Answered n s) (hdown : s.down ≠ []) :
    ∃ e t, Step n s e t ∧ Own e ∧ (Going n p k ms t ∧ Answered n t) ∧
      t.down.length < s.down.length := by
  obtain ⟨b, rest, hcons⟩ := List.exists_cons_of_ne_nil hdown
  have happ : s.down = [b] ++ rest := hcons
  have hone : [b].length < 2 ^ 31 := Nat.one_lt_two_pow (by decide)
  have hread : ClientLoop.Step s.client (.readCb [b].length [b]) _ :=
    .readCb _ _ h.ready.reading h.ready.closing
  have hstep : Step n s (.client (.readCb [b].length [b])) _ :=
    .readDown happ hone hread
  have hwhole : Whole n s (.client (.readCb [b].length [b])) := trivial
  obtain ⟨hwritten, haccepted, hclient, -⟩ := readCb_chunk (w := s.client) hone
  refine ⟨_, _, hstep, trivial, ⟨⟨connected_step h.connected hstep,
    framed_step h.connected h.framed hwhole hstep, ?_, h.ticking, h.fitting, h.online, h.id, h.only,
    ?_⟩, ?_⟩, ?_⟩
  · refine ⟨?_, h.ready.armed, ?_, ?_⟩
    · rw [hclient]
      exact h.ready.status
    · exact (Bool.and_true _).trans h.ready.reading
    · exact (Bool.or_false _).trans h.ready.closing
  · rw [haccepted]
    exact h.pushed
  · refine ⟨?_, ?_, hdone.drained⟩
    · rw [hclient]
      exact hdone.queue
    · rw [hwritten]
      exact hdone.read
  · rw [hcons]
    exact Nat.lt_succ_self _

/-! ### All together -/

theorem Going.next (h : Going n p k ms s) (hfits : ∀ m ∈ ms, Fits k m) (hnot : ¬Answered n s) :
    ∃ e t, Step n s e t ∧ Own e ∧ Going n p k ms t ∧ toDo n t < toDo n s := by
  by_cases hqueue : s.client.client.sendMessage = []
  · by_cases hread : (chunksOn n s.server.world).length = s.client.written.length
    · exact h.own fun hdrained => hnot ⟨hqueue, hread, hdrained⟩
    · have hlen := h.framed.chunks.length_le
      rw [List.length_map] at hlen
      exact h.readUp hfits (lt_of_le_of_ne hlen hread)
  · exact h.tick hqueue

end

variable {n : ℕ} {unicode : BitVec 32} {rAddr rConnect : ℤ} {w : ClientLoop}
  {tr : List (Conversation × ConversationEvent)} {s : Conversation}

end Conversation
end GameRes.Server
