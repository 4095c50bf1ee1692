import GameRes.Server.OnlineStreams

/-!
# Packets on their way out (NetApp/NetFrame.cpp:183-230, Server/AppManager.cpp:72-96)

`SendClient` packs a body and queues the packet, `timer_cb` writes one queued
packet a tick. It takes a packet for empty when its first byte is zero, which is
the low byte of the packet's length. It looks the stream up by id; a stream that is
freed before its end was read keeps its id, which then names the next stream at its
address too.
-/

namespace GameRes.Server
open Library NetApp

/-- What a queued message is written as, while its connection is online. -/
def outgoing (m : Message) : Option Bytes :=
  m.buf.bind fun block => if block.head? = some 0 then none else some (block.take m.len.toNat)

def queued (k : ConnID) (w : World) : List Bytes :=
  (w.srv.sendMessage.filter (·.conn = k)).filterMap outgoing

def Event.clientCall (k : ConnID) : Event → Option (BitVec 32 × Bytes)
  | .sendClient conn cmd body => if conn = k then some (cmd, body) else none
  | _ => none

def clientCalls (k : ConnID) (tr : List (World × Event)) : List (BitVec 32 × Bytes) :=
  tr.filterMap fun x => x.2.clientCall k

/-- Whether the first byte of a packet with this body is not zero. -/
def Passes (body : Bytes) : Prop := body.length % 256 ≠ 252

instance (body : Bytes) : Decidable (Passes body) := inferInstanceAs (Decidable (_ ≠ _))

/-- Messages for `k` are pushed by `SendClient` only. -/
def OnlySendClient (k : ConnID) (_ : World) (e : Event) : Prop :=
  (∀ buf len, e ≠ .push k buf len) ∧ ∀ m data len, e = .reply m data len → m.conn ≠ k

/-- The tick takes no packet for another id that `m_OnlineID` maps to the stream `p`. -/
def OwnTick (p : Ptr) (k : ConnID) (w : World) (e : Event) : Prop :=
  ∀ ret m rest, e = .timer ret → w.srv.sendMessage = m :: rest →
    w.srv.onlineID.lookup m.conn = some p → m.conn = k ∨ outgoing m = none

/-! ### One packet -/

theorem packet_head (cmd : BitVec 16) (body : Bytes) :
    (packet cmd body).head? = some 0 ↔ ¬Passes body := by
  have hhead : (packet cmd body).head? = some (BitVec.ofNat 8 (body.length + 4)) := rfl
  rw [hhead, Option.some.injEq, Passes, ← BitVec.toNat_inj, BitVec.toNat_ofNat]
  simp only [BitVec.ofNat_eq_ofNat, BitVec.toNat_ofNat]
  omega

theorem outgoing_head {m : Message} {data : Bytes} (h : outgoing m = some data) :
    data.head? ≠ some 0 := by
  obtain ⟨block, -, hout⟩ := Option.bind_eq_some_iff.mp h
  split at hout
  · cases hout
  · next hhead =>
    rw [← Option.some.inj hout, List.head?_take]
    split
    · exact (Option.some_ne_none _).symm
    · exact hhead

theorem outgoing_sendClient (conn : ConnID) (cmd : BitVec 32) {body : Bytes}
    (h : body.length ≤ maxBody) :
    ∃ m, (Event.sendClient conn cmd body).sent = [m] ∧ m.conn = conn ∧
      outgoing m = if Passes body then some (packet (cmd.setWidth 16) body) else none := by
  have hpack := pack_eq {} body (cmd.setWidth 16) h
  have hlen : ((BitVec.ofNat 16 (body.length + 4)).setWidth 32).toNat = body.length + 4 := by
    rw [BitVec.toNat_setWidth, total_toNat h]
    simp only [maxBody] at h
    omega
  have hne : packet (cmd.setWidth 16) body ≠ [] := by
    rw [← List.length_pos_iff, packet_length]
    omega
  have hhead : (packet (cmd.setWidth 16) body ++ [0]).head? = some 0 ↔ ¬Passes body := by
    rw [List.head?_append_of_ne_nil _ hne, packet_head]
  refine ⟨⟨conn, (BitVec.ofNat 16 (body.length + 4)).setWidth 32,
    some (packet (cmd.setWidth 16) body ++ [0]), none⟩, ?_, rfl, ?_⟩
  · simp only [Event.sent, hpack, Option.map_some, Option.toList_some]
  simp only [outgoing, Option.bind_some, hhead, hlen, ite_not]
  rw [List.take_left' (packet_length _ _)]

/-! ### The queue -/

theorem queued_append {k : ConnID} {w u : World} {ms : List Message}
    (h : u.srv.sendMessage = w.srv.sendMessage ++ ms) :
    queued k u = queued k w ++ (ms.filter (·.conn = k)).filterMap outgoing := by
  simp only [queued, h, List.filter_append, List.filterMap_append]

theorem sent_outgoing {k : ConnID} {w : World} {e : Event} (honly : OnlySendClient k w e)
    (hmax : ∀ c ∈ e.clientCall k, c.2.length ≤ maxBody) :
    (e.sent.filter (·.conn = k)).filterMap outgoing =
      (e.clientCall k).toList.filterMap fun c =>
        if Passes c.2 then some (packet (c.1.setWidth 16) c.2) else none := by
  cases e with
  | reply m data len =>
    have hne := honly.2 m data len rfl
    simp [Event.sent, Event.clientCall, hne]
  | push conn buf len =>
    have hne : conn ≠ k := fun heq => honly.1 buf len (heq ▸ rfl)
    simp [Event.sent, Event.clientCall, hne]
  | sendClient conn cmd body =>
    by_cases hk : conn = k
    · have hb : body.length ≤ maxBody := hmax (cmd, body) (by simp [Event.clientCall, hk])
      obtain ⟨m, hsent, hconn, hout⟩ := outgoing_sendClient conn cmd hb
      have hkeep : [m].filter (·.conn = k) = [m] := by simp [hconn, hk]
      have hcall : (Event.sendClient conn cmd body).clientCall k = some (cmd, body) := by
        simp only [Event.clientCall, if_pos hk]
      rw [hsent, hkeep, hcall, Option.toList_some, List.filterMap_cons, List.filterMap_cons, hout]
      rfl
    · have hfilter : (Event.sendClient conn cmd body).sent.filter (·.conn = k) = [] := by
        rw [List.filter_eq_nil_iff]
        intro m hm
        obtain ⟨r, -, rfl⟩ := Option.map_eq_some_iff.mp (Option.mem_toList.mp hm)
        simp [hk]
      rw [hfilter]
      simp [Event.clientCall, hk]
  | _ => rfl

/-! ### One tick -/

theorem timerAction_write_iff {s : TCPServer (Option ℕ)} {m : Message} {p : Ptr} {data : Bytes} :
    s.timerAction m = .write p data ↔
      s.onlineID.lookup m.conn = some p ∧ outgoing m = some data := by
  unfold TCPServer.timerAction outgoing
  cases s.onlineID.lookup m.conn with
  | none => simp only [reduceCtorEq, false_and]
  | some q =>
    cases m.buf with
    | none => simp only [reduceCtorEq, Option.bind_none, and_false]
    | some block =>
      by_cases hzero : block.head? = some 0
      · simp only [if_pos hzero, reduceCtorEq, Option.bind_some, and_false]
      · simp only [if_neg hzero, TimerAction.write.injEq, Option.bind_some, Option.some.injEq]

/-- A tick writes the head of the queue, or drops it. -/
theorem tickWrites_cons {w : World} {m : Message} {rest : List Message}
    (hq : w.srv.sendMessage = m :: rest) :
    (∃ p data, w.srv.onlineID.lookup m.conn = some p ∧ outgoing m = some data ∧
      w.tickWrites = [⟨p, w.heap p, m, data⟩]) ∨
    (w.srv.onlineID.lookup m.conn = none ∨ outgoing m = none) ∧ w.tickWrites = [] := by
  simp only [World.tickWrites, hq]
  split
  · next p data haction =>
    obtain ⟨hon, hout⟩ := timerAction_write_iff.mp haction
    exact Or.inl ⟨p, data, hon, hout, rfl⟩
  · next hno =>
    refine Or.inr ⟨?_, rfl⟩
    cases hon : w.srv.onlineID.lookup m.conn with
    | none => exact Or.inl rfl
    | some p =>
      cases hout : outgoing m with
      | none => exact Or.inr rfl
      | some data => exact absurd (timerAction_write_iff.mpr ⟨hon, hout⟩) (hno p data)

section
variable {w : World} {P : Message → Prop} [DecidablePred P]

/-- Of the messages of a kind whose ids are online, a tick moves the first from the queue
to what is written. -/
theorem tick_moves
    (hon : ∀ m ∈ w.srv.sendMessage.head?, P m → ∃ p, w.srv.onlineID.lookup m.conn = some p)
    (ret : ℤ) :
    (w.tickWrites.filter fun r => P r.msg).map (·.data) ++
        ((w.tick ret).srv.sendMessage.filter P).filterMap outgoing =
      (w.srv.sendMessage.filter P).filterMap outgoing := by
  rw [(tick_queues w ret).2.2]
  cases hq : w.srv.sendMessage with
  | nil =>
    simp only [World.tickWrites, hq]
    rfl
  | cons m rest =>
    rw [List.tail_cons]
    by_cases hm : P m
    · rw [List.filter_cons_of_pos (by simpa using hm), List.filterMap_cons]
      rcases tickWrites_cons hq with ⟨p, data, -, hout, hws⟩ | ⟨hno, hws⟩
      · rw [hws, hout, List.filter_cons_of_pos (by simpa using hm)]
        rfl
      · obtain ⟨p, hp⟩ := hon m (hq ▸ rfl) hm
        have hout := hno.resolve_left (by rw [hp]; exact Option.some_ne_none p)
        rw [hws, hout]
        rfl
    · rw [List.filter_cons_of_neg (by simpa using hm)]
      rcases tickWrites_cons hq with ⟨p, data, -, -, hws⟩ | ⟨-, hws⟩
      · rw [hws, List.filter_cons_of_neg (by simpa using hm)]
        rfl
      · rw [hws]
        rfl

/-- Where its id is offline it is dropped. -/
theorem tick_sublist (w : World) (P : Message → Prop) [DecidablePred P] (ret : ℤ) :
    ((w.tickWrites.filter fun r => P r.msg).map (·.data) ++
        ((w.tick ret).srv.sendMessage.filter P).filterMap outgoing).Sublist
      ((w.srv.sendMessage.filter P).filterMap outgoing) := by
  by_cases hon : ∀ m ∈ w.srv.sendMessage.head?, P m → ∃ p, w.srv.onlineID.lookup m.conn = some p
  · rw [tick_moves hon]
  · push Not at hon
    obtain ⟨m, hhead, -, hoff⟩ := hon
    obtain ⟨rest, hq⟩ := List.head?_eq_some_iff.mp hhead
    rcases tickWrites_cons hq with ⟨p, data, hp, -⟩ | ⟨-, hws⟩
    · exact absurd hp (hoff p)
    · rw [hws, (tick_queues w ret).2.2]
      exact ((List.tail_sublist _).filter _).filterMap _

end

theorem ownTick_iff {p : Ptr} {k : ConnID} {w : World} {ret : ℤ} :
    OwnTick p k w (.timer ret) ↔ ∀ r ∈ w.tickWrites, r.stream = p → r.msg.conn = k := by
  constructor
  · intro hown r hr hp
    obtain ⟨⟨rest, hq⟩, haction, -⟩ := mem_tickWrites hr
    obtain ⟨hon, hout⟩ := timerAction_write_iff.mp haction
    refine (hown ret r.msg rest rfl hq (hp ▸ hon)).resolve_right ?_
    rw [hout]
    exact Option.some_ne_none _
  · intro hall ret' m rest _ hq hon
    rcases tickWrites_cons hq with ⟨q, data, hq', hout, hws⟩ | ⟨hno, -⟩
    · rw [hon, Option.some.injEq] at hq'
      rw [hws] at hall
      exact Or.inl (hall _ (List.mem_singleton_self _) hq'.symm)
    · exact Or.inr (hno.resolve_left (by rw [hon]; exact Option.some_ne_none p))

/-! ### A stretch of a run -/

/-- What was written for `k`, on whatever stream. -/
def writtenBy (k : ConnID) (ws : List Write) : List Bytes :=
  (ws.filter (·.msg.conn = k)).map (·.data)

/-- What a stretch of a run in which `k` is online on `p` writes. -/
structure Sent (p : Ptr) (k : ConnID) (w₀ : World) (tr : List (World × Event)) (w : World)
    (ws : List Write) : Prop where
  writes : w.writes = w₀.writes ++ ws
  moved : writtenBy k ws ++ queued k w =
    (clientCalls k tr).filterMap fun c =>
      if Passes c.2 then some (packet (c.1.setWidth 16) c.2) else none
  own : ∀ r ∈ ws, r.msg.conn = k → r.stream = p
  passes : ∀ r ∈ ws, r.data.head? ≠ some 0
  foreign : Meets (OwnTick p k) tr ↔ ∀ r ∈ ws, r.stream = p → r.msg.conn = k

theorem clientCalls_snoc (k : ConnID) (tr : List (World × Event)) (w : World) (e : Event) :
    clientCalls k (tr ++ [(w, e)]) = clientCalls k tr ++ (e.clientCall k).toList := by
  rw [clientCalls, List.filterMap_append]
  cases hcall : e.clientCall k <;> simp [clientCalls, hcall]

section
variable {p : Ptr} {k : ConnID} {w₀ t u : World} {tr : List (World × Event)} {ws : List Write}

theorem Sent.tick (h : Sent p k w₀ tr t ws) (hon : t.srv.onlineID.lookup k = some p) (ret : ℤ) :
    Sent p k w₀ (tr ++ [(t, .timer ret)]) (t.tick ret) (ws ++ t.tickWrites) := by
  have hkon : ∀ m ∈ t.srv.sendMessage.head?, m.conn = k →
      ∃ q, t.srv.onlineID.lookup m.conn = some q := by
    intro m _ hm
    exact ⟨p, hm ▸ hon⟩
  refine ⟨?_, ?_, ?_, ?_, ?_⟩
  · rw [tick_writes, h.writes, List.append_assoc]
  · have hnone : Event.clientCall k (.timer ret) = none := rfl
    rw [clientCalls_snoc, hnone, Option.toList_none, List.append_nil, ← h.moved, writtenBy,
      List.filter_append, List.map_append, List.append_assoc, ← writtenBy]
    exact congrArg (writtenBy k ws ++ ·) (tick_moves hkon ret)
  · intro r hr hk
    rcases List.mem_append.mp hr with hr | hr
    · exact h.own r hr hk
    · have hstream := timerAction_write (mem_tickWrites hr).2.1
      rw [hk, hon] at hstream
      exact (Option.some.inj hstream).symm
  · refine List.forall_mem_append.mpr ⟨h.passes, ?_⟩
    intro r hr
    exact outgoing_head (timerAction_write_iff.mp (mem_tickWrites hr).2.1).2
  · rw [meets_snoc, h.foreign, ownTick_iff, List.forall_mem_append]

theorem Sent.queue {e : Event} (h : Sent p k w₀ tr t ws) (htimer : ∀ ret, e ≠ .timer ret)
    (hwrites : u.writes = t.writes) (hsend : u.srv.sendMessage = t.srv.sendMessage ++ e.sent)
    (honly : OnlySendClient k t e) (hmax : ∀ c ∈ e.clientCall k, c.2.length ≤ maxBody) :
    Sent p k w₀ (tr ++ [(t, e)]) u ws := by
  have hown : OwnTick p k t e := fun ret _ _ heq => absurd heq (htimer ret)
  refine ⟨hwrites.trans h.writes, ?_, h.own, h.passes, ?_⟩
  · rw [queued_append hsend, sent_outgoing honly hmax, clientCalls_snoc, List.filterMap_append,
      ← h.moved, List.append_assoc]
  · rw [meets_snoc, h.foreign, and_iff_left hown]

end

end GameRes.Server
