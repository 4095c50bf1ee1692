import GameRes.Server.GameServer

/-!
# Every client gets its answers (Server/Server.cpp, Server/AppManager.cpp, NetApp/NetFrame.cpp)

For a connection that is online and whose id no other connection had: what was
written to it so far, followed by what is still on its way, is at every moment the
answers to what it sent, in order. On its way are the queued packets, the calls the
handler has still to make, and the answers to the chunks not taken yet.
-/

namespace GameRes.Server
open Library NetApp

/-- What a call of `SendClient` is written as, while its connection is online. -/
def SendCall.wire (c : SendCall) : Option Bytes :=
  c.pack.bind fun r => outgoing ⟨c.conn, r.2.len.setWidth 32, some r.1, none⟩

/-- The packet, unless its first byte is zero. -/
theorem SendCall.wire_eq {c : SendCall} (h : c.body.length ≤ maxBody) :
    c.wire = if Passes c.body then some (packet (c.cmd.setWidth 16) c.body) else none := by
  obtain ⟨m, hsent, -, hout⟩ := outgoing_sendClient c.conn c.cmd h
  have hpack := pack_eq {} c.body (c.cmd.setWidth 16) h
  rw [Event.sent, hpack] at hsent
  rw [SendCall.wire, SendCall.pack, hpack, Option.bind_some, ← hout]
  exact congrArg outgoing (List.singleton_injective hsent)

/-- What is written in answer to a delivery: of the answers those that `timer_cb` does not
take for empty, whose packet does not begin with a zero byte. -/
def replies (k : ConnID) (x : Option Bytes) : List Bytes := (answers k x).filterMap SendCall.wire

/-- What was written to connection number `n`. -/
def writtenOn (n : ℕ) (w : World) : List Bytes :=
  (w.writes.filter fun r => r.handle.map (·.serial) = some n).map (·.data)

/-- What is still to be written for `k`. -/
def upcoming (k : ConnID) (g : GameServer) : List Bytes :=
  queued k g.world ++ (g.sends.filter (·.conn = k)).filterMap SendCall.wire ++
    (g.world.srv.recvMessage.filter (·.conn = k)).flatMap fun m => replies k (content m)

structure Answering (g : GameServer) : Prop where
  live : ∀ p n k, g.world.seen p = some (n, false) → g.world.given[n]? = some k →
    accepted k g.world = [n] →
    writtenOn n g.world ++ upcoming k g = (delivered n g.world).flatMap (replies k)
  fresh : ∀ k, accepted k g.world = [] →
    (∀ m ∈ g.world.srv.sendMessage, m.conn ≠ k) ∧ ∀ c ∈ g.sends, c.conn ≠ k
  written : ∀ r ∈ g.world.writes, ∃ a, r.handle = some a ∧ a.serial < g.world.given.length

theorem answering_init : Answering {} := by
  refine ⟨fun p n k hseen => ?_, fun k _ => ⟨nofun, nofun⟩, nofun⟩
  simp [World.seen] at hseen

/-! ### A tick -/

theorem only_of_accepted {w : World} {k : ConnID} {n j : ℕ} (h : accepted k w = [n])
    (hj : w.given[j]? = some k) : j = n := by
  have hmem := mem_accepted.mpr hj
  rw [h] at hmem
  exact List.mem_singleton.mp hmem

/-- The stream a message is written to is that of a live connection with its id. -/
theorem Sound.handle {w : World} (hs : Sound w) {k : ConnID} {p : Ptr}
    (h : w.srv.onlineID.lookup k = some p) :
    ∃ a, w.heap p = some a ∧ a.ended = false ∧ w.given[a.serial]? = some k := by
  obtain ⟨n, hseen, hk⟩ := (hs.online p k).mp ((hs.inverse p k).mpr h)
  obtain ⟨a, ha, heq⟩ := Option.map_eq_some_iff.mp hseen
  obtain ⟨rfl, hended⟩ := Prod.mk.inj heq
  exact ⟨a, ha, hended, hk⟩

theorem tick_written {w : World} (hs : Sound w) {p : Ptr} {n : ℕ} {k : ConnID}
    (hseen : w.seen p = some (n, false)) (hk : w.given[n]? = some k)
    (hone : accepted k w = [n]) (ret : ℤ) :
    writtenOn n (w.tick ret) ++ queued k (w.tick ret) = writtenOn n w ++ queued k w := by
  have hon := (hs.inverse p k).mp ((hs.online p k).mpr ⟨n, hseen, hk⟩)
  have hsame : w.tickWrites.filter (fun r => r.handle.map (·.serial) = some n) =
      w.tickWrites.filter (·.msg.conn = k) := by
    apply List.filter_congr
    intro r hr
    obtain ⟨-, haction, hheap⟩ := mem_tickWrites hr
    obtain ⟨a, ha, -, hserial⟩ := hs.handle (timerAction_write haction)
    rw [decide_eq_decide, hheap, ha, Option.map_some, Option.some.injEq]
    constructor
    · intro heq
      rw [heq, hk] at hserial
      exact (Option.some.inj hserial).symm
    · intro heq
      exact only_of_accepted hone (heq ▸ hserial)
  have hkon : ∀ m ∈ w.srv.sendMessage.head?, m.conn = k →
      ∃ q, w.srv.onlineID.lookup m.conn = some q := by
    intro m _ hm
    exact ⟨p, hm ▸ hon⟩
  rw [writtenOn, tick_writes, List.filter_append, List.map_append, hsame, List.append_assoc]
  exact congrArg (writtenOn n w ++ ·) (tick_moves hkon ret)

/-! ### The steps -/

section
variable {g : GameServer} {w : World}

theorem Answering.tick (h : Answering g) (hs : Sound g.world) (ret : ℤ) :
    Answering { g with world := g.world.tick ret } := by
  have hquiet := quiet_tick g.world ret
  have hrecv := (tick_queues g.world ret).1
  have hsend := (tick_queues g.world ret).2.2
  have haccepted : ∀ k, accepted k (g.world.tick ret) = accepted k g.world := fun k => by
    simp only [accepted, hquiet.given]
  refine ⟨fun p n k hseen hk hone => ?_, fun k hk => ?_, fun r hr => ?_⟩
  · rw [hquiet.seen] at hseen
    rw [hquiet.given] at hk
    rw [haccepted] at hone
    have hwritten := tick_written hs hseen hk hone ret
    have hall := h.live p n k hseen hk hone
    rw [delivered, (tick_popped g.world ret).2, ← delivered, ← hall]
    simp only [upcoming, hrecv, ← List.append_assoc, hwritten]
  · rw [haccepted] at hk
    refine ⟨fun m hm => (h.fresh k hk).1 m ?_, (h.fresh k hk).2⟩
    rw [hsend] at hm
    exact List.mem_of_mem_tail hm
  · rw [hquiet.given]
    rw [tick_writes] at hr
    rcases List.mem_append.mp hr with hr | hr
    · exact h.written r hr
    · obtain ⟨-, haction, hheap⟩ := mem_tickWrites hr
      obtain ⟨a, ha, -, hserial⟩ := hs.handle (timerAction_write haction)
      exact ⟨a, hheap.trans ha, (List.getElem?_eq_some_iff.mp hserial).1⟩

/-- What a callback other than a tick has to show. -/
structure Unwritten (w u : World) : Prop where
  writes : u.writes = w.writes
  send : u.srv.sendMessage = w.srv.sendMessage
  popped : u.popped = w.popped

theorem Unwritten.queued (h : Unwritten g.world w) (k : ConnID) :
    queued k w = Server.queued k g.world := by
  rw [Server.queued, h.send, Server.queued]

theorem Answering.still (h : Answering g) (hun : Unwritten g.world w) (hst : Still g.world w) :
    Answering { g with world := w } := by
  have hrecv : w.srv.recvMessage = g.world.srv.recvMessage := by
    have hpushes := hst.pushes
    rw [pushes, pushes, hun.popped] at hpushes
    exact List.append_cancel_left hpushes
  have haccepted : ∀ k, accepted k w = accepted k g.world := fun k => by
    simp only [accepted, hst.given]
  refine ⟨fun p n k hseen hk hone => ?_, fun k hk => ?_, ?_⟩
  · have hall := h.live p n k ((hst.seen p n).mp hseen) (hst.given ▸ hk) (haccepted k ▸ hone)
    simp only [writtenOn, upcoming, hun.writes, hun.queued, hrecv, delivered, hst.reads]
    exact hall
  · rw [haccepted] at hk
    rw [hun.send]
    exact h.fresh k hk
  · rw [hun.writes, hst.given]
    exact h.written

theorem Answering.arrival (h : Answering g) (hun : Unwritten g.world w) {j : ℕ} {x : Option Bytes}
    (ha : Arrival g.world w j x) : Answering { g with world := w } := by
  obtain ⟨m, hpush, hcontent, -, hgiven, -⟩ := ha.push
  have hrecv : w.srv.recvMessage = g.world.srv.recvMessage ++ [m] := by
    rw [pushes, pushes, hun.popped, List.append_assoc] at hpush
    exact List.append_cancel_left hpush
  have haccepted : ∀ k, accepted k w = accepted k g.world := fun k => by
    simp only [accepted, ha.given]
  refine ⟨fun p n k hseen hk hone => ?_, fun k hk => ?_, ?_⟩
  · rw [ha.given] at hk
    rw [haccepted] at hone
    have hall := h.live p n k ((ha.seen p n).mp hseen).1 hk hone
    rw [ha.delivered_eq, List.flatMap_append, ← hall]
    by_cases hm : m.conn = k
    · have hj : j = n := only_of_accepted hone (hm ▸ hgiven)
      simp only [writtenOn, upcoming, hun.writes, hun.queued, hrecv, List.filter_append,
        List.filter_cons_of_pos, hm, decide_true, List.filter_nil, List.flatMap_append,
        List.flatMap_cons, List.flatMap_nil, hcontent, hj, if_pos, List.append_assoc]
    · have hj : n ≠ j := by
        rintro rfl
        rw [hk] at hgiven
        exact hm (Option.some.inj hgiven).symm
      simp only [writtenOn, upcoming, hun.writes, hun.queued, hrecv, List.filter_append, hm,
        decide_false, List.filter_cons_of_neg, Bool.false_eq_true, not_false_eq_true,
        List.filter_nil, List.append_nil, if_neg hj, List.flatMap_nil]
  · rw [haccepted] at hk
    rw [hun.send]
    exact h.fresh k hk
  · rw [hun.writes, ha.given]
    exact h.written

theorem not_pushed {w : World} (hsep : Separated w) {k : ConnID} (h : accepted k w = []) :
    (pushes w).filter (·.conn = k) = [] := by
  have htagged := hsep.tagged k
  rw [h, List.flatMap_nil, tagged, List.map_eq_nil_iff] at htagged
  exact htagged

theorem Answering.accept (h : Answering g) (hg : Healthy g.world) {p : Ptr} (hnull : p ≠ 0)
    (hfree : g.world.heap p = none) : Answering { g with world := g.world.accept p } := by
  obtain ⟨hrecv, hsend⟩ := accept_queues g.world hnull
  refine ⟨fun q n k hseen hk hone => ?_, fun k hk => ?_, fun r hr => ?_⟩
  · rw [accept_accepted] at hone
    have hparts : writtenOn n (g.world.accept p) ++ upcoming k { g with world := g.world.accept p } =
        writtenOn n g.world ++ upcoming k g := by
      simp only [writtenOn, upcoming, queued, hrecv, hsend]
      rfl
    rw [hparts]
    cases (accept_live hfree q n).mp hseen with
    | inl hnew =>
      obtain ⟨-, rfl⟩ := hnew
      have hgone : accepted k g.world = [] := by
        rw [accept_given, List.getElem?_concat_length] at hk
        rw [if_pos (Option.some.inj hk)] at hone
        exact List.append_cancel_right (hone.trans (List.nil_append _).symm)
      obtain ⟨hqueue, hcalls⟩ := h.fresh k hgone
      have hwritten : writtenOn g.world.given.length g.world = [] := by
        rw [writtenOn, List.filter_eq_nil_iff.mpr, List.map_nil]
        intro r hr
        obtain ⟨a, ha, hlt⟩ := h.written r hr
        rw [ha, Option.map_some, decide_eq_true_eq, Option.some.injEq]
        omega
      have hpushed := not_pushed hg.separated hgone
      rw [pushes, List.filter_append] at hpushed
      have hnone : upcoming k g = [] := by
        rw [upcoming, queued, (List.append_eq_nil_iff.mp hpushed).2,
          List.filter_eq_nil_iff.mpr fun m hm => by simpa using hqueue m hm,
          List.filter_eq_nil_iff.mpr fun c hc => by simpa using hcalls c hc]
        rfl
      rw [hwritten, hnone]
      show [] = (delivered g.world.given.length g.world).flatMap (replies k)
      rw [hg.separated.delivered_next, List.flatMap_nil]
    | inr hq =>
      have hlt := hg.sound.serial q n _ hq
      rw [accept_given_old hlt] at hk
      have hne : g.world.srv.getConnectionID.1 ≠ k := fun heq =>
        hg.sound.given_ne hnull hfree hq (heq ▸ hk)
      rw [if_neg hne, List.append_nil] at hone
      exact h.live q n k hq hk hone
  · rw [accept_accepted, List.append_eq_nil_iff] at hk
    show (∀ m ∈ (g.world.accept p).srv.sendMessage, m.conn ≠ k) ∧ _
    rw [hsend]
    exact h.fresh k hk.1
  · obtain ⟨a, ha, hlt⟩ := h.written r hr
    refine ⟨a, ha, ?_⟩
    show a.serial < (g.world.accept p).given.length
    rw [accept_given, List.length_append]
    exact Nat.lt_add_right _ hlt

theorem Answering.net {e : Event} (h : Answering g) (hg : Healthy g.world) (hnet : e.OfNetwork)
    (hno : NoDisconnect g.world e) (hstep : Step g.world e w) : Answering { g with world := w } := by
  rcases step_sent hstep with ⟨ret, rfl, rfl⟩ | ⟨hwrites, hsend⟩
  · exact h.tick hg.sound ret
  · rw [network_sent hnet, List.append_nil] at hsend
    have hun : Unwritten g.world w := ⟨hwrites, hsend, (network_handling hnet hstep).2⟩
    rcases step_delivers hg.sound (hg.undisturbed.closesEnded hstep) hstep with
      hst | ⟨j, x, ha⟩ | ⟨p, rfl, hnull, hfree, rfl⟩
    · exact h.still hun hst
    · exact h.arrival hun ha
    · exact h.accept hg hnull hfree

end

theorem answers_filter (k : ConnID) (m : Message) :
    ((answers m.conn (content m)).filter (·.conn = k)).filterMap SendCall.wire =
      if m.conn = k then replies k (content m) else [] := by
  split_ifs with hm
  · rw [List.filter_eq_self.mpr fun c hc => by simpa [hm] using answers_conn _ _ c hc, hm]
    rfl
  · rw [List.filter_eq_nil_iff.mpr fun c hc => by simpa [answers_conn _ _ c hc] using hm]
    rfl

/-- Taking a message moves its answers from what is to be answered to what is to be sent. -/
theorem poll_upcoming {g u : GameServer} (hg : Serving g) (hidle : g.current = none)
    (hpoll : g.poll = some u) (k : ConnID) : upcoming k u = upcoming k g := by
  rcases poll_cases hg hpoll with ⟨-, rfl⟩ | ⟨m, rest, hrecv, hworld, -, hsends, -⟩
  · rfl
  · have hrest := (pop_cons hrecv).1
    have hsend : g.world.pop.srv.sendMessage = g.world.srv.sendMessage := by
      simp only [World.pop, TCPServer.getRecvMessage, hrecv]
    rw [upcoming, upcoming, hworld, hsends, hg.idle hidle, hrecv, hrest, queued, hsend, ← queued,
      answers_filter, List.filter_nil, List.filterMap_nil, List.append_nil, List.append_assoc]
    congr 1
    split_ifs with hm
    · rw [List.filter_cons_of_pos (by simpa using hm), List.flatMap_cons]
    · rw [List.filter_cons_of_neg (by simpa using hm), List.nil_append]

theorem Answering.poll {g u : GameServer} (h : Answering g) (hg : Serving g)
    (hidle : g.current = none) (hpoll : g.poll = some u) : Answering u := by
  rcases poll_cases hg hpoll with ⟨-, rfl⟩ | ⟨m, rest, hrecv, hworld, -, hsends, -⟩
  · exact h
  · have hst := still_pop g.world
    obtain ⟨hwrites, hsend⟩ : g.world.pop.writes = g.world.writes ∧
        g.world.pop.srv.sendMessage = g.world.srv.sendMessage := by
      simp only [World.pop, TCPServer.getRecvMessage, hrecv, and_self]
    have haccepted : ∀ k, accepted k g.world.pop = accepted k g.world := fun k => by
      simp only [accepted, hst.given]
    have hup := poll_upcoming hg hidle hpoll
    refine ⟨fun p n k hseen hk hone => ?_, fun k hk => ?_, ?_⟩
    · rw [hworld] at hseen hk hone
      have hall := h.live p n k ((hst.seen p n).mp hseen) (hst.given ▸ hk) (haccepted k ▸ hone)
      rw [hup, hworld, writtenOn, hwrites, ← writtenOn, hall, delivered, delivered, hst.reads]
    · rw [hworld, haccepted] at hk
      rw [hworld, hsend, hsends]
      refine ⟨(h.fresh k hk).1, fun c hc heq => ?_⟩
      have hmem : m ∈ (pushes g.world).filter (·.conn = k) := by
        rw [List.mem_filter, pushes, hrecv]
        rw [answers_conn _ _ c hc] at heq
        exact ⟨List.mem_append_right _ List.mem_cons_self, by simpa using heq⟩
      rw [not_pushed hg.world.separated hk] at hmem
      exact absurd hmem List.not_mem_nil
    · rw [hworld, hwrites, hst.given]
      exact h.written

/-- A call of `SendClient` moves its packet into the queue. -/
theorem send_upcoming {g u : GameServer} {m : Message} {c : SendCall} {cs : List SendCall}
    (hsends : g.sends = c :: cs) (hsend : g.send m c = some u) (k : ConnID) :
    upcoming k u = upcoming k g := by
  obtain ⟨r, hr, rfl⟩ := Option.map_eq_some_iff.mp hsend
  have hwire : c.wire = outgoing ⟨c.conn, r.2.len.setWidth 32, some r.1, m.origin⟩ := by
    rw [SendCall.wire, hr]
    rfl
  have hsend : ({ g.world with
      srv := g.world.srv.pushSendMessage c.conn (some r.1) (r.2.len.setWidth 32) m.origin } :
        World).srv.sendMessage =
      g.world.srv.sendMessage ++ [⟨c.conn, r.2.len.setWidth 32, some r.1, m.origin⟩] := rfl
  have hqueue := queued_append (k := k) hsend
  rw [upcoming, upcoming, hqueue, hsends, List.tail_cons]
  by_cases hc : c.conn = k
  · simp only [List.filter_cons_of_pos, hc, decide_true, List.filter_nil, List.filterMap_cons,
      List.filterMap_nil, hwire, List.append_assoc]
    split <;> rfl
  · simp only [List.filter_cons_of_neg, hc, decide_false, Bool.false_eq_true, not_false_eq_true,
      List.filter_nil, List.filterMap_nil, List.append_nil]
    rfl

theorem Answering.send {g u : GameServer} (h : Answering g) {m : Message} {c : SendCall}
    {cs : List SendCall} (hsends : g.sends = c :: cs) (hsend : g.send m c = some u) :
    Answering u := by
  have hup := send_upcoming hsends hsend
  obtain ⟨r, hr, rfl⟩ := Option.map_eq_some_iff.mp hsend
  refine ⟨fun p n k hseen hk hone => ?_, fun k hk => ?_, h.written⟩
  · rw [hup]
    exact h.live p n k hseen hk hone
  · obtain ⟨hqueue, hcalls⟩ := h.fresh k hk
    rw [hsends, List.forall_mem_cons] at hcalls
    refine ⟨List.forall_mem_append.mpr ⟨hqueue, ?_⟩, ?_⟩
    · exact fun m' hm' => List.mem_singleton.mp hm' ▸ hcalls.1
    · rw [hsends]
      exact hcalls.2

theorem answering_step {g u : GameServer} {e : GameEvent} (h : Answering g) (hg : Serving g)
    (hstep : GameServer.Step g e u) : Answering u := by
  have hno := (step_world hg hstep).2
  cases hstep with
  | net hnet hnext => exact h.net hg.world hnet hno hnext
  | poll hidle hpoll => exact h.poll hg hidle hpoll
  | send hcurrent hsends hsend => exact h.send hsends hsend
  | done hcurrent hsends => exact ⟨h.live, h.fresh, h.written⟩

theorem answering_run {tr : List (GameServer × GameEvent)} {g : GameServer}
    (hrun : Run GameServer.Step {} tr g) : Answering g := by
  induction hrun with
  | nil => exact answering_init
  | snoc hprev hlast ih => exact answering_step ih (serving_run hprev) hlast

/-! ### What a client gets -/

/-- At every moment, what was written to a connection that is online and whose id no
other had, with what is still to be written, is the answers to its chunks in order. -/
theorem answers_in_order (tr : List (GameServer × GameEvent)) (g : GameServer)
    (hrun : Run GameServer.Step {} tr g) (p : Ptr) (n : ℕ) (k : ConnID)
    (honline : g.world.seen p = some (n, false)) (hk : g.world.given[n]? = some k)
    (hone : accepted k g.world = [n]) :
    writtenOn n g.world ++ upcoming k g = (delivered n g.world).flatMap (replies k) :=
  (answering_run hrun).live p n k honline hk hone

/-- A client whose requests arrive one in a chunk gets the answers to those that are
not dropped, in the order of the requests. -/
theorem requests_answered_in_order (tr : List (GameServer × GameEvent)) (g : GameServer)
    (hrun : Run GameServer.Step {} tr g) (p : Ptr) (n : ℕ) (k : ConnID)
    (honline : g.world.seen p = some (n, false)) (hk : g.world.given[n]? = some k)
    (hone : accepted k g.world = [n]) (rs : List Request)
    (hrs : ∀ r ∈ rs, r.Encodable ∧ r.body.length ≤ maxBody)
    (hsent : delivered n g.world = rs.map fun r => some (packet r.cmd r.body)) :
    writtenOn n g.world ++ upcoming k g = rs.flatMap fun r =>
      if r.body = [] ∨ (0 : Byte) ∈ r.body then []
      else (r.answer ∅ k).2.filterMap SendCall.wire := by
  rw [(answering_run hrun).live p n k honline hk hone, hsent, List.flatMap_map]
  apply List.flatMap_congr
  intro r hr
  obtain ⟨hencodable, hmax⟩ := hrs r hr
  rw [replies, answers, served_request ∅ k hencodable hmax]
  split_ifs <;> rfl

/-- Every buffer goes to a stream that is allocated, has not ended and is not closing. -/
theorem writes_alive (tr : List (GameServer × GameEvent)) (g : GameServer)
    (hrun : Run GameServer.Step {} tr g) :
    ∀ r ∈ g.world.writes, ∃ a, r.handle = some a ∧ a.ended = false ∧ a.shutting = false ∧
      a.closing = false := by
  induction hrun with
  | nil => exact nofun
  | @snoc tr t e u hprev hlast ih =>
    intro r hr
    have hserving := serving_run hprev
    rcases step_writes (step_world hserving hlast).1 hr with hr | ⟨-, hconn, hheap⟩
    · exact ih r hr
    · obtain ⟨a, ha, hended, -⟩ := hserving.world.sound.handle hconn
      have htorn := hserving.world.undisturbed.torn _ a ha
      have hflags : ¬(a.shutting = true ∨ a.closing = true) := fun hflag => by
        rw [htorn hflag] at hended
        exact absurd hended (by simp)
      rw [not_or, Bool.not_eq_true, Bool.not_eq_true] at hflags
      exact ⟨a, hheap.trans ha, hended, hflags⟩

/-! ### A login -/

/-- A client asked to log in as "a", and the logic thread took the request. -/
def asking : GameServer where
  world := (({} : World).accept 64).readData 64 { serial := 0 } (packet 2 [0x0A, 0x01, 0x61]) []

def taken : GameServer := asking.poll.getD asking

/-- The answer is queued. -/
def loggedIn : GameServer :=
  (taken.send (taken.current.getD ⟨0, 0, none, none⟩) ⟨1, 1, [0x0A, 0x01, 0x61]⟩).getD taken

def loginTrace : List (GameServer × GameEvent) :=
  [({}, .net (.accept 64)),
    ({ world := ({} : World).accept 64 }, .net (.readData 64 (packet 2 [0x0A, 0x01, 0x61]) [])),
    (asking, .poll), (taken, .send)]

theorem accept_step : GameServer.Step {} (.net (.accept 64)) { world := ({} : World).accept 64 } :=
  .net trivial (.accept (by decide) rfl)

theorem asking_step : GameServer.Step { world := ({} : World).accept 64 }
    (.net (.readData 64 (packet 2 [0x0A, 0x01, 0x61]) [])) asking :=
  .net trivial (.readData (h := { serial := 0 }) ⟨rfl, rfl, rfl⟩ (by decide) (by decide))

theorem taken_step : GameServer.Step asking .poll taken := .poll rfl rfl

theorem loggedIn_step : GameServer.Step taken .send loggedIn := by
  have hsends : taken.sends = [⟨1, 1, [0x0A, 0x01, 0x61]⟩] := rfl
  exact .send rfl hsends rfl

theorem answered_step : GameServer.Step loggedIn (.net (.timer 0))
    { loggedIn with world := loggedIn.world.tick 0 } :=
  .net trivial (.timer rfl)

theorem loggedIn_run : Run GameServer.Step {} loginTrace loggedIn :=
  (((Run.nil.snoc accept_step).snoc asking_step).snoc taken_step).snoc loggedIn_step

theorem answers_in_order_login :
    writtenOn 0 loggedIn.world ++ upcoming 1 loggedIn =
      (delivered 0 loggedIn.world).flatMap (replies 1) :=
  answers_in_order loginTrace loggedIn loggedIn_run 64 0 1 rfl rfl rfl

theorem requests_answered_in_order_login :
    writtenOn 0 loggedIn.world ++ upcoming 1 loggedIn =
      [Request.login { userName := some [0x61] }].flatMap fun r =>
        if r.body = [] ∨ (0 : Byte) ∈ r.body then []
        else (r.answer ∅ 1).2.filterMap SendCall.wire := by
  refine requests_answered_in_order loginTrace loggedIn loggedIn_run 64 0 1 rfl rfl rfl _ ?_ rfl
  intro r hr
  rw [List.mem_singleton.mp hr]
  exact ⟨@Protobuf.parse_encodable Protobuf.CRequestLogin _ [0x0A, 0x01, 0x61] _ rfl, by decide⟩

theorem writes_alive_login :
    ∃ r a, (loggedIn.world.tick 0).writes = [r] ∧ r.handle = some a ∧ a.ended = false ∧
      a.shutting = false ∧ a.closing = false := by
  have hne : (loggedIn.world.tick 0).writes ≠ [] := by decide
  obtain ⟨a, ha⟩ := writes_alive _ _ (loggedIn_run.snoc answered_step) _ (List.head_mem hne)
  exact ⟨_, a, rfl, ha⟩

/-- The answer to the login is on its way. -/
example : upcoming 1 loggedIn = [packet 1 [0x0A, 0x01, 0x61]] := by decide

end GameRes.Server
