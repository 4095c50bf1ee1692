import GameRes.Server.Answers

/-!
# Answers and their connections (Server/Server.cpp:33-49, NetApp/NetFrame.cpp:183-230)

An id is given again once its connection has ended, and an answer is dropped when nobody
has its id. Here the answers go by the connection whose chunk they answer.
-/

namespace GameRes.Server
open Library NetApp

/-- What was written in answer to connection number `n`, to whichever stream. -/
def writtenFor (n : ℕ) (w : World) : List Bytes :=
  (w.writes.filter fun r => r.msg.origin = some n).map (·.data)

/-- The queued packets in answer to connection number `n`. -/
def queuedFor (n : ℕ) (w : World) : List Bytes :=
  (w.srv.sendMessage.filter (·.origin = some n)).filterMap outgoing

/-- The calls still to be made for connection number `n`. -/
def callsFor (n : ℕ) (g : GameServer) : List SendCall :=
  if g.current.bind MessageInfo.origin = some n then g.sends else []

def answered (ms : List Message) : List Bytes := ms.flatMap fun m => replies m.conn (content m)

/-- What is under way in answer to connection number `n`. -/
def underWay (n : ℕ) (g : GameServer) : List Bytes :=
  queuedFor n g.world ++ (callsFor n g).filterMap SendCall.wire ++
    answered (g.world.srv.recvMessage.filter (·.origin = some n))

/-- The answers to all that was pushed for connection number `n`. -/
def owed (n : ℕ) (w : World) : List Bytes := answered ((pushes w).filter (·.origin = some n))

/-- The answers to a connection that is online are all there, of the others some. -/
structure Owing (g : GameServer) : Prop where
  sourced : ∀ n, ((pushes g.world).filter (·.origin = some n)).map content = delivered n g.world
  named : ∀ m ∈ g.world.srv.sendMessage, ∃ n, m.origin = some n ∧ g.world.given[n]? = some m.conn
  kept : ∀ n, (writtenFor n g.world ++ underWay n g).Sublist (owed n g.world)
  live : ∀ p n, g.world.seen p = some (n, false) →
    writtenFor n g.world ++ underWay n g = owed n g.world

theorem owing_init : Owing {} := by
  have hnone : ∀ n, writtenFor n {} ++ underWay n {} = [] := by
    intro n
    simp [writtenFor, underWay, queuedFor, callsFor, answered]
  refine ⟨fun _ => rfl, nofun, fun n => ?_, fun p n _ => hnone n⟩
  rw [hnone]
  exact List.nil_sublist _

/-! ### A tick -/

theorem writtenFor_tick (n : ℕ) (w : World) (ret : ℤ) :
    writtenFor n (w.tick ret) =
      writtenFor n w ++ (w.tickWrites.filter fun r => r.msg.origin = some n).map (·.data) := by
  rw [writtenFor, tick_writes, List.filter_append, List.map_append, writtenFor]

theorem tick_writtenFor (n : ℕ) (w : World) (ret : ℤ) :
    (writtenFor n (w.tick ret) ++ queuedFor n (w.tick ret)).Sublist
      (writtenFor n w ++ queuedFor n w) := by
  rw [writtenFor_tick, List.append_assoc]
  exact (tick_sublist w (fun m => m.origin = some n) ret).append_left _

/-- What is queued for a connection that is online is not dropped. -/
theorem tick_live {w : World} (hs : Sound w)
    (hnamed : ∀ m ∈ w.srv.sendMessage, ∃ n, m.origin = some n ∧ w.given[n]? = some m.conn) {p : Ptr}
    {n : ℕ} (hseen : w.seen p = some (n, false)) (ret : ℤ) :
    writtenFor n (w.tick ret) ++ queuedFor n (w.tick ret) = writtenFor n w ++ queuedFor n w := by
  have hon : ∀ m ∈ w.srv.sendMessage.head?, m.origin = some n →
      ∃ q, w.srv.onlineID.lookup m.conn = some q := by
    intro m hm horigin
    obtain ⟨j, hj, hgiven⟩ := hnamed m (List.mem_of_mem_head? hm)
    rw [horigin, Option.some.injEq] at hj
    exact ⟨p, (hs.inverse p m.conn).mp ((hs.online p m.conn).mpr ⟨n, hseen, hj ▸ hgiven⟩)⟩
  rw [writtenFor_tick, List.append_assoc]
  exact congrArg (writtenFor n w ++ ·) (tick_moves hon ret)

theorem step_given {w u : World} {e : Event} (hs : Sound w) (hstep : Step w e u) {n : ℕ} {k : ConnID}
    (hk : w.given[n]? = some k) : u.given[n]? = some k := by
  rcases step_cases hs hstep with hq | ⟨p, rfl, -, -, rfl⟩ | ⟨p, a, j, b, -, -, -, rfl⟩ |
    ⟨p, a, rfl, -, rfl⟩
  · rwa [hq.given]
  · rwa [accept_given_old (List.getElem?_eq_some_iff.mp hk).1]
  · exact hk
  · exact hk

/-! ### The steps -/

section
variable {g u : GameServer} {w : World}

theorem Owing.tick (h : Owing g) (hs : Sound g.world) (ret : ℤ) :
    Owing { g with world := g.world.tick ret } := by
  have hquiet := quiet_tick g.world ret
  obtain ⟨hrecv, -, hsend⟩ := tick_queues g.world ret
  obtain ⟨hpopped, hreads⟩ := tick_popped g.world ret
  have hpushes : pushes (g.world.tick ret) = pushes g.world := by
    rw [pushes, hpopped, hrecv, pushes]
  refine ⟨fun n => ?_, fun m hm => ?_, fun n => ?_, fun p n hseen => ?_⟩
  · rw [hpushes, delivered, hreads]
    exact h.sourced n
  · rw [hsend] at hm
    rw [hquiet.given]
    exact h.named m (List.mem_of_mem_tail hm)
  · rw [owed, hpushes, ← owed, underWay, hrecv, ← List.append_assoc, ← List.append_assoc]
    refine List.Sublist.trans ?_ (h.kept n)
    rw [underWay, ← List.append_assoc, ← List.append_assoc]
    exact ((tick_writtenFor n g.world ret).append_right _).append_right _
  · rw [hquiet.seen] at hseen
    rw [owed, hpushes, ← owed, ← h.live p n hseen, underWay, underWay, hrecv, ← List.append_assoc,
      ← List.append_assoc, ← List.append_assoc, ← List.append_assoc]
    have hmoved := tick_live hs h.named hseen ret
    rw [hmoved]
    rfl

theorem Unwritten.for (hun : Unwritten g.world w) (n : ℕ) :
    writtenFor n w = writtenFor n g.world ∧ queuedFor n w = queuedFor n g.world := by
  rw [writtenFor, hun.writes, queuedFor, hun.send]
  exact ⟨rfl, rfl⟩

theorem Unwritten.recvMessage {ms : List Message} (hun : Unwritten g.world w)
    (hpushes : pushes w = pushes g.world ++ ms) :
    w.srv.recvMessage = g.world.srv.recvMessage ++ ms := by
  rw [pushes, pushes, hun.popped, List.append_assoc] at hpushes
  exact List.append_cancel_left hpushes

/-- A callback that pushes `ms`; a connection that is new did not deliver anything yet. -/
theorem Owing.pushed {e : Event} (h : Owing g) (hs : Sound g.world) (hstep : Step g.world e w)
    (hun : Unwritten g.world w) {ms : List Message} (hpushes : pushes w = pushes g.world ++ ms)
    (hreads : ∀ n, delivered n w =
      delivered n g.world ++ (ms.filter (·.origin = some n)).map content)
    (hseen : ∀ p n, w.seen p = some (n, false) →
      g.world.seen p = some (n, false) ∨ delivered n w = []) :
    Owing { g with world := w } := by
  have hsourced : ∀ n, ((pushes w).filter (·.origin = some n)).map content = delivered n w := by
    intro n
    rw [hpushes, List.filter_append, List.map_append, h.sourced, hreads]
  have hparts : ∀ n, writtenFor n w ++ underWay n { g with world := w } =
      writtenFor n g.world ++ underWay n g ++ answered (ms.filter (·.origin = some n)) := by
    intro n
    obtain ⟨hwritten, hqueued⟩ := hun.for n
    rw [underWay, hun.recvMessage hpushes, hwritten, hqueued, List.filter_append, answered,
      List.flatMap_append, underWay, List.append_assoc, List.append_assoc, List.append_assoc]
    simp only [answered, List.append_assoc]
    rfl
  have howed : ∀ n, owed n w = owed n g.world ++ answered (ms.filter (·.origin = some n)) := by
    intro n
    rw [owed, hpushes, List.filter_append, answered, List.flatMap_append]
    rfl
  have hkept : ∀ n, (writtenFor n w ++ underWay n { g with world := w }).Sublist (owed n w) := by
    intro n
    rw [hparts, howed]
    exact (h.kept n).append_right _
  refine ⟨hsourced, fun m hm => ?_, hkept, fun p n hon => ?_⟩
  · rw [hun.send] at hm
    obtain ⟨n, hn, hk⟩ := h.named m hm
    exact ⟨n, hn, step_given hs hstep hk⟩
  · rcases hseen p n hon with hold | hnone
    · rw [hparts, howed, h.live p n hold]
    · have hnil := hkept n
      rw [← hsourced n, List.map_eq_nil_iff] at hnone
      rw [owed, hnone] at hnil ⊢
      exact List.eq_nil_of_sublist_nil hnil

theorem Owing.net {e : Event} (h : Owing g) (hg : Healthy g.world) (hnet : e.OfNetwork)
    (hstep : Step g.world e w) : Owing { g with world := w } := by
  rcases step_sent hstep with ⟨ret, rfl, rfl⟩ | ⟨hwrites, hsend⟩
  · exact h.tick hg.sound ret
  · rw [network_sent hnet, List.append_nil] at hsend
    have hun : Unwritten g.world w := ⟨hwrites, hsend, (network_handling hnet hstep).2⟩
    rcases step_delivers hg.sound (hg.undisturbed.closesEnded hstep) hstep with
      hst | ⟨j, x, ha⟩ | ⟨p, rfl, hnull, hfree, rfl⟩
    · refine h.pushed hg.sound hstep hun (hst.pushes.trans (List.append_nil _).symm) (fun n => ?_)
        fun p n hon => Or.inl ((hst.seen p n).mp hon)
      rw [delivered, hst.reads, ← delivered, List.filter_nil, List.map_nil, List.append_nil]
    · obtain ⟨m, hpush, hcontent, horigin, -, -⟩ := ha.push
      refine h.pushed hg.sound hstep hun hpush (fun n => ?_)
        fun p n hon => Or.inl ((ha.seen p n).mp hon).1
      rw [ha.delivered_eq]
      by_cases hn : n = j
      · rw [if_pos hn, List.filter_cons_of_pos (by simp [horigin, hn]), List.filter_nil,
          List.map_singleton, hcontent]
      · rw [if_neg hn, List.filter_cons_of_neg (by simpa [horigin] using Ne.symm hn)]
        rfl
    · refine h.pushed hg.sound hstep hun ((accept_pushes hnull).trans (List.append_nil _).symm)
        (fun n => ?_) fun q n hon => ?_
      · rw [List.filter_nil, List.map_nil, List.append_nil]
        rfl
      · rcases (accept_live hfree q n).mp hon with ⟨-, rfl⟩ | hold
        · exact Or.inr hg.separated.delivered_next
        · exact Or.inl hold

theorem callsFor_idle (hg : Serving g) (hidle : g.current = none) (n : ℕ) : callsFor n g = [] := by
  rw [callsFor, hg.idle hidle]
  split_ifs <;> rfl

/-- The message taken is answered by the calls that are to be made now. -/
theorem poll_underWay (hg : Serving g) (hidle : g.current = none) (hpoll : g.poll = some u)
    (n : ℕ) : underWay n u = underWay n g := by
  rcases poll_cases hg hpoll with ⟨-, rfl⟩ | ⟨m, rest, hrecv, hworld, -, hsends, hcurrent, -⟩
  · rfl
  · have hrest := (pop_cons hrecv).1
    have hsend : g.world.pop.srv.sendMessage = g.world.srv.sendMessage := by
      simp only [World.pop, TCPServer.getRecvMessage, hrecv]
    have hcalls : (callsFor n u).filterMap SendCall.wire =
        if m.origin = some n then replies m.conn (content m) else [] := by
      rw [callsFor, hcurrent, hsends]
      cases hbuf : m.buf with
      | none => simp [content, hbuf, replies, answers]
      | some block =>
        rw [Option.isSome_some, if_pos rfl, Option.bind_some]
        split_ifs <;> rfl
    rw [underWay, underWay, hworld, queuedFor, hsend, ← queuedFor, hcalls, hrest, hrecv,
      callsFor_idle hg hidle, List.filterMap_nil, List.append_nil, List.append_assoc]
    congr 1
    split_ifs with hm
    · rw [List.filter_cons_of_pos (by simpa using hm)]
      rfl
    · rw [List.filter_cons_of_neg (by simpa using hm)]
      rfl

theorem send_underWay {m : Message} {c : SendCall} {cs : List SendCall} (hcurrent : g.current = some m)
    (hsends : g.sends = c :: cs) (hsend : g.send m c = some u) (n : ℕ) :
    underWay n u = underWay n g := by
  obtain ⟨r, hr, rfl⟩ := Option.map_eq_some_iff.mp hsend
  have hwire : c.wire = outgoing ⟨c.conn, r.2.len.setWidth 32, some r.1, m.origin⟩ := by
    rw [SendCall.wire, hr]
    rfl
  have hqueue : (g.world.srv.pushSendMessage c.conn (some r.1) (r.2.len.setWidth 32)
        m.origin).sendMessage =
      g.world.srv.sendMessage ++ [⟨c.conn, r.2.len.setWidth 32, some r.1, m.origin⟩] := rfl
  rw [underWay, underWay, queuedFor, hqueue, callsFor, callsFor, hcurrent, hsends, List.tail_cons,
    Option.bind_some, List.filter_append, List.filterMap_append, ← queuedFor]
  by_cases hm : m.origin = some n
  · rw [List.filter_cons_of_pos (by simpa using hm), if_pos hm, if_pos hm, List.filter_nil,
      List.filterMap_cons, List.filterMap_nil, List.filterMap_cons, hwire]
    split <;> simp only [List.append_assoc, List.nil_append, List.cons_append, TCPServer.pushSendMessage]
  · rw [List.filter_cons_of_neg (by simpa using hm), if_neg hm, if_neg hm, List.filter_nil,
      List.filterMap_nil, List.append_nil]
    rfl

theorem owing_step {e : GameEvent} (h : Owing g) (hg : Serving g) (hstep : GameServer.Step g e u) :
    Owing u := by
  cases hstep with
  | net hnet hnext => exact h.net hg.world hnet hnext
  | poll hidle hpoll =>
    have hup := poll_underWay hg hidle hpoll
    rcases poll_cases hg hpoll with ⟨-, rfl⟩ | ⟨m, rest, hrecv, hworld, -⟩
    · exact h
    · have hst := still_pop g.world
      obtain ⟨hwrites, hsend⟩ : g.world.pop.writes = g.world.writes ∧
          g.world.pop.srv.sendMessage = g.world.srv.sendMessage := by
        simp only [World.pop, TCPServer.getRecvMessage, hrecv, and_self]
      refine ⟨fun n => ?_, ?_, fun n => ?_, fun p n hon => ?_⟩
      · rw [hworld, hst.pushes, delivered, hst.reads]
        exact h.sourced n
      · rw [hworld, hsend, hst.given]
        exact h.named
      · rw [hup, hworld, writtenFor, hwrites, owed, hst.pushes]
        exact h.kept n
      · rw [hworld, hst.seen] at hon
        rw [hup, hworld, writtenFor, hwrites, owed, hst.pushes]
        exact h.live p n hon
  | @send _ m c cs hcurrent hsends hsend =>
    have hup := send_underWay hcurrent hsends hsend
    obtain ⟨r, hr, rfl⟩ := Option.map_eq_some_iff.mp hsend
    refine ⟨h.sourced, List.forall_mem_append.mpr ⟨h.named, fun m' hm' => ?_⟩, fun n => ?_,
      fun p n hon => ?_⟩
    · have hpushed : m ∈ pushes g.world := List.mem_append_left _ (hg.busy m hcurrent).1
      have hconn := hg.conn hcurrent c (hsends ▸ List.mem_cons_self)
      rw [List.mem_singleton.mp hm']
      show ∃ n, m.origin = some n ∧ g.world.given[n]? = some c.conn
      rw [hconn]
      exact hg.world.separated.own m hpushed
    · rw [hup]
      exact h.kept n
    · rw [hup]
      exact h.live p n hon
  | @done m hcurrent hsends =>
    have hcalls : ∀ n, callsFor n g = [] := by
      intro n
      rw [callsFor, hsends]
      split_ifs <;> rfl
    refine ⟨h.sourced, h.named, fun n => ?_, fun p n hon => ?_⟩
    · have hkept := h.kept n
      rw [underWay, hcalls] at hkept
      exact hkept
    · have hlive := h.live p n hon
      rw [underWay, hcalls] at hlive
      exact hlive

end

theorem owing_run {tr : List (GameServer × GameEvent)} {g : GameServer}
    (hrun : Run GameServer.Step {} tr g) : Owing g := by
  induction hrun with
  | nil => exact owing_init
  | snoc hprev hlast ih => exact owing_step ih (serving_run hprev) hlast

/-! ### Every connection on its own -/

/-- What a connection is owed are the answers to what it delivered. -/
theorem owed_eq {g : GameServer} (h : Owing g) (hg : Serving g) {n : ℕ} {k : ConnID}
    (hk : g.world.given[n]? = some k) :
    owed n g.world = (delivered n g.world).flatMap (replies k) := by
  rw [← h.sourced n, List.flatMap_map, owed, answered]
  apply List.flatMap_congr
  intro m hm
  obtain ⟨hpushed, horigin⟩ := List.mem_filter.mp hm
  obtain ⟨j, hj, hgiven⟩ := hg.world.separated.own m hpushed
  rw [hj, decide_eq_true_eq, Option.some.injEq] at horigin
  rw [horigin, hk] at hgiven
  rw [Option.some.inj hgiven]

/-- Whatever ids are given again: what is written and under way in answer to a connection
are answers to what it delivered, in order and none twice, and all of them while it is
online. They travel by its id, and a stream is written only what has the id of its own
connection. -/
theorem answers_never_invented (tr : List (GameServer × GameEvent)) (g : GameServer)
    (hrun : Run GameServer.Step {} tr g) :
    (∀ n k, g.world.given[n]? = some k →
      (writtenFor n g.world ++ underWay n g).Sublist
        ((delivered n g.world).flatMap (replies k)) ∧
      ∀ p, g.world.seen p = some (n, false) →
        writtenFor n g.world ++ underWay n g = (delivered n g.world).flatMap (replies k)) ∧
    ∀ r ∈ g.world.writes, ∃ a, r.handle = some a ∧ g.world.given[a.serial]? = some r.msg.conn := by
  have howing := owing_run hrun
  refine ⟨fun n k hk => ?_, ?_⟩
  · rw [← owed_eq howing (serving_run hrun) hk]
    exact ⟨howing.kept n, fun p => howing.live p n⟩
  · induction hrun with
    | nil => exact nofun
    | @snoc tr t e u hprev hlast ih =>
      intro r hr
      have hs := (serving_run hprev).world.sound
      have hworld := (step_world (serving_run hprev) hlast).1
      rcases step_writes hworld hr with hr | ⟨-, hconn, hheap⟩
      · obtain ⟨a, ha, hgiven⟩ := ih (owing_run hprev) r hr
        exact ⟨a, ha, step_given hs hworld hgiven⟩
      · obtain ⟨a, ha, -, hgiven⟩ := hs.handle hconn
        exact ⟨a, hheap.trans ha, step_given hs hworld hgiven⟩

theorem answers_never_invented_login :
    writtenFor 0 loggedIn.world ++ underWay 0 loggedIn =
      (delivered 0 loggedIn.world).flatMap (replies 1) :=
  ((answers_never_invented loginTrace loggedIn loggedIn_run).1 0 1 rfl).2 64 rfl

/-! ### Ids that nothing under way carries -/

/-- An accept gets an id that nothing under way carries. -/
def AcceptsFresh (g : GameServer) (e : GameEvent) : Prop :=
  ∀ p, e = .net (.accept p) → ∀ x ∈ pending g.world, x.1 ≠ g.world.srv.getConnectionID.1

theorem AcceptsFresh.event {g : GameServer} {e : GameEvent} (h : AcceptsFresh g e) :
    FreshAccept g.world (e.event g) := by
  intro p heq
  cases e with
  | net e => exact h p (congrArg GameEvent.net heq)
  | poll => cases heq
  | send =>
    simp only [GameEvent.event] at heq
    split at heq
    · split at heq <;> cases heq
    · cases heq
  | done =>
    simp only [GameEvent.event] at heq
    split at heq <;> cases heq

theorem routed_run {tr : List (GameServer × GameEvent)} {g : GameServer}
    (hrun : Run GameServer.Step {} tr g) (hfresh : Meets AcceptsFresh tr) :
    Routed g.world ∧ ∀ r ∈ g.world.writes, ∃ n, r.msg.origin = some n := by
  induction hrun with
  | nil => exact ⟨⟨by simp [pending], by simp⟩, nofun⟩
  | snoc hprev hlast ih =>
    obtain ⟨htr, he⟩ := meets_snoc.mp hfresh
    obtain ⟨hrouted, horigin⟩ := ih htr
    have hhealthy := (serving_run hprev).world
    have hworld := (step_world (serving_run hprev) hlast).1
    have hclose := hhealthy.undisturbed.closesEnded hworld
    refine ⟨routed_step hrouted hhealthy.sound hclose he.event hworld, fun r hr => ?_⟩
    rcases step_writes hworld hr with hr | ⟨hsend, -, -⟩
    · exact horigin r hr
    · obtain ⟨n, hn, -⟩ := (owing_run hprev).named r.msg hsend
      exact ⟨n, hn⟩

/-- While every accept gets an id that nothing under way carries, what is written to a
connection is what is written in answer to it. -/
theorem own_answers_only (tr : List (GameServer × GameEvent)) (g : GameServer)
    (hrun : Run GameServer.Step {} tr g) (hfresh : Meets AcceptsFresh tr) (n : ℕ) (k : ConnID)
    (hk : g.world.given[n]? = some k) :
    (writtenOn n g.world ++ underWay n g).Sublist ((delivered n g.world).flatMap (replies k)) ∧
      ∀ p, g.world.seen p = some (n, false) →
        writtenOn n g.world ++ underWay n g = (delivered n g.world).flatMap (replies k) := by
  obtain ⟨hrouted, horigin⟩ := routed_run hrun hfresh
  have hsame : writtenOn n g.world = writtenFor n g.world := by
    rw [writtenOn, writtenFor]
    congr 1
    apply List.filter_congr
    intro r hr
    obtain ⟨j, hj⟩ := horigin r hr
    obtain ⟨a, ha, rfl, -⟩ := hrouted.written r hr j hj
    rw [ha, hj, Option.map_some]
  have howing := owing_run hrun
  rw [hsame, ← owed_eq howing (serving_run hrun) hk]
  exact ⟨howing.kept n, fun p => howing.live p n⟩

theorem own_answers_only_login :
    let g := { loggedIn with world := loggedIn.world.tick 0 }
    g.world.writes.length = 1 ∧
      writtenOn 0 g.world ++ underWay 0 g = (delivered 0 g.world).flatMap (replies 1) := by
  refine ⟨by decide, (own_answers_only _ _ (loggedIn_run.snoc answered_step) ?_ 0 1 rfl).2 64 rfl⟩
  intro x hx p hp y hy
  simp only [loginTrace, List.cons_append, List.nil_append, List.mem_cons, List.not_mem_nil,
    or_false] at hx
  rcases hx with rfl | rfl | rfl | rfl | rfl
  · exact absurd hy List.not_mem_nil
  all_goals cases hp

end GameRes.Server
