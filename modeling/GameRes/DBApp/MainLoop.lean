import GameRes.DBApp.DBServer

/-!
# What the main loop posts (DBApp/DBApp.cpp:19-41, DBApp/AppManager.cpp:34-85)

Nothing leaves the message list, and only user 1 has a flag. So every turn from the
first message of user 1 on posts that message again, for a `Connction` of its own.
-/

namespace GameRes.DBApp
open Library NetApp AppManager

/-- The tasks for `m` on the `Connction`s from `a` up to `b`. -/
def postings (m : Message) (a b : ℕ) : List Posted := (List.range' a (b - a)).map (posting m)

theorem postings_self (m : Message) (a : ℕ) : postings m a a = [] := by
  rw [postings, Nat.sub_self]
  rfl

theorem postings_snoc (m : Message) {a b : ℕ} (h : a ≤ b) :
    postings m a (b + 1) = postings m a b ++ [posting m b] := by
  have hlen : b + 1 - a = b - a + 1 := by omega
  have hlast : a + 1 * (b - a) = b := by omega
  rw [postings, hlen, List.range'_concat, List.map_append, hlast]
  rfl

namespace DBServer

/-- While the loop walks `itr`: user 1 has not sent anything yet, or its first message
was posted in every turn since then; in this turn it is ahead while the flag is clear. -/
structure Looping (s : DBServer) : Prop where
  only : s.app.OnlyUser
  walked : s.itr <:+ s.app.messageList
  turns : s.app.messageList.length = s.app.created
  conn : 0 < s.app.created → s.app.taskMgr.lookup 1 = some (s.app.created - 1)
  idle : s.app.messageList.find? fromUser = none → s.app.posted = [] ∧ s.itr.find? fromUser = none
  found : ∀ m, s.app.messageList.find? fromUser = some m →
    (s.app.userStatus.lookup 1 = some true ∧
      s.app.posted = postings m (s.app.messageList.findIdx fromUser) s.app.created) ∨
    (s.app.userStatus.lookup 1 = some false ∧ s.itr.find? fromUser = some m ∧
      s.app.posted = postings m (s.app.messageList.findIdx fromUser) (s.app.created - 1))

theorem looping_start : Looping {} := by
  refine ⟨fun _ _ => rfl, List.suffix_refl _, rfl, fun hpos => ?_, fun _ => ⟨rfl, rfl⟩, nofun⟩
  exact absurd hpos (Nat.lt_irrefl 0)

/-- No step but those of the main loop touches what the invariant speaks of. -/
theorem Looping.congr {s t : DBServer} (h : Looping s) (happ : t.app = s.app) (hitr : t.itr = s.itr) :
    Looping t := by
  obtain ⟨honly, hwalked, hturns, hconn, hidle, hfound⟩ := h
  rw [← happ] at honly hwalked hturns hconn hidle hfound
  rw [← hitr] at hwalked hidle hfound
  exact ⟨honly, hwalked, hturns, hconn, hidle, hfound⟩

theorem findIdx_lt {L : List Message} {m : Message} (h : L.find? fromUser = some m) :
    L.findIdx fromUser < L.length :=
  List.findIdx_lt_length_of_exists ⟨m, List.mem_of_find?_eq_some h, List.find?_some h⟩

theorem Looping.recived {s : DBServer} (h : Looping s) (hend : s.itr = []) : Looping s.recived := by
  obtain ⟨conn, buf, len, heq⟩ := s.recivedMessage_eq
  have happ : s.recived.app = (s.app.recivedMessage conn buf len).renewed := by rw [DBServer.recived, heq]
  have hitr : s.recived.itr = s.recived.app.messageList := by
    rw [happ, DBServer.recived, heq]
    rfl
  have hlist : s.recived.app.messageList =
      s.app.messageList ++ [⟨conn, len, buf, s.app.received⟩] := by rw [happ]; rfl
  have hcreated : s.recived.app.created = s.app.created + 1 := by rw [happ]; rfl
  have hflag : s.recived.app.userStatus.lookup 1 = some false := by
    rw [happ]
    exact AList.lookup_insert ..
  have hposted := s.recived_posted
  refine ⟨?_, hitr ▸ List.suffix_refl _, ?_, fun _ => ?_, fun hnone => ?_,
    fun m hm => Or.inr ⟨hflag, hitr ▸ hm, ?_⟩⟩
  · rw [happ]
    exact OnlyUser.renewed h.only
  · rw [hlist, hcreated, List.length_append, h.turns]
    rfl
  · rw [hcreated, happ]
    exact AList.lookup_insert ..
  · rw [hitr]
    refine ⟨?_, hnone⟩
    rw [hlist, List.find?_append, Option.or_eq_none_iff] at hnone
    rw [hposted]
    exact (h.idle hnone.1).1
  · rw [hposted, hcreated, Nat.add_sub_cancel, hlist, List.findIdx_append]
    rw [hlist, List.find?_append] at hm
    cases hfind : s.app.messageList.find? fromUser with
    | none =>
      -- The message just taken is the first of user 1.
      have hnot : ¬s.app.messageList.findIdx fromUser < s.app.messageList.length := by
        rw [List.findIdx_lt_length]
        rintro ⟨x, hx, huser⟩
        exact List.find?_eq_none.mp hfind x hx huser
      rw [hfind, Option.none_or, List.find?_singleton] at hm
      split_ifs at hm with huser
      rw [(h.idle hfind).1, if_neg hnot, List.findIdx_cons, huser, h.turns, cond_true, Nat.zero_add,
        postings_self]
    | some m' =>
      rw [hfind, Option.some_or] at hm
      obtain rfl := Option.some.inj hm
      rw [if_pos (findIdx_lt hfind)]
      rcases h.found m' hfind with ⟨-, hall⟩ | ⟨-, hahead, -⟩
      · exact hall
      · rw [hend] at hahead
        cases hahead

theorem Looping.skip {s : DBServer} (h : Looping s) {m : Message} {rest : List Message}
    (hitr : s.itr = m :: rest) (hturn : s.app.turn m = none) : Looping { s with itr := rest } := by
  have hsuffix : rest <:+ s.itr := hitr ▸ List.suffix_cons m rest
  refine ⟨h.only, hsuffix.trans h.walked, h.turns, h.conn, fun hnone => ?_, fun m' hm' => ?_⟩
  · obtain ⟨hposted, hahead⟩ := h.idle hnone
    rw [hitr, List.find?_cons] at hahead
    split at hahead
    · cases hahead
    · exact ⟨hposted, hahead⟩
  · rcases h.found m' hm' with hdone | ⟨hflag, hahead, hposted⟩
    · exact Or.inl hdone
    · refine Or.inr ⟨hflag, ?_, hposted⟩
      rw [hitr, List.find?_cons] at hahead
      split at hahead
      next huser =>
        -- The flag is clear and there is a `Connction`, so `m` would be posted.
        have hm : m.conn = 1 := of_decide_eq_true huser
        have hpos : 0 < s.app.created := by
          rw [← h.turns]
          exact List.length_pos_of_mem (List.mem_of_find?_eq_some hm')
        have hconn : s.app.taskMgr.lookup (m.conn.setWidth 16) = some (s.app.created - 1) := by
          rw [hm]
          exact h.conn hpos
        rw [turn_idle (hm ▸ hflag) hconn] at hturn
        cases hturn
      next => exact hahead

theorem Looping.post {s : DBServer} (h : Looping s) {m : Message} {rest : List Message} {conn : ℕ}
    (hitr : s.itr = m :: rest) (hidle : s.app.userStatus.lookup m.conn = some false)
    (hconn : s.app.taskMgr.lookup (m.conn.setWidth 16) = some conn) (workers : List DBWorker) :
    Looping (s.post m conn workers) := by
  have hmem : m ∈ s.app.messageList := h.walked.mem (hitr ▸ List.mem_cons_self)
  have hm : m.conn = 1 := by
    by_contra hne
    rw [h.only m.conn hne] at hidle
    cases hidle
  have huser : fromUser m = true := decide_eq_true hm
  have hpos : 0 < s.app.created := by
    rw [← h.turns]
    exact List.length_pos_of_mem hmem
  have hlast : conn = s.app.created - 1 := by
    rw [hm] at hconn
    exact Option.some.inj (hconn.symm.trans (h.conn hpos))
  refine ⟨fun c hc => ?_, h.walked, h.turns, h.conn, fun hnone => ?_,
    fun m' (hm' : s.app.messageList.find? fromUser = some m') => Or.inl ⟨?_, ?_⟩⟩
  · exact (AList.lookup_insert_ne (hm ▸ hc)).trans (h.only c hc)
  · exact absurd huser (List.find?_eq_none.mp hnone m hmem)
  · exact hm ▸ post_busy s.app m conn
  · rcases h.found m' hm' with ⟨hbusy, -⟩ | ⟨-, hahead, hposted⟩
    · rw [hm, hbusy] at hidle
      cases hidle
    · rw [hitr, List.find?_cons_of_pos huser] at hahead
      obtain rfl := Option.some.inj hahead
      have hlt := findIdx_lt hm'
      rw [h.turns] at hlt
      have hcreated : s.app.created = s.app.created - 1 + 1 := by omega
      show s.app.posted ++ [posting m conn] =
        postings m (s.app.messageList.findIdx fromUser) s.app.created
      rw [hcreated, postings_snoc m (by omega), hposted, hlast]

theorem looping_step {s t : DBServer} {e : DBEvent} (h : Looping s) (hstep : Step s e t) :
    Looping t := by
  cases hstep with
  | recived hend => exact h.recived hend
  | skip hitr hturn => exact h.skip hitr hturn
  | post hitr hidle hconn hworker => exact h.post hitr hidle hconn _
  | unheard hitr hidle hconn hnone => exact h.post hitr hidle hconn _
  | _ => exact h.congr rfl rfl

theorem looping_run {tr : List (DBServer × DBEvent)} {s : DBServer} (hrun : Run Step {} tr s) :
    Looping s := by
  induction hrun with
  | nil => exact looping_start
  | snoc _ hlast ih => exact looping_step ih hlast

/-- Between two turns of the main loop: each turn brought one message and one `Connction`,
and from the first message of user 1 on each turn posted that message, for its own
`Connction`. Nothing else was posted. -/
theorem same_message_posted (tr : List (DBServer × DBEvent)) (s : DBServer) (hrun : Run Step {} tr s)
    (hend : s.itr = []) :
    s.app.messageList.length = s.app.created ∧
      s.app.posted = (s.app.messageList.find? fromUser).elim [] fun m =>
        postings m (s.app.messageList.findIdx fromUser) s.app.created := by
  have h := looping_run hrun
  refine ⟨h.turns, ?_⟩
  cases hfind : s.app.messageList.find? fromUser with
  | none => exact (h.idle hfind).1
  | some m =>
    rcases h.found m hfind with ⟨-, hall⟩ | ⟨-, hahead, -⟩
    · exact hall
    · rw [hend] at hahead
      cases hahead

theorem same_message_posted_first :
    afterFirstTurn.app.messageList.length = 1 ∧
      afterFirstTurn.app.posted = postings ⟨1, 3, some [50, 50, 50, 0], 0⟩ 0 1 :=
  same_message_posted firstTurn afterFirstTurn firstTurn_run rfl

/-! ### The other users -/

/-- The bytes of a message, `none` for one without a buffer. -/
def content (m : Message) : Option Bytes := m.buf.map (·.take m.len.toNat)

/-- Of every user but the first, the message list has what the network thread handed over. -/
structure Kept (s : DBServer) : Prop where
  world : Server.Healthy s.world
  kept : ∀ k, k ≠ 1 → (s.app.messageList.filter (·.conn = k)).map content =
    (s.world.popped.filter (·.conn = k)).map Server.content

theorem Kept.recived {s : DBServer} (h : Kept s) : Kept s.recived := by
  have hno : Server.NoDisconnect s.world .pop := fun conn len heq => by cases heq
  refine ⟨Server.healthy_step h.world hno Server.Step.pop, fun k hk => ?_⟩
  have hold := h.kept k hk
  cases hrecv : s.world.srv.recvMessage with
  | nil =>
    have hpop : s.world.pop = s.world := by
      simp only [Server.World.pop, TCPServer.getRecvMessage, hrecv]
    have hlist : s.recived.app.messageList =
        s.app.messageList ++ [⟨1, 3, some [50, 50, 50, 0], s.app.received⟩] := by
      simp only [DBServer.recived, recivedMessage, TCPServer.getRecvMessage, hrecv]
      rfl
    rw [hlist, DBServer.recived, hpop, List.filter_append, List.filter_cons_of_neg (by simpa using hk.symm),
      List.filter_nil, List.append_nil]
    exact hold
  | cons m rest =>
    have hpopped : s.recived.world.popped = s.world.popped ++ [m] := (Server.pop_cons hrecv).2.1
    have hlist : s.recived.app.messageList =
        s.app.messageList ++ [⟨m.conn, m.len, m.buf, s.app.received⟩] := by
      simp only [DBServer.recived, recivedMessage, TCPServer.getRecvMessage, hrecv]
      rfl
    rw [hlist, hpopped, List.filter_append, List.filter_append, List.map_append, List.map_append, hold]
    congr 1
    by_cases hm : m.conn = k
    · rw [List.filter_cons_of_pos (by simpa using hm), List.filter_cons_of_pos (by simpa using hm)]
      rfl
    · rw [List.filter_cons_of_neg (by simpa using hm), List.filter_cons_of_neg (by simpa using hm)]
      rfl

theorem kept_step {s t : DBServer} {e : DBEvent} (h : Kept s) (hstep : Step s e t) : Kept t := by
  cases hstep with
  | @net e w hnet hnext =>
    have hno : Server.NoDisconnect s.world e := by
      rintro conn len rfl
      exact hnet
    refine ⟨Server.healthy_step h.world hno hnext, fun k hk => ?_⟩
    rw [(Server.network_handling hnet hnext).2]
    exact h.kept k hk
  | recived hend => exact h.recived
  | _ => exact ⟨h.world, h.kept⟩

theorem kept_run {tr : List (DBServer × DBEvent)} {s : DBServer} (hrun : Run Step {} tr s) :
    Kept s := by
  induction hrun with
  | nil => exact ⟨Server.healthy_init, fun _ _ => rfl⟩
  | snoc _ hlast ih => exact kept_step ih hlast

/-- For every id but 1 the message list and the receive queue hold what was delivered
under the id, one connection after the other. Nothing of it is posted. -/
theorem messages_kept_unserved (tr : List (DBServer × DBEvent)) (s : DBServer)
    (hrun : Run Step {} tr s) (k : ConnID) (hk : k ≠ 1) :
    (s.app.messageList.filter (·.conn = k)).map content ++
        (s.world.srv.recvMessage.filter (·.conn = k)).map Server.content =
      (Server.accepted k s.world).flatMap (Server.delivered · s.world) ∧
    ∀ p ∈ s.app.posted, p.message.conn ≠ k := by
  have hkept := kept_run hrun
  have hloop := looping_run hrun
  refine ⟨?_, fun p hp => ?_⟩
  · rw [hkept.kept k hk, ← hkept.world.separated.tagged, Server.tagged, Server.pushes,
      List.filter_append, List.map_append]
  · have hposted : ∃ m a b, s.app.messageList.find? fromUser = some m ∧ s.app.posted = postings m a b := by
      cases hfind : s.app.messageList.find? fromUser with
      | none =>
        rw [(hloop.idle hfind).1] at hp
        exact absurd hp List.not_mem_nil
      | some m =>
        rcases hloop.found m hfind with ⟨-, hall⟩ | ⟨-, -, hall⟩
        · exact ⟨m, _, _, rfl, hall⟩
        · exact ⟨m, _, _, rfl, hall⟩
    obtain ⟨m, a, b, hfind, hall⟩ := hposted
    rw [hall, postings, List.mem_map] at hp
    obtain ⟨c, -, rfl⟩ := hp
    have huser : fromUser m = true := List.find?_some hfind
    have hm : m.conn = 1 := of_decide_eq_true huser
    intro heq
    exact hk (heq.symm.trans hm)

/-- Two clients after the first turn: of two chunks of the second one, the main loop has
taken the first. -/
theorem messages_kept_unserved_first : ∃ s : DBServer,
    (s.app.messageList.filter (·.conn = 2)).map content = [some [9]] ∧
      (s.world.srv.recvMessage.filter (·.conn = 2)).map Server.content = [some [8]] ∧
      (Server.accepted 2 s.world).flatMap (Server.delivered · s.world) = [some [9], some [8]] ∧
      s.app.posted.length = 1 ∧ ∀ p ∈ s.app.posted, p.message.conn ≠ 2 := by
  let first := afterFirstTurn.world.accept 64
  let both := first.accept 128
  let asked := both.readData 128 { serial := 1 } [9] []
  let again := asked.readData 128 { serial := 1 } [8] []
  have hfirst : Step afterFirstTurn (.net (.accept 64)) { afterFirstTurn with world := first } :=
    .net trivial (.accept (by decide) rfl)
  have hboth : Step { afterFirstTurn with world := first } (.net (.accept 128))
      { afterFirstTurn with world := both } := .net trivial (.accept (by decide) rfl)
  have hasked : Step { afterFirstTurn with world := both } (.net (.readData 128 [9] []))
      { afterFirstTurn with world := asked } :=
    .net trivial (.readData ⟨rfl, rfl, rfl⟩ (by decide) (by decide))
  have hagain : Step { afterFirstTurn with world := asked } (.net (.readData 128 [8] []))
      { afterFirstTurn with world := again } :=
    .net trivial (.readData ⟨rfl, rfl, rfl⟩ (by decide) (by decide))
  have hrun := ((((firstTurn_run.snoc hfirst).snoc hboth).snoc hasked).snoc hagain).snoc
    (.recived rfl)
  obtain ⟨hkept, hposted⟩ := messages_kept_unserved _ _ hrun 2 (by decide)
  refine ⟨_, by decide, by decide, ?_, rfl, hposted⟩
  rw [← hkept]
  decide

end DBServer
end GameRes.DBApp
