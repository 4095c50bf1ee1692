import GameRes.Server.Teardown

/-!
# Where replies go (NetApp/NetFrame.cpp:183-230, 308-386)

A reply travels by connection id. `GetConnectionID` hands an id out again as soon
as its connection has ended, whether or not a chunk or a reply of that connection
is still under way; `timer_cb` drops a reply only when nobody has its id. An accept that
gives out an id under way can be continued to a reply on the wrong stream.
-/

namespace GameRes.Server
open Library NetApp

/-- What is still under way: the id it travels by and the connection it answers. -/
def pending (w : World) : List (ConnID × ℕ) :=
  (w.srv.recvMessage.filter (·.buf.isSome) ++ w.handling ++ w.srv.sendMessage).filterMap
    fun m => m.origin.map fun n => (m.conn, n)

/-- An accept gets an id that nothing under way carries. -/
def FreshAccept (w : World) (e : Event) : Prop :=
  ∀ p, e = .accept p → ∀ x ∈ pending w, x.1 ≠ w.srv.getConnectionID.1

/-- A reply was written to the connection whose chunk provoked it, before its end. -/
def Write.Reaches (r : Write) : Prop :=
  ∀ n, r.msg.origin = some n → ∃ a, r.handle = some a ∧ a.serial = n ∧ a.ended = false

/-- If an id is online, it is online for this connection. -/
def Owned (w : World) (x : ConnID × ℕ) : Prop :=
  ∀ p, w.srv.onlineID.lookup x.1 = some p → w.seen p = some (x.2, false)

structure Routed (w : World) : Prop where
  owned : ∀ x ∈ pending w, Owned w x
  written : ∀ r ∈ w.writes, r.Reaches

theorem Owned.quiet {w u : World} {x : ConnID × ℕ} (h : Owned w x) (hq : Quiet w u) :
    Owned u x := by
  intro p hp
  rw [hq.onlineID] at hp
  rw [hq.seen]
  exact h p hp

theorem owned_accept {w : World} {p : Ptr} (hnull : p ≠ 0)
    (hfree : w.heap p = none) {x : ConnID × ℕ} (h : Owned w x)
    (hfresh : x.1 ≠ w.srv.getConnectionID.1) : Owned (w.accept p) x := by
  intro q hq
  rw [accept_srv w hnull] at hq
  simp only [TCPServer.addConnection, (getConnectionID_tables w.srv).2,
    AList.lookup_insert_ne hfresh] at hq
  have hseen := h q hq
  have hqp : q ≠ p := by
    intro heq
    subst heq
    rw [seen_eq_none.mpr hfree] at hseen
    exact absurd hseen (by simp)
  rw [accept_seen, if_neg hqp, hseen]

theorem owned_released {w : World} (hs : Sound w) {p : Ptr} {a : Handle} {k : ConnID} (b : Bool)
    (hp : w.srv.onlineStream.lookup p = some k) {x : ConnID × ℕ} (h : Owned w x) :
    Owned (w.released p a k b) x := by
  intro q hq
  simp only [World.released] at hq
  by_cases hx : x.1 = k
  · rw [hx, AList.lookup_erase] at hq
    exact absurd hq (by simp)
  · rw [AList.lookup_erase_ne hx] at hq
    have hqp : q ≠ p := by
      intro heq
      subst heq
      exact hx (hs.inverse.id_inj hq hp)
    rw [released_seen, if_neg hqp]
    exact h q hq

theorem owned_onClose {w : World} {p : Ptr} {a : Handle} (hheap : w.heap p = some a)
    (hended : a.ended = true) {x : ConnID × ℕ} (h : Owned w x) : Owned (w.onClose p) x := by
  intro q hq
  have hseen := h q hq
  have hqp : q ≠ p := by
    intro heq
    subst heq
    rw [World.seen, hheap, Option.map_some, hended] at hseen
    exact absurd hseen (by simp)
  simpa only [World.onClose, World.seen, Function.update_of_ne hqp] using hseen

theorem owned_step {w u : World} {e : Event} (hs : Sound w) (hclose : ClosesEnded w e)
    (hstep : Step w e u) {x : ConnID × ℕ} (h : Owned w x)
    (hfresh : ∀ p, e = .accept p → x.1 ≠ w.srv.getConnectionID.1) : Owned u x := by
  rcases step_cases hs hstep with hq | ⟨p, rfl, hnull, hfree, rfl⟩ |
    ⟨p, a, k, b, hread, -, hp, rfl⟩ | ⟨p, a, rfl, hheap, rfl⟩
  · exact h.quiet hq
  · exact owned_accept hnull hfree h (hfresh p rfl)
  · exact owned_released hs b hp h
  · exact owned_onClose hheap (hclose p a rfl hheap) h

/-! ### The queues -/

theorem mem_pending {w : World} {x : ConnID × ℕ} :
    x ∈ pending w ↔ ∃ m, ((m ∈ w.srv.recvMessage ∧ m.buf.isSome = true) ∨ m ∈ w.handling ∨
      m ∈ w.srv.sendMessage) ∧ m.origin = some x.2 ∧ m.conn = x.1 := by
  simp only [pending, List.mem_filterMap, List.mem_append, List.mem_filter, or_assoc,
    Option.map_eq_some_iff]
  constructor
  · intro hall
    obtain ⟨m, hm, n, hn, rfl⟩ := hall
    exact ⟨m, hm, hn, rfl⟩
  · intro hall
    obtain ⟨m, hm, hn, hc⟩ := hall
    exact ⟨m, hm, x.2, hn, by rw [hc]⟩

theorem pending_mono {w u : World} {x : ConnID × ℕ} (hx : x ∈ pending u)
    (hrecv : ∀ m ∈ u.srv.recvMessage, m.buf.isSome = true → m ∈ w.srv.recvMessage)
    (hhandling : ∀ m ∈ u.handling, m ∈ w.handling ∨
      (m ∈ w.srv.recvMessage ∧ m.buf.isSome = true))
    (hsend : ∀ m ∈ u.srv.sendMessage, m ∈ w.srv.sendMessage ∨ m.origin = none ∨
      ∃ m' ∈ w.handling, m'.conn = m.conn ∧ m'.origin = m.origin) : x ∈ pending w := by
  obtain ⟨m, hm, horigin, hconn⟩ := mem_pending.mp hx
  rw [mem_pending]
  rcases hm with ⟨hm, hbuf⟩ | hm | hm
  · exact ⟨m, Or.inl ⟨hrecv m hm hbuf, hbuf⟩, horigin, hconn⟩
  · rcases hhandling m hm with hm' | hm'
    · exact ⟨m, Or.inr (Or.inl hm'), horigin, hconn⟩
    · exact ⟨m, Or.inl hm', horigin, hconn⟩
  · rcases hsend m hm with hm' | hnone | ⟨m', hm', hc, ho⟩
    · exact ⟨m, Or.inr (Or.inr hm'), horigin, hconn⟩
    · rw [hnone] at horigin
      exact absurd horigin (by simp)
    · exact ⟨m', Or.inr (Or.inl hm'), ho.trans horigin, hc.trans hconn⟩

theorem pending_readData {w : World} (hs : Sound w) {p : Ptr} {a : Handle} {chunk rest : Bytes}
    (hread : Reading w p a) (hne : chunk ≠ []) {x : ConnID × ℕ}
    (hx : x ∈ pending (w.readData p a chunk rest)) :
    x ∈ pending w ∨ Owned w x ∧ Quiet w (w.readData p a chunk rest) ∧ x.2 < w.given.length := by
  obtain ⟨k, hk, hp, heq⟩ := hs.readData_eq hread hne
  rw [heq] at hx ⊢
  obtain ⟨m, hm, horigin, hconn⟩ := mem_pending.mp hx
  simp only [List.mem_append, List.mem_singleton] at hm
  rcases hm with ⟨hm | rfl, hbuf⟩ | hm | hm
  · exact Or.inl (mem_pending.mpr ⟨m, Or.inl ⟨hm, hbuf⟩, horigin, hconn⟩)
  · -- The chunk itself, whose connection is online.
    have hserial : a.serial = x.2 := Option.some.inj horigin
    refine Or.inr ⟨fun q hq => ?_, ⟨rfl, rfl, rfl, rfl, fun _ => rfl, rfl⟩, ?_⟩
    · rw [← hconn] at hq
      rw [← hs.inverse.stream_inj hq hp, hread.seen, hserial]
    · rw [← hserial]
      exact hs.serial p _ _ hread.seen
  · exact Or.inl (mem_pending.mpr ⟨m, Or.inr (Or.inl hm), horigin, hconn⟩)
  · exact Or.inl (mem_pending.mpr ⟨m, Or.inr (Or.inr hm), horigin, hconn⟩)

theorem pending_readEnd {w : World} (hs : Sound w) {p : Ptr} {a : Handle} {nread : ℤ}
    {order : List ConnID} {ret : ℤ} (hread : Reading w p a) (hneg : nread < 0)
    (horder : order.Perm w.srv.onlineID.keys) {x : ConnID × ℕ}
    (hx : x ∈ pending (w.readEnd p a nread order ret)) : x ∈ pending w := by
  obtain ⟨k, b, -, -, heq⟩ := hs.readEnd_eq hread hneg horder
  rw [heq] at hx
  refine pending_mono hx (fun m hm hbuf => ?_) (fun m hm => Or.inl hm) (fun m hm => Or.inl hm)
  rcases List.mem_append.mp hm with hm | hm
  · exact hm
  · rw [List.mem_singleton.mp hm] at hbuf
    exact absurd hbuf (by simp)

theorem pending_pop {w : World} {x : ConnID × ℕ} (hx : x ∈ pending w.pop) : x ∈ pending w := by
  cases hq : w.srv.recvMessage with
  | nil =>
    simp only [World.pop, TCPServer.getRecvMessage, hq] at hx
    exact hx
  | cons m rest =>
    simp only [World.pop, TCPServer.getRecvMessage, hq] at hx
    refine pending_mono hx (fun m' hm' _ => hq ▸ List.mem_cons_of_mem _ hm') (fun m' hm' => ?_)
      (fun m' hm' => Or.inl hm')
    by_cases hbuf : m.buf.isSome = true
    · rw [if_pos hbuf, List.mem_append, List.mem_singleton] at hm'
      rcases hm' with hm' | rfl
      · exact Or.inl hm'
      · exact Or.inr ⟨hq ▸ List.mem_cons_self, hbuf⟩
    · rw [if_neg hbuf] at hm'
      exact Or.inl hm'

theorem pending_queued {w u : World} {m : Message} {x : ConnID × ℕ} (hx : x ∈ pending u)
    (hrecv : u.srv.recvMessage = w.srv.recvMessage) (hhandling : u.handling = w.handling)
    (hsend : u.srv.sendMessage = w.srv.sendMessage ++ [m])
    (hm : m.origin = none ∨ ∃ m' ∈ w.handling, m'.conn = m.conn ∧ m'.origin = m.origin) :
    x ∈ pending w := by
  refine pending_mono hx (fun m' hm' _ => hrecv ▸ hm') (fun m' hm' => Or.inl (hhandling ▸ hm'))
    (fun m' hm' => ?_)
  rw [hsend, List.mem_append, List.mem_singleton] at hm'
  rcases hm' with hm' | rfl
  · exact Or.inl hm'
  · exact Or.inr hm

theorem pending_step {w u : World} {e : Event} (hs : Sound w) (hstep : Step w e u)
    {x : ConnID × ℕ} (hx : x ∈ pending u) :
    x ∈ pending w ∨ Owned w x ∧ Quiet w u ∧ x.2 < w.given.length := by
  cases hstep with
  | @accept p hnull hfree =>
    left
    have hq := accept_queues w hnull
    exact pending_mono hx (fun m hm _ => hq.1 ▸ hm) (fun m hm => Or.inl hm)
      (fun m hm => Or.inl (hq.2 ▸ hm))
  | acceptFailed hfail =>
    rw [TCPServer.onConnection_fail _ hfail] at hx
    exact Or.inl hx
  | readData hread hne hlen => exact pending_readData hs hread hne hx
  | readNothing hread => exact Or.inl hx
  | readEnd hread hneg horder => exact Or.inl (pending_readEnd hs hread hneg horder hx)
  | afterShutdown hheap hshut => exact Or.inl hx
  | onClose hheap hclosing => exact Or.inl hx
  | timer htimer =>
    left
    obtain ⟨hrecv, hhandling, hsend⟩ := tick_queues w _
    exact pending_mono hx (fun m hm _ => hrecv ▸ hm) (fun m hm => Or.inl (hhandling ▸ hm))
      (fun m hm => Or.inl (List.mem_of_mem_tail (hsend ▸ hm)))
  | pop => exact Or.inl (pending_pop hx)
  | reply hm => exact Or.inl (pending_queued hx rfl rfl rfl (Or.inr ⟨_, hm, rfl, rfl⟩))
  | handled =>
    exact Or.inl (pending_mono hx (fun m' hm' _ => hm')
      (fun m' hm' => Or.inl (List.mem_of_mem_erase hm')) (fun m' hm' => Or.inl hm'))
  | push => exact Or.inl (pending_queued hx rfl rfl rfl (Or.inl rfl))
  | sendClient hsend =>
    obtain ⟨r, -, rfl⟩ := Option.map_eq_some_iff.mp hsend
    exact Or.inl (pending_queued hx rfl rfl rfl (Or.inl rfl))
  | close => exact Or.inl hx

/-! ### The writes -/

theorem step_writes {w u : World} {e : Event} (hstep : Step w e u) {r : Write}
    (hr : r ∈ u.writes) :
    r ∈ w.writes ∨ r.msg ∈ w.srv.sendMessage ∧
      w.srv.onlineID.lookup r.msg.conn = some r.stream ∧ r.handle = w.heap r.stream := by
  rcases step_sent hstep with ⟨ret, -, rfl⟩ | ⟨hwrites, -⟩
  · rw [tick_writes] at hr
    rcases List.mem_append.mp hr with hr | hr
    · exact Or.inl hr
    · obtain ⟨⟨rest, hq⟩, haction, hheap⟩ := mem_tickWrites hr
      exact Or.inr ⟨hq ▸ List.mem_cons_self, timerAction_write haction, hheap⟩
  · exact Or.inl (hwrites ▸ hr)

theorem reaches_of_owned {w : World} {r : Write} (howned : ∀ x ∈ pending w, Owned w x)
    (hsend : r.msg ∈ w.srv.sendMessage) (hon : w.srv.onlineID.lookup r.msg.conn = some r.stream)
    (hheap : r.handle = w.heap r.stream) : r.Reaches := by
  intro n hn
  have hmem : (r.msg.conn, n) ∈ pending w :=
    mem_pending.mpr ⟨r.msg, Or.inr (Or.inr hsend), hn, rfl⟩
  have hseen := howned _ hmem r.stream hon
  obtain ⟨a, ha, heq⟩ := Option.map_eq_some_iff.mp hseen
  rw [Prod.mk.injEq] at heq
  exact ⟨a, hheap.trans ha, heq.1, heq.2⟩

theorem routed_step {w u : World} {e : Event} (h : Routed w) (hs : Sound w)
    (hclose : ClosesEnded w e) (hfresh : FreshAccept w e) (hstep : Step w e u) : Routed u := by
  refine ⟨fun x hx => ?_, fun r hr => ?_⟩
  · rcases pending_step hs hstep hx with hx | ⟨hx, hq, -⟩
    · exact owned_step hs hclose hstep (h.owned x hx) fun p hp => hfresh p hp x hx
    · exact hx.quiet hq
  · rcases step_writes hstep hr with hr | ⟨hsend, hon, hheap⟩
    · exact h.written r hr
    · exact reaches_of_owned h.owned hsend hon hheap

/-- In a run without disconnects in which every accept gets an id that nothing under
way carries, every reply that is written reaches the connection it answers. -/
theorem replies_routed (tr : List (World × Event)) (w : World) (hrun : Run Step {} tr w)
    (hno : Meets NoDisconnect tr) (hfresh : Meets FreshAccept tr) : ∀ r ∈ w.writes, r.Reaches := by
  have hclose := (undisturbed_run hrun hno).2
  have hinit : Routed {} := ⟨by simp [pending], by simp⟩
  have hstep : ∀ t e u, Sound t ∧ Routed t → ClosesEnded t e ∧ FreshAccept t e → Step t e u →
      Sound u ∧ Routed u := fun t e u ht he hs =>
    ⟨sound_step ht.1 he.1 hs, routed_step ht.2 ht.1 he.1 he.2 hs⟩
  exact (hrun.invariant_of_meets hstep ⟨sound_init, hinit⟩ (hclose.and hfresh)).2.written

def asked : World :=
  ((firstClient.readData 64 { serial := 0 } [5, 0, 2, 0, 65] []).pop).reply
    ⟨1, 5, some [5, 0, 2, 0, 65], some 0⟩ [4, 0, 3, 0] 4

def askedTrace : List (World × Event) :=
  [({}, .accept 64), (firstClient, .readData 64 [5, 0, 2, 0, 65] []),
    (firstClient.readData 64 { serial := 0 } [5, 0, 2, 0, 65] [], .pop),
    ((firstClient.readData 64 { serial := 0 } [5, 0, 2, 0, 65] []).pop,
      .reply ⟨1, 5, some [5, 0, 2, 0, 65], some 0⟩ [4, 0, 3, 0] 4)]

theorem asked_run : Run Step {} askedTrace asked :=
  ((firstClient_run.snoc (.readData ⟨rfl, rfl, rfl⟩ (by decide) (by decide))).snoc .pop).snoc
    (.reply (by decide))

def askedReply : Write :=
  ⟨64, some { serial := 0 }, ⟨1, 4, some [4, 0, 3, 0], some 0⟩, [4, 0, 3, 0]⟩

theorem replies_routed_asked : askedReply ∈ (asked.tick 0).writes ∧ askedReply.Reaches := by
  have hwrite : askedReply ∈ (asked.tick 0).writes := by decide
  have hrun := asked_run.snoc (.timer (by decide) : Step asked (.timer 0) (asked.tick 0))
  refine ⟨hwrite, ?_⟩
  apply replies_routed _ _ hrun
  · simp [Meets, askedTrace, NoDisconnect]
  · intro x hx p hp y hy
    -- The one accept comes first, when nothing is under way.
    simp only [askedTrace, List.cons_append, List.nil_append, List.mem_cons, List.not_mem_nil,
      or_false] at hx
    obtain rfl | rfl | rfl | rfl | rfl := hx
    · exact absurd hy List.not_mem_nil
    all_goals cases hp
  · exact hwrite

/-- The client leaves and the next one is accepted before the reply is sent. -/
def replaced : World := (asked.readEnd 64 { serial := 0 } uvEof [1] 0).accept 128

/-- The second client has the id of the first and gets its reply. -/
theorem reply_misrouted :
    ¬∀ (tr : List (World × Event)) (w : World), Run Step {} tr w → Meets NoDisconnect tr →
      ∀ r ∈ w.writes, r.Reaches := by
  intro h
  have hrun := ((asked_run.snoc (.readEnd ⟨by decide, rfl, rfl⟩ (by decide) (by decide))).snoc
    (.accept (by decide) (by decide)) : Run Step {} _ replaced).snoc
    (.timer (by decide) : Step replaced (.timer 0) (replaced.tick 0))
  have hwrite : (⟨128, some { serial := 1 }, ⟨1, 4, some [4, 0, 3, 0], some 0⟩, [4, 0, 3, 0]⟩ : Write) ∈
      (replaced.tick 0).writes := by decide
  obtain ⟨a, ha, hserial, -⟩ := h _ _ hrun (by simp [Meets, askedTrace, NoDisconnect]) _ hwrite 0 rfl
  rw [← Option.some.inj ha] at hserial
  exact absurd hserial (by decide)

/-! ### An accept outside the condition -/

theorem given_le {w u : World} {e : Event} (hs : Sound w) (hstep : Step w e u) :
    w.given.length ≤ u.given.length := by
  rcases step_cases hs hstep with hq | ⟨p, -, -, -, rfl⟩ | ⟨p, a, k, b, -, -, -, rfl⟩ |
    ⟨p, a, -, -, rfl⟩
  · rw [hq.given]
  · simp only [World.accept, List.length_append, List.length_singleton, Nat.le_add_right]
  · exact Nat.le_refl _
  · exact Nat.le_refl _

/-- What is under way answers connections that were accepted before. -/
theorem pending_known {tr : List (World × Event)} {w : World} (hrun : Run Step {} tr w)
    (hclose : Meets ClosesEnded tr) : ∀ x ∈ pending w, x.2 < w.given.length := by
  have hstep : ∀ t e u, (Sound t ∧ ∀ x ∈ pending t, x.2 < t.given.length) → ClosesEnded t e →
      Step t e u → Sound u ∧ ∀ x ∈ pending u, x.2 < u.given.length := by
    intro t e u ht hc hs
    refine ⟨sound_step ht.1 hc hs, fun x hx => lt_of_lt_of_le ?_ (given_le ht.1 hs)⟩
    rcases pending_step ht.1 hs hx with hold | ⟨-, -, hlt⟩
    · exact ht.2 x hold
    · exact hlt
  exact (hrun.invariant_of_meets hstep ⟨sound_init, by simp [pending]⟩ hclose).2

def Misrouted (w : World) : Prop := ∃ r ∈ w.writes, ¬r.Reaches

/-- The steps that are left to do: ticks, and the logic thread taking a chunk and replying. -/
def Continues : Event → Prop
  | .timer _ | .pop | .reply .. => True
  | _ => False

/-- The id `k`, once of connection `n`, is that of another connection, on stream `p`. -/
structure Recycled (p : Ptr) (k : ConnID) (n : ℕ) (w : World) : Prop where
  sound : Sound w
  ticking : Ticking w
  online : w.srv.onlineID.lookup k = some p
  other : ∀ a, w.heap p = some a → a.serial ≠ n
  bufs : ∀ m ∈ w.srv.sendMessage, m.buf ≠ none

section
variable {p : Ptr} {k : ConnID} {n : ℕ} {w u : World} {e : Event}

theorem recycled_accept (hs : Sound w) (ht : Ticking w)
    (hbufs : ∀ m ∈ w.srv.sendMessage, m.buf ≠ none) (hnull : p ≠ 0) (hfree : w.heap p = none)
    (hn : n < w.given.length) : Recycled p w.srv.getConnectionID.1 n (w.accept p) := by
  refine ⟨sound_accept hs hnull hfree,
    ticking_step ht hs (fun heq => by cases heq) (.accept hnull hfree), ?_, ?_, ?_⟩
  · rw [accept_srv w hnull]
    exact AList.lookup_insert ..
  · intro a ha
    simp only [World.accept, Function.update_self, Option.some.injEq] at ha
    rw [← ha]
    exact Nat.ne_of_gt hn
  · rw [(accept_queues w hnull).2]
    exact hbufs

theorem recycled_step (h : Recycled p k n w) (he : Continues e) (hstep : Step w e u) :
    Recycled p k n u := by
  have hclose : ClosesEnded w e := by
    rintro q a rfl
    exact he.elim
  have hsound := sound_step h.sound hclose hstep
  have hticking : Ticking u := ticking_step h.ticking h.sound (by rintro rfl; exact he) hstep
  cases hstep with
  | @timer ret htimer =>
    refine ⟨hsound, hticking, ?_, ?_, ?_⟩
    · rw [(quiet_tick w ret).onlineID]
      exact h.online
    · rw [tick_heap h.bufs]
      exact h.other
    · rw [(tick_queues w ret).2.2]
      exact fun m hm => h.bufs m (List.mem_of_mem_tail hm)
  | pop =>
    have hheap : w.pop.heap = w.heap := by
      unfold World.pop
      split <;> rfl
    have hsent : w.pop.writes = w.writes ∧ w.pop.srv.sendMessage = w.srv.sendMessage := by
      simpa [Event.sent] using step_sent (.pop : Step w .pop w.pop)
    refine ⟨hsound, hticking, ?_, ?_, ?_⟩
    · rw [(quiet_pop w).onlineID]
      exact h.online
    · rw [hheap]
      exact h.other
    · rw [hsent.2]
      exact h.bufs
  | reply hm =>
    refine ⟨hsound, hticking, h.online, h.other, ?_⟩
    intro m' hm'
    rcases List.mem_append.mp hm' with hold | hnew
    · exact h.bufs m' hold
    · rw [List.mem_singleton.mp hnew]
      exact Option.some_ne_none _
  | _ => exact he.elim

/-- At the head of the queue it is written in the next tick. -/
theorem misrouted_tick (h : Recycled p k n w) {m : Message} {rest : List Message}
    (hq : w.srv.sendMessage = m :: rest) (hconn : m.conn = k) (horigin : m.origin = some n)
    (hpasses : m.buf.bind List.head? ≠ some 0) : Misrouted (w.tick 0) := by
  obtain ⟨block, hblock⟩ := Option.ne_none_iff_exists'.mp (h.bufs m (hq ▸ List.mem_cons_self))
  have hon : w.srv.onlineID.lookup m.conn = some p := hconn ▸ h.online
  have haction : w.srv.timerAction m = .write p (block.take m.len.toNat) := by
    rw [hblock, Option.bind_some] at hpasses
    simp only [TCPServer.timerAction, hon, hblock, if_neg hpasses]
  refine ⟨⟨p, w.heap p, m, block.take m.len.toNat⟩, ?_, ?_⟩
  · rw [tick_writes]
    apply List.mem_append_right
    simp only [World.tickWrites, hq, haction, List.mem_singleton]
  · intro hreaches
    obtain ⟨a, ha, hserial, -⟩ := hreaches n horigin
    exact h.other a ha hserial

/-- A queued reply is written on the stream that has the id by now. -/
theorem misrouted_queued (h : Recycled p k n w) {m : Message} (hm : m ∈ w.srv.sendMessage)
    (hconn : m.conn = k) (horigin : m.origin = some n) (hpasses : m.buf.bind List.head? ≠ some 0) :
    ∃ tr u, Run Step w tr u ∧ (∀ x ∈ tr, Continues x.2) ∧ Misrouted u := by
  have hmove : ∀ t, Recycled p k n t ∧ (m ∈ t.srv.sendMessage ∨ Misrouted t) → ¬Misrouted t →
      ∃ e u, Step t e u ∧ Continues e ∧ (Recycled p k n u ∧ (m ∈ u.srv.sendMessage ∨ Misrouted u)) ∧
        u.srv.sendMessage.length < t.srv.sendMessage.length := by
    intro t ht hnot
    obtain ⟨hrec, hm⟩ := ht
    have hstep : Step t (.timer 0) (t.tick 0) := .timer hrec.ticking.1
    have hcont : Continues (.timer 0) := trivial
    have hmem := hm.resolve_right hnot
    obtain ⟨first, rest, hq⟩ := List.exists_cons_of_ne_nil (List.ne_nil_of_mem hmem)
    have hqueue : (t.tick 0).srv.sendMessage = rest := by
      rw [(tick_queues t 0).2.2, hq, List.tail_cons]
    have hshorter : (t.tick 0).srv.sendMessage.length < t.srv.sendMessage.length := by
      rw [hqueue, hq, List.length_cons]
      exact Nat.lt_succ_self _
    refine ⟨_, _, hstep, hcont, ⟨recycled_step hrec hcont hstep, ?_⟩, hshorter⟩
    rw [hq] at hmem
    rcases List.mem_cons.mp hmem with hfirst | hlater
    · right
      rw [← hfirst] at hq
      exact misrouted_tick hrec hq hconn horigin hpasses
    · left
      rw [hqueue]
      exact hlater
  obtain ⟨tr, u, hrun, hcont, -, hdone⟩ :=
    Run.exists_done (fun t : World => t.srv.sendMessage.length) hmove ⟨h, Or.inl hm⟩
  exact ⟨tr, u, hrun, hcont, hdone⟩

/-- The logic thread answers a chunk that it has. -/
theorem misrouted_handled (h : Recycled p k n w) {m : Message} (hm : m ∈ w.handling)
    (hconn : m.conn = k) (horigin : m.origin = some n) :
    ∃ tr u, Run Step w tr u ∧ (∀ x ∈ tr, Continues x.2) ∧ Misrouted u := by
  have hstep : Step w (.reply m [1] 1) (w.reply m [1] 1) := .reply hm
  have hcont : Continues (.reply m [1] 1) := trivial
  have hqueued : ⟨m.conn, 1, some [1], m.origin⟩ ∈ (w.reply m [1] 1).srv.sendMessage :=
    List.mem_append_right _ (List.mem_singleton_self _)
  obtain ⟨tr, u, hrun, htr, hdone⟩ :=
    misrouted_queued (recycled_step h hcont hstep) hqueued hconn horigin (by simp)
  refine ⟨[(w, .reply m [1] 1)] ++ tr, u, (Run.nil.snoc hstep).append hrun, ?_, hdone⟩
  exact List.forall_mem_append.mpr ⟨fun x hx => List.mem_singleton.mp hx ▸ hcont, htr⟩

/-- It reaches every chunk that was received. -/
theorem misrouted_received (h : Recycled p k n w) {m : Message} (hm : m ∈ w.srv.recvMessage)
    (hbuf : m.buf.isSome = true) (hconn : m.conn = k) (horigin : m.origin = some n) :
    ∃ tr u, Run Step w tr u ∧ (∀ x ∈ tr, Continues x.2) ∧ Misrouted u := by
  have hmove : ∀ t, Recycled p k n t ∧ (m ∈ t.srv.recvMessage ∨ m ∈ t.handling) →
      m ∉ t.handling → ∃ e u, Step t e u ∧ Continues e ∧
        (Recycled p k n u ∧ (m ∈ u.srv.recvMessage ∨ m ∈ u.handling)) ∧
        u.srv.recvMessage.length < t.srv.recvMessage.length := by
    intro t ht hnot
    obtain ⟨hrec, hm⟩ := ht
    have hcont : Continues .pop := trivial
    have hmem := hm.resolve_right hnot
    obtain ⟨first, rest, hq⟩ := List.exists_cons_of_ne_nil (List.ne_nil_of_mem hmem)
    obtain ⟨hrecv, -, hhandling⟩ := pop_cons hq
    have hshorter : t.pop.srv.recvMessage.length < t.srv.recvMessage.length := by
      rw [hrecv, hq, List.length_cons]
      exact Nat.lt_succ_self _
    refine ⟨_, _, .pop, hcont, ⟨recycled_step hrec hcont .pop, ?_⟩, hshorter⟩
    rw [hq] at hmem
    rcases List.mem_cons.mp hmem with hfirst | hlater
    · right
      rw [hhandling, ← hfirst, if_pos hbuf]
      exact List.mem_append_right _ (List.mem_singleton_self _)
    · left
      rw [hrecv]
      exact hlater
  obtain ⟨tr, t, hrun, htr, ⟨hrec, -⟩, hm⟩ :=
    Run.exists_done (fun t : World => t.srv.recvMessage.length) hmove ⟨h, Or.inl hm⟩
  obtain ⟨tr', u, hrun', htr', hdone⟩ := misrouted_handled hrec hm hconn horigin
  exact ⟨tr ++ tr', u, hrun.append hrun', List.forall_mem_append.mpr ⟨htr, htr'⟩, hdone⟩

end

/-- An accept that gives out an id under way can be continued to a reply on a wrong stream,
if no packet that `timer_cb` takes for an empty one is queued. -/
theorem stale_accept_misroutes (tr : List (World × Event)) (w : World) (p : Ptr)
    (hrun : Run Step {} tr w) (hno : Meets NoDisconnect tr) (hticking : Ticking w)
    (hpasses : ∀ m ∈ w.srv.sendMessage, m.buf.bind List.head? ≠ some 0) (hnull : p ≠ 0)
    (hfree : w.heap p = none) (hstale : ¬FreshAccept w (.accept p)) :
    ∃ tr' u, Run Step (w.accept p) tr' u ∧ (∀ x ∈ tr', Continues x.2) ∧ Misrouted u := by
  obtain ⟨hundisturbed, hclose⟩ := undisturbed_run hrun hno
  have hsound := sound_run hrun hclose
  have hknown := pending_known hrun hclose
  have hstale' : ∃ x ∈ pending w, x.1 = w.srv.getConnectionID.1 := by
    by_contra hnone
    push Not at hnone
    exact hstale fun q _ => hnone
  obtain ⟨x, hx, hid⟩ := hstale'
  have hrec := recycled_accept hsound hticking hundisturbed.queued hnull hfree (hknown x hx)
  obtain ⟨hrecv, hsend⟩ := accept_queues w hnull
  obtain ⟨m, hm, horigin, hconn⟩ := mem_pending.mp hx
  rw [hid] at hconn
  rcases hm with ⟨hm, hbuf⟩ | hm | hm
  · exact misrouted_received hrec (hrecv ▸ hm) hbuf hconn horigin
  · exact misrouted_handled hrec hm hconn horigin
  · exact misrouted_queued hrec (hsend ▸ hm) hconn horigin (hpasses m hm)

end GameRes.Server
