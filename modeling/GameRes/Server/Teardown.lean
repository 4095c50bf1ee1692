import GameRes.Server.OnlineStreams

/-!
# Runs without a server-initiated disconnect (NetApp/NetFrame.cpp:183-205)

A disconnect is a queued message without a buffer. In a run that queues none,
`uv_shutdown` is called only on streams whose end was read, so only such streams
are ever closed and the tables stay sound. The timer is armed again at every tick
until the server is closed.
-/

namespace GameRes.Server
open Library NetApp

/-- No disconnect is queued, and only ended streams are being torn down. -/
structure Undisturbed (w : World) : Prop where
  queued : ∀ m ∈ w.srv.sendMessage, m.buf ≠ none
  torn : ∀ p a, w.heap p = some a → a.shutting = true ∨ a.closing = true → a.ended = true

theorem undisturbed_update {w : World} (h : Undisturbed w) {p : Ptr} {x : Option Handle}
    (hx : ∀ a, x = some a → a.shutting = true ∨ a.closing = true → a.ended = true) (q : Ptr)
    (a : Handle) (ha : Function.update w.heap p x q = some a)
    (hflag : a.shutting = true ∨ a.closing = true) : a.ended = true := by
  by_cases hq : q = p
  · subst hq
    rw [Function.update_self] at ha
    exact hx a ha hflag
  · rw [Function.update_of_ne hq] at ha
    exact h.torn q a ha hflag

theorem tick_heap {w : World} (h : ∀ m ∈ w.srv.sendMessage, m.buf ≠ none) (ret : ℤ) :
    (w.tick ret).heap = w.heap := by
  cases hq : w.srv.sendMessage with
  | nil => rw [tick_nil hq]
  | cons m rest =>
    rw [tick_cons hq]
    cases haction : w.srv.timerAction m with
    | shutdown p =>
      exact absurd (timerAction_shutdown haction) (h m (by rw [hq]; exact List.mem_cons_self))
    | idle => rfl
    | empty => rfl
    | write p data => rfl

theorem sent_buf {w : World} {e : Event} (hno : NoDisconnect w e) : ∀ m ∈ e.sent, m.buf ≠ none := by
  intro m hm
  cases e with
  | reply m' data len =>
    rw [List.mem_singleton.mp hm]
    exact Option.some_ne_none _
  | push conn buf len =>
    rw [List.mem_singleton.mp hm]
    exact fun hbuf => hno conn len (by rw [show buf = none from hbuf])
  | sendClient conn cmd body =>
    obtain ⟨r, -, rfl⟩ := Option.map_eq_some_iff.mp (Option.mem_toList.mp hm)
    exact Option.some_ne_none _
  | _ => exact absurd hm List.not_mem_nil

theorem undisturbed_queue {w u : World} {e : Event} (h : Undisturbed w) (hno : NoDisconnect w e)
    (hstep : Step w e u) : ∀ m ∈ u.srv.sendMessage, m.buf ≠ none := by
  rcases step_sent hstep with ⟨ret, -, rfl⟩ | ⟨-, hsend⟩
  · rw [(tick_queues w ret).2.2]
    exact fun m hm => h.queued m (List.mem_of_mem_tail hm)
  · rw [hsend, List.forall_mem_append]
    exact ⟨h.queued, sent_buf hno⟩

theorem undisturbed_step {w u : World} {e : Event} (h : Undisturbed w) (hno : NoDisconnect w e)
    (hstep : Step w e u) : Undisturbed u := by
  refine ⟨undisturbed_queue h hno hstep, ?_⟩
  cases hstep with
  | accept hnull hfree =>
    refine undisturbed_update h ?_
    rintro a ⟨⟩ hflag
    simp at hflag
  | readEnd hread hneg horder =>
    refine undisturbed_update h ?_
    rintro a ⟨⟩ -
    rfl
  | @afterShutdown _ a hheap hshut =>
    refine undisturbed_update h ?_
    rintro b ⟨⟩ -
    exact h.torn _ a hheap (Or.inl hshut)
  | onClose hheap hclosing =>
    refine undisturbed_update h ?_
    rintro a ⟨⟩
  | timer htimer =>
    rw [tick_heap h.queued]
    exact h.torn
  | pop =>
    unfold World.pop
    split <;> exact h.torn
  | sendClient hsend =>
    obtain ⟨r, -, rfl⟩ := Option.map_eq_some_iff.mp hsend
    exact h.torn
  | _ => exact h.torn

theorem undisturbed_run {tr : List (World × Event)} {w : World} (hrun : Run Step {} tr w)
    (hno : Meets NoDisconnect tr) : Undisturbed w ∧ Meets ClosesEnded tr := by
  induction hrun with
  | nil => exact ⟨⟨by simp, by simp⟩, meets_nil _⟩
  | snoc hprev hlast ih =>
    obtain ⟨htr, he⟩ := meets_snoc.mp hno
    obtain ⟨hw, hclose⟩ := ih htr
    refine ⟨undisturbed_step hw he hlast, meets_snoc.mpr ⟨hclose, ?_⟩⟩
    rintro p a rfl hheap
    cases hlast with
    | onClose hheap' hclosing =>
      rw [hheap] at hheap'
      obtain rfl := Option.some.inj hheap'
      exact hw.torn p a hheap (Or.inr hclosing)

/-! ### The timer goes on -/

/-- The timer is armed, and nobody closes the server. -/
def Ticking (w : World) : Prop := w.timer = true ∧ w.srv.status ≠ .close

theorem tick_ticking {w : World} (h : Ticking w) (ret : ℤ) : Ticking (w.tick ret) := by
  obtain ⟨-, hstatus⟩ := h
  cases hq : w.srv.sendMessage with
  | nil =>
    rw [tick_nil hq]
    exact ⟨decide_eq_true hstatus, hstatus⟩
  | cons m rest =>
    rw [tick_cons hq]
    cases w.srv.timerAction m with
    | shutdown p =>
      simp only [World.act, World.shutdown]
      split <;> exact ⟨decide_eq_true hstatus, hstatus⟩
    | _ => exact ⟨decide_eq_true hstatus, hstatus⟩

theorem ticking_step {w u : World} {e : Event} (h : Ticking w) (hs : Sound w)
    (hclose : e ≠ .close) (hstep : Step w e u) : Ticking u := by
  cases hstep with
  | accept hnull hfree =>
    refine ⟨h.1, ?_⟩
    rw [accept_srv w hnull]
    simp only [TCPServer.addConnection, TCPServer.getConnectionID]
    split <;> exact h.2
  | acceptFailed hfail =>
    rw [TCPServer.onConnection_fail _ hfail]
    exact h
  | readData hread hne hlen =>
    obtain ⟨k, -, -, heq⟩ := hs.readData_eq hread hne
    rw [heq]
    exact h
  | readEnd hread hneg horder =>
    obtain ⟨k, b, -, -, heq⟩ := hs.readEnd_eq hread hneg horder
    rw [heq]
    exact h
  | timer htimer => exact tick_ticking h _
  | pop =>
    unfold World.pop
    have htables := TCPServer.getRecvMessage_tables w.srv
    split
    · exact h
    · next m srv hget =>
      rw [hget] at htables
      rw [show srv = _ from htables]
      exact h
  | sendClient hsend =>
    obtain ⟨r, -, rfl⟩ := Option.map_eq_some_iff.mp hsend
    exact h
  | close => exact absurd rfl hclose
  | _ => exact h

end GameRes.Server
