import GameRes.NetApp.TCPClient

/-!
# `Close` against the network thread (NetApp/NetFrame.cpp:223-306, 394-490, 501-536)

`status` is one atomic that two threads use. The application thread stores
`CLOSE`; the network thread loads and stores it in `Start` and in its callbacks,
and a step here is one such load or store. Both classes are here: the server
tests and stores in `Start`, the client in `connect_cb`, and only the client
stores in `close_cb`.
-/

namespace GameRes.NetApp
open Library

inductive Side where
  | server
  | client
  deriving Repr, DecidableEq

/-- Where the network thread is with `status`: before `Start`, between two callbacks, about to
store `RUNING` after it loaded `NONE`, before the first load of `timer_cb`, before its second.
A tick is `late` when it began after `Close` had stored. -/
inductive Position where
  | starting
  | idle
  | storing
  | ticking (late : Bool)
  | ticked (late : Bool)
  deriving Repr, DecidableEq

/-- `closed` and `acted` are history: `Close` has stored `CLOSE`, and a late tick has called
`uv_tcp_connect` or armed the timer again. -/
structure StatusRace where
  status : Status := .none
  position : Position := .starting
  closed : Bool := false
  acted : Bool := false
  deriving Repr, DecidableEq

inductive Access where
  | close
  | start
  | connectLoad
  | storeRuning
  | closeCb
  | tick
  | firstLoad
  | secondLoad
  deriving Repr, DecidableEq

namespace StatusRace

/-- `if (NONE == status.load())` in front of `status.store(RUNING)`. -/
def loadNone (s : StatusRace) : StatusRace :=
  { s with position := if s.status = .none then .storing else .idle }

/-- The server's `Start` loads the status before `uv_run`, the client's does not. -/
def start (side : Side) (s : StatusRace) : StatusRace :=
  match side with
  | .server => s.loadNone
  | .client => { s with position := .idle }

def acting (s : StatusRace) (late : Bool) : StatusRace :=
  { s with position := .idle, acted := s.acted || late }

/-- The first load of `timer_cb`. Otherwise than for `CLOSE` the server arms the timer, and
the client loads again. -/
def firstLoad (side : Side) (s : StatusRace) (late : Bool) : StatusRace :=
  if s.status = .close then { s with position := .idle }
  else
    match side with
    | .server => s.acting late
    | .client => { s with position := .ticked late }

inductive Step (side : Side) : StatusRace → Access → StatusRace → Prop where
  | close (s : StatusRace) : Step side s .close { s with status := .close, closed := true }
  | start {s : StatusRace} (h : s.position = .starting) : Step side s .start (s.start side)
  | connectLoad {s : StatusRace} (hside : side = .client) (h : s.position = .idle) :
      Step side s .connectLoad s.loadNone
  | storeRuning {s : StatusRace} (h : s.position = .storing) :
      Step side s .storeRuning { s with status := .runing, position := .idle }
  | closeCb {s : StatusRace} (hside : side = .client) (h : s.position = .idle) :
      Step side s .closeCb { s with status := .none }
  | tick {s : StatusRace} (h : s.position = .idle) :
      Step side s .tick { s with position := .ticking s.closed }
  | firstLoad {s : StatusRace} {late : Bool} (h : s.position = .ticking late) :
      Step side s .firstLoad (s.firstLoad side late)
  -- `NONE` or not, the client goes on: it connects, or it serves the queues and arms the timer.
  | secondLoad {s : StatusRace} {late : Bool} (h : s.position = .ticked late) :
      Step side s .secondLoad (s.acting late)

/-- Nothing overwrites the `CLOSE` of `Close`, and no tick that began after it goes on. -/
structure Final (s : StatusRace) : Prop where
  status : s.closed = true → s.status = .close
  acted : s.acted = false

/-- `Close` has not stored before the step, if the step is a store of the network thread: the
`RUNING` of `Start` and `connect_cb` that loaded `NONE` earlier, or the `NONE` of `close_cb`. -/
def BeforeClose (s : StatusRace) (e : Access) : Prop :=
  e = .storeRuning ∨ e = .closeCb → s.closed = false

/-! ### One step -/

structure Closable (s : StatusRace) : Prop where
  final : Final s
  late : s.position = .ticking true → s.closed = true
  once : s.position ≠ .ticked true

theorem closable_start : Closable {} := by
  refine ⟨⟨?_, rfl⟩, ?_, ?_⟩
  · intro hclosed
    cases hclosed
  · intro hposition
    cases hposition
  · intro hposition
    cases hposition

theorem Closable.idle {s t : StatusRace} (h : Closable s) (hstatus : t.status = s.status)
    (hclosed : t.closed = s.closed) (hacted : t.acted = s.acted)
    (hposition : t.position = .idle ∨ t.position = .storing ∨ t.position = .ticked false) :
    Closable t := by
  refine ⟨⟨?_, hacted.trans h.final.acted⟩, ?_, ?_⟩
  · rw [hstatus, hclosed]
    exact h.final.status
  · intro hlate
    rw [hlate] at hposition
    simp at hposition
  · intro hlate
    rw [hlate] at hposition
    simp at hposition

theorem Closable.loadNone {s : StatusRace} (h : Closable s) : Closable s.loadNone := by
  have hposition : s.loadNone.position = .idle ∨ s.loadNone.position = .storing ∨
      s.loadNone.position = .ticked false := by
    simp only [StatusRace.loadNone]
    split
    next => exact Or.inr (Or.inl rfl)
    next => exact Or.inl rfl
  exact h.idle rfl rfl rfl hposition

theorem Closable.firstLoad {s : StatusRace} (h : Closable s) (side : Side) {late : Bool}
    (hposition : s.position = .ticking late) : Closable (s.firstLoad side late) := by
  unfold StatusRace.firstLoad
  split
  next => exact h.idle rfl rfl rfl (Or.inl rfl)
  next hopen =>
    cases late with
    | true => exact absurd (h.final.status (h.late hposition)) hopen
    | false =>
      cases side with
      | server => exact h.idle rfl rfl (Bool.or_false _) (Or.inl rfl)
      | client => exact h.idle rfl rfl rfl (Or.inr (Or.inr rfl))

theorem Closable.step {side : Side} {s t : StatusRace} {e : Access} (h : Closable s)
    (hbefore : BeforeClose s e) (hstep : Step side s e t) : Closable t := by
  cases hstep with
  | close =>
    refine ⟨⟨fun _ => rfl, h.final.acted⟩, fun _ => rfl, h.once⟩
  | start hposition =>
    cases side with
    | server => exact h.loadNone
    | client => exact h.idle rfl rfl rfl (Or.inl rfl)
  | connectLoad _ _ => exact h.loadNone
  | storeRuning _ =>
    have hopen := hbefore (Or.inl rfl)
    refine ⟨⟨?_, h.final.acted⟩, ?_, ?_⟩
    · intro hclosed
      rw [hopen] at hclosed
      cases hclosed
    · intro hlate
      cases hlate
    · intro hlate
      cases hlate
  | closeCb _ hposition =>
    have hopen := hbefore (Or.inr rfl)
    refine ⟨⟨?_, h.final.acted⟩, h.late, h.once⟩
    intro hclosed
    rw [hopen] at hclosed
    cases hclosed
  | tick _ =>
    refine ⟨⟨h.final.status, h.final.acted⟩, ?_, ?_⟩
    · intro hlate
      exact Position.ticking.inj hlate
    · intro hlate
      cases hlate
  | firstLoad hposition => exact h.firstLoad side hposition
  | @secondLoad late hposition =>
    cases late with
    | true => exact absurd hposition h.once
    | false => exact h.idle rfl rfl (Bool.or_false _) (Or.inl rfl)

theorem final_beforeClose {side : Side} {s t : StatusRace} {e : Access} (hfinal : Final t)
    (hstep : Step side s e t) : BeforeClose s e := by
  intro hstore
  rw [Bool.eq_false_iff]
  intro hclosed
  cases hstep with
  | storeRuning _ => cases hfinal.status hclosed
  | closeCb _ _ => cases hfinal.status hclosed
  | _ => simp at hstore

/-! ### Runs -/

/-- `Close` is final throughout a run exactly when the network thread stores nothing after it:
no `Start` or `connect_cb` that loaded before it stores after it, and no `close_cb` follows it. -/
theorem final_iff {side : Side} {tr : List (StatusRace × Access)} {s : StatusRace}
    (hrun : Run (Step side) {} tr s) : Throughout Final tr s ↔ Meets BeforeClose tr := by
  refine hrun.throughout_iff (I := Closable) ?_ ?_ closable_start closable_start.final
  · intro t e u hclosable hbefore hstep
    exact hclosable.step hbefore hstep
  · intro t e u hclosable hstep
    exact ⟨fun hfinal => final_beforeClose hfinal hstep,
      fun hbefore => (hclosable.step hbefore hstep).final⟩

/-- `Close` after the start-up of a server: the next tick stops the loop. -/
theorem final_iff_server :
    ∃ tr s, Run (Step .server) {} tr s ∧ s.closed = true ∧ s.status = .close ∧
      Throughout Final tr s := by
  have h0 : Run (Step .server) {} [] {} := .nil
  have h1 := h0.snoc (.start rfl)
  have h2 := h1.snoc (.storeRuning rfl)
  have h3 := h2.snoc (.close _)
  have h4 := h3.snoc (.tick rfl)
  have h5 := h4.snoc (.firstLoad rfl)
  have hopen : (start .server {}).closed = false := rfl
  refine ⟨_, _, h5, rfl, rfl, (final_iff h5).mpr ?_⟩
  simp [Meets, BeforeClose, hopen]

/-- A server closed between the load and the store of `Start`, and a client whose `close_cb`
comes after `Close`: the tick that follows arms the timer, or connects again. -/
theorem closed_overwritten :
    (∃ tr s, Run (Step .server) {} tr s ∧ s.closed = true ∧ s.status = .runing ∧ s.acted = true) ∧
      ∃ tr s, Run (Step .client) {} tr s ∧ s.closed = true ∧ s.status = .none ∧ s.acted = true := by
  constructor
  · have h0 : Run (Step .server) {} [] {} := .nil
    have h1 := h0.snoc (.start rfl)
    have h2 := h1.snoc (.close _)
    have h3 := h2.snoc (.storeRuning rfl)
    have h4 := h3.snoc (.tick rfl)
    have h5 := h4.snoc (.firstLoad rfl)
    exact ⟨_, _, h5, rfl, rfl, rfl⟩
  · have h0 : Run (Step .client) {} [] {} := .nil
    have h1 := h0.snoc (.start rfl)
    have h2 := h1.snoc (.connectLoad rfl rfl)
    have h3 := h2.snoc (.storeRuning rfl)
    have h4 := h3.snoc (.close _)
    have h5 := h4.snoc (.closeCb rfl rfl)
    have h6 := h5.snoc (.tick rfl)
    have h7 := h6.snoc (.firstLoad rfl)
    have h8 := h7.snoc (.secondLoad rfl)
    exact ⟨_, _, h8, rfl, rfl, rfl⟩

/-- Without `Close` in between, the accesses of `connect_cb` leave the status that the
callback as one step leaves. -/
theorem connectCb_undisturbed (c : TCPClient) {s : StatusRace} (hs : s.status = c.status)
    (hposition : s.position = .idle) :
    ∃ tr t, Run (Step .client) s tr t ∧ t.position = .idle ∧ t.status = (c.connectCb 0).status := by
  have hload := (Run.nil (s := s)).snoc (Step.connectLoad rfl hposition)
  by_cases hnone : s.status = .none
  · have hstoring : s.loadNone.position = .storing := if_pos hnone
    refine ⟨_, _, hload.snoc (.storeRuning hstoring), rfl, ?_⟩
    simp [TCPClient.connectCb, ← hs, hnone]
  · have hidle : s.loadNone.position = .idle := if_neg hnone
    refine ⟨_, _, hload, hidle, ?_⟩
    simp [TCPClient.connectCb, ← hs, hnone, loadNone]

end StatusRace
end GameRes.NetApp
