import GameRes.NetApp.TCPClient

/-!
# Keeping the client's loop alive (NetApp/NetFrame.cpp:421-490, 513-536)

Until `Close` the loop should go on through one thing at a time: a connect
request, whose completion starts the timer, or the timer, whose tick starts the
next of either. A libuv call that fails on the way ends it.
-/

namespace GameRes.NetApp
open Library

namespace ClientLoop

/-- One connect request and no timer, or no connect request and the timer. -/
def OneWay (w : ClientLoop) : Prop :=
  w.connecting = 1 ∧ w.armed = false ∨ w.connecting = 0 ∧ w.armed = true

/-- Before `Close` the loop is alive and not doubled. -/
def Alive (w : ClientLoop) : Prop := w.closed = false → w.OneWay

/-- The libuv calls that hand the loop on succeed: those of `connect_cb` on the timer, and in
`timer_cb` the one its status leads to. -/
def HandsOn (w : ClientLoop) (e : ClientEvent) : Prop :=
  w.closed = false →
    match e with
    | .connectCb _ rInit rStart => rInit = 0 ∧ rStart = 0
    | .timerCb rConnect _ _ rStart =>
      (w.client.status = .none → rConnect = 0) ∧ (w.client.status = .runing → rStart = 0)
    | _ => True

def Unclosed (w : ClientLoop) : Prop := w.closed = false → w.client.status ≠ .close

/-! ### One step -/

theorem connectCb_status (s : TCPClient) (status : ℤ) (h : s.status ≠ .close) :
    (s.connectCb status).status ≠ .close := by
  unfold TCPClient.connectCb
  split
  next => exact h
  next =>
    split
    next => simp
    next => exact h

theorem connectCb_oneWay {w : ClientLoop} (h : w.OneWay) (hpending : w.connecting ≠ 0)
    (status rInit rStart : ℤ) :
    (w.connectCb status rInit rStart).OneWay ↔ rInit = 0 ∧ rStart = 0 := by
  obtain ⟨hone, hoff⟩ | ⟨hnone, -⟩ := h
  · by_cases hinit : rInit = 0
    · simp [ClientLoop.connectCb, OneWay, hone, hinit]
    · simp [ClientLoop.connectCb, OneWay, hone, hoff, hinit]
  · exact absurd hnone hpending

theorem timerCb_oneWay {w : ClientLoop} (h : w.OneWay) (harmed : w.armed = true)
    (hstatus : w.client.status ≠ .close) (rConnect rRead rWrite rStart : ℤ) :
    (w.timerCb rConnect rRead rWrite rStart).OneWay ↔
      (w.client.status = .none → rConnect = 0) ∧ (w.client.status = .runing → rStart = 0) := by
  have hnone : w.connecting = 0 := by
    obtain ⟨-, hoff⟩ | ⟨hnone, -⟩ := h
    · rw [harmed] at hoff
      cases hoff
    · exact hnone
  cases hs : w.client.status with
  | close => exact absurd hs hstatus
  | none =>
    rw [timerCb_none hs]
    simp [OneWay, hnone]
  | runing =>
    rw [timerCb_runing hs]
    simp [OneWay, hnone]

theorem Unclosed.step {w u : ClientLoop} {e : ClientEvent} (h : w.Unclosed) (hstep : Step w e u) :
    u.Unclosed := by
  cases hstep with
  | connectCb status rInit rStart _ => exact fun hopen => connectCb_status _ _ (h hopen)
  | timerCb rConnect rRead rWrite rStart _ =>
    cases hs : w.client.status with
    | close =>
      rw [timerCb_close hs]
      exact h
    | none =>
      rw [timerCb_none hs]
      exact h
    | runing =>
      rw [timerCb_runing hs, TCPClient.getSendMessage_eq]
      exact h
  | readCb nread base _ _ =>
    simp only [ClientLoop.readCb, TCPClient.readCb_same]
    exact h
  | closeCb _ =>
    intro _ hclose
    cases hclose
  | close =>
    intro hopen
    cases hopen
  | getRecv =>
    simp only [ClientLoop.getRecv, TCPClient.getRecvMessage_eq]
    exact h
  | pushSend => exact h

theorem timerCb_closed (w : ClientLoop) (rConnect rRead rWrite rStart : ℤ) :
    (w.timerCb rConnect rRead rWrite rStart).closed = w.closed := by
  cases hs : w.client.status with
  | close => rw [timerCb_close hs]
  | none => rw [timerCb_none hs]
  | runing => rw [timerCb_runing hs]

theorem Step.closed {w u : ClientLoop} {e : ClientEvent} (hstep : Step w e u)
    (hclosed : w.closed = true) : u.closed = true := by
  cases hstep with
  | timerCb rConnect rRead rWrite rStart _ => rw [timerCb_closed, hclosed]
  | close => rfl
  | _ => exact hclosed

theorem alive_iff_oneWay {w : ClientLoop} (hopen : w.closed = false) : w.Alive ↔ w.OneWay :=
  ⟨fun h => h hopen, fun h _ => h⟩

theorem alive_step_iff {w u : ClientLoop} {e : ClientEvent} (halive : w.Alive) (hstatus : w.Unclosed)
    (hstep : Step w e u) : u.Alive ↔ HandsOn w e := by
  cases hclosed : w.closed with
  | true =>
    have halways : u.Alive ∧ HandsOn w e := by
      constructor
      · intro hopen
        rw [hstep.closed hclosed] at hopen
        cases hopen
      · intro hopen
        rw [hclosed] at hopen
        cases hopen
    exact iff_of_true halways.1 halways.2
  | false =>
    have hway := halive hclosed
    cases hstep with
    | connectCb status rInit rStart hpending =>
      rw [alive_iff_oneWay (by exact hclosed), connectCb_oneWay hway hpending]
      exact ⟨fun h _ => h, fun h => h hclosed⟩
    | timerCb rConnect rRead rWrite rStart harmed =>
      have hopen : (w.timerCb rConnect rRead rWrite rStart).closed = false := by
        rw [timerCb_closed, hclosed]
      rw [alive_iff_oneWay hopen, timerCb_oneWay hway harmed (hstatus hclosed)]
      exact ⟨fun h _ => h, fun h => h hclosed⟩
    | readCb => exact iff_of_true (fun _ => hway) (fun _ => trivial)
    | closeCb => exact iff_of_true (fun _ => hway) (fun _ => trivial)
    | close =>
      refine iff_of_true ?_ (fun _ => trivial)
      intro hopen
      cases hopen
    | getRecv => exact iff_of_true (fun _ => hway) (fun _ => trivial)
    | pushSend => exact iff_of_true (fun _ => hway) (fun _ => trivial)

/-! ### Runs -/

/-- From a successful `Start` on, the loop stays alive and single until `Close` exactly when
every libuv call that hands it on succeeds. -/
theorem alive_iff {unicode : BitVec 32} {rAddr rConnect : ℤ} {w₀ w : ClientLoop}
    {tr : List (ClientLoop × ClientEvent)} (hstart : start unicode rAddr rConnect = some w₀)
    (hrun : Run Step w₀ tr w) : Throughout Alive tr w ↔ Meets HandsOn tr := by
  have hinit : w₀.Alive ∧ w₀.Unclosed := by
    rw [start_some hstart]
    exact ⟨fun _ => Or.inl ⟨rfl, rfl⟩, fun _ => by simp⟩
  refine hrun.throughout_iff (I := fun w => w.Alive ∧ w.Unclosed) ?_ ?_ hinit hinit.1
  · intro t e u hinv hgood hstep
    exact ⟨(alive_step_iff hinv.1 hinv.2 hstep).mpr hgood, hinv.2.step hstep⟩
  · intro t e u hinv hstep
    exact alive_step_iff hinv.1 hinv.2 hstep

theorem alive_iff_retry :
    ∃ w₀ tr w, start 7 0 0 = some w₀ ∧ Run Step w₀ tr w ∧ w.connecting = 1 ∧
      Throughout Alive tr w := by
  have hstart : start 7 0 0 = some { client := { unicode := 7 }, connecting := 1 } := rfl
  have h0 : Run Step { client := { unicode := 7 }, connecting := 1 } [] _ := .nil
  have h1 := h0.snoc (.connectCb (-4078) 0 0 (by decide))
  have h2 := h1.snoc (.timerCb 0 0 0 0 (by decide))
  refine ⟨_, _, _, hstart, h2, by decide, (alive_iff hstart h2).mpr ?_⟩
  simp [Meets, HandsOn]

/-- `uv_tcp_connect` fails in the tick after a refused connection: nothing is left that
would run a callback. -/
theorem reconnect_dies :
    ∃ w₀ tr w, start 7 0 0 = some w₀ ∧ Run Step w₀ tr w ∧ w.closed = false ∧
      w.connecting = 0 ∧ w.armed = false := by
  have h0 : Run Step { client := { unicode := 7 }, connecting := 1 } [] _ := .nil
  have h1 := h0.snoc (.connectCb (-4078) 0 0 (by decide))
  have h2 := h1.snoc (.timerCb (-4088) 0 0 0 (by decide))
  exact ⟨_, _, _, rfl, h2, by decide, by decide, by decide⟩

end ClientLoop
end GameRes.NetApp
