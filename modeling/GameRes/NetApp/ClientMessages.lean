import GameRes.NetApp.TCPClient

/-!
# The client's two queues (NetApp/NetFrame.cpp:405-461, 538-570)

What comes in and what goes out over whole runs. `read_cb` drops the message it
makes, and `timer_cb` drops the one it popped when `uv_write` refuses it, so the
queues conserve messages only while neither happens.
-/

namespace GameRes.NetApp
open Library

namespace ClientLoop

/-- What `GetRecvMessage` returned and what is queued are the chunks read; what `uv_write`
accepted and what is queued are the messages `PushSendMssage` accepted. -/
structure Conserved (w : ClientLoop) : Prop where
  incoming : w.returned ++ w.client.recvMessage = w.chunks
  outgoing : w.written ++ w.client.sendMessage = w.accepted

/-- No chunk is read, and no message is popped for a `uv_write` that fails. -/
def Lossless (w : ClientLoop) : ClientEvent → Prop
  | .readCb nread _ => ¬0 < nread
  | .timerCb _ _ rWrite _ =>
    w.client.status = .runing → w.client.sendMessage ≠ [] → rWrite = 0
  | _ => True

/-! ### One step -/

theorem head?_toList_append_tail {α : Type} (xs : List α) : xs.head?.toList ++ xs.tail = xs := by
  cases xs with
  | nil => rfl
  | cons x xs => rfl

theorem timerCb_outgoing {w : ClientLoop} (h : w.client.status = .runing)
    (houtgoing : w.written ++ w.client.sendMessage = w.accepted) (rConnect rRead rWrite rStart : ℤ) :
    (w.timerCb rConnect rRead rWrite rStart).written ++
        (w.timerCb rConnect rRead rWrite rStart).client.sendMessage = w.accepted ↔
      (w.client.sendMessage ≠ [] → rWrite = 0) := by
  rw [timerCb_runing h, TCPClient.getSendMessage_eq]
  by_cases hwrite : rWrite = 0
  · simp only [hwrite, ite_true, List.append_assoc, head?_toList_append_tail, houtgoing, implies_true]
  · simp only [hwrite, ite_false, List.append_nil, imp_false, not_not]
    rw [← houtgoing, List.append_cancel_left_eq]
    cases hq : w.client.sendMessage with
    | nil => simp only [List.tail_nil]
    | cons m rest =>
      constructor
      · intro heq
        have hlen := congrArg List.length heq
        rw [List.tail_cons, List.length_cons] at hlen
        omega
      · intro heq
        cases heq

theorem connectCb_queues (s : TCPClient) (status : ℤ) :
    (s.connectCb status).recvMessage = s.recvMessage ∧
      (s.connectCb status).sendMessage = s.sendMessage := by
  unfold TCPClient.connectCb
  split
  next => exact ⟨rfl, rfl⟩
  next => split <;> exact ⟨rfl, rfl⟩

theorem conserved_connectCb {w : ClientLoop} (h : w.Conserved) (status rInit rStart : ℤ) :
    (w.connectCb status rInit rStart).Conserved := by
  obtain ⟨hrecv, hsend⟩ := connectCb_queues w.client status
  refine ⟨?_, ?_⟩
  · simp only [ClientLoop.connectCb, hrecv]
    exact h.incoming
  · simp only [ClientLoop.connectCb, hsend]
    exact h.outgoing

theorem conserved_timerCb {w : ClientLoop} (h : w.Conserved) (rConnect rRead rWrite rStart : ℤ) :
    (w.timerCb rConnect rRead rWrite rStart).Conserved ↔
      Lossless w (.timerCb rConnect rRead rWrite rStart) := by
  cases hs : w.client.status with
  | close =>
    rw [timerCb_close hs]
    refine iff_of_true ⟨h.incoming, h.outgoing⟩ ?_
    intro hrun
    rw [hs] at hrun
    cases hrun
  | none =>
    rw [timerCb_none hs]
    refine iff_of_true ⟨h.incoming, h.outgoing⟩ ?_
    intro hrun
    rw [hs] at hrun
    cases hrun
  | runing =>
    have hiff := timerCb_outgoing hs h.outgoing rConnect rRead rWrite rStart
    have hchunks : (w.timerCb rConnect rRead rWrite rStart).returned ++
        (w.timerCb rConnect rRead rWrite rStart).client.recvMessage =
        (w.timerCb rConnect rRead rWrite rStart).chunks := by
      rw [timerCb_runing hs, TCPClient.getSendMessage_eq]
      exact h.incoming
    have haccepted : (w.timerCb rConnect rRead rWrite rStart).accepted = w.accepted := by
      rw [timerCb_runing hs]
    constructor
    · intro hconserved _
      have hleft := hconserved.outgoing
      rw [haccepted] at hleft
      exact hiff.mp hleft
    · intro hlossless
      refine ⟨hchunks, ?_⟩
      rw [haccepted]
      exact hiff.mpr (hlossless hs)

theorem conserved_readCb {w : ClientLoop} (h : w.Conserved) (nread : ℤ) (base : Bytes) :
    (w.readCb nread base).Conserved ↔ Lossless w (.readCb nread base) := by
  by_cases hpos : 0 < nread
  · refine iff_of_false ?_ (fun hno => hno hpos)
    intro hconserved
    have hread := hconserved.incoming
    simp only [ClientLoop.readCb, TCPClient.readCb_same, hpos, ite_true, h.incoming] at hread
    have hlen := congrArg List.length hread
    rw [List.length_append, List.length_singleton] at hlen
    omega
  · refine iff_of_true ⟨?_, ?_⟩ hpos
    · simp only [ClientLoop.readCb, TCPClient.readCb_same, hpos, ite_false]
      exact h.incoming
    · simp only [ClientLoop.readCb, TCPClient.readCb_same]
      exact h.outgoing

theorem conserved_getRecv {w : ClientLoop} (h : w.Conserved) : w.getRecv.Conserved := by
  refine ⟨?_, ?_⟩
  · simp only [ClientLoop.getRecv, TCPClient.getRecvMessage_eq, List.append_assoc,
      head?_toList_append_tail]
    exact h.incoming
  · simp only [ClientLoop.getRecv, TCPClient.getRecvMessage_eq]
    exact h.outgoing

theorem conserved_pushSend {w : ClientLoop} (h : w.Conserved) (msg : MessageInfo Unit) :
    (w.pushSend msg).Conserved := by
  refine ⟨h.incoming, ?_⟩
  simp only [ClientLoop.pushSend, TCPClient.pushSendMssage, ← List.append_assoc, h.outgoing]

theorem conserved_step_iff {w u : ClientLoop} {e : ClientEvent} (h : w.Conserved)
    (hstep : Step w e u) : u.Conserved ↔ Lossless w e := by
  cases hstep with
  | connectCb status rInit rStart _ =>
    exact iff_of_true (conserved_connectCb h status rInit rStart) trivial
  | timerCb rConnect rRead rWrite rStart _ => exact conserved_timerCb h rConnect rRead rWrite rStart
  | readCb nread base _ _ => exact conserved_readCb h nread base
  | closeCb _ => exact iff_of_true ⟨h.incoming, h.outgoing⟩ trivial
  | close => exact iff_of_true ⟨h.incoming, h.outgoing⟩ trivial
  | getRecv => exact iff_of_true (conserved_getRecv h) trivial
  | pushSend msg => exact iff_of_true (conserved_pushSend h msg) trivial

/-! ### Runs -/

/-- The queues conserve messages throughout a run exactly when the run reads no chunk and
every `uv_write` of a popped message succeeds. -/
theorem conserved_iff {unicode : BitVec 32} {rAddr rConnect : ℤ} {w₀ w : ClientLoop}
    {tr : List (ClientLoop × ClientEvent)} (hstart : start unicode rAddr rConnect = some w₀)
    (hrun : Run Step w₀ tr w) : Throughout Conserved tr w ↔ Meets Lossless tr := by
  have hinit : w₀.Conserved := by
    rw [start_some hstart]
    exact ⟨rfl, rfl⟩
  apply hrun.throughout_iff_self _ hinit
  intro t e u hconserved hstep
  exact conserved_step_iff hconserved hstep

theorem conserved_iff_written :
    ∃ w₀ tr w, start 7 0 0 = some w₀ ∧ Run Step w₀ tr w ∧ w.written = [⟨7, 2, some [104, 105], ()⟩] ∧
      Throughout Conserved tr w := by
  have hstart : start 7 0 0 = some { client := { unicode := 7 }, connecting := 1 } := rfl
  have h0 : Run Step { client := { unicode := 7 }, connecting := 1 } [] _ := .nil
  have h1 := h0.snoc (.pushSend _ ⟨7, 2, some [104, 105], ()⟩)
  have h2 := h1.snoc (.connectCb 0 0 0 (by decide))
  have h3 := h2.snoc (.timerCb 0 0 0 0 (by decide))
  refine ⟨_, _, _, hstart, h3, by decide, (conserved_iff hstart h3).mpr ?_⟩
  simp [Meets, Lossless]

/-- A chunk of three bytes is read and never queued, and a message is popped for a `uv_write`
that fails. -/
theorem chunk_and_message_lost :
    ∃ w₀ tr w, start 7 0 0 = some w₀ ∧ Run Step w₀ tr w ∧
      w.chunks = [⟨7, 3, some [1, 2, 3], ()⟩] ∧ w.returned ++ w.client.recvMessage = [] ∧
      w.accepted = [⟨7, 2, some [104, 105], ()⟩] ∧ w.written ++ w.client.sendMessage = [] := by
  have hstart : start 7 0 0 = some { client := { unicode := 7 }, connecting := 1 } := rfl
  have h0 : Run Step { client := { unicode := 7 }, connecting := 1 } [] _ := .nil
  have h1 := h0.snoc (.connectCb 0 0 0 (by decide))
  have h2 := h1.snoc (.timerCb 0 0 0 0 (by decide))
  have h3 := h2.snoc (.readCb 3 [1, 2, 3] (by decide) (by decide))
  have h4 := h3.snoc (.pushSend _ ⟨7, 2, some [104, 105], ()⟩)
  have h5 := h4.snoc (.timerCb 0 0 (-4083) 0 (by decide))
  exact ⟨_, _, _, hstart, h5, by decide, by decide, by decide, by decide⟩

end ClientLoop
end GameRes.NetApp
