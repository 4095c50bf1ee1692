import GameRes.Library.Runs
import GameRes.NetApp.ConnectionTable

/-!
# Connection ids over whole runs (NetApp/NetFrame.cpp:39-65, 123-165, 303-348)

The tables under any order of the callbacks and of the calls of the logic
thread. A stream is no more than its address here, so a callback may come for an
address that was freed, reused while it is still in the tables, or never online.
-/

namespace GameRes.NetApp
open Library

inductive Call (γ : Type) where
  | connection (status : ℤ) (stream : Ptr) (rInit rAccept rRead : ℤ)
  | read (handle : Ptr) (nread : ℤ) (base : Bytes) (order : List ConnID) (origin : γ)
  | timer
  | getRecv
  | pushSend (conn : ConnID) (buf : Option Bytes) (len : BitVec 32) (origin : γ)
  | status (status : Status)

namespace TCPServer
variable {γ : Type}

inductive Serve : TCPServer γ → Call γ → TCPServer γ → Prop where
  | connection (s : TCPServer γ) (status : ℤ) (stream : Ptr) (rInit rAccept rRead : ℤ) :
      Serve s (.connection status stream rInit rAccept rRead)
        (s.onConnection status stream rInit rAccept rRead)
  | read (s : TCPServer γ) (handle : Ptr) (nread : ℤ) (base : Bytes) (order : List ConnID)
      (origin : γ) (horder : order.Perm s.onlineID.keys) :
      Serve s (.read handle nread base order origin)
        (s.afterRead handle nread base order origin).1
  | timer (s : TCPServer γ) : Serve s .timer s.timerCb.1
  | getRecv (s : TCPServer γ) : Serve s .getRecv s.getRecvMessage.2
  | pushSend (s : TCPServer γ) (conn : ConnID) (buf : Option Bytes) (len : BitVec 32)
      (origin : γ) :
      Serve s (.pushSend conn buf len origin) (s.pushSendMessage conn buf len origin)
  | status (s : TCPServer γ) (status : Status) : Serve s (.status status) (s.setStatus status)

/-- The call makes `GetConnectionID` count up, its free list being empty. -/
def creates (s : TCPServer γ) : Call γ → Bool
  | .connection status stream rInit rAccept rRead =>
    decide (status = 0 ∧ stream ≠ 0 ∧ rInit = 0 ∧ rAccept = 0 ∧ rRead = 0) &&
      s.connectionID.isEmpty
  | _ => false

def created (tr : List (TCPServer γ × Call γ)) : ℕ := tr.countP fun x => x.1.creates x.2

theorem created_snoc (tr : List (TCPServer γ × Call γ)) (s : TCPServer γ) (c : Call γ) :
    created (tr ++ [(s, c)]) = created tr + (s.creates c).toNat :=
  countP_snoc _ _ _

/-! ### Calls that hand out no id -/

theorem Numbered.congr {s t : TCPServer γ} (h : s.Numbered) (hid : t.onlineID = s.onlineID)
    (hfree : t.connectionID = s.connectionID) (hmax : t.maxConnectionID = s.maxConnectionID) :
    t.Numbered := by
  refine ⟨?_, ?_, ?_⟩
  · rw [hid, hfree, hmax]
    exact h.range
  · rw [hid, hfree]
    exact h.free
  · rw [hfree]
    exact h.nodup

theorem Numbered.releaseConnection {s : TCPServer γ} (h : s.Numbered) (order : List ConnID)
    (handle : Ptr) : (s.releaseConnection order handle).Numbered := by
  unfold TCPServer.releaseConnection
  split
  next id hfind =>
    have hid : s.onlineID.lookup id = some handle := by simpa using List.find?_some hfind
    exact h.release hid rfl rfl rfl
  next => exact h.congr rfl rfl rfl

theorem Numbered.pushRecvMessage {s : TCPServer γ} (h : s.Numbered) (handle : Ptr)
    (buf : Option Bytes) (len : BitVec 32) (origin : γ) :
    (s.pushRecvMessage handle buf len origin).Numbered := by
  unfold TCPServer.pushRecvMessage
  split
  next => exact h.congr rfl rfl rfl
  next => exact h.congr rfl rfl rfl

theorem releaseConnection_max (s : TCPServer γ) (order : List ConnID) (handle : Ptr) :
    (s.releaseConnection order handle).maxConnectionID = s.maxConnectionID := by
  unfold releaseConnection
  split <;> rfl

theorem pushRecvMessage_max (s : TCPServer γ) (handle : Ptr) (buf : Option Bytes)
    (len : BitVec 32) (origin : γ) :
    (s.pushRecvMessage handle buf len origin).maxConnectionID = s.maxConnectionID := by
  unfold pushRecvMessage
  split <;> rfl

theorem Numbered.afterRead {s : TCPServer γ} (h : s.Numbered) (handle : Ptr) (nread : ℤ)
    (base : Bytes) (order : List ConnID) (origin : γ) :
    (s.afterRead handle nread base order origin).1.Numbered ∧
      (s.afterRead handle nread base order origin).1.maxConnectionID = s.maxConnectionID := by
  unfold TCPServer.afterRead
  split
  next =>
    -- The end of a stream: the message is queued first, the tables are cleared after it.
    have hpush := h.pushRecvMessage handle none 0 origin
    refine ⟨hpush.releaseConnection order handle, ?_⟩
    rw [releaseConnection_max, pushRecvMessage_max]
  next =>
    split
    next => exact ⟨h, rfl⟩
    next => exact ⟨h.pushRecvMessage _ _ _ _, pushRecvMessage_max _ _ _ _ _⟩

/-! ### Handing out the next id -/

theorem Numbered.exists_offline {s : TCPServer γ} (h : s.Numbered)
    (hmax : s.maxConnectionID.toNat + 1 < 2 ^ 32) : ∃ k ≠ 0, s.onlineID.lookup k = none := by
  refine ⟨s.maxConnectionID + 1, by bv_omega, ?_⟩
  by_contra hon
  obtain ⟨p, hp⟩ := Option.ne_none_iff_exists'.mp hon
  have hle := ((h.range _).mpr (Or.inr ⟨p, hp⟩)).2
  bv_omega

theorem HandsOut.ne_zero {s t : TCPServer γ} {k : ConnID} (h : HandsOut s t k) : k ≠ 0 :=
  ((h.range k).mpr (Or.inl rfl)).1

theorem getConnectionID_max (s : TCPServer γ) (hmax : s.maxConnectionID.toNat + 1 < 2 ^ 32) :
    s.getConnectionID.2.maxConnectionID.toNat =
      s.maxConnectionID.toNat + s.connectionID.isEmpty.toNat := by
  unfold getConnectionID
  split
  next hnil =>
    simp only [hnil, List.isEmpty_nil, Bool.toNat_true]
    bv_omega
  next hcons => simp only [hcons, List.isEmpty_cons, Bool.toNat_false, Nat.add_zero]

theorem Numbered.onConnection {s : TCPServer γ} (h : s.Numbered)
    (hmax : s.maxConnectionID.toNat + 1 < 2 ^ 32) (status : ℤ) (stream : Ptr)
    (rInit rAccept rRead : ℤ) :
    (s.onConnection status stream rInit rAccept rRead).Numbered ∧
      (s.onConnection status stream rInit rAccept rRead).maxConnectionID.toNat =
        s.maxConnectionID.toNat +
          (s.creates (.connection status stream rInit rAccept rRead)).toNat := by
  by_cases hok : status = 0 ∧ stream ≠ 0 ∧ rInit = 0 ∧ rAccept = 0 ∧ rRead = 0
  · have hcreates : s.creates (.connection status stream rInit rAccept rRead) =
        s.connectionID.isEmpty := by
      simp only [creates, hok, decide_true, Bool.true_and, ne_eq, not_false_eq_true, and_self]
    obtain ⟨rfl, hstream, rfl, rfl, rfl⟩ := hok
    have hout := h.getConnectionID (h.exists_offline hmax)
    have hsame : s.getConnectionID.2.onlineID = s.onlineID := by
      unfold TCPServer.getConnectionID
      split <;> rfl
    rw [s.onConnection_ok hstream, hcreates]
    exact ⟨Numbered.addConnection hout hsame, s.getConnectionID_max hmax⟩
  · rw [s.onConnection_fail hok]
    simp only [creates, hok, decide_false, Bool.false_and, Bool.toNat_false, Nat.add_zero, h,
      and_self]

/-! ### Runs -/

theorem Serve.numbered {s t : TCPServer γ} {c : Call γ} (hserve : Serve s c t) (h : s.Numbered)
    (hmax : s.maxConnectionID.toNat + 1 < 2 ^ 32) :
    t.Numbered ∧ t.maxConnectionID.toNat = s.maxConnectionID.toNat + (s.creates c).toNat := by
  cases hserve with
  | connection status stream rInit rAccept rRead =>
    exact h.onConnection hmax status stream rInit rAccept rRead
  | read handle nread base order origin _ =>
    obtain ⟨hnum, hsame⟩ := h.afterRead handle nread base order origin
    exact ⟨hnum, congrArg BitVec.toNat hsame⟩
  | timer =>
    have htables := s.getSendMessage_tables
    simp only [timerCb, htables]
    exact ⟨h.congr rfl rfl rfl, rfl⟩
  | getRecv =>
    rw [s.getRecvMessage_tables]
    exact ⟨h.congr rfl rfl rfl, rfl⟩
  | pushSend => exact ⟨h.congr rfl rfl rfl, rfl⟩
  | status => exact ⟨h.congr rfl rfl rfl, rfl⟩

theorem numbered_of_run {tr : List (TCPServer γ × Call γ)} {s : TCPServer γ}
    (hrun : Run Serve {} tr s) (hfew : created tr < 2 ^ 32 - 1) :
    s.Numbered ∧ s.maxConnectionID.toNat = created tr := by
  induction hrun with
  | nil => exact ⟨numbered_empty, rfl⟩
  | @snoc tr t c u hprev hlast ih =>
    rw [created_snoc] at hfew ⊢
    obtain ⟨hnum, hcount⟩ := ih (by omega)
    have hmax : t.maxConnectionID.toNat + 1 < 2 ^ 32 := by omega
    obtain ⟨hnum', hcount'⟩ := hlast.numbered hnum hmax
    exact ⟨hnum', by omega⟩

/-- While fewer than `2 ^ 32 - 1` ids were created, the free ids and the online ids
partition the ids up to the maximum, and the next id is neither zero nor online. -/
theorem ids_issued_once {tr : List (TCPServer γ × Call γ)} {s : TCPServer γ}
    (hrun : Run Serve {} tr s) (hfew : created tr < 2 ^ 32 - 1) :
    s.Numbered ∧ s.getConnectionID.1 ≠ 0 ∧ s.onlineID.lookup s.getConnectionID.1 = none := by
  obtain ⟨hnum, hcount⟩ := numbered_of_run hrun hfew
  have hmax : s.maxConnectionID.toNat + 1 < 2 ^ 32 := by omega
  have hout := hnum.getConnectionID (hnum.exists_offline hmax)
  exact ⟨hnum, hout.ne_zero, hout.offline⟩

theorem ids_issued_once_reused :
    ∃ s : TCPServer Unit, s.connectionID = [1] ∧ s.onlineID.lookup 2 = some 8 ∧
      s.Numbered ∧ s.getConnectionID.1 ≠ 0 ∧ s.onlineID.lookup s.getConnectionID.1 = none := by
  have start : Run Serve ({} : TCPServer Unit) [] {} := .nil
  have first := start.snoc (.connection _ 0 8 0 0 0)
  have second := first.snoc (.connection _ 0 8 0 0 0)
  have third := second.snoc (.read _ 8 uvEof [] [1, 2] () (by decide))
  exact ⟨_, by decide, by decide, ids_issued_once third (by decide)⟩

end TCPServer
end GameRes.NetApp
