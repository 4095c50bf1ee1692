import GameRes.DBApp.ThreadPool
import GameRes.NetApp.TCPServer

/-!
# The DB server's `AppManager` (DBApp/AppManager.cpp:34-85, NewConnection.h:56-78)

`OnUpdate` clears the flag of user 1, renews its connection and walks the
message list; a message of an idle user is posted and its user marked busy. The
`erase` of a posted message is commented out. Posted tasks finish in the thread
pool in any order.
-/

namespace GameRes.DBApp
open Library NetApp

/-- A message as `RecivedMessage` gets it; the origin is its number of arrival. -/
abbrev Message := MessageInfo ℕ

structure Posted where
  message : Message
  task : TaskInfo ℕ
  deriving Repr, DecidableEq

/-- The members of `AppManager` that `OnUpdate` works on. A `Connction` is the number
of its construction. `received`, `posted` and `outstanding` are history: how many
messages came, all that was posted, and what of it is unfinished. -/
structure AppManager where
  userStatus : AList (fun _ : ConnID => Bool) := ∅
  messageList : List Message := []
  taskMgr : AList (fun _ : BitVec 16 => ℕ) := ∅
  created : ℕ := 0
  received : ℕ := 0
  posted : List Posted := []
  outstanding : List Posted := []

namespace AppManager

def recivedMessage (s : AppManager) (conn : ConnID) (buf : Option Bytes) (len : BitVec 32) :
    AppManager :=
  { s with
    messageList := s.messageList ++ [⟨conn, len, buf, s.received⟩]
    received := s.received + 1 }

def newConnction (s : AppManager) (conn : BitVec 16) : AppManager :=
  { s with taskMgr := s.taskMgr.insert conn s.created, created := s.created + 1 }

def posting (m : Message) (conn : ℕ) : Posted := ⟨m, ⟨some conn, "select * from Platform"⟩⟩

def post (s : AppManager) (m : Message) (conn : ℕ) : AppManager :=
  { s with
    userStatus := s.userStatus.insert m.conn true
    posted := s.posted ++ [posting m conn]
    outstanding := s.outstanding ++ [posting m conn] }

/-- One turn of the loop of `OnUpdate`: `none` is `itr++`, after a post the iterator
stays. `GetConnction` takes a `uint16_t`. -/
def turn (s : AppManager) (m : Message) : Option AppManager :=
  match s.userStatus.lookup m.conn with
  | none => none
  | some true => none
  | some false =>
    match s.taskMgr.lookup (m.conn.setWidth 16) with
    | none => none
    | some conn => some (s.post m conn)

theorem turn_some {s t : AppManager} {m : Message} (h : s.turn m = some t) :
    s.userStatus.lookup m.conn = some false ∧
      ∃ conn, s.taskMgr.lookup (m.conn.setWidth 16) = some conn ∧ t = s.post m conn := by
  unfold turn at h
  split at h
  next => cases h
  next => cases h
  next hidle =>
    split at h
    next => cases h
    next conn hconn => exact ⟨hidle, conn, hconn, (Option.some.inj h).symm⟩

theorem turn_idle {s : AppManager} {m : Message} {conn : ℕ}
    (hidle : s.userStatus.lookup m.conn = some false)
    (hconn : s.taskMgr.lookup (m.conn.setWidth 16) = some conn) : s.turn m = some (s.post m conn) := by
  rw [turn, hidle]
  simp only [hconn]

theorem turn_busy {s : AppManager} {m : Message} (h : s.userStatus.lookup m.conn ≠ some false) :
    s.turn m = none := by
  cases hturn : s.turn m with
  | none => rfl
  | some t => exact absurd (turn_some hturn).1 h

theorem post_busy (s : AppManager) (m : Message) (conn : ℕ) :
    (s.post m conn).userStatus.lookup m.conn = some true := AList.lookup_insert ..

/-- The turns left: two for each message, one when the first message's user is busy. -/
def turnsLeft (s : AppManager) : List Message → ℕ
  | [] => 0
  | m :: rest =>
    2 * rest.length + if s.userStatus.lookup m.conn = some true then 1 else 2

theorem turnsLeft_le (s : AppManager) (ms : List Message) : s.turnsLeft ms ≤ 2 * ms.length := by
  cases ms with
  | nil => exact Nat.zero_le _
  | cons m rest =>
    rw [turnsLeft, List.length_cons]
    split <;> omega

def scan (s : AppManager) (ms : List Message) : AppManager :=
  match ms with
  | [] => s
  | m :: rest =>
    match _hturn : s.turn m with
    | none => s.scan rest
    | some t => t.scan (m :: rest)
termination_by s.turnsLeft ms
decreasing_by
  · have hle := s.turnsLeft_le rest
    rw [turnsLeft]
    split <;> omega
  · obtain ⟨hidle, conn, -, rfl⟩ := turn_some _hturn
    simp [turnsLeft, hidle, post_busy]

def onUpdate (s : AppManager) : AppManager :=
  let s := { s with userStatus := s.userStatus.insert 1 false }
  let s := s.newConnction 1
  s.scan s.messageList

theorem scan_skip {s : AppManager} {m : Message} {rest : List Message} (h : s.turn m = none) :
    s.scan (m :: rest) = s.scan rest := by
  rw [scan]
  split
  next => rfl
  next t hturn =>
    rw [h] at hturn
    cases hturn

/-- After a post the same message is met again, now with a busy user. -/
theorem scan_post {s t : AppManager} {m : Message} {rest : List Message} (h : s.turn m = some t) :
    s.scan (m :: rest) = t.scan rest := by
  have hbusy : t.userStatus.lookup m.conn ≠ some false := by
    obtain ⟨-, conn, -, rfl⟩ := turn_some h
    rw [post_busy]
    simp
  rw [scan]
  split
  next hturn =>
    rw [h] at hturn
    cases hturn
  next t' hturn =>
    rw [h] at hturn
    cases hturn
    exact scan_skip (turn_busy hbusy)

end AppManager

inductive Event where
  | recived (conn : ConnID) (buf : Option Bytes) (len : BitVec 32)
  | onUpdate
  | finish (p : Posted)
  deriving Repr, DecidableEq

namespace AppManager

inductive Step : AppManager → Event → AppManager → Prop where
  | recived (s : AppManager) (conn : ConnID) (buf : Option Bytes) (len : BitVec 32) :
      Step s (.recived conn buf len) (s.recivedMessage conn buf len)
  | onUpdate (s : AppManager) : Step s .onUpdate s.onUpdate
  | finish {s : AppManager} {before after : List Posted} {p : Posted}
      (hworker : s.outstanding = before ++ p :: after) :
      Step s (.finish p) { s with outstanding := before ++ after }

/-- No message is posted twice, those of one connection are posted in order of
arrival, and no connection has two unfinished tasks. -/
structure Disciplined (s : AppManager) : Prop where
  once : (s.posted.map fun p => p.message.origin).Nodup
  order : s.posted.Pairwise fun p q =>
    p.message.conn = q.message.conn → p.message.origin ≤ q.message.origin
  single : ∀ conn, s.outstanding.countP (fun p => p.message.conn = conn) ≤ 1

def Cleared (s : AppManager) (e : Event) : Prop :=
  e = .onUpdate → s.userStatus.lookup 1 ≠ some true

/-! ### One `OnUpdate` -/

def fromUser (m : Message) : Bool := m.conn = 1

def OnlyUser (s : AppManager) : Prop := ∀ conn, conn ≠ 1 → s.userStatus.lookup conn = none

theorem scan_idle {s : AppManager} (h : ∀ conn, s.userStatus.lookup conn ≠ some false)
    (ms : List Message) : s.scan ms = s := by
  induction ms with
  | nil => rw [scan]
  | cons m rest ih => rw [scan_skip (turn_busy (h m.conn)), ih]

theorem scan_user {s : AppManager} (honly : s.OnlyUser) (hidle : s.userStatus.lookup 1 = some false)
    {conn : ℕ} (hconn : s.taskMgr.lookup 1 = some conn) (ms : List Message) :
    s.scan ms = match ms.find? fromUser with
      | none => s
      | some m => s.post m conn := by
  induction ms with
  | nil =>
    rw [scan]
    rfl
  | cons m rest ih =>
    by_cases hm : m.conn = 1
    · have huser : fromUser m = true := decide_eq_true hm
      have hturn : s.turn m = some (s.post m conn) := turn_idle (hm ▸ hidle) (hm ▸ hconn)
      have hbusy : ∀ c, (s.post m conn).userStatus.lookup c ≠ some false := by
        intro c
        by_cases hc : c = m.conn
        · rw [hc, post_busy]
          simp
        · have hother : (s.post m conn).userStatus.lookup c = s.userStatus.lookup c :=
            AList.lookup_insert_ne hc
          rw [hother, honly c (hm ▸ hc)]
          simp
      rw [scan_post hturn, scan_idle hbusy, List.find?_cons_of_pos huser]
    · have huser : ¬fromUser m = true := fun hu => hm (of_decide_eq_true hu)
      have hturn : s.turn m = none := turn_busy (by rw [honly m.conn hm]; simp)
      rw [scan_skip hturn, ih, List.find?_cons_of_neg huser]

def renewed (s : AppManager) : AppManager :=
  { s with userStatus := s.userStatus.insert 1 false }.newConnction 1

theorem OnlyUser.renewed {s : AppManager} (h : s.OnlyUser) : s.renewed.OnlyUser := by
  intro conn hne
  exact (AList.lookup_insert_ne hne).trans (h conn hne)

theorem onUpdate_eq {s : AppManager} (h : s.OnlyUser) :
    s.onUpdate = match s.messageList.find? fromUser with
      | none => s.renewed
      | some m => s.renewed.post m s.created :=
  scan_user h.renewed (AList.lookup_insert ..) (AList.lookup_insert ..) s.messageList

theorem OnlyUser.onUpdate {s : AppManager} (h : s.OnlyUser) : s.onUpdate.OnlyUser := by
  rw [onUpdate_eq h]
  cases hfind : s.messageList.find? fromUser with
  | none => exact h.renewed
  | some m =>
    have huser : fromUser m = true := List.find?_some hfind
    have hm : m.conn = 1 := of_decide_eq_true huser
    intro conn hne
    have hother : (s.renewed.post m s.created).userStatus.lookup conn =
        s.renewed.userStatus.lookup conn := AList.lookup_insert_ne (hm ▸ hne)
    exact hother.trans (h.renewed conn hne)

/-! ### Runs -/

/-- What the flag of user 1 says in a run whose `OnUpdate`s never found it set: whether
the first message of user 1 was posted. -/
structure Known (s : AppManager) : Prop where
  only : s.OnlyUser
  idle : s.userStatus.lookup 1 ≠ some true → s.posted = [] ∧ s.outstanding = []
  busy : s.userStatus.lookup 1 = some true → ∃ p, s.messageList.find? fromUser = some p.message ∧
    s.posted = [p] ∧ (s.outstanding = [p] ∨ s.outstanding = [])

theorem known_start : Known {} := by
  refine ⟨?_, ?_, ?_⟩
  · intro conn _
    rfl
  · intro _
    exact ⟨rfl, rfl⟩
  · intro hbusy
    cases hbusy

theorem Known.disciplined {s : AppManager} (h : Known s) : Disciplined s := by
  by_cases hflag : s.userStatus.lookup 1 = some true
  · obtain ⟨p, -, hposted, hout⟩ := h.busy hflag
    refine ⟨?_, ?_, ?_⟩
    · rw [hposted]
      exact List.nodup_singleton _
    · rw [hposted]
      exact List.pairwise_singleton _ _
    · intro conn
      have hlen : s.outstanding.length ≤ 1 := by
        cases hout with
        | inl hone => rw [hone, List.length_singleton]
        | inr hnone => rw [hnone, List.length_nil]; omega
      exact (List.countP_le_length).trans hlen
  · obtain ⟨hposted, hout⟩ := h.idle hflag
    refine ⟨?_, ?_, ?_⟩
    · rw [hposted]
      exact List.nodup_nil
    · rw [hposted]
      exact List.Pairwise.nil
    · intro conn
      rw [hout, List.countP_nil]
      omega

theorem Known.onUpdate {s : AppManager} (h : Known s) (hcleared : s.userStatus.lookup 1 ≠ some true) :
    Known s.onUpdate := by
  obtain ⟨hposted, hout⟩ := h.idle hcleared
  have honly := h.only.onUpdate
  rw [onUpdate_eq h.only] at honly ⊢
  cases hfind : s.messageList.find? fromUser with
  | none =>
    rw [hfind] at honly
    refine ⟨honly, fun _ => ⟨hposted, hout⟩, ?_⟩
    intro hbusy
    have hidle : s.renewed.userStatus.lookup 1 = some false := AList.lookup_insert ..
    rw [hidle] at hbusy
    cases hbusy
  | some m =>
    rw [hfind] at honly
    have huser : fromUser m = true := List.find?_some hfind
    have hm : m.conn = 1 := of_decide_eq_true huser
    refine ⟨honly, ?_, ?_⟩
    · intro hno
      rw [← hm, post_busy] at hno
      exact absurd rfl hno
    · intro _
      refine ⟨posting m s.created, hfind, ?_, Or.inl ?_⟩
      · exact congrArg (· ++ [posting m s.created]) hposted
      · exact congrArg (· ++ [posting m s.created]) hout

/-- With the flag set, the message that was posted is found and posted again. -/
theorem Known.onUpdate_again {s : AppManager} (h : Known s)
    (hflag : s.userStatus.lookup 1 = some true) : ¬Disciplined s.onUpdate := by
  obtain ⟨p, hfind, hposted, -⟩ := h.busy hflag
  intro hdisciplined
  have honce := hdisciplined.once
  rw [onUpdate_eq h.only, hfind] at honce
  have hagain : (s.renewed.post p.message s.created).posted = [p, posting p.message s.created] :=
    congrArg (· ++ [posting p.message s.created]) hposted
  simp only [hagain, List.map_cons, List.map_nil, posting, List.nodup_cons, List.mem_singleton,
    not_true_eq_false, false_and] at honce

theorem Known.step {s t : AppManager} {e : Event} (h : Known s) (hcleared : Cleared s e)
    (hstep : Step s e t) : Known t := by
  cases hstep with
  | recived conn buf len =>
    refine ⟨h.only, h.idle, ?_⟩
    intro hflag
    obtain ⟨p, hfind, hposted, hout⟩ := h.busy hflag
    refine ⟨p, ?_, hposted, hout⟩
    simp only [recivedMessage, List.find?_append, hfind, Option.some_or]
  | onUpdate => exact h.onUpdate (hcleared rfl)
  | @finish before after p hworker =>
    refine ⟨h.only, ?_, ?_⟩
    · intro hflag
      obtain ⟨-, hout⟩ := h.idle hflag
      rw [hworker] at hout
      simp at hout
    · intro hflag
      obtain ⟨q, hfind, hposted, hout⟩ := h.busy hflag
      refine ⟨q, hfind, hposted, Or.inr ?_⟩
      cases hout with
      | inl hone =>
        have hlen := congrArg List.length hone
        rw [hworker, List.length_append, List.length_cons, List.length_singleton] at hlen
        apply List.eq_nil_of_length_eq_zero
        rw [List.length_append]
        omega
      | inr hnone =>
        rw [hworker] at hnone
        simp at hnone

/-- The discipline is kept in a run exactly when no `OnUpdate` finds the flag of user 1 set,
that is, when no second `OnUpdate` comes after one that posted. -/
theorem disciplined_iff {tr : List (AppManager × Event)} {s : AppManager}
    (hrun : Run Step {} tr s) : Throughout Disciplined tr s ↔ Meets Cleared tr := by
  apply hrun.throughout_iff (fun t e u hk hg hs => Known.step hk hg hs) ?_ known_start
    known_start.disciplined
  intro t e u hknown hstep
  constructor
  · intro hdisciplined he hflag
    subst he
    cases hstep
    exact hknown.onUpdate_again hflag hdisciplined
  · intro hcleared
    exact (hknown.step hcleared hstep).disciplined

theorem disciplined_iff_once :
    ∃ tr s, Run Step {} tr s ∧ s.posted.length = 1 ∧ Throughout Disciplined tr s := by
  have h0 : Run Step {} [] {} := .nil
  have h1 := h0.snoc (.recived _ 1 none 0)
  have h2 := h1.snoc (.onUpdate _)
  refine ⟨_, _, h2, ?_, (disciplined_iff h2).mpr ?_⟩
  · rw [onUpdate_eq (fun _ _ => rfl)]
    rfl
  · refine meets_snoc.mpr ⟨meets_snoc.mpr ⟨meets_nil _, ?_⟩, ?_⟩
    · intro he
      cases he
    · intro _
      decide

/-- One message of user 1 and two `OnUpdate`s: it is posted twice, and both tasks are
outstanding. -/
theorem posted_twice :
    ∃ tr s, Run Step {} tr s ∧ s.posted.map (fun p => p.message.origin) = [0, 0] ∧
      s.outstanding.countP (fun p => p.message.conn = 1) = 2 := by
  have h0 : Run Step {} [] {} := .nil
  have h1 := h0.snoc (.recived _ 1 none 0)
  have h2 := h1.snoc (.onUpdate _)
  have h3 := h2.snoc (.onUpdate _)
  have honly : (recivedMessage {} 1 none 0).OnlyUser := fun _ _ => rfl
  refine ⟨_, _, h3, ?_, ?_⟩
  · rw [onUpdate_eq honly.onUpdate, onUpdate_eq honly]
    rfl
  · rw [onUpdate_eq honly.onUpdate, onUpdate_eq honly]
    rfl

end AppManager
end GameRes.DBApp
