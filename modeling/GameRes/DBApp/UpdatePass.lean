import GameRes.DBApp.AppManager
import GameRes.Library.Firsts
import Mathlib.Logic.Function.Iterate

/-!
# One pass of `OnUpdate` over the message list (DBApp/AppManager.cpp:57-85)

The iterator is the rest of the list from it on. It stays behind a posted message, which
is then met again with a busy user.
-/

namespace GameRes.DBApp
open Library NetApp

namespace AppManager

/-- One turn of the `for` loop with its iterator; at `end()` there is none. -/
def loopTurn : AppManager × List Message → AppManager × List Message
  | (s, []) => (s, [])
  | (s, m :: rest) =>
    match s.turn m with
    | none => (s, rest)
    | some t => (t, m :: rest)

/-- A user with a message in `ms` whose flag exists and is clear, and for whom
`GetConnction` returns a connection; a null entry of the manager is as good as none. -/
def Ready (s : AppManager) (ms : List Message) (c : ConnID) : Prop :=
  c ∈ ms.map MessageInfo.conn ∧ s.userStatus.lookup c = some false ∧
    (s.taskMgr.lookup (c.setWidth 16)).isSome = true

/-- The loop over `ms`, begun in `s`, ends in `t` and posted `news`: one task for the first
message of each user that was ready, in the order of these messages. -/
structure Passed (s : AppManager) (ms : List Message) (news : List Posted) (t : AppManager) :
    Prop where
  ended : loopTurn^[ms.length + news.length] (s, ms) = (t, [])
  firsts : Firsts MessageInfo.conn ms (news.map Posted.message)
  once : (news.map fun p => p.message.conn).Nodup
  ready : ∀ c, c ∈ (news.map fun p => p.message.conn) ↔ s.Ready ms c
  tasks : ∀ p ∈ news, ∃ conn, s.taskMgr.lookup (p.message.conn.setWidth 16) = some conn ∧
    p = posting p.message conn
  marked : ∀ c, s.Ready ms c → t.userStatus.lookup c = some true
  unmarked : ∀ c, ¬s.Ready ms c → t.userStatus.lookup c = s.userStatus.lookup c
  others : t = { s with
    userStatus := t.userStatus
    posted := s.posted ++ news
    outstanding := s.outstanding ++ news }

theorem loopTurn_skip {s : AppManager} {m : Message} {rest : List Message}
    (h : s.turn m = none) : loopTurn (s, m :: rest) = (s, rest) := by
  simp only [loopTurn, h]

theorem loopTurn_post {s t : AppManager} {m : Message} {rest : List Message}
    (h : s.turn m = some t) : loopTurn (s, m :: rest) = (t, m :: rest) := by
  simp only [loopTurn, h]

/-! ### The users that are ready -/

section
variable {s : AppManager} {m : Message} {rest : List Message} {c : ConnID} {conn : ℕ}

theorem Ready.turn_some (h : s.Ready (m :: rest) m.conn) : ∃ t, s.turn m = some t := by
  obtain ⟨-, hidle, hsome⟩ := h
  obtain ⟨conn, hconn⟩ := Option.isSome_iff_exists.mp hsome
  exact ⟨_, turn_idle hidle hconn⟩

theorem ready_of_turn {t : AppManager} (h : s.turn m = some t) : s.Ready (m :: rest) m.conn := by
  obtain ⟨hidle, conn, hconn, -⟩ := AppManager.turn_some h
  refine ⟨List.mem_cons_self, hidle, ?_⟩
  rw [hconn, Option.isSome_some]

theorem ready_cons (hne : c ≠ m.conn) : s.Ready (m :: rest) c ↔ s.Ready rest c := by
  simp only [Ready, List.map_cons, List.mem_cons, hne, false_or]

theorem ready_skip (h : s.turn m = none) : s.Ready (m :: rest) c ↔ s.Ready rest c := by
  by_cases hc : c = m.conn
  · have hnot : ∀ ms, ¬s.Ready ms m.conn := by
      intro ms hready
      have hhead : s.Ready (m :: rest) m.conn := ⟨List.mem_cons_self, hready.2⟩
      obtain ⟨t, hturn⟩ := hhead.turn_some
      rw [h] at hturn
      cases hturn
    rw [hc]
    exact iff_of_false (hnot _) (hnot _)
  · exact ready_cons hc

theorem ready_post : (s.post m conn).Ready rest c ↔ c ≠ m.conn ∧ s.Ready rest c := by
  by_cases hc : c = m.conn
  · have hnot : ¬(s.post m conn).Ready rest c := by
      intro hready
      have hidle := hready.2.1
      rw [hc, post_busy] at hidle
      cases hidle
    exact iff_of_false hnot fun h => h.1 hc
  · have hother : (s.post m conn).userStatus.lookup c = s.userStatus.lookup c :=
      AList.lookup_insert_ne hc
    simp only [Ready, hother, ne_eq, hc, not_false_eq_true, true_and]
    rfl

end

/-! ### The pass, message by message -/

section
variable {s t : AppManager} {m : Message} {rest : List Message} {news : List Posted}

theorem passed_nil (s : AppManager) : Passed s [] [] s where
  ended := rfl
  firsts := Firsts.nil
  once := List.nodup_nil
  ready := by
    intro c
    exact iff_of_false List.not_mem_nil fun h => List.not_mem_nil h.1
  tasks := by
    intro p hp
    cases hp
  marked := by
    intro c h
    exact absurd h.1 List.not_mem_nil
  unmarked := fun _ _ => rfl
  others := by simp only [List.append_nil]

theorem Passed.conn_ne (h : Passed s rest news t) (hnot : ¬s.Ready rest m.conn) :
    ∀ m' ∈ news.map Posted.message, m.conn ≠ m'.conn := by
  intro m' hm' heq
  obtain ⟨p, hp, rfl⟩ := List.mem_map.mp hm'
  apply hnot
  rw [heq]
  exact (h.ready _).mp (List.mem_map_of_mem hp)

theorem Passed.skip (hturn : s.turn m = none) (h : Passed s rest news t) :
    Passed s (m :: rest) news t where
  ended := by
    rw [List.length_cons, Nat.add_right_comm, Function.iterate_succ_apply, loopTurn_skip hturn]
    exact h.ended
  firsts := by
    apply h.firsts.skip
    apply h.conn_ne
    intro hready
    obtain ⟨t, hsome⟩ := ((ready_skip hturn).mpr hready).turn_some
    rw [hturn] at hsome
    cases hsome
  once := h.once
  ready := by
    intro c
    rw [ready_skip hturn]
    exact h.ready c
  tasks := h.tasks
  marked := by
    intro c hready
    exact h.marked c ((ready_skip hturn).mp hready)
  unmarked := by
    intro c hready
    exact h.unmarked c fun hrest => hready ((ready_skip hturn).mpr hrest)
  others := h.others

theorem loopTurn_twice {conn : ℕ} (hturn : s.turn m = some (s.post m conn)) :
    loopTurn (loopTurn (s, m :: rest)) = (s.post m conn, rest) := by
  rw [loopTurn_post hturn]
  apply loopTurn_skip
  apply turn_busy
  rw [post_busy]
  simp

theorem ready_cons_post {c : ConnID} {conn : ℕ} (hturn : s.turn m = some (s.post m conn)) :
    s.Ready (m :: rest) c ↔ c = m.conn ∨ (s.post m conn).Ready rest c := by
  rw [ready_post]
  by_cases hc : c = m.conn
  · rw [hc]
    exact iff_of_true (ready_of_turn hturn) (Or.inl rfl)
  · rw [ready_cons hc]
    simp only [hc, false_or, ne_eq, not_false_eq_true, true_and]

theorem Passed.post {conn : ℕ} (hturn : s.turn m = some (s.post m conn))
    (h : Passed (s.post m conn) rest news t) :
    Passed s (m :: rest) (posting m conn :: news) t := by
  have hnot : ¬(s.post m conn).Ready rest m.conn := fun hready => (ready_post.mp hready).1 rfl
  have hfirsts : Firsts MessageInfo.conn (m :: rest) ((posting m conn :: news).map Posted.message) :=
    h.firsts.take (h.conn_ne hnot)
  refine ⟨?_, hfirsts, ?_, ?_, ?_, ?_, ?_, ?_⟩
  · have hturns : (m :: rest).length + (posting m conn :: news).length =
        rest.length + news.length + 1 + 1 := by
      rw [List.length_cons, List.length_cons]
      omega
    rw [hturns, Function.iterate_succ_apply, Function.iterate_succ_apply, loopTurn_twice hturn]
    exact h.ended
  · have honce := hfirsts.nodup
    rwa [List.map_map] at honce
  · intro c
    rw [ready_cons_post hturn, List.map_cons, List.mem_cons, h.ready]
    rfl
  · intro p hp
    rcases List.mem_cons.mp hp with rfl | hrest
    · obtain ⟨-, conn', hconn, hpost⟩ := AppManager.turn_some hturn
      have heq : posting m conn = posting m conn' := by
        have hposted := congrArg AppManager.posted hpost
        exact List.singleton_inj.mp (List.append_cancel_left hposted)
      exact ⟨conn', hconn, heq⟩
    · exact h.tasks p hrest
  · intro c hready
    rcases (ready_cons_post hturn).mp hready with rfl | hrest
    · rw [h.unmarked _ hnot, post_busy]
    · exact h.marked c hrest
  · intro c hready
    rw [ready_cons_post hturn, not_or] at hready
    rw [h.unmarked c hready.2]
    exact AList.lookup_insert_ne hready.1
  · rw [h.others]
    simp only [AppManager.post, List.append_assoc, List.singleton_append]

theorem scan_passed (s : AppManager) (ms : List Message) : ∃ news, Passed s ms news (s.scan ms) := by
  induction ms generalizing s with
  | nil =>
    rw [scan]
    exact ⟨[], passed_nil s⟩
  | cons m rest ih =>
    cases hturn : s.turn m with
    | none =>
      rw [scan_skip hturn]
      obtain ⟨news, h⟩ := ih s
      exact ⟨news, h.skip hturn⟩
    | some t =>
      rw [scan_post hturn]
      obtain ⟨-, conn, -, rfl⟩ := AppManager.turn_some hturn
      obtain ⟨news, h⟩ := ih (s.post m conn)
      exact ⟨posting m conn :: news, h.post hturn⟩

end

/-- The loop from any state, and `OnUpdate`, which renews user 1 before it. -/
theorem update_pass (s : AppManager) :
    (∃ news, Passed s s.messageList news (s.scan s.messageList)) ∧
      ∃ news, Passed s.renewed s.messageList news s.onUpdate :=
  ⟨scan_passed s s.messageList, scan_passed s.renewed s.messageList⟩

example :
    let status : AList fun _ : ConnID => Bool := AList.insert 65537 false (AList.insert 1 false ∅)
    let s : AppManager := { userStatus := status, taskMgr := AList.insert 1 0 ∅ }
    let ms : List Message := [⟨65537, 0, none, 0⟩, ⟨65537, 0, none, 1⟩, ⟨1, 0, none, 2⟩]
    (loopTurn^[5] (s, ms)).1.posted.map (fun p => p.message.origin) = [0, 2] := by
  decide

end AppManager
end GameRes.DBApp
