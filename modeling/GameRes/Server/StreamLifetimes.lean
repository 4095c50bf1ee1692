import GameRes.Server.Answers

/-!
# How long a stream stays (NetApp/NetFrame.cpp:33-76, 112-115, 183-230)

A stream is freed in `on_close`, which follows the `uv_close` of `after_shutdown`. So it
is given back only when `uv_shutdown` was called for it and did not fail: `after_read`
does not call it at the end of a stream and at a reset.
-/

namespace GameRes.Server
open Library NetApp

/-- The connection for whose stream a step calls `uv_shutdown`, with success. -/
def Event.shutsDown (w : World) : Event → Option ℕ
  | .readEnd p nread _ ret =>
    if nread ≠ uvEof ∧ nread ≠ uvEconnreset ∧ ret = 0 then (w.heap p).map (·.serial) else none
  | .timer ret =>
    match w.srv.timerCb.2.2.1 with
    | .shutdown p => if ret = 0 then (w.heap p).map (·.serial) else none
    | _ => none
  | _ => none

/-- Neither freed nor on its way there. -/
def Held (x : Option Handle) : Prop := ∃ a, x = some a ∧ a.shutting = false ∧ a.closing = false

/-- The stream of connection number `n` is allocated, and nobody asked for its end. -/
def Keeps (w : World) (n : ℕ) : Prop := ∃ p, (w.heap p).map (·.serial) = some n ∧ Held (w.heap p)

structure Numbered (w : World) : Prop where
  bound : ∀ p n, (w.heap p).map (·.serial) = some n → n < w.given.length
  inj : ∀ p q n, (w.heap p).map (·.serial) = some n → (w.heap q).map (·.serial) = some n → p = q

/-! ### What a step does to the streams -/

/-- One stream is allocated, or changed, or freed; `shutsDown` says which is asked to end. -/
inductive Moves (w : World) (down : Option ℕ) (u : World) : Prop where
  | same (hheap : u.heap = w.heap) (hgiven : u.given = w.given) (hdown : down = none)
  | fresh (p : Ptr) (k : ConnID) (hfree : w.heap p = none)
      (hheap : u.heap = Function.update w.heap p (some { serial := w.given.length }))
      (hgiven : u.given = w.given ++ [k]) (hdown : down = none)
  | moved (p : Ptr) (a : Handle) (x : Option Handle) (hold : w.heap p = some a)
      (hheap : u.heap = Function.update w.heap p x) (hgiven : u.given = w.given)
      (hserial : ∀ b, x = some b → b.serial = a.serial) (hdown : ∀ n, down = some n → n = a.serial)
      (hheld : Held x ↔ Held (some a) ∧ down = none)

theorem held_some {a : Handle} : Held (some a) ↔ a.shutting = false ∧ a.closing = false := by
  simp only [Held, Option.some.injEq, exists_eq_left']

theorem tick_streams (w : World) (ret : ℤ) : Moves w ((Event.timer ret).shutsDown w) (w.tick ret) := by
  simp only [World.tick, Event.shutsDown]
  cases hmsg : w.srv.timerCb.2.1 with
  | none =>
    have hidle : w.srv.timerCb.2.2.1 = .idle := by
      simp only [TCPServer.timerCb] at hmsg ⊢
      rw [hmsg]
    rw [hidle]
    exact .same rfl rfl rfl
  | some m =>
    cases haction : w.srv.timerCb.2.2.1 with
    | idle => exact .same rfl rfl rfl
    | empty => exact .same rfl rfl rfl
    | write p data => exact .same rfl rfl rfl
    | shutdown p =>
      simp only [World.act, World.shutdown]
      split_ifs with hret
      · cases hheap : w.heap p with
        | none =>
          refine .same ?_ rfl rfl
          exact (congrArg _ hheap.symm).trans (Function.update_eq_self p w.heap)
        | some a =>
          refine .moved p a _ hheap rfl rfl ?_ ?_ ?_
          · rintro b ⟨⟩
            rfl
          · rintro n ⟨⟩
            rfl
          · simp [held_some]
      · exact .same rfl rfl rfl

theorem step_streams {w u : World} {e : Event} (hstep : Step w e u) : Moves w (e.shutsDown w) u := by
  cases hstep with
  | accept hnull hfree => exact .fresh _ _ hfree rfl rfl rfl
  | @readEnd p a nread order ret hread hneg horder =>
    refine .moved p a _ hread.heap rfl rfl ?_ ?_ ?_
    · rintro b ⟨⟩
      rfl
    · intro n hn
      simp only [Event.shutsDown, hread.heap, Option.map_some] at hn
      split_ifs at hn
      exact (Option.some.inj hn).symm
    · simp only [Event.shutsDown, hread.heap, Option.map_some, held_some, TCPServer.afterRead,
        if_pos hneg]
      by_cases hdown : nread ≠ uvEof ∧ nread ≠ uvEconnreset ∧ ret = 0
      · simp [hdown]
      · rw [if_neg hdown]
        have hnot : (decide (nread ≠ uvEof ∧ nread ≠ uvEconnreset) && decide (ret = 0)) = false := by
          rw [Bool.and_eq_false_iff, decide_eq_false_iff_not, decide_eq_false_iff_not, ← not_and_or,
            and_assoc]
          exact hdown
        rw [hnot, Bool.or_false]
        simp
  | @afterShutdown p a hheap hshut =>
    refine .moved p a _ hheap rfl rfl ?_ (fun n hn => by cases hn) ?_
    · rintro b ⟨⟩
      rfl
    · simp [held_some, hshut]
  | @onClose p a hheap hclosing =>
    refine .moved p a none hheap rfl rfl (fun b hb => by cases hb) (fun n hn => by cases hn) ?_
    simp [Held, hclosing]
  | timer htimer => exact tick_streams w _
  | acceptFailed hfail =>
    rw [TCPServer.onConnection_fail _ hfail]
    exact .same rfl rfl rfl
  | pop => exact .same (by unfold World.pop; split <;> rfl) (quiet_pop w).given rfl
  | sendClient hsend =>
    obtain ⟨r, -, rfl⟩ := Option.map_eq_some_iff.mp hsend
    exact .same rfl rfl rfl
  | _ => exact .same rfl rfl rfl

/-! ### Runs -/

section
variable {w u : World} {down : Option ℕ}

/-- The connection a stream belongs to, after the stream at `p` became `x`. -/
theorem serial_update {heap : Ptr → Option Handle} {p q : Ptr} {x : Option Handle} {n : ℕ} :
    (Function.update heap p x q).map (·.serial) = some n ↔
      (q = p ∧ x.map (·.serial) = some n) ∨ (q ≠ p ∧ (heap q).map (·.serial) = some n) := by
  by_cases hq : q = p
  · rw [hq, Function.update_self]
    simp
  · rw [Function.update_of_ne hq]
    simp [hq]

theorem Moves.numbered (h : Moves w down u) (hnum : Numbered w) : Numbered u := by
  cases h with
  | same hheap hgiven hdown => exact ⟨by rw [hheap, hgiven]; exact hnum.bound, by rw [hheap]; exact hnum.inj⟩
  | fresh p k hfree hheap hgiven hdown =>
    have hlen : u.given.length = w.given.length + 1 := by rw [hgiven, List.length_append]; rfl
    have hback : ∀ q n, (u.heap q).map (·.serial) = some n →
        (q = p ∧ n = w.given.length) ∨ (q ≠ p ∧ (w.heap q).map (·.serial) = some n) := by
      intro q n hn
      rw [hheap, serial_update, Option.map_some, Option.some.injEq] at hn
      exact hn.imp_left fun hnew => ⟨hnew.1, hnew.2.symm⟩
    refine ⟨fun q n hn => ?_, fun q r n hq hr => ?_⟩
    · rcases hback q n hn with ⟨-, rfl⟩ | ⟨-, hold⟩
      · omega
      · have hlt := hnum.bound q n hold
        omega
    · rcases hback q n hq with ⟨rfl, rfl⟩ | ⟨-, hoq⟩
      · rcases hback r _ hr with ⟨rfl, -⟩ | ⟨-, hor⟩
        · rfl
        · exact absurd (hnum.bound r _ hor) (Nat.lt_irrefl _)
      · rcases hback r n hr with ⟨-, rfl⟩ | ⟨-, hor⟩
        · exact absurd (hnum.bound q _ hoq) (Nat.lt_irrefl _)
        · exact hnum.inj q r n hoq hor
  | moved p a x hold hheap hgiven hserial hdown hheld =>
    have hback : ∀ q n, (u.heap q).map (·.serial) = some n → (w.heap q).map (·.serial) = some n := by
      intro q n hn
      rw [hheap, serial_update] at hn
      rcases hn with ⟨rfl, hx⟩ | ⟨-, hq⟩
      · obtain ⟨b, hb, rfl⟩ := Option.map_eq_some_iff.mp hx
        rw [hold, Option.map_some, hserial b hb]
      · exact hq
    refine ⟨fun q n hn => ?_, fun q r n hq hr => hnum.inj q r n (hback q n hq) (hback r n hr)⟩
    rw [hgiven]
    exact hnum.bound q n (hback q n hn)

/-- A step takes from the streams that are kept the one it shuts down. -/
theorem Moves.keeps (h : Moves w down u) (hnum : Numbered w) {n : ℕ} (hn : n < w.given.length) :
    Keeps u n ↔ Keeps w n ∧ down ≠ some n := by
  cases h with
  | same hheap hgiven hdown =>
    rw [Keeps, hheap, ← Keeps, hdown]
    simp
  | fresh p k hfree hheap hgiven hdown =>
    rw [hdown]
    simp only [Keeps, hheap, serial_update, ne_eq, reduceCtorEq, not_false_eq_true, and_true,
      Option.map_some, Option.some.injEq]
    apply exists_congr
    intro q
    by_cases hq : q = p
    · rw [hq, Function.update_self, hfree]
      have hne : w.given.length ≠ n := (Nat.ne_of_lt hn).symm
      simp [hne]
    · rw [Function.update_of_ne hq]
      simp [hq]
  | moved p a x hold hheap hgiven hserial hdown hheld =>
    by_cases hserialn : a.serial = n
    · -- Only the stream at `p` is that of `n`.
      have hp : (w.heap p).map (·.serial) = some n := by rw [hold, Option.map_some, hserialn]
      have hw : Keeps w n ↔ Held (some a) := by
        refine ⟨?_, fun hh => ⟨p, hp, hold ▸ hh⟩⟩
        rintro ⟨q, hq, hh⟩
        rw [hnum.inj q p n hq hp, hold] at hh
        exact hh
      have hu : Keeps u n ↔ Held x := by
        simp only [Keeps, hheap, serial_update]
        constructor
        · rintro ⟨q, ⟨rfl, -⟩ | ⟨hqp, hq⟩, hh⟩
          · rwa [Function.update_self] at hh
          · exact absurd (hnum.inj q p n hq hp) hqp
        · rintro ⟨b, rfl, hb⟩
          refine ⟨p, Or.inl ⟨rfl, ?_⟩, ?_⟩
          · rw [Option.map_some, hserial b rfl, hserialn]
          · rw [Function.update_self]
            exact ⟨b, rfl, hb⟩
      have hnone : down = none ↔ down ≠ some n := by
        cases down with
        | none => simp
        | some m => simp [hdown m rfl, hserialn]
      rw [hw, hu, hheld, hnone]
    · have hne : down ≠ some n := fun heq => hserialn (hdown n heq).symm
      simp only [Keeps, hheap, serial_update, ne_eq, hne, not_false_eq_true, and_true]
      apply exists_congr
      intro q
      by_cases hq : q = p
      · have hx : ¬x.map (·.serial) = some n := by
          intro hx
          obtain ⟨b, hb, rfl⟩ := Option.map_eq_some_iff.mp hx
          exact hserialn (hserial b hb).symm
        have hw : ¬(w.heap q).map (·.serial) = some n := by
          rw [hq, hold, Option.map_some, Option.some.injEq]
          exact hserialn
        simp [hq, hx, hq ▸ hw]
      · rw [Function.update_of_ne hq]
        simp [hq]

theorem Moves.length (h : Moves w down u) : w.given.length ≤ u.given.length := by
  cases h with
  | same hheap hgiven hdown => rw [hgiven]
  | fresh p k hfree hheap hgiven hdown =>
    rw [hgiven, List.length_append]
    exact Nat.le_add_right _ _
  | moved p a x hold hheap hgiven hserial hdown hheld => rw [hgiven]

theorem Moves.down_lt (h : Moves w down u) (hnum : Numbered w) {n : ℕ} (hn : down = some n) :
    n < w.given.length := by
  cases h with
  | same hheap hgiven hdown => rw [hdown] at hn; cases hn
  | fresh p k hfree hheap hgiven hdown => rw [hdown] at hn; cases hn
  | moved p a x hold hheap hgiven hserial hdown hheld =>
    rw [hdown n hn]
    exact hnum.bound p a.serial (by rw [hold, Option.map_some])

/-- The stream of a connection that a step accepts is kept. -/
theorem Moves.keeps_new (h : Moves w down u) {n : ℕ} (hle : w.given.length ≤ n)
    (hlt : n < u.given.length) : Keeps u n := by
  cases h with
  | same hheap hgiven hdown => rw [hgiven] at hlt; omega
  | fresh p k hfree hheap hgiven hdown =>
    rw [hgiven, List.length_append, List.length_singleton] at hlt
    have hn : n = w.given.length := by omega
    refine ⟨p, ?_, ?_⟩
    · rw [hheap, Function.update_self, hn]
      rfl
    · rw [hheap, Function.update_self, held_some]
      exact ⟨rfl, rfl⟩
  | moved p a x hold hheap hgiven hserial hdown hheld => rw [hgiven] at hlt; omega

end

/-- In a run the stream of a connection is kept until `uv_shutdown` is called for it, with
success, and then never again. -/
theorem keeps_run {tr : List (World × Event)} {w : World} (hrun : Run Step {} tr w) :
    Numbered w ∧ (∀ x ∈ tr, ∀ n, x.2.shutsDown x.1 = some n → n < w.given.length) ∧
      ∀ n < w.given.length, Keeps w n ↔ ∀ x ∈ tr, x.2.shutsDown x.1 ≠ some n := by
  induction hrun with
  | nil => exact ⟨⟨nofun, nofun⟩, nofun, nofun⟩
  | @snoc tr w e u hprev hlast ih =>
    obtain ⟨hnum, hbelow, hkeeps⟩ := ih
    have hmoves := step_streams hlast
    have hlength := hmoves.length
    refine ⟨hmoves.numbered hnum, ?_, fun n hn => ?_⟩
    · rw [List.forall_mem_append, List.forall_mem_singleton]
      refine ⟨fun x hx n hdown => ?_, fun n hdown => ?_⟩
      · exact Nat.lt_of_lt_of_le (hbelow x hx n hdown) hlength
      · exact Nat.lt_of_lt_of_le (hmoves.down_lt hnum hdown) hlength
    · rw [List.forall_mem_append, List.forall_mem_singleton]
      by_cases hold : n < w.given.length
      · rw [hmoves.keeps hnum hold, hkeeps n hold]
      · refine iff_of_true (hmoves.keeps_new (Nat.not_lt.mp hold) hn) ⟨fun x hx hdown => ?_, fun hdown => ?_⟩
        · exact hold (hbelow x hx n hdown)
        · exact hold (hmoves.down_lt hnum hdown)

/-! ### The game server -/

/-- The game server calls `uv_shutdown` at no other place than at the end of a stream. -/
theorem event_shutsDown {g : GameServer} (hg : Serving g) (e : GameEvent) (n : ℕ) :
    (e.event g).shutsDown g.world = some n ↔ ∃ p nread order ret,
      e = .net (.readEnd p nread order ret) ∧ (g.world.heap p).map (·.serial) = some n ∧
        nread ≠ uvEof ∧ nread ≠ uvEconnreset ∧ ret = 0 := by
  cases e with
  | net e =>
    cases e with
    | readEnd p nread order ret =>
      simp only [GameEvent.event, Event.shutsDown]
      constructor
      · intro h
        split_ifs at h with hcond
        exact ⟨p, nread, order, ret, rfl, h, hcond⟩
      · rintro ⟨_, _, _, _, heq, hn, hcond⟩
        cases heq
        rw [if_pos hcond]
        exact hn
    | timer ret =>
      have hno : ∀ p, g.world.srv.timerCb.2.2.1 ≠ .shutdown p := by
        intro p haction
        cases hq : g.world.srv.sendMessage with
        | nil => simp [TCPServer.timerCb, TCPServer.getSendMessage, hq] at haction
        | cons m rest =>
          simp only [TCPServer.timerCb, TCPServer.getSendMessage, hq] at haction
          have hbuf := hg.world.undisturbed.queued m (hq ▸ List.mem_cons_self)
          exact hbuf (timerAction_shutdown haction)
      have hnone : (Event.timer ret).shutsDown g.world = none := by
        cases haction : g.world.srv.timerCb.2.2.1 with
        | shutdown p => exact absurd haction (hno p)
        | _ => simp only [Event.shutsDown, haction]
      simp [GameEvent.event, hnone]
    | _ => simp [GameEvent.event, Event.shutsDown]
  | poll => simp [GameEvent.event, Event.shutsDown]
  | send =>
    simp only [GameEvent.event, reduceCtorEq, false_and, exists_false, iff_false]
    split
    · split <;> exact fun hn => by cases hn
    · exact fun hn => by cases hn
  | done =>
    simp only [GameEvent.event, reduceCtorEq, false_and, exists_false, iff_false]
    split <;> exact fun hn => by cases hn

/-- In every run of the game server the stream of a connection stays allocated for good,
unless its reading ended with an error other than the end of the stream and a reset, and
`uv_shutdown` did not fail then. -/
theorem stream_kept_iff (tr : List (GameServer × GameEvent)) (g : GameServer)
    (hrun : Run GameServer.Step {} tr g) (n : ℕ) (hn : n < g.world.given.length) :
    Keeps g.world n ↔ ∀ x ∈ tr, ∀ p nread order ret, x.2 = .net (.readEnd p nread order ret) →
      (x.1.world.heap p).map (·.serial) = some n →
        nread = uvEof ∨ nread = uvEconnreset ∨ ret ≠ 0 := by
  have hall : Meets (fun _ _ => True) tr := fun _ _ => trivial
  have hserving : Throughout Serving tr g :=
    hrun.throughout (fun t e u ht _ hstep => serving_step ht hstep) serving_init hall
  rw [(keeps_run (run_world hrun).1).2.2 n hn, List.forall_mem_map]
  apply forall₂_congr
  intro x hx
  rw [ne_eq, event_shutsDown (hserving.1 x hx)]
  constructor
  · intro h p nread order ret he hserial
    by_contra hcond
    rw [not_or, not_or, not_not] at hcond
    exact h ⟨p, nread, order, ret, he, hserial, hcond⟩
  · rintro h ⟨p, nread, order, ret, he, hserial, heof, hreset, hret⟩
    rcases h p nread order ret he hserial with hbad | hbad | hbad
    · exact heof hbad
    · exact hreset hbad
    · exact hbad hret

/-- The client that logged in hangs up. -/
theorem stream_kept_iff_login : Keeps (loggedIn.world.readEnd 64 { serial := 0 } uvEof [1] 0) 0 := by
  have hend : GameServer.Step loggedIn (.net (.readEnd 64 uvEof [1] 0)) { loggedIn with
      world := loggedIn.world.readEnd 64 { serial := 0 } uvEof [1] 0 } :=
    .net trivial (.readEnd ⟨rfl, rfl, rfl⟩ (by decide) (by decide))
  apply (stream_kept_iff _ _ (loggedIn_run.snoc hend) 0 (by decide)).mpr
  intro x hx p nread order ret he hserial
  simp only [loginTrace, List.cons_append, List.nil_append, List.mem_cons, List.not_mem_nil,
    or_false] at hx
  rcases hx with rfl | rfl | rfl | rfl | rfl
  all_goals cases he
  exact Or.inl rfl

end GameRes.Server
