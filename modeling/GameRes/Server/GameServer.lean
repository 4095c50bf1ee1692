import GameRes.Server.NetworkThread
import GameRes.Server.ReplyRouting
import GameRes.Server.Requests
import GameRes.Server.SendQueue

/-!
# The game server (Server/Server.cpp, Server/AppManager.cpp, Server/CLogin.cpp)

The main loop takes one message from the network thread, runs its handler, and the
handler queues its answers one by one while the network thread goes on. Each of its
steps is a step of the two threads of `World`, so what holds of their runs holds of
the server.
-/

namespace GameRes.Server
open Library NetApp

/-- `world` is what both threads see, the rest belongs to the logic thread: the message
it is at, and the calls of `SendClient` the handler has still to make. -/
structure GameServer where
  world : World := {}
  dispatch : MessageDispatch CLogin.Handler := registered CLogin.registerMessage
  users : UserList := ∅
  current : Option Message := none
  sends : List SendCall := []

inductive GameEvent where
  | net (e : Event)
  | poll
  | send
  | done

namespace GameServer

/-- `GetRecvMessage` and `RecivedMessage` (`Server.cpp:41-45`); `none` is a read behind
the block of the message. -/
def poll (g : GameServer) : Option GameServer :=
  match g.world.srv.getRecvMessage with
  | (none, _) => some g
  | (some m, _) =>
    (receive g.dispatch g.users m.conn m.buf m.len).map fun out =>
      { world := g.world.pop
        dispatch := out.1
        users := out.2.1
        current := if m.buf.isSome then some m else none
        sends := out.2.2 }

/-- A `SendClient` of the handler for `m`; `none` is a write behind the block of `Pack`. -/
def send (g : GameServer) (m : Message) (c : SendCall) : Option GameServer :=
  c.pack.map fun r =>
    { g with
      world := { g.world with
        srv := g.world.srv.pushSendMessage c.conn (some r.1) (r.2.len.setWidth 32) m.origin }
      sends := g.sends.tail }

/-- The steps of the server: a callback, or the logic thread taking a message, making
a call, and returning to the loop. -/
inductive Step : GameServer → GameEvent → GameServer → Prop where
  | net {g : GameServer} {e : Event} {w : World} (hnet : e.OfNetwork)
      (hstep : Server.Step g.world e w) : Step g (.net e) { g with world := w }
  | poll {g u : GameServer} (hidle : g.current = none) (hpoll : g.poll = some u) : Step g .poll u
  | send {g u : GameServer} {m : Message} {c : SendCall} {cs : List SendCall}
      (hcurrent : g.current = some m) (hsends : g.sends = c :: cs) (hsend : g.send m c = some u) :
      Step g .send u
  | done {g : GameServer} {m : Message} (hcurrent : g.current = some m) (hsends : g.sends = []) :
      Step g .done
        { g with
          world := { g.world with handling := g.world.handling.erase m }
          current := none }

end GameServer

/-! ### What holds between steps -/

theorem run_conn (func : CLogin.Handler) (users : UserList) (conn : ConnID) (msg : Bytes) :
    ∀ c ∈ (func.run users conn msg).2, c.conn = conn := by
  cases func with
  | handleLogin =>
    simp only [CLogin.Handler.run, CLogin.handleLogin]
    split <;> simp [sendClient]
  | handleCreateRole =>
    simp only [CLogin.Handler.run, CLogin.handleCreateRole]
    split <;> simp [sendClient]
  | handleSelectRole =>
    simp only [CLogin.Handler.run, CLogin.handleSelectRole]
    split <;> simp [sendClient]

theorem served_conn (users : UserList) (conn : ConnID) (chunk : Bytes) :
    ∀ c ∈ (served users conn chunk).2, c.conn = conn := by
  by_cases hnone : chunkDispatch conn chunk.length chunk = []
  · rw [served, hnone, List.flatMap_nil]
    exact fun c hc => absurd hc List.not_mem_nil
  · obtain ⟨⟨cmd, conn', msg⟩, hmem⟩ := List.exists_mem_of_ne_nil _ hnone
    obtain ⟨hone, rfl, -⟩ := chunkDispatch_length hmem
    rw [served, hone, List.flatMap_cons, List.flatMap_nil, List.append_nil]
    cases lastRegistered CLogin.registerMessage cmd with
    | none => exact fun c hc => absurd hc List.not_mem_nil
    | some func =>
      rw [Option.toList_some, List.map_singleton, runCalls_one]
      exact run_conn func users conn' msg

/-- What a delivery is answered with. -/
def answers (k : ConnID) : Option Bytes → List SendCall
  | none => []
  | some chunk => (served ∅ k chunk).2

theorem answers_conn (k : ConnID) (x : Option Bytes) : ∀ c ∈ answers k x, c.conn = k := by
  cases x with
  | none => exact fun c hc => absurd hc List.not_mem_nil
  | some chunk => exact served_conn ∅ k chunk

structure Serving (g : GameServer) : Prop where
  world : Healthy g.world
  handling : g.world.handling = g.current.toList
  registered : Registered g.dispatch
  idle : g.current = none → g.sends = []
  busy : ∀ m, g.current = some m → m ∈ g.world.popped ∧ g.sends <:+ answers m.conn (content m)

theorem Serving.conn {g : GameServer} (h : Serving g) {m : Message} (hcurrent : g.current = some m) :
    ∀ c ∈ g.sends, c.conn = m.conn := fun c hc =>
  answers_conn _ _ c ((h.busy m hcurrent).2.mem hc)

theorem serving_init : Serving {} :=
  ⟨healthy_init, rfl, registered_registerMessage, fun _ => rfl, nofun⟩

/-- What polling comes to: nothing, or the message popped and its answers to be sent. -/
theorem poll_cases {g u : GameServer} (hg : Serving g) (hpoll : g.poll = some u) :
    (g.world.srv.recvMessage = [] ∧ u = g) ∨
    ∃ m rest, g.world.srv.recvMessage = m :: rest ∧ u.world = g.world.pop ∧
      Registered u.dispatch ∧ u.sends = answers m.conn (content m) ∧
      u.current = (if m.buf.isSome then some m else none) ∧
      u.users = ((content m).elim g.users fun chunk => (served g.users m.conn chunk).1) := by
  rw [GameServer.poll] at hpoll
  cases hrecv : g.world.srv.recvMessage with
  | nil =>
    simp only [TCPServer.getRecvMessage, hrecv, Option.some.injEq] at hpoll
    exact Or.inl ⟨rfl, hpoll.symm⟩
  | cons m rest =>
    simp only [TCPServer.getRecvMessage, hrecv] at hpoll
    refine Or.inr ⟨m, rest, rfl, ?_⟩
    cases hbuf : m.buf with
    | none =>
      have hend : receive g.dispatch g.users m.conn none m.len = some (g.dispatch, g.users, []) := rfl
      rw [hbuf, hend] at hpoll
      obtain rfl := Option.some.inj hpoll
      rw [content, hbuf]
      exact ⟨rfl, hg.registered, rfl, rfl, rfl⟩
    | some block =>
      have hmem : m ∈ pushes g.world :=
        List.mem_append_right _ (by rw [hrecv]; exact List.mem_cons_self)
      obtain ⟨d', hd', heq⟩ :=
        receive_eq hg.registered g.users m.conn (hg.world.blocks m hmem block hbuf)
      rw [hbuf, heq] at hpoll
      obtain rfl := Option.some.inj hpoll
      rw [content, hbuf]
      exact ⟨rfl, hd', runCalls_sends _ _ _, rfl, rfl⟩

/-! ### The server is a run of the two threads -/

/-- What a step is for the two threads. -/
def GameEvent.event (g : GameServer) : GameEvent → Event
  | .net e => e
  | .poll => .pop
  | .send =>
    match g.current, g.sends with
    | some m, c :: _ =>
      match c.pack with
      | some r => .reply m r.1 (r.2.len.setWidth 32)
      | none => .handled m
    | _, _ => .pop
  | .done =>
    match g.current with
    | some m => .handled m
    | none => .pop

theorem step_world {g u : GameServer} {e : GameEvent} (hg : Serving g)
    (hstep : GameServer.Step g e u) :
    Step g.world (e.event g) u.world ∧ NoDisconnect g.world (e.event g) := by
  cases hstep with
  | @net e w hnet hworld =>
    refine ⟨hworld, ?_⟩
    rintro conn len rfl
    exact hnet
  | poll hidle hpoll =>
    refine ⟨?_, fun conn len heq => by cases heq⟩
    rcases poll_cases hg hpoll with ⟨hnil, rfl⟩ | ⟨m, rest, hrecv, hworld, -⟩
    · have hpop : u.world.pop = u.world := by
        simp only [World.pop, TCPServer.getRecvMessage, hnil]
      have hself := Step.pop (w := u.world)
      rwa [hpop] at hself
    · rw [hworld]
      exact Step.pop
  | @send _ m c cs hcurrent hsends hsend =>
    obtain ⟨r, hr, rfl⟩ := Option.map_eq_some_iff.mp hsend
    have hconn := hg.conn hcurrent c (by rw [hsends]; exact List.mem_cons_self)
    have hm : m ∈ g.world.handling := by
      rw [hg.handling, hcurrent]
      exact List.mem_singleton_self m
    simp only [GameEvent.event, hcurrent, hsends, hr]
    refine ⟨?_, fun conn len heq => by cases heq⟩
    rw [hconn]
    exact Step.reply hm
  | @done m hcurrent hsends =>
    simp only [GameEvent.event, hcurrent]
    exact ⟨Step.handled, fun conn len heq => by cases heq⟩

theorem serving_step {g u : GameServer} {e : GameEvent} (hg : Serving g)
    (hstep : GameServer.Step g e u) : Serving u := by
  obtain ⟨hworld, hno⟩ := step_world hg hstep
  have hhealthy := healthy_step hg.world hno hworld
  cases hstep with
  | net hnet hnext =>
    obtain ⟨hhandling, hpopped⟩ := network_handling hnet hnext
    refine ⟨hhealthy, hhandling.trans hg.handling, hg.registered, hg.idle, fun m hm => ?_⟩
    rw [hpopped]
    exact hg.busy m hm
  | poll hidle hpoll =>
    rcases poll_cases hg hpoll with ⟨hnil, rfl⟩ | ⟨m, rest, hrecv, hpop, hreg, hsends, hcur, -⟩
    · exact hg
    · obtain ⟨-, hpopped, hhandling⟩ := pop_cons hrecv
      rw [hg.handling, hidle] at hhandling
      refine ⟨hhealthy, ?_, hreg, fun hnone => ?_, fun m' hm' => ?_⟩
      · rw [hpop, hhandling, hcur]
        split_ifs <;> rfl
      · rw [hcur] at hnone
        cases hbuf : m.buf with
        | none => rw [hsends, content, hbuf]; rfl
        | some block => simp [hbuf] at hnone
      · rw [hcur] at hm'
        split_ifs at hm' with hsome
        obtain rfl := Option.some.inj hm'
        rw [hpop, hpopped, hsends]
        exact ⟨List.mem_append_right _ (List.mem_singleton_self m), List.suffix_refl _⟩
  | @send _ m c cs hcurrent hsends hsend =>
    obtain ⟨r, hr, rfl⟩ := Option.map_eq_some_iff.mp hsend
    refine ⟨hhealthy, hg.handling, hg.registered, fun hnone => ?_, fun m' hm' => ?_⟩
    · exact absurd (hcurrent.symm.trans hnone) (by simp)
    · obtain ⟨hpopped, hsuffix⟩ := hg.busy m' hm'
      exact ⟨hpopped, (List.tail_suffix _).trans hsuffix⟩
  | @done m hcurrent hsends =>
    refine ⟨hhealthy, ?_, hg.registered, fun _ => hsends, fun m' hm' => by cases hm'⟩
    show g.world.handling.erase m = []
    rw [hg.handling, hcurrent, Option.toList_some, List.erase_cons_head]

theorem serving_run {tr : List (GameServer × GameEvent)} {g : GameServer}
    (hrun : Run GameServer.Step {} tr g) : Serving g := by
  induction hrun with
  | nil => exact serving_init
  | snoc _ hlast ih => exact serving_step ih hlast

/-- Every run of the server is one of the two threads, without disconnects. -/
theorem run_world {tr : List (GameServer × GameEvent)} {g : GameServer}
    (hrun : Run GameServer.Step {} tr g) :
    Run Step {} (tr.map fun x => (x.1.world, x.2.event x.1)) g.world ∧
      Meets NoDisconnect (tr.map fun x => (x.1.world, x.2.event x.1)) := by
  induction hrun with
  | nil => exact ⟨Run.nil, meets_nil _⟩
  | snoc hprev hlast ih =>
    obtain ⟨hworld, hno⟩ := step_world (serving_run hprev) hlast
    rw [List.map_append, List.map_singleton]
    exact ⟨ih.1.snoc hworld, meets_snoc.mpr ⟨ih.2, hno⟩⟩

end GameRes.Server
