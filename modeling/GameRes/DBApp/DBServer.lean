import GameRes.DBApp.AppManager
import GameRes.DBApp.SqlConnections
import GameRes.DBApp.WorkerExits
import GameRes.Server.NetworkThread

/-!
# The DB server (DBApp/DBApp.cpp, AppManager.cpp, DatabaseThreadPool.h, NewConnection.h)

The network thread, the main loop and the ten workers. A turn of the main loop takes
one message, or makes one up when none is there, and walks the message list; the other
threads go on between two turns of that walk. The pool and the SQL connections are
those of their own modules.
-/

namespace GameRes.DBApp
open Library NetApp

/-- Where a worker is: in `WaitAndPop`, at a task, out of the loop. -/
inductive DBWorker where
  | entering
  | waiting
  | notified
  | running (cmd : String) (w : SqlWorker ℕ)
  | exited
  deriving Repr, DecidableEq

def SqlWorker.conn {κ : Type} : SqlWorker κ → Option κ
  | .idle => none
  | .tasked c => some c
  | .creating c => some c
  | .holding c _ _ => some c

namespace DBWorker

/-- `run` behind `WaitAndPop`. -/
def afterPop (value : TaskInfo ℕ) : DBWorker :=
  match value.conn with
  | none => .exited
  | some c => .running value.cmd (.tasked c)

def toPool : DBWorker → Worker ℕ
  | .entering => .entering
  | .waiting => .waiting
  | .notified => .notified
  | .running cmd w => .executing ⟨w.conn, cmd⟩
  | .exited => .exited

def toSql : DBWorker → SqlWorker ℕ
  | .running _ w => w
  | _ => .idle

end DBWorker

/-- `taken` and `queries` are history: the tasks popped, and what ran on which connection.
`itr` is what the loop of `OnUpdate` has still to walk. -/
structure DBServer where
  world : Server.World := {}
  app : AppManager := {}
  itr : List Message := []
  workers : List DBWorker := List.replicate 10 .entering
  queue : List (TaskInfo ℕ) := []
  taken : List (TaskInfo ℕ) := []
  que : ℕ → List (SqlConnection ℕ) := fun _ => []
  created : ℕ → ℕ := fun _ => 0
  queries : List (SqlConnection ℕ × String) := []

inductive DBEvent where
  | net (e : Server.Event)
  | recived
  | skip
  | post
  | wait
  | spurious
  | pop
  | sql (e : SqlEvent ℕ)

namespace DBServer

def pool (s : DBServer) : ThreadPool ℕ where
  workers := s.workers.map DBWorker.toPool
  queue := s.queue
  pushed := s.app.posted.map Posted.task
  taken := s.taken

def sql (s : DBServer) : SqlPool ℕ where
  workers := s.workers.map DBWorker.toSql
  que := s.que
  created := s.created

/-- `GetRecvMessage` and `RecivedMessage` (`DBApp.cpp:28-37`), with the literal "222". -/
def recivedMessage (s : DBServer) : AppManager :=
  match s.world.srv.getRecvMessage with
  | (some m, _) => s.app.recivedMessage m.conn m.buf m.len
  | (none, _) => s.app.recivedMessage 1 (some [50, 50, 50, 0]) 3

/-- The main loop up to the loop of `OnUpdate`. -/
def recived (s : DBServer) : DBServer :=
  { s with
    world := s.world.pop
    app := s.recivedMessage.renewed
    itr := s.recivedMessage.messageList }

/-- `post`, with the workers as `notify_one` leaves them. -/
def post (s : DBServer) (m : Message) (conn : ℕ) (workers : List DBWorker) : DBServer :=
  { s with
    app := s.app.post m conn
    workers := workers
    queue := s.queue ++ [(AppManager.posting m conn).task] }

/-- The second half of `WaitAndPop`, and `run` behind it. -/
def pop (s : DBServer) (before after : List DBWorker) : DBServer :=
  { s with
    workers := before ++ .afterPop (s.queue.head?.getD {}) :: after
    queue := s.queue.tail
    taken := s.taken ++ s.queue.take 1 }

/-- A worker moves on, and the connections of `Connction` `c` with it. -/
def move (s : DBServer) (before after : List DBWorker) (w : DBWorker) (c : ℕ)
    (que : List (SqlConnection ℕ)) : DBServer :=
  { s with
    workers := before ++ w :: after
    que := Function.update s.que c que }

/-- A callback of the network thread; the main loop taking a message, or moving the
iterator, or posting; a worker in `WaitAndPop`, where it may wake without a notification;
a worker at its task. -/
inductive Step : DBServer → DBEvent → DBServer → Prop where
  | net {s : DBServer} {e : Server.Event} {w : Server.World} (hnet : e.OfNetwork)
      (hstep : Server.Step s.world e w) : Step s (.net e) { s with world := w }
  | recived {s : DBServer} (hend : s.itr = []) : Step s .recived s.recived
  | skip {s : DBServer} {m : Message} {rest : List Message} (hitr : s.itr = m :: rest)
      (hturn : s.app.turn m = none) : Step s .skip { s with itr := rest }
  | post {s : DBServer} {m : Message} {rest : List Message} {conn : ℕ} {before after : List DBWorker}
      (hitr : s.itr = m :: rest) (hidle : s.app.userStatus.lookup m.conn = some false)
      (hconn : s.app.taskMgr.lookup (m.conn.setWidth 16) = some conn)
      (hworker : s.workers = before ++ .waiting :: after) :
      Step s .post (s.post m conn (before ++ .notified :: after))
  | unheard {s : DBServer} {m : Message} {rest : List Message} {conn : ℕ}
      (hitr : s.itr = m :: rest) (hidle : s.app.userStatus.lookup m.conn = some false)
      (hconn : s.app.taskMgr.lookup (m.conn.setWidth 16) = some conn)
      (hnone : .waiting ∉ s.workers) : Step s .post (s.post m conn s.workers)
  | wait {s : DBServer} {before after : List DBWorker}
      (hworker : s.workers = before ++ .entering :: after) :
      Step s .wait { s with workers := before ++ .waiting :: after }
  | spurious {s : DBServer} {before after : List DBWorker}
      (hworker : s.workers = before ++ .waiting :: after) :
      Step s .spurious { s with workers := before ++ .notified :: after }
  | pop {s : DBServer} {before after : List DBWorker}
      (hworker : s.workers = before ++ .notified :: after) : Step s .pop (s.pop before after)
  | reused {s : DBServer} {before after : List DBWorker} {cmd : String} {c : ℕ}
      {conn : SqlConnection ℕ} {rest : List (SqlConnection ℕ)}
      (hworker : s.workers = before ++ .running cmd (.tasked c) :: after)
      (hque : s.que c = conn :: rest) :
      Step s (.sql .tryPop) (s.move before after (.running cmd (.holding c conn false)) c rest)
  | missed {s : DBServer} {before after : List DBWorker} {cmd : String} {c : ℕ}
      (hworker : s.workers = before ++ .running cmd (.tasked c) :: after) (hque : s.que c = []) :
      Step s (.sql .tryPop) { s with workers := before ++ .running cmd (.creating c) :: after }
  | initialised {s : DBServer} {before after : List DBWorker} {cmd : String} {c : ℕ}
      (hworker : s.workers = before ++ .running cmd (.creating c) :: after) :
      Step s (.sql (.init true)) { s with
        workers := before ++ .running cmd (.holding c ⟨c, s.created c⟩ false) :: after
        created := Function.update s.created c (s.created c + 1) }
  | refused {s : DBServer} {before after : List DBWorker} {cmd : String} {c : ℕ}
      (hworker : s.workers = before ++ .running cmd (.creating c) :: after) :
      Step s (.sql (.init false)) { s with workers := before ++ .entering :: after }
  | query {s : DBServer} {before after : List DBWorker} {cmd : String} {c : ℕ}
      {conn : SqlConnection ℕ}
      (hworker : s.workers = before ++ .running cmd (.holding c conn false) :: after) :
      Step s (.sql .query) { s with
        workers := before ++ .running cmd (.holding c conn true) :: after
        queries := s.queries ++ [(conn, cmd)] }
  | push {s : DBServer} {before after : List DBWorker} {cmd : String} {c : ℕ}
      {conn : SqlConnection ℕ}
      (hworker : s.workers = before ++ .running cmd (.holding c conn true) :: after) :
      Step s (.sql .push) (s.move before after .entering c (s.que c ++ [conn]))

/-! ### The pool, the SQL connections and the network below -/

/-- What a step is for the pool. -/
def poolEvent (s : DBServer) : DBEvent → Option (PoolEvent ℕ)
  | .post => s.itr.head?.bind fun m =>
    (s.app.taskMgr.lookup (m.conn.setWidth 16)).map fun conn => .post (AppManager.posting m conn).task
  | .wait => some .wait
  | .pop => some .pop
  | .sql (.init false) => some .finish
  | .sql .push => some .finish
  | _ => none

theorem poolEvent_post {s : DBServer} {m : Message} {rest : List Message} {conn : ℕ}
    (hitr : s.itr = m :: rest) (hconn : s.app.taskMgr.lookup (m.conn.setWidth 16) = some conn) :
    s.poolEvent .post = some (.post (AppManager.posting m conn).task) := by
  rw [poolEvent, hitr, List.head?_cons, Option.bind_some, hconn, Option.map_some]

theorem toPool_afterPop (value : TaskInfo ℕ) :
    (DBWorker.afterPop value).toPool = Worker.afterPop value := by
  obtain ⟨conn, cmd⟩ := value
  cases conn <;> rfl

section
variable {s t : DBServer} {e : DBEvent} {before after : List DBWorker} {w : DBWorker}

theorem pool_workers (h : s.workers = before ++ w :: after) :
    s.pool.workers = before.map DBWorker.toPool ++ w.toPool :: after.map DBWorker.toPool := by
  rw [pool, h, List.map_append, List.map_cons]

theorem sql_workers (h : s.workers = before ++ w :: after) :
    s.sql.workers = before.map DBWorker.toSql ++ w.toSql :: after.map DBWorker.toSql := by
  rw [sql, h, List.map_append, List.map_cons]

theorem pushed_post (s : DBServer) (m : Message) (conn : ℕ) (workers : List DBWorker) :
    (s.post m conn workers).pool =
      s.pool.push (AppManager.posting m conn).task (workers.map DBWorker.toPool) := by
  simp only [pool, post, AppManager.post, ThreadPool.push, List.map_append, List.map_singleton]

theorem pool_replaced (s : DBServer) (before after : List DBWorker) (x : DBWorker)
    (que : ℕ → List (SqlConnection ℕ)) (created : ℕ → ℕ) (queries : List (SqlConnection ℕ × String)) :
    ({ s with
      workers := before ++ x :: after
      que := que
      created := created
      queries := queries } : DBServer).pool =
    ⟨before.map DBWorker.toPool ++ x.toPool :: after.map DBWorker.toPool, s.queue, .posting,
      s.app.posted.map Posted.task, s.taken⟩ := by
  simp only [pool, List.map_append, List.map_cons]

theorem pool_same {x : DBWorker} (h : s.workers = before ++ w :: after) (hx : x.toPool = w.toPool)
    (que : ℕ → List (SqlConnection ℕ)) (created : ℕ → ℕ) (queries : List (SqlConnection ℕ × String)) :
    ({ s with
      workers := before ++ x :: after
      que := que
      created := created
      queries := queries } : DBServer).pool = s.pool := by
  rw [pool_replaced, hx, ← pool_workers h]
  rfl

/-- The message that a turn of the main loop takes, or makes up. -/
theorem recivedMessage_eq (s : DBServer) :
    ∃ conn buf len, s.recivedMessage = s.app.recivedMessage conn buf len := by
  rw [recivedMessage]
  split
  · exact ⟨_, _, _, rfl⟩
  · exact ⟨_, _, _, rfl⟩

theorem recived_posted (s : DBServer) : s.recived.app.posted = s.app.posted := by
  obtain ⟨conn, buf, len, heq⟩ := s.recivedMessage_eq
  rw [recived, heq]
  rfl

/-- Without spurious wake-ups a step is one of the pool or leaves it alone. -/
theorem step_pool (hcalm : e ≠ .spurious) (hstep : Step s e t) :
    (s.poolEvent e = none ∧ t.pool = s.pool) ∨
      ∃ e', s.poolEvent e = some e' ∧ ThreadPool.Step s.pool e' t.pool := by
  cases hstep with
  | net hnet hnext => exact Or.inl ⟨rfl, rfl⟩
  | recived hend =>
    refine Or.inl ⟨rfl, ?_⟩
    rw [pool, recived_posted]
    rfl
  | skip hitr hturn => exact Or.inl ⟨rfl, rfl⟩
  | post hitr hidle hconn hworker =>
    refine Or.inr ⟨_, poolEvent_post hitr hconn, ?_⟩
    rw [pushed_post, List.map_append, List.map_cons]
    refine .post _ rfl rfl ?_
    rw [pool_workers hworker]
    exact .wake _ _
  | unheard hitr hidle hconn hnone =>
    refine Or.inr ⟨_, poolEvent_post hitr hconn, ?_⟩
    rw [pushed_post]
    refine .post _ rfl rfl (.lost ?_)
    intro x hx hwaiting
    obtain ⟨y, hy, hxy⟩ := List.mem_map.mp hx
    rw [hwaiting] at hxy
    cases y with
    | waiting => exact hnone hy
    | _ => cases hxy
  | wait hworker =>
    refine Or.inr ⟨_, rfl, ?_⟩
    rw [pool_replaced]
    exact .wait _ _ (pool_workers hworker)
  | spurious hworker => exact absurd rfl hcalm
  | pop hworker =>
    have hnext := ThreadPool.Step.pop _ _ (pool_workers hworker)
    refine Or.inr ⟨_, rfl, ?_⟩
    rw [ThreadPool.popped, ← toPool_afterPop] at hnext
    simpa only [pool, pop, List.map_append, List.map_cons] using hnext
  | reused hworker hque =>
    refine Or.inl ⟨rfl, pool_same hworker ?_ _ _ _⟩
    rfl
  | missed hworker hque =>
    refine Or.inl ⟨rfl, pool_same hworker ?_ _ _ _⟩
    rfl
  | initialised hworker =>
    refine Or.inl ⟨rfl, pool_same hworker ?_ _ _ _⟩
    rfl
  | refused hworker =>
    refine Or.inr ⟨_, rfl, ?_⟩
    rw [pool_replaced]
    exact .finish _ _ (pool_workers hworker)
  | query hworker =>
    refine Or.inl ⟨rfl, pool_same hworker ?_ _ _ _⟩
    rfl
  | push hworker =>
    refine Or.inr ⟨_, rfl, ?_⟩
    rw [move, pool_replaced]
    exact .finish _ _ (pool_workers hworker)

/-- A step is one of the SQL connections or leaves them alone. -/
theorem step_sql (hstep : Step s e t) : t.sql = s.sql ∨ ∃ e', SqlPool.Step s.sql e' t.sql := by
  cases hstep with
  | net hnet hnext => exact Or.inl rfl
  | recived hend => exact Or.inl rfl
  | skip hitr hturn => exact Or.inl rfl
  | post hitr hidle hconn hworker =>
    left
    simp only [sql, post, hworker, List.map_append, List.map_cons, DBWorker.toSql]
  | unheard hitr hidle hconn hnone => exact Or.inl rfl
  | wait hworker =>
    left
    simp only [sql, hworker, List.map_append, List.map_cons, DBWorker.toSql]
  | spurious hworker =>
    left
    simp only [sql, hworker, List.map_append, List.map_cons, DBWorker.toSql]
  | pop hworker =>
    cases hconn : (s.queue.head?.getD {}).conn with
    | none =>
      left
      simp only [sql, pop, DBWorker.afterPop, hconn, hworker, List.map_append, List.map_cons,
        DBWorker.toSql]
    | some c =>
      have hnext := SqlPool.Step.take c _ _ (sql_workers hworker)
      refine Or.inr ⟨.take c, ?_⟩
      simpa only [sql, pop, DBWorker.afterPop, hconn, List.map_append, List.map_cons, DBWorker.toSql] using hnext
  | reused hworker hque =>
    have hnext := SqlPool.Step.popped _ _ (sql_workers hworker) hque
    refine Or.inr ⟨.tryPop, ?_⟩
    simpa only [sql, move, List.map_append, List.map_cons, DBWorker.toSql] using hnext
  | missed hworker hque =>
    have hnext := SqlPool.Step.missed _ _ (sql_workers hworker) hque
    refine Or.inr ⟨.tryPop, ?_⟩
    simpa only [sql, List.map_append, List.map_cons, DBWorker.toSql] using hnext
  | initialised hworker =>
    have hnext := SqlPool.Step.initialised _ _ (sql_workers hworker)
    refine Or.inr ⟨.init true, ?_⟩
    simpa only [sql, List.map_append, List.map_cons, DBWorker.toSql] using hnext
  | refused hworker =>
    have hnext := SqlPool.Step.refused _ _ (sql_workers hworker)
    refine Or.inr ⟨.init false, ?_⟩
    simpa only [sql, List.map_append, List.map_cons, DBWorker.toSql] using hnext
  | query hworker =>
    have hnext := SqlPool.Step.query _ _ (sql_workers hworker)
    refine Or.inr ⟨.query, ?_⟩
    simpa only [sql, List.map_append, List.map_cons, DBWorker.toSql] using hnext
  | push hworker =>
    have hnext := SqlPool.Step.push _ _ (sql_workers hworker)
    refine Or.inr ⟨.push, ?_⟩
    simpa only [sql, move, List.map_append, List.map_cons, DBWorker.toSql] using hnext

/-- A step is a callback of the network thread, a message taken, or nothing there. -/
theorem step_world (hstep : Step s e t) : t.world = s.world ∨
    ∃ e', Server.Step s.world e' t.world ∧ Server.NoDisconnect s.world e' := by
  cases hstep with
  | @net e w hnet hnext =>
    refine Or.inr ⟨e, hnext, ?_⟩
    rintro conn len rfl
    exact hnet
  | recived hend => exact Or.inr ⟨.pop, Server.Step.pop, nofun⟩
  | _ => exact Or.inl rfl

end

/-! ### Runs -/

theorem crew_step {κ : Type} {c : Crew κ} {e : PoolEvent κ} {p : ThreadPool κ}
    (hstep : ThreadPool.Step c.pool e p) : ∃ d, Crew.Step c (.pool e) d ∧ d.pool = p := by
  cases hstep with
  | pop before after hworker => exact ⟨_, .pop before after hworker, rfl⟩
  | post value hconn hposting hnotify =>
    exact ⟨_, .pool (.post value hconn hposting hnotify) nofun, rfl⟩
  | closePool hposting => exact ⟨_, .pool (.closePool hposting) nofun, rfl⟩
  | closePush hclosing hnotify => exact ⟨_, .pool (.closePush hclosing hnotify) nofun, rfl⟩
  | wait before after hworker => exact ⟨_, .pool (.wait before after hworker) nofun, rfl⟩
  | finish before after hworker => exact ⟨_, .pool (.finish before after hworker) nofun, rfl⟩

theorem step_crew {s t : DBServer} {e : DBEvent} {c : Crew ℕ} (hc : c.pool = s.pool)
    (hstep : Step s e t) : c.pool = t.pool ∨ ∃ e' d, Crew.Step c e' d ∧ d.pool = t.pool := by
  by_cases hcalm : e = .spurious
  · subst hcalm
    cases hstep with
    | spurious hworker =>
      have hwaiting := hc ▸ pool_workers hworker
      refine Or.inr ⟨_, _, .spurious _ _ hwaiting, ?_⟩
      rw [pool_replaced, hc]
      rfl
  · rcases step_pool hcalm hstep with ⟨-, hsame⟩ | ⟨e', -, hnext⟩
    · exact Or.inl (hc.trans hsame.symm)
    · obtain ⟨d, hd, hpool⟩ := crew_step (hc ▸ hnext)
      exact Or.inr ⟨_, d, hd, hpool⟩

/-- The DB server is one of the pools with its wake-ups, one of the SQL connections of
ten workers, and one of the network without disconnects. -/
theorem server_refines (tr : List (DBServer × DBEvent)) (s : DBServer) (hrun : Run Step {} tr s) :
    (∃ tr' c, Run Crew.Step (Crew.create 10) tr' c ∧ c.pool = s.pool) ∧
      (∃ tr', Run SqlPool.Step (SqlPool.start 10) tr' s.sql) ∧
      ∃ tr', Run Server.Step {} tr' s.world ∧ Meets Server.NoDisconnect tr' := by
  have hall : Meets (fun _ _ => True) tr := fun _ _ => trivial
  refine ⟨?_, ?_, ?_⟩
  · have hsim : ∀ t e u c, Crew.pool c = t.pool → True → Step t e u →
        c.pool = u.pool ∨ ∃ e' d, Crew.Step c e' d ∧ True ∧ d.pool = u.pool := by
      intro t e u c hc _ hstep
      rcases step_crew hc hstep with hsame | ⟨e', d, hnext, hd⟩
      · exact Or.inl hsame
      · exact Or.inr ⟨e', d, hnext, trivial, hd⟩
    obtain ⟨tr', c, hcrew, -, hc⟩ :=
      hrun.simulate hsim hall (show (Crew.create 10).pool = DBServer.pool {} from rfl)
    exact ⟨tr', c, hcrew, hc⟩
  · have hsim : ∀ t e u q, q = DBServer.sql t → True → Step t e u →
        q = u.sql ∨ ∃ e' q', SqlPool.Step q e' q' ∧ True ∧ q' = u.sql := by
      rintro t e u _ rfl _ hstep
      rcases step_sql hstep with hsame | ⟨e', hnext⟩
      · exact Or.inl hsame.symm
      · exact Or.inr ⟨e', _, hnext, trivial, rfl⟩
    obtain ⟨tr', q, hsql, -, rfl⟩ :=
      hrun.simulate hsim hall (show SqlPool.start 10 = DBServer.sql {} from rfl)
    exact ⟨tr', hsql⟩
  · have hsim : ∀ t e u w, w = DBServer.world t → True → Step t e u →
        w = u.world ∨ ∃ e' w', Server.Step w e' w' ∧ Server.NoDisconnect w e' ∧ w' = u.world := by
      rintro t e u _ rfl _ hstep
      rcases step_world hstep with hsame | ⟨e', hnext, hno⟩
      · exact Or.inl hsame.symm
      · exact Or.inr ⟨e', _, hnext, hno, rfl⟩
    obtain ⟨tr', w, hworld, hno, rfl⟩ := hrun.simulate hsim hall rfl
    exact ⟨tr', hworld, hno⟩

/-- A turn of the main loop before any message is there. All workers have still to enter
`WaitAndPop`, so nobody hears of the message made up for user 1. -/
def firstTurn : List (DBServer × DBEvent) :=
  let s := ({} : DBServer).recived
  [({}, .recived), (s, .post), (s.post ⟨1, 3, some [50, 50, 50, 0], 0⟩ 0 s.workers, .skip)]

def afterFirstTurn : DBServer :=
  { ({} : DBServer).recived.post ⟨1, 3, some [50, 50, 50, 0], 0⟩ 0 (List.replicate 10 .entering) with
    itr := [] }

theorem firstTurn_run : Run Step {} firstTurn afterFirstTurn := by
  have hrecived : Step {} .recived ({} : DBServer).recived := .recived rfl
  have hpost : Step ({} : DBServer).recived .post (({} : DBServer).recived.post
      ⟨1, 3, some [50, 50, 50, 0], 0⟩ 0 ({} : DBServer).recived.workers) :=
    .unheard rfl rfl rfl (by decide)
  exact ((Run.nil.snoc hrecived).snoc hpost).snoc (.skip rfl rfl)

theorem server_refines_first :
    (∃ tr' c, Run Crew.Step (Crew.create 10) tr' c ∧ c.pool = afterFirstTurn.pool) ∧
      (∃ tr', Run SqlPool.Step (SqlPool.start 10) tr' afterFirstTurn.sql) ∧
      ∃ tr', Run Server.Step {} tr' afterFirstTurn.world ∧ Meets Server.NoDisconnect tr' :=
  server_refines firstTurn afterFirstTurn firstTurn_run

end DBServer
end GameRes.DBApp
