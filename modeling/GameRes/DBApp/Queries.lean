import GameRes.DBApp.MainLoop

/-!
# Where the queries run (DBApp/NewConnection.h:23-44, DBApp/DatabaseThreadPool.h:22-44)

A `Connction` gets one task at most: `OnUpdate` renews it before it posts. So the SQL
connection that its worker gives back is taken by nobody, and every query has a new one.
-/

namespace GameRes.DBApp
open Library AppManager

def DBWorker.conn : DBWorker → Option ℕ
  | .running _ w => w.conn
  | _ => none

namespace DBServer

/-! ### Tasks of one `Connction` -/

def postedFor (s : DBServer) (c : ℕ) : ℕ := s.app.posted.countP fun p => p.task.conn = some c

/-- Queued, or with a worker. -/
def unfinished (s : DBServer) (c : ℕ) : ℕ :=
  s.queue.countP (fun v => v.conn = some c) + s.workers.countP fun w => w.conn = some c

/-- Nothing was done with `Connction` `c` yet. -/
structure Untouched (s : DBServer) (c : ℕ) : Prop where
  que : s.que c = []
  created : s.created c = 0
  queries : ∀ q ∈ s.queries, q.1.owner ≠ c

/-- How far the `Connction` of a worker's task has come. -/
def Stage (s : DBServer) : DBWorker → Prop
  | .running _ (.tasked c) => s.Untouched c
  | .running _ (.creating c) => s.Untouched c
  | .running _ (.holding c conn queried) => conn = ⟨c, 0⟩ ∧ s.que c = [] ∧ s.created c = 1 ∧
      (queried = false → ∀ q ∈ s.queries, q.1.owner ≠ c)
  | _ => True

structure Fresh (s : DBServer) : Prop where
  looping : Looping s
  unfinished : ∀ c, s.unfinished c ≤ s.postedFor c
  unposted : ∀ c, s.postedFor c = 0 → s.Untouched c
  queued : ∀ v ∈ s.queue, ∀ c, v.conn = some c → s.Untouched c
  staged : ∀ w ∈ s.workers, s.Stage w
  once : (s.queries.map fun q => q.1.owner).Nodup

theorem postings_count (m : Message) (a b c : ℕ) :
    (postings m a b).countP (fun p => p.task.conn = some c) = if a ≤ c ∧ c < b then 1 else 0 := by
  have hcount : (postings m a b).countP (fun p => p.task.conn = some c) =
      (List.range' a (b - a)).count c := by
    rw [postings, List.countP_map, List.count]
    congr 1
    funext i
    simp only [Function.comp_apply, posting, Option.some.injEq, beq_eq_decide]
  have hmem : c ∈ List.range' a (b - a) ↔ a ≤ c ∧ c < b := by
    rw [List.mem_range'_1]
    omega
  rw [hcount, List.Nodup.count List.nodup_range', if_congr hmem rfl rfl]

theorem Looping.postedFor_le {s : DBServer} (h : Looping s) (c : ℕ) : s.postedFor c ≤ 1 := by
  have hle : ∀ m a b, (postings m a b).countP (fun p => p.task.conn = some c) ≤ 1 := by
    intro m a b
    rw [postings_count]
    split_ifs <;> omega
  rw [postedFor]
  cases hfind : s.app.messageList.find? fromUser with
  | none =>
    rw [(h.idle hfind).1]
    exact Nat.zero_le 1
  | some m =>
    rcases h.found m hfind with ⟨-, hall⟩ | ⟨-, -, hall⟩
    · rw [hall]
      exact hle _ _ _
    · rw [hall]
      exact hle _ _ _

/-- The `Connction` that a post takes has no task yet. -/
theorem Looping.postedFor_conn {s : DBServer} (h : Looping s) {m : Message} {conn : ℕ}
    (hidle : s.app.userStatus.lookup m.conn = some false)
    (hconn : s.app.taskMgr.lookup (m.conn.setWidth 16) = some conn)
    (hmem : m ∈ s.app.messageList) : s.postedFor conn = 0 := by
  have hm : m.conn = 1 := by
    by_contra hne
    rw [h.only m.conn hne] at hidle
    cases hidle
  have hpos : 0 < s.app.created := by
    rw [← h.turns]
    exact List.length_pos_of_mem hmem
  have hlast : conn = s.app.created - 1 := by
    rw [hm] at hconn
    exact Option.some.inj (hconn.symm.trans (h.conn hpos))
  rw [hm] at hidle
  rw [postedFor]
  cases hfind : s.app.messageList.find? fromUser with
  | none =>
    rw [(h.idle hfind).1]
    rfl
  | some m' =>
    rcases h.found m' hfind with ⟨hbusy, -⟩ | ⟨-, -, hall⟩
    · rw [hbusy] at hidle
      cases hidle
    · rw [hall, postings_count, if_neg]
      omega

/-! ### What a step leaves alone -/

section
variable {s t : DBServer} {before after : List DBWorker} {w w' : DBWorker}

/-- What was done with `c` in `t` was done in `s`. -/
structure Agree (s t : DBServer) (c : ℕ) : Prop where
  que : t.que c = s.que c
  created : t.created c = s.created c
  queries : ∀ q ∈ t.queries, q.1.owner = c → q ∈ s.queries

theorem Untouched.agree {c : ℕ} (h : s.Untouched c) (ha : Agree s t c) : t.Untouched c :=
  ⟨ha.que.trans h.que, ha.created.trans h.created, fun q hq hc => h.queries q (ha.queries q hq hc) hc⟩

theorem Stage.agree (h : s.Stage w) (ha : ∀ c, w.conn = some c → Agree s t c) : t.Stage w := by
  cases w with
  | running cmd w =>
    cases w with
    | idle => trivial
    | tasked c => exact Untouched.agree h (ha c rfl)
    | creating c => exact Untouched.agree h (ha c rfl)
    | holding c conn queried =>
      obtain ⟨hconn, hque, hcreated, hqueries⟩ := h
      have hc := ha c rfl
      exact ⟨hconn, hc.que.trans hque, hc.created.trans hcreated,
        fun hnot q hq howner => hqueries hnot q (hc.queries q hq howner) howner⟩
  | _ => trivial

theorem Fresh.stage (h : Fresh s) (hworker : s.workers = before ++ w :: after) : s.Stage w :=
  h.staged w (hworker ▸ List.mem_append_right _ List.mem_cons_self)

/-- No other task, queued or with a worker, has the `Connction` of a worker's task. -/
theorem Fresh.alone (h : Fresh s) (hworker : s.workers = before ++ w :: after) {c : ℕ}
    (hc : w.conn = some c) :
    (∀ v ∈ s.queue, v.conn ≠ some c) ∧ ∀ x ∈ before ++ after, x.conn ≠ some c := by
  have hone := (h.unfinished c).trans (h.looping.postedFor_le c)
  rw [DBServer.unfinished, hworker, countP_insert, decide_eq_true hc, Bool.toNat_true] at hone
  have hqueue : s.queue.countP (fun v => v.conn = some c) = 0 := by omega
  have hothers : (before ++ after).countP (fun x => x.conn = some c) = 0 := by omega
  rw [List.countP_eq_zero] at hqueue hothers
  exact ⟨fun v hv => by simpa using hqueue v hv, fun x hx => by simpa using hothers x hx⟩

theorem Fresh.posted (h : Fresh s) (hworker : s.workers = before ++ w :: after) {c : ℕ}
    (hc : w.conn = some c) : s.postedFor c ≠ 0 := by
  have hle := h.unfinished c
  rw [DBServer.unfinished, hworker, countP_insert, decide_eq_true hc, Bool.toNat_true] at hle
  omega

/-- A worker goes on with its task, or is done with it: only its `Connction` is touched. -/
theorem Fresh.worked (h : Fresh s) (hworker : s.workers = before ++ w :: after) {c : ℕ}
    (hc : w.conn = some c) (hc' : w'.conn = some c ∨ w'.conn = none) (happ : t.app = s.app)
    (hitr : t.itr = s.itr) (hqueue : t.queue = s.queue) (hworkers : t.workers = before ++ w' :: after)
    (hagree : ∀ c', c' ≠ c → Agree s t c') (hstage : t.Stage w')
    (honce : (t.queries.map fun q => q.1.owner).Nodup) : Fresh t := by
  obtain ⟨hqueued, hothers⟩ := h.alone hworker hc
  have hposted : ∀ c', t.postedFor c' = s.postedFor c' := fun c' => by rw [postedFor, happ, postedFor]
  refine ⟨h.looping.congr happ hitr, fun c' => ?_, fun c' hzero => ?_, fun v hv c' hv' => ?_,
    fun x hx => ?_, honce⟩
  · have hle := h.unfinished c'
    have hcount := countP_replaced (fun x => decide (x.conn = some c')) w' hworker
    have hless : (decide (w'.conn = some c')).toNat ≤ (decide (w.conn = some c')).toNat := by
      rcases hc' with hsome | hnone
      · rw [hsome, hc]
      · rw [hnone]
        exact Nat.zero_le _
    rw [hposted, DBServer.unfinished, hqueue, hworkers]
    rw [DBServer.unfinished] at hle
    omega
  · rw [hposted] at hzero
    have hne : c' ≠ c := fun heq => h.posted hworker hc (heq ▸ hzero)
    exact (h.unposted c' hzero).agree (hagree c' hne)
  · rw [hqueue] at hv
    have hne : c' ≠ c := fun heq => hqueued v hv (heq ▸ hv')
    exact (h.queued v hv c' hv').agree (hagree c' hne)
  · rw [hworkers] at hx
    rcases List.mem_append.mp hx with hbefore | hrest
    · have hold := h.staged x (hworker ▸ List.mem_append_left _ hbefore)
      refine Stage.agree hold fun c' hx' => hagree c' fun heq => ?_
      exact hothers x (List.mem_append_left _ hbefore) (heq ▸ hx')
    · rcases List.mem_cons.mp hrest with rfl | hafter
      · exact hstage
      · have hold := h.staged x (hworker ▸ List.mem_append_right _ (List.mem_cons_of_mem _ hafter))
        refine Stage.agree hold fun c' hx' => hagree c' fun heq => ?_
        exact hothers x (List.mem_append_right _ hafter) (heq ▸ hx')

/-- No `Connction` is touched. -/
theorem Fresh.kept (h : Fresh s) (hloop : Looping t) (hque : t.que = s.que)
    (hcreated : t.created = s.created) (hqueries : t.queries = s.queries)
    (hcount : ∀ c, t.unfinished c ≤ t.postedFor c)
    (hposted : ∀ c, t.postedFor c = 0 → s.postedFor c = 0)
    (hqueued : ∀ v ∈ t.queue, ∀ c, v.conn = some c → s.Untouched c)
    (hstaged : ∀ w ∈ t.workers, s.Stage w) : Fresh t := by
  have hagree : ∀ c, Agree s t c := by
    intro c
    refine ⟨by rw [hque], by rw [hcreated], fun q hq _ => ?_⟩
    rwa [hqueries] at hq
  exact ⟨hloop, hcount, fun c hc => (h.unposted c (hposted c hc)).agree (hagree c),
    fun v hv c hc => (hqueued v hv c hc).agree (hagree c),
    fun w hw => Stage.agree (hstaged w hw) fun c _ => hagree c, hqueries ▸ h.once⟩

/-- A worker without a task goes on. -/
theorem Fresh.moved (h : Fresh s) (hworker : s.workers = before ++ w :: after)
    (hw : w.conn = none) (hw' : w'.conn = none) (hstage : s.Stage w') :
    Fresh { s with workers := before ++ w' :: after } := by
  refine h.kept (h.looping.congr rfl rfl) rfl rfl rfl (fun c => ?_) (fun _ => id) h.queued
    fun x hx => ?_
  · have hle := h.unfinished c
    have hcount := countP_replaced (fun x => decide (x.conn = some c)) w' hworker
    rw [hw, hw', Nat.add_right_cancel_iff] at hcount
    rw [DBServer.unfinished] at hle ⊢
    rw [hcount]
    exact hle
  · rcases mem_replaced hworker hx with rfl | hold
    · exact hstage
    · exact h.staged x hold

theorem Fresh.post (h : Fresh s) {m : Message} {rest : List Message} {conn : ℕ}
    (hitr : s.itr = m :: rest) (hidle : s.app.userStatus.lookup m.conn = some false)
    (hconn : s.app.taskMgr.lookup (m.conn.setWidth 16) = some conn) {workers : List DBWorker}
    (hsame : ∀ c, workers.countP (fun w => w.conn = some c) = s.workers.countP fun w => w.conn = some c)
    (hstaged : ∀ w ∈ workers, s.Stage w) : Fresh (s.post m conn workers) := by
  have hmem : m ∈ s.app.messageList := h.looping.walked.mem (hitr ▸ List.mem_cons_self)
  have hnew := h.unposted conn (h.looping.postedFor_conn hidle hconn hmem)
  have hposted : ∀ c, (s.post m conn workers).postedFor c =
      s.postedFor c + (decide ((posting m conn).task.conn = some c)).toNat := fun c =>
    countP_snoc (fun p : Posted => decide (p.task.conn = some c)) s.app.posted (posting m conn)
  refine h.kept (h.looping.post hitr hidle hconn workers) rfl rfl rfl (fun c => ?_) (fun c hzero => ?_)
    (fun v hv c hc => ?_) hstaged
  · have hle := h.unfinished c
    have hqueue : (s.post m conn workers).queue.countP (fun v => decide (v.conn = some c)) =
        s.queue.countP (fun v => decide (v.conn = some c)) +
          (decide ((posting m conn).task.conn = some c)).toNat :=
      countP_snoc (fun v : TaskInfo ℕ => decide (v.conn = some c)) s.queue (posting m conn).task
    rw [hposted, DBServer.unfinished, hqueue]
    rw [DBServer.unfinished, ← hsame c] at hle
    show _ + workers.countP _ ≤ _
    omega
  · rw [hposted] at hzero
    omega
  · rcases List.mem_append.mp hv with hold | hlast
    · exact h.queued v hold c hc
    · rw [List.mem_singleton.mp hlast] at hc
      exact Option.some.inj hc ▸ hnew

theorem stage_afterPop {value : TaskInfo ℕ} (h : ∀ c, value.conn = some c → s.Untouched c) :
    s.Stage (.afterPop value) := by
  rw [DBWorker.afterPop]
  split
  next => trivial
  next c hc => exact h c hc

theorem conn_afterPop (value : TaskInfo ℕ) : (DBWorker.afterPop value).conn = value.conn := by
  obtain ⟨conn, cmd⟩ := value
  cases conn <;> rfl

theorem Fresh.pop (h : Fresh s) (hworker : s.workers = before ++ .notified :: after) :
    Fresh (s.pop before after) := by
  have hvalue : ∀ c, (s.queue.head?.getD {}).conn = some c → s.Untouched c := by
    cases hqueue : s.queue with
    | nil => exact nofun
    | cons value rest => exact h.queued value (hqueue ▸ List.mem_cons_self)
  refine h.kept (h.looping.congr rfl rfl) rfl rfl rfl (fun c => ?_) (fun _ => id)
    (fun v hv => h.queued v (List.mem_of_mem_tail hv)) fun x hx => ?_
  · have hle := h.unfinished c
    have hcount := countP_replaced (fun x => decide (x.conn = some c))
      (.afterPop (s.queue.head?.getD {})) hworker
    have hqueue : s.queue.tail.countP (fun v => decide (v.conn = some c)) +
        (decide ((s.queue.head?.getD {}).conn = some c)).toNat =
        s.queue.countP fun v => decide (v.conn = some c) := by
      cases s.queue with
      | nil => rfl
      | cons value rest => exact (countP_insert (fun v => decide (v.conn = some c)) [] rest value).symm
    have hnone : decide (DBWorker.notified.conn = some c) = false := decide_eq_false nofun
    rw [conn_afterPop, hnone, Bool.toNat_false] at hcount
    rw [DBServer.unfinished] at hle ⊢
    simp only [DBServer.pop]
    show _ ≤ s.postedFor c
    omega
  · rcases mem_replaced hworker hx with rfl | hold
    · exact stage_afterPop hvalue
    · exact h.staged x hold

theorem agree_update {f : ℕ → List (SqlConnection ℕ)} {g : ℕ → ℕ} {c : ℕ}
    {queries : List (SqlConnection ℕ × String)} (hf : ∀ c', c' ≠ c → f c' = s.que c')
    (hg : ∀ c', c' ≠ c → g c' = s.created c')
    (hqueries : ∀ q ∈ queries, q ∈ s.queries ∨ q.1.owner = c) (c' : ℕ) (hc : c' ≠ c) :
    Agree s { s with workers := before ++ w' :: after, que := f, created := g, queries := queries } c' := by
  refine ⟨hf c' hc, hg c' hc, fun q hq howner => ?_⟩
  rcases hqueries q hq with hold | hnew
  · exact hold
  · exact absurd (howner.symm.trans hnew) hc

/-- A worker never finds a connection, so what it initialises is the first of its
`Connction`, and what it gives back is the only one. -/
theorem Fresh.sql (h : Fresh s) {e : SqlEvent ℕ} (hstep : Step s (.sql e) t) : Fresh t := by
  cases hstep with
  | reused hworker hque =>
    exact absurd ((h.stage hworker).que.symm.trans hque) nofun
  | @missed before after cmd c hworker hque =>
    have hstage : s.Untouched c := h.stage hworker
    exact h.worked hworker rfl (Or.inl rfl) rfl rfl rfl rfl
      (agree_update (fun _ _ => rfl) (fun _ _ => rfl) fun _ => Or.inl)
      ⟨hstage.que, hstage.created, hstage.queries⟩ h.once
  | @initialised before after cmd c hworker =>
    have hstage : s.Untouched c := h.stage hworker
    refine h.worked hworker rfl (Or.inl rfl) rfl rfl rfl rfl
      (agree_update (fun _ _ => rfl) (fun _ hne => Function.update_of_ne hne _ _) fun _ => Or.inl)
      ⟨?_, hstage.que, ?_, fun _ => hstage.queries⟩ h.once
    · rw [hstage.created]
    · show Function.update s.created c (s.created c + 1) c = 1
      rw [Function.update_self, hstage.created]
  | refused hworker =>
    exact h.worked hworker rfl (Or.inr rfl) rfl rfl rfl rfl
      (agree_update (fun _ _ => rfl) (fun _ _ => rfl) fun _ => Or.inl) trivial h.once
  | @query before after cmd c conn hworker =>
    obtain ⟨rfl, hque, hcreated, hqueries⟩ : conn = ⟨c, 0⟩ ∧ s.que c = [] ∧ s.created c = 1 ∧
        (false = false → ∀ q ∈ s.queries, q.1.owner ≠ c) :=
      h.stage hworker
    refine h.worked hworker rfl (Or.inl rfl) rfl rfl rfl rfl
      (agree_update (fun _ _ => rfl) (fun _ _ => rfl) fun q hq => ?_) ⟨rfl, hque, hcreated, nofun⟩ ?_
    · rcases List.mem_append.mp hq with hold | hnew
      · exact Or.inl hold
      · exact Or.inr (by rw [List.mem_singleton.mp hnew])
    · rw [List.map_append, List.map_singleton, List.nodup_append]
      refine ⟨h.once, List.nodup_singleton _, fun x hx y hy heq => ?_⟩
      obtain ⟨q, hq, rfl⟩ := List.mem_map.mp hx
      exact hqueries rfl q hq (heq.trans (List.mem_singleton.mp hy))
  | push hworker =>
    exact h.worked hworker rfl (Or.inr rfl) rfl rfl rfl rfl
      (agree_update (fun _ hne => Function.update_of_ne hne _ _) (fun _ _ => rfl) fun _ => Or.inl)
      trivial h.once

theorem fresh_step {e : DBEvent} (h : Fresh s) (hstep : Step s e t) : Fresh t := by
  have hloop := looping_step h.looping hstep
  cases hstep with
  | net hnet hnext =>
    exact h.kept hloop rfl rfl rfl h.unfinished (fun _ => id) h.queued h.staged
  | recived hend =>
    have hposted : ∀ c, s.recived.postedFor c = s.postedFor c := fun c => by
      rw [postedFor, recived_posted, postedFor]
    refine h.kept hloop rfl rfl rfl (fun c => ?_) (fun c hc => ?_) h.queued h.staged
    · rw [hposted]
      exact h.unfinished c
    · rwa [hposted] at hc
  | skip hitr hturn =>
    exact h.kept hloop rfl rfl rfl h.unfinished (fun _ => id) h.queued h.staged
  | @post m rest conn before after hitr hidle hconn hworker =>
    refine h.post hitr hidle hconn (fun c => ?_) fun x hx => ?_
    · have hcount := countP_replaced (fun x => decide (x.conn = some c)) .notified hworker
      have hsame : decide (DBWorker.notified.conn = some c) = decide (DBWorker.waiting.conn = some c) := rfl
      rwa [hsame, Nat.add_right_cancel_iff] at hcount
    · rcases mem_replaced hworker hx with rfl | hold
      · trivial
      · exact h.staged x hold
  | unheard hitr hidle hconn hnone => exact h.post hitr hidle hconn (fun _ => rfl) h.staged
  | wait hworker => exact h.moved hworker rfl rfl trivial
  | spurious hworker => exact h.moved hworker rfl rfl trivial
  | pop hworker => exact h.pop hworker
  | reused hworker hque => exact h.sql (.reused hworker hque)
  | missed hworker hque => exact h.sql (.missed hworker hque)
  | initialised hworker => exact h.sql (.initialised hworker)
  | refused hworker => exact h.sql (.refused hworker)
  | query hworker => exact h.sql (.query hworker)
  | push hworker => exact h.sql (.push hworker)

end

theorem fresh_run {tr : List (DBServer × DBEvent)} {s : DBServer} (hrun : Run Step {} tr s) :
    Fresh s := by
  induction hrun with
  | nil =>
    refine ⟨looping_start, fun _ => Nat.le_refl _, fun _ _ => ⟨rfl, rfl, nofun⟩, nofun, fun w hw => ?_,
      List.nodup_nil⟩
    rw [List.eq_of_mem_replicate hw]
    trivial
  | snoc _ hlast ih => exact fresh_step ih hlast

/-- No SQL connection runs two queries: a worker that looks for an idle connection finds
none, whatever the others do. -/
theorem queries_on_new_connections (tr : List (DBServer × DBEvent)) (s : DBServer)
    (hrun : Run Step {} tr s) :
    (∀ cmd c, .running cmd (.tasked c) ∈ s.workers → s.que c = []) ∧
      (s.queries.map fun q => q.1).Nodup := by
  have h := fresh_run hrun
  refine ⟨fun cmd c hc => (h.staged _ hc).que, ?_⟩
  have howners : (s.queries.map fun q => q.1).map SqlConnection.owner =
      s.queries.map fun q => q.1.owner := List.map_map
  have honce := h.once
  rw [← howners] at honce
  exact honce.of_map _

/-- The task of the first turn, taken once the post of the second woke a worker. -/
theorem secondTurn_queries : ∃ tr s, Run Step {} tr s ∧ s.queries.length = 1 := by
  have hrun := firstTurn_run.snoc (@Step.wait afterFirstTurn [] _ rfl)
  have hrun := hrun.snoc (Step.recived rfl)
  have hrun := hrun.snoc (@Step.post _ ⟨1, 3, some [50, 50, 50, 0], 0⟩ _ 1 [] _ rfl rfl rfl rfl)
  have hrun := hrun.snoc (@Step.pop _ [] _ rfl)
  have hrun := hrun.snoc (@Step.missed _ [] _ _ _ rfl rfl)
  have hrun := hrun.snoc (@Step.initialised _ [] _ _ _ rfl)
  have hrun := hrun.snoc (@Step.query _ [] _ _ _ _ rfl)
  exact ⟨_, _, hrun, rfl⟩

theorem queries_on_new_connections_second : ∃ s : DBServer, s.queries.length = 1 ∧
    (∀ cmd c, .running cmd (.tasked c) ∈ s.workers → s.que c = []) ∧
      (s.queries.map fun q => q.1).Nodup := by
  obtain ⟨tr, s, hrun, hone⟩ := secondTurn_queries
  exact ⟨s, hone, queries_on_new_connections tr s hrun⟩

end DBServer
end GameRes.DBApp
