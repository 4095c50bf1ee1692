import GameRes.Library.Runs

/-!
# The database thread pool (DBApp/ProducerConsumerQueue.h, DatabaseThreadPool.h)

The workers' `run` loops and the thread that posts tasks and closes the pool.
A step is one critical section under `_queueLock`, or what a worker does between
two of them. `WaitAndPop` has two: it waits without looking at the queue, and
after a notification it pops. `_shutDown` is taken to be zero.
-/

namespace GameRes.DBApp
open Library

/-- `TaskInfo` (`AppManager.h:9-16`); `κ` stands for the connections. -/
structure TaskInfo (κ : Type) where
  conn : Option κ := none
  cmd : String := ""
  deriving Repr, DecidableEq

/-- Where a worker is: before the lock of `WaitAndPop`, in `_condition.wait`,
notified and about to take the lock again, busy with a task, out of the loop. -/
inductive Worker (κ : Type) where
  | entering
  | waiting
  | notified
  | executing (value : TaskInfo κ)
  | exited
  deriving Repr, DecidableEq

/-- The thread that calls `post` and then `ClosePool`, with the turns left there. -/
inductive Poster where
  | posting
  | closing (left : ℕ)
  deriving Repr, DecidableEq

/-- `pushed` and `taken` are history: the values pushed, and those popped. -/
structure ThreadPool (κ : Type) where
  workers : List (Worker κ)
  queue : List (TaskInfo κ) := []
  poster : Poster := .posting
  pushed : List (TaskInfo κ) := []
  taken : List (TaskInfo κ) := []
  deriving Repr, DecidableEq

inductive PoolEvent (κ : Type) where
  | post (value : TaskInfo κ)
  | closePool
  | closePush
  | wait
  | pop
  | finish
  deriving Repr, DecidableEq

/-- `notify_one`: one of the waiting workers, if there is one. -/
inductive NotifyOne {κ : Type} : List (Worker κ) → List (Worker κ) → Prop where
  | wake (before after : List (Worker κ)) :
      NotifyOne (before ++ .waiting :: after) (before ++ .notified :: after)
  | lost {workers : List (Worker κ)} (h : ∀ w ∈ workers, w ≠ .waiting) : NotifyOne workers workers

/-- The values on which a worker leaves its loop. -/
def TaskInfo.isClose {κ : Type} (value : TaskInfo κ) : Bool := value.conn.isNone

namespace Worker
variable {κ : Type}

def isWaiting : Worker κ → Bool
  | .waiting => true
  | _ => false

def isNotified : Worker κ → Bool
  | .notified => true
  | _ => false

def isExited : Worker κ → Bool
  | .exited => true
  | _ => false

/-- `run` behind `WaitAndPop`. -/
def afterPop (value : TaskInfo κ) : Worker κ := if value.isClose then .exited else .executing value

theorem isNotified_afterPop (value : TaskInfo κ) : (afterPop value).isNotified = false := by
  unfold afterPop
  split <;> rfl

theorem isExited_afterPop (value : TaskInfo κ) : (afterPop value).isExited = value.isClose := by
  unfold afterPop
  split
  next hclose => exact hclose.symm
  next hwork => exact (Bool.eq_false_iff.mpr hwork).symm

theorem any_isWaiting {workers : List (Worker κ)} :
    workers.any isWaiting = true ↔ .waiting ∈ workers := by
  rw [List.any_eq_true]
  constructor
  · intro h
    obtain ⟨w, hw, hwaiting⟩ := h
    cases w with
    | waiting => exact hw
    | _ => cases hwaiting
  · intro h
    exact ⟨.waiting, h, rfl⟩

end Worker

section NotifyOne
variable {κ : Type} {ws ws' : List (Worker κ)}

theorem NotifyOne.length (h : NotifyOne ws ws') : ws'.length = ws.length := by
  cases h with
  | wake before after => simp only [List.length_append, List.length_cons]
  | lost => rfl

theorem NotifyOne.exited (h : NotifyOne ws ws') :
    ws'.countP Worker.isExited = ws.countP Worker.isExited := by
  cases h with
  | wake before after =>
    rw [countP_insert, countP_insert]
    rfl
  | lost => rfl

theorem NotifyOne.notified (h : NotifyOne ws ws') :
    ws'.countP Worker.isNotified + (!ws.any Worker.isWaiting).toNat =
      ws.countP Worker.isNotified + 1 := by
  cases h with
  | wake before after =>
    have hany : (before ++ .waiting :: after).any Worker.isWaiting = true :=
      Worker.any_isWaiting.mpr (List.mem_append_right _ List.mem_cons_self)
    rw [hany, countP_insert, countP_insert]
    rfl
  | lost hno =>
    have hany : ws.any Worker.isWaiting = false := by
      rw [Bool.eq_false_iff]
      intro hwaiting
      exact hno _ (Worker.any_isWaiting.mp hwaiting) rfl
    rw [hany]
    rfl

end NotifyOne

namespace ThreadPool
variable {κ : Type}

/-- `CreateThreadPool(threadNum)`. -/
def create (threadNum : ℕ) : ThreadPool κ := { workers := List.replicate threadNum .entering }

/-- `Push`, with the workers as `notify_one` leaves them. -/
def push (s : ThreadPool κ) (value : TaskInfo κ) (workers : List (Worker κ)) : ThreadPool κ :=
  { s with workers := workers, queue := s.queue ++ [value], pushed := s.pushed ++ [value] }

/-- The second half of `WaitAndPop`: `value` keeps its default on an empty queue. -/
def popped (s : ThreadPool κ) : TaskInfo κ := s.queue.head?.getD {}

inductive Step : ThreadPool κ → PoolEvent κ → ThreadPool κ → Prop where
  | post {s : ThreadPool κ} {workers : List (Worker κ)} (value : TaskInfo κ)
      (hconn : value.conn.isSome) (hposting : s.poster = .posting)
      (hnotify : NotifyOne s.workers workers) : Step s (.post value) (s.push value workers)
  | closePool {s : ThreadPool κ} (hposting : s.poster = .posting) :
      Step s .closePool { s with poster := .closing s.workers.length }
  | closePush {s : ThreadPool κ} {workers : List (Worker κ)} {left : ℕ}
      (hclosing : s.poster = .closing (left + 1)) (hnotify : NotifyOne s.workers workers) :
      Step s .closePush { s.push {} workers with poster := .closing left }
  | wait {s : ThreadPool κ} (before after : List (Worker κ))
      (hworker : s.workers = before ++ .entering :: after) :
      Step s .wait { s with workers := before ++ .waiting :: after }
  | pop {s : ThreadPool κ} (before after : List (Worker κ))
      (hworker : s.workers = before ++ .notified :: after) :
      Step s .pop { s with
        workers := before ++ .afterPop s.popped :: after
        queue := s.queue.tail
        taken := s.taken ++ s.queue.take 1 }
  | finish {s : ThreadPool κ} {value : TaskInfo κ} (before after : List (Worker κ))
      (hworker : s.workers = before ++ .executing value :: after) :
      Step s .finish { s with workers := before ++ .entering :: after }

def Stuck (s : ThreadPool κ) : Prop := ∀ e t, ¬Step s e t

/-- All work is done: the queue is empty, every value pushed was taken once, in
order, and every worker has left its loop. -/
structure Drained (s : ThreadPool κ) : Prop where
  queue : s.queue = []
  taken : s.taken = s.pushed
  exited : ∀ w ∈ s.workers, w = .exited

def Heard (s : ThreadPool κ) : PoolEvent κ → Prop
  | .post _ | .closePush => .waiting ∈ s.workers
  | _ => True

/-! ### Counting -/

def misses (s : ThreadPool κ) : PoolEvent κ → Bool
  | .post _ | .closePush => !s.workers.any Worker.isWaiting
  | _ => false

def closesLeft (s : ThreadPool κ) : ℕ :=
  match s.poster with
  | .posting => s.workers.length
  | .closing left => left

theorem heard_iff (s : ThreadPool κ) (e : PoolEvent κ) : Heard s e ↔ ¬misses s e = true := by
  cases e with
  | post value => simp only [Heard, misses, Bool.not_eq_true', Bool.not_eq_false, Worker.any_isWaiting]
  | closePush => simp only [Heard, misses, Bool.not_eq_true', Bool.not_eq_false, Worker.any_isWaiting]
  | _ => simp only [Heard, misses, Bool.false_eq_true, not_false_eq_true]

/-- What the counts of a reachable pool are; `lost` is the number of `Push` calls
that found no worker waiting. -/
structure Accounted (threadNum lost : ℕ) (s : ThreadPool κ) : Prop where
  size : s.workers.length = threadNum
  queue : s.queue.length = s.workers.countP Worker.isNotified + lost
  history : s.pushed = s.taken ++ s.queue
  exits : s.workers.countP Worker.isExited = s.taken.countP TaskInfo.isClose
  closes : s.pushed.countP TaskInfo.isClose + s.closesLeft = threadNum

theorem accounted_create (threadNum : ℕ) : Accounted threadNum 0 (create threadNum : ThreadPool κ) := by
  refine ⟨?_, ?_, rfl, ?_, ?_⟩
  · exact List.length_replicate
  · simp [create, Worker.isNotified, List.countP_replicate]
  · simp [create, Worker.isExited, List.countP_replicate]
  · simp [create, closesLeft]

/-! ### One step -/

theorem Accounted.push {threadNum lost : ℕ} {s : ThreadPool κ} (h : Accounted threadNum lost s)
    {ws : List (Worker κ)} (hnotify : NotifyOne s.workers ws) (value : TaskInfo κ) {t : ThreadPool κ}
    (ht : t = { s.push value ws with poster := t.poster })
    (hcloses : t.pushed.countP TaskInfo.isClose + t.closesLeft = threadNum) :
    Accounted threadNum (lost + (!s.workers.any Worker.isWaiting).toNat) t := by
  have hnotified := hnotify.notified
  have hqueue := h.queue
  refine ⟨?_, ?_, ?_, ?_, hcloses⟩
  · rw [ht]
    exact hnotify.length.trans h.size
  · rw [ht]
    simp only [ThreadPool.push, List.length_append, List.length_singleton]
    omega
  · rw [ht]
    simp only [ThreadPool.push, h.history, List.append_assoc]
  · rw [ht]
    exact hnotify.exited.trans h.exits

theorem Accounted.move {threadNum lost : ℕ} {s : ThreadPool κ} (h : Accounted threadNum lost s)
    {before after : List (Worker κ)} {w w' : Worker κ} (hworker : s.workers = before ++ w :: after)
    (hnotified : w'.isNotified = w.isNotified) (hexited : w'.isExited = w.isExited) :
    Accounted threadNum lost { s with workers := before ++ w' :: after } := by
  have hlen := length_replaced w' hworker
  refine ⟨hlen.trans h.size, ?_, h.history, ?_, ?_⟩
  · have hqueue := h.queue
    rw [hworker, countP_insert] at hqueue
    rw [countP_insert, hnotified]
    exact hqueue
  · have hexits := h.exits
    rw [hworker, countP_insert] at hexits
    rw [countP_insert, hexited]
    exact hexits
  · have hcloses := h.closes
    simp only [closesLeft, hlen] at hcloses ⊢
    exact hcloses

theorem Accounted.pop {threadNum lost : ℕ} {s : ThreadPool κ} (h : Accounted threadNum lost s)
    {before after : List (Worker κ)} (hworker : s.workers = before ++ .notified :: after) :
    Accounted threadNum lost { s with
      workers := before ++ .afterPop s.popped :: after
      queue := s.queue.tail
      taken := s.taken ++ s.queue.take 1 } := by
  have hqueue := h.queue
  have hexits := h.exits
  rw [hworker, countP_insert] at hqueue hexits
  -- A notified worker finds the value it was notified of.
  cases hq : s.queue with
  | nil =>
    rw [hq] at hqueue
    simp only [List.length_nil, Worker.isNotified, Bool.toNat_true] at hqueue
    omega
  | cons value rest =>
    have hpopped : s.popped = value := by
      rw [popped, hq]
      rfl
    have hlen := length_replaced (.afterPop value) hworker
    rw [hpopped]
    refine ⟨hlen.trans h.size, ?_, ?_, ?_, ?_⟩
    · rw [hq, List.length_cons] at hqueue
      rw [countP_insert, Worker.isNotified_afterPop, List.tail_cons]
      simp only [Worker.isNotified, Bool.toNat_true, Bool.toNat_false] at hqueue ⊢
      omega
    · simp only [h.history, hq, List.take_succ_cons, List.take_zero, List.tail_cons,
        List.append_assoc, List.singleton_append]
    · simp only [Worker.isExited, Bool.toNat_false, Nat.add_zero] at hexits
      have htaken : (s.taken ++ [value]).countP TaskInfo.isClose =
          s.taken.countP TaskInfo.isClose + value.isClose.toNat := countP_snoc _ _ _
      rw [countP_insert, Worker.isExited_afterPop, hexits]
      exact htaken.symm
    · have hcloses := h.closes
      simp only [closesLeft, hlen] at hcloses ⊢
      exact hcloses

theorem Accounted.step {threadNum lost : ℕ} {s t : ThreadPool κ} {e : PoolEvent κ}
    (h : Accounted threadNum lost s) (hstep : Step s e t) :
    Accounted threadNum (lost + (misses s e).toNat) t := by
  have hcloses := h.closes
  cases hstep with
  | @post ws value hconn hposting hnotify =>
    refine h.push hnotify value rfl ?_
    have hwork : value.isClose = false := by
      rw [TaskInfo.isClose, Option.isNone_eq_false_iff]
      exact hconn
    simp only [closesLeft, hposting] at hcloses
    simp only [closesLeft, hposting, ThreadPool.push, hnotify.length, List.countP_append,
      List.countP_singleton, hwork, Bool.false_eq_true, ite_false, Nat.add_zero]
    exact hcloses
  | closePool hposting =>
    refine ⟨h.size, h.queue, h.history, h.exits, ?_⟩
    simpa only [closesLeft, hposting] using hcloses
  | @closePush ws left hclosing hnotify =>
    refine h.push hnotify {} rfl ?_
    have hclose : ({} : TaskInfo κ).isClose = true := rfl
    simp only [closesLeft, hclosing] at hcloses
    simp only [closesLeft, ThreadPool.push, List.countP_append, List.countP_singleton, hclose,
      ite_true]
    omega
  | wait before after hworker => exact h.move hworker rfl rfl
  | pop before after hworker => exact h.pop hworker
  | finish before after hworker => exact h.move hworker rfl rfl

/-! ### Runs -/

def missed (tr : List (ThreadPool κ × PoolEvent κ)) : ℕ := tr.countP fun x => x.1.misses x.2

theorem missed_eq_zero {tr : List (ThreadPool κ × PoolEvent κ)} : missed tr = 0 ↔ Meets Heard tr := by
  rw [missed, List.countP_eq_zero]
  constructor
  · intro h x hx
    exact (heard_iff x.1 x.2).mpr (h x hx)
  · intro h x hx
    exact (heard_iff x.1 x.2).mp (h x hx)

theorem accounted_of_run {threadNum : ℕ} {tr : List (ThreadPool κ × PoolEvent κ)} {s : ThreadPool κ}
    (hrun : Run Step (create threadNum) tr s) : Accounted threadNum (missed tr) s := by
  induction hrun with
  | nil => exact accounted_create threadNum
  | @snoc tr s e t _ hlast ih =>
    have hmissed : missed (tr ++ [(s, e)]) = missed tr + (s.misses e).toNat := countP_snoc _ _ _
    rw [hmissed]
    exact ih.step hlast

/-! ### Pools in which no thread can go on -/

theorem Stuck.workers {s : ThreadPool κ} (h : Stuck s) : ∀ w ∈ s.workers, w = .waiting ∨ w = .exited := by
  intro w hw
  obtain ⟨before, after, hworker⟩ := List.append_of_mem hw
  cases w with
  | entering => exact absurd (Step.wait before after hworker) (h _ _)
  | waiting => exact Or.inl rfl
  | notified => exact absurd (Step.pop before after hworker) (h _ _)
  | executing value => exact absurd (Step.finish before after hworker) (h _ _)
  | exited => exact Or.inr rfl

theorem stuck_of {s : ThreadPool κ} (hposter : s.poster = .closing 0)
    (hworkers : ∀ w ∈ s.workers, w = .waiting ∨ w = .exited) : Stuck s := by
  have hidle : ∀ {before after : List (Worker κ)} {w : Worker κ}, s.workers = before ++ w :: after →
      w = .waiting ∨ w = .exited := by
    intro before after w hsplit
    apply hworkers
    rw [hsplit]
    exact List.mem_append_right _ List.mem_cons_self
  intro e t hstep
  cases hstep with
  | post _ _ hposting _ => simp [hposter] at hposting
  | closePool hposting => simp [hposter] at hposting
  | closePush hclosing _ => simp [hposter] at hclosing
  | wait before after hworker => simpa using hidle hworker
  | pop before after hworker => simpa using hidle hworker
  | finish before after hworker => simpa using hidle hworker

theorem exists_notifyOne (ws : List (Worker κ)) : ∃ ws', NotifyOne ws ws' := by
  by_cases hwaiting : .waiting ∈ ws
  · obtain ⟨before, after, hsplit⟩ := List.append_of_mem hwaiting
    rw [hsplit]
    exact ⟨_, .wake before after⟩
  · exact ⟨ws, .lost fun w hw heq => hwaiting (heq ▸ hw)⟩

theorem Stuck.poster {s : ThreadPool κ} (h : Stuck s) : s.poster = .closing 0 := by
  obtain ⟨ws, hnotify⟩ := exists_notifyOne s.workers
  cases hposter : s.poster with
  | posting => exact absurd (Step.closePool hposter) (h _ _)
  | closing left =>
    cases left with
    | zero => rfl
    | succ left => exact absurd (Step.closePush hposter hnotify) (h _ _)

theorem Accounted.drained {threadNum : ℕ} {s : ThreadPool κ} (h : Accounted threadNum 0 s)
    (hstuck : Stuck s) : Drained s := by
  have hnotified : s.workers.countP Worker.isNotified = 0 := by
    rw [List.countP_eq_zero]
    intro w hw
    cases hstuck.workers w hw with
    | inl hwaiting => simp only [hwaiting, Worker.isNotified, Bool.false_eq_true, not_false_eq_true]
    | inr hexited => simp only [hexited, Worker.isNotified, Bool.false_eq_true, not_false_eq_true]
  have hempty : s.queue = [] := by
    have hqueue := h.queue
    rw [hnotified] at hqueue
    exact List.eq_nil_of_length_eq_zero hqueue
  have htaken : s.taken = s.pushed := by rw [h.history, hempty, List.append_nil]
  -- As many workers left as closing values were taken, and those are all that were pushed.
  have hcloses := h.closes
  rw [closesLeft, hstuck.poster, ← htaken, ← h.exits, ← h.size] at hcloses
  have hall := List.countP_eq_length.mp hcloses
  refine ⟨hempty, htaken, ?_⟩
  intro w hw
  have hexited := hall w hw
  cases w with
  | exited => rfl
  | _ => cases hexited

/-- A pool in which no thread can go on has done all its work exactly when every `Push` of
the run found a worker waiting. -/
theorem drained_iff {threadNum : ℕ} {tr : List (ThreadPool κ × PoolEvent κ)} {s : ThreadPool κ}
    (hrun : Run Step (create threadNum) tr s) (hstuck : Stuck s) : Drained s ↔ Meets Heard tr := by
  have haccounted := accounted_of_run hrun
  rw [← missed_eq_zero]
  constructor
  · intro hdrained
    have hqueue := haccounted.queue
    rw [hdrained.queue, List.length_nil] at hqueue
    omega
  · intro hnone
    rw [hnone] at haccounted
    exact haccounted.drained hstuck

theorem drained_iff_heard :
    ∃ tr s, Run Step (create 1 : ThreadPool Unit) tr s ∧ Stuck s ∧ s.taken.length = 2 ∧
      Drained s := by
  have h0 : Run Step (create 1 : ThreadPool Unit) [] (create 1) := .nil
  have h1 := h0.snoc (.wait [] [] rfl)
  have h2 := h1.snoc (.post ⟨some (), "select"⟩ rfl rfl (.wake [] []))
  have h3 := h2.snoc (.pop [] [] rfl)
  have h4 := h3.snoc (.finish [] [] rfl)
  have h5 := h4.snoc (.wait [] [] rfl)
  have h6 := h5.snoc (.closePool rfl)
  have h7 := h6.snoc (.closePush rfl (.wake [] []))
  have h8 := h7.snoc (.pop [] [] rfl)
  have hexited : ∀ w ∈ [(.exited : Worker Unit)], w = .waiting ∨ w = .exited := by
    intro w hw
    right
    exact List.mem_singleton.mp hw
  refine ⟨_, _, h8, stuck_of rfl hexited, rfl, (drained_iff h8 (stuck_of rfl hexited)).mpr ?_⟩
  simp [Meets, Heard]

/-- A task posted before the only worker waits: the notification of `ClosePool` makes the
worker take the task, and then it waits for a notification that never comes. -/
theorem posted_early_stuck :
    ∃ tr s, Run Step (create 1 : ThreadPool Unit) tr s ∧ Stuck s ∧
      s.queue = [{}] ∧ s.workers = [.waiting] := by
  have h0 : Run Step (create 1 : ThreadPool Unit) [] (create 1) := .nil
  have h1 := h0.snoc (.post ⟨some (), "select"⟩ rfl rfl (.lost (by decide)))
  have h2 := h1.snoc (.wait [] [] rfl)
  have h3 := h2.snoc (.closePool rfl)
  have h4 := h3.snoc (.closePush rfl (.wake [] []))
  have h5 := h4.snoc (.pop [] [] rfl)
  have h6 := h5.snoc (.finish [] [] rfl)
  have h7 := h6.snoc (.wait [] [] rfl)
  refine ⟨_, _, h7, stuck_of rfl ?_, rfl, rfl⟩
  intro w hw
  left
  exact List.mem_singleton.mp hw

end ThreadPool
end GameRes.DBApp
