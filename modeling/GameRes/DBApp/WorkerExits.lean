import GameRes.DBApp.ThreadPool
import Mathlib.Logic.Function.Basic

/-!
# Workers that leave the pool (DBApp/ProducerConsumerQueue.h:42-53, DatabaseThreadPool.h:22-72)

The pool with waits that may wake without a notification. `WaitAndPop` does not wait
again and reports an empty queue by leaving its argument as it was constructed, which
`run` takes for the empty task of `ClosePool`.
-/

namespace GameRes.DBApp
open Library

/-- The pool, and for each worker, by its number, the tasks that it popped. -/
structure Crew (κ : Type) where
  pool : ThreadPool κ
  popped : ℕ → List (TaskInfo κ) := fun _ => []

inductive WakeEvent (κ : Type) where
  | pool (e : PoolEvent κ)
  | spurious
  deriving Repr, DecidableEq

namespace Crew
variable {κ : Type}

def create (threadNum : ℕ) : Crew κ := { pool := ThreadPool.create threadNum }

def pop (s : Crew κ) (before after : List (Worker κ)) : Crew κ where
  pool := { s.pool with
    workers := before ++ .afterPop s.pool.popped :: after
    queue := s.pool.queue.tail
    taken := s.pool.taken ++ s.pool.queue.take 1 }
  popped := Function.update s.popped before.length
    (s.popped before.length ++ s.pool.queue.take 1)

/-- The steps of the pool, with a `pop` entered for its worker, and the wake-up of a waiting
worker that nobody notified. -/
inductive Step : Crew κ → WakeEvent κ → Crew κ → Prop where
  | pool {s : Crew κ} {e : PoolEvent κ} {t : ThreadPool κ} (hstep : ThreadPool.Step s.pool e t)
      (hpop : e ≠ .pop) : Step s (.pool e) { s with pool := t }
  | pop {s : Crew κ} (before after : List (Worker κ))
      (hworker : s.pool.workers = before ++ .notified :: after) :
      Step s (.pool .pop) (s.pop before after)
  | spurious {s : Crew κ} (before after : List (Worker κ))
      (hworker : s.pool.workers = before ++ .waiting :: after) :
      Step s .spurious
        { s with pool := { s.pool with workers := before ++ .notified :: after } }

theorem Step.toPool {s t : Crew κ} {e : PoolEvent κ} (h : Step s (.pool e) t) :
    ThreadPool.Step s.pool e t.pool := by
  cases h with
  | pool hstep _ => exact hstep
  | pop before after hworker => exact .pop before after hworker

/-- A worker that left its loop popped an empty task, after `ClosePool` began, and until
then all workers are in their loops. -/
structure Told (threadNum : ℕ) (s : Crew κ) : Prop where
  told : ∀ i, s.pool.workers[i]? = some .exited →
    s.pool.poster ≠ .posting ∧ ∃ value ∈ s.popped i, value.isClose = true
  available : s.pool.poster = .posting →
    s.pool.workers.countP (fun w => !w.isExited) = threadNum

/-- A worker that pops finds a task. -/
def Finds (s : Crew κ) (e : WakeEvent κ) : Prop := e = .pool .pop → s.pool.queue ≠ []

/-! ### Single steps -/

/-- While tasks are posted the queue has no empty one, and a worker in its loop has popped
none. -/
structure Rostered (threadNum : ℕ) (s : Crew κ) : Prop where
  size : s.pool.workers.length = threadNum
  told : ∀ i, s.pool.workers[i]? = some .exited →
    s.pool.poster ≠ .posting ∧ ∃ value ∈ s.popped i, value.isClose = true
  queue : s.pool.poster = .posting → ∀ value ∈ s.pool.queue, value.isClose = false
  working : ∀ i, s.pool.workers[i]? ≠ some .exited → ∀ value ∈ s.popped i, value.isClose = false

/-- What a step other than a `pop` does. -/
structure Calm (s t : Crew κ) : Prop where
  size : t.pool.workers.length = s.pool.workers.length
  exited : ∀ i : ℕ, t.pool.workers[i]? = some .exited ↔ s.pool.workers[i]? = some .exited
  popped : t.popped = s.popped
  posting : t.pool.poster = .posting → s.pool.poster = .posting
  queue : t.pool.poster = .posting →
    ∀ value ∈ t.pool.queue, value ∈ s.pool.queue ∨ value.isClose = false

section
variable {s t : Crew κ} {threadNum : ℕ} {before after : List (Worker κ)} {w w' : Worker κ}

theorem exited_replaced (hw : w ≠ .exited) (hw' : w' ≠ .exited) (i : ℕ) :
    (before ++ w' :: after)[i]? = some .exited ↔ (before ++ w :: after)[i]? = some .exited := by
  by_cases hi : i = before.length
  · rw [hi, getElem?_middle, getElem?_middle]
    simp only [Option.some.injEq, hw, hw']
  · rw [getElem?_replaced i hi]

theorem exited_notifyOne {ws ws' : List (Worker κ)} (h : NotifyOne ws ws') (i : ℕ) :
    ws'[i]? = some .exited ↔ ws[i]? = some .exited := by
  cases h with
  | wake before after => exact exited_replaced (by simp) (by simp) i
  | lost => rfl

theorem Told.of_rostered (h : Rostered threadNum s) : Told threadNum s := by
  refine ⟨h.told, ?_⟩
  intro hposting
  rw [← h.size, List.countP_eq_length]
  intro w hw
  obtain ⟨i, hi⟩ := List.mem_iff_getElem?.mp hw
  cases w with
  | exited => exact absurd hposting (h.told i hi).1
  | _ => rfl

theorem rostered_create : Rostered threadNum (create threadNum : Crew κ) := by
  refine ⟨List.length_replicate, ?_, ?_, ?_⟩
  · intro i hi
    cases List.eq_of_mem_replicate (List.mem_of_getElem? hi)
  · intro _ value hvalue
    cases hvalue
  · intro i _ value hvalue
    cases hvalue

theorem Rostered.calm (h : Rostered threadNum s) (hcalm : Calm s t) : Rostered threadNum t := by
  refine ⟨hcalm.size.trans h.size, ?_, ?_, ?_⟩
  · intro i hi
    obtain ⟨hposter, hclose⟩ := h.told i ((hcalm.exited i).mp hi)
    rw [hcalm.popped]
    exact ⟨fun hposting => hposter (hcalm.posting hposting), hclose⟩
  · intro hposting value hvalue
    rcases hcalm.queue hposting value hvalue with hold | hnew
    · exact h.queue (hcalm.posting hposting) value hold
    · exact hnew
  · intro i hi
    rw [hcalm.popped]
    exact h.working i fun hexited => hi ((hcalm.exited i).mpr hexited)

theorem calm_replaced (hworker : s.pool.workers = before ++ w :: after) (hw : w ≠ .exited)
    (hw' : w' ≠ .exited) :
    Calm s { s with pool := { s.pool with workers := before ++ w' :: after } } := by
  refine ⟨length_replaced w' hworker, ?_, rfl, id, fun _ _ hvalue => Or.inl hvalue⟩
  intro i
  rw [hworker]
  exact exited_replaced hw hw' i

theorem calm_step {e : PoolEvent κ} {p : ThreadPool κ} (hstep : ThreadPool.Step s.pool e p)
    (hpop : e ≠ .pop) : Calm s { s with pool := p } := by
  cases hstep with
  | @post ws value hconn hposting hnotify =>
    refine ⟨hnotify.length, exited_notifyOne hnotify, rfl, id, ?_⟩
    intro _ v hv
    rcases List.mem_append.mp hv with hold | hnew
    · exact Or.inl hold
    · rw [List.mem_singleton.mp hnew, TaskInfo.isClose, Option.isNone_eq_false_iff]
      exact Or.inr hconn
  | closePool hposting =>
    refine ⟨rfl, fun _ => Iff.rfl, rfl, ?_, ?_⟩
    · intro hclosing
      cases hclosing
    · intro hclosing
      cases hclosing
  | @closePush ws left hclosing hnotify =>
    refine ⟨hnotify.length, exited_notifyOne hnotify, rfl, ?_, ?_⟩
    · intro hposting
      cases hposting
    · intro hposting
      cases hposting
  | wait before after hworker => exact calm_replaced hworker (by simp) (by simp)
  | pop before after hworker => exact absurd rfl hpop
  | finish before after hworker => exact calm_replaced hworker (by simp) (by simp)

theorem popped_self : (s.pop before after).popped before.length =
    s.popped before.length ++ s.pool.queue.take 1 := Function.update_self ..

theorem popped_other {i : ℕ} (hi : i ≠ before.length) :
    (s.pop before after).popped i = s.popped i := Function.update_of_ne hi ..

theorem Rostered.popper (h : Rostered threadNum s)
    (hworker : s.pool.workers = before ++ .notified :: after) :
    ∀ value ∈ s.popped before.length, value.isClose = false := by
  apply h.working
  rw [hworker, getElem?_middle]
  simp

theorem Rostered.pop (h : Rostered threadNum s)
    (hworker : s.pool.workers = before ++ .notified :: after) (hfinds : s.pool.queue ≠ []) :
    Rostered threadNum (s.pop before after) := by
  obtain ⟨value, rest, hqueue⟩ := List.exists_cons_of_ne_nil hfinds
  have hpopped : s.pool.popped = value := by
    rw [ThreadPool.popped, hqueue]
    rfl
  have hvalue : s.pool.poster = .posting → value.isClose = false := by
    intro hposting
    apply h.queue hposting
    rw [hqueue]
    exact List.mem_cons_self
  have hself : (s.pop before after).popped before.length = s.popped before.length ++ [value] := by
    rw [popped_self, hqueue]
    rfl
  have hplace : (s.pop before after).pool.workers[before.length]? = some (.afterPop value) := by
    rw [← hpopped]
    exact getElem?_middle
  have hothers : ∀ i, i ≠ before.length →
      (s.pop before after).pool.workers[i]? = s.pool.workers[i]? := by
    intro i hi
    rw [hworker]
    exact getElem?_replaced i hi
  refine ⟨(length_replaced _ hworker).trans h.size, ?_, ?_, ?_⟩
  · intro i hexited
    by_cases hi : i = before.length
    · -- The worker that leaves is the one that popped, and it popped an empty task.
      rw [hi, hplace, Option.some.injEq] at hexited
      have hclose : value.isClose = true := by
        rw [← Worker.isExited_afterPop, hexited]
        rfl
      refine ⟨?_, value, ?_, hclose⟩
      · intro hposting
        rw [hvalue hposting] at hclose
        cases hclose
      · rw [hi, hself]
        exact List.mem_append_right _ (List.mem_singleton_self _)
    · rw [hothers i hi] at hexited
      rw [popped_other hi]
      exact h.told i hexited
  · intro hposting v hv
    exact h.queue hposting v (List.mem_of_mem_tail hv)
  · intro i hstays v hv
    by_cases hi : i = before.length
    · rw [hi, hself] at hv
      rcases List.mem_append.mp hv with hold | hnew
      · exact h.popper hworker v hold
      · rw [List.mem_singleton.mp hnew, Bool.eq_false_iff]
        intro hclose
        apply hstays
        rw [hi, hplace, Worker.afterPop, if_pos hclose]
    · rw [popped_other hi] at hv
      exact h.working i (fun hexited => hstays ((hothers i hi).trans hexited)) v hv

theorem not_told_pop (h : Rostered threadNum s)
    (hworker : s.pool.workers = before ++ .notified :: after) (hempty : s.pool.queue = []) :
    ¬Told threadNum (s.pop before after) := by
  intro htold
  have hpopped : s.pool.popped = {} := by
    rw [ThreadPool.popped, hempty]
    rfl
  have hexited : (s.pop before after).pool.workers[before.length]? = some .exited := by
    have hleaves : Worker.afterPop s.pool.popped = .exited := by rw [hpopped]; rfl
    rw [← hleaves]
    exact getElem?_middle
  obtain ⟨-, value, hvalue, hclose⟩ := htold.told _ hexited
  rw [popped_self, hempty, List.take_nil, List.append_nil] at hvalue
  rw [h.popper hworker value hvalue] at hclose
  cases hclose

theorem Rostered.step {e : WakeEvent κ} (h : Rostered threadNum s) (hfinds : Finds s e)
    (hstep : Step s e t) : Rostered threadNum t := by
  cases hstep with
  | pool hstep hpop => exact h.calm (calm_step hstep hpop)
  | pop before after hworker => exact h.pop hworker (hfinds rfl)
  | spurious before after hworker => exact h.calm (calm_replaced hworker (by simp) (by simp))

theorem told_step_iff {e : WakeEvent κ} (h : Rostered threadNum s) (hstep : Step s e t) :
    Told threadNum t ↔ Finds s e := by
  refine ⟨?_, fun hfinds => Told.of_rostered (h.step hfinds hstep)⟩
  intro htold hpop hempty
  cases hstep with
  | pool _ hother =>
    cases hpop
    exact hother rfl
  | pop before after hworker => exact not_told_pop h hworker hempty htold
  | spurious _ _ _ => cases hpop

end

/-! ### Runs -/

/-- No worker leaves its loop untold, and all stay until the pool is closed, exactly in the
runs in which no wait returns to an empty queue. -/
theorem told_iff {threadNum : ℕ} {tr : List (Crew κ × WakeEvent κ)} {s : Crew κ}
    (hrun : Run Step (create threadNum) tr s) : Throughout (Told threadNum) tr s ↔ Meets Finds tr := by
  apply hrun.throughout_iff (I := Rostered threadNum) ?_ ?_ rostered_create
    (Told.of_rostered rostered_create)
  · intro t e u ht hfinds hstep
    exact ht.step hfinds hstep
  · intro t e u ht hstep
    exact told_step_iff ht hstep

theorem told_iff_notified :
    ∃ tr s, Run Step (create 2 : Crew Unit) tr s ∧ s.pool.taken.length = 1 ∧
      Throughout (Told 2) tr s := by
  have h0 : Run Step (create 2 : Crew Unit) [] (create 2) := .nil
  have h1 := h0.snoc (.pool (.wait [] [.entering] rfl) (by simp))
  have h2 := h1.snoc (.pool (.wait [.waiting] [] rfl) (by simp))
  have h3 := h2.snoc (.pool (.post ⟨some (), "select"⟩ rfl rfl (.wake [] [.waiting])) (by simp))
  have h4 := h3.snoc (.pop [] [.waiting] rfl)
  refine ⟨_, _, h4, rfl, (told_iff h4).mpr ?_⟩
  simp [Meets, Finds, ThreadPool.push]

/-- One worker waits and wakes by itself: it leaves, and nobody is left for any task. -/
theorem spurious_exit :
    ∃ tr s, Run Step (create 1 : Crew Unit) tr s ∧ s.pool.workers = [.exited] ∧
      s.pool.poster = .posting ∧ ¬Told 1 s := by
  have h0 : Run Step (create 1 : Crew Unit) [] (create 1) := .nil
  have h1 := h0.snoc (.pool (.wait [] [] rfl) (by simp))
  have h2 := h1.snoc (.spurious [] [] rfl)
  have h3 := h2.snoc (.pop [] [] rfl)
  refine ⟨_, _, h3, rfl, rfl, ?_⟩
  intro htold
  exact (htold.told 0 rfl).1 rfl

end Crew
end GameRes.DBApp
