import GameRes.Library.Runs
import Mathlib.Logic.Function.Basic

/-!
# The SQL connections of the workers (DBApp/NewConnection.h:16-54, DatabaseThreadPool.h:22-44)

Every `Connction` has a queue of idle connections. A worker with a task pops one, or
creates one when the queue was empty at that moment, and pushes it back after the
query. `try_pop` and `push` of the concurrent queue are atomic, and `init` may fail.
-/

namespace GameRes.DBApp
open Library

/-- A connection that was initialised: which `Connction` created it, and as which of its own. -/
structure SqlConnection (κ : Type) where
  owner : κ
  number : ℕ
  deriving Repr, DecidableEq

/-- Where a worker is in `run`: without a task, before `try_pop`, behind a `try_pop` that
failed, and with a connection, before `Query` or behind it. -/
inductive SqlWorker (κ : Type) where
  | idle
  | tasked (c : κ)
  | creating (c : κ)
  | holding (c : κ) (conn : SqlConnection κ) (queried : Bool)
  deriving Repr, DecidableEq

/-- `created` is history: how many connections each `Connction` created successfully. -/
structure SqlPool (κ : Type) where
  workers : List (SqlWorker κ)
  que : κ → List (SqlConnection κ) := fun _ => []
  created : κ → ℕ := fun _ => 0

inductive SqlEvent (κ : Type) where
  | take (c : κ)
  | tryPop
  | init (ok : Bool)
  | query
  | push
  deriving Repr, DecidableEq

namespace SqlWorker
variable {κ : Type} [DecidableEq κ]

def holds (conn : SqlConnection κ) : SqlWorker κ → Bool
  | .holding _ held _ => held = conn
  | _ => false

def holdsOf (c : κ) : SqlWorker κ → Bool
  | .holding c' _ _ => c' = c
  | _ => false

def isCreating (c : κ) : SqlWorker κ → Bool
  | .creating c' => c' = c
  | _ => false

end SqlWorker

namespace SqlPool
variable {κ : Type} [DecidableEq κ]

def start (threadNum : ℕ) : SqlPool κ := { workers := List.replicate threadNum .idle }

inductive Step : SqlPool κ → SqlEvent κ → SqlPool κ → Prop where
  | take {s : SqlPool κ} (c : κ) (before after : List (SqlWorker κ))
      (hworker : s.workers = before ++ .idle :: after) :
      Step s (.take c) { s with workers := before ++ .tasked c :: after }
  | popped {s : SqlPool κ} {c : κ} {conn : SqlConnection κ} {rest : List (SqlConnection κ)}
      (before after : List (SqlWorker κ)) (hworker : s.workers = before ++ .tasked c :: after)
      (hque : s.que c = conn :: rest) :
      Step s .tryPop { s with
        workers := before ++ .holding c conn false :: after
        que := Function.update s.que c rest }
  | missed {s : SqlPool κ} {c : κ} (before after : List (SqlWorker κ))
      (hworker : s.workers = before ++ .tasked c :: after) (hque : s.que c = []) :
      Step s .tryPop { s with workers := before ++ .creating c :: after }
  | initialised {s : SqlPool κ} {c : κ} (before after : List (SqlWorker κ))
      (hworker : s.workers = before ++ .creating c :: after) :
      Step s (.init true) { s with
        workers := before ++ .holding c ⟨c, s.created c⟩ false :: after
        created := Function.update s.created c (s.created c + 1) }
  | refused {s : SqlPool κ} {c : κ} (before after : List (SqlWorker κ))
      (hworker : s.workers = before ++ .creating c :: after) :
      Step s (.init false) { s with workers := before ++ .idle :: after }
  | query {s : SqlPool κ} {c : κ} {conn : SqlConnection κ} (before after : List (SqlWorker κ))
      (hworker : s.workers = before ++ .holding c conn false :: after) :
      Step s .query { s with workers := before ++ .holding c conn true :: after }
  | push {s : SqlPool κ} {c : κ} {conn : SqlConnection κ} (before after : List (SqlWorker κ))
      (hworker : s.workers = before ++ .holding c conn true :: after) :
      Step s .push { s with
        workers := before ++ .idle :: after
        que := Function.update s.que c (s.que c ++ [conn]) }

/-- A connection that was created is once in the queue of its `Connction` or with one
worker, no other queue has it, and no `Connction` created more than there are workers. -/
structure Exclusive (threadNum : ℕ) (s : SqlPool κ) : Prop where
  once : ∀ conn, conn.number < s.created conn.owner →
    (s.que conn.owner).count conn + s.workers.countP (SqlWorker.holds conn) = 1
  home : ∀ c, ∀ conn ∈ s.que c, conn.owner = c
  bounded : ∀ c, s.created c ≤ threadNum

/-! ### Accounting -/

/-- The connections of a `Connction` are those in its queue and those held, and with the
workers that are creating one there are no more than workers. -/
structure Ledger (threadNum : ℕ) (s : SqlPool κ) : Prop where
  size : s.workers.length = threadNum
  home : ∀ c, ∀ conn ∈ s.que c, conn.owner = c
  held : ∀ c conn queried, .holding c conn queried ∈ s.workers → conn.owner = c
  places : ∀ conn, (s.que conn.owner).count conn + s.workers.countP (SqlWorker.holds conn) =
    if conn.number < s.created conn.owner then 1 else 0
  counted : ∀ c, (s.que c).length + s.workers.countP (SqlWorker.holdsOf c) = s.created c
  room : ∀ c, s.created c + s.workers.countP (SqlWorker.isCreating c) ≤ threadNum

section
variable {s t : SqlPool κ} {threadNum : ℕ} {c : κ} {conn : SqlConnection κ}
  {before after : List (SqlWorker κ)} {w w' : SqlWorker κ}

theorem Exclusive.of_ledger (h : Ledger threadNum s) : Exclusive threadNum s := by
  refine ⟨?_, h.home, ?_⟩
  · intro conn hcreated
    rw [h.places conn, if_pos hcreated]
  · intro c
    exact Nat.le_trans (Nat.le_add_right _ _) (h.room c)

theorem ledger_start : Ledger threadNum (start threadNum : SqlPool κ) := by
  have hnone : ∀ p : SqlWorker κ → Bool, p .idle = false →
      (List.replicate threadNum SqlWorker.idle).countP p = 0 := by
    intro p hp
    rw [List.countP_replicate, hp]
    rfl
  refine ⟨List.length_replicate, ?_, ?_, ?_, ?_, ?_⟩
  · intro c conn hconn
    cases hconn
  · intro c conn queried hworker
    cases List.eq_of_mem_replicate hworker
  · intro conn
    have hnot : ¬conn.number < (start threadNum : SqlPool κ).created conn.owner :=
      Nat.not_lt_zero _
    rw [if_neg hnot]
    exact (Nat.zero_add _).trans (hnone _ rfl)
  · intro c
    exact (Nat.zero_add _).trans (hnone _ rfl)
  · intro c
    rw [start, hnone _ rfl]
    exact Nat.zero_le _

theorem Ledger.held_replaced (h : Ledger threadNum s) (hworker : s.workers = before ++ w :: after)
    (hown : ∀ c conn queried, w' = .holding c conn queried → conn.owner = c) :
    ∀ c conn queried, .holding c conn queried ∈ before ++ w' :: after → conn.owner = c := by
  intro c conn queried hmem
  rcases mem_replaced hworker hmem with hnew | hold
  · exact hown c conn queried hnew.symm
  · exact h.held c conn queried hold

/-- A worker moves on without touching a connection. -/
theorem Ledger.moved (h : Ledger threadNum s) (w' : SqlWorker κ)
    (hworker : s.workers = before ++ w :: after)
    (hholds : ∀ conn, w'.holds conn = w.holds conn) (hof : ∀ c, w'.holdsOf c = w.holdsOf c)
    (hown : ∀ c conn queried, w' = .holding c conn queried → conn.owner = c)
    (hroom : ∀ c, s.created c + (before ++ w' :: after).countP (SqlWorker.isCreating c) ≤ threadNum) :
    Ledger threadNum { s with workers := before ++ w' :: after } := by
  refine ⟨(length_replaced w' hworker).trans h.size, h.home, h.held_replaced hworker hown, ?_, ?_,
    hroom⟩
  · intro conn
    have hcount := countP_replaced (SqlWorker.holds conn) w' hworker
    rw [hholds, Nat.add_right_cancel_iff] at hcount
    rw [hcount]
    exact h.places conn
  · intro c
    have hcount := countP_replaced (SqlWorker.holdsOf c) w' hworker
    rw [hof, Nat.add_right_cancel_iff] at hcount
    rw [hcount]
    exact h.counted c

theorem Ledger.room_moved (h : Ledger threadNum s) (hworker : s.workers = before ++ w :: after)
    (hidle : ∀ c, w'.isCreating c = false) (c : κ) :
    s.created c + (before ++ w' :: after).countP (SqlWorker.isCreating c) ≤ threadNum := by
  have hcount := countP_replaced (SqlWorker.isCreating c) w' hworker
  have hroom := h.room c
  rw [hidle, Bool.toNat_false] at hcount
  omega

theorem not_creating_of_holdsOf {c : κ} (w : SqlWorker κ) (h : w.holdsOf c = true) :
    w.isCreating c = false := by
  cases w with
  | holding _ _ _ => rfl
  | _ => cases h

/-- The queue was empty, so all connections of the `Connction` are with other workers. -/
theorem Ledger.missed (h : Ledger threadNum s) (hworker : s.workers = before ++ .tasked c :: after)
    (hque : s.que c = []) :
    Ledger threadNum { s with workers := before ++ .creating c :: after } := by
  apply h.moved (.creating c) hworker (fun _ => rfl) (fun _ => rfl) (by simp)
  intro c'
  by_cases hc : c' = c
  · have hcounted := h.counted c'
    have hholders := countP_replaced (SqlWorker.holdsOf c') (.creating c) hworker
    have hdisjoint := countP_add_countP_le (not_creating_of_holdsOf (c := c'))
      (before ++ .creating c :: after)
    rw [length_replaced (.creating c) hworker, h.size] at hdisjoint
    rw [hc, hque, List.length_nil, ← hc] at hcounted
    simp only [SqlWorker.holdsOf, Bool.toNat_false] at hholders
    omega
  · have hcount := countP_replaced (SqlWorker.isCreating c') (.creating c) hworker
    have hother : SqlWorker.isCreating c' (.creating c) = false := decide_eq_false fun heq => hc heq.symm
    have hroom := h.room c'
    rw [hother, Bool.toNat_false] at hcount
    omega

/-- A worker takes a connection of `c` from the queue, or gives one back. -/
theorem Ledger.requeued {q : List (SqlConnection κ)} (h : Ledger threadNum s) (w' : SqlWorker κ)
    (hworker : s.workers = before ++ w :: after) (hhome : ∀ x ∈ q, x.owner = c)
    (hown : ∀ c' x queried, w' = .holding c' x queried → x.owner = c')
    (hplaces : ∀ x, x.owner = c →
      q.count x + (w'.holds x).toNat = (s.que c).count x + (w.holds x).toNat)
    (hother : ∀ x, x.owner ≠ c → w'.holds x = w.holds x)
    (hlen : q.length + (w'.holdsOf c).toNat = (s.que c).length + (w.holdsOf c).toNat)
    (hlenOther : ∀ c', c' ≠ c → w'.holdsOf c' = w.holdsOf c')
    (hidle : ∀ c', w'.isCreating c' = false) :
    Ledger threadNum { s with
      workers := before ++ w' :: after
      que := Function.update s.que c q } := by
  refine ⟨(length_replaced w' hworker).trans h.size, ?_, h.held_replaced hworker hown, ?_, ?_,
    h.room_moved hworker hidle⟩
  · intro c' x hx
    dsimp only at hx
    by_cases hc : c' = c
    · rw [hc, Function.update_self] at hx
      rw [hc]
      exact hhome x hx
    · rw [Function.update_of_ne hc] at hx
      exact h.home c' x hx
  · intro x
    have hcount := countP_replaced (SqlWorker.holds x) w' hworker
    dsimp only
    rw [← h.places x]
    by_cases hx : x.owner = c
    · have hself := hplaces x hx
      rw [hx, Function.update_self]
      omega
    · rw [hother x hx] at hcount
      rw [Function.update_of_ne hx]
      omega
  · intro c'
    have hcount := countP_replaced (SqlWorker.holdsOf c') w' hworker
    dsimp only
    rw [← h.counted c']
    by_cases hc : c' = c
    · rw [hc] at hcount ⊢
      rw [Function.update_self]
      omega
    · rw [hlenOther c' hc] at hcount
      rw [Function.update_of_ne hc]
      omega

theorem holds_toNat (x : SqlConnection κ) (queried : Bool) :
    (SqlWorker.holds x (.holding c conn queried)).toNat = if conn = x then 1 else 0 := by
  by_cases hconn : conn = x
  · simp only [SqlWorker.holds, hconn, decide_true, Bool.toNat_true, if_true]
  · simp only [SqlWorker.holds, hconn, decide_false, Bool.toNat_false, if_false]

theorem holdsOf_toNat (c c' : κ) (queried : Bool) :
    (SqlWorker.holdsOf c' (.holding c conn queried)).toNat = if c = c' then 1 else 0 := by
  by_cases hc : c = c'
  · simp only [SqlWorker.holdsOf, hc, decide_true, Bool.toNat_true, if_true]
  · simp only [SqlWorker.holdsOf, hc, decide_false, Bool.toNat_false, if_false]

theorem not_holds (howner : conn.owner = c) (queried : Bool) {x : SqlConnection κ} (hx : x.owner ≠ c) :
    SqlWorker.holds x (.holding c conn queried) = false := by
  apply decide_eq_false
  intro heq
  exact hx (heq ▸ howner)

theorem not_holdsOf (conn : SqlConnection κ) (queried : Bool) {c' : κ} (hc : c' ≠ c) :
    SqlWorker.holdsOf c' (.holding c conn queried) = false :=
  decide_eq_false fun heq => hc heq.symm

theorem Ledger.popped {rest : List (SqlConnection κ)} (h : Ledger threadNum s)
    (hworker : s.workers = before ++ .tasked c :: after) (hque : s.que c = conn :: rest) :
    Ledger threadNum { s with
      workers := before ++ .holding c conn false :: after
      que := Function.update s.que c rest } := by
  have hhome := h.home c
  rw [hque, List.forall_mem_cons] at hhome
  obtain ⟨howner, hrest⟩ := hhome
  apply h.requeued (.holding c conn false) hworker hrest
  · simp [howner]
  · intro x _
    rw [holds_toNat, hque, List.count_cons]
    simp only [beq_iff_eq, SqlWorker.holds, Bool.toNat_false, Nat.add_zero]
  · intro x hx
    exact not_holds howner false hx
  · rw [holdsOf_toNat, if_pos rfl, hque, List.length_cons]
    rfl
  · intro c' hc
    exact not_holdsOf conn false hc
  · exact fun _ => rfl

theorem Ledger.push (h : Ledger threadNum s)
    (hworker : s.workers = before ++ .holding c conn true :: after) :
    Ledger threadNum { s with
      workers := before ++ .idle :: after
      que := Function.update s.que c (s.que c ++ [conn]) } := by
  have howner : conn.owner = c := by
    apply h.held c conn true
    rw [hworker]
    exact List.mem_append_right _ List.mem_cons_self
  apply h.requeued .idle hworker
  · intro x hx
    rcases List.mem_append.mp hx with hold | hnew
    · exact h.home c x hold
    · rw [List.mem_singleton.mp hnew, howner]
  · simp
  · intro x _
    rw [holds_toNat, List.count_append, List.count_singleton]
    simp only [beq_iff_eq, SqlWorker.holds, Bool.toNat_false, Nat.add_zero]
  · intro x hx
    exact (not_holds howner true hx).symm
  · rw [holdsOf_toNat, if_pos rfl, List.length_append, List.length_singleton]
    rfl
  · intro c' hc
    exact (not_holdsOf conn true hc).symm
  · exact fun _ => rfl

theorem Ledger.initialised (h : Ledger threadNum s)
    (hworker : s.workers = before ++ .creating c :: after) :
    Ledger threadNum { s with
      workers := before ++ .holding c ⟨c, s.created c⟩ false :: after
      created := Function.update s.created c (s.created c + 1) } := by
  refine ⟨(length_replaced _ hworker).trans h.size, h.home, h.held_replaced hworker (by simp), ?_,
    ?_, ?_⟩
  · intro x
    have hcount := countP_replaced (SqlWorker.holds x) (.holding c ⟨c, s.created c⟩ false) hworker
    have hplaces := h.places x
    dsimp only
    by_cases hx : x.owner = c
    · rw [holds_toNat] at hcount
      have hnew : (⟨c, s.created c⟩ : SqlConnection κ) = x ↔ x.number = s.created c := by
        rw [← hx]
        constructor
        · intro heq
          rw [← heq]
        · intro heq
          rw [← heq]
      rw [if_congr hnew rfl rfl] at hcount
      simp only [SqlWorker.holds, Bool.toNat_false] at hcount
      rw [hx] at hplaces ⊢
      simp only [Function.update_self]
      split_ifs at hcount hplaces ⊢ <;> omega
    · have hother : SqlWorker.holds x (.holding c ⟨c, s.created c⟩ false) = false :=
        not_holds rfl false hx
      rw [hother] at hcount
      simp only [SqlWorker.holds, Bool.toNat_false] at hcount
      simp only [Function.update_of_ne hx, ← hplaces]
      omega
  · intro c'
    have hcount := countP_replaced (SqlWorker.holdsOf c') (.holding c ⟨c, s.created c⟩ false) hworker
    have hcounted := h.counted c'
    dsimp only
    by_cases hc : c' = c
    · rw [hc] at hcount hcounted ⊢
      rw [holdsOf_toNat, if_pos rfl] at hcount
      simp only [SqlWorker.holdsOf, Bool.toNat_false] at hcount
      rw [Function.update_self]
      omega
    · rw [not_holdsOf _ false hc] at hcount
      simp only [SqlWorker.holdsOf, Bool.toNat_false] at hcount
      rw [Function.update_of_ne hc]
      omega
  · intro c'
    have hcount := countP_replaced (SqlWorker.isCreating c') (.holding c ⟨c, s.created c⟩ false)
      hworker
    have hroom := h.room c'
    dsimp only
    by_cases hc : c' = c
    · rw [hc] at hcount hroom ⊢
      simp only [SqlWorker.isCreating, Bool.toNat_false, decide_true, Bool.toNat_true] at hcount
      rw [Function.update_self]
      omega
    · rw [Function.update_of_ne hc]
      simp only [SqlWorker.isCreating, Bool.toNat_false] at hcount
      omega

theorem Ledger.step {e : SqlEvent κ} (h : Ledger threadNum s) (hstep : Step s e t) :
    Ledger threadNum t := by
  cases hstep with
  | take c before after hworker =>
    apply h.moved (.tasked c) hworker (fun _ => rfl) (fun _ => rfl) (by simp)
    exact h.room_moved hworker fun _ => rfl
  | popped before after hworker hque => exact h.popped hworker hque
  | missed before after hworker hque => exact h.missed hworker hque
  | initialised before after hworker => exact h.initialised hworker
  | refused before after hworker =>
    apply h.moved .idle hworker (fun _ => rfl) (fun _ => rfl) (by simp)
    exact h.room_moved hworker fun _ => rfl
  | @query c conn before after hworker =>
    apply h.moved (.holding c conn true) hworker (fun _ => rfl) (fun _ => rfl)
    · intro c' conn' queried heq
      cases heq
      apply h.held c conn false
      rw [hworker]
      exact List.mem_append_right _ List.mem_cons_self
    · exact h.room_moved hworker fun _ => rfl
  | push before after hworker => exact h.push hworker

end

theorem connections_exclusive {threadNum : ℕ} {tr : List (SqlPool κ × SqlEvent κ)} {s : SqlPool κ}
    (hrun : Run Step (start threadNum) tr s) : Throughout (Exclusive threadNum) tr s := by
  have hledger : Throughout (Ledger threadNum) tr s := by
    apply hrun.throughout (G := fun _ _ => True) _ ledger_start
    · intro _ _
      trivial
    · intro t e u ht _ hstep
      exact ht.step hstep
  exact hledger.mono fun _ h => Exclusive.of_ledger h

theorem connection_reused :
    ∃ tr s, Run Step (start 2 : SqlPool ℕ) tr s ∧ tr.length = 7 ∧
      s.workers = [.idle, .holding 5 ⟨5, 0⟩ false] ∧ Throughout (Exclusive 2) tr s := by
  have h0 : Run Step (start 2 : SqlPool ℕ) [] (start 2) := .nil
  have h1 := h0.snoc (.take 5 [] [.idle] rfl)
  have h2 := h1.snoc (.missed [] [.idle] rfl rfl)
  have h3 := h2.snoc (.initialised [] [.idle] rfl)
  have h4 := h3.snoc (.query [] [.idle] rfl)
  have h5 := h4.snoc (.push [] [.idle] rfl)
  have h6 := h5.snoc (.take 5 [.idle] [] rfl)
  have h7 := h6.snoc (.popped [.idle] [] rfl rfl)
  exact ⟨_, _, h7, rfl, rfl, connections_exclusive h7⟩

end SqlPool
end GameRes.DBApp
