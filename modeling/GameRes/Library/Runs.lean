import Mathlib.Data.List.Basic

/-!
# Runs of labelled transition systems

A run records, step by step, the state it left and the event it took, so that
a property of every state reached and a condition on every step are both
statements about one list.
-/

namespace GameRes.Library
variable {σ ε : Type*} {Step : σ → ε → σ → Prop}

/-- `Run Step s tr t`: the steps of `tr`, taken from `s`, end in `t`. -/
inductive Run (Step : σ → ε → σ → Prop) (s : σ) : List (σ × ε) → σ → Prop where
  | nil : Run Step s [] s
  | snoc {tr t e u} : Run Step s tr t → Step t e u → Run Step s (tr ++ [(t, e)]) u

/-- Every step of the trace meets `G` in the state it is taken from. -/
def Meets (G : σ → ε → Prop) (tr : List (σ × ε)) : Prop := ∀ x ∈ tr, G x.1 x.2

/-- `P` holds in every state of a run with trace `tr` and last state `t`. -/
def Throughout (P : σ → Prop) (tr : List (σ × ε)) (t : σ) : Prop := (∀ x ∈ tr, P x.1) ∧ P t

theorem meets_nil (G : σ → ε → Prop) : Meets G [] := by
  intro x hx
  cases hx

theorem meets_snoc {G : σ → ε → Prop} {tr : List (σ × ε)} {t : σ} {e : ε} :
    Meets G (tr ++ [(t, e)]) ↔ Meets G tr ∧ G t e := by
  simp only [Meets, List.forall_mem_append, List.forall_mem_singleton]

theorem Meets.mono {G H : σ → ε → Prop} {tr : List (σ × ε)} (h : Meets G tr)
    (himp : ∀ s e, G s e → H s e) : Meets H tr :=
  fun x hx => himp _ _ (h x hx)

theorem Meets.and {G H : σ → ε → Prop} {tr : List (σ × ε)} (hG : Meets G tr)
    (hH : Meets H tr) : Meets (fun s e => G s e ∧ H s e) tr :=
  fun x hx => ⟨hG x hx, hH x hx⟩

theorem throughout_nil {P : σ → Prop} {s : σ} : Throughout (ε := ε) P [] s ↔ P s := by
  simp only [Throughout, List.not_mem_nil, false_implies, implies_true, true_and]

theorem throughout_snoc {P : σ → Prop} {tr : List (σ × ε)} {t u : σ} {e : ε} :
    Throughout P (tr ++ [(t, e)]) u ↔ Throughout P tr t ∧ P u := by
  simp only [Throughout, List.forall_mem_append, List.forall_mem_singleton]

theorem Throughout.mono {P Q : σ → Prop} {tr : List (σ × ε)} {t : σ} (h : Throughout P tr t)
    (himp : ∀ s, P s → Q s) : Throughout Q tr t :=
  ⟨fun x hx => himp _ (h.1 x hx), himp _ h.2⟩

/-- The induction rule for invariants under a condition on the steps. -/
theorem Run.throughout {I : σ → Prop} {G : σ → ε → Prop}
    (hstep : ∀ t e u, I t → G t e → Step t e u → I u) {s t : σ} {tr : List (σ × ε)}
    (hrun : Run Step s tr t) (hs : I s) (hG : Meets G tr) : Throughout I tr t := by
  induction hrun with
  | nil => exact throughout_nil.mpr hs
  | snoc hrun hlast ih =>
    obtain ⟨htr, he⟩ := meets_snoc.mp hG
    have hI := ih htr
    exact throughout_snoc.mpr ⟨hI, hstep _ _ _ hI.2 he hlast⟩

theorem Run.invariant_of_meets {I : σ → Prop} {G : σ → ε → Prop}
    (hstep : ∀ t e u, I t → G t e → Step t e u → I u) {s t : σ} {tr : List (σ × ε)}
    (hrun : Run Step s tr t) (hs : I s) (hG : Meets G tr) : I t :=
  (Run.throughout hstep hrun hs hG).2

/-- When the guard decides, step by step, whether a property is kept, it decides
whether the property holds throughout a run. -/
theorem Run.throughout_iff {P I : σ → Prop} {G : σ → ε → Prop}
    (hkeep : ∀ t e u, I t → G t e → Step t e u → I u)
    (hiff : ∀ t e u, I t → Step t e u → (P u ↔ G t e)) {s t : σ} {tr : List (σ × ε)}
    (hrun : Run Step s tr t) (hI : I s) (hP : P s) : Throughout P tr t ↔ Meets G tr := by
  induction hrun with
  | nil =>
    rw [throughout_nil]
    exact ⟨fun _ => meets_nil G, fun _ => hP⟩
  | snoc hprev hlast ih =>
    rw [throughout_snoc, meets_snoc, ih]
    apply and_congr_right
    intro htr
    exact hiff _ _ _ (hprev.invariant_of_meets hkeep hI htr) hlast

theorem Run.throughout_iff_self {P : σ → Prop} {G : σ → ε → Prop}
    (hiff : ∀ t e u, P t → Step t e u → (P u ↔ G t e)) {s t : σ} {tr : List (σ × ε)}
    (hrun : Run Step s tr t) (hP : P s) : Throughout P tr t ↔ Meets G tr := by
  apply hrun.throughout_iff _ hiff hP hP
  intro t e u ht he hstep
  exact (hiff t e u ht hstep).mpr he

theorem Run.append {s t u : σ} {tr tr' : List (σ × ε)} (h : Run Step s tr t)
    (h' : Run Step t tr' u) : Run Step s (tr ++ tr') u := by
  induction h' with
  | nil => rwa [List.append_nil]
  | snoc _ hlast ih =>
    rw [← List.append_assoc]
    exact ih.snoc hlast

/-- Forward simulation: where every step of one system is matched by a step of another,
or by none, every run of the one is matched by a run of the other. -/
theorem Run.simulate {σ' ε' : Type*} {Step' : σ' → ε' → σ' → Prop} {R : σ → σ' → Prop}
    {G : σ → ε → Prop} {G' : σ' → ε' → Prop}
    (hsim : ∀ t e u t', R t t' → G t e → Step t e u →
      R u t' ∨ ∃ e' u', Step' t' e' u' ∧ G' t' e' ∧ R u u')
    {s t : σ} {tr : List (σ × ε)} (hrun : Run Step s tr t) (hG : Meets G tr) {s' : σ'} (hs : R s s') :
    ∃ tr' t', Run Step' s' tr' t' ∧ Meets G' tr' ∧ R t t' := by
  induction hrun with
  | nil => exact ⟨[], s', Run.nil, meets_nil G', hs⟩
  | snoc _ hlast ih =>
    obtain ⟨htr, he⟩ := meets_snoc.mp hG
    obtain ⟨tr', t', hrun', hG', ht⟩ := ih htr
    rcases hsim _ _ _ t' ht he hlast with hsame | ⟨e', u', hnext, he', hu⟩
    · exact ⟨tr', t', hrun', hG', hsame⟩
    · exact ⟨_, u', hrun'.snoc hnext, meets_snoc.mpr ⟨hG', he'⟩, hu⟩

/-- Where a measure can be brought down by steps of a kind until `done`, such steps
lead to `done`. -/
theorem Run.exists_done {I done : σ → Prop} {G : ε → Prop} (μ : σ → ℕ)
    (hstep : ∀ s, I s → ¬done s → ∃ e u, Step s e u ∧ G e ∧ I u ∧ μ u < μ s) {s : σ} (hs : I s) :
    ∃ tr u, Run Step s tr u ∧ (∀ x ∈ tr, G x.2) ∧ I u ∧ done u := by
  induction hn : μ s using Nat.strongRecOn generalizing s with
  | ind n ih =>
    by_cases hdone : done s
    · exact ⟨[], s, Run.nil, fun x hx => absurd hx List.not_mem_nil, hs, hdone⟩
    · obtain ⟨e, t, hnext, he, ht, hlt⟩ := hstep s hs hdone
      obtain ⟨tr, u, hrun, htr, hu⟩ := ih (μ t) (hn ▸ hlt) ht rfl
      refine ⟨[(s, e)] ++ tr, u, (Run.nil.snoc hnext).append hrun, ?_, hu⟩
      exact List.forall_mem_append.mpr ⟨fun x hx => List.mem_singleton.mp hx ▸ he, htr⟩

/-! ### Counting entries -/

theorem countP_insert {α : Type*} (p : α → Bool) (xs ys : List α) (x : α) :
    (xs ++ x :: ys).countP p = (xs ++ ys).countP p + (p x).toNat := by
  rw [List.countP_append, List.countP_append, List.countP_cons]
  cases p x with
  | false => rfl
  | true => exact (Nat.add_assoc _ _ _).symm

theorem countP_snoc {α : Type*} (p : α → Bool) (xs : List α) (x : α) :
    (xs ++ [x]).countP p = xs.countP p + (p x).toNat := by
  have h := countP_insert p xs [] x
  rwa [List.append_nil] at h

/-! ### One entry replaced -/

section
variable {α : Type*} {xs ys zs : List α} {x : α}

theorem length_replaced (y : α) (h : zs = xs ++ x :: ys) : (xs ++ y :: ys).length = zs.length := by
  rw [h, List.length_append, List.length_append, List.length_cons, List.length_cons]

theorem countP_replaced (p : α → Bool) (y : α) (h : zs = xs ++ x :: ys) :
    (xs ++ y :: ys).countP p + (p x).toNat = zs.countP p + (p y).toNat := by
  rw [h, countP_insert, countP_insert]
  omega

theorem mem_replaced {y z : α} (h : zs = xs ++ x :: ys) (hz : z ∈ xs ++ y :: ys) : z = y ∨ z ∈ zs := by
  rw [h]
  rcases List.mem_append.mp hz with hxs | hrest
  · exact Or.inr (List.mem_append_left _ hxs)
  · rcases List.mem_cons.mp hrest with hy | hys
    · exact Or.inl hy
    · exact Or.inr (List.mem_append_right _ (List.mem_cons_of_mem _ hys))

theorem getElem?_middle : (xs ++ x :: ys)[xs.length]? = some x := by
  rw [List.getElem?_append_right (Nat.le_refl _), Nat.sub_self, List.getElem?_cons_zero]

theorem getElem?_replaced {y : α} (i : ℕ) (hi : i ≠ xs.length) :
    (xs ++ y :: ys)[i]? = (xs ++ x :: ys)[i]? := by
  rcases Nat.lt_or_gt_of_ne hi with hlt | hgt
  · rw [List.getElem?_append_left hlt, List.getElem?_append_left hlt]
  · rw [List.getElem?_append_right (Nat.le_of_lt hgt), List.getElem?_append_right (Nat.le_of_lt hgt)]
    obtain ⟨k, hk⟩ := Nat.exists_eq_add_of_lt (Nat.sub_pos_of_lt hgt)
    rw [hk, Nat.zero_add, List.getElem?_cons_succ, List.getElem?_cons_succ]

end

theorem countP_add_countP_le {α : Type*} {p q : α → Bool} (h : ∀ x, p x = true → q x = false)
    (xs : List α) : xs.countP p + xs.countP q ≤ xs.length := by
  have hother : xs.countP q ≤ xs.countP fun x => ¬p x = true := by
    apply List.countP_mono_left
    intro x _ hq
    rw [decide_eq_true_eq]
    intro hp
    rw [h x hp] at hq
    cases hq
  rw [List.length_eq_countP_add_countP p]
  omega

end GameRes.Library
