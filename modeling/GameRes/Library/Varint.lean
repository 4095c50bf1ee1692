import GameRes.Library.Readers

/-!
# Base-128 varints

Numbers as seven-bit groups, the lowest first, every byte but the last with its
high bit set. A reader takes at most `k` bytes. It accepts more than the writer
produces: groups of zeros may follow the highest group that is not zero.
-/

namespace GameRes.Library

/-- The encoding of `n`, with at most `k` bytes to hold it. -/
def varint : ℕ → ℕ → Bytes
  | 0, _ => []
  | k + 1, n =>
    if n < 128 then [BitVec.ofNat 8 n]
    else BitVec.ofNat 8 (n % 128 + 128) :: varint k (n / 128)

def takeVarint : ℕ → Reader ℕ
  | 0, _ => none
  | _ + 1, [] => none
  | k + 1, b :: bs =>
    if b.toNat < 128 then some (b.toNat, bs)
    else (takeVarint k bs).map fun x => (b.toNat - 128 + 128 * x.1, x.2)

/-! ### Encodings -/

theorem varint_one {k n : ℕ} (h : n < 128) : varint (k + 1) n = [BitVec.ofNat 8 n] := by
  rw [varint, if_pos h]

theorem varint_more {k n : ℕ} (h : 128 ≤ n) :
    varint (k + 1) n = BitVec.ofNat 8 (n % 128 + 128) :: varint k (n / 128) := by
  rw [varint, if_neg (Nat.not_lt.mpr h)]

theorem div_lt_pow {k n : ℕ} (h : n < 128 ^ (k + 1)) : n / 128 < 128 ^ k := by
  rw [pow_succ] at h
  exact Nat.div_lt_of_lt_mul (by rwa [Nat.mul_comm])

theorem varint_length_pos (k n : ℕ) : 0 < (varint (k + 1) n).length := by
  rw [varint]
  split <;> exact Nat.succ_pos _

theorem varint_ne_nil (k n : ℕ) : varint (k + 1) n ≠ [] :=
  List.length_pos_iff.mp (varint_length_pos k n)

theorem varint_length_le (k n : ℕ) : (varint k n).length ≤ k := by
  induction k generalizing n with
  | zero => exact Nat.le_refl 0
  | succ k ih =>
    rw [varint]
    split
    · simp only [List.length_singleton]
      omega
    · exact Nat.succ_le_succ (ih (n / 128))

/-- `n` has `j + 1` seven-bit groups. -/
def Groups (n j : ℕ) : Prop := n < 128 ^ (j + 1) ∧ (j = 0 ∨ 128 ^ j ≤ n)

theorem Groups.div {n j : ℕ} (h : Groups n (j + 1)) : 128 ≤ n ∧ Groups (n / 128) j := by
  have hge : 128 ^ j * 128 ≤ n := by
    rw [← pow_succ]
    exact h.2.resolve_left (Nat.succ_ne_zero j)
  have hpos : 0 < 128 ^ j := Nat.pow_pos (by decide)
  refine ⟨by omega, div_lt_pow h.1, Or.inr ?_⟩
  rw [Nat.le_div_iff_mul_le (by decide)]
  exact hge

theorem varint_length {k n j : ℕ} (h : Groups n j) (hk : j < k) : (varint k n).length = j + 1 := by
  induction j generalizing k n with
  | zero =>
    obtain ⟨k, rfl⟩ := Nat.exists_eq_succ_of_ne_zero (Nat.ne_of_gt hk)
    rw [varint_one (by simpa using h.1), List.length_singleton]
  | succ j ih =>
    obtain ⟨k, rfl⟩ := Nat.exists_eq_succ_of_ne_zero (Nat.ne_of_gt (Nat.zero_lt_of_lt hk))
    obtain ⟨hmore, hdiv⟩ := h.div
    rw [varint_more hmore, List.length_cons, ih hdiv (by omega)]

theorem varint_groups {k n j : ℕ} (h : Groups n j) (hk : j < k) :
    varint k n = (List.range j).map (fun i => BitVec.ofNat 8 (n / 128 ^ i % 128 + 128)) ++
      [BitVec.ofNat 8 (n / 128 ^ j)] := by
  induction j generalizing k n with
  | zero =>
    obtain ⟨k, rfl⟩ := Nat.exists_eq_succ_of_ne_zero (Nat.ne_of_gt hk)
    rw [varint_one (by simpa using h.1), List.range_zero, List.map_nil, List.nil_append, pow_zero,
      Nat.div_one]
  | succ j ih =>
    obtain ⟨k, rfl⟩ := Nat.exists_eq_succ_of_ne_zero (Nat.ne_of_gt (Nat.zero_lt_of_lt hk))
    obtain ⟨hmore, hdiv⟩ := h.div
    have hpow : ∀ i, n / 128 / 128 ^ i = n / 128 ^ (i + 1) := by
      intro i
      rw [Nat.div_div_eq_div_mul, pow_succ, Nat.mul_comm]
    rw [varint_more hmore, ih hdiv (by omega), List.range_succ_eq_map, List.map_cons, List.map_map,
      pow_zero, Nat.div_one, List.cons_append]
    simp only [hpow, Function.comp_def, Nat.succ_eq_add_one]

/-- Room for more groups than there are changes nothing. -/
theorem varint_room {j k n : ℕ} (hn : n < 128 ^ j) (hjk : j ≤ k) (hj : 0 < j) :
    varint k n = varint j n := by
  induction j generalizing k n with
  | zero => exact absurd hj (Nat.lt_irrefl 0)
  | succ j ih =>
    obtain ⟨k, rfl⟩ := Nat.exists_eq_add_of_le hjk
    rw [Nat.add_right_comm]
    by_cases hone : n < 128
    · rw [varint_one hone, varint_one hone]
    · have hmore : 128 ≤ n := Nat.not_lt.mp hone
      have hj' : 0 < j := by
        apply Nat.pos_of_ne_zero
        intro heq
        rw [heq, Nat.zero_add, pow_one] at hn
        exact hone hn
      rw [varint_more hmore, varint_more hmore, ih (div_lt_pow hn) (Nat.le_add_right j k) hj']

/-- A number other than zero has no zero byte in its encoding. -/
theorem zero_notMem_varint {k n : ℕ} (hn : n < 128 ^ k) (h0 : n ≠ 0) : (0 : Byte) ∉ varint k n := by
  induction k generalizing n with
  | zero => exact List.not_mem_nil
  | succ k ih =>
    have hofNat : ∀ m : ℕ, 0 < m → m < 256 → (0 : Byte) ≠ BitVec.ofNat 8 m := by
      intro m hpos hlt heq
      have hval := congrArg BitVec.toNat heq
      rw [BitVec.toNat_ofNat, Nat.mod_eq_of_lt hlt] at hval
      exact absurd hval.symm (Nat.ne_of_gt hpos)
    by_cases hone : n < 128
    · rw [varint_one hone, List.mem_singleton]
      exact hofNat n (Nat.pos_of_ne_zero h0) (by omega)
    · have hmore : 128 ≤ n := Nat.not_lt.mp hone
      have hdiv : n / 128 ≠ 0 := by omega
      rw [varint_more hmore, List.mem_cons, not_or]
      exact ⟨hofNat _ (by omega) (by omega), ih (div_lt_pow hn) hdiv⟩

/-! ### Reading -/

theorem takeVarint_reads {k n : ℕ} (hn : n < 128 ^ (k + 1)) :
    (takeVarint (k + 1)).Reads (varint (k + 1) n) n := by
  intro rest
  induction k generalizing n with
  | zero =>
    have hone : n < 128 := by simpa using hn
    have hval : (BitVec.ofNat 8 n).toNat = n := by
      rw [BitVec.toNat_ofNat, Nat.mod_eq_of_lt (by omega)]
    rw [varint_one hone, List.singleton_append, takeVarint, hval, if_pos hone]
  | succ k ih =>
    by_cases hone : n < 128
    · have hval : (BitVec.ofNat 8 n).toNat = n := by
        rw [BitVec.toNat_ofNat, Nat.mod_eq_of_lt (by omega)]
      rw [varint_one hone, List.singleton_append, takeVarint, hval, if_pos hone]
    · have hval : (BitVec.ofNat 8 (n % 128 + 128)).toNat = n % 128 + 128 := by
        rw [BitVec.toNat_ofNat, Nat.mod_eq_of_lt (by omega)]
      rw [varint_more (Nat.not_lt.mp hone), List.cons_append, takeVarint, hval,
        if_neg (by omega), ih (div_lt_pow hn), Option.map_some]
      rw [show n % 128 + 128 - 128 + 128 * (n / 128) = n by omega]

/-- What a varint takes: at least one byte and at most `k`, for a number of as many groups. -/
theorem takeVarint_some {k : ℕ} {bs rest : Bytes} {n : ℕ} (h : takeVarint k bs = some (n, rest)) :
    ∃ front, bs = front ++ rest ∧ 0 < front.length ∧ front.length ≤ k ∧ n < 128 ^ front.length ∧
      (takeVarint k).Reads front n := by
  induction k generalizing bs n with
  | zero =>
    rw [takeVarint] at h
    cases h
  | succ k ih =>
    cases bs with
    | nil =>
      rw [takeVarint] at h
      cases h
    | cons b bs =>
      rw [takeVarint] at h
      split_ifs at h with hlast
      · cases h
        refine ⟨[b], rfl, Nat.one_pos, by simp, by simpa using hlast, fun more => ?_⟩
        rw [List.singleton_append, takeVarint, if_pos hlast]
      · obtain ⟨x, hx, heq⟩ := Option.map_eq_some_iff.mp h
        obtain ⟨rfl, rfl⟩ := Prod.mk.inj heq
        obtain ⟨front, rfl, hpos, hle, hlt, hreads⟩ := ih hx
        refine ⟨b :: front, rfl, Nat.succ_pos _, Nat.succ_le_succ hle, ?_, fun more => ?_⟩
        · have hb := b.isLt
          rw [List.length_cons, pow_succ]
          omega
        · rw [List.cons_append, takeVarint, if_neg hlast, hreads, Option.map_some]

theorem takeVarint_local (k : ℕ) : (takeVarint k).Local := by
  intro bs n rest h
  obtain ⟨front, hbs, -, -, -, hreads⟩ := takeVarint_some h
  exact ⟨front, hbs, hreads⟩

theorem takeVarint_advances (k : ℕ) : (takeVarint k).Advances := by
  intro bs n rest h
  obtain ⟨front, rfl, hpos, -⟩ := takeVarint_some h
  rw [List.length_append]
  omega

end GameRes.Library
