import GameRes.NetApp.TCPServer

/-!
# The two maps and the free list (NetApp/NetFrame.cpp:308-348)

What `GetConnectionID`, `AddConnection` and `ReleaseConnection` keep of the
tables: the maps stay inverse of each other, and every id handed out so far is
either online or in the free list.
-/

namespace GameRes.NetApp
open Library

namespace TCPServer
variable {γ : Type}

/-- `m_OnlineStream` and `m_OnlineID` are inverse of each other. -/
def Inverse (s : TCPServer γ) : Prop :=
  ∀ p k, s.onlineStream.lookup p = some k ↔ s.onlineID.lookup k = some p

/-- The ids from one to the maximum are the free and the online ones. -/
structure Numbered (s : TCPServer γ) : Prop where
  range : ∀ k, k ≠ 0 ∧ k ≤ s.maxConnectionID ↔ k ∈ s.connectionID ∨ ∃ p, s.onlineID.lookup k = some p
  free : ∀ k ∈ s.connectionID, s.onlineID.lookup k = none
  nodup : s.connectionID.Nodup

theorem inverse_empty : Inverse ({} : TCPServer γ) := by
  intro p k
  simp

theorem numbered_empty : Numbered ({} : TCPServer γ) := by
  refine ⟨fun k => ?_, by simp, List.nodup_nil⟩
  simp only [AList.lookup_empty, List.not_mem_nil, reduceCtorEq, exists_false, or_false, iff_false,
    not_and]
  intro hk hle
  exact hk (by bv_omega)

theorem Inverse.stream_inj {s : TCPServer γ} (h : s.Inverse) {p q : Ptr} {k : ConnID}
    (hp : s.onlineID.lookup k = some p) (hq : s.onlineStream.lookup q = some k) : q = p := by
  have hq' := (h q k).mp hq
  rw [hp] at hq'
  exact (Option.some.inj hq').symm

theorem Inverse.id_inj {s : TCPServer γ} (h : s.Inverse) {p : Ptr} {j k : ConnID}
    (hj : s.onlineID.lookup j = some p) (hk : s.onlineStream.lookup p = some k) : j = k := by
  have hj' := (h p j).mpr hj
  rw [hk] at hj'
  exact (Option.some.inj hj').symm

/-! ### Adding and releasing a connection -/

theorem Inverse.addConnection {s : TCPServer γ} (h : s.Inverse) {k : ConnID} {p : Ptr}
    (hp : s.onlineStream.lookup p = none) (hk : s.onlineID.lookup k = none) :
    (s.addConnection k p).Inverse := by
  intro q j
  simp only [TCPServer.addConnection]
  by_cases hq : q = p <;> by_cases hj : j = k
  · subst hq hj
    simp only [AList.lookup_insert]
  · subst hq
    have hno : s.onlineID.lookup j ≠ some q := fun hjq => by
      have hqj := (h q j).mpr hjq
      rw [hp] at hqj
      exact absurd hqj (by simp)
    rw [AList.lookup_insert, AList.lookup_insert_ne hj]
    exact ⟨fun hkj => absurd (Option.some.inj hkj).symm hj, fun hjq => absurd hjq hno⟩
  · subst hj
    have hno : s.onlineStream.lookup q ≠ some j := fun hqj => by
      have hjq := (h q j).mp hqj
      rw [hk] at hjq
      exact absurd hjq (by simp)
    rw [AList.lookup_insert, AList.lookup_insert_ne hq]
    exact ⟨fun hqj => absurd hqj hno, fun hpq => absurd (Option.some.inj hpq).symm hq⟩
  · rw [AList.lookup_insert_ne hq, AList.lookup_insert_ne hj]
    exact h q j

theorem Inverse.releaseConnection_eq {s : TCPServer γ} (h : s.Inverse) {k : ConnID} {p : Ptr}
    (hp : s.onlineStream.lookup p = some k) {order : List ConnID}
    (horder : order.Perm s.onlineID.keys) :
    s.releaseConnection order p =
      { s with
        connectionID := s.connectionID ++ [k]
        onlineID := s.onlineID.erase k
        onlineStream := s.onlineStream.erase p } := by
  have hk := (h p k).mp hp
  have hmem : k ∈ order := by
    rw [horder.mem_iff, ← AList.mem_keys, ← AList.lookup_isSome, hk]
    rfl
  cases hfind : order.find? fun id => s.onlineID.lookup id = some p with
  | none =>
    have hnone := List.find?_eq_none.mp hfind k hmem
    simp [hk] at hnone
  | some j =>
    have hj : s.onlineID.lookup j = some p := by simpa using List.find?_some hfind
    rw [h.id_inj hj hp] at hfind
    simp only [TCPServer.releaseConnection, hfind]

theorem Inverse.erase {s t : TCPServer γ} (h : s.Inverse) {k : ConnID} {p : Ptr}
    (hp : s.onlineStream.lookup p = some k) (hid : t.onlineID = s.onlineID.erase k)
    (hstream : t.onlineStream = s.onlineStream.erase p) : t.Inverse := by
  have hk := (h p k).mp hp
  intro q j
  rw [hid, hstream]
  by_cases hq : q = p <;> by_cases hj : j = k
  · subst hq hj
    simp only [AList.lookup_erase, reduceCtorEq]
  · subst hq
    rw [AList.lookup_erase, AList.lookup_erase_ne hj]
    exact ⟨fun hn => absurd hn (by simp), fun hjq => absurd (h.id_inj hjq hp) hj⟩
  · subst hj
    rw [AList.lookup_erase, AList.lookup_erase_ne hq]
    exact ⟨fun hqj => absurd (h.stream_inj hk hqj) hq, fun hn => absurd hn (by simp)⟩
  · rw [AList.lookup_erase_ne hq, AList.lookup_erase_ne hj]
    exact h q j

/-! ### Handing out ids -/

/-- While a non-null stream is not online, some id is free: there are as many
non-null addresses as non-zero ids. -/
theorem Inverse.exists_offline {s : TCPServer γ} (h : s.Inverse)
    (hnull : s.onlineStream.lookup 0 = none) {p : Ptr} (hp0 : p ≠ 0)
    (hp : s.onlineStream.lookup p = none) : ∃ k ≠ 0, s.onlineID.lookup k = none := by
  by_contra hall
  push Not at hall
  let f : ConnID → Ptr := fun k => if k = 0 then 0 else (s.onlineID.lookup k).getD 0
  have hf : ∀ k, k ≠ 0 → s.onlineID.lookup k = some (f k) := by
    intro k hk
    obtain ⟨q, hq⟩ := Option.ne_none_iff_exists'.mp (hall k hk)
    simp only [f, if_neg hk, hq, Option.getD_some]
  have hoff : ∀ q, s.onlineStream.lookup q = none → ∀ k, k ≠ 0 → f k ≠ q := by
    intro q hq k hk hfk
    have hon := (h q k).mpr (hfk ▸ hf k hk)
    rw [hq] at hon
    exact absurd hon (by simp)
  have hinj : Function.Injective f := by
    intro j k hjk
    by_cases hj : j = 0 <;> by_cases hk : k = 0
    · rw [hj, hk]
    · exact absurd (by simpa [f, hj] using hjk.symm) (hoff 0 hnull k hk)
    · exact absurd (by simpa [f, hk] using hjk) (hoff 0 hnull j hj)
    · exact h.id_inj (hjk ▸ hf j hj) ((h _ k).mpr (hf k hk))
  have : Finite (BitVec 32) := Finite.of_injective BitVec.toFin fun _ _ => BitVec.eq_of_toFin_eq
  obtain ⟨k, hk⟩ := Finite.surjective_of_injective hinj p
  by_cases hk0 : k = 0
  · rw [hk0] at hk
    exact hp0 (by simpa [f] using hk.symm)
  · exact hoff p hp k hk0 hk

structure HandsOut (s t : TCPServer γ) (k : ConnID) : Prop where
  offline : s.onlineID.lookup k = none
  range : ∀ j, j ≠ 0 ∧ j ≤ t.maxConnectionID ↔
    j = k ∨ j ∈ t.connectionID ∨ ∃ p, s.onlineID.lookup j = some p
  taken : k ∉ t.connectionID
  free : ∀ j ∈ t.connectionID, s.onlineID.lookup j = none
  nodup : t.connectionID.Nodup

theorem Numbered.getConnectionID {s : TCPServer γ} (h : s.Numbered)
    (hoff : ∃ k ≠ 0, s.onlineID.lookup k = none) :
    HandsOut s s.getConnectionID.2 s.getConnectionID.1 := by
  unfold TCPServer.getConnectionID
  split
  next hnil =>
    have hrange : ∀ k, k ≠ 0 ∧ k ≤ s.maxConnectionID ↔ ∃ p, s.onlineID.lookup k = some p := by
      intro k
      rw [h.range, hnil]
      simp
    obtain ⟨k, hk0, hk⟩ := hoff
    have hmax : s.maxConnectionID.toNat + 1 < 2 ^ 32 := by
      have hnle : ¬k ≤ s.maxConnectionID := fun hle => by
        obtain ⟨p, hp⟩ := (hrange k).mp ⟨hk0, hle⟩
        rw [hk] at hp
        exact absurd hp (by simp)
      bv_omega
    refine ⟨?_, fun j => ?_, by simp [hnil], by simp [hnil], by simp [hnil]⟩
    · by_contra hon
      obtain ⟨p, hp⟩ := Option.ne_none_iff_exists'.mp hon
      have hle := ((hrange _).mpr ⟨p, hp⟩).2
      bv_omega
    · have hj := hrange j
      simp only [hnil, List.not_mem_nil, false_or]
      rw [← hj]
      constructor
      · intro hle
        by_cases hjk : j = s.maxConnectionID + 1
        · exact Or.inl hjk
        · exact Or.inr ⟨hle.1, by bv_omega⟩
      · rintro (rfl | hle)
        · exact ⟨by bv_omega, BitVec.le_refl _⟩
        · exact ⟨hle.1, by bv_omega⟩
  next id rest hcons =>
    have hnodup := h.nodup
    rw [hcons, List.nodup_cons] at hnodup
    have hmem : ∀ j, j ∈ s.connectionID ↔ j = id ∨ j ∈ rest := by
      intro j
      rw [hcons, List.mem_cons]
    refine ⟨h.free id ((hmem id).mpr (Or.inl rfl)), fun j => ?_, hnodup.1,
      fun j hj => h.free j ((hmem j).mpr (Or.inr hj)), hnodup.2⟩
    rw [h.range, hmem, or_assoc]

theorem Numbered.addConnection {s t : TCPServer γ} {k : ConnID} {p : Ptr} (h : HandsOut s t k)
    (hsame : t.onlineID = s.onlineID) : (t.addConnection k p).Numbered := by
  refine ⟨fun j => ?_, fun j hj => ?_, h.nodup⟩
  · simp only [TCPServer.addConnection, hsame]
    rw [h.range]
    by_cases hj : j = k
    · subst hj
      simp
    · simp only [hj, false_or, AList.lookup_insert_ne hj]
  · have hne : j ≠ k := fun hjk => h.taken (hjk ▸ hj)
    simp only [TCPServer.addConnection, hsame, AList.lookup_insert_ne hne]
    exact h.free j hj

theorem Numbered.release {s t : TCPServer γ} (h : s.Numbered) {k : ConnID} {p : Ptr}
    (hk : s.onlineID.lookup k = some p) (hfree : t.connectionID = s.connectionID ++ [k])
    (hid : t.onlineID = s.onlineID.erase k) (hmax : t.maxConnectionID = s.maxConnectionID) :
    t.Numbered := by
  have hoff : k ∉ s.connectionID := fun hmem => by
    have hnone := h.free k hmem
    rw [hk] at hnone
    exact absurd hnone (by simp)
  refine ⟨fun j => ?_, fun j hj => ?_, ?_⟩
  · rw [hmax, h.range, hfree, hid, List.mem_append, List.mem_singleton]
    by_cases hj : j = k
    · subst hj
      simp [hk]
    · simp only [hj, or_false, AList.lookup_erase_ne hj]
  · rw [hid]
    by_cases hjk : j = k
    · rw [hjk, AList.lookup_erase]
    · rw [hfree, List.mem_append, List.mem_singleton] at hj
      rw [AList.lookup_erase_ne hjk]
      exact h.free j (hj.resolve_right hjk)
  · rw [hfree, List.nodup_append]
    refine ⟨h.nodup, List.nodup_singleton k, fun a ha b hb hab => hoff ?_⟩
    rw [← List.mem_singleton.mp hb, ← hab]
    exact ha

end TCPServer
end GameRes.NetApp
