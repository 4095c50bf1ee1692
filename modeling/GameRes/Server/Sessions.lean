import GameRes.Server.Teardown

/-!
# Sessions on the receive queue (NetApp/NetFrame.cpp:39-76, 123-165, 308-368)

`after_read` tags every chunk with the id of its stream and pushes a message
without a buffer at the end of the stream. Ids are given again, but never before
the end of the connection that had them, so what is tagged with one id is the
concatenation of what the connections with that id delivered.
-/

namespace GameRes.Server
open Library NetApp

def pushes (w : World) : List Message := w.popped ++ w.srv.recvMessage

/-- The bytes of a message, `none` for a message without a buffer. -/
def content (m : Message) : Option Bytes := m.buf.map (·.take m.len.toNat)

def tagged (k : ConnID) (w : World) : List (Option Bytes) :=
  ((pushes w).filter (·.conn = k)).map content

/-- What libuv delivered on connection number `n`. -/
def delivered (n : ℕ) (w : World) : List (Option Bytes) :=
  (w.reads.filter (·.1 = n)).map (·.2)

/-- The connections that were given an id, in order of acceptance. -/
def accepted (k : ConnID) (w : World) : List ℕ :=
  (List.range w.given.length).filter fun n => w.given[n]? = some k

def Unfinished (xs : List (Option Bytes)) : Prop := ∃ chunks : List Bytes, xs = chunks.map some

def Finished (xs : List (Option Bytes)) : Prop :=
  ∃ chunks : List Bytes, xs = chunks.map some ++ [none]

/-- What holds of the pushes between callbacks. -/
structure Separated (w : World) : Prop where
  tagged : ∀ k, tagged k w = (accepted k w).flatMap (delivered · w)
  live : ∀ p n, w.seen p = some (n, false) → Unfinished (delivered n w)
  gone : ∀ n < w.given.length, (∃ p, w.seen p = some (n, false)) ∨ Finished (delivered n w)
  last : ∀ p n, w.seen p = some (n, false) → ∀ n' > n, w.given[n']? ≠ w.given[n]?
  reads : ∀ r ∈ w.reads, r.1 < w.given.length
  own : ∀ m ∈ pushes w, ∃ n, m.origin = some n ∧ w.given[n]? = some m.conn
  null : ∀ m ∈ pushes w, m.buf = none → m.len = 0

/-! ### What a step delivers -/

structure Still (w u : World) : Prop where
  pushes : pushes u = pushes w
  reads : u.reads = w.reads
  given : u.given = w.given
  seen : ∀ p n, u.seen p = some (n, false) ↔ w.seen p = some (n, false)

/-- A step that delivers `x` on connection `n`. -/
structure Arrival (w u : World) (n : ℕ) (x : Option Bytes) : Prop where
  live : ∃ p, w.seen p = some (n, false)
  push : ∃ m, pushes u = pushes w ++ [m] ∧ content m = x ∧ m.origin = some n ∧
    w.given[n]? = some m.conn ∧ (m.buf = none → m.len = 0)
  reads : u.reads = w.reads ++ [(n, x)]
  given : u.given = w.given
  seen : ∀ p j, u.seen p = some (j, false) ↔ w.seen p = some (j, false) ∧ (x = none → j ≠ n)

theorem arrival_readData {w : World} (hs : Sound w) {p : Ptr} {a : Handle} {chunk rest : Bytes}
    (hread : Reading w p a) (hne : chunk ≠ []) (hlen : chunk.length < 2 ^ 31) :
    Arrival w (w.readData p a chunk rest) a.serial (some chunk) := by
  obtain ⟨k, hk, -, heq⟩ := hs.readData_eq hread hne
  rw [heq]
  refine ⟨⟨p, hread.seen⟩, ⟨_, (List.append_assoc _ _ _).symm, ?_, rfl, hk, nofun⟩, rfl, rfl,
    fun q j => ?_⟩
  · have hnat : (BitVec.ofInt 32 (chunk.length : ℤ)).toNat = chunk.length := by
      rw [BitVec.toNat_ofInt]
      omega
    simp only [content, Option.map_some, hnat, List.take_left]
  · simp [World.seen]

theorem arrival_released {w : World} (hs : Sound w) {p : Ptr} {a : Handle} {k : ConnID} (b : Bool)
    (hread : Reading w p a) (hk : w.given[a.serial]? = some k) :
    Arrival w (w.released p a k b) a.serial none := by
  refine ⟨⟨p, hread.seen⟩, ⟨_, (List.append_assoc _ _ _).symm, rfl, rfl, hk, fun _ => rfl⟩, rfl, rfl,
    fun q j => ?_⟩
  rw [released_seen]
  by_cases hq : q = p
  · rw [if_pos hq, hq, hread.seen]
    constructor
    · intro heq
      cases heq
    · intro hall
      obtain ⟨hj, hne⟩ := hall
      obtain rfl := (Prod.mk.inj (Option.some.inj hj)).1
      exact absurd rfl (hne rfl)
  · rw [if_neg hq]
    refine ⟨fun hj => ⟨hj, fun _ hjn => hq ?_⟩, And.left⟩
    exact hs.serial_inj q p j _ _ hj (hjn ▸ hread.seen)

theorem tick_popped (w : World) (ret : ℤ) :
    (w.tick ret).popped = w.popped ∧ (w.tick ret).reads = w.reads := by
  unfold World.tick World.act World.shutdown
  dsimp only
  split
  · exact ⟨rfl, rfl⟩
  · split <;> exact ⟨rfl, rfl⟩
  · exact ⟨rfl, rfl⟩

theorem still_pop (w : World) : Still w w.pop := by
  have hq := quiet_pop w
  have hboth : pushes w.pop = pushes w ∧ w.pop.reads = w.reads := by
    unfold World.pop
    cases hrecv : w.srv.recvMessage with
    | nil =>
      simp only [TCPServer.getRecvMessage, hrecv, and_self]
    | cons m rest =>
      simp only [TCPServer.getRecvMessage, hrecv, pushes, List.append_assoc, List.singleton_append,
        and_self]
  exact ⟨hboth.1, hboth.2, hq.given, fun p n => by rw [hq.seen]⟩

theorem step_delivers {w u : World} {e : Event} (hs : Sound w) (hclose : ClosesEnded w e)
    (hstep : Step w e u) :
    Still w u ∨ (∃ n x, Arrival w u n x) ∨
      ∃ p, e = .accept p ∧ p ≠ 0 ∧ w.heap p = none ∧ u = w.accept p := by
  cases hstep with
  | accept hnull hfree => exact Or.inr (Or.inr ⟨_, rfl, hnull, hfree, rfl⟩)
  | acceptFailed hfail =>
    left
    rw [TCPServer.onConnection_fail _ hfail]
    exact ⟨rfl, rfl, rfl, fun _ _ => Iff.rfl⟩
  | readData hread hne hlen => exact Or.inr (Or.inl ⟨_, _, arrival_readData hs hread hne hlen⟩)
  | readEnd hread hneg horder =>
    obtain ⟨k, b, hk, -, heq⟩ := hs.readEnd_eq hread hneg horder
    rw [heq]
    exact Or.inr (Or.inl ⟨_, _, arrival_released hs b hread hk⟩)
  | @afterShutdown p a hheap hshut =>
    have hseen : (some { a with closing := true }).map (fun h => (h.serial, h.ended)) = w.seen p := by
      rw [World.seen, hheap]
      rfl
    exact Or.inl ⟨rfl, rfl, rfl, fun q n => by rw [World.afterShutdown, seen_update hseen]⟩
  | @onClose p a hheap hclosing =>
    refine Or.inl ⟨rfl, rfl, rfl, fun q n => ?_⟩
    have hended := hclose p a rfl hheap
    rw [onClose_seen]
    by_cases hq : q = p
    · rw [if_pos hq, hq, World.seen, hheap, Option.map_some, hended]
      simp
    · rw [if_neg hq]
  | timer htimer =>
    have hq := quiet_tick w
    refine Or.inl ⟨?_, (tick_popped w _).2, (hq _).given, fun p n => by rw [(hq _).seen]⟩
    rw [pushes, (tick_popped w _).1, (tick_queues w _).1, pushes]
  | pop => exact Or.inl (still_pop w)
  | sendClient hsend =>
    obtain ⟨r, -, rfl⟩ := Option.map_eq_some_iff.mp hsend
    exact Or.inl ⟨rfl, rfl, rfl, fun _ _ => Iff.rfl⟩
  | _ => exact Or.inl ⟨rfl, rfl, rfl, fun _ _ => Iff.rfl⟩

/-! ### Steps keep the sessions separated -/

theorem Separated.still {w u : World} (h : Separated w) (hst : Still w u) : Separated u := by
  have htagged : ∀ k, Server.tagged k u = Server.tagged k w := fun k => by
    simp only [Server.tagged, hst.pushes]
  have hdelivered : ∀ n, delivered n u = delivered n w := fun n => by
    simp only [delivered, hst.reads]
  have haccepted : ∀ k, accepted k u = accepted k w := fun k => by
    simp only [accepted, hst.given]
  refine ⟨fun k => ?_, ?_, ?_, ?_, ?_, ?_, ?_⟩
  · simp only [htagged, hdelivered, haccepted, h.tagged k]
  · simpa only [hst.seen, hdelivered] using h.live
  · simpa only [hst.seen, hst.given, hdelivered] using h.gone
  · simpa only [hst.seen, hst.given] using h.last
  · simpa only [hst.reads, hst.given] using h.reads
  · simpa only [hst.pushes, hst.given] using h.own
  · simpa only [hst.pushes] using h.null

theorem mem_accepted {k : ConnID} {w : World} {n : ℕ} :
    n ∈ accepted k w ↔ w.given[n]? = some k := by
  simp only [accepted, List.mem_filter, List.mem_range, decide_eq_true_eq, and_iff_right_iff_imp]
  intro hn
  exact (List.getElem?_eq_some_iff.mp hn).1

theorem accepted_last {k : ConnID} {w : World} {n : ℕ} (hn : w.given[n]? = some k)
    (hlast : ∀ n' > n, w.given[n']? ≠ some k) : ∃ ns, accepted k w = ns ++ [n] ∧ n ∉ ns := by
  have hlt := (List.getElem?_eq_some_iff.mp hn).1
  obtain ⟨r, hr⟩ := Nat.exists_eq_add_of_lt hlt
  refine ⟨(List.range n).filter fun j => w.given[j]? = some k, ?_, by simp⟩
  have hrange : List.range w.given.length =
      List.range n ++ ([n] ++ (List.range r).map (n + 1 + ·)) := by
    rw [hr, show n + r + 1 = n + 1 + r by omega, List.range_add, List.range_succ, List.append_assoc]
  have hnone : ((List.range r).map (n + 1 + ·)).filter (fun j => w.given[j]? = some k) = [] := by
    rw [List.filter_eq_nil_iff]
    intro j hj
    obtain ⟨i, -, rfl⟩ := List.mem_map.mp hj
    simpa using hlast (n + 1 + i) (by omega)
  rw [accepted, hrange, List.filter_append, List.filter_append, hnone, List.append_nil]
  simp [hn]

/-! ### After an arrival -/

section
variable {w u : World} {n : ℕ} {x : Option Bytes}

theorem Arrival.delivered_eq (ha : Arrival w u n x) (j : ℕ) :
    delivered j u = delivered j w ++ if j = n then [x] else [] := by
  by_cases hj : j = n
  · simp [delivered, ha.reads, hj]
  · have hj' : ¬n = j := fun hnj => hj hnj.symm
    simp [delivered, ha.reads, hj, hj']

theorem Arrival.delivered_others (ha : Arrival w u n x) {ns : List ℕ} (hns : n ∉ ns) :
    ns.flatMap (delivered · u) = ns.flatMap (delivered · w) := by
  apply List.flatMap_congr
  intro j hj
  have hjn : j ≠ n := fun hjn => hns (hjn ▸ hj)
  rw [ha.delivered_eq, if_neg hjn, List.append_nil]

theorem Separated.arrival_tagged (h : Separated w) (ha : Arrival w u n x) (k : ConnID) :
    Server.tagged k u = (accepted k u).flatMap (delivered · u) := by
  obtain ⟨p, hp⟩ := ha.live
  obtain ⟨m, hpush, hcontent, -, hgiven, -⟩ := ha.push
  have haccepted : accepted k u = accepted k w := by
    simp only [accepted, ha.given]
  have htagged : Server.tagged k u = Server.tagged k w ++ if m.conn = k then [x] else [] := by
    by_cases hk : m.conn = k
    · simp [Server.tagged, hpush, hk, hcontent]
    · simp [Server.tagged, hpush, hk]
  rw [htagged, haccepted, h.tagged k]
  by_cases hk : m.conn = k
  · rw [if_pos hk]
    obtain ⟨ns, hns, hnot⟩ := accepted_last (hk ▸ hgiven) (by
      intro n' hn'
      rw [← hk, ← hgiven]
      exact h.last p n hp n' hn')
    rw [hns, List.flatMap_append, List.flatMap_append, ha.delivered_others hnot]
    simp only [List.flatMap_cons, List.flatMap_nil, List.append_nil, ha.delivered_eq, if_pos,
      List.append_assoc]
  · rw [if_neg hk, List.append_nil, ha.delivered_others]
    rw [mem_accepted, hgiven]
    exact fun hn => hk (Option.some.inj hn)

theorem Separated.arrival_live (h : Separated w) (ha : Arrival w u n x) {q : Ptr} {j : ℕ}
    (hq : u.seen q = some (j, false)) : Unfinished (delivered j u) := by
  obtain ⟨hq', hne⟩ := (ha.seen q j).mp hq
  obtain ⟨chunks, hchunks⟩ := h.live q j hq'
  rw [ha.delivered_eq, hchunks]
  by_cases hj : j = n
  · cases x with
    | none => exact absurd hj (hne rfl)
    | some c =>
      rw [if_pos hj]
      exact ⟨chunks ++ [c], by simp⟩
  · rw [if_neg hj]
    exact ⟨chunks, by simp⟩

theorem Separated.arrival_gone (h : Separated w) (ha : Arrival w u n x) {j : ℕ}
    (hj : j < w.given.length) : (∃ q, u.seen q = some (j, false)) ∨ Finished (delivered j u) := by
  obtain ⟨p, hp⟩ := ha.live
  rw [ha.delivered_eq]
  by_cases hjn : j = n
  · cases x with
    | none =>
      obtain ⟨chunks, hchunks⟩ := h.live p n hp
      rw [if_pos hjn, hjn, hchunks]
      exact Or.inr ⟨chunks, rfl⟩
    | some c =>
      rw [hjn]
      exact Or.inl ⟨p, (ha.seen p n).mpr ⟨hp, nofun⟩⟩
  · rw [if_neg hjn, List.append_nil]
    cases h.gone j hj with
    | inl hseen =>
      obtain ⟨q, hq⟩ := hseen
      exact Or.inl ⟨q, (ha.seen q j).mpr ⟨hq, fun _ => hjn⟩⟩
    | inr hfin => exact Or.inr hfin

theorem Separated.arrival (h : Separated w) (ha : Arrival w u n x) : Separated u := by
  obtain ⟨m, hpush, -, horigin, hgiven, hnull⟩ := ha.push
  have hlen : n < w.given.length := (List.getElem?_eq_some_iff.mp hgiven).1
  refine ⟨h.arrival_tagged ha, fun q j hq => h.arrival_live ha hq, fun j hj => ?_,
    fun q j hq => ?_, ?_, ?_, ?_⟩
  · rw [ha.given] at hj
    exact h.arrival_gone ha hj
  · rw [ha.given]
    exact h.last q j ((ha.seen q j).mp hq).1
  · rw [ha.reads, ha.given, List.forall_mem_append, List.forall_mem_singleton]
    exact ⟨h.reads, hlen⟩
  · rw [hpush, ha.given, List.forall_mem_append, List.forall_mem_singleton]
    exact ⟨h.own, n, horigin, hgiven⟩
  · rw [hpush, List.forall_mem_append, List.forall_mem_singleton]
    exact ⟨h.null, hnull⟩

end

/-! ### After an accept -/

section
variable {w : World} {p : Ptr}

theorem accept_given (w : World) (p : Ptr) :
    (w.accept p).given = w.given ++ [w.srv.getConnectionID.1] := rfl

theorem accept_given_old {n : ℕ} (hn : n < w.given.length) :
    (w.accept p).given[n]? = w.given[n]? := List.getElem?_append_left hn

theorem accept_pushes (hnull : p ≠ 0) : pushes (w.accept p) = pushes w := by
  rw [pushes, (accept_queues w hnull).1]
  rfl

theorem accept_live (hfree : w.heap p = none) (q : Ptr) (n : ℕ) :
    (w.accept p).seen q = some (n, false) ↔
      (q = p ∧ n = w.given.length) ∨ w.seen q = some (n, false) := by
  rw [accept_seen]
  by_cases hq : q = p
  · rw [if_pos hq, hq, seen_eq_none.mpr hfree]
    simp only [Option.some.injEq, Prod.mk.injEq, and_true, true_and, reduceCtorEq, or_false]
    exact eq_comm
  · rw [if_neg hq]
    simp only [hq, false_and, false_or]

theorem accept_accepted (w : World) (p : Ptr) (k : ConnID) :
    accepted k (w.accept p) =
      accepted k w ++ if w.srv.getConnectionID.1 = k then [w.given.length] else [] := by
  simp only [accepted, accept_given, List.length_append, List.length_singleton, List.range_succ,
    List.filter_append]
  congr 1
  · apply List.filter_congr
    intro n hn
    simp only [List.getElem?_append_left (List.mem_range.mp hn)]
  · by_cases hk : w.srv.getConnectionID.1 = k <;> simp [hk]

theorem Separated.delivered_next (h : Separated w) : delivered w.given.length w = [] := by
  rw [delivered, List.filter_eq_nil_iff.mpr, List.map_nil]
  intro r hr
  have hlt := h.reads r hr
  simp only [decide_eq_true_eq]
  omega

theorem Sound.given_ne (hs : Sound w) (hnull : p ≠ 0) (hfree : w.heap p = none) {q : Ptr} {n : ℕ}
    (hq : w.seen q = some (n, false)) : w.given[n]? ≠ some w.srv.getConnectionID.1 := by
  intro hn
  have hon := (hs.online q _).mpr ⟨n, hq, hn⟩
  have hoff := (hs.handsOut hnull hfree).offline
  rw [(hs.inverse q _).mp hon] at hoff
  exact absurd hoff (by simp)

theorem Separated.accept_tagged (h : Separated w) (hnull : p ≠ 0) (k : ConnID) :
    Server.tagged k (w.accept p) = (accepted k (w.accept p)).flatMap (delivered · w) := by
  have hsame : Server.tagged k (w.accept p) = Server.tagged k w := by
    simp only [Server.tagged, accept_pushes hnull]
  rw [hsame, accept_accepted, List.flatMap_append, h.tagged k]
  split
  · rw [List.flatMap_singleton, h.delivered_next, List.append_nil]
  · rw [List.flatMap_nil, List.append_nil]

theorem Separated.accept_last (h : Separated w) (hs : Sound w) (hnull : p ≠ 0)
    (hfree : w.heap p = none) {q : Ptr} {n : ℕ} (hq : (w.accept p).seen q = some (n, false)) :
    ∀ n' > n, (w.accept p).given[n']? ≠ (w.accept p).given[n]? := by
  intro n' hn'
  cases (accept_live hfree q n).mp hq with
  | inl hnew =>
    rw [accept_given, hnew.2, List.getElem?_concat_length, List.getElem?_eq_none (by simp; omega)]
    simp
  | inr hq =>
    have hlt := hs.serial q n _ hq
    rw [accept_given_old hlt]
    by_cases hold : n' < w.given.length
    · rw [accept_given_old hold]
      exact h.last q n hq n' hn'
    · by_cases heq : n' = w.given.length
      · rw [heq, accept_given, List.getElem?_concat_length]
        exact fun hcontra => hs.given_ne hnull hfree hq hcontra.symm
      · rw [accept_given, List.getElem?_eq_none (by simp; omega), List.getElem?_eq_getElem hlt]
        simp

theorem Separated.accept (h : Separated w) (hs : Sound w) (hnull : p ≠ 0)
    (hfree : w.heap p = none) : Separated (w.accept p) := by
  have hlen : (w.accept p).given.length = w.given.length + 1 := by
    rw [accept_given, List.length_append, List.length_singleton]
  refine ⟨h.accept_tagged hnull, fun q n hq => ?_, fun n hn => ?_,
    fun q n hq => h.accept_last hs hnull hfree hq, ?_, ?_, ?_⟩
  · cases (accept_live hfree q n).mp hq with
    | inl hnew => exact ⟨[], hnew.2 ▸ h.delivered_next⟩
    | inr hq => exact h.live q n hq
  · by_cases hnew : n = w.given.length
    · exact Or.inl ⟨p, (accept_live hfree p n).mpr (Or.inl ⟨rfl, hnew⟩)⟩
    · cases h.gone n (by omega) with
      | inl hseen =>
        obtain ⟨q, hq⟩ := hseen
        exact Or.inl ⟨q, (accept_live hfree q n).mpr (Or.inr hq)⟩
      | inr hfin => exact Or.inr hfin
  · intro r hr
    have hlt := h.reads r hr
    omega
  · rw [accept_pushes hnull]
    intro m hm
    obtain ⟨n, horigin, hn⟩ := h.own m hm
    exact ⟨n, horigin, by rw [accept_given_old (List.getElem?_eq_some_iff.mp hn).1, hn]⟩
  · rw [accept_pushes hnull]
    exact h.null

end

theorem separated_init : Separated {} := by
  refine ⟨fun k => rfl, fun p n hp => ?_, fun n hn => ?_, fun p n hp => ?_, ?_, ?_, ?_⟩
  · simp [World.seen] at hp
  · simp at hn
  · simp [World.seen] at hp
  all_goals
    intro x hx
    simp [pushes] at hx

theorem separated_step {w u : World} {e : Event} (h : Separated w) (hs : Sound w)
    (hclose : ClosesEnded w e) (hstep : Step w e u) : Separated u := by
  rcases step_delivers hs hclose hstep with hst | ⟨n, x, ha⟩ | ⟨p, rfl, hnull, hfree, rfl⟩
  · exact h.still hst
  · exact h.arrival ha
  · exact h.accept hs hnull hfree

theorem separated_run {tr : List (World × Event)} {w : World} (hrun : Run Step {} tr w)
    (hclose : Meets ClosesEnded tr) : Separated w := by
  have hstep : ∀ t e u, Sound t ∧ Separated t → ClosesEnded t e → Step t e u →
      Sound u ∧ Separated u := fun t e u ht he hs =>
    ⟨sound_step ht.1 he hs, separated_step ht.2 ht.1 he hs⟩
  exact (hrun.invariant_of_meets hstep ⟨sound_init, separated_init⟩ hclose).2

theorem Separated.finished {w : World} (h : Separated w) {k : ConnID} {n : ℕ}
    (hn : n ∈ (accepted k w).dropLast) : Finished (delivered n w) := by
  have hmem := mem_accepted.mp (List.mem_of_mem_dropLast hn)
  rcases h.gone n (List.getElem?_eq_some_iff.mp hmem).1 with ⟨p, hp⟩ | hfin
  · have hne : accepted k w ≠ [] := by
      intro hnil
      rw [hnil] at hn
      exact absurd hn List.not_mem_nil
    have hsorted : (accepted k w).Pairwise (· < ·) :=
      List.Pairwise.filter _ List.pairwise_lt_range
    rw [← List.dropLast_append_getLast hne, List.pairwise_append] at hsorted
    have hlt := hsorted.2.2 n hn _ (List.mem_singleton_self _)
    have hlast := mem_accepted.mp (List.getLast_mem hne)
    exact absurd (hlast.trans hmem.symm) (h.last p n hp _ hlt)
  · exact hfin

/-- The pushes with one id are what the connections given that id delivered, one
after the other: chunks and one end each, which only the last may still lack. -/
structure InSessions (w : World) : Prop where
  sessions : ∀ k, tagged k w = (accepted k w).flatMap (delivered · w)
  finished : ∀ k, ∀ n ∈ (accepted k w).dropLast, Finished (delivered n w)
  shape : ∀ k, ∀ n ∈ accepted k w, Unfinished (delivered n w) ∨ Finished (delivered n w)
  own : ∀ m ∈ pushes w, ∃ n, m.origin = some n ∧ w.given[n]? = some m.conn
  null : ∀ m ∈ pushes w, m.buf = none → m.len = 0

/-- In every run without disconnects the receive queue is in sessions. -/
theorem receive_inSessions (tr : List (World × Event)) (w : World) (hrun : Run Step {} tr w)
    (hno : Meets NoDisconnect tr) : InSessions w := by
  have h := separated_run hrun (undisturbed_run hrun hno).2
  refine ⟨h.tagged, fun k n hn => h.finished hn, fun k n hn => ?_, h.own, h.null⟩
  rcases h.gone n (List.getElem?_eq_some_iff.mp (mem_accepted.mp hn)).1 with ⟨p, hp⟩ | hfin
  · exact Or.inl (h.live p n hp)
  · exact Or.inr hfin

/-- A chunk and the end of the first client, then a chunk of the second, which is given
the same id. -/
theorem receive_inSessions_visit :
    ∃ w : World, InSessions w ∧ accepted 1 w = [0, 1] ∧ delivered 0 w = [some [65, 66], none] ∧
      delivered 1 w = [some [67]] ∧ tagged 1 w = [some [65, 66], none, some [67]] := by
  let read := firstClient.readData 64 { serial := 0 } [65, 66] []
  let gone := read.readEnd 64 { serial := 0 } uvEof [1] 0
  let back := gone.accept 128
  have hread : Step firstClient (.readData 64 [65, 66] []) read :=
    .readData ⟨rfl, rfl, rfl⟩ (by decide) (by decide)
  have hgone : Step read (.readEnd 64 uvEof [1] 0) gone :=
    .readEnd ⟨rfl, rfl, rfl⟩ (by decide) (by decide)
  have hback : Step gone (.accept 128) back := .accept (by decide) rfl
  have hagain : Step back (.readData 128 [67] []) (back.readData 128 { serial := 1 } [67] []) :=
    .readData ⟨rfl, rfl, rfl⟩ (by decide) (by decide)
  have hrun := (((firstClient_run.snoc hread).snoc hgone).snoc hback).snoc hagain
  refine ⟨_, receive_inSessions _ _ hrun ?_, by decide, by decide, by decide, by decide⟩
  simp [Meets, NoDisconnect]

end GameRes.Server
