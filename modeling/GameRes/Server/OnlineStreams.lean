import GameRes.NetApp.ConnectionTable
import GameRes.Server.World

/-!
# Online streams are live streams (NetApp/NetFrame.cpp:33-76, 112-165, 183-230)

The tables of the server against the heap: as long as a stream is freed only
after `after_read` has seen its end, the tables hold exactly the streams that
are allocated and not ended. The server-initiated disconnect frees a stream
that is still in the tables.
-/

namespace GameRes.Server
open Library NetApp

def World.seen (w : World) (p : Ptr) : Option (ℕ × Bool) :=
  (w.heap p).map fun h => (h.serial, h.ended)

/-- The tables are inverse of each other and hold only allocated streams. -/
structure Consistent (w : World) : Prop where
  inverse : w.srv.Inverse
  live : ∀ p k, w.srv.onlineStream.lookup p = some k → w.heap p ≠ none

structure Sound (w : World) : Prop where
  inverse : w.srv.Inverse
  numbered : w.srv.Numbered
  online : ∀ p k, w.srv.onlineStream.lookup p = some k ↔
    ∃ n, w.seen p = some (n, false) ∧ w.given[n]? = some k
  serial : ∀ p n b, w.seen p = some (n, b) → n < w.given.length
  serial_inj : ∀ p q n b c, w.seen p = some (n, b) → w.seen q = some (n, c) → p = q
  null : w.seen 0 = none

theorem seen_eq_none {w : World} {p : Ptr} : w.seen p = none ↔ w.heap p = none := by
  rw [World.seen, Option.map_eq_none_iff]

theorem Sound.consistent {w : World} (h : Sound w) : Consistent w := by
  refine ⟨h.inverse, fun p k hp hnone => ?_⟩
  obtain ⟨n, hn, -⟩ := (h.online p k).mp hp
  rw [seen_eq_none.mpr hnone] at hn
  exact absurd hn (by simp)

theorem sound_init : Sound {} := by
  refine ⟨TCPServer.inverse_empty, TCPServer.numbered_empty, fun p k => ?_, ?_, ?_, rfl⟩
  · simp [World.seen]
  · intro p n b hp
    simp [World.seen] at hp
  · intro p q n b c hp
    simp [World.seen] at hp

theorem Reading.seen {w : World} {p : Ptr} {a : Handle} (h : Reading w p a) :
    w.seen p = some (a.serial, false) := by
  rw [World.seen, h.heap, Option.map_some, h.ended]

theorem Sound.reading {w : World} (h : Sound w) {p : Ptr} {a : Handle} (hread : Reading w p a) :
    ∃ k, w.given[a.serial]? = some k ∧ w.srv.onlineStream.lookup p = some k := by
  have hlt := h.serial p _ _ hread.seen
  exact ⟨w.given[a.serial], List.getElem?_eq_getElem hlt,
    (h.online p _).mpr ⟨a.serial, hread.seen, List.getElem?_eq_getElem hlt⟩⟩

/-! ### Steps that leave the tables alone -/

structure Quiet (w u : World) : Prop where
  onlineStream : u.srv.onlineStream = w.srv.onlineStream
  onlineID : u.srv.onlineID = w.srv.onlineID
  connectionID : u.srv.connectionID = w.srv.connectionID
  maxConnectionID : u.srv.maxConnectionID = w.srv.maxConnectionID
  seen : ∀ p, u.seen p = w.seen p
  given : u.given = w.given

theorem Sound.quiet {w u : World} (h : Sound w) (hq : Quiet w u) : Sound u := by
  have hinv : u.srv.Inverse := by
    intro p k
    rw [hq.onlineStream, hq.onlineID]
    exact h.inverse p k
  refine ⟨hinv, ⟨?_, ?_, ?_⟩, ?_, ?_, ?_, ?_⟩
  · simpa only [hq.onlineID, hq.connectionID, hq.maxConnectionID] using h.numbered.range
  · simpa only [hq.onlineID, hq.connectionID] using h.numbered.free
  · simpa only [hq.connectionID] using h.numbered.nodup
  · simpa only [hq.onlineStream, hq.seen, hq.given] using h.online
  · simpa only [hq.seen, hq.given] using h.serial
  · simpa only [hq.seen] using h.serial_inj
  · simpa only [hq.seen] using h.null

theorem quiet_refl (w : World) : Quiet w w := ⟨rfl, rfl, rfl, rfl, fun _ => rfl, rfl⟩

theorem seen_update {w : World} {p : Ptr} {x : Option Handle}
    (h : x.map (fun h => (h.serial, h.ended)) = w.seen p) (q : Ptr) :
    ({ w with heap := Function.update w.heap p x } : World).seen q = w.seen q := by
  by_cases hq : q = p
  · subst hq
    simp only [World.seen, Function.update_self]
    exact h
  · simp only [World.seen, Function.update_of_ne hq]

theorem quiet_shutdown (w : World) (p : Ptr) (ret : ℤ) : Quiet w (w.shutdown p ret) := by
  unfold World.shutdown
  split
  · refine ⟨rfl, rfl, rfl, rfl, seen_update ?_, rfl⟩
    cases hp : w.heap p <;> simp [World.seen, hp]
  · exact quiet_refl w

theorem Quiet.trans {w u v : World} (h : Quiet w u) (h' : Quiet u v) : Quiet w v :=
  ⟨h'.1.trans h.1, h'.2.trans h.2, h'.3.trans h.3, h'.4.trans h.4,
    fun p => (h'.5 p).trans (h.5 p), h'.6.trans h.6⟩

theorem quiet_act (w : World) (ret : ℤ) (m : Option Message) (action : TimerAction) :
    Quiet w (w.act ret m action) := by
  unfold World.act
  split
  · exact ⟨rfl, rfl, rfl, rfl, fun _ => rfl, rfl⟩
  · exact quiet_shutdown w _ ret
  · exact quiet_refl w

theorem quiet_tick (w : World) (ret : ℤ) : Quiet w (w.tick ret) := by
  have hbase : Quiet w { w with srv := w.srv.timerCb.1, timer := w.srv.timerCb.2.2.2 } := by
    simp only [TCPServer.timerCb, TCPServer.getSendMessage_tables]
    exact ⟨rfl, rfl, rfl, rfl, fun _ => rfl, rfl⟩
  exact hbase.trans (quiet_act _ ret _ _)

theorem quiet_pop (w : World) : Quiet w w.pop := by
  unfold World.pop
  have htables := TCPServer.getRecvMessage_tables w.srv
  split
  · exact quiet_refl w
  · next m srv hget =>
    rw [hget] at htables
    simp only at htables
    subst htables
    exact ⟨rfl, rfl, rfl, rfl, fun _ => rfl, rfl⟩

theorem quiet_sendClient {w u : World} {conn : ConnID} {cmd : BitVec 32} {body : Bytes}
    (h : w.sendClient conn cmd body = some u) : Quiet w u := by
  obtain ⟨r, -, rfl⟩ := Option.map_eq_some_iff.mp h
  exact ⟨rfl, rfl, rfl, rfl, fun _ => rfl, rfl⟩

theorem Sound.readData_eq {w : World} (h : Sound w) {p : Ptr} {a : Handle} {chunk rest : Bytes}
    (hread : Reading w p a) (hne : chunk ≠ []) :
    ∃ k, w.given[a.serial]? = some k ∧ w.srv.onlineStream.lookup p = some k ∧
      w.readData p a chunk rest =
        { w with
          srv := { w.srv with
            recvMessage := w.srv.recvMessage ++
              [⟨k, BitVec.ofInt 32 chunk.length, some (chunk ++ rest), some a.serial⟩] }
          reads := w.reads ++ [(a.serial, some chunk)] } := by
  obtain ⟨k, hk, hp⟩ := h.reading hread
  have hpos : 0 < chunk.length := List.length_pos_iff.mpr hne
  have hn1 : ¬((chunk.length : ℤ) < 0) := by omega
  have hn0 : ¬((chunk.length : ℤ) = 0) := by omega
  refine ⟨k, hk, hp, ?_⟩
  simp only [World.readData, TCPServer.afterRead, if_neg hn1, if_neg hn0,
    TCPServer.pushRecvMessage_online _ hp]

/-! ### Steps that change the tables -/

theorem Sound.offline {w : World} (h : Sound w) {p : Ptr} (hp : w.seen p = none) :
    w.srv.onlineStream.lookup p = none := by
  by_contra hon
  obtain ⟨k, hk⟩ := Option.ne_none_iff_exists'.mp hon
  obtain ⟨n, hn, -⟩ := (h.online p k).mp hk
  rw [hp] at hn
  exact absurd hn (by simp)

theorem Sound.handsOut {w : World} (h : Sound w) {p : Ptr} (hnull : p ≠ 0)
    (hfree : w.heap p = none) :
    TCPServer.HandsOut w.srv w.srv.getConnectionID.2 w.srv.getConnectionID.1 :=
  h.numbered.getConnectionID <|
    h.inverse.exists_offline (h.offline h.null) hnull (h.offline (seen_eq_none.mpr hfree))

theorem getConnectionID_tables {γ : Type} (s : TCPServer γ) :
    s.getConnectionID.2.onlineStream = s.onlineStream ∧
      s.getConnectionID.2.onlineID = s.onlineID := by
  unfold TCPServer.getConnectionID
  split <;> exact ⟨rfl, rfl⟩

theorem accept_seen (w : World) (p q : Ptr) :
    (w.accept p).seen q = if q = p then some (w.given.length, false) else w.seen q := by
  by_cases hq : q = p
  · subst hq
    simp only [World.accept, World.seen, Function.update_self, Option.map_some, if_pos]
  · simp only [World.accept, World.seen, Function.update_of_ne hq, if_neg hq]

section
variable {w : World} {p : Ptr}

theorem Sound.accept_inverse (h : Sound w) (hnull : p ≠ 0) (hfree : w.heap p = none) :
    (w.accept p).srv.Inverse := by
  have hout := h.handsOut hnull hfree
  obtain ⟨hstream, hid⟩ := getConnectionID_tables w.srv
  have hpoff := h.offline (seen_eq_none.mpr hfree)
  have hinv : w.srv.getConnectionID.2.Inverse := by
    intro q j
    rw [hstream, hid]
    exact h.inverse q j
  rw [accept_srv w hnull]
  exact hinv.addConnection (by rw [hstream, hpoff]) (by rw [hid, hout.offline])

theorem Sound.accept_online (h : Sound w) (hnull : p ≠ 0) (q : Ptr) (j : ConnID) :
    (w.accept p).srv.onlineStream.lookup q = some j ↔
      ∃ n, (w.accept p).seen q = some (n, false) ∧ (w.accept p).given[n]? = some j := by
  obtain ⟨hstream, -⟩ := getConnectionID_tables w.srv
  have hgiven : (w.accept p).given = w.given ++ [w.srv.getConnectionID.1] := rfl
  rw [accept_seen, accept_srv w hnull, hgiven]
  simp only [TCPServer.addConnection, hstream]
  by_cases hq : q = p
  · subst hq
    simp only [AList.lookup_insert, if_pos, Option.some.injEq, Prod.mk.injEq, and_true]
    constructor
    · intro heq
      subst heq
      exact ⟨_, rfl, List.getElem?_concat_length⟩
    · intro hall
      obtain ⟨n, rfl, hn⟩ := hall
      rw [List.getElem?_concat_length] at hn
      exact Option.some.inj hn
  · rw [AList.lookup_insert_ne hq, if_neg hq, h.online q j]
    constructor
    · intro hall
      obtain ⟨n, hn, hj⟩ := hall
      exact ⟨n, hn, by rw [List.getElem?_append_left (h.serial q n _ hn), hj]⟩
    · intro hall
      obtain ⟨n, hn, hj⟩ := hall
      rw [List.getElem?_append_left (h.serial q n _ hn)] at hj
      exact ⟨n, hn, hj⟩

theorem Sound.accept_serial_inj (h : Sound w) {q r : Ptr} {n : ℕ} {b c : Bool}
    (hq : (w.accept p).seen q = some (n, b)) (hr : (w.accept p).seen r = some (n, c)) : q = r := by
  rw [accept_seen] at hq hr
  by_cases hqp : q = p <;> by_cases hrp : r = p
  · rw [hqp, hrp]
  · rw [if_pos hqp, Option.some.injEq, Prod.mk.injEq] at hq
    rw [if_neg hrp] at hr
    have hlt := h.serial r n c hr
    omega
  · rw [if_neg hqp] at hq
    rw [if_pos hrp, Option.some.injEq, Prod.mk.injEq] at hr
    have hlt := h.serial q n b hq
    omega
  · rw [if_neg hqp] at hq
    rw [if_neg hrp] at hr
    exact h.serial_inj q r n b c hq hr

theorem sound_accept (h : Sound w) (hnull : p ≠ 0) (hfree : w.heap p = none) :
    Sound (w.accept p) := by
  refine ⟨h.accept_inverse hnull hfree, ?_, h.accept_online hnull, fun q n b hq => ?_,
    fun q r n b c hq hr => h.accept_serial_inj hq hr, ?_⟩
  · rw [accept_srv w hnull]
    exact TCPServer.Numbered.addConnection (h.handsOut hnull hfree) (getConnectionID_tables w.srv).2
  · have hlen : (w.accept p).given.length = w.given.length + 1 := List.length_append
    rw [accept_seen] at hq
    by_cases hqp : q = p
    · rw [if_pos hqp, Option.some.injEq, Prod.mk.injEq] at hq
      omega
    · rw [if_neg hqp] at hq
      have hlt := h.serial q n b hq
      omega
  · rw [accept_seen, if_neg (Ne.symm hnull)]
    exact h.null

end

/-- What an end of stream amounts to on an online stream. -/
def World.released (w : World) (p : Ptr) (a : Handle) (k : ConnID) (shutting : Bool) : World :=
  { w with
    srv := { w.srv with
      recvMessage := w.srv.recvMessage ++ [⟨k, 0, none, some a.serial⟩]
      connectionID := w.srv.connectionID ++ [k]
      onlineID := w.srv.onlineID.erase k
      onlineStream := w.srv.onlineStream.erase p }
    heap := Function.update w.heap p (some { a with ended := true, shutting := shutting })
    reads := w.reads ++ [(a.serial, none)] }

theorem Sound.readEnd_eq {w : World} (h : Sound w) {p : Ptr} {a : Handle} {nread ret : ℤ}
    {order : List ConnID} (hread : Reading w p a) (hneg : nread < 0)
    (horder : order.Perm w.srv.onlineID.keys) :
    ∃ k b, w.given[a.serial]? = some k ∧ w.srv.onlineStream.lookup p = some k ∧
      w.readEnd p a nread order ret = w.released p a k b := by
  obtain ⟨k, hk, hp⟩ := h.reading hread
  have hpush := TCPServer.pushRecvMessage_online w.srv hp none 0 (some a.serial)
  have hinv : (w.srv.pushRecvMessage p none 0 (some a.serial)).Inverse := by
    rw [hpush]
    exact h.inverse
  have hpon : (w.srv.pushRecvMessage p none 0 (some a.serial)).onlineStream.lookup p = some k := by
    rw [hpush]
    exact hp
  have hperm : order.Perm (w.srv.pushRecvMessage p none 0 (some a.serial)).onlineID.keys := by
    rw [hpush]
    exact horder
  refine ⟨k, a.shutting || ((w.srv.afterRead p nread [] order (some a.serial)).2 && ret = 0),
    hk, hp, ?_⟩
  simp only [World.readEnd, World.released, TCPServer.afterRead, if_pos hneg,
    hinv.releaseConnection_eq hpon hperm]
  rw [hpush]

theorem released_seen (w : World) (p : Ptr) (a : Handle) (k : ConnID) (b : Bool) (q : Ptr) :
    (w.released p a k b).seen q = if q = p then some (a.serial, true) else w.seen q := by
  by_cases hq : q = p
  · subst hq
    simp only [World.released, World.seen, Function.update_self, Option.map_some, if_pos]
  · simp only [World.released, World.seen, Function.update_of_ne hq, if_neg hq]

theorem sound_released {w : World} (h : Sound w) {p : Ptr} {a : Handle} {k : ConnID} (b : Bool)
    (hread : Reading w p a) (hp : w.srv.onlineStream.lookup p = some k) :
    Sound (w.released p a k b) := by
  have hback : ∀ q n c, (w.released p a k b).seen q = some (n, c) →
      ∃ d, w.seen q = some (n, d) := by
    intro q n c hq
    rw [released_seen] at hq
    by_cases hqp : q = p
    · rw [if_pos hqp, Option.some.injEq, Prod.mk.injEq] at hq
      exact ⟨false, by rw [hqp, hread.seen, hq.1]⟩
    · rw [if_neg hqp] at hq
      exact ⟨c, hq⟩
  refine ⟨h.inverse.erase hp rfl rfl, h.numbered.release ((h.inverse p k).mp hp) rfl rfl rfl,
    fun q j => ?_, fun q n c hq => ?_, fun q r n c d hq hr => ?_, ?_⟩
  · rw [released_seen]
    by_cases hq : q = p
    · subst hq
      simp [World.released]
    · rw [if_neg hq]
      simp only [World.released, AList.lookup_erase_ne hq]
      exact h.online q j
  · obtain ⟨d, hd⟩ := hback q n c hq
    exact h.serial q n d hd
  · obtain ⟨e, he⟩ := hback q n c hq
    obtain ⟨f, hf⟩ := hback r n d hr
    exact h.serial_inj q r n e f he hf
  · rw [released_seen]
    by_cases h0 : (0 : Ptr) = p
    · have hseen := hread.seen
      rw [← h0, h.null] at hseen
      exact absurd hseen (by simp)
    · rw [if_neg h0]
      exact h.null

theorem onClose_seen (w : World) (p q : Ptr) :
    (w.onClose p).seen q = if q = p then none else w.seen q := by
  by_cases hq : q = p
  · subst hq
    simp only [World.onClose, World.seen, Function.update_self, Option.map_none, if_pos]
  · simp only [World.onClose, World.seen, Function.update_of_ne hq, if_neg hq]

theorem sound_onClose {w : World} (h : Sound w) {p : Ptr} {a : Handle}
    (hheap : w.heap p = some a) (hended : a.ended = true) : Sound (w.onClose p) := by
  have hseenp : w.seen p = some (a.serial, true) := by
    rw [World.seen, hheap, Option.map_some, hended]
  have hback : ∀ q n c, (w.onClose p).seen q = some (n, c) → w.seen q = some (n, c) := by
    intro q n c hq
    rw [onClose_seen] at hq
    by_cases hqp : q = p
    · rw [if_pos hqp] at hq
      exact absurd hq (by simp)
    · rwa [if_neg hqp] at hq
  refine ⟨h.inverse, h.numbered, fun q j => ?_, fun q n c hq => h.serial q n c (hback q n c hq),
    fun q r n c d hq hr => h.serial_inj q r n c d (hback q n c hq) (hback r n d hr), ?_⟩
  · rw [show (w.onClose p).srv = w.srv from rfl, show (w.onClose p).given = w.given from rfl,
      h.online q j]
    constructor
    · intro hall
      obtain ⟨n, hn, hj⟩ := hall
      refine ⟨n, ?_, hj⟩
      have hqp : q ≠ p := by
        intro heq
        subst heq
        rw [hseenp] at hn
        exact absurd hn (by simp)
      rw [onClose_seen, if_neg hqp, hn]
    · intro hall
      obtain ⟨n, hn, hj⟩ := hall
      exact ⟨n, hback q n false hn, hj⟩
  · rw [onClose_seen]
    split
    · rfl
    · exact h.null

theorem step_cases {w u : World} {e : Event} (h : Sound w) (hstep : Step w e u) :
    Quiet w u ∨
    (∃ p, e = .accept p ∧ p ≠ 0 ∧ w.heap p = none ∧ u = w.accept p) ∨
    (∃ p a k b, Reading w p a ∧ w.given[a.serial]? = some k ∧
      w.srv.onlineStream.lookup p = some k ∧ u = w.released p a k b) ∨
    (∃ p a, e = .onClose p ∧ w.heap p = some a ∧ u = w.onClose p) := by
  cases hstep with
  | accept hnull hfree => exact Or.inr (Or.inl ⟨_, rfl, hnull, hfree, rfl⟩)
  | acceptFailed hfail =>
    left
    rw [TCPServer.onConnection_fail _ hfail]
    exact quiet_refl w
  | readData hread hne hlen =>
    obtain ⟨k, -, -, heq⟩ := h.readData_eq hread hne
    left
    rw [heq]
    exact ⟨rfl, rfl, rfl, rfl, fun _ => rfl, rfl⟩
  | readNothing hread => exact Or.inl (quiet_refl w)
  | readEnd hread hneg horder =>
    obtain ⟨k, b, hk, hp, heq⟩ := h.readEnd_eq hread hneg horder
    exact Or.inr (Or.inr (Or.inl ⟨_, _, k, b, hread, hk, hp, heq⟩))
  | afterShutdown hheap hshut =>
    refine Or.inl ⟨rfl, rfl, rfl, rfl, seen_update ?_, rfl⟩
    rw [World.seen, hheap]
    rfl
  | onClose hheap hclosing => exact Or.inr (Or.inr (Or.inr ⟨_, _, rfl, hheap, rfl⟩))
  | timer htimer => exact Or.inl (quiet_tick w _)
  | pop => exact Or.inl (quiet_pop w)
  | reply hm => exact Or.inl ⟨rfl, rfl, rfl, rfl, fun _ => rfl, rfl⟩
  | handled => exact Or.inl ⟨rfl, rfl, rfl, rfl, fun _ => rfl, rfl⟩
  | push => exact Or.inl ⟨rfl, rfl, rfl, rfl, fun _ => rfl, rfl⟩
  | sendClient hsend => exact Or.inl (quiet_sendClient hsend)
  | close => exact Or.inl ⟨rfl, rfl, rfl, rfl, fun _ => rfl, rfl⟩

theorem sound_step {w u : World} {e : Event} (h : Sound w) (hclose : ClosesEnded w e)
    (hstep : Step w e u) : Sound u := by
  rcases step_cases h hstep with hq | ⟨p, rfl, hnull, hfree, rfl⟩ |
    ⟨p, a, k, b, hread, -, hp, rfl⟩ | ⟨p, a, rfl, hheap, rfl⟩
  · exact h.quiet hq
  · exact sound_accept h hnull hfree
  · exact sound_released h b hread hp
  · exact sound_onClose h hheap (hclose p a rfl hheap)

theorem onClose_inconsistent {w : World} (h : Sound w) {p : Ptr} {a : Handle}
    (hheap : w.heap p = some a) (hended : a.ended = false) : ¬Consistent (w.onClose p) := by
  intro hcons
  have hseen : w.seen p = some (a.serial, false) := by
    rw [World.seen, hheap, Option.map_some, hended]
  have hgiven := List.getElem?_eq_getElem (h.serial p _ _ hseen)
  have hon := (h.online p _).mpr ⟨_, hseen, hgiven⟩
  refine hcons.live p _ hon ?_
  simp only [World.onClose, Function.update_self]

theorem consistent_step_iff {w u : World} {e : Event} (h : Sound w) (hstep : Step w e u) :
    Consistent u ↔ ClosesEnded w e := by
  constructor
  · intro hcons p a he hheap
    subst he
    cases hstep with
    | onClose hheap' hclosing =>
      by_contra hended
      exact onClose_inconsistent h hheap (by simpa using hended) hcons
  · exact fun hclose => (sound_step h hclose hstep).consistent

theorem sound_run {tr : List (World × Event)} {w : World} (hrun : Run Step {} tr w)
    (hclose : Meets ClosesEnded tr) : Sound w :=
  hrun.invariant_of_meets (fun _ _ _ h hc hs => sound_step h hc hs) sound_init hclose

/-- The tables are consistent in every state of a run exactly when every stream
it closes had ended. -/
theorem tables_consistent_iff (tr : List (World × Event)) (w : World) (hrun : Run Step {} tr w) :
    Throughout Consistent tr w ↔ Meets ClosesEnded tr :=
  hrun.throughout_iff (fun _ _ _ h hc hs => sound_step h hc hs)
    (fun _ _ _ h hs => consistent_step_iff h hs) sound_init sound_init.consistent

def firstClient : World := ({} : World).accept 64

theorem firstClient_run : Run Step {} [({}, .accept 64)] firstClient :=
  Run.nil.snoc (.accept (by decide) rfl)

/-- A read error on the first stream, which is then shut down, closed and freed. -/
def firstVisit : List (World × Event) :=
  let failed := firstClient.readEnd 64 { serial := 0 } (-4078) [1] 0
  let closed := failed.afterShutdown 64 { serial := 0, ended := true, shutting := true }
  [({}, .accept 64), (firstClient, .readEnd 64 (-4078) [1] 0), (failed, .afterShutdown 64),
    (closed, .onClose 64)]

def visited : World :=
  ((firstClient.readEnd 64 { serial := 0 } (-4078) [1] 0).afterShutdown 64
    { serial := 0, ended := true, shutting := true }).onClose 64

theorem firstVisit_run : Run Step {} firstVisit visited :=
  ((firstClient_run.snoc (.readEnd ⟨rfl, rfl, rfl⟩ (by decide) (by decide))).snoc
    (.afterShutdown rfl rfl)).snoc (.onClose rfl rfl)

theorem tables_consistent_visit :
    visited.heap 64 = none ∧ visited.srv.connectionID = [1] ∧
      Throughout Consistent firstVisit visited := by
  refine ⟨rfl, by decide, (tables_consistent_iff _ _ firstVisit_run).mpr ?_⟩
  simp only [Meets, firstVisit, List.forall_mem_cons]
  refine ⟨?_, ?_, ?_, ?_, ?_⟩
  · intro p h he
    cases he
  · intro p h he
    cases he
  · intro p h he
    cases he
  · intro p h he hheap
    cases he
    cases hheap
    rfl
  · intro x hx
    cases hx

/-- The server after it disconnected the first client, closed its stream and
accepted a second client whose stream has the same address. -/
def aliased : World :=
  ((((firstClient.push 1 none 0).tick 0).afterShutdown 64 { serial := 0, shutting := true }).onClose
    64).accept 64

theorem aliased_run : ∃ tr, Run Step {} tr aliased :=
  ⟨_, ((((firstClient_run.snoc .push).snoc (.timer rfl)).snoc (.afterShutdown rfl rfl)).snoc
    (.onClose rfl rfl)).snoc (.accept (by decide) rfl)⟩

/-- Both ids then name the stream at address 64. -/
theorem tables_aliased :
    ¬∀ (tr : List (World × Event)) (w : World), Run Step {} tr w → Throughout Consistent tr w := by
  intro h
  obtain ⟨tr, hrun⟩ := aliased_run
  have hinv := (h tr aliased hrun).2.inverse 64 1
  exact absurd (hinv.mpr (by decide)) (by decide)

end GameRes.Server
