import GameRes.NetApp.TCPServer
import GameRes.Server.MessageDispatch

/-!
# From chunks to packets (NetFrame.cpp:66-76, Server.cpp:47-52, AppManager.cpp:39-61)

The receive path of one connection: the network thread pushes each chunk it
reads, the main loop pops one message per turn and treats it as one packet. The
two threads meet only in the FIFO queue, so what is dispatched does not depend on
how their turns interleave; it does depend on where the stream was cut.
-/

namespace GameRes.Server
open Library NetApp

/-- A turn of one of the two threads: `after_read` with a chunk at the front of
its buffer, or one turn of the main loop. -/
inductive Turn where
  | read (chunk rest : Bytes)
  | poll

/-- The server, the dispatch table and what the logic thread has done so far. -/
structure Pipeline (H : Type) where
  srv : TCPServer Unit
  table : MessageDispatch H := {}
  done : List (Effect H) := []

variable {H : Type}

def Pipeline.turn (p : Pipeline H) (handle : Ptr) : Turn → Option (Pipeline H)
  | .read chunk rest =>
    some { p with srv := (p.srv.afterRead handle chunk.length (chunk ++ rest) [] ()).1 }
  | .poll =>
    match p.srv.getRecvMessage with
    | (none, _) => some p
    | (some m, srv) =>
      (recivedMessage p.table m.conn m.buf m.len).map fun r => ⟨srv, r.1, p.done ++ r.2⟩

def Pipeline.turns (p : Pipeline H) (handle : Ptr) (ts : List Turn) : Option (Pipeline H) :=
  ts.foldlM (fun p t => p.turn handle t) p

def chunks : List Turn → List Bytes
  | [] => []
  | .read chunk _ :: ts => chunk :: chunks ts
  | .poll :: ts => chunks ts

/-- What a chunk of `len` bytes at the front of `block` is dispatched as: at most
one packet, whatever its length field says. -/
def chunkDispatch (conn : ConnID) (len : ℕ) (block : Bytes) :
    List (BitVec 32 × BitVec 32 × Bytes) :=
  if len % 2 ^ 16 ≤ 4 then []
  else [((word16 ((block.drop 2).take 2)).setWidth 32, conn,
    ((block.take (len % 2 ^ 16)).drop 4).takeWhile (· ≠ 0))]

def Readable (m : MessageInfo Unit) : Prop :=
  ∃ block, m.buf = some block ∧ m.len.toNat % 2 ^ 16 ≤ block.length

def messageDispatch (m : MessageInfo Unit) : List (BitVec 32 × BitVec 32 × Bytes) :=
  chunkDispatch m.conn m.len.toNat (m.buf.getD [])

theorem dispatches_append (es fs : List (Effect H)) :
    dispatches (es ++ fs) = dispatches es ++ dispatches fs := by
  induction es with
  | nil => rfl
  | cons e es ih => cases e <;> simp [dispatches, ih]

theorem dispatchMessageHandle_dispatches (d : MessageDispatch H) (cmd : BitVec 32)
    (args : BitVec 32 × BitVec 32 × Bytes) :
    dispatches (d.dispatchMessageHandle cmd args).2.2 = [] := by
  unfold MessageDispatch.dispatchMessageHandle
  split <;> rfl

theorem recivedMessage_dispatches (d : MessageDispatch H) {m : MessageInfo Unit}
    (hm : Readable m) :
    ∃ d' es, recivedMessage d m.conn m.buf m.len = some (d', es) ∧
      dispatches es = messageDispatch m := by
  obtain ⟨block, hbuf, hlen⟩ := hm
  by_cases hshort : m.len.toNat % 2 ^ 16 ≤ 4
  · obtain ⟨es, hes, hd, -⟩ := recivedMessage_of_short d m.conn m.len block hshort
    refine ⟨d, es, by rw [hbuf, hes], ?_⟩
    rw [hd, messageDispatch, chunkDispatch, if_pos hshort]
  · refine ⟨_, _, by rw [hbuf, recivedMessage_of_long d m.conn m.len (by omega) hlen], ?_⟩
    simp only [dispatches, dispatchMessageHandle_dispatches, messageDispatch, chunkDispatch,
      if_neg hshort, hbuf, Option.getD_some]

theorem len_ofInt_mod (n : ℕ) : (BitVec.ofInt 32 (n : ℤ)).toNat % 2 ^ 16 = n % 2 ^ 16 := by
  rw [BitVec.toNat_ofInt]
  omega

theorem turn_read {p : Pipeline H} {handle : Ptr} {conn : ConnID}
    (hon : p.srv.onlineStream.lookup handle = some conn) {chunk : Bytes} (rest : Bytes)
    (hne : chunk ≠ []) :
    ∃ m, p.turn handle (.read chunk rest) =
        some { p with srv := { p.srv with recvMessage := p.srv.recvMessage ++ [m] } } ∧
      Readable m ∧ messageDispatch m = chunkDispatch conn chunk.length chunk := by
  have hpos : 0 < chunk.length := List.length_pos_iff.mpr hne
  refine ⟨⟨conn, BitVec.ofInt 32 chunk.length, some (chunk ++ rest), ()⟩, ?_, ?_, ?_⟩
  · have hn1 : ¬((chunk.length : ℤ) < 0) := by omega
    have hn0 : ¬((chunk.length : ℤ) = 0) := by omega
    simp only [Pipeline.turn, TCPServer.afterRead, if_neg hn1, if_neg hn0,
      TCPServer.pushRecvMessage_online _ hon]
  · refine ⟨chunk ++ rest, rfl, ?_⟩
    rw [len_ofInt_mod, List.length_append]
    have := Nat.mod_le chunk.length (2 ^ 16)
    omega
  · simp only [messageDispatch, chunkDispatch, len_ofInt_mod, Option.getD_some]
    split_ifs with hshort
    · rfl
    · have hle := Nat.mod_le chunk.length (2 ^ 16)
      have h2 : ((chunk ++ rest).drop 2).take 2 = (chunk.drop 2).take 2 := by
        rw [List.drop_append_of_le_length (by omega), List.take_append_of_le_length]
        rw [List.length_drop]
        omega
      rw [h2, List.take_append_of_le_length hle]

/-- What the turns so far amount to: everything is readable, the connection is
still online, and done plus queued is what was there before plus the chunks read. -/
structure Pumped (p q : Pipeline H) (handle : Ptr) (conn : ConnID) (cs : List Bytes) : Prop where
  online : q.srv.onlineStream.lookup handle = some conn
  readable : ∀ m ∈ q.srv.recvMessage, Readable m
  fifo : dispatches q.done ++ q.srv.recvMessage.flatMap messageDispatch =
    dispatches p.done ++ p.srv.recvMessage.flatMap messageDispatch ++
      cs.flatMap fun c => chunkDispatch conn c.length c

theorem turn_pumped {p : Pipeline H} {handle : Ptr} {conn : ConnID} (t : Turn)
    (hon : p.srv.onlineStream.lookup handle = some conn)
    (hread : ∀ m ∈ p.srv.recvMessage, Readable m) (hne : ∀ c ∈ chunks [t], c ≠ []) :
    ∃ q, p.turn handle t = some q ∧ Pumped p q handle conn (chunks [t]) := by
  cases t with
  | read chunk rest =>
    obtain ⟨m, hturn, hm, hd⟩ := turn_read hon rest (hne chunk (List.mem_singleton_self _))
    refine ⟨_, hturn, hon, ?_, ?_⟩
    · intro m' hm'
      rcases List.mem_append.mp hm' with h | h
      · exact hread m' h
      · rwa [List.mem_singleton.mp h]
    · simp only [List.flatMap_append, List.flatMap_cons, List.flatMap_nil, List.append_nil, hd,
        chunks, List.append_assoc]
  | poll =>
    cases hq : p.srv.recvMessage with
    | nil =>
      refine ⟨p, by simp only [Pipeline.turn, TCPServer.getRecvMessage, hq], hon, hread, ?_⟩
      simp only [chunks, List.flatMap_nil, List.append_nil]
    | cons m rest =>
      rw [hq] at hread
      obtain ⟨d', es, hrecv, hd⟩ :=
        recivedMessage_dispatches p.table (hread m List.mem_cons_self)
      refine ⟨⟨{ p.srv with recvMessage := rest }, d', p.done ++ es⟩, ?_, hon, ?_, ?_⟩
      · simp only [Pipeline.turn, TCPServer.getRecvMessage, hq, hrecv, Option.map_some]
      · exact fun m' hm' => hread m' (List.mem_cons_of_mem _ hm')
      · simp only [dispatches_append, hd, chunks, hq, List.flatMap_cons, List.flatMap_nil,
          List.append_nil, List.append_assoc]

theorem chunks_cons (t : Turn) (ts : List Turn) : chunks (t :: ts) = chunks [t] ++ chunks ts := by
  cases t <;> rfl

theorem turns_pumped (ts : List Turn) {p : Pipeline H} {handle : Ptr} {conn : ConnID}
    (hon : p.srv.onlineStream.lookup handle = some conn)
    (hread : ∀ m ∈ p.srv.recvMessage, Readable m) (hne : ∀ c ∈ chunks ts, c ≠ []) :
    ∃ q, p.turns handle ts = some q ∧ Pumped p q handle conn (chunks ts) := by
  induction ts generalizing p with
  | nil =>
    refine ⟨p, rfl, hon, hread, ?_⟩
    simp only [chunks, List.flatMap_nil, List.append_nil]
  | cons t ts ih =>
    rw [chunks_cons, List.forall_mem_append] at hne
    obtain ⟨q, hq, hp⟩ := turn_pumped t hon hread hne.1
    obtain ⟨r, hr, hp'⟩ := ih hp.online hp.readable hne.2
    refine ⟨r, ?_, hp'.online, hp'.readable, ?_⟩
    · simp only [Pipeline.turns, List.foldlM_cons, hq]
      exact hr
    · rw [hp'.fifo, hp.fifo, chunks_cons t ts, List.flatMap_append, List.append_assoc]

/-! ### Chunks against packets -/

def weight (x : BitVec 32 × BitVec 32 × Bytes) : ℕ := x.2.2.length + 4

theorem chunkDispatch_weight (conn : ConnID) (c : Bytes) :
    ((chunkDispatch conn c.length c).map weight).sum ≤ c.length := by
  unfold chunkDispatch
  split_ifs with hshort
  · simp
  · have htw : (((c.take (c.length % 2 ^ 16)).drop 4).takeWhile (· ≠ 0)).length
        ≤ ((c.take (c.length % 2 ^ 16)).drop 4).length := (List.takeWhile_prefix _).length_le
    have hle := Nat.mod_le c.length (2 ^ 16)
    simp only [List.length_drop, List.length_take] at htw
    simp only [List.map_cons, List.map_nil, List.sum_cons, List.sum_nil, weight]
    omega

theorem chunkDispatch_full {conn : ConnID} {c : Bytes} (hne : c ≠ [])
    (h : ((chunkDispatch conn c.length c).map weight).sum = c.length) :
    (chunkDispatch conn c.length c).map weight = [c.length] := by
  have hpos : 0 < c.length := List.length_pos_iff.mpr hne
  unfold chunkDispatch at h ⊢
  split_ifs at h ⊢ with hshort
  · simp only [List.map_nil, List.sum_nil] at h
    omega
  · simp only [List.map_cons, List.map_nil, List.sum_cons, List.sum_nil, add_zero] at h ⊢
    rw [h]

theorem sum_flatMap_weight (conn : ConnID) (cs : List Bytes) :
    ((cs.flatMap fun c => chunkDispatch conn c.length c).map weight).sum ≤
      (cs.map List.length).sum := by
  induction cs with
  | nil => simp
  | cons c cs ih =>
    have hc := chunkDispatch_weight conn c
    simp only [List.flatMap_cons, List.map_append, List.sum_append, List.map_cons, List.sum_cons]
    omega

theorem chunkDispatch_lengths {conn : ConnID} {cs : List Bytes} (hne : ∀ c ∈ cs, c ≠ [])
    (h : ((cs.flatMap fun c => chunkDispatch conn c.length c).map weight).sum =
      (cs.map List.length).sum) :
    (cs.flatMap fun c => chunkDispatch conn c.length c).map weight = cs.map List.length := by
  induction cs with
  | nil => rfl
  | cons c cs ih =>
    have hc := chunkDispatch_weight conn c
    have hcs := sum_flatMap_weight conn cs
    simp only [List.flatMap_cons, List.map_append, List.sum_append, List.map_cons,
      List.sum_cons] at h ⊢
    rw [chunkDispatch_full (hne c List.mem_cons_self) (by omega),
      ih (fun c' hc' => hne c' (List.mem_cons_of_mem _ hc')) (by omega), List.singleton_append]

theorem chunkDispatch_packet (conn : ConnID) (cmd : BitVec 16) {body : Bytes}
    (h1 : 1 ≤ body.length) (hmax : body.length ≤ maxBody) (h0 : (0 : Byte) ∉ body) :
    chunkDispatch conn (packet cmd body).length (packet cmd body) =
      [(cmd.setWidth 32, conn, body)] := by
  obtain ⟨-, hcmd, hbody⟩ := packet_fields cmd hmax
  have hlt : (packet cmd body).length < 2 ^ 16 := by
    simp only [maxBody] at hmax
    rw [packet_length]
    omega
  have hlong : ¬(packet cmd body).length ≤ 4 := by
    rw [packet_length]
    omega
  simp only [chunkDispatch, Nat.mod_eq_of_lt hlt, if_neg hlong, List.take_length, hcmd, hbody,
    takeWhile_ne_zero_eq_self.mpr h0]

/-- A command and a body as the framing promise covers them. -/
def Sendable (p : BitVec 16 × Bytes) : Prop :=
  1 ≤ p.2.length ∧ p.2.length ≤ maxBody ∧ (0 : Byte) ∉ p.2

/-- The wire images of a sequence of packets, each built by `Pack`. -/
def Wires (ps : List (BitVec 16 × Bytes)) (ws : List Bytes) : Prop :=
  ws.map some = ps.map fun p => packed p.2 p.1

def expected (conn : ConnID) (ps : List (BitVec 16 × Bytes)) :
    List (BitVec 32 × BitVec 32 × Bytes) :=
  ps.map fun p => (p.1.setWidth 32, conn, p.2)

theorem wires_eq {ps : List (BitVec 16 × Bytes)} {ws : List Bytes} (hw : Wires ps ws)
    (hps : ∀ p ∈ ps, Sendable p) : ws = ps.map fun p => packet p.1 p.2 := by
  have hmap : ps.map (fun p => packed p.2 p.1) = (ps.map fun p => packet p.1 p.2).map some := by
    rw [List.map_map]
    exact List.map_congr_left fun p hp => packed_eq p.2 p.1 (hps p hp).2.1
  rw [Wires, hmap] at hw
  exact List.map_injective_iff.mpr (Option.some_injective _) hw

theorem expected_weight (conn : ConnID) (ps : List (BitVec 16 × Bytes)) :
    (expected conn ps).map weight = (ps.map fun p => packet p.1 p.2).map List.length := by
  simp only [expected, List.map_map, Function.comp_def, weight, packet_length]

theorem packets_dispatch (conn : ConnID) {ps : List (BitVec 16 × Bytes)}
    (hps : ∀ p ∈ ps, Sendable p) :
    ((ps.map fun p => packet p.1 p.2).flatMap fun c => chunkDispatch conn c.length c) =
      expected conn ps := by
  induction ps with
  | nil => rfl
  | cons p ps ih =>
    obtain ⟨h1, hmax, h0⟩ := hps p List.mem_cons_self
    simp only [List.map_cons, List.flatMap_cons, expected, chunkDispatch_packet conn p.1 h1 hmax h0,
      List.singleton_append]
    rw [← expected, ih fun q hq => hps q (List.mem_cons_of_mem _ hq)]

theorem chunks_dispatch_iff (conn : ConnID) {ps : List (BitVec 16 × Bytes)} {ws cs : List Bytes}
    (hps : ∀ p ∈ ps, Sendable p) (hw : Wires ps ws) (hne : ∀ c ∈ cs, c ≠ [])
    (hcut : cs.flatten = ws.flatten) :
    (cs.flatMap fun c => chunkDispatch conn c.length c) = expected conn ps ↔ cs = ws := by
  have hws := wires_eq hw hps
  constructor
  · intro h
    have hsum : (cs.map List.length).sum = (ws.map List.length).sum := by
      rw [← List.length_flatten, hcut, List.length_flatten]
    have hweight : (cs.flatMap fun c => chunkDispatch conn c.length c).map weight =
        ws.map List.length := by
      rw [h, expected_weight, hws]
    have hlen := chunkDispatch_lengths hne (by rw [hweight, hsum])
    exact List.eq_iff_flatten_eq.mpr ⟨hcut, hlen.symm.trans hweight⟩
  · intro heq
    subst heq
    rw [hws, packets_dispatch conn hps]

theorem turns_dispatches {p : Pipeline H} {handle : Ptr} {conn : ConnID} {ts : List Turn}
    (hon : p.srv.onlineStream.lookup handle = some conn) (hq : p.srv.recvMessage = [])
    (hd : p.done = []) (hne : ∀ c ∈ chunks ts, c ≠ []) :
    ∃ q, p.turns handle ts = some q ∧ (q.srv.recvMessage = [] →
      dispatches q.done = (chunks ts).flatMap fun c => chunkDispatch conn c.length c) := by
  obtain ⟨q, hturns, hp⟩ := turns_pumped ts hon (by simp [hq]) hne
  refine ⟨q, hturns, fun hempty => ?_⟩
  have hfifo := hp.fifo
  rw [hempty, hq, hd] at hfifo
  simpa [dispatches] using hfifo

/-- The framing promise for one run: the packets `ps`, sent as the wire images
`ws`, are dispatched whichever way the stream was cut into the chunks read. -/
structure Cut (p : Pipeline H) (handle : Ptr) (conn : ConnID) (ts : List Turn)
    (ps : List (BitVec 16 × Bytes)) (ws : List Bytes) : Prop where
  online : p.srv.onlineStream.lookup handle = some conn
  queue : p.srv.recvMessage = []
  done : p.done = []
  sendable : ∀ p ∈ ps, Sendable p
  wires : Wires ps ws
  nonempty : ∀ c ∈ chunks ts, c ≠ []
  stream : (chunks ts).flatten = ws.flatten

/-- Once every chunk is consumed, exactly the packets have been dispatched if and
only if each chunk read was one packet. -/
theorem framing_iff (p : Pipeline H) (handle : Ptr) (conn : ConnID) (ts : List Turn)
    (ps : List (BitVec 16 × Bytes)) (ws : List Bytes) (hcut : Cut p handle conn ts ps ws) :
    ∃ out, p.turns handle ts = some out ∧ (out.srv.recvMessage = [] →
      (dispatches out.done = expected conn ps ↔ chunks ts = ws)) := by
  obtain ⟨out, hturns, hout⟩ :=
    turns_dispatches hcut.online hcut.queue hcut.done hcut.nonempty
  refine ⟨out, hturns, fun hempty => ?_⟩
  rw [hout hempty]
  exact chunks_dispatch_iff conn hcut.sendable hcut.wires hcut.nonempty hcut.stream

def oneClient : Pipeline String :=
  ⟨({} : TCPServer Unit).addConnection 1 64, {}, []⟩

theorem framing_two_reads :
    ∃ out, oneClient.turns 64 [.read [5, 0, 2, 0, 65] [], .poll, .read [5, 0, 2, 0, 66] [], .poll] =
      some out ∧ out.srv.recvMessage = [] ∧
        dispatches out.done = expected 1 [(2, [65]), (2, [66])] := by
  obtain ⟨out, hturns, hiff⟩ := framing_iff oneClient 64 1
    [.read [5, 0, 2, 0, 65] [], .poll, .read [5, 0, 2, 0, 66] [], .poll]
    [(2, [65]), (2, [66])] [[5, 0, 2, 0, 65], [5, 0, 2, 0, 66]]
    ⟨by decide, rfl, rfl, by unfold Sendable; decide, by unfold Wires; decide, by decide, by decide⟩
  have hempty : (oneClient.turns 64 [.read [5, 0, 2, 0, 65] [], .poll, .read [5, 0, 2, 0, 66] [],
      .poll]).map (fun out => out.srv.recvMessage) = some [] := by decide
  rw [hturns, Option.map_some, Option.some.injEq] at hempty
  exact ⟨out, hturns, hempty, (hiff hempty).mpr rfl⟩

/-- The same two packets in one read: one message, with the second packet's
length byte in its body. -/
theorem framing_coalesced :
    ¬∀ (p : Pipeline String) (handle : Ptr) (conn : ConnID) (ts : List Turn)
      (ps : List (BitVec 16 × Bytes)) (ws : List Bytes), Cut p handle conn ts ps ws →
      ∃ out, p.turns handle ts = some out ∧
        (out.srv.recvMessage = [] → dispatches out.done = expected conn ps) := by
  intro h
  obtain ⟨out, hturns, hout⟩ := h oneClient 64 1
    [.read [5, 0, 2, 0, 65, 5, 0, 2, 0, 66] [], .poll] [(2, [65]), (2, [66])]
    [[5, 0, 2, 0, 65], [5, 0, 2, 0, 66]]
    ⟨by decide, rfl, rfl, by unfold Sendable; decide, by unfold Wires; decide, by decide, by decide⟩
  have hrun : (oneClient.turns 64 [.read [5, 0, 2, 0, 65, 5, 0, 2, 0, 66] [], .poll]).map
      (fun q => (q.srv.recvMessage, dispatches q.done)) = some ([], [(2, 1, [65, 5])]) := by
    decide
  rw [hturns, Option.map_some, Option.some.injEq, Prod.mk.injEq] at hrun
  have hdone := hout hrun.1
  rw [hrun.2] at hdone
  exact absurd hdone (by decide)

end GameRes.Server
