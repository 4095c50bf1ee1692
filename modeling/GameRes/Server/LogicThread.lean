import GameRes.Server.Answers

/-!
# The logic thread (Server/Server.cpp, Server/CLogin.cpp, Server/AppManager.cpp)

The main loop can always go on, but for one write behind a block: the description of
a role whose name is too long. While no such answer is due, the two threads bring out
every answer without any help from the network.
-/

namespace GameRes.Server
open Library NetApp
open Protobuf (ProtoMessage parseFromString serializeAsString varintSize32 CGCSendCreateRole)
open CeC2GType CeG2CType

/-! ### Where the thread goes wrong -/

theorem pack_isSome_of_le {c : SendCall} (h : c.body.length ≤ maxBody) : c.pack.isSome := by
  rw [SendCall.pack_isSome]
  exact (Nat.mod_le ..).trans h

/-- The only call that can fail is the last one of a created role. -/
theorem run_overrun {func : CLogin.Handler} {users : UserList} {conn : ConnID} {msg : Bytes}
    (hmsg : msg.length ≤ maxBody) {c : SendCall} {cs : List SendCall}
    (hsuffix : c :: cs <:+ (func.run users conn msg).2) (hc : c.pack = none) :
    cs = [] ∧ ∃ inData, c = sendClient conn G2C_RoleList (CLogin.roleRet inData) := by
  have hbad : ¬c.pack.isSome := by
    rw [hc]
    exact Bool.false_ne_true
  have hmem := hsuffix.mem List.mem_cons_self
  cases func with
  | handleLogin =>
    have hall := (run_packs_iff .handleLogin users conn hmsg).mpr nofun
    exact absurd (hall c hmem) hbad
  | handleSelectRole =>
    have hall := (run_packs_iff .handleSelectRole users conn hmsg).mpr nofun
    exact absurd (hall c hmem) hbad
  | handleCreateRole =>
    simp only [CLogin.Handler.run, CLogin.handleCreateRole] at hsuffix
    split at hsuffix
    · exact absurd (List.suffix_nil.mp hsuffix) (List.cons_ne_nil _ _)
    · next inData _ =>
      have hret : (sendClient conn G2C_RoleCreateRet CLogin.createRet).pack.isSome :=
        pack_isSome_of_le (show (serializeAsString CLogin.createRet).length ≤ maxBody by decide)
      rcases List.suffix_cons_iff.mp hsuffix with heq | hlast
      · rw [(List.cons.inj heq).1] at hbad
        exact absurd hret hbad
      · rcases List.suffix_cons_iff.mp hlast with heq | hnil
        · exact ⟨(List.cons.inj heq).2, inData, (List.cons.inj heq).1⟩
        · exact absurd (List.suffix_nil.mp hnil) (List.cons_ne_nil _ _)

theorem answers_overrun {k : ConnID} {x : Option Bytes} {c : SendCall} {cs : List SendCall}
    (hsuffix : c :: cs <:+ answers k x) (hc : c.pack = none) :
    cs = [] ∧ ∃ inData, c = sendClient k G2C_RoleList (CLogin.roleRet inData) := by
  cases x with
  | none => exact absurd (List.suffix_nil.mp hsuffix) (List.cons_ne_nil _ _)
  | some chunk =>
    rw [answers, served] at hsuffix
    by_cases hnone : chunkDispatch k chunk.length chunk = []
    · rw [hnone] at hsuffix
      exact absurd (List.suffix_nil.mp hsuffix) (List.cons_ne_nil _ _)
    · obtain ⟨⟨cmd, conn, msg⟩, hmem⟩ := List.exists_mem_of_ne_nil _ hnone
      obtain ⟨hone, rfl, hmsg⟩ := chunkDispatch_length hmem
      rw [hone, List.flatMap_cons, List.flatMap_nil, List.append_nil] at hsuffix
      cases hfunc : lastRegistered CLogin.registerMessage cmd with
      | none =>
        rw [hfunc] at hsuffix
        exact absurd (List.suffix_nil.mp hsuffix) (List.cons_ne_nil _ _)
      | some func =>
        rw [hfunc, Option.toList_some, List.map_singleton, runCalls_one] at hsuffix
        exact run_overrun hmsg hsuffix hc

theorem poll_isSome {g : GameServer} (hg : Serving g) : ∃ u, g.poll = some u := by
  unfold GameServer.poll
  cases hrecv : g.world.srv.recvMessage with
  | nil =>
    simp only [TCPServer.getRecvMessage, hrecv]
    exact ⟨g, rfl⟩
  | cons m rest =>
    simp only [TCPServer.getRecvMessage, hrecv]
    cases hbuf : m.buf with
    | none => exact ⟨_, rfl⟩
    | some block =>
      have hmem : m ∈ pushes g.world :=
        List.mem_append_right _ (by rw [hrecv]; exact List.mem_cons_self)
      obtain ⟨d', -, heq⟩ :=
        receive_eq hg.registered g.users m.conn (hg.world.blocks m hmem block hbuf)
      rw [heq]
      exact ⟨_, rfl⟩

/-- No step of the logic thread is left. -/
def GameServer.Failed (g : GameServer) : Prop := ∀ e u, GameServer.Step g e u → ∃ e', e = .net e'

theorem roleRet_pack (conn : ConnID) (inData : CGCSendCreateRole) :
    (sendClient conn G2C_RoleList (CLogin.roleRet inData)).pack = none ↔
      maxBody < roleRetLength inData % 2 ^ 16 := by
  have hsome := SendCall.pack_isSome (sendClient conn G2C_RoleList (CLogin.roleRet inData))
  rw [show (sendClient conn G2C_RoleList (CLogin.roleRet inData)).body.length =
    roleRetLength inData from roleRet_length inData] at hsome
  rw [← Option.not_isSome_iff_eq_none, hsome, not_le]

theorem failed_of_role {g : GameServer} {m : Message} {inData : CGCSendCreateRole}
    (hcurrent : g.current = some m)
    (hsends : g.sends = [sendClient m.conn G2C_RoleList (CLogin.roleRet inData)])
    (hlong : maxBody < roleRetLength inData % 2 ^ 16) : g.Failed := by
  intro e u hstep
  have hnone := (roleRet_pack m.conn inData).mpr hlong
  cases hstep with
  | net hnet hnext => exact ⟨_, rfl⟩
  | poll hidle hpoll => exact absurd (hcurrent.symm.trans hidle) (by simp)
  | send hcurrent' hsends' hsend =>
    rw [hsends] at hsends'
    rw [GameServer.send, ← (List.cons.inj hsends').1, hnone] at hsend
    exact absurd hsend (by simp)
  | done hcurrent' hsends' =>
    rw [hsends] at hsends'
    exact absurd hsends' (List.cons_ne_nil _ _)

/-- In every reachable state the logic thread can take its next step, except exactly
where it is about to answer with a role that leaves no room for the header. -/
theorem logic_thread_fails_iff (tr : List (GameServer × GameEvent)) (g : GameServer)
    (hrun : Run GameServer.Step {} tr g) :
    g.Failed ↔ ∃ m inData, g.current = some m ∧
      g.sends = [sendClient m.conn G2C_RoleList (CLogin.roleRet inData)] ∧
      maxBody < roleRetLength inData % 2 ^ 16 := by
  have hg := serving_run hrun
  constructor
  · intro hfailed
    have hno : ∀ e u, GameServer.Step g e u → (∀ e', e ≠ .net e') → False := fun e u hstep hne =>
      (hfailed e u hstep).elim hne
    cases hcurrent : g.current with
    | none =>
      obtain ⟨u, hu⟩ := poll_isSome hg
      exact (hno _ _ (.poll hcurrent hu) nofun).elim
    | some m =>
      cases hsends : g.sends with
      | nil => exact (hno _ _ (.done hcurrent hsends) nofun).elim
      | cons c cs =>
        have hpack : c.pack = none := by
          by_contra hsome
          obtain ⟨r, hr⟩ := Option.ne_none_iff_exists'.mp hsome
          exact hno _ _ (.send hcurrent hsends (congrArg (Option.map _) hr)) nofun
        have hsuffix := (hg.busy m hcurrent).2
        rw [hsends] at hsuffix
        obtain ⟨rfl, inData, rfl⟩ := answers_overrun hsuffix hpack
        exact ⟨m, inData, rfl, rfl, (roleRet_pack _ _).mp hpack⟩
  · rintro ⟨m, inData, hcurrent, hsends, hlong⟩
    exact failed_of_role hcurrent hsends hlong

/-- The answer to a login is about to be sent. -/
theorem logic_thread_fails_iff_login : ¬taken.Failed := by
  have hrun := ((Run.nil.snoc accept_step).snoc asking_step).snoc taken_step
  have hsends : taken.sends = [⟨1, 1, [0x0A, 0x01, 0x61]⟩] := rfl
  intro hfailed
  obtain ⟨m, inData, -, hrole, -⟩ := (logic_thread_fails_iff _ _ hrun).mp hfailed
  rw [hsends] at hrole
  have hcmd : (1 : BitVec 32) = G2C_RoleList := congrArg SendCall.cmd (List.cons.inj hrole).1
  exact absurd hcmd (by decide)

/-! ### A name that is too long -/

theorem varintSize32_three {n : ℕ} (h : 2 ^ 14 ≤ n) (h' : n < 2 ^ 21) :
    varintSize32 (BitVec.ofNat 32 n) = 3 := by
  have hnat : (BitVec.ofNat 32 n).toNat = n := by
    rw [BitVec.toNat_ofNat]
    omega
  rw [Protobuf.varintSize32_eq, Protobuf.writeVarint32ToArray_eq, hnat,
    varint_length (j := 2) ⟨by omega, Or.inr (by omega)⟩ (by decide)]

/-- A request for a role with this name and nothing else. -/
def named (name : Bytes) : CGCSendCreateRole := { nickName := some name }

theorem named_length {name : Bytes} (h : 2 ^ 14 ≤ name.length) (h' : name.length < 2 ^ 21) :
    (serializeAsString (named name)).length = name.length + 4 ∧
      roleRetLength (named name) = name.length + 53 := by
  have hsize := Protobuf.Message.byteSize_eq (ProtoMessage.members (named name))
  have hthree := varintSize32_three h h'
  refine ⟨?_, ?_⟩
  · rw [serializeAsString, ← hsize]
    show 1 + (varintSize32 (BitVec.ofNat 32 name.length) + name.length) + 0 + 0 = _
    rw [hthree]
    omega
  · show 49 + varintSize32 (BitVec.ofNat 32 name.length) + name.length + 1 = _
    rw [hthree]
    omega

theorem named_encodable {name : Bytes} (h : name.length < 2 ^ 31) :
    Protobuf.Encodable (named name) := by
  refine ⟨⟨nofun, nofun, fun v hv => ?_, nofun, trivial⟩, fun u hu => absurd hu List.not_mem_nil⟩
  rw [← Option.some.inj hv]
  exact h

/-- What is sent to who asks for this role. -/
theorem named_answers {name : Bytes} (h0 : (0 : Byte) ∉ name) (hwords : 2 ^ 14 ≤ name.length)
    (hmax : name.length + 4 ≤ maxBody) (k : ConnID) :
    answers k (some (packet 3 (serializeAsString (named name)))) =
      [sendClient k G2C_RoleCreateRet CLogin.createRet,
        sendClient k G2C_RoleList (CLogin.roleRet (named name))] := by
  simp only [maxBody] at hmax
  have hlen := (named_length hwords (by omega)).1
  have hencodable : Protobuf.Encodable (named name) := named_encodable (by omega)
  have hbody : (serializeAsString (named name)).length ≤ maxBody := by
    rw [hlen]
    exact hmax
  have hne : name ≠ [] := List.ne_nil_of_length_pos (by omega)
  have hsome : serializeAsString (named name) ≠ [] := List.ne_nil_of_length_pos (by omega)
  have hkept : ¬(serializeAsString (named name) = [] ∨
      (0 : Byte) ∈ serializeAsString (named name)) := by
    rw [or_iff_right hsome, createRole_zero_iff hencodable rfl]
    simp only [named, reduceCtorEq, Option.some.injEq, exists_eq_left', false_or, or_false]
    exact not_or.mpr ⟨hne, h0⟩
  have hserved := served_request ∅ k (r := .createRole (named name)) hencodable hbody
  rw [Request.body, if_neg hkept] at hserved
  rw [answers, show (3 : BitVec 16) = Request.cmd (.createRole (named name)) from rfl, hserved]
  rfl

/-- The first client is accepted, its first chunk arrives, and the logic thread takes it. -/
theorem first_taken {chunk : Bytes} (hne : chunk ≠ []) (hlen : chunk.length < 2 ^ 31) :
    ∃ tr g m, Run GameServer.Step {} tr g ∧ delivered 0 g.world = [some chunk] ∧
      g.current = some m ∧ m.conn = 1 ∧ g.sends = answers 1 (some chunk) := by
  have haccept := GameServer.Step.net (g := {}) (e := .accept 64) trivial
    (Step.accept (by decide) rfl)
  have hreading : Reading (({} : World).accept 64) 64 { serial := 0 } := ⟨rfl, rfl, rfl⟩
  have hread := GameServer.Step.net (g := { world := ({} : World).accept 64 })
    (e := .readData 64 chunk []) trivial (Step.readData hreading hne hlen)
  have harrived := (Run.nil.snoc haccept).snoc hread
  have hserving := serving_run harrived
  obtain ⟨k, hk, -, hworld⟩ : ∃ k, _ ∧ _ ∧ World.readData _ _ _ chunk [] = _ :=
    (serving_run (Run.nil.snoc haccept)).world.sound.readData_eq hreading hne
  obtain rfl : k = 1 := (Option.some.inj hk).symm
  obtain ⟨g, hpoll⟩ := poll_isSome hserving
  rcases poll_cases hserving hpoll with ⟨hnil, -⟩ | ⟨m, rest, hrecv, hpop, -, hsends, hcurrent, -⟩
  · dsimp only at hnil
    rw [hworld] at hnil
    exact absurd hnil (List.cons_ne_nil _ _)
  · dsimp only at hrecv hpop
    rw [hworld] at hrecv
    obtain ⟨rfl, -⟩ := List.cons.inj hrecv
    have hcontent : content ⟨1, BitVec.ofInt 32 chunk.length, some (chunk ++ []), some 0⟩ =
        some chunk := by
      have hnat : (BitVec.ofInt 32 chunk.length).toNat = chunk.length := by
        rw [BitVec.toNat_ofInt]
        omega
      rw [content, Option.map_some, hnat, List.take_left]
    rw [hcontent] at hsends
    refine ⟨_, g, _, harrived.snoc (GameServer.Step.poll rfl hpoll), ?_, hcurrent, rfl, hsends⟩
    rw [hpop, delivered, (still_pop _).reads, hworld]
    rfl

/-- Whoever asks for a role with a name of 65479 to 65482 bytes makes the server write
behind a block. -/
theorem long_name_fails (name : Bytes) (h0 : (0 : Byte) ∉ name) (hlong : 65479 ≤ name.length)
    (hmax : name.length ≤ 65482) : ∃ tr g, Run GameServer.Step {} tr g ∧
      delivered 0 g.world = [some (packet 3 (serializeAsString (named name)))] ∧ g.Failed := by
  have hwords : 2 ^ 14 ≤ name.length := by omega
  obtain ⟨hlen, hrole⟩ := named_length hwords (by omega)
  have hroom : name.length + 4 ≤ maxBody := by
    simp only [maxBody]
    omega
  have hsize : (packet 3 (serializeAsString (named name))).length = name.length + 8 := by
    rw [packet_length, hlen]
  have hne : packet 3 (serializeAsString (named name)) ≠ [] :=
    List.ne_nil_of_length_pos (by omega)
  obtain ⟨tr, g, m, hrun, hdelivered, hcurrent, hconn, hsends⟩ := first_taken hne (by omega)
  rw [named_answers h0 hwords hroom] at hsends
  -- The first answer goes out, and the second one overruns its block.
  have hret : (sendClient 1 G2C_RoleCreateRet CLogin.createRet).pack.isSome :=
    pack_isSome_of_le (show (serializeAsString CLogin.createRet).length ≤ maxBody by decide)
  obtain ⟨r, hr⟩ := Option.isSome_iff_exists.mp hret
  refine ⟨_, _, hrun.snoc (GameServer.Step.send hcurrent hsends (congrArg _ hr)), hdelivered, ?_⟩
  have hrest : g.sends.tail = [sendClient m.conn G2C_RoleList (CLogin.roleRet (named name))] := by
    rw [hsends, hconn]
    rfl
  refine failed_of_role hcurrent hrest ?_
  rw [hrole]
  simp only [maxBody]
  omega

theorem long_name_fails_65479 : ∃ tr g, Run GameServer.Step {} tr g ∧
    delivered 0 g.world =
      [some (packet 3 (serializeAsString (named (List.replicate 65479 0x61))))] ∧ g.Failed :=
  long_name_fails (List.replicate 65479 0x61)
    (fun hmem => absurd (List.eq_of_mem_replicate hmem) (by decide))
    (by rw [List.length_replicate]) (by rw [List.length_replicate]; decide)

/-! ### Every answer comes out -/

theorem ticking_next {g u : GameServer} {e : GameEvent} (h : Ticking g.world) (hg : Serving g)
    (hstep : GameServer.Step g e u) : Ticking u.world := by
  refine ticking_step h hg.world.sound ?_ (step_world hg hstep).1
  cases hstep with
  | net hnet hnext =>
    rintro rfl
    exact hnet
  | send hcurrent hsends hsend =>
    obtain ⟨r, hr, -⟩ := Option.map_eq_some_iff.mp hsend
    simp only [GameEvent.event, hcurrent, hsends, hr]
    exact fun heq => by cases heq
  | poll hidle hpoll => exact fun heq => by cases heq
  | done hcurrent hsends =>
    simp only [GameEvent.event, hcurrent]
    exact fun heq => by cases heq

theorem ticking_run {tr : List (GameServer × GameEvent)} {g : GameServer}
    (hrun : Run GameServer.Step {} tr g) : Ticking g.world := by
  induction hrun with
  | nil => exact ⟨rfl, by decide⟩
  | snoc hprev hlast ih => exact ticking_next ih (serving_run hprev) hlast

theorem answers_length (k : ConnID) (x : Option Bytes) : (answers k x).length ≤ 2 := by
  have hrun : ∀ (func : CLogin.Handler) (msg : Bytes), (func.run ∅ k msg).2.length ≤ 2 := by
    intro func msg
    cases func with
    | handleLogin =>
      simp only [CLogin.Handler.run, CLogin.handleLogin]
      split <;> simp
    | handleCreateRole =>
      simp only [CLogin.Handler.run, CLogin.handleCreateRole]
      split <;> simp
    | handleSelectRole =>
      simp only [CLogin.Handler.run, CLogin.handleSelectRole]
      split <;> simp
  cases x with
  | none => exact Nat.zero_le _
  | some chunk =>
    rw [answers, served]
    by_cases hnone : chunkDispatch k chunk.length chunk = []
    · rw [hnone]
      exact Nat.zero_le _
    · obtain ⟨⟨cmd, conn, msg⟩, hmem⟩ := List.exists_mem_of_ne_nil _ hnone
      obtain ⟨hone, rfl, -⟩ := chunkDispatch_length hmem
      rw [hone, List.flatMap_cons, List.flatMap_nil, List.append_nil]
      cases lastRegistered CLogin.registerMessage cmd with
      | none => exact Nat.zero_le _
      | some func =>
        rw [Option.toList_some, List.map_singleton, runCalls_one]
        exact hrun func msg

/-- No answer that is due overruns its block. -/
def NoOverrun (g : GameServer) : Prop :=
  (∀ c ∈ g.sends, c.pack.isSome) ∧
    ∀ m ∈ g.world.srv.recvMessage, ∀ c ∈ answers m.conn (content m), c.pack.isSome

/-- The steps the server takes without the network: those of the logic thread, and ticks. -/
def GameEvent.Own : GameEvent → Prop
  | .net e => e = .timer 0
  | _ => True

/-- Nothing is left to do: no message, no answer, no packet. -/
structure Drained (g : GameServer) : Prop where
  current : g.current = none
  sends : g.sends = []
  recv : g.world.srv.recvMessage = []
  send : g.world.srv.sendMessage = []

/-- What a state has to do: a chunk costs a poll, two calls with their ticks, and the return. -/
def work (g : GameServer) : ℕ :=
  6 * g.world.srv.recvMessage.length + 2 * g.sends.length + g.current.toList.length +
    g.world.srv.sendMessage.length

/-- What the server's own steps leave alone. -/
structure Same (w u : World) : Prop where
  seen : ∀ p, u.seen p = w.seen p
  given : u.given = w.given
  reads : u.reads = w.reads

theorem Same.trans {w u v : World} (h : Same w u) (h' : Same u v) : Same w v :=
  ⟨fun p => (h'.seen p).trans (h.seen p), h'.given.trans h.given, h'.reads.trans h.reads⟩

/-- The logic thread takes the next message: its two answers at most cost less than it did. -/
theorem own_poll {g : GameServer} (hg : Serving g) (hno : NoOverrun g) (hcurrent : g.current = none)
    {m : Message} {rest : List Message} (hrecv : g.world.srv.recvMessage = m :: rest) :
    ∃ u, g.poll = some u ∧ NoOverrun u ∧ Same g.world u.world ∧ work u < work g := by
  obtain ⟨u, hpoll⟩ := poll_isSome hg
  rcases poll_cases hg hpoll with ⟨hnil, -⟩ | ⟨m', rest', hrecv', hworld, -, hsends, hcur, -⟩
  · rw [hrecv] at hnil
    exact absurd hnil (List.cons_ne_nil _ _)
  · rw [hrecv] at hrecv'
    obtain ⟨rfl, rfl⟩ := List.cons.inj hrecv'
    have hrest := (pop_cons hrecv).1
    have hsend : g.world.pop.srv.sendMessage = g.world.srv.sendMessage := by
      simp only [World.pop, TCPServer.getRecvMessage, hrecv]
    have hquiet := quiet_pop g.world
    have hanswers := answers_length m.conn (content m)
    have hcurrent' : u.current.toList.length ≤ 1 := by
      rw [hcur]
      split_ifs <;> simp
    refine ⟨u, hpoll, ⟨?_, ?_⟩, ?_, ?_⟩
    · rw [hsends]
      exact hno.2 m (by rw [hrecv]; exact List.mem_cons_self)
    · rw [hworld, hrest]
      exact fun m' hm' => hno.2 m' (by rw [hrecv]; exact List.mem_cons_of_mem m hm')
    · rw [hworld]
      exact ⟨hquiet.seen, hquiet.given, (still_pop g.world).reads⟩
    · simp only [work, hworld, hrest, hsends, hrecv, hg.idle hcurrent, hcurrent, hsend,
        List.length_cons, Option.toList_none, List.length_nil]
      omega

/-- A step of its own that the server can take. -/
theorem own_step {g : GameServer} (hg : Serving g) (hticking : Ticking g.world)
    (hno : NoOverrun g) (hwork : ¬Drained g) :
    ∃ e u, GameServer.Step g e u ∧ e.Own ∧ NoOverrun u ∧ Same g.world u.world ∧ work u < work g := by
  cases hcurrent : g.current with
  | some m =>
    cases hsends : g.sends with
    | nil =>
      refine ⟨.done, _, .done hcurrent hsends, trivial, hno, ⟨fun _ => rfl, rfl, rfl⟩, ?_⟩
      simp only [work, hcurrent, Option.toList_some, Option.toList_none, List.length_singleton,
        List.length_nil]
      omega
    | cons c cs =>
      obtain ⟨r, hr⟩ := Option.isSome_iff_exists.mp
        (hno.1 c (by rw [hsends]; exact List.mem_cons_self))
      refine ⟨.send, _, .send hcurrent hsends (congrArg _ hr), trivial, ⟨fun c' hc' => ?_, hno.2⟩,
        ⟨fun _ => rfl, rfl, rfl⟩, ?_⟩
      · exact hno.1 c' (List.mem_of_mem_tail hc')
      · simp only [work, hsends, List.tail_cons, TCPServer.pushSendMessage, List.length_append,
          List.length_cons, List.length_nil]
        omega
  | none =>
    cases hrecv : g.world.srv.recvMessage with
    | cons m rest =>
      obtain ⟨u, hpoll, hu⟩ := own_poll hg hno hcurrent hrecv
      exact ⟨.poll, u, .poll hcurrent hpoll, trivial, hu⟩
    | nil =>
      have hne : g.world.srv.sendMessage ≠ [] := fun hsend =>
        hwork ⟨hcurrent, hg.idle hcurrent, hrecv, hsend⟩
      obtain ⟨hrecv', -, hsend⟩ := tick_queues g.world 0
      have hquiet := quiet_tick g.world 0
      have hpos := List.length_pos_iff.mpr hne
      refine ⟨.net (.timer 0), _, .net trivial (.timer hticking.1), rfl, ⟨hno.1, ?_⟩,
        ⟨hquiet.seen, hquiet.given, (tick_popped g.world 0).2⟩, ?_⟩
      · rw [hrecv', hrecv]
        exact fun m hm => absurd hm List.not_mem_nil
      · simp only [work, hrecv', hsend, List.length_tail]
        omega

/-- From every reachable state in which no answer that is due overruns its block, steps
of the two threads alone lead to a state where nothing is left to do and every client
that is online, with an id no other had, has all the answers to what it had sent. -/
theorem answers_come_out (tr : List (GameServer × GameEvent)) (g : GameServer)
    (hrun : Run GameServer.Step {} tr g) (hno : NoOverrun g) :
    ∃ tr' u, Run GameServer.Step g tr' u ∧ (∀ x ∈ tr', x.2.Own) ∧ Drained u ∧
      ∀ p n k, g.world.seen p = some (n, false) → g.world.given[n]? = some k →
        accepted k g.world = [n] → writtenOn n u.world = (delivered n g.world).flatMap (replies k) := by
  have hmove : ∀ t, (Serving t ∧ Ticking t.world ∧ NoOverrun t ∧ Same g.world t.world) →
      ¬Drained t → ∃ e u, GameServer.Step t e u ∧ e.Own ∧
        (Serving u ∧ Ticking u.world ∧ NoOverrun u ∧ Same g.world u.world) ∧ work u < work t := by
    intro t ⟨ht, hticking, hok, hsame⟩ hnot
    obtain ⟨e, u, hstep, hown, hok', hsame', hless⟩ := own_step ht hticking hok hnot
    exact ⟨e, u, hstep, hown, ⟨serving_step ht hstep, ticking_next hticking ht hstep, hok',
      hsame.trans hsame'⟩, hless⟩
  obtain ⟨tr', u, hmore, hown, ⟨-, -, -, hsame⟩, hdrained⟩ := Run.exists_done work hmove
    ⟨serving_run hrun, ticking_run hrun, hno, fun _ => rfl, rfl, rfl⟩
  refine ⟨tr', u, hmore, hown, hdrained, fun p n k hseen hk hone => ?_⟩
  have haccepted : accepted k u.world = [n] := by
    rw [accepted, hsame.given, ← accepted, hone]
  have hall := (answering_run (hrun.append hmore)).live p n k (hsame.seen p ▸ hseen)
    (hsame.given ▸ hk) haccepted
  have hnone : upcoming k u = [] := by
    rw [upcoming, queued, hdrained.recv, hdrained.sends, hdrained.send]
    rfl
  rw [hnone, List.append_nil, delivered, hsame.reads, ← delivered] at hall
  exact hall

theorem answers_come_out_login :
    ∃ tr' u, Run GameServer.Step loggedIn tr' u ∧ (∀ x ∈ tr', x.2.Own) ∧ Drained u ∧
      ∀ p n k, loggedIn.world.seen p = some (n, false) → loggedIn.world.given[n]? = some k →
        accepted k loggedIn.world = [n] →
        writtenOn n u.world = (delivered n loggedIn.world).flatMap (replies k) :=
  answers_come_out loginTrace loggedIn loggedIn_run ⟨nofun, nofun⟩

/-! ### The roles of the users -/

/-- The role that a chunk asks for. -/
def roleAsked (k : ConnID) (chunk : Bytes) : Option CGCSendCreateRole :=
  (chunkDispatch k chunk.length chunk).head?.bind fun x =>
    if x.1 = C2G_CreateRole then parseFromString CGCSendCreateRole x.2.2 else none

def created (m : Message) : Option CGCSendCreateRole := (content m).bind (roleAsked m.conn)

theorem served_users (users : UserList) (k : ConnID) (chunk : Bytes) :
    (served users k chunk).1 = (roleAsked k chunk).elim users (users.insert k) := by
  by_cases hnone : chunkDispatch k chunk.length chunk = []
  · rw [served, roleAsked, hnone]
    rfl
  · obtain ⟨⟨cmd, conn, msg⟩, hmem⟩ := List.exists_mem_of_ne_nil _ hnone
    obtain ⟨hone, rfl, -⟩ := chunkDispatch_length hmem
    have hreg := lastRegistered_login cmd
    rw [served, roleAsked, hone, List.head?_cons, Option.bind_some, List.flatMap_cons,
      List.flatMap_nil, List.append_nil, hreg]
    dsimp only
    split_ifs with h2 h3 h4 h5
    · rw [h2] at h3
      exact absurd h3 (by decide)
    · rw [Option.toList_some, List.map_singleton, runCalls_one, CLogin.Handler.run,
        CLogin.handleLogin]
      split <;> rfl
    · rw [Option.toList_some, List.map_singleton, runCalls_one, CLogin.Handler.run,
        CLogin.handleCreateRole]
      cases parseFromString CGCSendCreateRole msg <;> rfl
    · rw [Option.toList_some, List.map_singleton, runCalls_one, CLogin.Handler.run,
        CLogin.handleSelectRole]
      split <;> rfl
    · rfl

theorem taken_users (users : UserList) (m : Message) :
    ((content m).elim users fun chunk => (served users m.conn chunk).1) =
      (created m).elim users (users.insert m.conn) := by
  rw [created]
  cases content m with
  | none => rfl
  | some chunk => exact served_users users m.conn chunk

theorem lookup_taken {users : UserList} {k : ConnID} {ms : List Message}
    (h : users.lookup k = ((ms.filter (·.conn = k)).filterMap created).getLast?) (m : Message) :
    ((created m).elim users (users.insert m.conn)).lookup k =
      (((ms ++ [m]).filter (·.conn = k)).filterMap created).getLast? := by
  rw [List.filter_append, List.filterMap_append]
  by_cases hm : m.conn = k
  · rw [List.filter_cons_of_pos (by simpa using hm), List.filter_nil]
    cases hcreated : created m with
    | none => simpa [hcreated] using h
    | some inData => simp [hcreated, hm]
  · rw [List.filter_cons_of_neg (by simpa using hm), List.filter_nil, List.filterMap_nil,
      List.append_nil]
    cases created m with
    | none => exact h
    | some inData =>
      rw [Option.elim_some, AList.lookup_insert_ne (Ne.symm hm)]
      exact h

/-- `m_UserList` has, for every id, the last role that was asked for under the id, by
whichever of the connections that had it; the end of a connection removes nothing. -/
theorem users_are_last_roles (tr : List (GameServer × GameEvent)) (g : GameServer)
    (hrun : Run GameServer.Step {} tr g) (k : ConnID) :
    g.users.lookup k = ((g.world.popped.filter (·.conn = k)).filterMap created).getLast? := by
  induction hrun with
  | nil => rfl
  | @snoc tr t e u hprev hlast ih =>
    cases hlast with
    | net hnet hnext =>
      show t.users.lookup k = _
      rw [ih, (network_handling hnet hnext).2]
    | send hcurrent hsends hsend =>
      obtain ⟨r, hr, rfl⟩ := Option.map_eq_some_iff.mp hsend
      exact ih
    | done hcurrent hsends => exact ih
    | poll hidle hpoll =>
      rcases poll_cases (serving_run hprev) hpoll with
        ⟨-, rfl⟩ | ⟨m, rest, hrecv, hworld, -, -, -, husers⟩
      · exact ih
      · rw [hworld, (pop_cons hrecv).2.1, husers, taken_users]
        exact lookup_taken ih m

theorem users_are_last_roles_created : ∃ tr g, Run GameServer.Step {} tr g ∧
    delivered 0 g.world = [some (packet 3 [0x08, 0x01])] ∧
      g.users.lookup 1 = some { u32VocationID := some 1 } := by
  let asked : GameServer :=
    { world := (({} : World).accept 64).readData 64 { serial := 0 } (packet 3 [0x08, 0x01]) [] }
  have hasked : GameServer.Step { world := ({} : World).accept 64 }
      (.net (.readData 64 (packet 3 [0x08, 0x01]) [])) asked :=
    .net trivial (.readData ⟨rfl, rfl, rfl⟩ (by decide) (by decide))
  have htaken : GameServer.Step asked .poll (asked.poll.getD asked) := .poll rfl rfl
  have hrun := ((Run.nil.snoc accept_step).snoc hasked).snoc htaken
  refine ⟨_, _, hrun, by decide, ?_⟩
  rw [users_are_last_roles _ _ hrun 1]
  rfl

end GameRes.Server
