import GameRes.Server.MessageDispatch
import GameRes.Server.World

/-!
# Lengths on the way out and in (Server/AppManager.cpp:5-96, NetApp/NetFrame.cpp:66-121)

`SendClient` narrows the size of a body to 16 bits before `Pack` adds the
header, `RecivedMessage` narrows the size of a chunk before `Parse` takes the
header off. The block of `Pack` is sized by the sum and filled by the summand.
-/

namespace GameRes.Server
open Library NetApp

/-! ### `Pack` and its block -/

theorem pack_take (head : MessageHead) {msg : Bytes} {length : BitVec 16} (cmd : BitVec 16)
    (h : length.toNat ≤ msg.length) :
    pack head msg length cmd = pack head (msg.take length.toNat) length cmd := by
  have hlen : (msg.take length.toNat).length = length.toNat := by
    rw [List.length_take]
    omega
  have hread : readBlock msg 0 length.toNat = readBlock (msg.take length.toNat) 0 length.toNat := by
    rw [readBlock_of_le (by omega), readBlock_of_le (by omega), List.drop_zero, List.drop_zero,
      List.take_take, Nat.min_self]
  simp only [pack, hread]

theorem pack_of_room (head : MessageHead) {msg : Bytes} {length : BitVec 16} (cmd : BitVec 16)
    (h : length.toNat ≤ msg.length) (hmax : length.toNat ≤ maxBody) :
    pack head msg length cmd = some (packet cmd (msg.take length.toNat) ++ [0],
      { head with len := BitVec.ofNat 16 (length.toNat + 4) }) := by
  have hlen : (msg.take length.toNat).length = length.toNat := by
    rw [List.length_take]
    omega
  have hword : BitVec.ofNat 16 (msg.take length.toNat).length = length := by
    rw [hlen, BitVec.ofNat_toNat, BitVec.setWidth_eq]
  have hpack := pack_eq head (msg.take length.toNat) cmd (by rw [hlen]; exact hmax)
  rw [hword, hlen] at hpack
  rw [pack_take head cmd h, hpack]

theorem pack_some {head out : MessageHead} {msg block : Bytes} {length cmd : BitVec 16}
    (h : pack head msg length cmd = some (block, out)) :
    length.toNat + 4 ≤ (4 + length.toNat) % 2 ^ 16 + 1 := by
  simp only [pack, Option.bind_eq_bind, Option.bind_eq_some_iff] at h
  obtain ⟨first, h1, second, h2, body, hbody, third, h3, -⟩ := h
  have hsize := readBlock_some hbody
  have hfirst := (writeBlock_some h1).2
  have hsecond := (writeBlock_some h2).2
  have hthird := (writeBlock_some h3).1
  rw [zeroBlock_length, BitVec.toNat_ofNat] at hfirst
  omega

theorem pack_isSome_iff (head : MessageHead) {msg : Bytes} {length : BitVec 16} (cmd : BitVec 16)
    (h : length.toNat ≤ msg.length) :
    (pack head msg length cmd).isSome ↔ length.toNat ≤ maxBody := by
  constructor
  · intro hsome
    obtain ⟨r, hr⟩ := Option.isSome_iff_exists.mp hsome
    have hroom := pack_some hr
    have hlt := length.isLt
    simp only [maxBody]
    omega
  · intro hmax
    rw [pack_of_room head cmd h hmax, Option.isSome_some]

/-! ### What `SendClient` pushes -/

/-- A message with the whole body behind its header, and `|body| + 4` as pushed
and as embedded length. -/
structure Whole (m : Message) (conn : ConnID) (body : Bytes) : Prop where
  conn : m.conn = conn
  len : m.len.toNat = body.length + 4
  block : ∃ block, m.buf = some block ∧ (word16 (block.take 2)).toNat = body.length + 4 ∧
    readBlock block 4 body.length = some body

/-- `SendClient` refuses, or pushes one message and that whole. -/
def SendsWhole (w : World) (conn : ConnID) (cmd : BitVec 32) (body : Bytes) : Prop :=
  w.sendClient conn cmd body = some w ∨
    ∃ m, w.sendClient conn cmd body = some (w.push conn m.buf m.len) ∧ Whole m conn body

theorem push_ne (w : World) (conn : ConnID) (buf : Option Bytes) (len : BitVec 32) :
    w.push conn buf len ≠ w := by
  intro h
  have hlen := congrArg (fun u : World => u.srv.sendMessage.length) h
  simp only [World.push, TCPServer.pushSendMessage, List.length_append, List.length_cons,
    List.length_nil] at hlen
  omega

theorem whole_packet (conn : ConnID) (cmd : BitVec 16) {body : Bytes} (h : body.length ≤ maxBody) :
    Whole ⟨conn, (BitVec.ofNat 16 (body.length + 4)).setWidth 32,
      some (packet cmd body ++ [0]), none⟩ conn body := by
  have htotal := total_toNat h
  obtain ⟨hlen, -, hbody⟩ := packet_fields cmd h
  refine ⟨rfl, ?_, packet cmd body ++ [0], rfl, ?_, ?_⟩
  · rw [BitVec.toNat_setWidth, htotal]
    simp only [maxBody] at h
    omega
  · have htake : (packet cmd body ++ [0]).take 2 = (packet cmd body).take 2 :=
      List.take_append_of_le_length (by rw [packet_length]; omega)
    rw [htake, hlen, htotal]
  · have hdrop : (packet cmd body ++ [0]).drop 4 = body ++ [0] := by
      rw [List.drop_append_of_le_length (by rw [packet_length]; omega), hbody]
    rw [readBlock_of_le (by simp only [List.length_append, packet_length]; omega), hdrop,
      List.take_left]

theorem sendsWhole_of_le (w : World) (conn : ConnID) (cmd : BitVec 32) {body : Bytes}
    (h : body.length ≤ maxBody) : SendsWhole w conn cmd body := by
  refine Or.inr ⟨_, ?_, whole_packet conn (cmd.setWidth 16) h⟩
  rw [World.sendClient, pack_eq _ _ _ h, Option.map_some]

theorem sendClient_some {w u : World} {conn : ConnID} {cmd : BitVec 32} {body : Bytes}
    (h : w.sendClient conn cmd body = some u) :
    body.length % 2 ^ 16 ≤ maxBody ∧ ∃ block,
      u = w.push conn (some block) ((BitVec.ofNat 16 (body.length % 2 ^ 16 + 4)).setWidth 32) := by
  have hmod : (BitVec.ofNat 16 body.length).toNat = body.length % 2 ^ 16 := BitVec.toNat_ofNat ..
  have hread : (BitVec.ofNat 16 body.length).toNat ≤ body.length := by
    rw [hmod]
    exact Nat.mod_le ..
  obtain ⟨r, hr, hpush⟩ := Option.map_eq_some_iff.mp h
  have hmax := (pack_isSome_iff {} (cmd.setWidth 16) hread).mp (by rw [hr]; rfl)
  have hroom := pack_of_room {} (cmd.setWidth 16) hread hmax
  rw [hr] at hroom
  rw [Option.some.inj hroom, hmod] at hpush
  rw [hmod] at hmax
  exact ⟨hmax, _, hpush.symm⟩

theorem le_of_sendsWhole {w : World} {conn : ConnID} {cmd : BitVec 32} {body : Bytes}
    (h : SendsWhole w conn cmd body) : body.length ≤ maxBody := by
  rcases h with h | ⟨m, h, hwhole⟩
  · obtain ⟨-, block, hpush⟩ := sendClient_some h
    exact absurd hpush.symm (push_ne w conn _ _)
  · obtain ⟨hmax, block, hpush⟩ := sendClient_some h
    have hsent := congrArg (fun u : World => u.srv.sendMessage.getLast?) hpush
    simp only [World.push, TCPServer.pushSendMessage, List.getLast?_append_cons,
      List.getLast?_singleton, Option.some.injEq, MessageInfo.mk.injEq] at hsent
    have hm := hwhole.len
    rw [hsent.2.1, BitVec.toNat_setWidth, BitVec.toNat_ofNat] at hm
    simp only [maxBody] at hmax ⊢
    omega

/-- `SendClient` sends a whole packet exactly for the bodies that leave room for
the header in a 16-bit length, and `Pack` stays inside its block for the same. -/
theorem sendClient_whole_iff (w : World) (conn : ConnID) (cmd : BitVec 32) (body : Bytes)
    (head : MessageHead) (msg : Bytes) (length cmdIn : BitVec 16) (h : length.toNat ≤ msg.length) :
    (SendsWhole w conn cmd body ↔ body.length ≤ maxBody) ∧
      ((pack head msg length cmdIn).isSome ↔ length.toNat ≤ maxBody) :=
  ⟨⟨le_of_sendsWhole, sendsWhole_of_le w conn cmd⟩, pack_isSome_iff head cmdIn h⟩

theorem sendClient_whole_login :
    SendsWhole {} 1 2 [10, 3, 65] ∧ (pack {} [10, 3, 65] 3 2).isSome := by
  obtain ⟨hsends, hpacks⟩ := sendClient_whole_iff {} 1 2 [10, 3, 65] {} [10, 3, 65] 3 2 (by decide)
  exact ⟨hsends.mpr (by decide), hpacks.mpr (by decide)⟩

/-- The sum of a header and 65532 bytes is zero, so `Pack` allocates one byte. -/
theorem sendClient_overruns :
    ¬SendsWhole {} 1 2 (zeroBlock 65532) ∧ (pack {} (zeroBlock 65532) 65532 2).isNone := by
  constructor
  · intro h
    have hle := le_of_sendsWhole h
    rw [zeroBlock_length, maxBody] at hle
    omega
  · rw [Option.isNone_iff_eq_none, ← Option.not_isSome_iff_eq_none,
      pack_isSome_iff {} 2 (by rw [zeroBlock_length]; decide)]
    decide

/-! ### What `RecivedMessage` makes of a chunk -/

/-- The chunk is rejected and too short for a header, or `Parse` takes from it
the bytes behind the header and they are dispatched. -/
def ByTrueLength {H : Type} (d : MessageDispatch H) (m : Message) (buf : Bytes) (len : ℕ) : Prop :=
  (recivedMessage d m.conn m.buf m.len = some (d, []) ∧ len < 4) ∨
    ∃ head d' es, parse {} buf (m.len.setWidth 16) = some (true, head) ∧
      head.body = some ((buf.take len).drop 4 ++ [0]) ∧
      recivedMessage d m.conn m.buf m.len = some (d', es) ∧ dispatches es ≠ []

variable {H : Type}

theorem byTrueLength_short (d : MessageDispatch H) (m : Message) {buf : Bytes} {len : ℕ}
    (hbuf : m.buf = some buf) (h0 : m.len ≠ 0) (hlen : m.len.toNat % 2 ^ 16 ≤ 4) :
    ByTrueLength d m buf len ↔ len < 4 := by
  have hnarrow : (m.len.setWidth 16).toNat ≤ 4 := by
    rw [BitVec.toNat_setWidth]
    exact hlen
  have hparse := parse_of_short {} buf hnarrow
  constructor
  · intro h
    rcases h with h | ⟨head, d', es, h, -⟩
    · exact h.2
    · rw [hparse] at h
      cases h
  · intro hlt
    refine Or.inl ⟨?_, hlt⟩
    simp only [recivedMessage, hbuf, if_neg h0, hparse, Option.bind_eq_bind, Option.bind_some,
      ite_true]

theorem byTrueLength_long (d : MessageDispatch H) (m : Message) {buf : Bytes}
    (hbuf : m.buf = some buf) (hlong : 4 < m.len.toNat) (hword : m.len.toNat < 2 ^ 16)
    (hle : m.len.toNat ≤ buf.length) : ByTrueLength d m buf m.len.toNat := by
  have hmod : m.len.toNat % 2 ^ 16 = m.len.toNat := Nat.mod_eq_of_lt hword
  have hnarrow : (m.len.setWidth 16).toNat = m.len.toNat := by
    rw [BitVec.toNat_setWidth, hmod]
  have hparse := parse_of_long {} (by rw [hnarrow]; exact hlong) (by rw [hnarrow]; exact hle)
  have hreceived := recivedMessage_of_long d m.conn m.len (by rw [hmod]; exact hlong)
    (by rw [hmod]; exact hle)
  rw [← hbuf] at hreceived
  refine Or.inr ⟨_, _, _, hparse, ?_, hreceived, List.cons_ne_nil _ _⟩
  rw [hnarrow]

/-- A chunk is taken by its true length unless it is a header alone, which is
taken for too short, or fills the 65536 bytes of the buffer, whose size is zero
in 16 bits. -/
theorem received_byTrueLength_iff (d : MessageDispatch H) (s : TCPServer (Option ℕ)) (handle : Ptr)
    (base : Bytes) (nread : ℕ) (order : List ConnID) (origin : Option ℕ) (hpos : 1 ≤ nread)
    (hread : nread ≤ base.length) (hbase : base.length ≤ 65536) :
    ∃ m, (s.afterRead handle nread base order origin).1.recvMessage = s.recvMessage ++ [m] ∧
      (ByTrueLength d m base nread ↔ nread ≠ 4 ∧ nread ≠ 65536) := by
  have hlen : (BitVec.ofInt 32 nread).toNat = nread := by
    rw [BitVec.ofInt_natCast, BitVec.toNat_ofNat]
    omega
  have hafter : (s.afterRead handle nread base order origin).1 =
      s.pushRecvMessage handle (some base) (BitVec.ofInt 32 nread) origin := by
    rw [TCPServer.afterRead, if_neg (by omega), if_neg (by omega)]
  obtain ⟨conn, hm⟩ : ∃ conn, (s.afterRead handle nread base order origin).1.recvMessage =
      s.recvMessage ++ [⟨conn, BitVec.ofInt 32 nread, some base, origin⟩] := by
    rw [hafter, TCPServer.pushRecvMessage]
    cases s.onlineStream.lookup handle with
    | none => exact ⟨0, rfl⟩
    | some conn => exact ⟨conn, rfl⟩
  refine ⟨_, hm, ?_⟩
  have h0 : BitVec.ofInt 32 (nread : ℤ) ≠ 0 := by
    intro heq
    rw [heq] at hlen
    simp only [BitVec.ofNat_eq_ofNat, BitVec.toNat_ofNat] at hlen
    omega
  by_cases hlong : 4 < nread ∧ nread < 2 ^ 16
  · have hbytes := byTrueLength_long d ⟨conn, BitVec.ofInt 32 nread, some base, origin⟩ rfl
      (by rw [hlen]; exact hlong.1) (by rw [hlen]; exact hlong.2) (by rw [hlen]; exact hread)
    rw [hlen] at hbytes
    exact ⟨fun _ => ⟨by omega, by omega⟩, fun _ => hbytes⟩
  · rw [byTrueLength_short d _ rfl h0 (by rw [hlen]; omega)]
    omega

theorem received_byTrueLength_login :
    ∃ m, (({} : TCPServer (Option ℕ)).afterRead 64 5 [5, 0, 2, 0, 7] [] none).1.recvMessage =
        [] ++ [m] ∧
      ByTrueLength (registered [(2, "HandleLogin")]) m [5, 0, 2, 0, 7] 5 := by
  obtain ⟨m, hpushed, hiff⟩ := received_byTrueLength_iff (registered [(2, "HandleLogin")]) {} 64
    [5, 0, 2, 0, 7] 5 [] none (by decide) (by decide) (by decide)
  exact ⟨m, hpushed, hiff.mpr (by decide)⟩

theorem received_full_rejected :
    ((({} : TCPServer (Option ℕ)).addConnection 1 64).afterRead 64 65536 (zeroBlock 65536) []
        none).1.recvMessage = [⟨1, 65536, some (zeroBlock 65536), none⟩] ∧
      ¬ByTrueLength (registered [(2, "HandleLogin")]) ⟨1, 65536, some (zeroBlock 65536), none⟩
        (zeroBlock 65536) 65536 := by
  constructor
  · rw [TCPServer.afterRead, if_neg (by decide), if_neg (by decide)]
    rfl
  · rw [byTrueLength_short _ _ rfl (by decide) (by decide)]
    decide

end GameRes.Server
