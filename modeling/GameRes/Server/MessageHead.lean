import GameRes.Library.Block

/-!
# Packet header of the game server (Server/Server/AppManager.cpp:5-37)

`MessageHead::Parse` and `MessageHead::Pack`: a packet is a 16-bit total
length, a 16-bit command and the body, both words in the byte order of the
machine, which is little-endian. The length counts the four header bytes.
-/

namespace GameRes.Server
open Library

/-- `class MessageHead` (`AppManager.h:32-41`); `body` is the block behind the
`char*`, `none` the null pointer. -/
structure MessageHead where
  len : BitVec 16 := 0
  cmd : BitVec 16 := 0
  body : Option Bytes := none
  deriving Repr, DecidableEq

def word16 (bs : Bytes) : BitVec 16 := BitVec.ofNat 16 (leVal bs)

def word16Bytes (w : BitVec 16) : Bytes := leBytes 2 w.toNat

/-- `MessageHead::Parse` (`AppManager.cpp:5-22`). The embedded length is copied
out of the packet and not compared with `length`. -/
def parse (_head : MessageHead) (msg : Bytes) (length : BitVec 16) :
    Option (Bool × MessageHead) :=
  if length.toNat ≤ 2 + 2 then some (false, _head)
  else do
    let len ← readBlock msg 0 2
    let cmd ← readBlock msg 2 2
    let lenBody := length.toNat - 2 - 2 + 1
    let content ← readBlock msg (2 + 2) (lenBody - 1)
    let body ← writeBlock (zeroBlock lenBody) 0 content
    some (true, ⟨word16 len, word16 cmd, some body⟩)

/-- `MessageHead::Pack` (`AppManager.cpp:24-37`): the block returned and the
header with its `len` set. -/
def pack (head : MessageHead) (msg : Bytes) (length cmdIn : BitVec 16) :
    Option (Bytes × MessageHead) := do
  let total : BitVec 16 := BitVec.ofNat 16 (2 + 2 + length.toNat)
  let msgOut := zeroBlock (total.toNat + 1)
  let msgOut ← writeBlock msgOut 0 (word16Bytes total)
  let msgOut ← writeBlock msgOut 2 (word16Bytes cmdIn)
  let body ← readBlock msg 0 length.toNat
  let msgOut ← writeBlock msgOut (2 + 2) body
  some (msgOut, { head with len := total })

def packed (body : Bytes) (cmd : BitVec 16) : Option Bytes :=
  (pack {} body (BitVec.ofNat 16 body.length) cmd).map fun r => r.1.take r.2.len.toNat

/-- The packet format: total length, command, body. -/
def packet (cmd : BitVec 16) (body : Bytes) : Bytes :=
  leBytes 2 (body.length + 4) ++ word16Bytes cmd ++ body

def maxBody : ℕ := 65531

@[simp] theorem word16Bytes_length (w : BitVec 16) : (word16Bytes w).length = 2 :=
  leBytes_length 2 _

theorem word16_word16Bytes (w : BitVec 16) : word16 (word16Bytes w) = w := by
  apply BitVec.eq_of_toNat_eq
  rw [word16, word16Bytes, leVal_leBytes, BitVec.toNat_ofNat]
  have hw := w.isLt
  omega

theorem word16Bytes_word16 {bs : Bytes} (h : bs.length = 2) : word16Bytes (word16 bs) = bs := by
  have hlt := leVal_lt bs
  have hb := leBytes_leVal bs
  rw [h] at hlt hb
  rw [word16Bytes, word16, BitVec.toNat_ofNat, show 2 ^ 16 = 256 ^ 2 by norm_num,
    Nat.mod_eq_of_lt hlt, hb]

@[simp] theorem packet_length (cmd : BitVec 16) (body : Bytes) :
    (packet cmd body).length = body.length + 4 := by
  simp only [packet, List.length_append, leBytes_length, word16Bytes_length]
  omega

/-! ### What `Pack` builds -/

theorem total_toNat {n : ℕ} (h : n ≤ maxBody) : (BitVec.ofNat 16 (n + 4)).toNat = n + 4 := by
  simp only [maxBody] at h
  rw [BitVec.toNat_ofNat]
  omega

theorem packet_eq_words (cmd : BitVec 16) {body : Bytes} (h : body.length ≤ maxBody) :
    packet cmd body = word16Bytes (BitVec.ofNat 16 (body.length + 4)) ++ word16Bytes cmd ++ body := by
  have hw : word16Bytes (BitVec.ofNat 16 (body.length + 4)) = leBytes 2 (body.length + 4) := by
    rw [word16Bytes, total_toNat h]
  rw [packet, hw]

theorem pack_eq (head : MessageHead) (body : Bytes) (cmd : BitVec 16)
    (h : body.length ≤ maxBody) :
    pack head body (BitVec.ofNat 16 body.length) cmd =
      some (packet cmd body ++ [0], { head with len := BitVec.ofNat 16 (body.length + 4) }) := by
  have hn : (BitVec.ofNat 16 body.length).toNat = body.length := by
    simp only [maxBody] at h
    rw [BitVec.toNat_ofNat]
    omega
  have htot : BitVec.ofNat 16 (2 + 2 + body.length) = BitVec.ofNat 16 (body.length + 4) := by
    rw [Nat.add_comm]
  have h1 := writeBlock_front [] (word16Bytes (BitVec.ofNat 16 (body.length + 4)))
    (body.length + 4 + 1) (by rw [word16Bytes_length]; omega)
  have h2 := writeBlock_front (word16Bytes (BitVec.ofNat 16 (body.length + 4)))
    (word16Bytes cmd) (body.length + 4 + 1 - 2) (by rw [word16Bytes_length]; omega)
  have h3 := writeBlock_front
    (word16Bytes (BitVec.ofNat 16 (body.length + 4)) ++ word16Bytes cmd)
    body (body.length + 4 + 1 - 2 - 2) (by omega)
  simp only [List.nil_append, List.length_append, word16Bytes_length, List.length_nil] at h1 h2 h3
  have hread : readBlock body 0 body.length = some body := by
    rw [readBlock_of_le (by omega), List.drop_zero, List.take_length]
  have hone : zeroBlock (body.length + 4 + 1 - 2 - 2 - body.length) = [0] := by
    rw [show body.length + 4 + 1 - 2 - 2 - body.length = 1 by omega]
    rfl
  simp only [pack, hn, htot, total_toNat h, h1, h2, h3, hread, hone, Option.bind_eq_bind,
    Option.bind_some, packet_eq_words cmd h]

theorem packed_eq (body : Bytes) (cmd : BitVec 16) (h : body.length ≤ maxBody) :
    packed body cmd = some (packet cmd body) := by
  have hl : (BitVec.ofNat 16 (body.length + 4)).toNat = (packet cmd body).length := by
    rw [packet_length, total_toNat h]
  simp only [packed, pack_eq {} body cmd h, Option.map_some, hl, List.take_left]

/-! ### What `Parse` takes apart -/

theorem parse_of_long (head : MessageHead) {msg : Bytes} {length : BitVec 16}
    (hlong : 4 < length.toNat) (hmsg : length.toNat ≤ msg.length) :
    parse head msg length =
      some (true, ⟨word16 (msg.take 2), word16 ((msg.drop 2).take 2),
        some ((msg.take length.toNat).drop 4 ++ [0])⟩) := by
  have hbody := writeBlock_front [] ((msg.drop 4).take (length.toNat - 4))
    (length.toNat - 4 + 1) (by simp only [List.length_take, List.length_drop]; omega)
  have hlen : ((msg.drop 4).take (length.toNat - 4)).length = length.toNat - 4 := by
    simp only [List.length_take, List.length_drop]
    omega
  have hone : zeroBlock (length.toNat - 4 + 1 - (length.toNat - 4)) = [0] := by
    rw [Nat.add_sub_cancel_left]
    rfl
  have htd : (msg.drop 4).take (length.toNat - 4) = (msg.take length.toNat).drop 4 :=
    List.drop_take.symm
  rw [List.nil_append, List.length_nil, hlen, hone] at hbody
  have hsub : length.toNat - 2 - 2 = length.toNat - 4 := by omega
  simp only [parse, if_neg (show ¬length.toNat ≤ 2 + 2 by omega), hsub, Nat.add_sub_cancel,
    readBlock_of_le (show 0 + 2 ≤ msg.length by omega),
    readBlock_of_le (show 2 + 2 ≤ msg.length by omega),
    readBlock_of_le (show 2 + 2 + (length.toNat - 4) ≤ msg.length by omega),
    Option.bind_eq_bind, Option.bind_some, List.drop_zero]
  rw [show msg.drop (2 + 2) = msg.drop 4 from rfl, hbody]
  simp only [Option.bind_some, List.nil_append, htd]

theorem parse_of_short (head : MessageHead) (msg : Bytes) {length : BitVec 16}
    (h : length.toNat ≤ 4) : parse head msg length = some (false, head) := by
  simp only [parse, if_pos (show length.toNat ≤ 2 + 2 by omega)]

theorem packet_fields (cmd : BitVec 16) {body : Bytes} (h : body.length ≤ maxBody) :
    word16 ((packet cmd body).take 2) = BitVec.ofNat 16 (body.length + 4) ∧
      word16 (((packet cmd body).drop 2).take 2) = cmd ∧ (packet cmd body).drop 4 = body := by
  have hp : packet cmd body = word16Bytes (BitVec.ofNat 16 (body.length + 4)) ++
      (word16Bytes cmd ++ body) := by
    rw [packet_eq_words cmd h, List.append_assoc]
  have hdrop : (packet cmd body).drop 2 = word16Bytes cmd ++ body := by
    rw [hp]
    exact List.drop_left' (word16Bytes_length _)
  refine ⟨?_, ?_, ?_⟩
  · rw [hp, List.take_left' (word16Bytes_length _), word16_word16Bytes]
  · rw [hdrop, List.take_left' (word16Bytes_length _), word16_word16Bytes]
  · rw [show (4 : ℕ) = 2 + 2 from rfl, ← List.drop_drop, hdrop]
    exact List.drop_left' (word16Bytes_length _)

/-- The round trip: a packet with a body parses to its command and body. -/
theorem parse_packet (head : MessageHead) (cmd : BitVec 16) (body : Bytes)
    (h0 : 0 < body.length) (h : body.length ≤ maxBody) :
    parse head (packet cmd body) (BitVec.ofNat 16 (body.length + 4)) =
      some (true, ⟨BitVec.ofNat 16 (body.length + 4), cmd, some (body ++ [0])⟩) := by
  have ht := total_toNat h
  obtain ⟨hlen, hcmd, hbody⟩ := packet_fields cmd h
  rw [parse_of_long head (by rw [ht]; omega) (by rw [ht, packet_length]), hlen, hcmd, ht,
    ← packet_length cmd body, List.take_length, hbody]

/-! ### Which buffers are packets -/

/-- The first `length` bytes of `msg` are `Pack(body, |body|, cmd)`. -/
def IsPacked (msg : Bytes) (length cmd : BitVec 16) (body : Bytes) : Prop :=
  body.length ≤ maxBody ∧ packed body cmd = some (msg.take length.toNat)

/-- `Parse` accepts exactly what `Pack` builds, with the fields `Pack` was given. -/
def AcceptsPacked (head : MessageHead) (msg : Bytes) (length : BitVec 16) : Prop :=
  ∃ ok out, parse head msg length = some (ok, out) ∧
    (ok = true ↔ ∃ cmd body, IsPacked msg length cmd body) ∧
    ∀ cmd body, ok = true → IsPacked msg length cmd body →
      out.len.toNat = body.length + 4 ∧ out.cmd = cmd ∧ out.body = some (body ++ [0])

/-- The length field decides: it says `length` where a body follows, and it
does not say four where only a header was received. -/
def LengthFieldDecides (msg : Bytes) (length : BitVec 16) : Prop :=
  length.toNat < 4 ∨ (length.toNat = 4 ∧ word16 (msg.take 2) ≠ length) ∨
    (4 < length.toNat ∧ word16 (msg.take 2) = length)

theorem IsPacked.take_eq {msg body : Bytes} {length cmd : BitVec 16}
    (h : IsPacked msg length cmd body) : msg.take length.toNat = packet cmd body := by
  have hp := h.2
  rw [packed_eq body cmd h.1] at hp
  exact (Option.some.inj hp).symm

theorem IsPacked.length_eq {msg body : Bytes} {length cmd : BitVec 16}
    (h : IsPacked msg length cmd body) (hm : length.toNat ≤ msg.length) :
    length.toNat = body.length + 4 := by
  have hl := congrArg List.length h.take_eq
  rw [packet_length, List.length_take] at hl
  omega

theorem isPacked_iff {msg : Bytes} {length : BitVec 16} (hm : length.toNat ≤ msg.length) :
    (∃ cmd body, IsPacked msg length cmd body) ↔
      4 ≤ length.toNat ∧ word16 (msg.take 2) = length := by
  constructor
  · intro hall
    obtain ⟨cmd, body, h⟩ := hall
    have hl := h.length_eq hm
    have htake : (packet cmd body).take 2 = msg.take 2 := by
      rw [← h.take_eq, List.take_take, Nat.min_eq_left (by omega)]
    have hf := (packet_fields cmd h.1).1
    rw [htake, ← hl, BitVec.ofNat_toNat, BitVec.setWidth_eq] at hf
    exact ⟨by omega, hf⟩
  · intro hall
    obtain ⟨h4, hlen⟩ := hall
    have hlt := length.isLt
    refine ⟨word16 ((msg.drop 2).take 2), (msg.take length.toNat).drop 4, ?_⟩
    have hbody : ((msg.take length.toNat).drop 4).length = length.toNat - 4 := by
      simp only [List.length_drop, List.length_take]
      omega
    have hmax : ((msg.take length.toNat).drop 4).length ≤ maxBody := by
      rw [hbody, maxBody]
      omega
    refine ⟨hmax, ?_⟩
    rw [packed_eq _ _ hmax, packet_eq_words _ hmax, hbody, Nat.sub_add_cancel h4,
      BitVec.ofNat_toNat, BitVec.setWidth_eq]
    have hfirst : word16Bytes length = (msg.take length.toNat).take 2 := by
      have htwo : (msg.take 2).length = 2 := by
        rw [List.length_take]
        omega
      rw [List.take_take, Nat.min_eq_left (by omega), ← word16Bytes_word16 htwo, hlen]
    have hsecond : word16Bytes (word16 ((msg.drop 2).take 2)) =
        ((msg.take length.toNat).drop 2).take 2 := by
      have htwo : ((msg.drop 2).take 2).length = 2 := by
        simp only [List.length_take, List.length_drop]
        omega
      rw [word16Bytes_word16 htwo, List.drop_take, List.take_take,
        Nat.min_eq_left (show 2 ≤ length.toNat - 2 by omega)]
    rw [hfirst, hsecond, List.append_assoc, show (4 : ℕ) = 2 + 2 from rfl, ← List.drop_drop,
      List.take_append_drop, List.take_append_drop]

theorem acceptsPacked_short_iff (head : MessageHead) {msg : Bytes} {length : BitVec 16}
    (hm : length.toNat ≤ msg.length) (hshort : length.toNat ≤ 4) :
    AcceptsPacked head msg length ↔ LengthFieldDecides msg length := by
  have hpack := isPacked_iff hm
  have hparse := parse_of_short head msg hshort
  constructor
  · intro hall
    obtain ⟨ok, out, ho, hiff, -⟩ := hall
    have hfalse : ok = false := (Prod.mk.inj (Option.some.inj (hparse.symm.trans ho))).1.symm
    rw [hfalse, hpack] at hiff
    by_cases h4 : length.toNat = 4
    · refine Or.inr (Or.inl ⟨h4, fun hlen => ?_⟩)
      exact absurd (hiff.mpr ⟨by omega, hlen⟩) Bool.false_ne_true
    · exact Or.inl (by omega)
  · intro hdec
    refine ⟨false, head, hparse, ?_, fun _ _ h => absurd h Bool.false_ne_true⟩
    rw [hpack]
    constructor
    · intro h
      exact absurd h Bool.false_ne_true
    · intro hall
      obtain ⟨h4, hlen⟩ := hall
      rcases hdec with h | h | h
      · omega
      · exact absurd hlen h.2
      · omega

theorem acceptsPacked_long_iff (head : MessageHead) {msg : Bytes} {length : BitVec 16}
    (hm : length.toNat ≤ msg.length) (hlong : 4 < length.toNat) :
    AcceptsPacked head msg length ↔ LengthFieldDecides msg length := by
  have hpack := isPacked_iff hm
  have hparse := parse_of_long head hlong hm
  constructor
  · intro hall
    obtain ⟨ok, out, ho, hiff, -⟩ := hall
    have htrue : ok = true := (Prod.mk.inj (Option.some.inj (hparse.symm.trans ho))).1.symm
    exact Or.inr (Or.inr ⟨by omega, (hpack.mp (hiff.mp htrue)).2⟩)
  · intro hdec
    have hlen : word16 (msg.take 2) = length := by
      rcases hdec with h | h | h
      · omega
      · omega
      · exact h.2
    refine ⟨true, _, hparse, ⟨fun _ => hpack.mpr ⟨by omega, hlen⟩, fun _ => rfl⟩, ?_⟩
    intro cmd body _ h
    obtain ⟨-, hcmd, hbody⟩ := packet_fields cmd h.1
    rw [← h.take_eq] at hcmd hbody
    rw [List.drop_take, List.take_take, Nat.min_eq_left (by omega)] at hcmd
    exact ⟨by rw [hlen]; exact h.length_eq hm, hcmd, by rw [hbody]⟩

/-- `Parse` and `Pack` agree on a buffer exactly when its length field decides:
a header-only packet is refused, and a wrong length field goes unnoticed. -/
theorem parse_acceptsPacked_iff (head : MessageHead) (msg : Bytes) (length : BitVec 16)
    (hm : length.toNat ≤ msg.length) :
    AcceptsPacked head msg length ↔ LengthFieldDecides msg length := by
  cases Nat.lt_or_ge 4 length.toNat with
  | inl hlong => exact acceptsPacked_long_iff head hm hlong
  | inr hshort => exact acceptsPacked_short_iff head hm hshort

theorem parse_acceptsPacked_login : AcceptsPacked {} [5, 0, 2, 0, 7] 5 :=
  (parse_acceptsPacked_iff {} [5, 0, 2, 0, 7] 5 (by decide)).mpr (Or.inr (Or.inr (by decide)))

/-- A ping has no fields, so `Pack` builds four bytes, and `Parse` refuses them. -/
theorem parse_rejects_ping :
    ¬∀ (head : MessageHead) (msg : Bytes) (length : BitVec 16),
      length.toNat ≤ msg.length → AcceptsPacked head msg length := by
  intro h
  obtain ⟨ok, out, ho, hiff, -⟩ := h {} [4, 0, 1, 0] 4 (by decide)
  have hfalse : ok = false :=
    (Prod.mk.inj (Option.some.inj ((parse_of_short {} _ (by decide)).symm.trans ho))).1.symm
  rw [hfalse] at hiff
  exact absurd (hiff.mpr ⟨1, [], by decide, by decide⟩) Bool.false_ne_true

end GameRes.Server
