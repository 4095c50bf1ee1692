import GameRes.Protobuf.CodedOutputStream

/-!
# Tags and unknown fields (protobuf/google/protobuf/wire_format.cc:74-356, wire_format_lite.h)

A field starts with a tag: its number and its wire type. Fields that a message
does not know are kept in an `UnknownFieldSet`, groups with all that is in them.
-/

namespace GameRes.Protobuf
open Library

inductive WireType where
  | varint
  | fixed64
  | lengthDelimited
  | startGroup
  | endGroup
  | fixed32
  deriving DecidableEq, Repr

def WireType.code : WireType → BitVec 32
  | .varint => 0
  | .fixed64 => 1
  | .lengthDelimited => 2
  | .startGroup => 3
  | .endGroup => 4
  | .fixed32 => 5

def makeTag (number : ℕ) (type : WireType) : BitVec 32 :=
  BitVec.ofNat 32 number <<< 3 ||| type.code

def getTagFieldNumber (tag : BitVec 32) : ℕ := (tag >>> 3).toNat

/-- The cast to `WireType`; six and seven are no wire types. -/
def getTagWireType (tag : BitVec 32) : Option WireType :=
  match (tag &&& 7).toNat with
  | 0 => some .varint
  | 1 => some .fixed64
  | 2 => some .lengthDelimited
  | 3 => some .startGroup
  | 4 => some .endGroup
  | 5 => some .fixed32
  | _ => none

inductive UnknownField where
  | varint (number : ℕ) (value : BitVec 64)
  | fixed32 (number : ℕ) (value : BitVec 32)
  | fixed64 (number : ℕ) (value : BitVec 64)
  | lengthDelimited (number : ℕ) (value : Bytes)
  | group (number : ℕ) (fields : List UnknownField)

/-- A length and as many bytes (`wire_format_lite.cc:494-499`). -/
def readLengthDelimited : Reader Bytes := Reader.bind readVarint32 readString

/-- A group behind its tag, with `skip` in place of the call of `SkipMessage`; `budget`
is what `IncrementRecursionDepth` counts down. -/
def skipGroup (skip : ℕ → Reader (List UnknownField × BitVec 32)) (number : ℕ) :
    ℕ → Reader UnknownField
  | 0 => fun _ => none
  | budget + 1 =>
    Reader.bind (skip budget) fun x bs =>
      if x.2 = makeTag number .endGroup then some (.group number x.1, bs) else none

/-- `SkipField`, with `skip` as in `skipGroup`. -/
def skipField (skip : ℕ → Reader (List UnknownField × BitVec 32)) (budget : ℕ)
    (tag : BitVec 32) : Reader UnknownField :=
  let number := getTagFieldNumber tag
  match getTagWireType tag with
  | some .varint => Reader.map (.varint number) readVarint64
  | some .fixed64 => Reader.map (.fixed64 number) readLittleEndian64
  | some .lengthDelimited => Reader.map (.lengthDelimited number) readLengthDelimited
  | some .startGroup => skipGroup skip number budget
  | some .endGroup => fun _ => none
  | some .fixed32 => Reader.map (.fixed32 number) readLittleEndian32
  | none => fun _ => none

/-- `SkipMessage` with at most `fuel` fields to come, inner ones included; with the
fields comes the last tag, zero at the end of the array. -/
def skipMessage : ℕ → ℕ → Reader (List UnknownField × BitVec 32)
  | 0, _, _ => none
  | fuel + 1, budget, bs =>
    match readTag bs with
    | .atEnd => some (([], 0), [])
    | .tag tag rest =>
      if tag = 0 ∨ getTagWireType tag = some .endGroup then some (([], tag), rest)
      else
        Reader.bind (skipField (skipMessage fuel) budget tag)
          (fun field => Reader.map (fun x => (field :: x.1, x.2)) (skipMessage fuel budget)) rest

/-- `SkipMessage` itself: every field takes a byte, so the length of the input bounds
their number. -/
def skipAll (budget : ℕ) : Reader (List UnknownField × BitVec 32) :=
  fun bs => skipMessage (bs.length + 1) budget bs

def skipUnknown (budget : ℕ) (tag : BitVec 32) : Reader UnknownField := skipField skipAll budget tag

def UnknownField.tag : UnknownField → BitVec 32
  | .varint number _ => makeTag number .varint
  | .fixed32 number _ => makeTag number .fixed32
  | .fixed64 number _ => makeTag number .fixed64
  | .lengthDelimited number _ => makeTag number .lengthDelimited
  | .group number _ => makeTag number .startGroup

mutual

/-- What `SerializeUnknownFieldsToArray` writes for a field behind its tag. -/
def UnknownField.payload : UnknownField → Bytes
  | .varint _ value => writeVarint64ToArray value
  | .fixed32 _ value => writeLittleEndian32ToArray value
  | .fixed64 _ value => writeLittleEndian64ToArray value
  | .lengthDelimited _ value => writeVarint32ToArray (BitVec.ofNat 32 value.length) ++ value
  | .group number fields =>
    serializeUnknownFieldsToArray fields ++ writeVarint32ToArray (makeTag number .endGroup)

def serializeUnknownFieldsToArray : List UnknownField → Bytes
  | [] => []
  | field :: fields =>
    writeVarint32ToArray field.tag ++ field.payload ++ serializeUnknownFieldsToArray fields

end

mutual

def UnknownField.payloadSize : UnknownField → ℕ
  | .varint _ value => varintSize64 value
  | .fixed32 _ _ => 4
  | .fixed64 _ _ => 8
  | .lengthDelimited _ value => varintSize32 (BitVec.ofNat 32 value.length) + value.length
  | .group number fields =>
    computeUnknownFieldsSize fields + varintSize32 (makeTag number .endGroup)

def computeUnknownFieldsSize : List UnknownField → ℕ
  | [] => 0
  | field :: fields =>
    varintSize32 field.tag + field.payloadSize + computeUnknownFieldsSize fields

end

/-! ### Tags -/

theorem makeTag_toNat {number : ℕ} (h : number < 2 ^ 29) (type : WireType) :
    (makeTag number type).toNat = 8 * number + type.code.toNat := by
  have hcode : type.code.toNat < 2 ^ 3 := by cases type <;> decide
  have hor := Nat.two_pow_add_eq_or_of_lt hcode number
  rw [makeTag, BitVec.toNat_or, BitVec.toNat_shiftLeft, BitVec.toNat_ofNat, Nat.shiftLeft_eq,
    Nat.mod_eq_of_lt (show number < 2 ^ 32 by omega), Nat.mul_comm,
    Nat.mod_eq_of_lt (show 2 ^ 3 * number < 2 ^ 32 by omega), ← hor]

theorem getTagFieldNumber_lt (tag : BitVec 32) : getTagFieldNumber tag < 2 ^ 29 := by
  have htag := tag.isLt
  rw [getTagFieldNumber, BitVec.toNat_ushiftRight, Nat.shiftRight_eq_div_pow]
  omega

theorem getTagFieldNumber_makeTag {number : ℕ} (h : number < 2 ^ 29) (type : WireType) :
    getTagFieldNumber (makeTag number type) = number := by
  have hcode : type.code.toNat < 8 := by cases type <;> decide
  rw [getTagFieldNumber, BitVec.toNat_ushiftRight, makeTag_toNat h, Nat.shiftRight_eq_div_pow]
  omega

theorem toNat_and_7 (tag : BitVec 32) : (tag &&& 7).toNat = tag.toNat % 8 := by
  rw [BitVec.toNat_and]
  exact Nat.and_two_pow_sub_one_eq_mod tag.toNat 3

theorem getTagWireType_makeTag {number : ℕ} (h : number < 2 ^ 29) (type : WireType) :
    getTagWireType (makeTag number type) = some type := by
  have hmod : (makeTag number type &&& 7).toNat = type.code.toNat := by
    have hcode : type.code.toNat < 8 := by cases type <;> decide
    rw [toNat_and_7, makeTag_toNat h]
    omega
  rw [getTagWireType, hmod]
  cases type <;> rfl

theorem code_of_getTagWireType {tag : BitVec 32} {type : WireType}
    (h : getTagWireType tag = some type) : type.code.toNat = tag.toNat % 8 := by
  unfold getTagWireType at h
  rw [toNat_and_7] at h
  split at h
  all_goals first | (cases h; rename_i heq; rw [heq]; rfl) | cases h

/-- A tag is made of its number and its wire type. -/
theorem makeTag_getTag {tag : BitVec 32} {type : WireType} (h : getTagWireType tag = some type) :
    makeTag (getTagFieldNumber tag) type = tag := by
  apply BitVec.eq_of_toNat_eq
  rw [makeTag_toNat (getTagFieldNumber_lt tag), code_of_getTagWireType h, getTagFieldNumber,
    BitVec.toNat_ushiftRight, Nat.shiftRight_eq_div_pow]
  omega

theorem makeTag_ne_zero {number : ℕ} (h : number < 2 ^ 29) {type : WireType}
    (h0 : number ≠ 0 ∨ type ≠ .varint) : makeTag number type ≠ 0 := by
  intro heq
  have hval := congrArg BitVec.toNat heq
  rw [makeTag_toNat h] at hval
  rcases h0 with h0 | h0
  · simp at hval
    omega
  · cases type <;> simp [WireType.code] at hval h0

/-! ### The readers -/

theorem varintBits_local (w : ℕ) : (varintBits w).Local := (takeVarint_local 10).map _

theorem varintBits_advances (w : ℕ) : (varintBits w).Advances := by
  intro bs x rest h
  obtain ⟨y, hy, heq⟩ := Option.map_eq_some_iff.mp h
  obtain ⟨-, rfl⟩ := Prod.mk.inj heq
  exact takeVarint_advances 10 bs y.1 y.2 hy

theorem varintBits_reads (w : ℕ) {n : ℕ} (h : n < 2 ^ 64) :
    (varintBits w).Reads (varint 10 n) (BitVec.ofNat w n) :=
  (takeVarint_reads (k := 9) (Nat.lt_trans h (by norm_num))).map _

theorem readVarint32_reads (value : BitVec 32) :
    Reader.Reads readVarint32 (writeVarint32ToArray value) value := by
  intro rest
  have h := varintBits_reads 32 (Nat.lt_trans value.isLt (by norm_num)) rest
  rw [BitVec.ofNat_toNat, BitVec.setWidth_eq] at h
  rw [readVarint32_eq, writeVarint32ToArray_eq, h]

theorem readVarint64_reads (value : BitVec 64) :
    Reader.Reads readVarint64 (writeVarint64ToArray value) value := by
  intro rest
  have h := varintBits_reads 64 value.isLt rest
  rw [BitVec.ofNat_toNat, BitVec.setWidth_eq] at h
  rw [readVarint64_eq, writeVarint64ToArray_eq, h]

theorem readVarint32_local : Reader.Local readVarint32 := by
  rw [show readVarint32 = varintBits 32 from funext readVarint32_eq]
  exact varintBits_local 32

theorem readVarint64_local : Reader.Local readVarint64 := by
  rw [show readVarint64 = varintBits 64 from funext readVarint64_eq]
  exact varintBits_local 64

theorem readLittleEndian32_local : readLittleEndian32.Local := (takeBytes_local 4).map _

theorem readLittleEndian64_local : readLittleEndian64.Local := (takeBytes_local 8).map _

theorem readLittleEndian32_reads (value : BitVec 32) :
    readLittleEndian32.Reads (writeLittleEndian32ToArray value) value := by
  have h := (takeBytes_reads (writeLittleEndian32ToArray value)).map
    fun bs => BitVec.ofNat 32 (leVal bs)
  rw [writeLittleEndian32ToArray, leBytes_length, leVal_leBytes] at h
  rwa [Nat.mod_eq_of_lt (show value.toNat < 256 ^ 4 from value.isLt), BitVec.ofNat_toNat,
    BitVec.setWidth_eq] at h

theorem readLittleEndian64_reads (value : BitVec 64) :
    readLittleEndian64.Reads (writeLittleEndian64ToArray value) value := by
  have h := (takeBytes_reads (writeLittleEndian64ToArray value)).map
    fun bs => BitVec.ofNat 64 (leVal bs)
  rw [writeLittleEndian64ToArray, leBytes_length, leVal_leBytes] at h
  rwa [Nat.mod_eq_of_lt (show value.toNat < 256 ^ 8 from value.isLt), BitVec.ofNat_toNat,
    BitVec.setWidth_eq] at h

theorem readString_local (size : BitVec 32) : (readString size).Local := by
  intro bs s rest h
  unfold readString at h ⊢
  split_ifs at h ⊢
  exact takeBytes_local size.toNat bs s rest h

theorem readString_length {size : BitVec 32} {bs s rest : Bytes}
    (h : readString size bs = some (s, rest)) :
    s.length = size.toNat ∧ s.length < 2 ^ 31 ∧ bs = s ++ rest := by
  unfold readString at h
  split_ifs at h with hneg
  obtain ⟨hlen, hbs⟩ := takeBytes_length h
  rw [BitVec.toInt_neg_iff] at hneg
  exact ⟨hlen, by omega, hbs⟩

theorem readLengthDelimited_local : readLengthDelimited.Local :=
  readVarint32_local.bind readString_local

theorem readLengthDelimited_reads {s : Bytes} (h : s.length < 2 ^ 31) :
    readLengthDelimited.Reads (writeVarint32ToArray (BitVec.ofNat 32 s.length) ++ s) s := by
  have hval : (BitVec.ofNat 32 s.length).toNat = s.length := by
    rw [BitVec.toNat_ofNat]
    omega
  have hstring : (readString (BitVec.ofNat 32 s.length)).Reads s s := by
    have hpos : ¬(BitVec.ofNat 32 s.length).toInt < 0 := by
      rw [BitVec.toInt_neg_iff, hval]
      omega
    rw [readString, if_neg hpos, hval]
    exact takeBytes_reads s
  exact (readVarint32_reads _).bind hstring

theorem readLengthDelimited_length {bs s rest : Bytes}
    (h : readLengthDelimited bs = some (s, rest)) : s.length < 2 ^ 31 := by
  obtain ⟨x, -, hx⟩ := Option.bind_eq_some_iff.mp h
  exact (readString_length hx).2.1

/-! ### Unknown fields and groups -/

/-- What is read with a last tag other than zero ends there, whatever follows. -/
def EndsLocally (r : Reader (List UnknownField × BitVec 32)) : Prop :=
  ∀ bs x rest, r bs = some (x, rest) → x.2 ≠ 0 → ∃ front, bs = front ++ rest ∧ r.Reads front x

theorem skipGroup_local {skip : ℕ → Reader (List UnknownField × BitVec 32)}
    (hskip : ∀ budget, EndsLocally (skip budget)) {number : ℕ} (h : number < 2 ^ 29) (budget : ℕ) :
    (skipGroup skip number budget).Local := by
  cases budget with
  | zero =>
    intro bs field rest hread
    cases hread
  | succ budget =>
    intro bs field rest hread
    obtain ⟨⟨x, rest'⟩, hx, hend⟩ := Option.bind_eq_some_iff.mp hread
    dsimp only at hend
    split_ifs at hend with hlast
    cases hend
    obtain ⟨front, rfl, hreads⟩ := hskip budget bs x rest hx (by
      rw [hlast]
      exact makeTag_ne_zero h (Or.inr (by decide)))
    refine ⟨front, rfl, fun more => ?_⟩
    rw [skipGroup, Reader.bind, hreads, Option.bind_some, if_pos hlast]

theorem skipField_local {skip : ℕ → Reader (List UnknownField × BitVec 32)}
    (hskip : ∀ budget, EndsLocally (skip budget)) (budget : ℕ) (tag : BitVec 32) :
    (skipField skip budget tag).Local := by
  have hfail : Reader.Local (fun _ => none : Reader UnknownField) := by
    intro bs a rest h
    cases h
  unfold skipField
  split
  · exact readVarint64_local.map _
  · exact readLittleEndian64_local.map _
  · exact readLengthDelimited_local.map _
  · exact skipGroup_local hskip (getTagFieldNumber_lt tag) budget
  · exact hfail
  · exact readLittleEndian32_local.map _
  · exact hfail

theorem tagAt_tag {bs rest : Bytes} {tag : BitVec 32} (h : tagAt bs = .tag tag rest) (h0 : tag ≠ 0) :
    varintBits 32 bs = some (tag, rest) := by
  unfold tagAt at h
  split at h
  · cases h
  · cases hread : varintBits 32 _ with
    | none =>
      simp only [hread] at h
      cases h
      exact absurd rfl h0
    | some x =>
      simp only [hread] at h
      cases h
      rfl

theorem tagAt_atEnd {bs : Bytes} (h : tagAt bs = .atEnd) : bs = [] := by
  unfold tagAt at h
  split at h
  · rfl
  · split at h <;> cases h

theorem tagAt_zero {bs rest : Bytes} (h : tagAt bs = .tag 0 rest) :
    bs ≠ [] ∧ ∀ tag rest', varintBits 32 bs = some (tag, rest') → tag = 0 := by
  unfold tagAt at h
  split at h
  · cases h
  · refine ⟨List.cons_ne_nil _ _, fun tag rest' hread => ?_⟩
    rw [hread] at h
    cases h
    rfl

theorem tagAt_of_varintBits {bs rest : Bytes} {tag : BitVec 32}
    (h : varintBits 32 bs = some (tag, rest)) : tagAt bs = .tag tag rest := by
  cases bs with
  | nil => cases h
  | cons b bs => rw [tagAt, h]

theorem skipMessage_local (fuel budget : ℕ) : EndsLocally (skipMessage fuel budget) := by
  induction fuel generalizing budget with
  | zero =>
    intro bs x rest h
    cases h
  | succ fuel ih =>
    intro bs x rest h h0
    rw [skipMessage, readTag_eq] at h
    cases htag : tagAt bs with
    | atEnd =>
      rw [htag] at h
      cases h
      exact absurd rfl h0
    | tag tag rest' =>
      rw [htag] at h
      dsimp only at h
      split_ifs at h with hend
      · cases h
        obtain ⟨front, rfl, hreads⟩ := varintBits_local 32 _ _ _ (tagAt_tag htag h0)
        refine ⟨front, rfl, fun more => ?_⟩
        rw [skipMessage, readTag_eq, tagAt_of_varintBits (hreads more)]
        dsimp only
        rw [if_pos hend]
      · have hne : tag ≠ 0 := fun heq => hend (Or.inl heq)
        obtain ⟨front, rfl, hreads⟩ := varintBits_local 32 _ _ _ (tagAt_tag htag hne)
        obtain ⟨⟨field, rest₁⟩, hfield, hmore⟩ := Option.bind_eq_some_iff.mp h
        obtain ⟨⟨y, rest₂⟩, hy, heq⟩ := Option.map_eq_some_iff.mp hmore
        cases heq
        obtain ⟨middle, rfl, hmiddle⟩ := skipField_local ih budget tag _ _ _ hfield
        obtain ⟨back, rfl, hback⟩ := ih budget _ _ _ hy h0
        refine ⟨front ++ (middle ++ back), by simp only [List.append_assoc], fun more => ?_⟩
        rw [skipMessage, readTag_eq, List.append_assoc, tagAt_of_varintBits (hreads _)]
        dsimp only
        rw [if_neg hend]
        exact (hmiddle.bind (hback.map fun z => (field :: z.1, z.2))) more

/-! ### Enough fuel -/

theorem skipField_congr {skip skip' : ℕ → Reader (List UnknownField × BitVec 32)} {bs : Bytes}
    (h : ∀ budget, skip budget bs = skip' budget bs) (budget : ℕ) (tag : BitVec 32) :
    skipField skip budget tag bs = skipField skip' budget tag bs := by
  have hgroup : ∀ number, skipGroup skip number budget bs = skipGroup skip' number budget bs := by
    intro number
    cases budget with
    | zero => rfl
    | succ budget => rw [skipGroup, skipGroup, Reader.bind, Reader.bind, h]
  cases htype : getTagWireType tag with
  | none => simp only [skipField, htype]
  | some type =>
    cases type with
    | startGroup => simp only [skipField, htype, hgroup]
    | _ => simp only [skipField, htype]

theorem skipMessage_fuel {fuel fuel' : ℕ} (budget : ℕ) {bs : Bytes} (h : bs.length < fuel)
    (h' : bs.length < fuel') : skipMessage fuel budget bs = skipMessage fuel' budget bs := by
  induction fuel generalizing fuel' budget bs with
  | zero => exact absurd h (Nat.not_lt_zero _)
  | succ fuel ih =>
    obtain ⟨fuel', rfl⟩ := Nat.exists_eq_succ_of_ne_zero (Nat.ne_of_gt (Nat.zero_lt_of_lt h'))
    rw [skipMessage, skipMessage, readTag_eq]
    cases htag : tagAt bs with
    | atEnd => rfl
    | tag tag rest =>
      dsimp only
      split_ifs with hend
      · rfl
      · have hne : tag ≠ 0 := fun heq => hend (Or.inl heq)
        have hlt : rest.length < bs.length := varintBits_advances 32 _ _ _ (tagAt_tag htag hne)
        have hskip : skipField (skipMessage fuel) budget tag rest =
            skipField (skipMessage fuel') budget tag rest :=
          skipField_congr (fun budget => ih budget (by omega) (by omega)) budget tag
        rw [Reader.bind, Reader.bind, hskip]
        cases hfield : skipField (skipMessage fuel') budget tag rest with
        | none => rfl
        | some x =>
          have hle := (skipField_local (skipMessage_local fuel') budget tag).length_le hfield
          have htail : skipMessage fuel budget x.2 = skipMessage fuel' budget x.2 :=
            ih budget (by omega) (by omega)
          rw [Option.bind_some, Option.bind_some, Reader.map, Reader.map, htail]

theorem skipAll_eq {fuel : ℕ} (budget : ℕ) {bs : Bytes} (h : bs.length < fuel) :
    skipAll budget bs = skipMessage fuel budget bs :=
  skipMessage_fuel budget (Nat.lt_succ_self _) h

theorem skipUnknown_eq {fuel : ℕ} (budget : ℕ) (tag : BitVec 32) {bs : Bytes}
    (h : bs.length < fuel) :
    skipUnknown budget tag bs = skipField (skipMessage fuel) budget tag bs :=
  skipField_congr (fun budget => skipAll_eq budget h) budget tag

theorem skipUnknown_local (budget : ℕ) (tag : BitVec 32) : (skipUnknown budget tag).Local := by
  apply skipField_local
  intro budget bs x rest h h0
  obtain ⟨front, rfl, -⟩ := skipMessage_local _ budget bs x rest h h0
  refine ⟨front, rfl, fun more => ?_⟩
  have hlen : (front ++ rest).length < (front ++ rest ++ more).length + 1 := by
    rw [@List.length_append _ (front ++ rest)]
    omega
  have hlen' : (front ++ more).length < (front ++ rest ++ more).length + 1 := by
    simp only [List.length_append]
    omega
  rw [skipAll_eq budget hlen] at h
  obtain ⟨front', hfront, hreads⟩ := skipMessage_local _ budget _ _ _ h h0
  rw [← List.append_cancel_right hfront] at hreads
  rw [skipAll_eq budget hlen']
  exact hreads more

/-! ### What is written is read -/

mutual

/-- The field has a tag of its own, lengths fit an `int`, and at most `budget` groups
are inside one another. -/
def UnknownField.Encodable : ℕ → UnknownField → Prop
  | _, .varint number _ => 0 < number ∧ number < 2 ^ 29
  | _, .fixed32 number _ => number < 2 ^ 29
  | _, .fixed64 number _ => number < 2 ^ 29
  | _, .lengthDelimited number value => number < 2 ^ 29 ∧ value.length < 2 ^ 31
  | 0, .group _ _ => False
  | budget + 1, .group number fields => number < 2 ^ 29 ∧ AllEncodable budget fields

def AllEncodable : ℕ → List UnknownField → Prop
  | _, [] => True
  | budget, field :: fields => field.Encodable budget ∧ AllEncodable budget fields

end

theorem UnknownField.Encodable.tag_ne {budget : ℕ} {field : UnknownField}
    (h : field.Encodable budget) :
    field.tag ≠ 0 ∧ getTagWireType field.tag ≠ some .endGroup := by
  have hwire : ∀ number type, number < 2 ^ 29 → type ≠ .endGroup →
      getTagWireType (makeTag number type) ≠ some .endGroup := by
    intro number type hnum htype heq
    rw [getTagWireType_makeTag hnum] at heq
    exact htype (Option.some.inj heq)
  cases field with
  | varint number value =>
    rw [UnknownField.Encodable] at h
    exact ⟨makeTag_ne_zero h.2 (Or.inl (Nat.ne_of_gt h.1)), hwire _ _ h.2 (by decide)⟩
  | fixed32 number value =>
    rw [UnknownField.Encodable] at h
    exact ⟨makeTag_ne_zero h (Or.inr (by decide)), hwire _ _ h (by decide)⟩
  | fixed64 number value =>
    rw [UnknownField.Encodable] at h
    exact ⟨makeTag_ne_zero h (Or.inr (by decide)), hwire _ _ h (by decide)⟩
  | lengthDelimited number value =>
    rw [UnknownField.Encodable] at h
    exact ⟨makeTag_ne_zero h.1 (Or.inr (by decide)), hwire _ _ h.1 (by decide)⟩
  | group number fields =>
    cases budget with
    | zero =>
      rw [UnknownField.Encodable] at h
      exact h.elim
    | succ budget =>
      rw [UnknownField.Encodable] at h
      exact ⟨makeTag_ne_zero h.1 (Or.inr (by decide)), hwire _ _ h.1 (by decide)⟩

theorem readVarint32_tag (tag : BitVec 32) (rest : Bytes) :
    tagAt (writeVarint32ToArray tag ++ rest) = .tag tag rest := by
  apply tagAt_of_varintBits
  rw [← readVarint32_eq]
  exact readVarint32_reads tag rest

mutual

theorem skipField_payload (field : UnknownField) {budget fuel : ℕ} (h : field.Encodable budget)
    (rest : Bytes) (hfuel : (field.payload ++ rest).length < fuel) :
    skipField (skipMessage fuel) budget field.tag (field.payload ++ rest) = some (field, rest) := by
  cases field with
  | varint number value =>
    rw [UnknownField.Encodable] at h
    simp only [skipField, UnknownField.tag, getTagWireType_makeTag h.2, getTagFieldNumber_makeTag h.2,
      UnknownField.payload]
    exact (readVarint64_reads value).map _ rest
  | fixed32 number value =>
    rw [UnknownField.Encodable] at h
    simp only [skipField, UnknownField.tag, getTagWireType_makeTag h, getTagFieldNumber_makeTag h,
      UnknownField.payload]
    exact (readLittleEndian32_reads value).map _ rest
  | fixed64 number value =>
    rw [UnknownField.Encodable] at h
    simp only [skipField, UnknownField.tag, getTagWireType_makeTag h, getTagFieldNumber_makeTag h,
      UnknownField.payload]
    exact (readLittleEndian64_reads value).map _ rest
  | lengthDelimited number value =>
    rw [UnknownField.Encodable] at h
    simp only [skipField, UnknownField.tag, getTagWireType_makeTag h.1,
      getTagFieldNumber_makeTag h.1, UnknownField.payload]
    exact (readLengthDelimited_reads h.2).map _ rest
  | group number fields =>
    cases budget with
    | zero =>
      rw [UnknownField.Encodable] at h
      exact h.elim
    | succ budget =>
      rw [UnknownField.Encodable] at h
      simp only [skipField, UnknownField.tag, getTagWireType_makeTag h.1,
        getTagFieldNumber_makeTag h.1, UnknownField.payload, skipGroup, Reader.bind] at hfuel ⊢
      rw [List.append_assoc] at hfuel ⊢
      rw [skipMessage_fields fields h.2 h.1 rest hfuel, Option.bind_some, if_pos rfl]

theorem skipMessage_fields (fields : List UnknownField) {budget fuel number : ℕ}
    (h : AllEncodable budget fields) (hnum : number < 2 ^ 29) (rest : Bytes)
    (hfuel : (serializeUnknownFieldsToArray fields ++
      (writeVarint32ToArray (makeTag number .endGroup) ++ rest)).length < fuel) :
    skipMessage fuel budget (serializeUnknownFieldsToArray fields ++
      (writeVarint32ToArray (makeTag number .endGroup) ++ rest)) =
        some ((fields, makeTag number .endGroup), rest) := by
  obtain ⟨fuel, rfl⟩ := Nat.exists_eq_succ_of_ne_zero (Nat.ne_of_gt (Nat.zero_lt_of_lt hfuel))
  cases fields with
  | nil =>
    rw [serializeUnknownFieldsToArray, List.nil_append, skipMessage, readTag_eq, readVarint32_tag]
    dsimp only
    rw [if_pos (Or.inr (getTagWireType_makeTag hnum _))]
  | cons field fields =>
    rw [AllEncodable] at h
    obtain ⟨h0, hend⟩ := h.1.tag_ne
    have hlen : 0 < (writeVarint32ToArray field.tag).length := by
      rw [writeVarint32ToArray_eq]
      exact varint_length_pos 9 _
    simp only [serializeUnknownFieldsToArray, List.append_assoc] at hfuel ⊢
    rw [List.length_append] at hfuel
    rw [skipMessage, readTag_eq, readVarint32_tag]
    dsimp only
    rw [if_neg (by rw [not_or]; exact ⟨h0, hend⟩), Reader.bind,
      skipField_payload field h.1 _ (by omega), Option.bind_some, Reader.map,
      skipMessage_fields fields h.2 hnum rest (by
        rw [List.length_append] at hfuel
        omega), Option.map_some]

end

/-! ### What is read can be written -/

theorem skipField_encodable {skip : ℕ → Reader (List UnknownField × BitVec 32)}
    (hskip : ∀ budget bs x rest, skip budget bs = some (x, rest) → AllEncodable budget x.1)
    {budget : ℕ} {tag : BitVec 32} (h0 : tag ≠ 0) {bs rest : Bytes} {field : UnknownField}
    (h : skipField skip budget tag bs = some (field, rest)) :
    field.Encodable budget ∧ field.tag = tag := by
  have hlt := getTagFieldNumber_lt tag
  cases htype : getTagWireType tag with
  | none =>
    simp only [skipField, htype] at h
    cases h
  | some type =>
    have htag := makeTag_getTag htype
    cases type with
    | varint =>
      simp only [skipField, htype] at h
      obtain ⟨x, -, heq⟩ := Option.map_eq_some_iff.mp h
      cases heq
      rw [UnknownField.Encodable]
      refine ⟨⟨Nat.pos_of_ne_zero ?_, hlt⟩, htag⟩
      intro hzero
      rw [hzero] at htag
      exact h0 htag.symm
    | fixed64 =>
      simp only [skipField, htype] at h
      obtain ⟨x, -, heq⟩ := Option.map_eq_some_iff.mp h
      cases heq
      rw [UnknownField.Encodable]
      exact ⟨hlt, htag⟩
    | lengthDelimited =>
      simp only [skipField, htype] at h
      obtain ⟨x, hx, heq⟩ := Option.map_eq_some_iff.mp h
      cases heq
      rw [UnknownField.Encodable]
      exact ⟨⟨hlt, readLengthDelimited_length hx⟩, htag⟩
    | startGroup =>
      simp only [skipField, htype] at h
      cases budget with
      | zero => cases h
      | succ budget =>
        obtain ⟨x, hx, heq⟩ := Option.bind_eq_some_iff.mp h
        dsimp only at heq
        split_ifs at heq
        cases heq
        rw [UnknownField.Encodable]
        exact ⟨⟨hlt, hskip budget _ _ _ hx⟩, htag⟩
    | endGroup =>
      simp only [skipField, htype] at h
      cases h
    | fixed32 =>
      simp only [skipField, htype] at h
      obtain ⟨x, -, heq⟩ := Option.map_eq_some_iff.mp h
      cases heq
      rw [UnknownField.Encodable]
      exact ⟨hlt, htag⟩

theorem skipMessage_encodable {fuel budget : ℕ} {bs rest : Bytes}
    {x : List UnknownField × BitVec 32} (h : skipMessage fuel budget bs = some (x, rest)) :
    AllEncodable budget x.1 := by
  induction fuel generalizing budget bs rest x with
  | zero => cases h
  | succ fuel ih =>
    rw [skipMessage] at h
    cases htag : readTag bs with
    | atEnd =>
      rw [htag] at h
      cases h
      rw [AllEncodable]
      trivial
    | tag tag rest' =>
      rw [htag] at h
      dsimp only at h
      split_ifs at h with hend
      · cases h
        rw [AllEncodable]
        trivial
      · have hne : tag ≠ 0 := fun heq => hend (Or.inl heq)
        obtain ⟨y, hfield, hmore⟩ := Option.bind_eq_some_iff.mp h
        obtain ⟨z, hz, heq⟩ := Option.map_eq_some_iff.mp hmore
        cases heq
        rw [AllEncodable]
        exact ⟨(skipField_encodable (fun budget bs x rest => ih) hne hfield).1, ih hz⟩

theorem skipUnknown_encodable {budget : ℕ} {tag : BitVec 32} (h0 : tag ≠ 0) {bs rest : Bytes}
    {field : UnknownField} (h : skipUnknown budget tag bs = some (field, rest)) :
    field.Encodable budget ∧ field.tag = tag :=
  skipField_encodable (fun _ _ _ _ h => skipMessage_encodable h) h0 h

theorem skipUnknown_reads {budget : ℕ} {field : UnknownField} (h : field.Encodable budget) :
    (skipUnknown budget field.tag).Reads field.payload field := by
  intro rest
  rw [skipUnknown_eq budget field.tag (Nat.lt_succ_self _)]
  exact skipField_payload field h rest (Nat.lt_succ_self _)

/-! ### Sizes -/

mutual

theorem payloadSize_eq (field : UnknownField) : field.payloadSize = field.payload.length := by
  cases field with
  | varint number value => rw [UnknownField.payloadSize, UnknownField.payload, varintSize64_eq]
  | fixed32 number value =>
    rw [UnknownField.payloadSize, UnknownField.payload, writeLittleEndian32ToArray, leBytes_length]
  | fixed64 number value =>
    rw [UnknownField.payloadSize, UnknownField.payload, writeLittleEndian64ToArray, leBytes_length]
  | lengthDelimited number value =>
    rw [UnknownField.payloadSize, UnknownField.payload, List.length_append, varintSize32_eq]
  | group number fields =>
    rw [UnknownField.payloadSize, UnknownField.payload, List.length_append, varintSize32_eq,
      computeUnknownFieldsSize_eq]

theorem computeUnknownFieldsSize_eq (fields : List UnknownField) :
    computeUnknownFieldsSize fields = (serializeUnknownFieldsToArray fields).length := by
  cases fields with
  | nil => rw [computeUnknownFieldsSize, serializeUnknownFieldsToArray, List.length_nil]
  | cons field fields =>
    rw [computeUnknownFieldsSize, serializeUnknownFieldsToArray, List.length_append,
      List.length_append, varintSize32_eq, payloadSize_eq, computeUnknownFieldsSize_eq]

end

end GameRes.Protobuf
