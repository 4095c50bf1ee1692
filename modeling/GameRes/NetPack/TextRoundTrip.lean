import GameRes.NetPack.TextFields

/-!
# Text packets from `Write` to `Read` (netPack/commDef.cpp:11-244, 891-1135)

Any sequence of `Write` calls, `Flush`, and the matching sequence of `Read`
calls on the packet. A `Write` near the end of the address space is not refused but
overruns the block, when the sum of its bound test wraps. The header of version 2
counts itself while the validity bound does not, so the largest packets do not fit
their six digits.
-/

namespace GameRes.NetPack
open Library

/-- One `Write` after the other; the fields that were not refused, and the stream. -/
def writeAll (op : TextWriter → TextField → Option (Bool × TextWriter)) :
    TextWriter → List TextField → Option (List TextField × TextWriter)
  | s, [] => some ([], s)
  | s, field :: fields =>
    match op s field with
    | none => none
    | some (ok, t) =>
      (writeAll op t fields).map fun r => (if ok then field :: r.1 else r.1, r.2)

def readAll (op : TextReader → TextRead → Option (Option TextField × TextReader)) :
    TextReader → List TextRead → Option (List (Option TextField) × TextReader)
  | s, [] => some ([], s)
  | s, arg :: args =>
    match op s arg with
    | none => none
    | some (field, t) => (readAll op t args).map fun r => (field :: r.1, r.2)

def TextWriter.reader (f : TextFormat) (s : TextWriter) : TextReader :=
  ⟨s.ptr, s.getSize, s.mem, f.packlen⟩

/-- Every matching sequence of reads returns true with the fields and comes to the end. -/
def ReadsBack (f : TextFormat) (op : TextReader → TextRead → Option (Option TextField × TextReader))
    (packet : TextWriter) (fields : List TextField) : Prop :=
  ∀ args, List.Forall₂ TextRead.Takes args fields →
    ∃ r, readAll op (packet.reader f) args = some (fields.map some, r) ∧ r.isEnd = some true

section
variable (f : TextFormat) (op : TextWriter → TextField → Option (Bool × TextWriter))

/-- The sum of every bound test of the run is an address. -/
def SumsFit : TextWriter → List TextField → Prop
  | _, [] => True
  | s, field :: fields => s.SumFits f field.text ∧ ∀ r ∈ op s field, SumsFit r.2 fields

def decidableSumsFit : ∀ s fields, Decidable (SumsFit f op s fields)
  | _, [] => isTrue trivial
  | s, field :: fields =>
    have := fun r : Bool × TextWriter => decidableSumsFit r.2 fields
    inferInstanceAs (Decidable (_ ∧ ∀ r ∈ op s field, SumsFit f op r.2 fields))

instance (s : TextWriter) (fields : List TextField) : Decidable (SumsFit f op s fields) :=
  decidableSumsFit f op s fields

/-- Every call of the run returns false with the stream unchanged or appends its field. -/
def AtomicCalls : TextWriter → List TextField → Prop
  | _, [] => True
  | s, field :: fields =>
    op s field = some (false, s) ∧ AtomicCalls s fields ∨
      op s field = some (true, s.pushed (f.encode field.text)) ∧
        AtomicCalls (s.pushed (f.encode field.text)) fields

end

def TextFormat.payload (f : TextFormat) (fields : List TextField) : Bytes :=
  fields.flatMap fun field => f.encode field.text

/-! ### The writes -/

structure Written (f : TextFormat) (s : TextWriter) (done : List TextField) : Prop where
  low : f.packlen ≤ s.cur
  high : s.cur ≤ s.len ∨ s.cur = f.packlen
  payload : load s.mem f.packlen (s.cur - f.packlen) = f.payload done
  short : ∀ field ∈ done, field.text.length < 16 ^ f.packlen

theorem written_start (f : TextFormat) {s : TextWriter} (hs : s.cur = f.packlen) :
    Written f s [] := by
  refine ⟨hs.ge, Or.inr hs, ?_, ?_⟩
  · rw [hs, Nat.sub_self]
    rfl
  · intro field hfield
    cases hfield

theorem Written.cur_le {f : TextFormat} {s : TextWriter} {done : List TextField}
    (h : Written f s done) : s.cur ≤ s.len + 6 := by
  have hpack := f.packlen_le
  cases h.high with
  | inl hle => omega
  | inr heq => omega

theorem Written.length {f : TextFormat} {s : TextWriter} {done : List TextField}
    (h : Written f s done) : (f.payload done).length = s.cur - f.packlen := by
  rw [← h.payload, load_length]

theorem Written.push {f : TextFormat} {s : TextWriter} {done : List TextField}
    (h : Written f s done) (field : TextField) (hshort : field.text.length < 16 ^ f.packlen)
    (hroom : s.cur + (f.encode field.text).length ≤ s.len) :
    Written f (s.pushed (f.encode field.text)) (done ++ [field]) := by
  have hlow := h.low
  refine ⟨?_, Or.inl hroom, ?_, ?_⟩
  · simp only [TextWriter.pushed]
    omega
  · -- What was written before lies in front of the cursor, the new field begins there.
    have hsplit : s.cur + (f.encode field.text).length - f.packlen =
        s.cur - f.packlen + (f.encode field.text).length := by omega
    have hbefore : load (store s.mem s.cur (f.encode field.text)) f.packlen (s.cur - f.packlen) =
        load s.mem f.packlen (s.cur - f.packlen) := by
      apply load_congr
      intro i _ hi
      exact store_of_not_mem (Or.inl (by omega))
    simp only [TextWriter.pushed]
    rw [hsplit, load_append, hbefore, h.payload, Nat.add_sub_cancel' hlow, load_store]
    simp only [TextFormat.payload, List.flatMap_append, List.flatMap_singleton]
  · intro x hx
    cases List.mem_append.mp hx with
    | inl hdone => exact h.short x hdone
    | inr hnew => rwa [List.mem_singleton.mp hnew]

theorem Written.write {f : TextFormat} {s : TextWriter} {done : List TextField}
    (h : Written f s done) (field : TextField) (hsum : s.SumFits f field.text) :
    s.write f field.text = some (false, s) ∨
      s.write f field.text = some (true, s.pushed (f.encode field.text)) ∧
        Written f (s.pushed (f.encode field.text)) (done ++ [field]) := by
  cases TextWriter.write_cases f hsum with
  | inl hrefused => exact Or.inl hrefused
  | inr hok =>
    obtain ⟨hshort, hroom, hwrite⟩ := hok
    exact Or.inr ⟨hwrite, h.push field hshort hroom⟩

section
variable {f : TextFormat} {op : TextWriter → TextField → Option (Bool × TextWriter)}

theorem Written.writeAll (hop : ∀ s field, op s field = s.write f field.text) {s : TextWriter}
    {before : List TextField} (h : Written f s before) {fields : List TextField}
    (hsums : SumsFit f op s fields) :
    ∃ done t, writeAll op s fields = some (done, t) ∧ Written f t (before ++ done) := by
  induction fields generalizing s before with
  | nil =>
    refine ⟨[], s, rfl, ?_⟩
    rwa [List.append_nil]
  | cons field fields ih =>
    obtain ⟨hsum, hrest⟩ := hsums
    cases h.write field hsum with
    | inl hrefused =>
      obtain ⟨done, t, hall, hwritten⟩ := ih h (hrest (false, s) ((hop s field).trans hrefused))
      refine ⟨done, t, ?_, hwritten⟩
      simp only [NetPack.writeAll, hop, hrefused, hall, Option.map_some, Bool.false_eq_true,
        ite_false]
    | inr hok =>
      obtain ⟨hwrite, hnext⟩ := hok
      obtain ⟨done, t, hall, hwritten⟩ := ih hnext (hrest (true, _) ((hop s field).trans hwrite))
      refine ⟨field :: done, t, ?_, ?_⟩
      · simp only [NetPack.writeAll, hop, hwrite, hall, Option.map_some, ite_true]
      · rwa [List.append_assoc, List.singleton_append] at hwritten

theorem Written.atomicCalls (hop : ∀ s field, op s field = s.write f field.text) {s : TextWriter}
    {before : List TextField} (h : Written f s before) {fields : List TextField}
    (hsums : SumsFit f op s fields) : AtomicCalls f op s fields := by
  induction fields generalizing s before with
  | nil => trivial
  | cons field fields ih =>
    obtain ⟨hsum, hrest⟩ := hsums
    cases h.write field hsum with
    | inl hrefused =>
      have hcall := (hop s field).trans hrefused
      exact Or.inl ⟨hcall, ih h (hrest (false, s) hcall)⟩
    | inr hok =>
      obtain ⟨hwrite, hnext⟩ := hok
      have hcall := (hop s field).trans hwrite
      exact Or.inr ⟨hcall, ih hnext (hrest (true, _) hcall)⟩

/-- A run that stays in the block is one whose sums are addresses. -/
theorem Written.sumsFit (hop : ∀ s field, op s field = s.write f field.text) {s : TextWriter}
    {before : List TextField} (h : Written f s before) {fields : List TextField}
    {r : List TextField × TextWriter} (hall : NetPack.writeAll op s fields = some r) :
    SumsFit f op s fields := by
  induction fields generalizing s before r with
  | nil => trivial
  | cons field fields ih =>
    rw [NetPack.writeAll] at hall
    cases hcall : op s field with
    | none =>
      rw [hcall] at hall
      cases hall
    | some c =>
      obtain ⟨ok, t⟩ := c
      have hsum := TextWriter.sumFits_of_write h.cur_le ((hop s field).symm.trans hcall)
      rw [hcall] at hall
      obtain ⟨rest, hrest, -⟩ := Option.map_eq_some_iff.mp hall
      refine ⟨hsum, ?_⟩
      intro c hc
      rw [hcall] at hc
      cases hc
      -- The stream after the call is again one that `Write` has left behind.
      rw [hop] at hcall
      cases h.write field hsum with
      | inl hrefused =>
        rw [hrefused] at hcall
        cases hcall
        exact ih h hrest
      | inr hok =>
        obtain ⟨hwrite, hnext⟩ := hok
        rw [hwrite] at hcall
        cases hcall
        exact ih hnext hrest

theorem Written.of_writeAll (hop : ∀ s field, op s field = s.write f field.text) {s t : TextWriter}
    {before done : List TextField} (h : Written f s before) {fields : List TextField}
    (hall : NetPack.writeAll op s fields = some (done, t)) : Written f t (before ++ done) := by
  obtain ⟨done', t', hall', hwritten⟩ := h.writeAll hop (h.sumsFit hop hall)
  rw [hall] at hall'
  cases hall'
  exact hwritten

end

/-! ### `Flush` -/

theorem flush_eq (f : TextFormat) {s : TextWriter} (hlow : f.packlen ≤ s.cur)
    (hhigh : s.cur ≤ s.len) :
    s.flush f = some { s with
      mem := store s.mem 0 ((hexText f.packlen (s.cur - f.packlen + f.counted)).take f.packlen) } := by
  have hlen : ((hexText f.packlen (s.cur - f.packlen + f.counted)).take f.packlen).length ≤
      f.packlen := List.length_take_le ..
  rw [TextWriter.flush, snprintf, Nat.add_sub_cancel, List.take_take, Nat.min_self,
    TextWriter.poke, if_pos (by omega)]

theorem header_length (f : TextFormat) (n : ℕ) :
    ((hexText f.packlen n).take f.packlen).length = f.packlen := by
  rw [List.length_take, Nat.min_eq_left (hexText_length_le f.packlen n)]

structure Flushed (f : TextFormat) (packet : TextWriter) (done : List TextField) : Prop where
  header : load packet.mem 0 f.packlen =
    (hexText f.packlen (packet.cur - f.packlen + f.counted)).take f.packlen
  written : Written f packet done
  room : packet.cur ≤ packet.len

theorem Written.flush {f : TextFormat} {s : TextWriter} {done : List TextField}
    (h : Written f s done) (hvalid : s.isValid f = true) :
    ∃ packet, s.flush f = some packet ∧ packet.getSize = s.getSize ∧ Flushed f packet done := by
  have hlow := h.low
  simp only [TextWriter.isValid, decide_eq_true_eq] at hvalid
  have hroom : s.cur ≤ s.len := by
    cases h.high with
    | inl hle => exact hle
    | inr heq => omega
  have hlen := header_length f (s.cur - f.packlen + f.counted)
  have hpayload : load (store s.mem 0 ((hexText f.packlen
      (s.cur - f.packlen + f.counted)).take f.packlen)) f.packlen (s.cur - f.packlen) =
      load s.mem f.packlen (s.cur - f.packlen) := by
    apply load_congr
    intro i hi _
    exact store_of_not_mem (Or.inr (by omega))
  refine ⟨_, flush_eq f hlow hroom, rfl, ?_, ⟨hlow, h.high, ?_, h.short⟩, hroom⟩
  · have hload := load_store s.mem 0 ((hexText f.packlen
      (s.cur - f.packlen + f.counted)).take f.packlen)
    rwa [hlen] at hload
  · rw [hpayload]
    exact h.payload

theorem Flushed.strtol_header {f : TextFormat} {packet : TextWriter} {done : List TextField}
    (h : Flushed f packet done) (hfits : packet.cur - f.packlen + f.counted < 16 ^ f.packlen) :
    strtol 16 (load packet.mem 0 f.packlen) = (packet.cur - f.packlen + f.counted : ℕ) := by
  have hpow := f.pow_le
  have hlen := hexText_length f.packlen_ne_zero hfits
  rw [h.header, List.take_of_length_le hlen.le, strtol_hexText (by omega)]

theorem Flushed.strtol_header_lt {f : TextFormat} {packet : TextWriter} {done : List TextField}
    (h : Flushed f packet done) : strtol 16 (load packet.mem 0 f.packlen) < (16 ^ f.packlen : ℕ) := by
  have hpos : 0 < 16 ^ f.packlen := Nat.pow_pos (by omega)
  have hdigits : ∀ b ∈ (hexText f.packlen (packet.cur - f.packlen + f.counted)).take f.packlen,
      isDigit 16 b = true := fun b hb => hexText_digits _ _ b (List.mem_of_mem_take hb)
  have hlt := strtol_lt (by omega) hdigits
  rw [header_length, ← h.header] at hlt
  omega

/-! ### The reads -/

theorem readAll_eq {f : TextFormat}
    {op : TextReader → TextRead → Option (Option TextField × TextReader)}
    (hop : ∀ {s : TextReader} {arg : TextRead} {field : TextField}, arg.Takes field →
      field.text.length < 16 ^ f.packlen → s.Stands (f.encode field.text) →
      op s arg = some (some field, s.moved (f.encode field.text).length))
    {args : List TextRead} {fields : List TextField} (htakes : List.Forall₂ TextRead.Takes args fields)
    (hshort : ∀ field ∈ fields, field.text.length < 16 ^ f.packlen) {s : TextReader}
    (h : s.Stands (f.payload fields)) :
    readAll op s args = some (fields.map some, s.moved (f.payload fields).length) := by
  induction htakes generalizing s with
  | nil => rfl
  | @cons arg field args fields hfirst _ ih =>
    have hsplit : f.payload (field :: fields) = f.encode field.text ++ f.payload fields := rfl
    obtain ⟨hhead, htail⟩ := List.forall_mem_cons.mp hshort
    rw [hsplit] at h ⊢
    have hread := hop hfirst hhead h.left
    have hrest := ih htail h.right
    rw [readAll, hread]
    simp only [hrest, Option.map_some, List.map_cons, TextReader.moved_moved, List.length_append]

theorem Flushed.readsBack {f : TextFormat}
    {op : TextReader → TextRead → Option (Option TextField × TextReader)}
    (hop : ∀ {s : TextReader} {arg : TextRead} {field : TextField}, arg.Takes field →
      field.text.length < 16 ^ f.packlen → s.Stands (f.encode field.text) →
      op s arg = some (some field, s.moved (f.encode field.text).length))
    {packet : TextWriter} {done : List TextField} (h : Flushed f packet done) :
    ReadsBack f op packet done := by
  intro args htakes
  have hlow := h.written.low
  have hlen := h.written.length
  have hfits := packet.fits
  have hroom := h.room
  have hstands : (packet.reader f).Stands (f.payload done) := by
    refine ⟨?_, ?_, ?_⟩
    · rw [hlen]
      exact h.written.payload
    · simp only [TextWriter.reader, TextWriter.getSize, hlen]
      omega
    · simp only [TextWriter.reader, TextWriter.getSize]
      omega
  have hread := readAll_eq hop htakes h.written.short hstands
  have hend : ((packet.reader f).moved (f.payload done).length).cur = packet.cur := by
    simp only [TextReader.moved, TextWriter.reader, hlen]
    omega
  refine ⟨_, hread, ?_⟩
  rw [TextReader.isEnd, hend]
  simp only [TextReader.moved, TextWriter.reader, TextWriter.getSize, Nat.le_refl, ite_true,
    decide_true]

/-! ### Both versions -/

/-- What is asked of a run of writes: every call is atomic, and a valid packet declares
its payload and is read back to its end. -/
def TextWriteStream.RoundTrips (s : TextWriter) (fields : List TextField) : Prop :=
  ∃ done t, writeAll writeField s fields = some (done, t) ∧
    AtomicCalls textFormat writeField s fields ∧
    (isValid t = true → ∃ packet, flush t = some packet ∧ packet.getSize = t.getSize ∧
      strtol 16 (load packet.mem 0 4) = packet.getSize - 4 ∧
      ReadsBack textFormat TextReadStream.readField packet done)

/-- Version 1, on a stream as it is constructed. -/
theorem TextWriteStream.packet_roundTrip_iff {s : TextWriter} (hs : s.cur = 4)
    (fields : List TextField) : RoundTrips s fields ↔ SumsFit textFormat writeField s fields := by
  have hstart := written_start textFormat hs
  constructor
  · intro hround
    obtain ⟨done, t, hall, -⟩ := hround
    exact hstart.sumsFit writeField_eq hall
  · intro hsums
    obtain ⟨done, t, hall, hwritten⟩ := hstart.writeAll writeField_eq hsums
    refine ⟨done, t, hall, hstart.atomicCalls writeField_eq hsums, ?_⟩
    intro hvalid
    obtain ⟨packet, hflush, hsize, hflushed⟩ := hwritten.flush hvalid
    have hbound : 0 < t.cur - 4 ∧ t.cur - 4 ≤ 0xffff := of_decide_eq_true hvalid
    have hcur : packet.cur = t.cur := hsize
    have hheader : strtol 16 (load packet.mem 0 4) = (packet.cur - 4 + 0 : ℕ) :=
      hflushed.strtol_header (by change packet.cur - 4 + 0 < 65536; omega)
    refine ⟨packet, hflush, hsize, ?_, hflushed.readsBack TextReadStream.readField_eq⟩
    rw [hheader, TextWriter.getSize]
    omega

theorem TextWriteStream.packet_roundTrip_mixed :
    ∃ t packet, writeAll writeField ⟨0x10000, 40, fun _ => 0xff, 4, by decide⟩
        [.int 0x80000000, .string [], .char 65] = some ([.int 0x80000000, .string [], .char 65], t) ∧
      isValid t = true ∧ flush t = some packet ∧
      strtol 16 (load packet.mem 0 4) = packet.getSize - 4 ∧
      ReadsBack textFormat TextReadStream.readField packet
        [.int 0x80000000, .string [], .char 65] := by
  obtain ⟨done, t, hall, -, hpacket⟩ :=
    (packet_roundTrip_iff (s := ⟨0x10000, 40, fun _ => 0xff, 4, by decide⟩) rfl
      [.int 0x80000000, .string [], .char 65]).mpr (by decide)
  have hrun : ((writeAll writeField ⟨0x10000, 40, fun _ => 0xff, 4, by decide⟩
      [.int 0x80000000, .string [], .char 65]).map fun r => (r.1, isValid r.2)) =
      some ([.int 0x80000000, .string [], .char 65], true) := by decide
  rw [hall, Option.map_some, Option.some.injEq, Prod.mk.injEq] at hrun
  obtain ⟨rfl, hvalid⟩ := hrun
  obtain ⟨packet, hflush, -, hheader, hreads⟩ := hpacket hvalid
  exact ⟨t, packet, hall, hvalid, hflush, hheader, hreads⟩

theorem TextWriteStream.overruns {s : TextWriter} (hs : s.cur ≤ s.len + 6) {str : Bytes}
    (hsum : ¬s.SumFits textFormat str) (fields : List TextField) :
    writeAll writeField s (.string str :: fields) = none := by
  have hwrite : writeField s (.string str) = none :=
    TextWriter.write_overruns textFormat hs hsum
  rw [writeAll, hwrite]

/-- Near the end of the address space the sum for `0xffff` bytes is `0xc007`: the test of a
block of `0x1000` bytes lets them through. -/
theorem TextWriteStream.longest_overruns :
    ¬RoundTrips ⟨0xffffc000, 0x1000, fun _ => 0, 4, by decide⟩
      [.string (List.replicate 0xffff 65)] := by
  have hlen : (List.replicate 0xffff (65 : Byte)).length = 0xffff := List.length_replicate
  intro hround
  obtain ⟨done, t, hall, -⟩ := hround
  rw [overruns (by decide) (by rw [TextWriter.SumFits, hlen]; decide)] at hall
  cases hall

/-- What is asked of a run of writes in version 2. -/
def TextWriteStream2.DeclaresSize (s : TextWriter) (fields : List TextField) : Prop :=
  ∃ done t, writeAll writeField s fields = some (done, t) ∧
    (isValid t = true → ∃ packet, flush t = some packet ∧
      strtol 16 (load packet.mem 0 6) = packet.getSize ∧
      ReadsBack textFormat2 TextReadStream2.readField packet done)

/-- Version 2: the sums are addresses, and the payload is not among the six largest. -/
theorem TextWriteStream2.declares_size_iff {s : TextWriter} (hs : s.cur = 6)
    (fields : List TextField) :
    DeclaresSize s fields ↔ SumsFit textFormat2 writeField s fields ∧
      ∀ done t, writeAll writeField s fields = some (done, t) →
        ¬(0xfffffa ≤ (textFormat2.payload done).length ∧
          (textFormat2.payload done).length ≤ 0xffffff) := by
  have hstart := written_start textFormat2 hs
  constructor
  · intro hdeclares
    obtain ⟨done, t, hall, hclaim⟩ := hdeclares
    refine ⟨hstart.sumsFit writeField_eq hall, ?_⟩
    intro done' t' hall' hlarge
    rw [hall] at hall'
    cases hall'
    have hwritten : Written textFormat2 t done := hstart.of_writeAll writeField_eq hall
    have hlen : (textFormat2.payload done).length = t.cur - 6 := hwritten.length
    rw [hlen] at hlarge
    have hvalid : isValid t = true := decide_eq_true (by
      change 0 < t.cur - 6 ∧ t.cur - 6 ≤ 0xffffff
      omega)
    obtain ⟨packet, hflush, hsize, hflushed⟩ := hwritten.flush hvalid
    obtain ⟨packet', hflush', hheader, -⟩ := hclaim hvalid
    have hsame : packet' = packet := Option.some.inj (hflush'.symm.trans hflush)
    have hlt : strtol 16 (load packet.mem 0 6) < (16777216 : ℕ) := hflushed.strtol_header_lt
    have hcur : packet.cur = t.cur := hsize
    rw [hsame, TextWriter.getSize] at hheader
    omega
  · intro hcond
    obtain ⟨hsums, hpayload⟩ := hcond
    obtain ⟨done, t, hall, hwritten⟩ := hstart.writeAll writeField_eq hsums
    have hsmall := hpayload done t hall
    have hlen : (textFormat2.payload done).length = t.cur - 6 := hwritten.length
    rw [hlen] at hsmall
    refine ⟨done, t, hall, ?_⟩
    intro hvalid
    obtain ⟨packet, hflush, hsize, hflushed⟩ := hwritten.flush hvalid
    have hbound : 0 < t.cur - 6 ∧ t.cur - 6 ≤ 0xffffff := of_decide_eq_true hvalid
    have hcur : packet.cur = t.cur := hsize
    have hheader : strtol 16 (load packet.mem 0 6) = (packet.cur - 6 + 6 : ℕ) :=
      hflushed.strtol_header (by change packet.cur - 6 + 6 < 16777216; omega)
    refine ⟨packet, hflush, ?_, hflushed.readsBack TextReadStream2.readField_eq⟩
    rw [hheader, TextWriter.getSize]
    omega

theorem TextWriteStream2.declares_size_iff_short :
    ∃ t packet, writeAll writeField ⟨0x10000, 40, fun _ => 0, 6, by decide⟩ [.short 0xffff] =
        some ([.short 0xffff], t) ∧
      isValid t = true ∧ flush t = some packet ∧
      strtol 16 (load packet.mem 0 6) = packet.getSize ∧
      ReadsBack textFormat2 TextReadStream2.readField packet [.short 0xffff] := by
  have hrun : ((writeAll writeField ⟨0x10000, 40, fun _ => 0, 6, by decide⟩
      [.short 0xffff]).map fun r => (r.1, isValid r.2)) = some ([.short 0xffff], true) := by decide
  have hsmall : ∀ done t, writeAll writeField ⟨0x10000, 40, fun _ => 0, 6, by decide⟩
      [.short 0xffff] = some (done, t) → ¬(0xfffffa ≤ (textFormat2.payload done).length ∧
        (textFormat2.payload done).length ≤ 0xffffff) := by
    intro done t hall
    rw [hall, Option.map_some, Option.some.injEq, Prod.mk.injEq] at hrun
    have hdone : done = [.short 0xffff] := hrun.1
    rw [hdone]
    decide
  obtain ⟨done, t, hall, hpacket⟩ :=
    (declares_size_iff (s := ⟨0x10000, 40, fun _ => 0, 6, by decide⟩) rfl [.short 0xffff]).mpr
      ⟨by decide, hsmall⟩
  rw [hall, Option.map_some, Option.some.injEq, Prod.mk.injEq] at hrun
  obtain ⟨rfl, hvalid⟩ := hrun
  obtain ⟨packet, hflush, hheader, hreads⟩ := hpacket hvalid
  exact ⟨t, packet, hall, hvalid, hflush, hheader, hreads⟩

theorem TextWriteStream2.misdeclared {s : TextWriter} (hs : s.cur = 6) {str : Bytes}
    (hlow : 0xfffff4 ≤ str.length) (hhigh : str.length ≤ 0xfffff9)
    (hroom : str.length + 12 ≤ s.len) :
    ∃ t packet, writeAll writeField s [.string str] = some ([.string str], t) ∧
      isValid t = true ∧ flush t = some packet ∧ packet.getSize = str.length + 12 ∧
      strtol 16 (load packet.mem 0 6) ≠ packet.getSize := by
  have hshort : str.length < 16 ^ textFormat2.packlen := by
    change str.length < 16777216
    omega
  have hlen : (textFormat2.encode str).length = 6 + str.length :=
    TextWriter.encode_length textFormat2 hshort
  have hfits : s.cur + (textFormat2.encode str).length ≤ s.len := by
    rw [hlen, hs]
    omega
  have hwritten : Written textFormat2 (s.pushed (textFormat2.encode str)) [.string str] :=
    (written_start textFormat2 hs).push (.string str) hshort hfits
  have hwrite : writeField s (.string str) = some (true, s.pushed (textFormat2.encode str)) :=
    TextWriter.write_of_room textFormat2 hshort hfits
  have hcur : (s.pushed (textFormat2.encode str)).cur = str.length + 12 := by
    simp only [TextWriter.pushed, hlen, hs]
    omega
  have hvalid : isValid (s.pushed (textFormat2.encode str)) = true := decide_eq_true (by
    rw [hcur]
    change 0 < str.length + 12 - 6 ∧ str.length + 12 - 6 ≤ 16777215
    omega)
  obtain ⟨packet, hflush, hsize, hflushed⟩ := hwritten.flush hvalid
  have hlt : strtol 16 (load packet.mem 0 6) < (16777216 : ℕ) := hflushed.strtol_header_lt
  rw [TextWriter.getSize, TextWriter.getSize, hcur] at hsize
  refine ⟨_, packet, ?_, hvalid, hflush, hsize, ?_⟩
  · rw [writeAll, hwrite]
    rfl
  · rw [TextWriter.getSize, hsize]
    omega

/-- A string of `0xfffff4` bytes makes a packet of `0x1000000` bytes, whose header keeps the
first six of seven digits. -/
theorem TextWriteStream2.largest_misdeclared :
    ∃ t packet, writeAll writeField ⟨0x10000, 0x1000000, fun _ => 0, 6, by decide⟩
        [.string (List.replicate 0xfffff4 65)] = some ([.string (List.replicate 0xfffff4 65)], t) ∧
      isValid t = true ∧ flush t = some packet ∧
      strtol 16 (load packet.mem 0 6) ≠ packet.getSize := by
  have hlen : (List.replicate 0xfffff4 (65 : Byte)).length = 0xfffff4 := List.length_replicate
  obtain ⟨t, packet, hall, hvalid, hflush, -, hne⟩ :=
    misdeclared (s := ⟨0x10000, 0x1000000, fun _ => 0, 6, by decide⟩) rfl hlen.ge
      (hlen.le.trans (by norm_num)) (by rw [hlen])
  exact ⟨t, packet, hall, hvalid, hflush, hne⟩

end GameRes.NetPack
