import P2pClipboard.Lib.Codec

/-!
# The DNS wire format

Messages of the domain name system, and their encoding without name
compression: a header of six 16-bit fields, questions, and three sections of
resource records, each record behind the length of its data.

A label carries the bounds on its length, a name the bound on its encoding and a
character string the bound on its length, so that everything built from them can
be written down.  What is left are the fields a message counts with: a message
`Fits` when its sections and the data of its records can be counted in 16 bits.

## Main definitions

* `Label`, `Name`, `CharString` — names and texts that fit their length fields.
* `RData`, `Record`, `Question`, `Header`, `Message` — messages.
* `Message.encode`, `Message.decode` — the wire format.
* `Name.dotted` — a name in writing, every label followed by a dot.
* `Name.Spells` — the text a name is written from.
* `Name.Same` — names are compared without regard to case.

## Main results

* `Message.decode_encode` — **a message that fits is read back**.
-/

namespace Dns

/-! ### Names -/

/-- A label of a name: between 1 and 63 bytes. -/
structure Label where
  /-- The bytes. -/
  bytes : Bytes
  /-- No label but the root's is empty. -/
  length_pos : 0 < bytes.length
  /-- The two high bits of the length byte are reserved. -/
  length_lt : bytes.length < 64
  deriving DecidableEq

/-- The bytes of a label, behind their number. -/
def Label.encode (l : Label) : Bytes := UInt8.ofNat l.bytes.length :: l.bytes

@[simp] theorem Label.length_encode (l : Label) : l.encode.length = l.bytes.length + 1 := rfl

/-- The length byte of a label tells its length. -/
theorem Label.toNat_length (l : Label) :
    (UInt8.ofNat l.bytes.length).toNat = l.bytes.length := by
  have := l.length_lt
  rw [UInt8.toNat_ofNat']
  omega

/-- A fully qualified name, the root's empty label left out. -/
structure Name where
  /-- The labels, the root's last. -/
  labels : List Label
  /-- A name is at most 255 bytes on the wire. -/
  length_le : (labels.flatMap Label.encode).length < 255
  deriving DecidableEq

namespace Name

/-- The labels, and the empty one of the root. -/
def encode (n : Name) : Bytes := n.labels.flatMap Label.encode ++ [0]

/-- The labels before the root's; the first argument bounds their number. -/
def decodeLabels : ℕ → Bytes → Option (List Label × Bytes)
  | 0, _ => none
  | _ + 1, [] => none
  | k + 1, b :: bs =>
      if b = 0 then some ([], bs)
      else
        (takeExact b.toNat bs).bind fun p =>
          if h : 0 < p.1.length ∧ p.1.length < 64 then
            (decodeLabels k p.2).map fun q => (⟨p.1, h.1, h.2⟩ :: q.1, q.2)
          else none

/-- The name at the head of a byte string. -/
def decode (bs : Bytes) : Option (Name × Bytes) :=
  (decodeLabels 128 bs).bind fun p =>
    if h : (p.1.flatMap Label.encode).length < 255 then some (⟨p.1, h⟩, p.2) else none

/-- Names on the wire. -/
def codec : Codec Name := ⟨encode, decode⟩

theorem decodeLabels_encode {k : ℕ} {ls : List Label} (hk : ls.length < k) (rest : Bytes) :
    decodeLabels k (ls.flatMap Label.encode ++ 0 :: rest) = some (ls, rest) := by
  induction ls generalizing k with
  | nil =>
    obtain ⟨k, rfl⟩ : ∃ j, k = j + 1 := ⟨k - 1, by simp only [List.length_nil] at hk; omega⟩
    simp [decodeLabels]
  | cons l ls ih =>
    obtain ⟨k, rfl⟩ : ∃ j, k = j + 1 := ⟨k - 1, by omega⟩
    have hne : UInt8.ofNat l.bytes.length ≠ 0 := by
      intro heq
      have hzero := l.toNat_length
      rw [heq] at hzero
      exact l.length_pos.ne hzero
    have htake := takeExact_append l.bytes (ls.flatMap Label.encode ++ 0 :: rest)
    have hrest : decodeLabels k (ls.flatMap Label.encode ++ 0 :: rest) = some (ls, rest) := by
      apply ih
      rw [List.length_cons] at hk
      omega
    rw [List.flatMap_cons, List.append_assoc, Label.encode, List.cons_append, decodeLabels,
      if_neg hne, l.toNat_length, htake, Option.bind_some, dif_pos ⟨l.length_pos, l.length_lt⟩,
      hrest, Option.map_some]

/-- Every label takes two bytes at least. -/
theorem two_mul_length_le (ls : List Label) :
    2 * ls.length ≤ (ls.flatMap Label.encode).length := by
  induction ls with
  | nil => simp
  | cons l ls ih =>
    have := l.length_pos
    rw [List.flatMap_cons, List.length_append, List.length_cons, l.length_encode]
    omega

theorem codec_roundTrips (n : Name) : codec.RoundTrips n := by
  intro rest
  have hk : n.labels.length < 128 := by
    have := two_mul_length_le n.labels
    have := n.length_le
    omega
  have hlabels := decodeLabels_encode hk rest
  show decode (n.encode ++ rest) = some (n, rest)
  rw [encode, List.append_assoc, List.singleton_append, decode, hlabels, Option.bind_some,
    dif_pos n.length_le]

/-- A name in writing: every label, the last one too, is followed by a dot. -/
def dotted (n : Name) : String :=
  String.ofList ((n.labels.flatMap fun l => l.bytes ++ [0x2e]).map fun b => Char.ofNat b.toNat)

/-- The labels of a name are what stands between the dots of an ASCII text. -/
structure Spells (n : Name) (s : String) : Prop where
  /-- The text is ASCII. -/
  ascii : ∀ c ∈ s.toList, c.toNat < 128
  /-- The labels are its pieces. -/
  labels : n.labels.map (·.bytes) = (utf8 s).splitOn 0x2e

/-- The pieces between the dots, each followed by a dot. -/
theorem flatMap_splitOn {α : Type*} [DecidableEq α] (sep : α) (xs : List α) :
    ((xs.splitOn sep).flatMap fun l => l ++ [sep]) = xs ++ [sep] := by
  induction xs with
  | nil => simp
  | cons x xs ih =>
    obtain ⟨l, ls, hsplit⟩ := List.exists_cons_of_ne_nil (List.splitOn_ne_nil sep xs)
    rw [hsplit, List.flatMap_cons] at ih
    rw [List.splitOn_cons_eq_if_modifyHead, hsplit]
    split
    · case isTrue heq =>
      obtain rfl := beq_iff_eq.mp heq
      rw [List.flatMap_cons, List.flatMap_cons, ih]
      rfl
    · rw [List.modifyHead_cons, List.flatMap_cons, List.cons_append, List.cons_append, ih]
      rfl

/-- A name in writing is the text that spells it, with a dot at the end. -/
theorem Spells.dotted_eq {n : Name} {s : String} (h : n.Spells s) : n.dotted = s ++ "." := by
  have hpieces : (n.labels.flatMap fun l => l.bytes ++ [0x2e]) = utf8 s ++ [0x2e] := by
    rw [← flatMap_splitOn, ← h.labels, List.flatMap_map]
  apply String.toList_inj.mp
  rw [dotted, hpieces, List.map_append, map_ofNat_utf8 h.ascii, String.toList_ofList,
    String.toList_append]
  rfl

/-- On the wire, a length byte takes the place of each dot, and one stands in front. -/
theorem length_flatMap_encode {ls : List Label} {s : String}
    (h : ls.map (·.bytes) = (utf8 s).splitOn 0x2e) :
    (ls.flatMap Label.encode).length = s.utf8ByteSize + 1 := by
  have hcount : (ls.flatMap Label.encode).length =
      (ls.flatMap fun l => l.bytes ++ [0x2e]).length := by
    simp only [List.length_flatMap, Label.length_encode, List.length_append,
      List.length_singleton]
  have hjoin := flatMap_splitOn 0x2e (utf8 s)
  rw [← h, List.flatMap_map] at hjoin
  rw [hcount, hjoin, List.length_append, length_utf8]
  rfl

/-- The root follows. -/
theorem Spells.length_encode {n : Name} {s : String} (h : n.Spells s) :
    n.encode.length = s.utf8ByteSize + 2 := by
  rw [encode, List.length_append, length_flatMap_encode h.labels]
  rfl

/-- A text spells a name when its pieces are neither empty nor too long. -/
theorem exists_spells {s : String} (hascii : ∀ c ∈ s.toList, c.toNat < 128)
    (hpieces : ∀ l ∈ (utf8 s).splitOn 0x2e, 0 < l.length ∧ l.length < 64)
    (hlength : s.utf8ByteSize < 254) : ∃ n : Name, n.Spells s := by
  obtain ⟨ls, hls⟩ : ∃ ls : List Label, ls.map (·.bytes) = (utf8 s).splitOn 0x2e := by
    refine ⟨((utf8 s).splitOn 0x2e).attach.map fun l =>
      ⟨l.1, (hpieces l.1 l.2).1, (hpieces l.1 l.2).2⟩, ?_⟩
    rw [List.map_map]
    exact List.attach_map_subtype_val _
  have hwire := length_flatMap_encode hls
  exact ⟨⟨ls, by omega⟩, hascii, hls⟩

/-- A letter without its case. -/
def foldCase (b : UInt8) : UInt8 := if 0x41 ≤ b && b ≤ 0x5a then b + 0x20 else b

/-- Names are compared label by label, without regard to case. -/
def Same (n m : Name) : Prop :=
  n.labels.map (·.bytes.map foldCase) = m.labels.map (·.bytes.map foldCase)

instance (n m : Name) : Decidable (n.Same m) :=
  inferInstanceAs (Decidable (_ = _))

@[simp] theorem Same.refl (n : Name) : n.Same n := rfl

end Name

/-! ### Character strings -/

/-- A character string: at most 255 bytes. -/
structure CharString where
  /-- The bytes. -/
  bytes : Bytes
  /-- The length is one byte. -/
  length_lt : bytes.length < 256
  deriving DecidableEq

namespace CharString

/-- The bytes, behind their number. -/
def encode (s : CharString) : Bytes := UInt8.ofNat s.bytes.length :: s.bytes

/-- The character strings that make up a byte string; the first argument bounds
their number. -/
def decodeAll : ℕ → Bytes → Option (List CharString)
  | _, [] => some []
  | 0, _ :: _ => none
  | k + 1, b :: bs =>
      (takeExact b.toNat bs).bind fun p =>
        if h : p.1.length < 256 then (decodeAll k p.2).map fun ss => ⟨p.1, h⟩ :: ss else none

theorem decodeAll_encode {k : ℕ} {ss : List CharString} (hk : ss.length ≤ k) :
    decodeAll k (ss.flatMap encode) = some ss := by
  induction ss generalizing k with
  | nil => cases k <;> rfl
  | cons s ss ih =>
    obtain ⟨k, rfl⟩ : ∃ j, k = j + 1 := ⟨k - 1, by rw [List.length_cons] at hk; omega⟩
    have hlen : (UInt8.ofNat s.bytes.length).toNat = s.bytes.length := by
      have := s.length_lt
      rw [UInt8.toNat_ofNat']
      omega
    have hrest : decodeAll k (ss.flatMap encode) = some ss := by
      apply ih
      rw [List.length_cons] at hk
      omega
    rw [List.flatMap_cons, encode, List.cons_append, decodeAll, hlen,
      takeExact_append, Option.bind_some, dif_pos s.length_lt, hrest, Option.map_some]

/-- Every character string takes a byte at least. -/
theorem length_le (ss : List CharString) : ss.length ≤ (ss.flatMap encode).length := by
  induction ss with
  | nil => simp
  | cons s ss ih =>
    rw [List.flatMap_cons, List.length_append, encode, List.length_cons, List.length_cons]
    omega

end CharString

/-! ### Resource records -/

/-- The type of pointer records. -/
def typePtr : UInt16 := 12

/-- The type of text records. -/
def typeTxt : UInt16 := 16

/-- The data of a resource record. -/
inductive RData
  /-- A pointer to another name. -/
  | ptr (name : Name)
  /-- Texts. -/
  | txt (strings : List CharString)
  /-- The data of any other type, not interpreted. -/
  | other (type : UInt16) (data : Bytes)
  deriving DecidableEq

namespace RData

/-- The type a record with this data has. -/
def type : RData → UInt16
  | ptr _ => typePtr
  | txt _ => typeTxt
  | other type _ => type

/-- The data on the wire. -/
def encode : RData → Bytes
  | ptr name => name.encode
  | txt strings => strings.flatMap CharString.encode
  | other _ data => data

/-- The data of a record of the given type: all of the byte string is used. -/
def decode (type : UInt16) (block : Bytes) : Option RData :=
  if type = typePtr then
    (Name.decode block).bind fun p => if p.2 = [] then some (ptr p.1) else none
  else if type = typeTxt then
    (CharString.decodeAll block.length block).map txt
  else
    some (other type block)

/-- The data can be counted in 16 bits, there is some text in a text record, and
only the other types are left uninterpreted. -/
def Fits : RData → Prop
  | ptr _ => True
  | txt strings => strings ≠ [] ∧ (strings.flatMap CharString.encode).length < 2 ^ 16
  | other type data => type ≠ typePtr ∧ type ≠ typeTxt ∧ data.length < 2 ^ 16

variable {d : RData}

theorem Fits.length_lt (h : d.Fits) : d.encode.length < 2 ^ 16 := by
  cases d with
  | ptr name =>
    have := name.length_le
    simp only [encode, Name.encode, List.length_append, List.length_singleton]
    omega
  | txt strings => exact h.2
  | other type data => exact h.2.2

/-- The data of a record is read back from its block. -/
theorem decode_encode (h : d.Fits) : decode d.type d.encode = some d := by
  cases d with
  | ptr name =>
    have hname := name.codec_roundTrips []
    rw [List.append_nil] at hname
    have hdec : Name.decode name.encode = some (name, []) := hname
    rw [type, encode, decode, if_pos rfl, hdec, Option.bind_some, if_pos rfl]
  | txt strings =>
    have hne : typeTxt ≠ typePtr := by decide
    rw [type, encode, decode, if_neg hne, if_pos rfl,
      CharString.decodeAll_encode (CharString.length_le strings), Option.map_some]
  | other type data => rw [RData.type, encode, decode, if_neg h.1, if_neg h.2.1]

end RData

/-- A resource record. -/
structure Record where
  /-- The name it is about. -/
  name : Name
  /-- Its class. -/
  cls : UInt16
  /-- For how many seconds it may be kept. -/
  ttl : UInt32
  /-- What it says. -/
  data : RData
  deriving DecidableEq

namespace Record

/-- The record on the wire; its data stands behind their length. -/
def encode (r : Record) : Bytes :=
  r.name.encode ++ (Codec.u16BE.encode r.data.type ++ (Codec.u16BE.encode r.cls ++
    (Codec.u32BE.encode r.ttl ++
      (Codec.u16BE.encode (UInt16.ofNat r.data.encode.length) ++ r.data.encode))))

/-- The record at the head of a byte string. -/
def decode (bs : Bytes) : Option (Record × Bytes) := do
  let (name, bs) ← Name.decode bs
  let (type, bs) ← Codec.u16BE.decode bs
  let (cls, bs) ← Codec.u16BE.decode bs
  let (ttl, bs) ← Codec.u32BE.decode bs
  let (length, bs) ← Codec.u16BE.decode bs
  let (block, bs) ← takeExact length.toNat bs
  let data ← RData.decode type block
  return (⟨name, cls, ttl, data⟩, bs)

/-- Records on the wire. -/
def codec : Codec Record := ⟨encode, decode⟩

theorem codec_roundTrips {r : Record} (h : r.data.Fits) : codec.RoundTrips r := by
  intro rest
  have hlen : (UInt16.ofNat r.data.encode.length).toNat = r.data.encode.length := by
    rw [UInt16.toNat_ofNat', Nat.mod_eq_of_lt h.length_lt]
  have hname : ∀ tail, Name.decode (r.name.encode ++ tail) = some (r.name, tail) :=
    r.name.codec_roundTrips
  have hblock := takeExact_append r.data.encode rest
  show decode (r.encode ++ rest) = some (r, rest)
  simp only [decode, encode, List.append_assoc, hname, Codec.u16BE_roundTrips _ _,
    Codec.u32BE_roundTrips _ _, hlen, hblock, RData.decode_encode h, Option.bind_eq_bind,
    Option.bind_some, Option.pure_def]

end Record

/-! ### Messages -/

/-- A question. -/
structure Question where
  /-- The name asked about. -/
  name : Name
  /-- The type asked for. -/
  type : UInt16
  /-- The class asked for. -/
  cls : UInt16
  deriving DecidableEq

namespace Question

/-- The question on the wire. -/
def encode (q : Question) : Bytes :=
  q.name.encode ++ (Codec.u16BE.encode q.type ++ Codec.u16BE.encode q.cls)

/-- The question at the head of a byte string. -/
def decode (bs : Bytes) : Option (Question × Bytes) := do
  let (name, bs) ← Name.decode bs
  let (type, bs) ← Codec.u16BE.decode bs
  let (cls, bs) ← Codec.u16BE.decode bs
  return (⟨name, type, cls⟩, bs)

/-- Questions on the wire. -/
def codec : Codec Question := ⟨encode, decode⟩

theorem codec_roundTrips (q : Question) : codec.RoundTrips q := by
  intro rest
  have hname : ∀ tail, Name.decode (q.name.encode ++ tail) = some (q.name, tail) :=
    q.name.codec_roundTrips
  show decode (q.encode ++ rest) = some (q, rest)
  simp only [decode, encode, List.append_assoc, hname, Codec.u16BE_roundTrips _ _,
    Option.bind_eq_bind, Option.bind_some, Option.pure_def]

end Question

/-- A message. -/
structure Message where
  /-- The transaction. -/
  id : UInt16
  /-- The flags of the header, with the operation and the result in them. -/
  flags : UInt16
  /-- The questions. -/
  queries : List Question
  /-- The records that answer them. -/
  answers : List Record
  /-- The records that name authorities. -/
  authorities : List Record
  /-- The records sent along. -/
  additionals : List Record
  deriving DecidableEq

/-- The header: the transaction, the flags, and how many entries each section has. -/
structure Header where
  /-- The transaction. -/
  id : UInt16
  /-- The flags. -/
  flags : UInt16
  /-- The number of questions. -/
  queryCount : UInt16
  /-- The number of answers. -/
  answerCount : UInt16
  /-- The number of authorities. -/
  authorityCount : UInt16
  /-- The number of records sent along. -/
  additionalCount : UInt16
  deriving DecidableEq

namespace Header

/-- The header on the wire. -/
def encode (h : Header) : Bytes :=
  Codec.u16BE.encode h.id ++ (Codec.u16BE.encode h.flags ++
    (Codec.u16BE.encode h.queryCount ++ (Codec.u16BE.encode h.answerCount ++
      (Codec.u16BE.encode h.authorityCount ++ Codec.u16BE.encode h.additionalCount))))

/-- The header at the head of a byte string. -/
def decode (bs : Bytes) : Option (Header × Bytes) := do
  let (id, bs) ← Codec.u16BE.decode bs
  let (flags, bs) ← Codec.u16BE.decode bs
  let (queryCount, bs) ← Codec.u16BE.decode bs
  let (answerCount, bs) ← Codec.u16BE.decode bs
  let (authorityCount, bs) ← Codec.u16BE.decode bs
  let (additionalCount, bs) ← Codec.u16BE.decode bs
  return (⟨id, flags, queryCount, answerCount, authorityCount, additionalCount⟩, bs)

/-- Headers on the wire. -/
def codec : Codec Header := ⟨encode, decode⟩

theorem codec_roundTrips (h : Header) : codec.RoundTrips h := by
  intro rest
  show decode (h.encode ++ rest) = some (h, rest)
  simp only [decode, encode, List.append_assoc, Codec.u16BE_roundTrips _ _, Option.bind_eq_bind,
    Option.bind_some, Option.pure_def]

end Header

namespace Message

/-- The header of a message. -/
def header (m : Message) : Header where
  id := m.id
  flags := m.flags
  queryCount := UInt16.ofNat m.queries.length
  answerCount := UInt16.ofNat m.answers.length
  authorityCount := UInt16.ofNat m.authorities.length
  additionalCount := UInt16.ofNat m.additionals.length

/-- The message on the wire: the header, the questions, the three sections. -/
def encode (m : Message) : Bytes :=
  m.header.encode ++ (m.queries.flatMap Question.encode ++ (m.answers.flatMap Record.encode ++
    (m.authorities.flatMap Record.encode ++ m.additionals.flatMap Record.encode)))

/-- The message at the head of a byte string. -/
def decode (bs : Bytes) : Option Message := do
  let (header, bs) ← Header.decode bs
  let (queries, bs) ← Question.codec.decodeTimes header.queryCount.toNat bs
  let (answers, bs) ← Record.codec.decodeTimes header.answerCount.toNat bs
  let (authorities, bs) ← Record.codec.decodeTimes header.authorityCount.toNat bs
  let (additionals, _) ← Record.codec.decodeTimes header.additionalCount.toNat bs
  return ⟨header.id, header.flags, queries, answers, authorities, additionals⟩

/-- All records, section by section. -/
def records (m : Message) : List Record := m.answers ++ (m.authorities ++ m.additionals)

/-- Everything that is counted can be counted in 16 bits. -/
structure Fits (m : Message) : Prop where
  /-- The questions. -/
  queries : m.queries.length < 2 ^ 16
  /-- The answers. -/
  answers : m.answers.length < 2 ^ 16
  /-- The authorities. -/
  authorities : m.authorities.length < 2 ^ 16
  /-- The records sent along. -/
  additionals : m.additionals.length < 2 ^ 16
  /-- The data of every record. -/
  data : ∀ r ∈ m.records, r.data.Fits

/-- **A message that fits is read back** from its encoding. -/
theorem decode_encode {m : Message} (h : m.Fits) : decode m.encode = some m := by
  have hrecords : ∀ rs : List Record, (∀ r ∈ rs, r ∈ m.records) → ∀ rest,
      Record.codec.decodeTimes rs.length (rs.flatMap Record.encode ++ rest) = some (rs, rest) := by
    intro rs hmem rest
    exact Codec.decodeTimes_encode (fun r hr => Record.codec_roundTrips (h.data r (hmem r hr))) rest
  have hqueries : ∀ rest, Question.codec.decodeTimes m.queries.length
      (m.queries.flatMap Question.encode ++ rest) = some (m.queries, rest) :=
    Codec.decodeTimes_encode fun q _ => q.codec_roundTrips
  have hanswers := hrecords m.answers fun r hr => List.mem_append_left _ hr
  have hauthorities := hrecords m.authorities fun r hr =>
    List.mem_append_right _ (List.mem_append_left _ hr)
  have hadditionals := hrecords m.additionals
    (fun r hr => List.mem_append_right _ (List.mem_append_right _ hr)) []
  rw [List.append_nil] at hadditionals
  have hheader : ∀ rest, Header.decode (m.header.encode ++ rest) = some (m.header, rest) :=
    m.header.codec_roundTrips
  have hcount : ∀ n, n < 2 ^ 16 → (UInt16.ofNat n).toNat = n := by
    intro n hn
    rw [UInt16.toNat_ofNat', Nat.mod_eq_of_lt hn]
  have hqueryCount : m.header.queryCount.toNat = m.queries.length := hcount _ h.queries
  have hanswerCount : m.header.answerCount.toNat = m.answers.length := hcount _ h.answers
  have hauthorityCount : m.header.authorityCount.toNat = m.authorities.length :=
    hcount _ h.authorities
  have hadditionalCount : m.header.additionalCount.toNat = m.additionals.length :=
    hcount _ h.additionals
  simp only [decode, encode, hheader, hqueryCount, hqueries, hanswerCount, hanswers,
    hauthorityCount, hauthorities, hadditionalCount, hadditionals, Option.bind_eq_bind,
    Option.bind_some, Option.pure_def]
  rfl

end Message

end Dns
