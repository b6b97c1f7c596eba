import P2pClipboard.Lib.Dns

/-!
# Messages that were cut off

A decoder reads on until it has what it needs; bytes that follow do not change what it has
read.  An encoding that is read to its end is therefore not read at all when its end is
missing.

## Main definitions

* `ReadsOn` — what is read does not depend on the bytes that follow.
* `Dns.Message.read` — a DNS message, and the bytes behind it.

## Main results

* `ReadsOn.decode_take` — **an encoding that was cut off is not decoded.**
* `Dns.Message.decode_take` — the same for DNS messages.
-/

/-- What is read does not depend on the bytes that follow. -/
def ReadsOn {α : Type*} (decode : Bytes → Option (α × Bytes)) : Prop :=
  ∀ bs a rest, decode bs = some (a, rest) → ∀ more, decode (bs ++ more) = some (a, rest ++ more)

namespace ReadsOn

variable {α : Type*}

theorem exact_length (n : ℕ) : ReadsOn (takeExact n) := by
  intro bs a rest h more
  unfold takeExact at h ⊢
  split at h
  · rename_i hle
    obtain ⟨rfl, rfl⟩ := Prod.mk.inj (Option.some.inj h)
    rw [if_pos (hle.trans (by simp)), List.take_append_of_le_length hle,
      List.drop_append_of_le_length hle]
  · cases h

theorem u16BE : ReadsOn Codec.u16BE.decode := by
  intro bs x rest h more
  obtain ⟨⟨n, bs₁⟩, h₁, heq⟩ := Option.map_eq_some_iff.mp h
  obtain ⟨⟨block, bs₂⟩, h₂, heq'⟩ := Option.map_eq_some_iff.mp h₁
  obtain ⟨rfl, rfl⟩ := Prod.mk.inj heq'
  obtain ⟨rfl, rfl⟩ := Prod.mk.inj heq
  simp only [Codec.u16BE, Codec.natBE, exact_length 2 _ _ _ h₂ more, Option.map_some]

theorem u32BE : ReadsOn Codec.u32BE.decode := by
  intro bs x rest h more
  obtain ⟨⟨n, bs₁⟩, h₁, heq⟩ := Option.map_eq_some_iff.mp h
  obtain ⟨⟨block, bs₂⟩, h₂, heq'⟩ := Option.map_eq_some_iff.mp h₁
  obtain ⟨rfl, rfl⟩ := Prod.mk.inj heq'
  obtain ⟨rfl, rfl⟩ := Prod.mk.inj heq
  simp only [Codec.u32BE, Codec.natBE, exact_length 4 _ _ _ h₂ more, Option.map_some]

/-- Values in a row. -/
theorem decodeTimes {c : Codec α} (h : ReadsOn c.decode) (n : ℕ) : ReadsOn (c.decodeTimes n) := by
  induction n with
  | zero =>
    intro bs l rest hl more
    obtain ⟨rfl, rfl⟩ := Prod.mk.inj (Option.some.inj hl)
    rfl
  | succ n ih =>
    intro bs l rest hl more
    obtain ⟨⟨a, bs₁⟩, ha, hl⟩ := Option.bind_eq_some_iff.mp hl
    obtain ⟨⟨as, bs₂⟩, has, heq⟩ := Option.map_eq_some_iff.mp hl
    obtain ⟨rfl, rfl⟩ := Prod.mk.inj heq
    rw [Codec.decodeTimes, h _ _ _ ha more, Option.bind_some, ih _ _ _ has more, Option.map_some]

/-- **An encoding that was cut off is not decoded.** -/
theorem decode_take {c : Codec α} (h : ReadsOn c.decode) {a : α} (hc : c.RoundTrips a) {k : ℕ}
    (hk : k < (c.encode a).length) : c.decode ((c.encode a).take k) = none := by
  cases hdecode : c.decode ((c.encode a).take k) with
  | none => rfl
  | some p =>
    -- with the bytes that are missing, something would be left over
    have hall := h _ _ _ hdecode ((c.encode a).drop k)
    have hwhole := hc []
    rw [List.take_append_drop] at hall
    rw [List.append_nil] at hwhole
    have hrest := congrArg Prod.snd (Option.some.inj (hall.symm.trans hwhole))
    have hdrop := (List.append_eq_nil_iff.mp hrest).2
    exact absurd (List.drop_eq_nil_iff.mp hdrop) (Nat.not_le.mpr hk)

end ReadsOn

namespace Dns

theorem Name.readsOn_decodeLabels (k : ℕ) : ReadsOn (Name.decodeLabels k) := by
  induction k with
  | zero =>
    intro bs a rest h
    cases h
  | succ k ih =>
    intro bs ls rest h more
    cases bs with
    | nil => cases h
    | cons b bs =>
      rw [Name.decodeLabels] at h
      rw [List.cons_append, Name.decodeLabels]
      split at h
      · rename_i hroot
        obtain ⟨rfl, rfl⟩ := Prod.mk.inj (Option.some.inj h)
        rw [if_pos hroot]
      · rename_i hroot
        obtain ⟨⟨block, bs₁⟩, hblock, h⟩ := Option.bind_eq_some_iff.mp h
        rw [if_neg hroot, ReadsOn.exact_length _ _ _ _ hblock more, Option.bind_some]
        dsimp only at h ⊢
        split at h
        · rename_i hlabel
          obtain ⟨⟨ls', bs₂⟩, hls', heq⟩ := Option.map_eq_some_iff.mp h
          obtain ⟨rfl, rfl⟩ := Prod.mk.inj heq
          rw [dif_pos hlabel, ih _ _ _ hls' more, Option.map_some]
        · cases h

theorem Name.readsOn : ReadsOn Name.decode := by
  intro bs n rest h more
  obtain ⟨⟨ls, bs₁⟩, hls, h⟩ := Option.bind_eq_some_iff.mp h
  rw [Name.decode, Name.readsOn_decodeLabels _ _ _ _ hls more, Option.bind_some]
  dsimp only at h ⊢
  split at h
  · rename_i hlength
    obtain ⟨rfl, rfl⟩ := Prod.mk.inj (Option.some.inj h)
    rw [dif_pos hlength]
  · cases h

theorem Question.readsOn : ReadsOn Question.decode := by
  intro bs q rest h more
  obtain ⟨⟨name, bs₁⟩, h₁, h⟩ := Option.bind_eq_some_iff.mp h
  obtain ⟨⟨type, bs₂⟩, h₂, h⟩ := Option.bind_eq_some_iff.mp h
  obtain ⟨⟨cls, bs₃⟩, h₃, h⟩ := Option.bind_eq_some_iff.mp h
  obtain ⟨rfl, rfl⟩ := Prod.mk.inj (Option.some.inj h)
  simp only [Question.decode, Name.readsOn _ _ _ h₁ more, ReadsOn.u16BE _ _ _ h₂ more,
    ReadsOn.u16BE _ _ _ h₃ more, Option.bind_eq_bind, Option.bind_some, Option.pure_def]

theorem Record.readsOn : ReadsOn Record.decode := by
  intro bs r rest h more
  obtain ⟨⟨name, bs₁⟩, h₁, h⟩ := Option.bind_eq_some_iff.mp h
  obtain ⟨⟨type, bs₂⟩, h₂, h⟩ := Option.bind_eq_some_iff.mp h
  obtain ⟨⟨cls, bs₃⟩, h₃, h⟩ := Option.bind_eq_some_iff.mp h
  obtain ⟨⟨ttl, bs₄⟩, h₄, h⟩ := Option.bind_eq_some_iff.mp h
  obtain ⟨⟨length, bs₅⟩, h₅, h⟩ := Option.bind_eq_some_iff.mp h
  obtain ⟨⟨block, bs₆⟩, h₆, h⟩ := Option.bind_eq_some_iff.mp h
  obtain ⟨data, h₇, h⟩ := Option.bind_eq_some_iff.mp h
  obtain ⟨rfl, rfl⟩ := Prod.mk.inj (Option.some.inj h)
  simp only [Record.decode, Name.readsOn _ _ _ h₁ more, ReadsOn.u16BE _ _ _ h₂ more,
    ReadsOn.u16BE _ _ _ h₃ more, ReadsOn.u32BE _ _ _ h₄ more, ReadsOn.u16BE _ _ _ h₅ more,
    ReadsOn.exact_length _ _ _ _ h₆ more, h₇, Option.bind_eq_bind, Option.bind_some,
    Option.pure_def]

theorem Header.readsOn : ReadsOn Header.decode := by
  intro bs r rest h more
  obtain ⟨⟨id, bs₁⟩, h₁, h⟩ := Option.bind_eq_some_iff.mp h
  obtain ⟨⟨flags, bs₂⟩, h₂, h⟩ := Option.bind_eq_some_iff.mp h
  obtain ⟨⟨queryCount, bs₃⟩, h₃, h⟩ := Option.bind_eq_some_iff.mp h
  obtain ⟨⟨answerCount, bs₄⟩, h₄, h⟩ := Option.bind_eq_some_iff.mp h
  obtain ⟨⟨authorityCount, bs₅⟩, h₅, h⟩ := Option.bind_eq_some_iff.mp h
  obtain ⟨⟨additionalCount, bs₆⟩, h₆, h⟩ := Option.bind_eq_some_iff.mp h
  obtain ⟨rfl, rfl⟩ := Prod.mk.inj (Option.some.inj h)
  simp only [Header.decode, ReadsOn.u16BE _ _ _ h₁ more, ReadsOn.u16BE _ _ _ h₂ more,
    ReadsOn.u16BE _ _ _ h₃ more, ReadsOn.u16BE _ _ _ h₄ more, ReadsOn.u16BE _ _ _ h₅ more,
    ReadsOn.u16BE _ _ _ h₆ more, Option.bind_eq_bind, Option.bind_some, Option.pure_def]

namespace Message

/-- The message at the head of a byte string, with the bytes behind it. -/
def read (bs : Bytes) : Option (Message × Bytes) := do
  let (header, bs) ← Header.decode bs
  let (queries, bs) ← Question.codec.decodeTimes header.queryCount.toNat bs
  let (answers, bs) ← Record.codec.decodeTimes header.answerCount.toNat bs
  let (authorities, bs) ← Record.codec.decodeTimes header.authorityCount.toNat bs
  let (additionals, bs) ← Record.codec.decodeTimes header.additionalCount.toNat bs
  return (⟨header.id, header.flags, queries, answers, authorities, additionals⟩, bs)

/-- Messages on the wire. -/
def codec : Codec Message := ⟨encode, read⟩

/-- Decoding leaves the bytes behind the message alone. -/
theorem decode_eq_read (bs : Bytes) : decode bs = (read bs).map Prod.fst := by
  simp only [decode, read, Option.bind_eq_bind, Option.pure_def, Option.map_bind,
    Function.comp_def, Option.map_some]

theorem readsOn : ReadsOn codec.decode := by
  intro bs m rest h more
  obtain ⟨⟨header, bs₁⟩, h₁, h⟩ := Option.bind_eq_some_iff.mp h
  obtain ⟨⟨queries, bs₂⟩, h₂, h⟩ := Option.bind_eq_some_iff.mp h
  obtain ⟨⟨answers, bs₃⟩, h₃, h⟩ := Option.bind_eq_some_iff.mp h
  obtain ⟨⟨authorities, bs₄⟩, h₄, h⟩ := Option.bind_eq_some_iff.mp h
  obtain ⟨⟨additionals, bs₅⟩, h₅, h⟩ := Option.bind_eq_some_iff.mp h
  obtain ⟨rfl, rfl⟩ := Prod.mk.inj (Option.some.inj h)
  have hquestions := ReadsOn.decodeTimes (c := Question.codec) Question.readsOn
  have hrecords := ReadsOn.decodeTimes (c := Record.codec) Record.readsOn
  simp only [codec, read, Header.readsOn _ _ _ h₁ more, hquestions _ _ _ _ h₂ more,
    hrecords _ _ _ _ h₃ more, hrecords _ _ _ _ h₄ more, hrecords _ _ _ _ h₅ more,
    Option.bind_eq_bind, Option.bind_some, Option.pure_def]

/-- A message that fits is read to its end. -/
theorem codec_roundTrips {m : Message} (h : m.Fits) : codec.RoundTrips m := by
  intro rest
  have hrecords : ∀ rs : List Record, (∀ r ∈ rs, r ∈ m.records) → ∀ rest,
      Record.codec.decodeTimes rs.length (rs.flatMap Record.encode ++ rest) = some (rs, rest) :=
    fun rs hmem => Codec.decodeTimes_encode fun r hr =>
      Record.codec_roundTrips (h.data r (hmem r hr))
  have hqueries : ∀ rest, Question.codec.decodeTimes m.queries.length
      (m.queries.flatMap Question.encode ++ rest) = some (m.queries, rest) :=
    Codec.decodeTimes_encode fun q _ => q.codec_roundTrips
  have hanswers := hrecords m.answers fun r hr => List.mem_append_left _ hr
  have hauthorities := hrecords m.authorities fun r hr =>
    List.mem_append_right _ (List.mem_append_left _ hr)
  have hadditionals := hrecords m.additionals fun r hr =>
    List.mem_append_right _ (List.mem_append_right _ hr)
  have hheader : ∀ rest, Header.decode (m.header.encode ++ rest) = some (m.header, rest) :=
    m.header.codec_roundTrips
  have hcount : ∀ n, n < 2 ^ 16 → (UInt16.ofNat n).toNat = n := by
    intro n hn
    rw [UInt16.toNat_ofNat', Nat.mod_eq_of_lt hn]
  have hqueryCount : m.header.queryCount.toNat = m.queries.length := hcount _ h.queries
  have hanswerCount : m.header.answerCount.toNat = m.answers.length := hcount _ h.answers
  have hauthorityCount : m.header.authorityCount.toNat = m.authorities.length :=
    hcount _ h.authorities
  have hadditionalCount : m.header.additionalCount.toNat = m.additionals.length :=
    hcount _ h.additionals
  simp only [codec, read, encode, List.append_assoc, hheader, hqueryCount, hqueries,
    hanswerCount, hanswers, hauthorityCount, hauthorities, hadditionalCount, hadditionals,
    Option.bind_eq_bind, Option.bind_some, Option.pure_def]
  rfl

/-- **A message that was cut off is not decoded.** -/
theorem decode_take {m : Message} (h : m.Fits) {k : ℕ} (hk : k < m.encode.length) :
    decode (m.encode.take k) = none := by
  have hread : read (m.encode.take k) = none := readsOn.decode_take (codec_roundTrips h) hk
  rw [decode_eq_read, hread]
  rfl

end Message

end Dns
