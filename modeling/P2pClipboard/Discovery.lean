import P2pClipboard.Mdns
import Mathlib.Data.Bool.AllAny

/-!
# Discovery within one fingerprint

The encoder of `dns.rs` writes standard messages, its readers find in them what
was written, and the name of the service keeps nodes with different fingerprints
apart.

The encoder never looks at a message as a whole.  `responseMessage` says what it
means: a response is a pointer from the service to the name drawn for the peer,
with one text record about that name for each address.  Every packet is the
encoding of such a message (`buildQueryResponse_eq_ok`), so that reading it is a
matter of the messages alone.

## Main definitions

* `Hickory.Lawful` — `hickory_proto` reads standard messages and writes plain
  names with their dots.
* `MultiaddrText.Lawful` — addresses are read back from what is written of them.
* `responseMessage`, `queryMessage` — what the packets mean.
* `Batched` — the invariant of the loop of `build_query_response`.

## Main results

* `buildQueryResponse_eq_ok` — **no assertion fails**, and the packets carry the
  addresses that fit a text record, in order.
* `newFromBytes_response`, `newFromBytes_query` — what a node makes of a packet.
* `discovery_iff_same_service` — **discovery works exactly within one service**.
-/

namespace P2pClipboard

open Dns (Name Message Record)

/-! ### What the encoder writes -/

theorem mod_and_255 (n : ℕ) : n % 256 &&& 255 = n % 256 := by
  rw [show 255 = 2 ^ 8 - 1 from rfl, Nat.and_two_pow_sub_one_eq_mod, Nat.mod_mod]

theorem appendU16_eq (out : Bytes) (value : UInt16) :
    appendU16 out value = out ++ Codec.u16BE.encode value := by
  have hhigh : ((value >>> 8) &&& 0xff).toUInt8 = UInt8.ofNat (value.toNat / 256) := by
    apply UInt8.toNat_inj.mp
    simp [Nat.shiftRight_eq_div_pow, mod_and_255]
  have hlow : (value &&& 0xff).toUInt8 = UInt8.ofNat value.toNat := by
    apply UInt8.toNat_inj.mp
    simp [mod_and_255]
  rw [appendU16, hhigh, hlow]
  rfl

theorem appendU32_eq (out : Bytes) (value : UInt32) :
    appendU32 out value = out ++ Codec.u32BE.encode value := by
  have hbyte : ∀ k : ℕ, k < 32 →
      ((value >>> UInt32.ofNat k) &&& 0xff).toUInt8 = UInt8.ofNat (value.toNat / 2 ^ k) := by
    intro k hk
    apply UInt8.toNat_inj.mp
    simp [Nat.shiftRight_eq_div_pow, Nat.mod_eq_of_lt hk, mod_and_255]
  have hlow := hbyte 0 (by decide)
  rw [show value >>> UInt32.ofNat 0 = value by simp, Nat.pow_zero, Nat.div_one] at hlow
  have henc : Codec.u32BE.encode value = [UInt8.ofNat (value.toNat / 2 ^ 24),
      UInt8.ofNat (value.toNat / 2 ^ 16), UInt8.ofNat (value.toNat / 2 ^ 8),
      UInt8.ofNat value.toNat] := by
    simp [Codec.u32BE, Codec.natBE, encodeLE, Nat.div_div_eq_div_mul]
  rw [henc, ← hlow, ← hbyte 8 (by decide), ← hbyte 16 (by decide), ← hbyte 24 (by decide)]
  rfl

theorem isAscii_utf8 {s : String} (h : ∀ c ∈ s.toList, c.toNat < 128) : isAscii (utf8 s) := by
  rw [isAscii, utf8_of_ascii h, List.all_map, List.all_eq_true]
  intro c hc
  have hlt := h c hc
  rw [Function.comp, decide_eq_true_eq, UInt8.lt_iff_toNat_lt, UInt8.toNat_ofNat',
    Nat.mod_eq_of_lt (by omega)]
  exact hlt

/-- The loop of `append_qname` over proper labels. -/
theorem foldlM_appendLabel (ls : List Dns.Label) (out : Bytes) :
    (ls.map (·.bytes)).foldlM appendLabel out = .ok (out ++ ls.flatMap Dns.Label.encode) := by
  induction ls generalizing out with
  | nil => simp [pure, Except.pure]
  | cons l ls ih =>
    have hlong : ¬64 ≤ l.bytes.length := Nat.not_le.mpr l.length_lt
    have hempty : ¬l.bytes.length = 0 := l.length_pos.ne'
    rw [List.map_cons, List.foldlM_cons, appendLabel, if_neg hlong, if_neg hempty]
    show List.foldlM appendLabel _ _ = _
    rw [ih, List.flatMap_cons, List.append_assoc]
    rfl

/-- `append_qname` writes the name a text spells; no assertion fails. -/
theorem appendQname_eq_ok {n : Name} {s : String} (h : n.Spells s) (out : Bytes) :
    appendQname out (utf8 s) = .ok (out ++ n.encode) := by
  rw [appendQname, if_pos (isAscii_utf8 h.ascii), ← h.labels, foldlM_appendLabel, Except.map,
    List.append_assoc]
  rfl

/-- A text without spaces, in ASCII. -/
def SpaceFreeAscii (s : String) : Prop := ∀ c ∈ s.toList, c.toNat < 128 ∧ c ≠ ' '

theorem SpaceFreeAscii.append {s t : String} (hs : SpaceFreeAscii s) (ht : SpaceFreeAscii t) :
    SpaceFreeAscii (s ++ t) := by
  intro c hc
  rw [String.toList_append, List.mem_append] at hc
  rcases hc with hc | hc
  · exact hs c hc
  · exact ht c hc

/-- Such a text is written as it stands. -/
theorem appendCharacterString_eq_ok {s : String} (h : SpaceFreeAscii s) (out : Bytes) :
    appendCharacterString out s = .ok (out ++ utf8 s) := by
  have hascii : ∀ c ∈ s.toList, c.toNat < 128 := fun c hc => (h c hc).1
  have hspace : ¬((utf8 s).any fun c => c == 0x20) = true := by
    rw [utf8_of_ascii hascii, List.any_map, List.any_eq_true]
    rintro ⟨c, hc, heq⟩
    rw [Function.comp, beq_iff_eq, ← UInt8.toNat_inj, UInt8.toNat_ofNat'] at heq
    have hlt := hascii c hc
    rw [Nat.mod_eq_of_lt (by omega)] at heq
    apply (h c hc).2
    rw [← Char.ofNat_toNat c, heq]
    rfl
  rw [appendCharacterString, if_pos (isAscii_utf8 hascii), if_neg hspace]

/-- The record of a text about a name. -/
def txtRecord (name : Name) (ttl : UInt32) (value : String) : Record where
  name := name
  cls := 0x8001
  ttl := ttl
  data := .txt [⟨(utf8 value).take 255, by
    rw [List.length_take]
    omega⟩]

/-- `append_txt_record` writes the record of a text that is short enough... -/
theorem appendTxtRecord_eq_ok {value : String} (h : SpaceFreeAscii value)
    (hlen : value.utf8ByteSize ≤ 255) (name : Name) (ttl : UInt32) :
    appendTxtRecord [] name.encode ttl value = .ok (txtRecord name ttl value).encode := by
  have hlong : ¬maxTxtValueLength < value.utf8ByteSize := Nat.not_lt.mpr hlen
  have htake : (utf8 value).take 255 = utf8 value :=
    List.take_of_length_le (by rw [length_utf8]; exact hlen)
  have hdata : (txtRecord name ttl value).data.encode =
      UInt8.ofNat value.utf8ByteSize :: utf8 value := by
    simp [txtRecord, Dns.RData.encode, Dns.CharString.encode, htake]
  have hflags : ([0x00, 0x10, 0x80, 0x01] : Bytes) =
      Codec.u16BE.encode Dns.typeTxt ++ Codec.u16BE.encode 0x8001 := by decide
  simp only [appendTxtRecord, if_neg hlong, appendCharacterString_eq_ok h, Except.map,
    appendU16_eq, appendU32_eq, Record.encode, hdata, hflags, List.append_assoc, List.nil_append,
    List.singleton_append]
  rfl

/-- ... and leaves out every other one. -/
theorem appendTxtRecord_eq_error {value : String} (hlen : 255 < value.utf8ByteSize) (name : Bytes)
    (ttl : UInt32) : appendTxtRecord [] name ttl value = .error .txtRecordTooLong := by
  rw [appendTxtRecord]
  exact if_pos hlen

/-! ### What the packets mean -/

/-- A query for a service. -/
def queryMessage (id : UInt16) (service : Name) : Message where
  id := id
  flags := 0x0
  queries := [⟨service, 0x0c, 0x01⟩]
  answers := []
  authorities := []
  additionals := []

/-- A response: the service points to the peer's name, and the texts are about
that name. -/
def responseMessage (id : UInt16) (service peer : Name) (ttl : UInt32) (texts : List String) :
    Message where
  id := id
  flags := 0x8400
  queries := []
  answers := [⟨service, 0x0001, ttl, .ptr peer⟩]
  authorities := []
  additionals := texts.map (txtRecord peer ttl)

theorem buildQuery_eq_ok {service : Name} {s : String} (h : service.Spells s) (id : UInt16) :
    buildQuery id (utf8 s) = .ok (queryMessage id service).encode := by
  simp only [buildQuery, appendQname_eq_ok h, Except.map, appendU16_eq, queryMessage,
    Message.encode, Message.header, Dns.Header.encode, Dns.Question.encode, List.append_assoc,
    List.nil_append, List.flatMap_cons, List.flatMap_nil, List.append_nil]
  rfl

theorem foldl_append (records : List Bytes) (out : Bytes) :
    records.foldl (fun out record => out ++ record) out = out ++ records.flatten := by
  induction records generalizing out with
  | nil => simp
  | cons record records ih => rw [List.foldl_cons, ih, List.flatten_cons, List.append_assoc]

theorem queryResponsePacket_eq_ok {service : Name} {s : String} (h : service.Spells s)
    (id : UInt16) (peer : Name) (ttl : UInt32) (texts : List String) :
    queryResponsePacket id peer.encode (texts.map fun t => (txtRecord peer ttl t).encode) ttl
      (utf8 s) = .ok (responseMessage id service peer ttl texts).encode := by
  have hrecords : (texts.map fun t => (txtRecord peer ttl t).encode).flatten =
      (texts.map (txtRecord peer ttl)).flatMap Record.encode := by
    rw [List.flatMap_map]
    rfl
  have hanswer : Record.encode ⟨service, 0x0001, ttl, .ptr peer⟩ =
      service.encode ++ (Codec.u16BE.encode 0x000c ++ (Codec.u16BE.encode 0x0001 ++
        (Codec.u32BE.encode ttl ++
          (Codec.u16BE.encode (UInt16.ofNat peer.encode.length) ++ peer.encode)))) := rfl
  simp only [queryResponsePacket, appendQname_eq_ok h, Except.map, appendU16_eq, appendU32_eq,
    foldl_append, hrecords, hanswer, responseMessage, Message.encode, Message.header,
    Dns.Header.encode, List.append_assoc, List.nil_append, List.flatMap_cons, List.flatMap_nil,
    List.length_map]
  rfl

/-! ### The loop over the addresses -/

section Loop

variable (text : MultiaddrText) (id : UInt16) (peerId : PeerId) (service peer : Name)
  (ttl : UInt32)

/-- The text of an address fits a text record. -/
def fitsTxt (addr : Multiaddr) : Bool :=
  decide ((txtToSend text peerId addr).utf8ByteSize ≤ 255)

/-- The packet of a batch of addresses. -/
def batchPacket (batch : List Multiaddr) : Bytes :=
  (responseMessage id service peer ttl (batch.map (txtToSend text peerId))).encode

/-- The records of the addresses that wait for their packet. -/
def pendingRecords (pending : List Multiaddr) : List Bytes :=
  (pending.map (txtToSend text peerId)).map fun t => (txtRecord peer ttl t).encode

/-- The loop of `build_query_response` after the addresses `kept`: they are in
the packets or wait for the next one, in order, and the next packet has room. -/
def Batched (kept : List Multiaddr) (acc : List Bytes × List Bytes) : Prop :=
  ∃ batches pending : List _,
    acc = (batches.map (batchPacket text id peerId service peer ttl),
      pendingRecords text peerId peer ttl pending) ∧
    batches.flatten ++ pending = kept ∧ pending.length < maxRecordsPerPacket ∧
    ∀ b ∈ batches, b.length ≤ maxRecordsPerPacket

variable {text id peerId service peer ttl} {s : String} {kept : List Multiaddr}
  {acc : List Bytes × List Bytes}

theorem queryResponsePacket_pendingRecords (hs : service.Spells s) (pending : List Multiaddr) :
    queryResponsePacket id peer.encode (pendingRecords text peerId peer ttl pending) ttl (utf8 s) =
      .ok (batchPacket text id peerId service peer ttl pending) :=
  queryResponsePacket_eq_ok hs id peer ttl _

@[simp] theorem length_pendingRecords (pending : List Multiaddr) :
    (pendingRecords text peerId peer ttl pending).length = pending.length := by
  rw [pendingRecords, List.length_map, List.length_map]

/-- One round of the loop. -/
theorem addAddress_batched (hs : service.Spells s) {addr : Multiaddr}
    (haddr : SpaceFreeAscii (txtToSend text peerId addr))
    (h : Batched text id peerId service peer ttl kept acc) :
    ∃ acc', addAddress text id peerId ttl peer.encode (utf8 s) acc addr = .ok acc' ∧
      Batched text id peerId service peer ttl (kept ++ [addr].filter (fitsTxt text peerId)) acc' := by
  obtain ⟨batches, pending, rfl, rfl, hroom, hsize⟩ := h
  by_cases hfits : (txtToSend text peerId addr).utf8ByteSize ≤ 255
  · -- the record joins those that wait, and may complete a packet
    have hrecords : pendingRecords text peerId peer ttl pending ++
        [(txtRecord peer ttl (txtToSend text peerId addr)).encode] =
        pendingRecords text peerId peer ttl (pending ++ [addr]) := by
      simp [pendingRecords]
    have hfilter : [addr].filter (fitsTxt text peerId) = [addr] := by
      rw [List.filter_singleton, fitsTxt, decide_eq_true hfits]
      rfl
    rw [hfilter]
    simp only [addAddress, appendTxtRecord_eq_ok haddr hfits, hrecords, length_pendingRecords]
    split
    · case isTrue hfull =>
      rw [queryResponsePacket_pendingRecords hs]
      refine ⟨_, rfl, batches ++ [pending ++ [addr]], [], ?_, ?_, by decide, ?_⟩
      · rw [List.map_append]
        rfl
      · simp
      · intro b hb
        rw [List.mem_append, List.mem_singleton] at hb
        rcases hb with hb | rfl
        · exact hsize b hb
        · exact hfull.le
    · case isFalse hnot =>
      have hlength : (pending ++ [addr]).length = pending.length + 1 := List.length_append
      refine ⟨_, rfl, batches, pending ++ [addr], rfl, by rw [List.append_assoc], ?_, hsize⟩
      omega
  · -- the address is left out, and nothing else happens
    have hfilter : [addr].filter (fitsTxt text peerId) = [] := by
      rw [List.filter_singleton, fitsTxt, decide_eq_false hfits]
      rfl
    rw [hfilter, List.append_nil]
    simp only [addAddress, appendTxtRecord_eq_error (Nat.lt_of_not_le hfits),
      length_pendingRecords, if_neg hroom.ne]
    exact ⟨_, rfl, batches, pending, rfl, rfl, hroom, hsize⟩

/-- The whole loop. -/
theorem foldlM_addAddress_batched (hs : service.Spells s) {addresses : List Multiaddr}
    (haddr : ∀ a ∈ addresses, SpaceFreeAscii (txtToSend text peerId a))
    (h : Batched text id peerId service peer ttl kept acc) :
    ∃ acc', addresses.foldlM (addAddress text id peerId ttl peer.encode (utf8 s)) acc =
        .ok acc' ∧
      Batched text id peerId service peer ttl (kept ++ addresses.filter (fitsTxt text peerId))
        acc' := by
  induction addresses generalizing kept acc with
  | nil => exact ⟨acc, rfl, by rwa [List.filter_nil, List.append_nil]⟩
  | cons a addresses ih =>
    obtain ⟨acc₁, hstep, hbatched⟩ := addAddress_batched hs (haddr a List.mem_cons_self) h
    obtain ⟨acc₂, hrun, hrest⟩ := ih (fun b hb => haddr b (List.mem_cons_of_mem a hb)) hbatched
    refine ⟨acc₂, ?_, ?_⟩
    · rw [List.foldlM_cons, hstep]
      exact hrun
    · have hcons : (a :: addresses).filter (fitsTxt text peerId) =
          [a].filter (fitsTxt text peerId) ++ addresses.filter (fitsTxt text peerId) := by
        rw [← List.filter_append]
        rfl
      rwa [hcons, ← List.append_assoc]

/-- **No assertion of the encoder fails**, and the packets carry the addresses
that fit a text record, in order. -/
theorem buildQueryResponse_eq_ok (id : UInt16) (hs : service.Spells s) {peerName : PeerName}
    (hpeer : peer.Spells peerName.text) {addresses : List Multiaddr}
    (haddr : ∀ a ∈ addresses, SpaceFreeAscii (txtToSend text peerId a)) (duration : Duration) :
    ∃ batches : List (List Multiaddr),
      buildQueryResponse text id peerId addresses duration peerName (utf8 s) =
        .ok (batches.map (batchPacket text id peerId service peer (durationToSecs duration))) ∧
      batches.flatten = (addresses.take 65535).filter (fitsTxt text peerId) ∧
      ∀ b ∈ batches, b.length ≤ maxRecordsPerPacket := by
  have hname : generatePeerName peerName = .ok peer.encode := appendQname_eq_ok hpeer []
  have hshort : ¬0xffff < peer.encode.length := by
    have := peer.length_le
    rw [Name.encode, List.length_append, List.length_singleton]
    omega
  have hstart : Batched text id peerId service peer (durationToSecs duration) [] ([], []) :=
    ⟨[], [], rfl, rfl, by decide, by simp⟩
  obtain ⟨acc, hloop, batches, pending, rfl, hkept, hroom, hsize⟩ :=
    foldlM_addAddress_batched hs
      (fun a (ha : a ∈ addresses.take 65535) => haddr a (List.mem_of_mem_take ha)) hstart
  rw [List.nil_append] at hkept
  -- a last packet takes what is left over, and an empty one stands for no address at all
  simp only [buildQueryResponse, hname, hloop, if_neg hshort, bind, Except.bind]
  cases pending with
  | nil =>
    rw [List.append_nil] at hkept
    cases batches with
    | nil =>
      refine ⟨[[]], ?_, by rw [← hkept]; rfl, by simp⟩
      have hempty : queryResponsePacket id peer.encode [] (durationToSecs duration) (utf8 s) =
          .ok (batchPacket text id peerId service peer (durationToSecs duration) []) :=
        queryResponsePacket_pendingRecords hs []
      exact congrArg (Except.map fun packet => [packet]) hempty
    | cons batch batches => exact ⟨batch :: batches, rfl, hkept, hsize⟩
  | cons a pending =>
    refine ⟨batches ++ [a :: pending], ?_, by rw [← hkept]; simp, ?_⟩
    · rw [queryResponsePacket_pendingRecords hs]
      simp [pendingRecords, Except.map]
    · intro b hb
      rw [List.mem_append, List.mem_singleton] at hb
      rcases hb with hb | rfl
      · exact hsize b hb
      · exact hroom.le

end Loop

/-! ### The names in the packets -/

/-- A character that stands for itself in a name. -/
def LabelChar (c : Char) : Prop := c.isAlphanum ∨ c = '-' ∨ c = '_'

instance (c : Char) : Decidable (LabelChar c) := inferInstanceAs (Decidable (_ ∨ _))

/-- Letters and digits are ASCII: `z` is the last of them. -/
theorem toNat_lt_of_isAlphanum {c : Char} (h : c.isAlphanum) : c.toNat < 128 := by
  have hbound : c.val ≤ 'Z'.val ∨ c.val ≤ 'z'.val ∨ c.val ≤ '9'.val := by
    rcases (Bool.or_eq_true _ _).mp h with h | h
    · rcases (Bool.or_eq_true _ _).mp h with h | h
      · exact .inl (of_decide_eq_true h).2
      · exact .inr (.inl (of_decide_eq_true ((Bool.and_eq_true _ _).mp h).2))
    · exact .inr (.inr (of_decide_eq_true ((Bool.and_eq_true _ _).mp h).2))
  simp only [UInt32.le_iff_toNat_le] at hbound
  have hc : c.toNat = c.val.toNat := rfl
  have hZ : 'Z'.val.toNat = 90 := rfl
  have hz : 'z'.val.toNat = 122 := rfl
  have h9 : '9'.val.toNat = 57 := rfl
  omega

theorem LabelChar.toNat_lt {c : Char} (h : LabelChar c) : c.toNat < 128 := by
  rcases h with h | rfl | rfl
  · exact toNat_lt_of_isAlphanum h
  · decide
  · decide

/-- A byte that stands for itself in a name. -/
def plainByte (b : UInt8) : Bool :=
  (Char.ofNat b.toNat).isAlphanum || b == 0x2d || b == 0x5f

theorem LabelChar.plainByte {c : Char} (h : LabelChar c) :
    plainByte (UInt8.ofNat c.toNat) = true := by
  have hlt := h.toNat_lt
  rcases h with h | rfl | rfl
  · rw [P2pClipboard.plainByte, UInt8.toNat_ofNat', Nat.mod_eq_of_lt (by omega),
      Char.ofNat_toNat, h, Bool.true_or, Bool.true_or]
  · decide
  · decide

/-- A label that is written as it stands: no hyphen in front, and not the mark of
an internationalised label either. -/
def plainLabel (bytes : Bytes) : Bool :=
  bytes.all plainByte && bytes.head? != some 0x2d && !(utf8 "xn--").isPrefixOf bytes

/-- A name that is written as it stands. -/
def Plain (n : Name) : Prop := n.labels ≠ [] ∧ ∀ l ∈ n.labels, plainLabel l.bytes

theorem not_mem_utf8_of_labelChar {s : String} (h : ∀ c ∈ s.toList, LabelChar c) :
    (0x2e : UInt8) ∉ utf8 s := by
  rw [utf8_of_ascii fun c hc => (h c hc).toNat_lt, List.mem_map]
  rintro ⟨c, hc, hdot⟩
  have hplain := (h c hc).plainByte
  rw [hdot] at hplain
  exact absurd hplain (by decide)

/-- A random name has a byte for each character. -/
theorem PeerName.utf8ByteSize_text (peerName : PeerName) :
    peerName.text.utf8ByteSize = peerName.text.length := by
  have hascii : ∀ c ∈ peerName.text.toList, c.toNat < 128 := fun c hc =>
    toNat_lt_of_isAlphanum (peerName.isAlphanum c hc)
  rw [← length_utf8, utf8_of_ascii hascii, List.length_map, String.length_toList]

/-- Every random name spells a name of one label. -/
theorem PeerName.exists_spells (peerName : PeerName) : ∃ n : Name, n.Spells peerName.text := by
  have hchars : ∀ c ∈ peerName.text.toList, LabelChar c := fun c hc =>
    .inl (peerName.isAlphanum c hc)
  have hascii : ∀ c ∈ peerName.text.toList, c.toNat < 128 := fun c hc => (hchars c hc).toNat_lt
  have hsize := peerName.utf8ByteSize_text
  have hbound := peerName.length_mem
  refine Name.exists_spells hascii ?_ ?_
  · intro l hl
    rw [List.splitOn_eq_singleton (not_mem_utf8_of_labelChar hchars), List.mem_singleton] at hl
    subst hl
    rw [length_utf8]
    omega
  · omega

/-- The first label of a service. -/
def serviceLabel (newV5 : Bytes → BitVec 128) : Option Bytes → String
  | some seed => "_p2pclip-" ++ uuidSimple (newV5 seed)
  | none => "_p2pclipboard"

theorem serviceName_eq (newV5 : Bytes → BitVec 128) (fingerprint : Option Bytes) :
    serviceName newV5 fingerprint = serviceLabel newV5 fingerprint ++ "._udp.local" := by
  cases fingerprint with
  | none => rfl
  | some seed => rfl

theorem isAlphanum_uuidSimple (uuid : BitVec 128) : ∀ c ∈ (uuidSimple uuid).toList, c.isAlphanum := by
  have hdigit : ∀ n < 16, (Nat.digitChar n).isAlphanum := by decide
  intro c hc
  rw [uuidSimple, String.toList_ofList, List.mem_map] at hc
  obtain ⟨i, -, rfl⟩ := hc
  exact hdigit _ (Nat.mod_lt _ (by decide))

theorem length_uuidSimple (uuid : BitVec 128) : (uuidSimple uuid).toList.length = 32 := by
  rw [uuidSimple, String.toList_ofList, List.length_map, List.length_range]

/-- The first label is written in plain characters, an underscore in front. -/
theorem serviceLabel_toList (newV5 : Bytes → BitVec 128) (fingerprint : Option Bytes) :
    ∃ cs : List Char, (serviceLabel newV5 fingerprint).toList = '_' :: cs ∧
      (∀ c ∈ cs, LabelChar c) ∧ cs.length ≤ 40 := by
  cases fingerprint with
  | none =>
    have hchars : ∀ c ∈ "p2pclipboard".toList, LabelChar c :=
      List.all_iff_forall_prop.mp (by decide)
    have htext : "_p2pclipboard".toList = '_' :: "p2pclipboard".toList := by decide
    exact ⟨"p2pclipboard".toList, htext, hchars, by decide⟩
  | some seed =>
    have hchars : ∀ c ∈ "p2pclip-".toList, LabelChar c :=
      List.all_iff_forall_prop.mp (by decide)
    refine ⟨"p2pclip-".toList ++ (uuidSimple (newV5 seed)).toList, ?_, ?_, ?_⟩
    · rw [serviceLabel, String.toList_append, ← List.cons_append]
      congr 1
    · intro c hc
      rcases List.mem_append.mp hc with hc | hc
      · exact hchars c hc
      · exact .inl (isAlphanum_uuidSimple _ c hc)
    · rw [List.length_append, length_uuidSimple]
      decide

/-- So it is as long as it has characters, which is short enough, and stands for
itself in a name. -/
theorem utf8_serviceLabel (newV5 : Bytes → BitVec 128) (fingerprint : Option Bytes) :
    (∀ c ∈ (serviceLabel newV5 fingerprint).toList, LabelChar c) ∧
      0 < (utf8 (serviceLabel newV5 fingerprint)).length ∧
      (utf8 (serviceLabel newV5 fingerprint)).length < 64 ∧
      plainLabel (utf8 (serviceLabel newV5 fingerprint)) := by
  obtain ⟨cs, hlist, hcs, hlength⟩ := serviceLabel_toList newV5 fingerprint
  have hchars : ∀ c ∈ (serviceLabel newV5 fingerprint).toList, LabelChar c := by
    rw [hlist]
    exact List.forall_mem_cons.mpr ⟨.inr (.inr rfl), hcs⟩
  have hbytes : utf8 (serviceLabel newV5 fingerprint) =
      0x5f :: cs.map fun c => UInt8.ofNat c.toNat := by
    rw [utf8_of_ascii fun c hc => (hchars c hc).toNat_lt, hlist]
    rfl
  have hall : (cs.map fun c => UInt8.ofNat c.toNat).all plainByte := by
    rw [List.all_map, List.all_eq_true]
    exact fun c hc => (hcs c hc).plainByte
  have hlabel : (utf8 (serviceLabel newV5 fingerprint)).length = cs.length + 1 := by
    rw [hbytes, List.length_cons, List.length_map]
  refine ⟨hchars, by omega, by omega, ?_⟩
  -- the underscore rules out a hyphen and the mark of an internationalised label
  rw [hbytes, plainLabel, List.all_cons, hall]
  rfl

/-- The labels of a service. -/
theorem splitOn_serviceName (newV5 : Bytes → BitVec 128) (fingerprint : Option Bytes) :
    (utf8 (serviceName newV5 fingerprint)).splitOn 0x2e =
      [utf8 (serviceLabel newV5 fingerprint), utf8 "_udp", utf8 "local"] := by
  have hchars := (utf8_serviceLabel newV5 fingerprint).1
  have hrest : utf8 "._udp.local" = 0x2e :: utf8 "_udp.local" := by decide
  have hlabels : (utf8 "_udp.local").splitOn 0x2e = [utf8 "_udp", utf8 "local"] := by decide
  rw [serviceName_eq, utf8_append, hrest, List.splitOn_append_cons_self, hlabels,
    List.splitOn_eq_singleton (not_mem_utf8_of_labelChar hchars)]
  rfl

/-- **Every service spells a plain name**, whatever the fingerprint. -/
theorem exists_service (newV5 : Bytes → BitVec 128) (fingerprint : Option Bytes) :
    ∃ n : Name, n.Spells (serviceName newV5 fingerprint) ∧ Plain n := by
  obtain ⟨hchars, hpos, hlt, hlabel⟩ := utf8_serviceLabel newV5 fingerprint
  have hsplit := splitOn_serviceName newV5 fingerprint
  have hascii : ∀ c ∈ (serviceName newV5 fingerprint).toList, c.toNat < 128 := by
    rw [serviceName_eq, String.toList_append]
    have hrest : ∀ c ∈ "._udp.local".toList, c.toNat < 128 :=
      List.all_iff_forall_prop.mp (by decide)
    exact List.forall_mem_append.mpr ⟨fun c hc => (hchars c hc).toNat_lt, hrest⟩
  obtain ⟨n, hn⟩ : ∃ n : Name, n.Spells (serviceName newV5 fingerprint) := by
    refine Name.exists_spells hascii ?_ ?_
    · rw [hsplit]
      exact List.forall_mem_cons.mpr ⟨⟨hpos, hlt⟩, by decide⟩
    · have hsize : (utf8 "._udp.local").length = 11 := by decide
      rw [← length_utf8, serviceName_eq, utf8_append, List.length_append, hsize]
      omega
  have hplain : ∀ bytes ∈ n.labels.map (·.bytes), plainLabel bytes := by
    rw [hn.labels, hsplit]
    exact List.forall_mem_cons.mpr ⟨hlabel, by decide⟩
  refine ⟨n, hn, ?_, fun l hl => hplain l.bytes (List.mem_map_of_mem hl)⟩
  intro hnil
  have hempty := hn.labels
  rw [hnil, hsplit] at hempty
  cases hempty

/-! ### What a node makes of a packet -/

/-- A query or an authoritative response made of pointers and texts. -/
structure DiscoveryMessage (m : Message) : Prop where
  /-- It can be written down. -/
  fits : m.Fits
  /-- It is a standard query, or an authoritative answer to one. -/
  flags : m.flags = 0x0000 ∨ m.flags = 0x8400
  /-- Its records are pointers or texts. -/
  data : ∀ r ∈ m.records, (∃ n, r.data = .ptr n) ∨ ∃ ss, r.data = .txt ss

/-- `hickory_proto` decodes the standard wire format, and writes a plain name as
its labels joined by dots, with a final dot. -/
structure Hickory.Lawful {ProtoError : Type} (hickory : Hickory ProtoError) : Prop where
  /-- A message is decoded from its encoding. -/
  fromVec : ∀ m : Message, DiscoveryMessage m → hickory.fromVec m.encode = .ok m
  /-- `to_utf8` of a plain name. -/
  toUtf8 : ∀ n : Name, Plain n → hickory.toUtf8 n = n.dotted
  /-- `to_string` of a plain name. -/
  toString : ∀ n : Name, Plain n → hickory.toString n = n.dotted

/-- The crates write a peer id in base58, an address component by component, and
read back what they wrote. -/
structure MultiaddrText.Lawful (text : MultiaddrText) (peerId : PeerId)
    (addresses : List Multiaddr) : Prop where
  /-- Base58 consists of letters and digits. -/
  toBase58 : ∀ c ∈ (text.toBase58 peerId).toList, c.isAlphanum
  /-- The peer's component is written behind the others. -/
  display : ∀ a ∈ addresses,
    text.display (a ++ [.p2p peerId]) = text.display a ++ "/p2p/" ++ text.toBase58 peerId
  /-- An address is read back. -/
  parse : ∀ a ∈ addresses,
    text.parse (text.display (a ++ [.p2p peerId])) = some (a ++ [.p2p peerId])

section Read

variable {ProtoError : Type} {hickory : Hickory ProtoError} {text : MultiaddrText}
  {peerId : PeerId} {addresses batch : List Multiaddr}

/-- The text of a listed address has no space in it either. -/
theorem spaceFreeAscii_txtToSend (ht : text.Lawful peerId addresses)
    (hascii : ∀ a ∈ addresses, SpaceFreeAscii (text.display a)) :
    ∀ a ∈ addresses, SpaceFreeAscii (txtToSend text peerId a) := by
  intro a ha
  have hprotocol : SpaceFreeAscii "dnsaddr=" := List.all_iff_forall_prop.mp (by decide)
  have hp2p : SpaceFreeAscii "/p2p/" := List.all_iff_forall_prop.mp (by decide)
  have hbase58 : SpaceFreeAscii (text.toBase58 peerId) := by
    intro c hc
    have halpha := ht.toBase58 c hc
    refine ⟨toNat_lt_of_isAlphanum halpha, ?_⟩
    rintro rfl
    exact absurd halpha (by decide)
  exact ((hprotocol.append (hascii a ha)).append hp2p).append hbase58

/-- A text that fits its record is read as the address with the peer behind it. -/
theorem readTxt_txtToSend (ht : text.Lawful peerId addresses) {a : Multiaddr}
    (ha : a ∈ addresses) :
    readTxt text (utf8 (txtToSend text peerId a)) = some (a ++ [.p2p peerId]) := by
  have hsplit : txtToSend text peerId a = "dnsaddr=" ++ text.display (a ++ [.p2p peerId]) := by
    rw [ht.display a ha, txtToSend, String.append_assoc, String.append_assoc, String.append_assoc]
  -- the text does not start with a quote, so nothing is taken off
  have hhead : utf8 "dnsaddr=" = 0x64 :: utf8 "nsaddr=" := by decide
  have hquote : decodeCharacterString (utf8 (txtToSend text peerId a)) =
      some (utf8 (txtToSend text peerId a)) := by
    rw [hsplit, utf8_append, hhead, List.cons_append]
    rfl
  have hstarts : (utf8 "dnsaddr=").isPrefixOf (utf8 (txtToSend text peerId a)) := by
    rw [hsplit, utf8_append, List.isPrefixOf_iff_prefix]
    exact List.prefix_append _ _
  have hdrop : (utf8 (txtToSend text peerId a)).drop 8 =
      utf8 (text.display (a ++ [.p2p peerId])) := by
    rw [hsplit, utf8_append]
    rfl
  rw [readTxt, hquote, Option.bind_some, if_pos hstarts, hdrop, fromUtf8_utf8, Option.bind_some,
    ht.parse a ha]

/-- The addresses of a batch are collected in order, under the one peer. -/
theorem collectAddrs_batch {my : Option PeerId} (hmy : my = none ∨ my = some peerId)
    (hread : ∀ a ∈ batch,
      readTxt text (utf8 (txtToSend text peerId a)) = some (a ++ [.p2p peerId])) :
    collectAddrs text my (batch.map fun a => utf8 (txtToSend text peerId a)) =
      (if batch = [] then my else some peerId, batch) := by
  induction batch generalizing my with
  | nil => rfl
  | cons a batch ih =>
    have hrest : collectAddrs text (some peerId)
        (batch.map fun a => utf8 (txtToSend text peerId a)) = (some peerId, batch) := by
      rw [ih (.inr rfl) fun b hb => hread b (List.mem_cons_of_mem a hb), ite_self]
    rw [List.map_cons, collectAddrs, hread a List.mem_cons_self, if_neg (List.cons_ne_nil a batch)]
    rcases hmy with rfl | rfl
    · simp [hrest]
    · simp [hrest]

variable {id : UInt16} {service peer : Name} {ttl : UInt32}

/-- The peer of a batch; an empty batch tells of no peer. -/
def batchPeers (peerId : PeerId) (ttl : UInt32) : List Multiaddr → List MdnsPeer
  | [] => []
  | a :: batch => [⟨a :: batch, peerId, ttl⟩]

theorem discoveryMessage_query (id : UInt16) (service : Name) :
    DiscoveryMessage (queryMessage id service) where
  fits := ⟨(by decide : 1 < 2 ^ 16), (by decide : 0 < 2 ^ 16), (by decide : 0 < 2 ^ 16),
    (by decide : 0 < 2 ^ 16), by simp [queryMessage, Message.records]⟩
  flags := .inl rfl
  data := by simp [queryMessage, Message.records]

theorem fits_txtRecord (peer : Name) (ttl : UInt32) (value : String) :
    (txtRecord peer ttl value).data.Fits := by
  refine ⟨List.cons_ne_nil _ _, ?_⟩
  have hlen : ((utf8 value).take 255).length ≤ 255 := by
    rw [List.length_take]
    omega
  simp only [List.flatMap_cons, List.flatMap_nil, List.append_nil, Dns.CharString.encode,
    List.length_cons]
  omega

theorem discoveryMessage_response {texts : List String} (h : texts.length < 2 ^ 16) :
    DiscoveryMessage (responseMessage id service peer ttl texts) := by
  have hrecords : ∀ r ∈ (responseMessage id service peer ttl texts).records,
      r.data = .ptr peer ∨ ∃ t ∈ texts, r = txtRecord peer ttl t := by
    intro r hr
    rcases List.mem_cons.mp hr with rfl | hr
    · exact .inl rfl
    · obtain ⟨t, ht, rfl⟩ := List.mem_map.mp hr
      exact .inr ⟨t, ht, rfl⟩
  refine ⟨⟨by simp [responseMessage], by simp [responseMessage], by simp [responseMessage], ?_, ?_⟩,
    .inr rfl, ?_⟩
  · rwa [responseMessage, List.length_map]
  · intro r hr
    rcases hrecords r hr with hptr | ⟨t, -, rfl⟩
    · rw [hptr]
      trivial
    · exact fits_txtRecord peer ttl t
  · intro r hr
    rcases hrecords r hr with hptr | ⟨t, -, rfl⟩
    · exact .inl ⟨peer, hptr⟩
    · exact .inr ⟨_, rfl⟩

/-- The peer read from a response is the one that wrote it. -/
theorem mdnsPeer_new_response (hfits : ∀ a ∈ batch, fitsTxt text peerId a)
    (hread : ∀ a ∈ batch,
      readTxt text (utf8 (txtToSend text peerId a)) = some (a ++ [.p2p peerId])) :
    (MdnsPeer.new text (responseMessage id service peer ttl (batch.map (txtToSend text peerId)))
      peer ttl).toList = batchPeers peerId ttl batch := by
  have htexts : (responseMessage id service peer ttl
      (batch.map (txtToSend text peerId))).additionals.flatMap (textsOf peer) =
      batch.map fun a => utf8 (txtToSend text peerId a) := by
    rw [responseMessage, List.map_map, List.flatMap_map, List.map_eq_flatMap]
    apply List.flatMap_congr
    intro a ha
    have hlen : (utf8 (txtToSend text peerId a)).length ≤ 255 := by
      rw [length_utf8]
      exact of_decide_eq_true (hfits a ha)
    simp [textsOf, txtRecord, List.take_of_length_le hlen]
  rw [MdnsPeer.new, htexts, collectAddrs_batch (.inl rfl) hread]
  cases batch with
  | nil => rfl
  | cons a batch => rfl

/-- **What a node makes of a packet of a response**: the peer with the addresses
in it when the packet is about the node's own service, and no peer otherwise. -/
theorem newFromBytes_response (hh : hickory.Lawful) (hplain : Plain service)
    (hsize : batch.length ≤ maxRecordsPerPacket) (hfits : ∀ a ∈ batch, fitsTxt text peerId a)
    (hread : ∀ a ∈ batch,
      readTxt text (utf8 (txtToSend text peerId a)) = some (a ++ [.p2p peerId]))
    (source : SocketAddr) (fqdn : String) :
    MdnsPacket.newFromBytes hickory text (batchPacket text id peerId service peer ttl batch)
        source fqdn =
      .ok (some (.response
        ⟨if service.dotted = fqdn then batchPeers peerId ttl batch else [], source⟩)) := by
  have hcount : (batch.map (txtToSend text peerId)).length < 2 ^ 16 := by
    have hmax : maxRecordsPerPacket = 29 := by decide
    rw [List.length_map]
    omega
  have hanswer : peerOf hickory text
      (responseMessage id service peer ttl (batch.map (txtToSend text peerId))) fqdn
      ⟨service, 0x0001, ttl, .ptr peer⟩ =
      if service.dotted = fqdn then MdnsPeer.new text
        (responseMessage id service peer ttl (batch.map (txtToSend text peerId))) peer ttl
      else none := by
    rw [peerOf, hh.toString service hplain]
  have hpeers : (MdnsResponse.new hickory text
      (responseMessage id service peer ttl (batch.map (txtToSend text peerId))) source fqdn).peers =
      if service.dotted = fqdn then batchPeers peerId ttl batch else [] := by
    show List.filterMap _ [_] = _
    rw [List.filterMap_eq_flatMap_toList, List.flatMap_singleton, hanswer]
    split
    · exact mdnsPeer_new_response hfits hread
    · rfl
  rw [MdnsPacket.newFromBytes, batchPacket, hh.fromVec _ (discoveryMessage_response hcount),
    ← hpeers]
  rfl

/-- **What a node makes of a query**: it answers queries for its own service. -/
theorem newFromBytes_query (hh : hickory.Lawful) (hplain : Plain service) (source : SocketAddr)
    (fqdn : String) :
    (∃ q, MdnsPacket.newFromBytes hickory text (queryMessage id service).encode source fqdn =
      .ok (some (.query q))) ↔ service.dotted = fqdn := by
  have hread : MdnsPacket.newFromBytes hickory text (queryMessage id service).encode source fqdn =
      .ok (if service.dotted = fqdn then some (.query ⟨source, id⟩)
        else if service.dotted = metaQueryServiceFqdn then some (.serviceDiscovery ⟨source, id⟩)
        else none) := by
    rw [MdnsPacket.newFromBytes, hh.fromVec _ (discoveryMessage_query id service)]
    simp only [queryMessage, bind, Except.bind, List.any_cons, List.any_nil, Bool.or_false,
      hh.toUtf8 service hplain, decide_eq_true_eq]
    rw [if_neg (List.cons_ne_nil _ _)]
    split
    · rfl
    · split <;> rfl
  rw [hread]
  constructor
  · rintro ⟨q, hq⟩
    by_contra hne
    rw [if_neg hne] at hq
    split at hq <;> cases hq
  · intro heq
    rw [if_pos heq]
    exact ⟨_, rfl⟩

end Read

/-! ### Discovery -/

/-- `duration_to_secs` rounds up, up to the largest 32-bit number. -/
theorem toNat_durationToSecs (duration : Duration) :
    (durationToSecs duration).toNat =
      min ((duration.secs.toNat * 10 ^ 9 + duration.subsecNanos.toNat + (10 ^ 9 - 1)) / 10 ^ 9)
        (2 ^ 32 - 1) := by
  have hsecs := duration.secs.toNat_lt
  have hnanos := duration.subsecNanos_lt
  have hpos : 0 < duration.subsecNanos ↔ 0 < duration.subsecNanos.toNat :=
    UInt32.lt_iff_toNat_lt
  simp only [durationToSecs, UInt32.toNat_ofNat', hpos]
  split <;> omega

/-- The addresses of the peers of a batch. -/
@[simp] theorem flatMap_addrs_batchPeers (peerId : PeerId) (ttl : UInt32)
    (batch : List Multiaddr) : (batchPeers peerId ttl batch).flatMap (·.addrs) = batch := by
  cases batch with
  | nil => rfl
  | cons a batch => simp [batchPeers]

theorem eq_of_mem_batchPeers {peerId : PeerId} {ttl : UInt32} {batch : List Multiaddr}
    {peer : MdnsPeer} (h : peer ∈ batchPeers peerId ttl batch) :
    peer.peerId = peerId ∧ peer.ttl = ttl := by
  cases batch with
  | nil => cases h
  | cons a batch =>
    obtain rfl := List.mem_singleton.mp h
    exact ⟨rfl, rfl⟩

/-- **Discovery works exactly within one service.**  For whatever fingerprints,
the packets of a response are read as responses; over all of them the receiver
finds the listed addresses whose text fits a record, in order and under the
responder's id and the rounded-up time to live, when both take part in the same
service, and no peer when they do not.  A query is answered in the same case. -/
theorem discovery_iff_same_service {ProtoError : Type} {hickory : Hickory ProtoError}
    (hh : hickory.Lawful) {text : MultiaddrText} (newV5 : Bytes → BitVec 128)
    (config config' : MdnsConfig) (peerId peerId' : PeerId) {addresses : List Multiaddr}
    (ht : text.Lawful peerId addresses)
    (hascii : ∀ a ∈ addresses, SpaceFreeAscii (text.display a))
    (id queryId : UInt16) (peerName : PeerName) (source : SocketAddr) :
    let responder := InterfaceState.new newV5 config peerId
    let receiver := InterfaceState.new newV5 config' peerId'
    ∃ packets responses query,
      buildQueryResponse text id responder.localPeerId addresses responder.ttl peerName
        responder.serviceName = .ok packets ∧
      List.Forall₂ (fun packet response => MdnsPacket.newFromBytes hickory text packet source
        receiver.serviceNameFqdn = .ok (some (.response response))) packets responses ∧
      (responder.serviceName = receiver.serviceName →
        (responses.flatMap fun r => r.peers.flatMap (·.addrs)) =
          (addresses.take 65535).filter (fun a => (txtToSend text peerId a).utf8ByteSize ≤ 255) ∧
        ∀ r ∈ responses, ∀ peer ∈ r.peers, peer.peerId = peerId ∧
          peer.ttl.toNat = min ((config.ttl.secs.toNat * 10 ^ 9 + config.ttl.subsecNanos.toNat +
            (10 ^ 9 - 1)) / 10 ^ 9) (2 ^ 32 - 1)) ∧
      (responder.serviceName ≠ receiver.serviceName → ∀ r ∈ responses, r.peers = []) ∧
      buildQuery queryId responder.serviceName = .ok query ∧
      ((∃ q, MdnsPacket.newFromBytes hickory text query source receiver.serviceNameFqdn =
        .ok (some (.query q))) ↔ responder.serviceName = receiver.serviceName) := by
  intro responder receiver
  obtain ⟨service, hservice, hplain⟩ := exists_service newV5 config.serviceFingerprint
  obtain ⟨peer, hpeer⟩ := peerName.exists_spells
  have htexts := spaceFreeAscii_txtToSend ht hascii
  obtain ⟨batches, hbuild, hflatten, hsize⟩ :=
    buildQueryResponse_eq_ok id hservice hpeer htexts config.ttl
  -- the two services have the same name exactly when the receiver reads its own in the packet
  have hsame : service.dotted = receiver.serviceNameFqdn ↔
      responder.serviceName = receiver.serviceName := by
    rw [hservice.dotted_eq]
    constructor
    · intro heq
      exact congrArg utf8 ((String.append_left_inj ".").mp heq)
    · intro heq
      exact congrArg (· ++ ".") (utf8_injective heq)
  have hkept : ∀ b ∈ batches, ∀ a ∈ b, a ∈ addresses ∧ fitsTxt text peerId a := by
    intro b hb a ha
    have hmem : a ∈ batches.flatten := List.mem_flatten.mpr ⟨b, hb, ha⟩
    rw [hflatten, List.mem_filter] at hmem
    exact ⟨List.mem_of_mem_take hmem.1, hmem.2⟩
  refine ⟨_, batches.map fun b => ⟨if service.dotted = receiver.serviceNameFqdn then
    batchPeers peerId (durationToSecs config.ttl) b else [], source⟩, _, hbuild, ?_, ?_, ?_,
    buildQuery_eq_ok hservice queryId, ?_⟩
  · rw [List.forall₂_map_left_iff, List.forall₂_map_right_iff, List.forall₂_same]
    intro b hb
    exact newFromBytes_response hh hplain (hsize b hb) (fun a ha => (hkept b hb a ha).2)
      (fun a ha => readTxt_txtToSend ht (hkept b hb a ha).1) source _
  · intro heq
    simp only [if_pos (hsame.mpr heq)]
    refine ⟨?_, ?_⟩
    · rw [List.flatMap_map]
      simp only [flatMap_addrs_batchPeers]
      rw [List.flatMap_id', hflatten]
      rfl
    · intro r hr p hp
      obtain ⟨b, -, rfl⟩ := List.mem_map.mp hr
      obtain ⟨hid, httl⟩ := eq_of_mem_batchPeers hp
      exact ⟨hid, by rw [httl, toNat_durationToSecs]⟩
  · intro hne r hr
    obtain ⟨b, -, rfl⟩ := List.mem_map.mp hr
    exact if_neg fun heq => hne (hsame.mp heq)
  · rw [newFromBytes_query hh hplain, hsame]

/-- A decoder that reads what the encoder wrote, and writes names as they are. -/
def plainHickory : Hickory Unit where
  fromVec bytes := (Message.decode bytes).elim (.error ()) .ok
  toUtf8 := Name.dotted
  toString := Name.dotted

private theorem plainHickory_lawful : plainHickory.Lawful where
  fromVec m hm := by
    show (Message.decode m.encode).elim _ _ = _
    rw [Message.decode_encode hm.fits]
    rfl
  toUtf8 _ _ := rfl
  toString _ _ := rfl

/-- A peer of one address. -/
def lanPeer : PeerId := ⟨[0, 1, 5]⟩

/-- Its address. -/
def lanAddress : Multiaddr := [.ip4 192 168 1 7, .tcp 4001]

private def displayProtocol : Protocol → String
  | .ip4 a b c d => "/ip4/" ++ a.toNat.repr ++ "." ++ b.toNat.repr ++ "." ++ c.toNat.repr ++ "." ++
      d.toNat.repr
  | .tcp port => "/tcp/" ++ port.toNat.repr
  | .p2p _ => "/p2p/15W"
  | .other _ _ => ""

/-- The texts of that peer and that address. -/
def lanText : MultiaddrText where
  display a := String.join (a.map displayProtocol)
  parse s :=
    if s = "/ip4/192.168.1.7/tcp/4001/p2p/15W" then some (lanAddress ++ [.p2p lanPeer]) else none
  toBase58 _ := "15W"

private theorem lanText_lawful : lanText.Lawful lanPeer [lanAddress] where
  toBase58 := List.all_eq_true.mp (by decide)
  display := by decide
  parse := by decide

private def wordUuid (seed : Bytes) : BitVec 128 :=
  if seed = utf8 "alpha" then 0x1ecf6c638cd353feb6531c1b56b3275b
  else 0x5aab62ea1ad85083a41008c2524ea6ae

private def wordNode (word : String) (peerId : PeerId) : InterfaceState :=
  .new wordUuid ⟨⟨1, 500000000, by decide⟩, some (utf8 word)⟩ peerId

/-- A name of 32 characters, the fewest. -/
def lanName : PeerName :=
  ⟨"0123456789abcdefghijklmnopqrstuv", by decide, List.all_eq_true.mp (by decide)⟩

/-- A node with the fingerprint `alpha` is found, at its address and for two
seconds, by a node with the same fingerprint, and is not found by a node with
the fingerprint `beta`. -/
theorem discovery_alpha_beta :
    (∃ packets responses,
      buildQueryResponse lanText 7 lanPeer [lanAddress] (wordNode "alpha" lanPeer).ttl lanName
        (wordNode "alpha" lanPeer).serviceName = .ok packets ∧
      List.Forall₂ (fun packet response => MdnsPacket.newFromBytes plainHickory lanText packet
        ⟨[192, 168, 1, 7], 5353⟩ (wordNode "alpha" ⟨[0, 1, 6]⟩).serviceNameFqdn =
          .ok (some (.response response))) packets responses ∧
      (responses.flatMap fun r => r.peers.flatMap (·.addrs)) = [lanAddress] ∧
      ∀ r ∈ responses, ∀ peer ∈ r.peers, peer.peerId = lanPeer ∧ peer.ttl.toNat = 2) ∧
    ∃ packets responses,
      buildQueryResponse lanText 7 lanPeer [lanAddress] (wordNode "alpha" lanPeer).ttl lanName
        (wordNode "alpha" lanPeer).serviceName = .ok packets ∧
      List.Forall₂ (fun packet response => MdnsPacket.newFromBytes plainHickory lanText packet
        ⟨[192, 168, 1, 7], 5353⟩ (wordNode "beta" ⟨[0, 1, 6]⟩).serviceNameFqdn =
          .ok (some (.response response))) packets responses ∧
      ∀ r ∈ responses, r.peers = [] := by
  have hascii : ∀ a ∈ [lanAddress], SpaceFreeAscii (lanText.display a) := by
    intro a ha
    obtain rfl := List.mem_singleton.mp ha
    exact List.all_iff_forall_prop.mp (by decide)
  refine ⟨?_, ?_⟩
  · obtain ⟨packets, responses, query, hbuild, hread, hfound, -⟩ :=
      discovery_iff_same_service plainHickory_lawful wordUuid
        ⟨⟨1, 500000000, by decide⟩, some (utf8 "alpha")⟩
        ⟨⟨1, 500000000, by decide⟩, some (utf8 "alpha")⟩ lanPeer ⟨[0, 1, 6]⟩ lanText_lawful hascii
        7 8 lanName ⟨[192, 168, 1, 7], 5353⟩
    obtain ⟨haddrs, hpeers⟩ := hfound rfl
    refine ⟨packets, responses, hbuild, hread, ?_, ?_⟩
    · rw [haddrs]
      decide
    · intro r hr peer hpeer
      obtain ⟨hid, httl⟩ := hpeers r hr peer hpeer
      refine ⟨hid, ?_⟩
      rw [httl]
      decide
  · obtain ⟨packets, responses, query, hbuild, hread, -, hnone, -⟩ :=
      discovery_iff_same_service plainHickory_lawful wordUuid
        ⟨⟨1, 500000000, by decide⟩, some (utf8 "alpha")⟩
        ⟨⟨1, 500000000, by decide⟩, some (utf8 "beta")⟩ lanPeer ⟨[0, 1, 6]⟩ lanText_lawful hascii
        7 8 lanName ⟨[192, 168, 1, 7], 5353⟩
    exact ⟨packets, responses, hbuild, hread, hnone (by decide +kernel)⟩

end P2pClipboard
