import P2pClipboard.Discovery
import P2pClipboard.Lib.Chunks
import Mathlib.Algebra.Order.BigOperators.Group.List

/-!
# The size of a response

`MAX_RECORDS_PER_PACKET` divides the largest packet by the largest record, and the
receiver reads into a buffer of 4096 bytes.  How long a packet really is depends on
the name drawn for the peer, on the name of the service and on the texts: every
record repeats the peer's name, and a text with a space in it is quoted.

The texts that go into a response are cut into batches of `MAX_RECORDS_PER_PACKET`,
one for each packet (`queryResponse_lengths`), so that the lengths of all
packets are known before any of them is built.

## Main definitions

* `recvBufferSize` — the room at the receiver.
* `sentTexts` — the texts of the addresses that go into a response.
* `responseSize` — the length of the packet of a batch of texts.
* `Collected` — the invariant of the loop over the addresses.

## Main results

* `queryResponse_lengths` — the packets are built, and have these lengths.
* `queryResponse_fits_iff` — **they fit the receiver's buffer exactly when no batch of
  texts is too long.**
* `queryResponse_le_maxPacketSize`, `queryResponse_le_recvBufferSize_of_few` — what
  the two allowances do buy, and how many addresses always fit.
-/

namespace P2pClipboard

open Dns (Name)

/-! ### Sizes -/

/-- The size of `recv_buffer`. -/
def recvBufferSize : ℕ := 4096

/-- The bytes of a text as a character string.  With a space in it, it is put in
quotes, and every quote and backslash in it gets a backslash. -/
def characterStringSize (value : String) : ℕ :=
  if (utf8 value).any fun c => c == 0x20 then
    value.utf8ByteSize + (utf8 value).countP (fun c => c == 0x5c || c == 0x22) + 2
  else
    value.utf8ByteSize

theorem characterStringSize_of_all_ne {value : String}
    (h : (utf8 value).all (· != 0x20)) : characterStringSize value = value.utf8ByteSize := by
  have hspace : ¬((utf8 value).any fun c => c == 0x20) = true := by
    rw [List.any_eq_true]
    rintro ⟨c, hc, heq⟩
    have hne := List.all_eq_true.mp h c hc
    rw [beq_iff_eq.mp heq] at hne
    cases hne
  rw [characterStringSize, if_neg hspace]

/-- The bytes of the record of a text about a name of the given length: the name
with its length byte and the root, eleven bytes of fields, and the text. -/
def recordSize (nameLength : ℕ) (value : String) : ℕ :=
  nameLength + 13 + characterStringSize value

/-- The bytes of a packet without its records: the header, the name of the service,
the fields of the answer and the name. -/
def headerSize (serviceLength nameLength : ℕ) : ℕ := serviceLength + nameLength + 26

/-- The bytes of the packet of a batch of texts. -/
def responseSize (serviceLength nameLength : ℕ) (texts : List String) : ℕ :=
  headerSize serviceLength nameLength + (texts.map (recordSize nameLength)).sum

/-- The bytes of the name of a service. -/
def serviceNameLength : Option Bytes → ℕ
  | some _ => 52
  | none => 24

/-- A text goes into a record. -/
def sendable (value : String) : Bool :=
  decide (value.utf8ByteSize ≤ maxTxtValueLength) && isAscii (utf8 value)

/-- The texts of a response. -/
def sentTexts (text : MultiaddrText) (peerId : PeerId) (addresses : List Multiaddr) :
    List String :=
  ((addresses.take 65535).map (txtToSend text peerId)).filter sendable

/-- The batches of a response: without any text there is an empty one. -/
def responseBatches (texts : List String) : List (List String) :=
  if texts = [] then [[]] else chunks maxRecordsPerPacket texts

/-! ### The encoder -/

theorem length_flatMap_escapeByte (bytes : Bytes) :
    (bytes.flatMap escapeByte).length =
      bytes.length + bytes.countP fun c => c == 0x5c || c == 0x22 := by
  induction bytes with
  | nil => rfl
  | cons b bytes ih =>
    have hbyte : (escapeByte b).length = 1 + if b == 0x5c || b == 0x22 then 1 else 0 := by
      rw [escapeByte]
      by_cases hslash : b = 0x5c
      · simp [hslash]
      · by_cases hquote : b = 0x22
        · simp [hquote]
        · simp [hslash, hquote]
    rw [List.flatMap_cons, List.length_append, ih, hbyte, List.countP_cons, List.length_cons]
    omega

theorem length_appendCharacterString {value : String} (h : isAscii (utf8 value)) (out : Bytes) :
    ∃ out', appendCharacterString out value = .ok out' ∧
      out'.length = out.length + characterStringSize value := by
  rw [appendCharacterString, if_pos h, characterStringSize]
  split
  · refine ⟨_, rfl, ?_⟩
    simp only [List.length_append, List.length_singleton, length_flatMap_escapeByte, length_utf8]
    omega
  · refine ⟨_, rfl, ?_⟩
    rw [List.length_append, length_utf8]

/-- The record of a text that is sent. -/
theorem length_appendTxtRecord {value : String} (h : sendable value) (name : Bytes)
    (ttl : UInt32) :
    ∃ record, appendTxtRecord [] name ttl value = .ok record ∧
      record.length = name.length + 11 + characterStringSize value := by
  obtain ⟨hlen, hascii⟩ := (Bool.and_eq_true _ _).mp h
  have hlong : ¬maxTxtValueLength < value.utf8ByteSize := Nat.not_lt.mpr (of_decide_eq_true hlen)
  obtain ⟨buffer, hbuffer, hsize⟩ :=
    length_appendCharacterString hascii [UInt8.ofNat value.utf8ByteSize]
  simp only [appendTxtRecord, if_neg hlong, hbuffer, Except.map]
  refine ⟨_, rfl, ?_⟩
  simp only [appendU16, appendU32, List.length_append, List.length_cons, List.length_nil, hsize]
  omega

/-- Any other text is left out. -/
theorem appendTxtRecord_of_not_sendable {value : String} (h : ¬sendable value) (name : Bytes)
    (ttl : UInt32) : ∃ e, appendTxtRecord [] name ttl value = .error e := by
  by_cases hlong : maxTxtValueLength < value.utf8ByteSize
  · exact ⟨.txtRecordTooLong, appendTxtRecord_eq_error hlong name ttl⟩
  · have hascii : ¬isAscii (utf8 value) := by
      intro hascii
      apply h
      rw [sendable, hascii, decide_eq_true (Nat.not_lt.mp hlong)]
      rfl
    refine ⟨.nonAsciiMultiaddr, ?_⟩
    simp only [appendTxtRecord, if_neg hlong, appendCharacterString, if_neg hascii, Except.map]

theorem length_queryResponsePacket {service : Name} {s : String} (hs : service.Spells s)
    (id : UInt16) (name : Bytes) (records : List Bytes) (ttl : UInt32) :
    ∃ packet, queryResponsePacket id name records ttl (utf8 s) = .ok packet ∧
      packet.length = s.utf8ByteSize + 24 + name.length + (records.map List.length).sum := by
  simp only [queryResponsePacket, appendQname_eq_ok hs, Except.map]
  refine ⟨_, rfl, ?_⟩
  simp only [foldl_append, appendU16, appendU32, List.length_append, List.length_cons,
    List.length_nil, List.length_flatten, hs.length_encode]
  omega

/-! ### The loop over the addresses -/

section Loop

variable (text : MultiaddrText) (id : UInt16) (peerId : PeerId) (ttl : UInt32)
  {service : Name} {s : String} {nameBytes : Bytes} {nameLength : ℕ} {kept : List String}
  {acc : List Bytes × List Bytes}

/-- The loop of `build_query_response` after the texts `kept`: every packet holds a
full batch of them, and the others wait for the next one. -/
def Collected (serviceLength nameLength : ℕ) (kept : List String)
    (acc : List Bytes × List Bytes) : Prop :=
  ∃ full pending, Filled maxRecordsPerPacket kept full pending ∧
    acc.1.map List.length = full.map (responseSize serviceLength nameLength) ∧
    acc.2.map List.length = pending.map (recordSize nameLength)

/-- The packet of records of known lengths. -/
theorem length_queryResponsePacket_of_batch (hs : service.Spells s)
    (hname : nameBytes.length = nameLength + 2) {records : List Bytes} {batch : List String}
    (hrecords : records.map List.length = batch.map (recordSize nameLength)) :
    ∃ packet, queryResponsePacket id nameBytes records ttl (utf8 s) = .ok packet ∧
      packet.length = responseSize s.utf8ByteSize nameLength batch := by
  obtain ⟨packet, hpacket, hlength⟩ := length_queryResponsePacket hs id nameBytes records ttl
  refine ⟨packet, hpacket, ?_⟩
  rw [hlength, hname, hrecords, responseSize, headerSize]
  omega

/-- One round of the loop. -/
theorem addAddress_collected (hs : service.Spells s)
    (hname : nameBytes.length = nameLength + 2) (addr : Multiaddr)
    (h : Collected s.utf8ByteSize nameLength kept acc) :
    ∃ acc', addAddress text id peerId ttl nameBytes (utf8 s) acc addr = .ok acc' ∧
      Collected s.utf8ByteSize nameLength
        (kept ++ [txtToSend text peerId addr].filter sendable) acc' := by
  obtain ⟨full, pending, hfilled, hpackets, hrecords⟩ := h
  have hcount : acc.2.length = pending.length := by
    simpa only [List.length_map] using congrArg List.length hrecords
  by_cases hsend : sendable (txtToSend text peerId addr)
  · -- the record joins those that wait, and may complete a batch
    obtain ⟨record, hrecord, hsize⟩ := length_appendTxtRecord hsend nameBytes ttl
    have hjoined : (acc.2 ++ [record]).map List.length =
        (pending ++ [txtToSend text peerId addr]).map (recordSize nameLength) := by
      rw [List.map_append, hrecords, List.map_append, List.map_singleton, List.map_singleton,
        hsize, hname, recordSize]
    have hlength : (acc.2 ++ [record]).length =
        (pending ++ [txtToSend text peerId addr]).length := by
      rw [List.length_append, hcount, List.length_append]
      rfl
    rw [List.filter_singleton, hsend]
    simp only [addAddress, hrecord, hlength]
    split
    · case isTrue hfull =>
      obtain ⟨packet, hpacket, hpacketSize⟩ :=
        length_queryResponsePacket_of_batch id ttl hs hname hjoined
      rw [hpacket]
      refine ⟨_, rfl, _, _, hfilled.push_full hfull, ?_, rfl⟩
      rw [List.map_append, hpackets, List.map_append, List.map_singleton, List.map_singleton,
        hpacketSize]
    · case isFalse hroom =>
      exact ⟨_, rfl, _, _, hfilled.push hroom, hpackets, hjoined⟩
  · -- the text is left out: nothing is added, and no batch becomes full
    obtain ⟨e, he⟩ := appendTxtRecord_of_not_sendable hsend nameBytes ttl
    have hroom : ¬acc.2.length = maxRecordsPerPacket := by
      rw [hcount]
      exact hfilled.pending.ne
    rw [List.filter_singleton, Bool.eq_false_of_not_eq_true hsend, cond_false, List.append_nil]
    simp only [addAddress, he, if_neg hroom]
    exact ⟨_, rfl, full, pending, hfilled, hpackets, hrecords⟩

/-- The whole loop. -/
theorem foldlM_addAddress_collected (hs : service.Spells s)
    (hname : nameBytes.length = nameLength + 2) (addresses : List Multiaddr)
    (h : Collected s.utf8ByteSize nameLength kept acc) :
    ∃ acc', addresses.foldlM (addAddress text id peerId ttl nameBytes (utf8 s)) acc = .ok acc' ∧
      Collected s.utf8ByteSize nameLength
        (kept ++ (addresses.map (txtToSend text peerId)).filter sendable) acc' := by
  induction addresses generalizing kept acc with
  | nil => exact ⟨acc, rfl, by rwa [List.map_nil, List.filter_nil, List.append_nil]⟩
  | cons addr addresses ih =>
    obtain ⟨acc₁, hstep, hcollected⟩ := addAddress_collected text id peerId ttl hs hname addr h
    obtain ⟨acc₂, hrun, hrest⟩ := ih hcollected
    refine ⟨acc₂, ?_, ?_⟩
    · rw [List.foldlM_cons, hstep]
      exact hrun
    · rwa [List.append_assoc, ← List.filter_append, List.singleton_append, ← List.map_cons] at hrest

/-! ### The packets -/

/-- The batches of the texts of a run of the loop. -/
theorem responseBatches_eq_of_filled {full : List (List String)} {pending : List String}
    (h : Filled maxRecordsPerPacket kept full pending) :
    responseBatches kept =
      if pending = [] then if full = [] then [[]] else full else full ++ [pending] := by
  rw [responseBatches, h.chunks_eq, ← h.flatten]
  cases pending with
  | nil =>
    cases full with
    | nil => rfl
    | cons batch full =>
      have hbatch : batch ≠ [] := by
        rintro rfl
        exact absurd (h.full [] List.mem_cons_self) (by decide)
      simp [hbatch]
  | cons t pending => simp

/-- The packets of a response: one for each batch. -/
theorem buildQueryResponse_lengths (addresses : List Multiaddr)
    (duration : Duration) {peerName : PeerName} {peer : Name} (hs : service.Spells s)
    (hpeer : peer.Spells peerName.text) (hlength : peerName.text.utf8ByteSize = nameLength) :
    ∃ packets, buildQueryResponse text id peerId addresses duration peerName (utf8 s) =
        .ok packets ∧
      packets.map List.length =
        (responseBatches (sentTexts text peerId addresses)).map
          (responseSize s.utf8ByteSize nameLength) := by
  have hgenerate : generatePeerName peerName = .ok peer.encode := appendQname_eq_ok hpeer []
  have hname : peer.encode.length = nameLength + 2 := by rw [hpeer.length_encode, hlength]
  have hshort : ¬0xffff < peer.encode.length := by
    have hbound := peer.length_le
    rw [Name.encode, List.length_append, List.length_singleton]
    omega
  have hstart : Collected s.utf8ByteSize nameLength [] ([], []) :=
    ⟨[], [], Filled.nil (by decide), rfl, rfl⟩
  obtain ⟨⟨packets, records⟩, hloop, full, pending, hfilled, hpackets, hrecords⟩ :=
    foldlM_addAddress_collected text id peerId (durationToSecs duration) hs hname
      (addresses.take 65535) hstart
  obtain ⟨packet, hpacket, hsize⟩ :=
    length_queryResponsePacket_of_batch id (durationToSecs duration) hs hname hrecords
  have hbatches : responseBatches (sentTexts text peerId addresses) = _ :=
    responseBatches_eq_of_filled hfilled
  rw [hbatches]
  simp only [buildQueryResponse, hgenerate, hloop, if_neg hshort, bind, Except.bind]
  cases pending with
  | nil =>
    obtain rfl : records = [] := List.map_eq_nil_iff.mp hrecords
    cases full with
    | nil =>
      obtain rfl : packets = [] := List.map_eq_nil_iff.mp hpackets
      refine ⟨[packet], congrArg (Except.map fun packet => [packet]) hpacket, ?_⟩
      rw [List.map_singleton, hsize]
      rfl
    | cons batch full =>
      cases packets with
      | nil => cases hpackets
      | cons p packets => exact ⟨p :: packets, rfl, hpackets⟩
  | cons t pending =>
    cases records with
    | nil => cases hrecords
    | cons record records =>
      refine ⟨packets ++ [packet], ?_, ?_⟩
      · rw [hpacket]
        simp [Except.map]
      · rw [if_neg (List.cons_ne_nil t pending), List.map_append, List.map_append, hpackets,
          List.map_singleton, List.map_singleton, hsize]

end Loop

/-! ### The responses of a node -/

theorem utf8ByteSize_serviceName (newV5 : Bytes → BitVec 128) (fingerprint : Option Bytes) :
    (serviceName newV5 fingerprint).utf8ByteSize = serviceNameLength fingerprint := by
  cases fingerprint with
  | none =>
    show defaultServiceName.utf8ByteSize = 24
    decide
  | some seed =>
    have hchars : ∀ c ∈ (uuidSimple (newV5 seed)).toList, c.toNat < 128 := fun c hc =>
      toNat_lt_of_isAlphanum (isAlphanum_uuidSimple _ c hc)
    have huuid : (utf8 (uuidSimple (newV5 seed))).length = 32 := by
      rw [utf8_of_ascii hchars, List.length_map, length_uuidSimple]
    have hfront : (utf8 "_p2pclip-").length = 9 := by decide
    have hback : (utf8 "._udp.local").length = 11 := by decide
    rw [← length_utf8, serviceName, utf8_append, utf8_append, List.length_append,
      List.length_append, hfront, huuid, hback]
    rfl

/-- The response `poll` makes of the addresses a node listens on. -/
def InterfaceState.queryResponse (state : InterfaceState) (text : MultiaddrText)
    (queryId : UInt16) (listenAddresses : List Multiaddr) (peerName : PeerName) :
    Except BuilderPanic (List Bytes) :=
  buildQueryResponse text queryId state.localPeerId listenAddresses state.ttl peerName
    state.serviceName

section Node

variable (text : MultiaddrText) (newV5 : Bytes → BitVec 128) (config : MdnsConfig)
  (peerId : PeerId) (addresses : List Multiaddr) (queryId : UInt16) (peerName : PeerName)

/-- **The packets of a response are built, and have these lengths.** -/
theorem queryResponse_lengths :
    ∃ packets, (InterfaceState.new newV5 config peerId).queryResponse text queryId addresses
        peerName = .ok packets ∧
      packets.map List.length =
        (responseBatches (sentTexts text peerId addresses)).map
          (responseSize (serviceNameLength config.serviceFingerprint) peerName.text.length) := by
  obtain ⟨service, hservice, -⟩ := exists_service newV5 config.serviceFingerprint
  obtain ⟨peer, hpeer⟩ := peerName.exists_spells
  have hlengths := buildQueryResponse_lengths text queryId peerId addresses config.ttl
    hservice hpeer peerName.utf8ByteSize_text
  rw [utf8ByteSize_serviceName] at hlengths
  exact hlengths

/-- A packet without records is short. -/
theorem headerSize_le : headerSize (serviceNameLength config.serviceFingerprint)
    peerName.text.length ≤ 141 := by
  have hname := peerName.length_mem.2
  have hservice : serviceNameLength config.serviceFingerprint ≤ 52 := by
    cases config.serviceFingerprint with
    | none => decide
    | some seed => exact Nat.le_refl 52
  rw [headerSize]
  omega

/-- A bound on the packets is a bound on the batches, when the empty batch obeys it. -/
theorem queryResponse_length_le_iff {bound : ℕ} (hbound : 141 ≤ bound) :
    ∃ packets, (InterfaceState.new newV5 config peerId).queryResponse text queryId addresses
        peerName = .ok packets ∧
      ((∀ packet ∈ packets, packet.length ≤ bound) ↔
        ∀ batch ∈ chunks maxRecordsPerPacket (sentTexts text peerId addresses),
          responseSize (serviceNameLength config.serviceFingerprint) peerName.text.length batch ≤
            bound) := by
  obtain ⟨packets, hbuild, hlengths⟩ :=
    queryResponse_lengths text newV5 config peerId addresses queryId peerName
  refine ⟨packets, hbuild, ?_⟩
  rw [← List.forall_mem_map (P := (· ≤ bound)), hlengths, List.forall_mem_map, responseBatches]
  split
  · case isTrue hnil =>
    rw [hnil]
    have hheader := headerSize_le config peerName
    simp only [List.forall_mem_singleton, responseSize, List.map_nil, List.sum_nil]
    constructor
    · intro _ batch hbatch
      cases hbatch
    · intro _
      omega
  · rfl

/-- **The packets of a response fit the receiver's buffer exactly when no batch of
texts is too long**: the first addresses of the node are taken, those whose text fits
a record are cut into batches of `MAX_RECORDS_PER_PACKET`, and for each batch the
texts with their quotes, 13 bytes and the peer's name for each, and the header are at
most as long as the buffer. -/
theorem queryResponse_fits_iff :
    ∃ packets, (InterfaceState.new newV5 config peerId).queryResponse text queryId addresses
        peerName = .ok packets ∧
      ((∀ packet ∈ packets, packet.length ≤ recvBufferSize ∧ packet.length ≤ maxPacketSize) ↔
        ∀ batch ∈ chunks maxRecordsPerPacket (sentTexts text peerId addresses),
          serviceNameLength config.serviceFingerprint + peerName.text.length + 26 +
            (batch.map fun t => peerName.text.length + 13 + characterStringSize t).sum ≤ 4096) := by
  obtain ⟨packets, hbuild, hlengths⟩ := queryResponse_length_le_iff text newV5 config peerId
    addresses queryId peerName (show 141 ≤ recvBufferSize by decide)
  -- the buffer is smaller than the largest packet
  have hless : recvBufferSize ≤ maxPacketSize := by decide
  refine ⟨packets, hbuild, ?_⟩
  show _ ↔ ∀ batch ∈ chunks maxRecordsPerPacket (sentTexts text peerId addresses),
    responseSize (serviceNameLength config.serviceFingerprint) peerName.text.length batch ≤
      recvBufferSize
  rw [← hlengths]
  constructor
  · intro h packet hpacket
    exact (h packet hpacket).1
  · intro h packet hpacket
    exact ⟨h packet hpacket, (h packet hpacket).trans hless⟩

/-- A batch whose records have a common bound. -/
theorem responseSize_le (serviceLength : ℕ) {nameLength bound : ℕ} {texts : List String}
    (h : ∀ t ∈ texts, recordSize nameLength t ≤ bound) :
    responseSize serviceLength nameLength texts ≤
      headerSize serviceLength nameLength + texts.length * bound := by
  have hsum : (texts.map (recordSize nameLength)).sum ≤ (texts.map _).length * bound :=
    List.sum_le_card_nsmul (texts.map (recordSize nameLength)) bound (List.forall_mem_map.mpr h)
  rw [List.length_map] at hsum
  show headerSize serviceLength nameLength + (texts.map (recordSize nameLength)).sum ≤ _
  exact Nat.add_le_add_left hsum _

/-- What the two allowances do buy: when the records and the header keep to them, no
packet is longer than `MAX_PACKET_SIZE`. -/
theorem queryResponse_le_maxPacketSize
    (hrecord : ∀ t ∈ sentTexts text peerId addresses,
      recordSize peerName.text.length t ≤ maxTxtRecordSize)
    (hheader : headerSize (serviceNameLength config.serviceFingerprint) peerName.text.length ≤ 100) :
    ∃ packets, (InterfaceState.new newV5 config peerId).queryResponse text queryId addresses
        peerName = .ok packets ∧ ∀ packet ∈ packets, packet.length ≤ maxPacketSize := by
  obtain ⟨packets, hbuild, hlengths⟩ := queryResponse_length_le_iff text newV5 config peerId
    addresses queryId peerName (show 141 ≤ maxPacketSize by decide)
  refine ⟨packets, hbuild, hlengths.mpr ?_⟩
  intro batch hbatch
  have hsub := sublist_of_mem_chunks (by decide) hbatch
  have hsize := responseSize_le (serviceNameLength config.serviceFingerprint)
    fun t ht => hrecord t (hsub.subset ht)
  have hlength : batch.length * maxTxtRecordSize ≤ maxRecordsPerPacket * maxTxtRecordSize :=
    Nat.mul_le_mul_right _ (length_le_of_mem_chunks hbatch)
  have hbudget : 100 + maxRecordsPerPacket * maxTxtRecordSize ≤ maxPacketSize := by decide
  omega

/-- The record of a text without a space: at most 255 bytes of text behind 63 of name. -/
theorem recordSize_le {t : String} (ht : t ∈ sentTexts text peerId addresses)
    (hspace : (utf8 t).all (· != 0x20)) : recordSize peerName.text.length t ≤ 331 := by
  have hsendable := (List.mem_filter.mp ht).2
  have hlen : t.utf8ByteSize ≤ 255 := of_decide_eq_true ((Bool.and_eq_true _ _).mp hsendable).1
  have hname := peerName.length_mem.2
  rw [recordSize, characterStringSize_of_all_ne hspace]
  omega

/-- **Eleven addresses always fit**, whatever their texts are, as long as there is no
space in them. -/
theorem queryResponse_le_recvBufferSize_of_few
    (hfew : (sentTexts text peerId addresses).length ≤ 11)
    (hspace : ∀ t ∈ sentTexts text peerId addresses, (utf8 t).all (· != 0x20)) :
    ∃ packets, (InterfaceState.new newV5 config peerId).queryResponse text queryId addresses
        peerName = .ok packets ∧ ∀ packet ∈ packets, packet.length ≤ recvBufferSize := by
  obtain ⟨packets, hbuild, hlengths⟩ := queryResponse_length_le_iff text newV5 config peerId
    addresses queryId peerName (show 141 ≤ recvBufferSize by decide)
  refine ⟨packets, hbuild, hlengths.mpr ?_⟩
  intro batch hbatch
  have hsub := sublist_of_mem_chunks (by decide) hbatch
  have hsize := responseSize_le (serviceNameLength config.serviceFingerprint) fun t ht =>
    recordSize_le text peerId addresses peerName (hsub.subset ht) (hspace t (hsub.subset ht))
  have hheader := headerSize_le config peerName
  have hlength : batch.length ≤ 11 := hsub.length_le.trans hfew
  rw [recvBufferSize]
  omega

end Node

private def subnetPeer : PeerId :=
  ⟨[0x00, 0x24, 0x08, 0x01, 0x12, 0x20, 0xd7, 0x5a, 0x98, 0x01, 0x82, 0xb1, 0x0a, 0xb7, 0xd5, 0x4b,
    0xfe, 0xd3, 0xc9, 0x64, 0x07, 0x3a, 0x0e, 0xe1, 0x72, 0xf3, 0xda, 0xa6, 0x23, 0x25, 0xaf, 0x02,
    0x1a, 0x68, 0xf7, 0x07, 0x51, 0x1a]⟩

private def subnetAddresses : List Multiaddr :=
  (List.range 29).map fun i => [.ip4 192 168 1 (UInt8.ofNat (100 + i)), .tcp 40000]

private def displayIp4Tcp : Multiaddr → String
  | [.ip4 a b c d, .tcp port] => "/ip4/" ++ a.toNat.repr ++ "." ++ b.toNat.repr ++ "." ++
      c.toNat.repr ++ "." ++ d.toNat.repr ++ "/tcp/" ++ port.toNat.repr
  | _ => ""

private def subnetText : MultiaddrText where
  display := displayIp4Tcp
  parse s := subnetAddresses.find? fun a => displayIp4Tcp a = s
  toBase58 _ := "12D3KooWQK1wnefoLrcVHbbnf5tLzbopUd3K3bFAoJpA7YJgL5pV"

private def subnetNode : InterfaceState :=
  .new (fun _ => 0x1ecf6c638cd353feb6531c1b56b3275b)
    ⟨⟨360, 0, by decide⟩, some (utf8 "alpha")⟩ subnetPeer

/-- A node with a fingerprint and 29 ordinary addresses, under the shortest name that
can be drawn: its packet has 4112 bytes. -/
theorem queryResponse_subnet :
    ∃ packet, subnetNode.queryResponse subnetText 7 subnetAddresses lanName = .ok [packet] ∧
      recvBufferSize < packet.length := by
  obtain ⟨packets, hbuild, hlengths⟩ := queryResponse_lengths subnetText
    (fun _ => 0x1ecf6c638cd353feb6531c1b56b3275b) ⟨⟨360, 0, by decide⟩, some (utf8 "alpha")⟩
    subnetPeer subnetAddresses 7 lanName
  have hsizes : (responseBatches (sentTexts subnetText subnetPeer subnetAddresses)).map
      (responseSize 52 32) = [4112] := by decide +kernel
  have hpacket : packets.map List.length = [4112] := hlengths.trans hsizes
  obtain ⟨packet, rfl, hsize⟩ := List.map_eq_singleton_iff.mp hpacket
  refine ⟨packet, hbuild, ?_⟩
  rw [hsize]
  decide

end P2pClipboard
