import P2pClipboard.Swarm
import P2pClipboard.Lib.Dns

/-!
# Multicast DNS discovery

The packets a node sends to be found on the local network and what it makes of
the packets of others: the hand-written encoder of `dns.rs`, the readers of
`query.rs` and the service name an `InterfaceState` derives from the optional
fingerprint.

Decoding a packet is left to `hickory_proto`, and writing and reading addresses
to the `multiaddr` and `bs58` crates; they are the parameters `Hickory` and
`MultiaddrText`.  The hash behind `Uuid::new_v5` is a parameter as well.  Random
choices (the id of a query, the name a response gives the peer) are arguments.

## Main definitions

* `appendQname`, `appendCharacterString`, `appendTxtRecord` — the encoder; an
  assertion that fails is a `BuilderPanic`.
* `buildQuery`, `buildQueryResponse` — the packets.
* `MdnsPacket.newFromBytes`, `MdnsResponse.new`, `MdnsPeer.new` — the readers.
* `serviceName`, `InterfaceState.new` — the service a node takes part in.
-/

namespace P2pClipboard

/-! ### The crates the code relies on -/

/-- How addresses and peer ids are written and read. -/
structure MultiaddrText where
  /-- `Display` of `Multiaddr`. -/
  display : Multiaddr → String
  /-- `FromStr` of `Multiaddr`. -/
  parse : String → Option Multiaddr
  /-- `PeerId::to_base58`. -/
  toBase58 : PeerId → String

/-- The part of `hickory_proto` the readers use. -/
structure Hickory (ProtoError : Type) where
  /-- `Message::from_vec`. -/
  fromVec : Bytes → Except ProtoError Dns.Message
  /-- `Name::to_utf8`. -/
  toUtf8 : Dns.Name → String
  /-- `Name::to_string`. -/
  toString : Dns.Name → String

/-! ### The encoder -/

/-- `DEFAULT_SERVICE_NAME`. -/
def defaultServiceName : String := "_p2pclipboard._udp.local"

/-- `META_QUERY_SERVICE_FQDN`. -/
def metaQueryServiceFqdn : String := "_services._dns-sd._udp.local."

/-- `MAX_TXT_VALUE_LENGTH`. -/
def maxTxtValueLength : ℕ := 255

/-- `MAX_TXT_RECORD_SIZE`. -/
def maxTxtRecordSize : ℕ := maxTxtValueLength + 45

/-- `MAX_PACKET_SIZE`. -/
def maxPacketSize : ℕ := 9000 - 68

/-- `MAX_RECORDS_PER_PACKET`. -/
def maxRecordsPerPacket : ℕ := (maxPacketSize - 100) / maxTxtRecordSize

/-- An assertion of the encoder that failed. -/
inductive BuilderPanic
  /-- `debug_assert!(name.is_ascii())`. -/
  | nonAsciiName
  /-- `assert!(element.len() < 64)`. -/
  | labelTooLong
  /-- `assert_ne!(element.len(), 0)`. -/
  | zeroLengthLabel
  /-- `debug_assert!(peer_name_bytes.len() <= 0xffff)`. -/
  | peerNameTooLong
  deriving DecidableEq, Repr

/-- Why an address is left out of a response. -/
inductive MdnsResponseError
  /-- "TXT record invalid because it is too long". -/
  | txtRecordTooLong
  /-- "A multiaddr contains non-ASCII characters when serialized". -/
  | nonAsciiMultiaddr
  deriving DecidableEq, Repr

/-- `is_ascii`. -/
def isAscii (bytes : Bytes) : Bool := bytes.all fun b => b < 0x80

/-- `append_u16`: big-endian. -/
def appendU16 (out : Bytes) (value : UInt16) : Bytes :=
  out ++ [((value >>> 8) &&& 0xff).toUInt8, (value &&& 0xff).toUInt8]

/-- `append_u32`: big-endian. -/
def appendU32 (out : Bytes) (value : UInt32) : Bytes :=
  out ++ [((value >>> 24) &&& 0xff).toUInt8, ((value >>> 16) &&& 0xff).toUInt8,
    ((value >>> 8) &&& 0xff).toUInt8, (value &&& 0xff).toUInt8]

/-- One round of the loop of `append_qname`. -/
def appendLabel (out element : Bytes) : Except BuilderPanic Bytes :=
  if 64 ≤ element.length then .error .labelTooLong
  else if element.length = 0 then .error .zeroLengthLabel
  else .ok (out ++ UInt8.ofNat element.length :: element)

/-- `append_qname`: the labels between the dots, and the root. -/
def appendQname (out name : Bytes) : Except BuilderPanic Bytes :=
  if isAscii name then
    ((name.splitOn 0x2e).foldlM appendLabel out).map fun out => out ++ [0]
  else
    .error .nonAsciiName

/-- A byte inside a quoted character string. -/
def escapeByte (chr : UInt8) : Bytes :=
  if chr = 0x5c then [0x5c, 0x5c]
  else if chr = 0x22 then [0x5c, 0x22]
  else [chr]

/-- `append_character_string`: quoted when there is a space in it. -/
def appendCharacterString (out : Bytes) (asciiStr : String) : Except MdnsResponseError Bytes :=
  if isAscii (utf8 asciiStr) then
    if (utf8 asciiStr).any fun c => c == 0x20 then
      .ok (out ++ [0x22] ++ (utf8 asciiStr).flatMap escapeByte ++ [0x22])
    else
      .ok (out ++ utf8 asciiStr)
  else
    .error .nonAsciiMultiaddr

/-- `append_txt_record`: a record with one text.  What an error leaves behind in
`out` is dropped by the caller. -/
def appendTxtRecord (out name : Bytes) (ttlSecs : UInt32) (value : String) :
    Except MdnsResponseError Bytes :=
  let out := out ++ name
  let out := out ++ [0x00, 0x10, 0x80, 0x01]
  let out := appendU32 out ttlSecs
  if maxTxtValueLength < value.utf8ByteSize then .error .txtRecordTooLong
  else
    (appendCharacterString [UInt8.ofNat value.utf8ByteSize] value).map fun buffer =>
      appendU16 out (UInt16.ofNat buffer.length) ++ buffer

/-! ### The packets -/

/-- A span of time. -/
structure Duration where
  /-- The whole seconds. -/
  secs : UInt64
  /-- The nanoseconds beyond them. -/
  subsecNanos : UInt32
  /-- They are less than a second. -/
  subsecNanos_lt : subsecNanos.toNat < 10 ^ 9

/-- `duration_to_secs`: rounded up, with saturation in both additions. -/
def durationToSecs (duration : Duration) : UInt32 :=
  let secs := min (duration.secs.toNat + (if 0 < duration.subsecNanos then 1 else 0)) (2 ^ 64 - 1)
  UInt32.ofNat (min secs (2 ^ 32 - 1))

/-- What `random_string` returns to `generate_peer_name`. -/
structure PeerName where
  /-- The text. -/
  text : String
  /-- `32 + thread_rng().gen_range(0..32)` characters... -/
  length_mem : 32 ≤ text.length ∧ text.length < 64
  /-- ... drawn from `Alphanumeric`. -/
  isAlphanum : ∀ c ∈ text.toList, c.isAlphanum

/-- `generate_peer_name`, for the random string it draws. -/
def generatePeerName (peerName : PeerName) : Except BuilderPanic Bytes :=
  appendQname [] (utf8 peerName.text)

/-- `build_query`, for the id it draws. -/
def buildQuery (id : UInt16) (serviceName : Bytes) : Except BuilderPanic Bytes :=
  let out := appendU16 [] id
  let out := appendU16 out 0x0
  let out := appendU16 out 0x1
  let out := appendU16 out 0x0
  let out := appendU16 out 0x0
  let out := appendU16 out 0x0
  (appendQname out serviceName).map fun out =>
    let out := appendU16 out 0x0c
    appendU16 out 0x01

/-- `query_response_packet`: the peer's name as the answer, the records behind it. -/
def queryResponsePacket (id : UInt16) (peerId : Bytes) (records : List Bytes) (ttl : UInt32)
    (serviceName : Bytes) : Except BuilderPanic Bytes :=
  let out := appendU16 [] id
  let out := appendU16 out 0x8400
  let out := appendU16 out 0x0
  let out := appendU16 out 0x1
  let out := appendU16 out 0x0
  let out := appendU16 out (UInt16.ofNat records.length)
  (appendQname out serviceName).map fun out =>
    let out := appendU16 out 0x000c
    let out := appendU16 out 0x0001
    let out := appendU32 out ttl
    let out := appendU16 out (UInt16.ofNat peerId.length)
    let out := out ++ peerId
    records.foldl (fun out record => out ++ record) out

section Response

variable (text : MultiaddrText)

/-- The text of an address in a response. -/
def txtToSend (peerId : PeerId) (addr : Multiaddr) : String :=
  "dnsaddr=" ++ text.display addr ++ "/p2p/" ++ text.toBase58 peerId

/-- One round of the loop of `build_query_response`: the packets so far and the
records of the next one. -/
def addAddress (id : UInt16) (peerId : PeerId) (ttl : UInt32) (peerNameBytes serviceName : Bytes)
    (acc : List Bytes × List Bytes) (addr : Multiaddr) :
    Except BuilderPanic (List Bytes × List Bytes) :=
  let records :=
    match appendTxtRecord [] peerNameBytes ttl (txtToSend text peerId addr) with
    | .ok txtRecord => acc.2 ++ [txtRecord]
    | .error _ => acc.2
  if records.length = maxRecordsPerPacket then
    (queryResponsePacket id peerNameBytes records ttl serviceName).map fun packet =>
      (acc.1 ++ [packet], [])
  else
    .ok (acc.1, records)

/-- `build_query_response`, for the name it draws. -/
def buildQueryResponse (id : UInt16) (peerId : PeerId) (addresses : List Multiaddr)
    (ttl : Duration) (peerName : PeerName) (serviceName : Bytes) :
    Except BuilderPanic (List Bytes) := do
  let ttl := durationToSecs ttl
  let addresses := addresses.take 65535
  let peerNameBytes ← generatePeerName peerName
  if 0xffff < peerNameBytes.length then .error .peerNameTooLong
  else
    let (packets, records) ←
      addresses.foldlM (addAddress text id peerId ttl peerNameBytes serviceName) ([], [])
    let packets ←
      if records.isEmpty then .ok packets
      else
        (queryResponsePacket id peerNameBytes records ttl serviceName).map fun packet =>
          packets ++ [packet]
    if packets.isEmpty then
      (queryResponsePacket id peerNameBytes [] ttl serviceName).map fun packet => [packet]
    else
      .ok packets

end Response

/-! ### The readers -/

/-- The other end of a datagram. -/
structure SocketAddr where
  /-- The octets of the IP address. -/
  ip : Bytes
  /-- The port. -/
  port : UInt16
  deriving DecidableEq, Repr

/-- A peer discovered by the service. -/
structure MdnsPeer where
  /-- The addresses it says it listens on. -/
  addrs : List Multiaddr
  /-- Its id. -/
  peerId : PeerId
  /-- The time to live of the record, in seconds. -/
  ttl : UInt32
  deriving DecidableEq, Repr

/-- A received response. -/
structure MdnsResponse where
  /-- The peers in it. -/
  peers : List MdnsPeer
  /-- Where it came from. -/
  source : SocketAddr
  deriving DecidableEq, Repr

/-- A received query. -/
structure MdnsQuery where
  /-- Where it came from. -/
  source : SocketAddr
  /-- Its id, which the response repeats. -/
  queryId : UInt16
  deriving DecidableEq, Repr

/-- A valid packet. -/
inductive MdnsPacket
  /-- A query made by a remote. -/
  | query (q : MdnsQuery)
  /-- A response sent by a remote. -/
  | response (r : MdnsResponse)
  /-- A request for service discovery. -/
  | serviceDiscovery (q : MdnsQuery)
  deriving DecidableEq, Repr

/-- `decode_character_string`: enclosing quotes are taken off; nothing is
unescaped. -/
def decodeCharacterString : Bytes → Option Bytes
  | [] => some []
  | b :: bytes =>
      if b = 0x22 then
        if bytes.getLast? = some 0x22 then some bytes.dropLast else none
      else
        some (b :: bytes)

section Read

variable {ProtoError : Type} (hickory : Hickory ProtoError) (text : MultiaddrText)

/-- The address of a text record, as far as it is one. -/
def readTxt (txt : Bytes) : Option Multiaddr :=
  (decodeCharacterString txt).bind fun addr =>
    if (utf8 "dnsaddr=").isPrefixOf addr then (fromUtf8 (addr.drop 8)).bind text.parse else none

/-- The closure of `MdnsPeer::new`, run over the texts: the peer id of the first
address is remembered, addresses of other peers and addresses of no peer are
dropped. -/
def collectAddrs : Option PeerId → List Bytes → Option PeerId × List Multiaddr
  | myPeerId, [] => (myPeerId, [])
  | myPeerId, txt :: txts =>
      match readTxt text txt with
      | none => collectAddrs myPeerId txts
      | some addr =>
          match addr.getLast?, myPeerId with
          | some (.p2p peerId), some pid =>
              if peerId = pid then
                let rest := collectAddrs (some pid) txts
                (rest.1, addr.dropLast :: rest.2)
              else collectAddrs (some pid) txts
          | some (.p2p peerId), none =>
              let rest := collectAddrs (some peerId) txts
              (rest.1, addr.dropLast :: rest.2)
          | _, _ => collectAddrs myPeerId txts

/-- The texts of an additional record about the given name. -/
def textsOf (recordValue : Dns.Name) (addRecord : Dns.Record) : List Bytes :=
  if addRecord.name.Same recordValue then
    match addRecord.data with
    | .txt strings => strings.map (·.bytes)
    | _ => []
  else []

/-- `MdnsPeer::new`. -/
def MdnsPeer.new (packet : Dns.Message) (recordValue : Dns.Name) (ttl : UInt32) :
    Option MdnsPeer :=
  let (myPeerId, addrs) := collectAddrs text none (packet.additionals.flatMap (textsOf recordValue))
  myPeerId.map fun peerId => ⟨addrs, peerId, ttl⟩

/-- The peer an answer stands for. -/
def peerOf (packet : Dns.Message) (serviceNameFqdn : String) (record : Dns.Record) :
    Option MdnsPeer :=
  if hickory.toString record.name = serviceNameFqdn then
    match record.data with
    | .ptr recordValue => MdnsPeer.new text packet recordValue record.ttl
    | _ => none
  else none

/-- `MdnsResponse::new`. -/
def MdnsResponse.new (packet : Dns.Message) (source : SocketAddr) (serviceNameFqdn : String) :
    MdnsResponse :=
  ⟨packet.answers.filterMap (peerOf hickory text packet serviceNameFqdn), source⟩

/-- `MdnsPacket::new_from_bytes`. -/
def MdnsPacket.newFromBytes (buf : Bytes) (source : SocketAddr) (serviceNameFqdn : String) :
    Except ProtoError (Option MdnsPacket) := do
  let packet ← hickory.fromVec buf
  if packet.queries = [] then
    return some (.response (MdnsResponse.new hickory text packet source serviceNameFqdn))
  else if packet.queries.any fun q => hickory.toUtf8 q.name = serviceNameFqdn then
    return some (.query ⟨source, packet.id⟩)
  else if packet.queries.any fun q => hickory.toUtf8 q.name = metaQueryServiceFqdn then
    return some (.serviceDiscovery ⟨source, packet.id⟩)
  else
    return none

end Read

/-! ### The service of an interface -/

/-- `Uuid::simple`: 32 hexadecimal digits, in lower case. -/
def uuidSimple (uuid : BitVec 128) : String :=
  String.ofList ((List.range 32).map fun i => Nat.digitChar (uuid.toNat / 16 ^ (31 - i) % 16))

/-- The service name: the fingerprint decides the UUID in it.  `newV5` is
`Uuid::new_v5` in the DNS namespace. -/
def serviceName (newV5 : Bytes → BitVec 128) : Option Bytes → String
  | some seed => "_p2pclip-" ++ uuidSimple (newV5 seed) ++ "._udp.local"
  | none => defaultServiceName

/-- The part of `Config` the packets depend on. -/
structure MdnsConfig where
  /-- For how long a record is valid. -/
  ttl : Duration
  /-- The fingerprint of the service. -/
  serviceFingerprint : Option Bytes

/-- The part of `InterfaceState` the packets depend on. -/
structure InterfaceState where
  /-- For how long a record is valid. -/
  ttl : Duration
  /-- The node itself. -/
  localPeerId : PeerId
  /-- The service. -/
  serviceName : Bytes
  /-- The service as a fully qualified name. -/
  serviceNameFqdn : String

/-- `InterfaceState::new`, as far as the packets depend on it. -/
def InterfaceState.new (newV5 : Bytes → BitVec 128) (config : MdnsConfig)
    (localPeerId : PeerId) : InterfaceState :=
  let name := P2pClipboard.serviceName newV5 config.serviceFingerprint
  ⟨config.ttl, localPeerId, utf8 name, name ++ "."⟩

end P2pClipboard
