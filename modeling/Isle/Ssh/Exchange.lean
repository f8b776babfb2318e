import Isle.Ssh.Kex

/-!
# One exchange of keys

`enterKeyExchange` of `pkg/crypto/ssh/handshake.go`, with what it calls at either end: `client`,
which checks the host key, and `server`, which finds one. What the two ends read of their
configuration is `TransportConfig`, and `TransportConfig.handshakeConfig` is what the loops of
`handshakeTransport` get of it.
-/

namespace Ssh

/-! ### Host keys -/

/-- The type of RSA keys, whose signatures are of SHA-1. -/
def keyAlgoRSA : Bytes := Text.ascii "ssh-rsa"

/-- Signatures of SHA-256 with an RSA key. -/
def sigAlgoRSASHA2256 : Bytes := Text.ascii "rsa-sha2-256"

/-- Signatures of SHA-512 with an RSA key. -/
def sigAlgoRSASHA2512 : Bytes := Text.ascii "rsa-sha2-512"

/-- The type of certificates for RSA keys. -/
def certAlgoRSAv01 : Bytes := Text.ascii "ssh-rsa-cert-v01@openssh.com"

/-- The same, for signatures of SHA-256. -/
def certSigAlgoRSASHA2256v01 : Bytes := Text.ascii "rsa-sha2-256-cert-v01@openssh.com"

/-- The same, for signatures of SHA-512. -/
def certSigAlgoRSASHA2512v01 : Bytes := Text.ascii "rsa-sha2-512-cert-v01@openssh.com"

/-- The algorithms of keys, and those of certificates for them. -/
def certAlgoNames : List (Bytes × Bytes) :=
  [(keyAlgoRSA, certAlgoRSAv01), (sigAlgoRSASHA2256, certSigAlgoRSASHA2256v01),
    (sigAlgoRSASHA2512, certSigAlgoRSASHA2512v01),
    (Text.ascii "ssh-dss", Text.ascii "ssh-dss-cert-v01@openssh.com"),
    (Text.ascii "ecdsa-sha2-nistp256", Text.ascii "ecdsa-sha2-nistp256-cert-v01@openssh.com"),
    (Text.ascii "ecdsa-sha2-nistp384", Text.ascii "ecdsa-sha2-nistp384-cert-v01@openssh.com"),
    (Text.ascii "ecdsa-sha2-nistp521", Text.ascii "ecdsa-sha2-nistp521-cert-v01@openssh.com"),
    (Text.ascii "sk-ecdsa-sha2-nistp256@openssh.com",
      Text.ascii "sk-ecdsa-sha2-nistp256-cert-v01@openssh.com"),
    (Text.ascii "ssh-ed25519", Text.ascii "ssh-ed25519-cert-v01@openssh.com"),
    (Text.ascii "sk-ssh-ed25519@openssh.com", Text.ascii "sk-ssh-ed25519-cert-v01@openssh.com")]

/-- The algorithm of the signatures that belongs to an algorithm of host keys: `certToPrivAlgo`
where it is one of certificates, and what `verifyHostKeySignature` expects. -/
def underlyingAlgo (algo : Bytes) : Bytes :=
  ((certAlgoNames.find? fun names ↦ names.2 == algo).map Prod.fst).getD algo

/-- A signer whose `Sign` uses an algorithm other than that of its key. -/
def rsaSigner (k : Signer) (sign : Bytes → Bytes → Except String Signature)
    (defaultAlgorithm : Bytes) : Signer :=
  { k with sign := fun data ↦ sign data defaultAlgorithm }

/-- The algorithms that `sendKexInit` offers for a host key. -/
def offered (k : Signer) : List Bytes :=
  if k.type = keyAlgoRSA then [sigAlgoRSASHA2512, sigAlgoRSASHA2256, keyAlgoRSA]
  else if k.type = certAlgoRSAv01 then
    [certSigAlgoRSASHA2512v01, certSigAlgoRSASHA2256v01, certAlgoRSAv01]
  else [k.type]

/-- What `server` makes of one host key. -/
def signerFor (algo : Bytes) (k : Signer) : Option Signer :=
  if k.type = algo then some k
  else
    match k.signWithAlgorithm with
    | none => none
    | some sign =>
      if k.type = keyAlgoRSA then
        if algo = sigAlgoRSASHA2256 ∨ algo = sigAlgoRSASHA2512 then some (rsaSigner k sign algo)
        else none
      else if k.type = certAlgoRSAv01 then
        if algo = certSigAlgoRSASHA2256v01 ∨ algo = certSigAlgoRSASHA2512v01 then
          some (rsaSigner k sign (underlyingAlgo algo))
        else none
      else none

/-- The loop of `server`: the last host key that is suitable. -/
def hostKeyFor (hostKeys : List Signer) (algo : Bytes) : Option Signer :=
  hostKeys.foldl (fun hostKey k ↦ (signerFor algo k).or hostKey) none

/-- What the client has of a host key: its type, and its check of signatures. -/
structure PublicKey where
  type : Bytes
  verify : (data : Bytes) → Signature → Except String Unit

/-- A signature and what is behind it, which the keys on hardware have in the signature. -/
def parseSignatureBody (buf : Bytes) : Option (Signature × Bytes) := do
  let (format, buf) ← Messages.parseString buf
  let (blob, buf) ← Messages.parseString buf
  if (["sk-ecdsa-sha2-nistp256@openssh.com", "sk-ecdsa-sha2-nistp256-cert-v01@openssh.com",
      "sk-ssh-ed25519@openssh.com", "sk-ssh-ed25519-cert-v01@openssh.com"].map
        Text.ascii).contains format then
    some (⟨format, blob, buf⟩, [])
  else some (⟨format, blob, []⟩, buf)

/-- What the exchange needs beside ciphers and hashes. -/
structure KeyLibrary where
  curves : Curves
  /-- `ParsePublicKey` -/
  parsePublicKey : Bytes → Except String PublicKey
  /-- A text under `%q`. -/
  quote : Bytes → String

variable (P : Primitives) (L : KeyLibrary)

/-- The signature is for the algorithm that was agreed on, and is one of the hash. -/
def verifyHostKeySignature (hostKey : PublicKey) (algo : Bytes) (result : KexResult) :
    Except String Unit :=
  match parseSignatureBody result.signature with
  | some (sig, []) =>
    if sig.format ≠ underlyingAlgo algo then
      .error ("ssh: invalid signature algorithm " ++ L.quote sig.format ++ ", expected " ++
        L.quote (underlyingAlgo algo))
    else hostKey.verify result.h sig
  | _ => .error "ssh: signature parse error"

/-! ### The exchange -/

/-- What an exchange reads of a `handshakeTransport`. -/
structure TransportConfig where
  clientVersion : Bytes
  serverVersion : Bytes
  keyExchanges : List Bytes
  ciphers : List Bytes
  macs : List Bytes
  /-- Of a server, and empty for a client. -/
  hostKeys : List Signer
  hostKeyAlgorithms : List Bytes
  /-- `hostKeyCallback`, for the address that was dialled. -/
  hostKeyCallback : PublicKey → Except String Unit
  /-- What is drawn for the `kexInit` of each exchange. -/
  cookie : ℕ → List.Vector UInt8 16
  ephemeral : ℕ → Ephemeral
  /-- What `resetWriteThresholds` allows. -/
  writeBytes : ℕ → ℤ
  readBytes : ℕ → ℤ

namespace TransportConfig

variable (cfg : TransportConfig)

/-- An end without host keys is a client. -/
def isClient : Bool := cfg.hostKeys.isEmpty

/-- The message of `sendKexInit`. -/
def kexInit (e : ℕ) : KexInit where
  cookie := cfg.cookie e
  kexAlgos := cfg.keyExchanges
  serverHostKeyAlgos :=
    if cfg.isClient then cfg.hostKeyAlgorithms else cfg.hostKeys.flatMap offered
  ciphersClientServer := cfg.ciphers
  ciphersServerClient := cfg.ciphers
  macsClientServer := cfg.macs
  macsServerClient := cfg.macs
  compressionClientServer := [Text.ascii "none"]
  compressionServerClient := [Text.ascii "none"]
  languagesClientServer := []
  languagesServerClient := []
  firstKexFollows := false
  reserved := 0

/-- The packet of `sendKexInit`. -/
def initPacket (e : ℕ) : Bytes := marshal kexInitMsg (cfg.kexInit e).toStruct

/-- The server's half of the exchange, with the host key that was agreed on. -/
def server (kex : KexAlgorithm) (algs : Algorithms) (magics : HandshakeMagics) (e : ℕ) :
    KexProcess :=
  kex.server (cfg.ephemeral e) magics (hostKeyFor cfg.hostKeys algs.hostKey)

/-- What `client` does with the result. -/
def checkHostKey (algs : Algorithms) (result : KexResult) : Except String KexResult := do
  let hostKey ← L.parsePublicKey result.hostKey
  verifyHostKeySignature L hostKey algs.hostKey result
  cfg.hostKeyCallback hostKey
  return result

/-- The client's half of the exchange, and its check of the host key. -/
def client (kex : KexAlgorithm) (algs : Algorithms) (magics : HandshakeMagics) (e : ℕ) :
    KexProcess :=
  (kex.client (cfg.ephemeral e) magics).bind fun r ↦ .ret do
    cfg.checkHostKey L algs (← r)

/-- `prepareKeyChange`: the ciphers to read and to write with. -/
def prepareKeyChange (algs : Algorithms) (result : KexResult) (sessionID : Bytes) :
    Except String NewKeys := do
  let reader ←
    newPacketCipher P (if cfg.isClient then serverKeys else clientKeys) algs.r result sessionID
  let writer ←
    newPacketCipher P (if cfg.isClient then clientKeys else serverKeys) algs.w result sessionID
  return ⟨result.h, reader, writer⟩

/-- What follows the exchange of secrets. -/
def changeKeys (algs : Algorithms) (sessionID : Option Bytes) :
    Except String KexResult → KeyExchange
  | .error e => .ret (.error e)
  | .ok result =>
    match cfg.prepareKeyChange P algs result (sessionID.getD result.h) with
    | .error e => .ret (.error e)
    | .ok keys =>
      .act keys <| .send [msgNewKeys] <| .recv fun packet ↦
        if IsNewKeys packet then .ret (.ok ())
        else .ret (.error (unexpectedMessageError msgNewKeys (packet.headD 0)))

/-- The exchange after the algorithms are agreed on. -/
def exchange (e : ℕ) (sessionID : Option Bytes) (algs : Algorithms)
    (magics : HandshakeMagics) : KeyExchange :=
  match kexAlgoMap P L.curves algs.kex with
  | none => .ret (.error ("ssh: unexpected key exchange algorithm " ++ textOf algs.kex))
  | some kex =>
    (if cfg.isClient then cfg.client L kex algs magics e else cfg.server kex algs magics e).bind
      (cfg.changeKeys P algs sessionID)

/-- What both ends put into the hash. The packets are ordered by who sent them. -/
def magics (sentInitPacket otherInitPacket : Bytes) : HandshakeMagics where
  clientVersion := cfg.clientVersion
  serverVersion := cfg.serverVersion
  clientKexInit := if cfg.isClient then sentInitPacket else otherInitPacket
  serverKexInit := if cfg.isClient then otherInitPacket else sentInitPacket

/-- `enterKeyExchange`: the algorithms are agreed on, and the exchange begins. -/
def enterKeyExchange (e : ℕ) (sessionID : Option Bytes)
    (sentInitPacket otherInitPacket : Bytes) : KeyExchange :=
  match unmarshal kexInitMsg otherInitPacket with
  | .error err => .ret (.error err)
  | .ok m =>
    let otherInit := KexInit.ofStruct m
    let clientInit := if cfg.isClient then cfg.kexInit e else otherInit
    let serverInit := if cfg.isClient then otherInit else cfg.kexInit e
    match findAgreedAlgorithms cfg.isClient clientInit serverInit with
    | .error err => .ret (.error err)
    | .ok algs =>
      let next := cfg.exchange P L e sessionID algs (cfg.magics sentInitPacket otherInitPacket)
      -- the other side sent a message for an exchange that is not the one agreed on
      if otherInit.firstKexFollows ∧
          (clientInit.kexAlgos.head? ≠ serverInit.kexAlgos.head? ∨
            clientInit.serverHostKeyAlgos.head? ≠ serverInit.serverHostKeyAlgos.head?) then
        .recv fun _ ↦ next
      else next

/-- The transport that runs these exchanges. -/
def handshakeConfig : HandshakeConfig where
  kexInit := cfg.initPacket
  enterKeyExchange := cfg.enterKeyExchange P L
  writeBytes := cfg.writeBytes
  readBytes := cfg.readBytes

end TransportConfig

end Ssh
