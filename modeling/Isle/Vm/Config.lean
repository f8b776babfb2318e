import Isle.Go.Files
import Isle.Go.Net
import Isle.Go.Text
import Isle.Vm.Bytesize
import Mathlib.Data.Countable.Basic
import Mathlib.Logic.Encodable.Basic
import Mathlib.Logic.Equiv.List

/-!
# The configuration file

`CheckConfig` of `vm/config.go`, by which the command line makes, checks and completes the
configuration, and the two places that use it after that: `startVM` of `cmd/linux/main.go`, which
decodes the file again in another process, and `VM.Run` of `vm/vm.go`, which takes its sizes.

A call is a function of the file at the path, if there is one, and of what the call meets (`Call`):
which operations of the system fail, and the random bytes. `encoding/json` is a parameter, of which
`Json.Lawful` says that a configuration is read back from its encoding.

The file is opened for writing, and with that emptied, **before** what may fail: the random hardware
address where there is no file yet, and the encoding where fields are missing. `failureAtomic_iff`
has exactly these two. Where a call succeeds the file and the result agree (`checkConfig_agrees`).
-/

namespace Vm

open Bytesize Files

/-- What is in the file. -/
structure Config where
  cores : Int64
  memory : String
  swap : String
  dataSize : String
  userSize : String
  macAddress : String
  clusterId : String
  sshPort : Int64
  token : String
  deriving DecidableEq, Repr

/-- `encoding/json`, as far as it reads and writes configurations. -/
structure Json where
  /-- `Decode` of the first value of a file into an empty configuration. -/
  decode : Bytes → Except String Config
  /-- `Encode` -/
  encode : Config → Bytes
  /-- `Encode` after `SetIndent("", "  ")` -/
  encodeIndent : Config → Bytes

/-- A configuration is read back from its encoding. -/
structure Json.Lawful (J : Json) : Prop where
  decode_encode : ∀ c, J.decode (J.encode c) = .ok c
  decode_encodeIndent : ∀ c, J.decode (J.encodeIndent c) = .ok c

/-- What a call meets. -/
structure Call where
  /-- Whether a file that is there can be opened. -/
  opens : Bool
  /-- The error of `os.Create`. -/
  createError : Option String
  /-- `vz.NewRandomLocallyAdministeredMACAddress` -/
  mac : Except String String
  /-- The random bytes of `newUniqueId`. Where reading them fails the rest are zeros. -/
  idBytes : Vector UInt8 5
  /-- The random bytes of `newToken`. -/
  tokenBytes : Vector UInt8 16
  /-- Where and with which error a write to the file stops. -/
  writeError : Option (ℕ × String)

/-- Why there is no configuration. -/
inductive CheckError
  /-- "unable to create default config" -/
  | createDefault (e : String)
  | mac (e : String)
  /-- "error parsing config" -/
  | decode (e : String)
  /-- "invalid … setting (…)" -/
  | size (setting value : String) (e : ParseError)
  | create (e : String)
  | encode (e : String)
  deriving DecidableEq, Repr

/-- A new cluster id, from random bytes. -/
def newUniqueId (data : Vector UInt8 5) : String := String.ofList (hexEncode data.toList)

/-- A new token, from random bytes. -/
def newToken (data : Vector UInt8 16) : String := String.ofList (base32Encode data.toList)

/-- The configuration of a new file. -/
def defaultConfig (call : Call) (mac : String) : Config where
  cores := 0
  memory := ""
  swap := ""
  dataSize := "100G"
  userSize := "100G"
  macAddress := mac
  clusterId := newUniqueId call.idBytes
  sshPort := 4722
  token := newToken call.tokenBytes

/-- A size has to be one that can be parsed. -/
def checkSize (setting value : String) : Except CheckError Unit :=
  match parse value with
  | .error e => .error (.size setting value e)
  | .ok _ => .ok ()

/-- The checks of the sizes. The last two have the same text. -/
def checkSizes (cfg : Config) : Except CheckError Unit := do
  if cfg.memory ≠ "" then checkSize "memory" cfg.memory
  if cfg.swap ≠ "" then checkSize "swap" cfg.swap
  checkSize "data size" cfg.dataSize
  checkSize "data size" cfg.userSize

/-- `rewrite`: a field that has to be there is empty. -/
def Config.Incomplete (cfg : Config) : Prop := cfg.clusterId = "" ∨ cfg.token = ""

instance (cfg : Config) : Decidable cfg.Incomplete := inferInstanceAs (Decidable (_ ∨ _))

/-- The configuration with the empty fields filled. -/
def Config.fill (cfg : Config) (call : Call) : Config :=
  { cfg with
    clusterId := if cfg.clusterId = "" then newUniqueId call.idBytes else cfg.clusterId
    token := if cfg.token = "" then newToken call.tokenBytes else cfg.token }

/-- What gets into a file that was just created, of the bytes written to it. -/
def Call.written (call : Call) (bs : Bytes) : Bytes :=
  match call.writeError with
  | none => bs
  | some (n, _) => bs.take n

/-- What a call leaves and returns. -/
structure Outcome where
  /-- The file at the path. -/
  file : Option Bytes
  /-- Whether the file was created, or emptied, by the call. -/
  created : Bool
  result : Except CheckError Config

/-- The file that `os.Open` opens. -/
def Call.opened (call : Call) (file : Option Bytes) : Option Bytes :=
  if call.opens then file else none

/-- `CheckConfig` where the file cannot be opened. The error of `Encode` is not looked at. -/
def createConfig (J : Json) (call : Call) (file : Option Bytes) : Outcome :=
  match call.createError with
  | some e => ⟨file, false, .error (.createDefault e)⟩
  | none =>
    match call.mac with
    | .error e => ⟨some [], true, .error (.mac e)⟩
    | .ok mac =>
      let cfg := defaultConfig call mac
      ⟨some (call.written (J.encodeIndent cfg)), true, .ok cfg⟩

/-- `CheckConfig` behind the checks, where fields are missing. -/
def rewriteConfig (J : Json) (call : Call) (file : Option Bytes) (cfg : Config) : Outcome :=
  match call.createError with
  | some e => ⟨file, false, .error (.create e)⟩
  | none =>
    ⟨some (call.written (J.encode cfg)), true,
      match call.writeError with
      | some (_, e) => .error (.encode e)
      | none => .ok cfg⟩

/-- `CheckConfig` -/
def checkConfig (J : Json) (call : Call) (file : Option Bytes) : Outcome :=
  match call.opened file with
  | none => createConfig J call file
  | some content =>
    match J.decode content with
    | .error e => ⟨file, false, .error (.decode e)⟩
    | .ok cfg =>
      match checkSizes cfg with
      | .error e => ⟨file, false, .error e⟩
      | .ok () =>
        if cfg.Incomplete then rewriteConfig J call file (cfg.fill call)
        else ⟨file, false, .ok cfg⟩

/-- How `startVM` gets its configuration, or why it exits. -/
inductive StartError
  /-- "error opening config path" -/
  | opening
  /-- "error decoding config" -/
  | decoding (e : String)
  deriving DecidableEq, Repr

/-- What the machine reads when it starts. -/
def startVMConfig (J : Json) (file : Option Bytes) : Except StartError Config :=
  match file with
  | none => .error .opening
  | some content => (J.decode content).mapError .decoding

/-! ### Failed calls -/

section Failure

variable (J : Json) (call : Call) (file : Option Bytes)

/-- **A call that fails leaves the path as it was.** -/
def FailureAtomic : Prop :=
  ∀ e, (checkConfig J call file).result = .error e → (checkConfig J call file).file = file

/-- Nothing fails between the opening of the file for writing and the end of the writing: not the
hardware address of a new file, and not the writing of the completed configuration. Where it does,
the file had what is left in it already. -/
def Sheltered : Prop :=
  match call.opened file with
  | none => call.createError = none → ∀ e, call.mac = .error e → file = some []
  | some content =>
    ∀ cfg, J.decode content = .ok cfg → checkSizes cfg = .ok () → cfg.Incomplete →
      call.createError = none → ∀ n e, call.writeError = some (n, e) →
        (J.encode (cfg.fill call)).take n = content

variable {J call file}

theorem createConfig_atomic_iff :
    (∀ e, (createConfig J call file).result = .error e → (createConfig J call file).file = file) ↔
      (call.createError = none → ∀ e, call.mac = .error e → file = some []) := by
  rw [createConfig]
  cases call.createError with
  | some e => simp
  | none =>
    cases call.mac with
    | error e => simp [eq_comm]
    | ok mac => simp

theorem rewriteConfig_atomic_iff {content : Bytes} {cfg : Config} :
    (∀ e, (rewriteConfig J call (some content) cfg).result = .error e →
      (rewriteConfig J call (some content) cfg).file = some content) ↔
        (call.createError = none → ∀ n e, call.writeError = some (n, e) →
          (J.encode cfg).take n = content) := by
  rw [rewriteConfig]
  cases call.createError with
  | some e => simp
  | none =>
    cases hw : call.writeError with
    | none => simp
    | some w => simp [Call.written, hw, Prod.ext_iff]

/-- **When `CheckConfig` is failure atomic.** -/
theorem failureAtomic_iff : FailureAtomic J call file ↔ Sheltered J call file := by
  rw [FailureAtomic, Sheltered, checkConfig]
  cases hopened : call.opened file with
  | none => exact createConfig_atomic_iff
  | some content =>
    have hfile : file = some content := by
      rw [Call.opened] at hopened
      split_ifs at hopened
      exact hopened
    subst hfile
    cases hdec : J.decode content with
    | error e => simp [hdec]
    | ok cfg =>
      cases hsize : checkSizes cfg with
      | error e => simp [hdec, hsize]
      | ok _ =>
        by_cases hinc : cfg.Incomplete
        · simp only [hdec, Except.ok.injEq, forall_eq', hsize, forall_const, hinc]
          exact rewriteConfig_atomic_iff
        · simp [hdec, hsize, hinc]

end Failure

/-- A first call for which no hardware address can be made. -/
def noAddress : Call where
  opens := true
  createError := none
  mac := .error "no entropy"
  idBytes := Vector.replicate 5 0
  tokenBytes := Vector.replicate 16 0
  writeError := none

/-- The first call leaves an empty file where there was none, and since that does not decode no
later call succeeds as long as it can be opened. -/
theorem not_failureAtomic_noAddress :
    ∃ e, (∀ J, (checkConfig J noAddress none).result = .error e ∧
      (checkConfig J noAddress none).file = some [] ∧ ¬ FailureAtomic J noAddress none) ∧
      ∀ J call eof, J.decode [] = .error eof → call.opens = true →
        (checkConfig J call (some [])).result = .error (.decode eof) := by
  refine ⟨.mac "no entropy", fun J ↦ ⟨rfl, rfl, fun h ↦ ?_⟩, fun J call eof heof hopens ↦ ?_⟩
  · exact absurd (h _ rfl) (by simp [checkConfig, createConfig, noAddress, Call.opened])
  · simp [checkConfig, Call.opened, hopens, heof]

/-! ### Calls that succeed -/

/-- Every field that is not empty is kept, and the two that have to be there are filled. -/
structure Completes (cfg cfg' : Config) : Prop where
  kept : { cfg' with clusterId := cfg.clusterId, token := cfg.token } = cfg
  clusterId_kept : cfg.clusterId ≠ "" → cfg'.clusterId = cfg.clusterId
  clusterId_filled : cfg'.clusterId ≠ ""
  token_kept : cfg.token ≠ "" → cfg'.token = cfg.token
  token_filled : cfg'.token ≠ ""

theorem newUniqueId_ne_empty (data : Vector UInt8 5) : newUniqueId data ≠ "" := by
  have hne : data.toList ≠ [] := List.ne_nil_of_length_pos (by simp)
  obtain ⟨b, bs, hbs⟩ := List.exists_cons_of_ne_nil hne
  simp [newUniqueId, hexEncode, hbs, ← String.toList_inj]

theorem newToken_ne_empty (data : Vector UInt8 16) : newToken data ≠ "" := by
  have hne : data.toList ≠ [] := List.ne_nil_of_length_pos (by simp)
  simpa [newToken, ← String.toList_inj] using base32Encode_ne_nil hne

section Success

variable {J : Json} {call : Call} {content : Bytes} {cfg : Config}

theorem completes_fill (cfg : Config) (call : Call) : Completes cfg (cfg.fill call) where
  kept := rfl
  clusterId_kept h := if_neg h
  clusterId_filled := by
    simp only [Config.fill]
    split_ifs with h
    · exact newUniqueId_ne_empty _
    · exact h
  token_kept h := if_neg h
  token_filled := by
    simp only [Config.fill]
    split_ifs with h
    · exact newToken_ne_empty _
    · exact h

theorem Completes.not_incomplete {cfg' : Config} (h : Completes cfg cfg') : ¬ cfg'.Incomplete := by
  rintro (hid | htoken)
  · exact h.clusterId_filled hid
  · exact h.token_filled htoken

theorem checkConfig_of_decodes (hopens : call.opens = true) (hdec : J.decode content = .ok cfg)
    (hsize : checkSizes cfg = .ok ()) :
    checkConfig J call (some content) =
      if cfg.Incomplete then rewriteConfig J call (some content) (cfg.fill call)
      else ⟨some content, false, .ok cfg⟩ := by
  simp only [checkConfig, Call.opened, hopens, if_true, hdec, hsize]

/-- A complete configuration that decodes is returned as it is. -/
theorem checkConfig_of_complete (hopens : call.opens = true) (hdec : J.decode content = .ok cfg)
    (hsize : checkSizes cfg = .ok ()) (hinc : ¬ cfg.Incomplete) :
    checkConfig J call (some content) = ⟨some content, false, .ok cfg⟩ := by
  rw [checkConfig_of_decodes hopens hdec hsize, if_neg hinc]

/-- What a successful call leaves is a file that decodes to what it returns, which passes the checks
and has no field missing. -/
theorem checkConfig_eq_ok (hJ : J.Lawful) (hopens : call.opens = true)
    (hdec : J.decode content = .ok cfg) (hsize : checkSizes cfg = .ok ()) {cfg' : Config}
    (hok : (checkConfig J call (some content)).result = .ok cfg') :
    Completes cfg cfg' ∧ checkSizes cfg' = .ok () ∧
      ∃ content', (checkConfig J call (some content)).file = some content' ∧
        J.decode content' = .ok cfg' := by
  rw [checkConfig_of_decodes hopens hdec hsize] at hok ⊢
  by_cases hinc : cfg.Incomplete
  · simp only [if_pos hinc, rewriteConfig] at hok ⊢
    cases hcreate : call.createError with
    | some e => simp [hcreate] at hok
    | none =>
      simp only [hcreate] at hok ⊢
      cases hwrite : call.writeError with
      | some w => simp [hwrite] at hok
      | none =>
        simp only [hwrite, Except.ok.injEq] at hok
        subst hok
        refine ⟨completes_fill cfg call, hsize, J.encode (cfg.fill call), ?_, hJ.decode_encode _⟩
        simp [Call.written, hwrite]
  · simp only [if_neg hinc, Except.ok.injEq] at hok ⊢
    subst hok
    rw [Config.Incomplete, not_or] at hinc
    exact ⟨⟨rfl, fun _ ↦ rfl, hinc.1, fun _ ↦ rfl, hinc.2⟩, hsize, content, rfl, hdec⟩

/-- **The command line and the machine have one configuration.** For a file that decodes and passes
the checks a call succeeds unless the file cannot be written. What it returns completes what was in
the file, it is what `startVM` decodes afterwards, and it is what any further call returns, which
leaves the file alone. -/
theorem checkConfig_agrees (J : Json) (hJ : J.Lawful) (call : Call) (content : Bytes) (cfg : Config)
    (hopens : call.opens = true) (hdec : J.decode content = .ok cfg)
    (hsize : checkSizes cfg = .ok ()) :
    (call.createError = none → call.writeError = none →
      ∃ cfg', (checkConfig J call (some content)).result = .ok cfg') ∧
      ∀ cfg', (checkConfig J call (some content)).result = .ok cfg' →
        Completes cfg cfg' ∧
          startVMConfig J (checkConfig J call (some content)).file = .ok cfg' ∧
          ∀ call' : Call, call'.opens = true →
            checkConfig J call' (checkConfig J call (some content)).file =
              ⟨(checkConfig J call (some content)).file, false, .ok cfg'⟩ := by
  constructor
  · intro hcreate hwrite
    rw [checkConfig_of_decodes hopens hdec hsize]
    split_ifs
    · exact ⟨cfg.fill call, by simp [rewriteConfig, hcreate, hwrite]⟩
    · exact ⟨cfg, rfl⟩
  · intro cfg' hok
    obtain ⟨hcomp, hsize', content', hfile, hdec'⟩ := checkConfig_eq_ok hJ hopens hdec hsize hok
    rw [hfile]
    refine ⟨hcomp, ?_, fun call' hopens' ↦ ?_⟩
    · simp [startVMConfig, hdec', Except.mapError]
    · exact checkConfig_of_complete hopens' hdec' hsize' hcomp.not_incomplete

end Success

/-- What `Encode` writes of a configuration whose texts need no escape. -/
def encodeText (c : Config) : Bytes :=
  123 :: (Text.ascii "\"cores\":" ++ Text.ascii (toString c.cores.toInt) ++
    Text.ascii ",\"ram\":\"" ++ Text.ascii c.memory ++ Text.ascii "\",\"swap\":\"" ++
    Text.ascii c.swap ++ Text.ascii "\",\"system_disk\":\"" ++ Text.ascii c.dataSize ++
    Text.ascii "\",\"user_disk\":\"" ++ Text.ascii c.userSize ++
    Text.ascii "\",\"mac_address\":\"" ++ Text.ascii c.macAddress ++
    Text.ascii "\",\"unique_id\":\"" ++ Text.ascii c.clusterId ++
    Text.ascii "\",\"ssh_port\":" ++ Text.ascii (toString c.sshPort.toInt) ++
    Text.ascii ",\"token\":\"" ++ Text.ascii c.token ++ Text.ascii "\"\x7d\n")

/-- A lawful encoding that is the real one on two configurations. There are as many byte strings as
are needed to tell the others apart. -/
theorem exists_lawful {c₁ c₂ : Config} (hne : encodeText c₁ ≠ encodeText c₂) :
    ∃ J : Json, J.Lawful ∧ J.encode c₁ = encodeText c₁ ∧ J.encode c₂ = encodeText c₂ := by
  let text (s : String) : List ℕ := s.toList.map Char.toNat
  have htext : Function.Injective text := fun s t h ↦
    String.toList_inj.1 (List.map_injective_iff.2 (fun a b hab ↦ Char.toNat_inj.1 hab) h)
  let fields (c : Config) : (ℤ × ℤ) × List (List ℕ) :=
    ((c.cores.toInt, c.sshPort.toInt), [text c.memory, text c.swap, text c.dataSize,
      text c.userSize, text c.macAddress, text c.clusterId, text c.token])
  have hfields : Function.Injective fields := by
    rintro ⟨⟩ ⟨⟩ h
    simpa [fields, htext.eq_iff, Int64.toInt_inj, and_assoc, and_left_comm] using h
  obtain ⟨f, hf⟩ := exists_injective_nat ((ℤ × ℤ) × List (List ℕ))
  let encode (c : Config) : Bytes :=
    if c = c₁ ∨ c = c₂ then encodeText c else List.replicate (f (fields c)) 0
  -- the two texts begin with a brace, and the others have zeros only
  have hzeros (c : Config) (n : ℕ) : encodeText c ≠ List.replicate n 0 := fun h ↦ by
    rcases n with - | n
    · cases h
    · exact absurd (List.cons.inj h).1 (by decide)
  have hencode : Function.Injective encode := by
    intro c c' h
    simp only [encode] at h
    split_ifs at h with hc hc' hc'
    · rcases hc with rfl | rfl <;> rcases hc' with rfl | rfl
      · rfl
      · exact absurd h hne
      · exact absurd h hne.symm
      · rfl
    · exact absurd h (hzeros _ _)
    · exact absurd h.symm (hzeros _ _)
    · exact hfields (hf (by simpa using congrArg List.length h))
  let decode (bs : Bytes) : Except String Config :=
    (Function.partialInv encode bs).elim (.error "EOF") .ok
  have hdecode (c : Config) : decode (encode c) = .ok c := by
    simp only [decode, Function.partialInv_left hencode]
    rfl
  exact ⟨⟨decode, encode, encode⟩, ⟨hdecode, hdecode⟩, if_pos (.inl rfl), if_pos (.inr rfl)⟩

/-- A configuration from before there were tokens. -/
def earlyConfig : Config := { defaultConfig noAddress "02:00:00:00:00:01" with token := "" }

theorem checkConfig_agrees_early :
    ∃ J : Json, J.Lawful ∧ J.decode (encodeText earlyConfig) = .ok earlyConfig ∧
      J.encode (earlyConfig.fill noAddress) = encodeText (earlyConfig.fill noAddress) ∧
      (earlyConfig.fill noAddress).clusterId = "0000000000" ∧
      (earlyConfig.fill noAddress).token ≠ "" ∧
      (checkConfig J noAddress (some (encodeText earlyConfig))).result =
        .ok (earlyConfig.fill noAddress) ∧
      startVMConfig J (checkConfig J noAddress (some (encodeText earlyConfig))).file =
        .ok (earlyConfig.fill noAddress) := by
  obtain ⟨J, hJ, hearly, hfill⟩ := exists_lawful
    (show encodeText earlyConfig ≠ encodeText (earlyConfig.fill noAddress) by decide +kernel)
  have hdec := hJ.decode_encode earlyConfig
  rw [hearly] at hdec
  have hresult : (checkConfig J noAddress (some (encodeText earlyConfig))).result =
      .ok (earlyConfig.fill noAddress) := by
    rw [checkConfig_of_decodes rfl hdec (by decide)]
    rfl
  obtain ⟨hcomp, hstart, -⟩ := (checkConfig_agrees J hJ noAddress (encodeText earlyConfig)
    earlyConfig rfl hdec (by decide)).2 _ hresult
  exact ⟨J, hJ, hdec, hfill, hcomp.clusterId_kept (by decide), hcomp.token_filled, hresult, hstart⟩

/-! ### Sizes -/

/-- How much memory `VM.Run` gives the machine: half of the host's, or one gigabyte, if none is
configured. -/
def memInBytes (systemMemory : Option UInt64) (memory : String) : Except ParseError Int64 :=
  if memory ≠ "" then (parse memory).map ByteSize.bytes
  else
    match systemMemory with
    | some sysmem => .ok (sysmem / 2).toInt64
    | none => .ok 1073741824

/-- The configured sizes of memory and disks, each with what `VM.Run` takes it for. -/
def seenSizes (systemMemory : Option UInt64) (cfg : Config) :
    List (String × Except ParseError Int64) :=
  (if cfg.memory = "" then [] else [(cfg.memory, memInBytes systemMemory cfg.memory)]) ++
    [cfg.dataSize, cfg.userSize].map fun size ↦ (size, (parse size).map ByteSize.bytes)

/-- A size is taken for the product of its number and its unit, which is not negative. -/
def SeenAsWritten (size : String) (seen : Except ParseError Int64) : Prop :=
  ∃ v n u, seen = .ok v ∧ Reads size n u ∧ v.toInt = n * unit u ∧ 0 ≤ v.toInt

theorem checkSize_eq_ok {setting value : String} :
    checkSize setting value = .ok () ↔ ∃ b, parse value = .ok b := by
  rw [checkSize]
  cases parse value <;> simp

theorem checkSize_bind_eq_ok {setting value : String} {f : Unit → Except CheckError Unit} :
    (checkSize setting value >>= f) = .ok () ↔ (∃ b, parse value = .ok b) ∧ f () = .ok () := by
  rw [checkSize]
  cases parse value <;> simp [bind, Except.bind]

theorem checkSizes_eq_ok_iff {cfg : Config} :
    checkSizes cfg = .ok () ↔ (cfg.memory ≠ "" → ∃ b, parse cfg.memory = .ok b) ∧
      (cfg.swap ≠ "" → ∃ b, parse cfg.swap = .ok b) ∧ (∃ b, parse cfg.dataSize = .ok b) ∧
        ∃ b, parse cfg.userSize = .ok b := by
  rw [checkSizes]
  by_cases hmemory : cfg.memory = "" <;> by_cases hswap : cfg.swap = "" <;>
    simp [hmemory, hswap, checkSize_bind_eq_ok, checkSize_eq_ok]

/-- A configuration that passes the checks has sizes that are accepted, and `VM.Run` takes them for
what they are read as. -/
theorem exists_parse_of_mem_seenSizes {cfg : Config} (h : checkSizes cfg = .ok ())
    {systemMemory : Option UInt64} {size : String} {seen : Except ParseError Int64}
    (hp : (size, seen) ∈ seenSizes systemMemory cfg) :
    ∃ b, parse size = .ok b ∧ seen = .ok b.bytes := by
  obtain ⟨hmemory, -, ⟨d, hd⟩, ⟨u, hu⟩⟩ := checkSizes_eq_ok_iff.1 h
  rcases List.mem_append.1 hp with hin | hin
  · split_ifs at hin with hempty
    · cases hin
    obtain ⟨rfl, rfl⟩ := Prod.ext_iff.1 (List.mem_singleton.1 hin)
    obtain ⟨b, hb⟩ := hmemory hempty
    exact ⟨b, hb, by simp [memInBytes, hempty, hb, Except.map]⟩
  · simp only [List.map_cons, List.map_nil, List.mem_cons, List.not_mem_nil, or_false,
      Prod.mk.injEq] at hin
    rcases hin with ⟨rfl, rfl⟩ | ⟨rfl, rfl⟩
    · exact ⟨d, hd, by simp [hd, Except.map]⟩
    · exact ⟨u, hu, by simp [hu, Except.map]⟩

/-- A size that is accepted is seen as it is written exactly if it fits. -/
theorem seenAsWritten_iff_fits {size : String} {b : ByteSize} (h : parse size = .ok b) :
    SeenAsWritten size (.ok b.bytes) ↔ Fits size := by
  rw [← faithful_iff]
  constructor
  · rintro ⟨v, n, u, hv, hreads, hbytes, hpos⟩
    cases hv
    refine ⟨fun b' hb' ↦ ?_, fun n' u' hreads' hout ↦ ?_⟩
    · rw [h] at hb'
      cases hb'
      exact ⟨n, u, hreads, hbytes, hpos⟩
    · obtain ⟨rfl, rfl⟩ := hreads.unique hreads'
      obtain ⟨suf, hsuf, rfl⟩ := List.mem_map.1 hreads.1
      have hlt : b.bytes.toInt < 2 ^ 63 := b.bytes.toInt_lt
      rcases hout with hneg | hbig
      · have hone : (0 : ℤ) < unit suf.str := by exact_mod_cast one_le_unit suf hsuf
        have hprod := mul_neg_of_neg_of_pos hneg hone
        omega
      · omega
  · intro hfaithful
    obtain ⟨n, u, hreads, hbytes, hpos⟩ := hfaithful.1 b h
    exact ⟨b.bytes, n, u, rfl, hreads, hbytes, hpos⟩

/-- **When sizes do not wrap.** A text is taken for what it says exactly if it fits, and the sizes
of a configuration that passes the checks are what `VM.Run` sees exactly if all of them fit. -/
theorem sizes_as_written_iff (str : String) (systemMemory : Option UInt64) (cfg : Config) :
    (Faithful str ↔ Fits str) ∧
      (checkSizes cfg = .ok () →
        ((∀ p ∈ seenSizes systemMemory cfg, SeenAsWritten p.1 p.2) ↔
          ∀ p ∈ seenSizes systemMemory cfg, Fits p.1)) := by
  refine ⟨faithful_iff, fun h ↦ ?_⟩
  refine forall₂_congr fun p hp ↦ ?_
  obtain ⟨b, hb, hseen⟩ := exists_parse_of_mem_seenSizes h hp
  rw [hseen]
  exact seenAsWritten_iff_fits hb

theorem sizes_as_written_early :
    checkSizes earlyConfig = .ok () ∧
      ∀ p ∈ seenSizes none earlyConfig, SeenAsWritten p.1 p.2 := by
  have hcheck : checkSizes earlyConfig = .ok () := by decide
  have hfits : Fits "100G" := by
    intro n u hreads _ _
    have hreads' : Reads "100G" 100 "G" :=
      reads_digits (d := "100") (by decide) (by decide)
    obtain ⟨rfl, rfl⟩ := hreads.unique hreads'
    decide
  refine ⟨hcheck, ((sizes_as_written_iff "100G" none earlyConfig).2 hcheck).2 fun p hp ↦ ?_⟩
  have hp' : p.1 = "100G" := by
    simp only [seenSizes, List.mem_append, List.mem_map] at hp
    rcases hp with hp | ⟨size, hsize, rfl⟩
    · simp [earlyConfig, defaultConfig] at hp
    · simpa [earlyConfig, defaultConfig] using hsize
  rw [hp']
  exact hfits

/-- Sixteen exabytes and a gigabyte of memory pass the checks and are seen as a gigabyte, and a
negative size passes them as it is. -/
theorem not_faithful_wrapped :
    parse "17179869185G" = .ok ⟨1073741824⟩ ∧ ¬ Faithful "17179869185G" ∧
      checkSizes { earlyConfig with memory := "17179869185G" } = .ok () ∧
      memInBytes none "17179869185G" = .ok 1073741824 ∧
      (¬ ∀ p ∈ seenSizes none { earlyConfig with memory := "17179869185G" },
        SeenAsWritten p.1 p.2) ∧
      parse "-1G" = .ok ⟨-1073741824⟩ := by
  have hnot : ¬ Fits "17179869185G" := fun h ↦ by
    have hreads : Reads "17179869185G" 17179869185 "G" :=
      reads_digits (d := "17179869185") (by decide) (by decide)
    exact absurd (h _ _ hreads (by decide) (by decide)).2.1 (by decide)
  refine ⟨rfl, fun h ↦ hnot h.fits, by decide, rfl, fun h ↦ hnot ?_, rfl⟩
  exact (seenAsWritten_iff_fits (b := ⟨1073741824⟩) rfl).1
    (h ("17179869185G", .ok 1073741824) (List.mem_cons_self ..))

end Vm
