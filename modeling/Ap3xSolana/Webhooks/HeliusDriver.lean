import Mathlib.Data.List.Infix
import Ap3xSolana.Lib.Json
import Ap3xSolana.Lib.Throwing
import Ap3xSolana.Lib.Utf8
import Ap3xSolana.Webhooks.Provenance

/-!
# The Helius driver

`verifyAuthHeader` compares the header with the secret, `parseRawPayload` takes a body apart
into one event for each transaction with a signature, and `normalizeHeliusTx` makes one event of
a transaction.  Behind the receiver, the outbox and the drainer, whatever crashes: what reaches
the consumer is a transaction of a body that came with the secret (`seen_authentic`).
-/

namespace Ap3xSolana.Webhooks.HeliusDriver

open Ap3xSolana.Lib
open Ap3xSolana.Lib.Run
open Ap3xSolana.Lib.Utf8

/-! ## Authentication -/

/-- `req.headers['authorization'] ?? req.headers['Authorization']`, of several the first. -/
def headerValue (req : IncomingRequest) : Option String :=
  ((req.headers.lookup "authorization").or (req.headers.lookup "Authorization")).bind
    List.head?

def pad (bytes : List UInt8) (length : Nat) : List UInt8 :=
  bytes ++ List.replicate (length - bytes.length) 0

def constantTimeEquals (a b : String) : Bool :=
  let aBuf := utf8 a
  let bBuf := utf8 b
  let len := max aBuf.length bBuf.length
  pad aBuf len == pad bBuf len && aBuf.length == bBuf.length

/-- Why the request is refused. -/
def verifyAuthHeader (req : IncomingRequest) (secret : String) : Option String :=
  match headerValue req with
  | none => some "missing-auth"
  | some value =>
      if value = "" then some "missing-auth"
      else if ¬ constantTimeEquals value secret then some "invalid-auth"
      else none

/-- Zero padding does not confuse texts, as the lengths are compared as well. -/
theorem constantTimeEquals_iff (a b : String) : constantTimeEquals a b = true ↔ a = b := by
  unfold constantTimeEquals
  simp only [Bool.and_eq_true, beq_iff_eq]
  constructor
  · rintro ⟨hpadded, hlength⟩
    rw [hlength, Nat.max_self, pad, pad, hlength, Nat.sub_self, List.replicate_zero,
      List.append_nil, List.append_nil] at hpadded
    exact utf8_inj hpadded
  · rintro rfl
    exact ⟨rfl, rfl⟩

theorem verifyAuthHeader_eq_none (req : IncomingRequest) (secret : String) :
    verifyAuthHeader req secret = none ↔ headerValue req = some secret ∧ secret ≠ "" := by
  unfold verifyAuthHeader
  cases headerValue req with
  | none => simp
  | some value =>
      dsimp only
      split
      · next hempty => simp [hempty, eq_comm]
      · next hvalue =>
          simp only [constantTimeEquals_iff]
          by_cases heq : value = secret
          · subst heq
            simp [hvalue]
          · simp [heq]

/-! ## The payload -/

/-- What the driver takes from the runtime. -/
structure Runtime where
  parseJson : String → Except String Json
  stringify : Json → String
  toUpperCase : String → String
  /-- `Number(text)`, where that is finite. -/
  number : String → Option Rat
  /-- What a `TypeError` says; no code looks at it. -/
  typeError : String

/-- An array, or the one thing that is no array. -/
def items : Json → List Json
  | .array entries => entries
  | value => [value]

/-- The signature of a transaction that is an object and has one. -/
def signatureOf (tx : Json) : Option String :=
  match tx.field "signature" with
  | some (.string sig) => if sig = "" then none else some sig
  | _ => none

def parseRawPayload (rt : Runtime) (body : List UInt8) : Except String (List ParsedEvent) :=
  match rt.parseJson (decode body) with
  | .error _ => .error "helius: payload is not valid JSON"
  | .ok parsed =>
      .ok ((items parsed).filterMap fun tx =>
        (signatureOf tx).map fun sig =>
          { id := "helius:" ++ sig, json := .ok (rt.stringify tx) })

def createHeliusDriver (rt : Runtime) (secret : String) : ReceiverDriver where
  source := "helius"
  verifyRequest req := verifyAuthHeader req secret
  parseRawPayload := parseRawPayload rt

/-! ## Normalising a transaction -/

inductive Variant where
  | swap
  | tokenMint
  | transfer
  deriving DecidableEq, Repr

structure TokenTransfer where
  fromUserAccount : Json
  toUserAccount : Json
  mint : Json
  tokenAmount : Rat
  tokenStandard : Option Json

structure NativeTransfer where
  fromUserAccount : Json
  toUserAccount : Json
  amount : Rat

structure HeliusDecodedData where
  variant : Variant
  source : Json
  feePayer : Json
  timestamp : Json
  tokenTransfers : List TokenTransfer
  nativeTransfers : List NativeTransfer

structure TypedSolanaEvent where
  slot : Rat
  signature : Option Json
  programId : String
  /-- The reason, for an `unknown` event. -/
  data : Except String HeliusDecodedData

def PUMPFUN_PROGRAM : String := "6EF8rrecthR5Dkzon8Nwu78hRvfCKubJ14M5uBEwF6P"

def JUPITER_V6_PROGRAM : String := "JUP6LkbZbjS1jKKwapdHNy74zcZ3tLUZoi5QNyVTaV4"

def RAYDIUM_AMM_V4_PROGRAM : String := "675kPX9MHTjS2zt1qfr1NYHuzeLXfQM9H24wFSUt1Mp8"

def UNKNOWN_PROGRAM : String := "11111111111111111111111111111111"

/-- `x ?? null`. -/
def orNull (x : Option Json) : Json := x.getD .null

/-- `(x ?? '').toUpperCase()`. -/
def upper (rt : Runtime) (x : Option Json) : Except String String :=
  match orNull x with
  | .null => .ok (rt.toUpperCase "")
  | .string s => .ok (rt.toUpperCase s)
  | _ => .error rt.typeError

def includes (s part : String) : Bool := decide (part.toList <:+: s.toList)

def venueProgramId (rt : Runtime) (tx : Json) : Except String String := do
  let s ← upper rt (tx.field "source")
  if includes s "PUMP" then return PUMPFUN_PROGRAM
  if includes s "JUPITER" then return JUPITER_V6_PROGRAM
  if includes s "RAYDIUM" then return RAYDIUM_AMM_V4_PROGRAM
  return UNKNOWN_PROGRAM

def numericOrZero (rt : Runtime) : Option Json → Rat
  | some (.number n) => n
  | some (.string s) => (rt.number s).getD 0
  | _ => 0

def truthy : Json → Bool
  | .null => false
  | .boolean b => b
  | .number n => n ≠ 0
  | .string s => s ≠ ""
  | .array _ => true
  | .object _ => true

def tokenTransfer (rt : Runtime) : Json → Except String TokenTransfer
  | .null => .error rt.typeError
  | t => .ok
      { fromUserAccount := orNull (t.field "fromUserAccount")
        toUserAccount := orNull (t.field "toUserAccount")
        mint := match orNull (t.field "mint") with
          | .null => .string ""
          | mint => mint
        tokenAmount := numericOrZero rt (t.field "tokenAmount")
        tokenStandard := (t.field "tokenStandard").filter truthy }

def nativeTransfer (rt : Runtime) : Json → Except String NativeTransfer
  | .null => .error rt.typeError
  | t => .ok
      { fromUserAccount := orNull (t.field "fromUserAccount")
        toUserAccount := orNull (t.field "toUserAccount")
        amount := numericOrZero rt (t.field "amount") }

/-- `[]` where there is no array. -/
def transfers {α : Type} (normalise : Json → Except String α) : Option Json →
    Except String (List α)
  | some (.array raw) => raw.mapM normalise
  | _ => .ok []

def variantOf (type : String) : Option Variant :=
  if type = "SWAP" then some .swap
  else if type = "TOKEN_MINT" then some .tokenMint
  else if type = "TRANSFER" then some .transfer
  else none

/-- `tx.type ?? 'missing'`, for a type that is a text or not there. -/
def typeText (tx : Json) : String :=
  match tx.field "type" with
  | some (.string s) => s
  | _ => "missing"

def slotOf (tx : Json) : Rat :=
  match tx.field "slot" with
  | some (.number n) => n
  | _ => 0

def timestampOf (tx : Json) : Json :=
  match tx.field "timestamp" with
  | some (.number n) => .number n
  | _ => .null

def failed (tx : Json) : Bool :=
  match orNull (tx.field "transactionError") with
  | .null => false
  | _ => true

def dataOf (rt : Runtime) (tx : Json) (variant : Variant) : Except String HeliusDecodedData := do
  let tokenTransfers ← transfers (tokenTransfer rt) (tx.field "tokenTransfers")
  let nativeTransfers ← transfers (nativeTransfer rt) (tx.field "nativeTransfers")
  return { variant := variant
           source := orNull (tx.field "source")
           feePayer := orNull (tx.field "feePayer")
           timestamp := timestampOf tx
           tokenTransfers := tokenTransfers
           nativeTransfers := nativeTransfers }

def unknown (tx : Json) (reason : String) : TypedSolanaEvent :=
  { slot := slotOf tx, signature := tx.field "signature", programId := UNKNOWN_PROGRAM,
    data := .error reason }

/-- Transfers have no venue. -/
def programIdOf (rt : Runtime) (tx : Json) (variant : Variant) : Except String String :=
  if variant = .transfer then .ok UNKNOWN_PROGRAM else venueProgramId rt tx

/-- The event of a transaction that is no `null`. -/
def eventOf (rt : Runtime) (tx : Json) : Except String TypedSolanaEvent :=
  if failed tx then return unknown tx "transaction failed"
  else do
    let type ← upper rt (tx.field "type")
    match variantOf type with
    | none => return unknown tx s!"helius type={typeText tx} not classifiable"
    | some variant =>
        let programId ← programIdOf rt tx variant
        let data ← dataOf rt tx variant
        return { slot := slotOf tx, signature := tx.field "signature", programId := programId,
                 data := .ok data }

def normalizeHeliusTx (rt : Runtime) (tx : Json) : Except String (List TypedSolanaEvent) :=
  match tx with
  | .null => .error rt.typeError
  | tx => (eventOf rt tx).map fun event => [event]

/-- What the drainer hands to `normalizeEvent` is the payload of the row. -/
def normalizeEvent (rt : Runtime) : CrashRecovery.Normalize TypedSolanaEvent := fun row =>
  match rt.parseJson row.rawPayload with
  | .error message => .error message
  | .ok tx => normalizeHeliusTx rt tx

/-- There is exactly one event, under the signature of the transaction. -/
theorem normalizeHeliusTx_ok {rt : Runtime} {tx : Json} {events : List TypedSolanaEvent}
    (h : normalizeHeliusTx rt tx = .ok events) :
    ∃ event, events = [event] ∧ event.signature = tx.field "signature" := by
  have hone : ∀ {event : TypedSolanaEvent}, eventOf rt tx = .ok event →
      event.signature = tx.field "signature" := by
    intro event hevent
    unfold eventOf at hevent
    split at hevent
    · cases hevent
      rfl
    obtain ⟨type, -, hevent⟩ := Throwing.bind_eq_ok.1 hevent
    split at hevent
    · cases hevent
      rfl
    · obtain ⟨programId, -, hevent⟩ := Throwing.bind_eq_ok.1 hevent
      obtain ⟨data, -, hevent⟩ := Throwing.bind_eq_ok.1 hevent
      cases hevent
      rfl
  unfold normalizeHeliusTx at h
  split at h
  · cases h
  · cases hevent : eventOf rt tx with
    | error message =>
        rw [hevent] at h
        cases h
    | ok event =>
        rw [hevent] at h
        cases h
        exact ⟨event, rfl, hone hevent⟩

/-! ## From the request to the consumer -/

theorem signatureOf_eq_some {tx : Json} {sig : String} (h : signatureOf tx = some sig) :
    tx.field "signature" = some (.string sig) ∧ sig ≠ "" := by
  unfold signatureOf at h
  split at h
  · next hfield =>
      split at h
      · cases h
      · next hne =>
          cases h
          exact ⟨hfield, hne⟩
  · cases h

/-- The request carries the secret and, among its transactions, this one. -/
structure Carries (rt : Runtime) (secret : String) (maxBytes : Nat) (req : IncomingRequest)
    (tx : Json) (sig : String) : Prop where
  authentic : headerValue req = some secret
  secret : secret ≠ ""
  size : req.body.length ≤ maxBytes
  carried : ∃ value, rt.parseJson (decode req.body) = .ok value ∧ tx ∈ items value
  signature : tx.field "signature" = some (.string sig)
  signed : sig ≠ ""

/-- The row holds a transaction that some request of the run carries. -/
def Sent (rt : Runtime) (secret : String) (maxBytes : Nat)
    (acts : List (CrashRecovery.Action TypedSolanaEvent)) (e : WebhookEvent) : Prop :=
  ∃ req now tx sig, .act (.request req now) ∈ acts ∧ Carries rt secret maxBytes req tx sig ∧
    e.key = ("helius", "helius:" ++ sig) ∧ e.rawPayload = rt.stringify tx

theorem admits_sent {rt : Runtime} {secret : String} {opts : ReceiverOptions}
    (hdriver : opts.driver = createHeliusDriver rt secret)
    {acts : List (CrashRecovery.Action TypedSolanaEvent)}
    {a : CrashRecovery.Action TypedSolanaEvent} (ha : a ∈ acts) :
    CrashRecovery.Admits opts (Sent rt secret opts.maxBytes acts) a := by
  unfold CrashRecovery.Admits
  split
  · next req now =>
      rw [hdriver]
      intro hverify hsize parsed hparsed e he json hjson receivedAt
      obtain ⟨hauthentic, hsecret⟩ := (verifyAuthHeader_eq_none req secret).1 hverify
      change parseRawPayload rt req.body = .ok parsed at hparsed
      unfold parseRawPayload at hparsed
      split at hparsed
      · cases hparsed
      · next value hvalue =>
          cases hparsed
          obtain ⟨tx, htx, hevent⟩ := List.mem_filterMap.1 he
          obtain ⟨sig, hsig, rfl⟩ := Option.map_eq_some_iff.1 hevent
          cases hjson
          obtain ⟨hfield, hsigned⟩ := signatureOf_eq_some hsig
          exact ⟨req, now, tx, sig, ha,
            ⟨hauthentic, hsecret, hsize, ⟨value, hvalue, htx⟩, hfield, hsigned⟩,
            congrArg (·, "helius:" ++ sig) (congrArg ReceiverDriver.source hdriver), rfl⟩
  · trivial

/-- Whatever requests, crashes, retries and cycles there are: an event that reaches the
consumer is the one event of a transaction that some request carried together with the
secret, and goes under the signature of that transaction. -/
theorem seen_authentic (rt : Runtime) (secret : String) (opts : Options)
    (hdriver : opts.receiver.driver = createHeliusDriver rt secret)
    (hjson : ∀ text value, rt.parseJson text = .ok value →
      ∀ tx ∈ items value, rt.parseJson (rt.stringify tx) = .ok tx)
    (acts : List (CrashRecovery.Action TypedSolanaEvent))
    (st : CrashRecovery.State TypedSolanaEvent)
    (hrun : exec (CrashRecovery.step opts (normalizeEvent rt)) {} acts = some st)
    (s : CrashRecovery.Seen TypedSolanaEvent) (hs : s ∈ st.seen) :
    ∃ req now tx sig, .act (.request req now) ∈ acts ∧
      Carries rt secret opts.receiver.maxBytes req tx sig ∧
      s.key = ("helius", "helius:" ++ sig) ∧ s.position = 0 ∧
      s.event.signature = some (.string sig) ∧ normalizeHeliusTx rt tx = .ok [s.event] := by
  have hstems := CrashRecovery.exec_stems (fun a ha => admits_sent hdriver ha) hrun
  obtain ⟨e, events, ⟨req, now, tx, sig, hreq, hcarries, hkey, hpayload⟩, hsame, hevents, hat⟩ :=
    hstems.seen s hs
  obtain ⟨value, hvalue, htx⟩ := hcarries.carried
  rw [normalizeEvent, hpayload, hjson _ value hvalue tx htx] at hevents
  obtain ⟨event, rfl, hsig⟩ := normalizeHeliusTx_ok hevents
  have hposition : s.position = 0 ∧ s.event = event := by
    cases hp : s.position with
    | zero =>
        rw [hp] at hat
        exact ⟨rfl, (Option.some.inj hat).symm⟩
    | succ n =>
        rw [hp] at hat
        cases hat
  refine ⟨req, now, tx, sig, hreq, hcarries, hsame ▸ hkey, hposition.1, ?_, ?_⟩
  · rw [hposition.2, hsig, hcarries.signature]
  · rw [hposition.2]
    exact hevents

def swapText : String := "\x7b\"signature\":\"5xT\",\"type\":\"SWAP\",\"source\":\"PUMP_FUN\"\x7d"

def swapTx : Json :=
  .object [("signature", .string "5xT"), ("type", .string "SWAP"),
    ("source", .string "PUMP_FUN")]

/-- A runtime for that text, alone or in an array. -/
def swapRuntime : Runtime where
  parseJson text :=
    if text = swapText then .ok swapTx
    else if text = "[" ++ swapText ++ "]" then .ok (.array [swapTx])
    else .error "Unexpected token"
  stringify _ := swapText
  toUpperCase s := s
  number _ := none
  typeError := "Cannot read properties of null"

def swapOpts : Options where
  receiver := { driver := createHeliusDriver swapRuntime "hunter2" }
  drainer :=
    { drivers := fun source => source = "helius"
      jsonError := fun _ => none
      maxAttempts := (5 : Nat) }

def swapRequest (secret : String) : IncomingRequest :=
  { method := "POST", url := "/webhooks/helius", headers := [("authorization", [secret])],
    body := ("[" ++ swapText ++ "]").toList.map fun c => .ofNat c.toNat }

/-- A request with another secret, the swap, and a crash after it has reached the consumer. -/
def swapRun : List (CrashRecovery.Action TypedSolanaEvent) :=
  [.act (.request (swapRequest "hunter3") 0), .act (.request (swapRequest "hunter2") 1),
    .act (.insert 1 none), .act (.drainOnce 2 none),
    .act (.advance 0 { now := 2, normalized := .ok [] }), .reach 0, .crash,
    .act (.drainOnce 3 none), .act (.advance 0 { now := 3, normalized := .ok [] }), .reach 0]

theorem seen_authentic_swap :
    ∃ st, exec (CrashRecovery.step swapOpts (normalizeEvent swapRuntime)) {} swapRun = some st ∧
      st.seen.length = 1 ∧ ∀ s ∈ st.seen, ∃ req now tx sig,
        .act (.request req now) ∈ swapRun ∧
          Carries swapRuntime "hunter2" swapOpts.receiver.maxBytes req tx sig ∧
          s.key = ("helius", "helius:" ++ sig) ∧ s.position = 0 ∧
          s.event.signature = some (.string sig) ∧
          normalizeHeliusTx swapRuntime tx = .ok [s.event] := by
  obtain ⟨st, hst, hlength⟩ :
      ∃ st, exec (CrashRecovery.step swapOpts (normalizeEvent swapRuntime)) {} swapRun = some st ∧
        st.seen.length = 1 := by
    decide +kernel
  have hjson : ∀ text value, swapRuntime.parseJson text = .ok value →
      ∀ tx ∈ items value, swapRuntime.parseJson (swapRuntime.stringify tx) = .ok tx := by
    intro text value hvalue tx htx
    dsimp only [swapRuntime] at hvalue
    split at hvalue
    · cases hvalue
      rw [List.mem_singleton.1 htx]
      rfl
    split at hvalue
    · cases hvalue
      rw [List.mem_singleton.1 htx]
      rfl
    · cases hvalue
  exact ⟨st, hst, hlength, fun s hs =>
    seen_authentic swapRuntime "hunter2" swapOpts rfl hjson swapRun st hst s hs⟩

end Ap3xSolana.Webhooks.HeliusDriver
