/-
`BasicElectionHandler.apply` and what it calls.

`apply` returns what the method throws, or nothing, and the validator state it
leaves.  Everything before `storeElectionData` only reads, so it is one `Except`
computation; `storeElectionData` then writes.  The catch lists of the handler are
`catching`: they name `NumberFormatException`, `IOException` and
`ClassNotFoundException`, and nothing else.

`display` and `abbreviate` only build text for the log and cannot throw, so the
signer, which reaches nothing but them, is carried and not used.  What
`electionDataToString` throws does matter, and it is kept.
-/
import Evoting.Model.Record
import Evoting.Model.Streams

namespace Evoting

/-- A SHA-512 digest. -/
structure Digest where
  bytes : ByteString
  length_eq : bytes.length = 64

/-- The platform the handler runs on. -/
structure Platform where
  utf8 : Utf8
  sha512 : ByteString → Digest
  streams : ObjectStreams

/-- What `apply` reads of a `TpProcessRequest` and its `TransactionHeader`. -/
structure TpProcessRequest where
  payload : ByteString
  signerPublicKey : JString

/-- `BasicElectionHandler.TransactionData`. -/
structure TransactionData where
  electionName : JString
  action : JString
  ballotOrKey : JString
  deriving DecidableEq, Repr

/-- A lower-case hex digit. -/
def hexDigit (v : Nat) : Char :=
  if v < 10 then Char.ofNat (48 + v) else Char.ofNat (97 + (v - 10))

/-- `DatatypeConverter.printHexBinary(bytes).toLowerCase()`. -/
def printHexBinary (bytes : ByteString) : JString :=
  bytes.flatMap fun b => [hexDigit (b.toNat / 16), hexDigit (b.toNat % 16)]

/-- `Utils.hash512`. -/
def hash512 (platform : Platform) (data : ByteString) : JString :=
  printHexBinary (platform.sha512 data).bytes

/-- The namespace the handler's constructor computes. -/
def xoNameSpace (platform : Platform) : JString :=
  (hash512 platform (platform.utf8.copyFromUtf8 "election".toList)).take 6

/-- `BasicElectionHandler.makeElectionAddress`. -/
def makeElectionAddress (platform : Platform) (gameName : JString) : Address :=
  xoNameSpace platform ++ (hash512 platform (platform.utf8.copyFromUtf8 gameName)).take 64

/-- `BasicElectionHandler.getUnpackedTransaction`. -/
def getUnpackedTransaction (platform : Platform) (transactionRequest : TpProcessRequest) :
    Except Throwable TransactionData :=
  let payloadList := splitString ',' (platform.utf8.toStringUtf8 transactionRequest.payload)
  if payloadList.length > 3 then .error (.invalidTransaction "Invalid payload serialization")
  else
    let payloadList := Fields.pad 3 payloadList
    .ok ⟨payloadList.getD 0 [], payloadList.getD 1 [], payloadList.getD 2 []⟩

/-- `catch (NumberFormatException | IOException | ClassNotFoundException e)` and
`throw new InvalidTransactionException(message)`. -/
def catching {α : Type} (message : String) : Except Throwable α → Except Throwable α
  | .error .numberFormat => .error (.invalidTransaction message)
  | .error .io => .error (.invalidTransaction message)
  | .error .classNotFound => .error (.invalidTransaction message)
  | result => result

/-- `ciphers[i] = ciphers[i].hAdd(toAdd[i])` for every index; a null element on
either side is dereferenced. -/
def addBallot : List (Option CipherTextObject) → List (Option CipherTextObject) →
    Except Throwable (List (Option CipherTextObject))
  | stateCipher :: stateCiphers, cipher :: ciphers => do
      let stateCipher ← deref stateCipher
      let cipher ← deref cipher
      let sum ← stateCipher.hAdd cipher
      let rest ← addBallot stateCiphers ciphers
      return some sum :: rest
  | _, _ => .ok []

/-- `BasicElectionHandler.electionDataToString`, for what it throws; its text goes
to the log.  The caught exceptions are swallowed. -/
def electionDataToString (platform : Platform) (electionData : ElectionData) :
    Except Throwable Unit :=
  match platform.streams.readCipherTexts electionData.cipher with
  | .error .numberFormat => .ok ()
  | .error .io => .ok ()
  | .error .classNotFound => .ok ()
  | .error e => .error e
  | .ok none => .error .nullPointer
  | .ok (some ciphers) => if none ∈ ciphers then .error .nullPointer else .ok ()

/-- `BasicElectionHandler.applyCreate`. -/
def applyCreate (platform : Platform) (transactionData : TransactionData)
    (electionData : ElectionData) (_player : JString) : Except Throwable ElectionData := do
  if electionData.cipher ≠ [] then
    .error (.invalidTransaction "Invalid Action: Election already exists")
  else
    let pub_key ← catching "PubKey is invalid"
      (platform.streams.readPublicKey transactionData.ballotOrKey)
    let pub_key ← deref pub_key
    let ciphers := List.replicate 5 (some pub_key.getEmptyCipherText)
    match platform.streams.writeBase64 (.cipherTexts ciphers) with
    | .error _ => .error (.invalidTransaction "Internal error: ballot array is invalid.")
    | .ok text =>
        .ok ⟨transactionData.electionName, transactionData.ballotOrKey, text⟩

/-- `BasicElectionHandler.applyVote`. -/
def applyVote (platform : Platform) (transactionData : TransactionData)
    (electionData : ElectionData) (_player : JString) : Except Throwable ElectionData := do
  let ciphers ← catching "Ballot array is invalid. 1"
    (platform.streams.readCipherTexts transactionData.ballotOrKey)
  let stateCiphers ← catching "Ballot array is invalid. 2"
    (platform.streams.readCipherTexts electionData.cipher)
  let stateCiphers ← deref stateCiphers
  let ciphers ← deref ciphers
  if stateCiphers.length ≠ ciphers.length then
    .error (.invalidTransaction "Ballot array is invalid, Incorrect number of votes.")
  else
    let stateCiphers ← addBallot stateCiphers ciphers
    match platform.streams.writeBase64 (.cipherTexts stateCiphers) with
    | .error _ => .error (.invalidTransaction "Ballot array is invalid. 3")
    | .ok updatedCipher =>
        let updatedElectionData : ElectionData :=
          ⟨electionData.electionName, electionData.pubKey, updatedCipher⟩
        electionDataToString platform updatedElectionData
        return updatedElectionData

/-- `BasicElectionHandler.runElection`. -/
def runElection (platform : Platform) (transactionData : TransactionData)
    (gameData : ElectionData) (player : JString) : Except Throwable ElectionData :=
  if transactionData.action = "create".toList then
    applyCreate platform transactionData gameData player
  else if transactionData.action = "vote".toList then
    applyVote platform transactionData gameData player
  else
    .error (.invalidTransaction ("Invalid action: " ++ String.ofList transactionData.action))

/-- The first check of `apply`: a vote's ballot must be readable. -/
def checkBallot (platform : Platform) (transactionData : TransactionData) :
    Except Throwable Unit :=
  if transactionData.action = "vote".toList then
    (catching "Ballot array is invalid. 4"
      (platform.streams.readCipherTexts transactionData.ballotOrKey)).map fun _ => ()
  else .ok ()

/-- The checks `apply` makes of the name and the action. -/
def checkFields (transactionData : TransactionData) : Except Throwable Unit :=
  if transactionData.electionName = [] then
    .error (.invalidTransaction "Election name is required")
  else if '|' ∈ transactionData.electionName then
    .error (.invalidTransaction "Election name cannot contain '|'")
  else if transactionData.action = [] then
    .error (.invalidTransaction "Action is required")
  else if transactionData.action ≠ "vote".toList ∧ transactionData.action ≠ "create".toList then
    .error (.invalidTransaction ("Invalid action: " ++ String.ofList transactionData.action))
  else .ok ()

/-- The entry `apply` reads before it stores. -/
def readEntry (platform : Platform) (context : Context) (address : Address) : JString :=
  platform.utf8.toStringUtf8 (context.getState address)

/-- What `apply` computes before it stores: the transaction, and the record to store. -/
def prepare (platform : Platform) (transactionRequest : TpProcessRequest) (context : Context) :
    Except Throwable (TransactionData × ElectionData) := do
  let transactionData ← getUnpackedTransaction platform transactionRequest
  checkBallot platform transactionData
  checkFields transactionData
  let address := makeElectionAddress platform transactionData.electionName
  let stateData := getStateData (readEntry platform context address) transactionData.electionName
  let updated ← runElection platform transactionData stateData transactionRequest.signerPublicKey
  return (transactionData, updated)

/-- `BasicElectionHandler.apply`. -/
def apply (platform : Platform) (transactionRequest : TpProcessRequest) (context : Context) :
    Except Throwable Unit × Context :=
  match prepare platform transactionRequest context with
  | .error e => (.error e, context)
  | .ok (transactionData, updatedElectionData) =>
      let address := makeElectionAddress platform transactionData.electionName
      storeElectionData platform.utf8 address updatedElectionData
        (readEntry platform context address) context

end Evoting
