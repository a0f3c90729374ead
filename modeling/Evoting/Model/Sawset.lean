/-
`sawset`: the files that `sawadm genesis` reads.

A command makes one batch of proposals.  `genesis` proposes who may vote and, if it is told
to, how many votes are needed; `proposal create` what its arguments say.  The batch goes to
a file, or, for the client of another family, the payloads do, each to a file of its own.
What is raised is raised before a file is opened.

The protobuf library, the signer, the hashes and what is drawn for a nonce are parameters.
-/
import Evoting.Lib.Machine
import Evoting.Model.Genesis

namespace Evoting.Sawset

open Genesis (Action Batch FileSystem Transaction)

/-! ### What the command is given -/

/-- A `Signer`, which `_read_signer` makes of the key file. -/
structure Signer where
  /-- `get_public_key().as_hex()` -/
  publicKey : PyString
  sign : PyBytes → PyString

/-- `hashlib`, as `hexdigest` gives it. -/
structure Hashlib where
  sha256 : PyBytes → PyString
  sha512 : PyBytes → PyString

inductive CliMessage where
  /-- `'approval threshold must not be less than 1'` -/
  | thresholdTooLow
  /-- `'approval threshold must not be greater than the number of authorized keys'` -/
  | thresholdTooHigh
  deriving DecidableEq

inductive Raised where
  | cliException (message : CliMessage)
  /-- A setting without `=` does not unpack into a key and a value. -/
  | valueError
  deriving DecidableEq

/-- `s.split(sep, maxsplit)`. -/
def splitMax (sep : Char) : Nat → PyString → List PyString
  | 0, s => [s]
  | maxsplit + 1, s =>
      if sep ∈ s then
        s.takeWhile (· ≠ sep) :: splitMax sep maxsplit (s.dropWhile (· ≠ sep)).tail
      else [s]

/-- `str(n)`. -/
def pyStr (n : Nat) : PyString := Nat.toDigits 10 n

/-- `hex(n)`. -/
def pyHex (n : Nat) : PyString := "0x".toList ++ Nat.toDigits 16 n

/-! ### Messages -/

/-- `TransactionHeader`, without the nonce, which is not set. -/
structure TransactionHeader where
  signerPublicKey : PyString
  familyName : PyString
  familyVersion : PyString
  inputs : List PyString
  outputs : List PyString
  dependencies : List PyString
  payloadSha512 : PyString
  batcherPublicKey : PyString

/-- `SettingProposal`. -/
structure SettingProposal where
  setting : PyString
  value : PyString
  nonce : PyString

/-- `BatchHeader`. -/
structure BatchHeader where
  signerPublicKey : PyString
  transactionIds : List PyString

/-- The protobuf library, for the messages that are written: a message is parsed from what it is
serialized to. -/
structure Library extends Genesis.Protobuf where
  serializeBatchList : List Batch → PyBytes
  serializeTransactionHeader : TransactionHeader → PyBytes
  serializeBatchHeader : BatchHeader → PyBytes
  serializeSettingsPayload : Genesis.SettingsPayload → PyBytes
  serializeSettingProposal : SettingProposal → PyBytes
  batchList_serialize : ∀ batches, batchList (serializeBatchList batches) = some batches
  transactionHeader_serialize : ∀ txnHeader,
    transactionHeader (serializeTransactionHeader txnHeader)
      = some ⟨txnHeader.familyName, txnHeader.dependencies⟩
  settingsPayload_serialize : ∀ payload,
    settingsPayload (serializeSettingsPayload payload) = some payload
  settingProposal_serialize : ∀ proposal,
    settingProposal (serializeSettingProposal proposal) = some ⟨proposal.setting⟩
  /-- A payload is parsed as a list of no batches: the field with the number of the batches is a
  varint, and the other one has a number that is not known. -/
  batchList_payload : ∀ data, batchList (serializeSettingsPayload ⟨.propose, data⟩) = some []

variable (pb : Library) (utf8 : PyUtf8) (hashlib : Hashlib)

/-! ### Addresses -/

def SETTINGS_NAMESPACE : PyString := "000000".toList

def MAX_KEY_PARTS : Nat := 4

def ADDRESS_PART_SIZE : Nat := 16

/-- `_short_hash`. -/
def shortHash (inStr : PyString) : PyString :=
  (hashlib.sha256 (utf8.encode inStr)).take ADDRESS_PART_SIZE

/-- `_key_to_address`. -/
def keyToAddress (key : PyString) : PyString :=
  let keyParts := splitMax '.' (MAX_KEY_PARTS - 1) key
  let keyParts := keyParts ++ List.replicate (MAX_KEY_PARTS - keyParts.length) []
  SETTINGS_NAMESPACE ++ keyParts.flatMap (shortHash utf8 hashlib)

def PROPOSALS : PyString := "sawtooth.settings.vote.proposals".toList

def AUTHORIZED_KEYS : PyString := "sawtooth.settings.vote.authorized_keys".toList

def APPROVAL_THRESHOLD : PyString := "sawtooth.settings.vote.approval_threshold".toList

/-- `_config_inputs`. -/
def configInputs (key : PyString) : List PyString :=
  [PROPOSALS, AUTHORIZED_KEYS, APPROVAL_THRESHOLD, key].map (keyToAddress utf8 hashlib)

/-- `_config_outputs`. -/
def configOutputs (key : PyString) : List PyString :=
  [PROPOSALS, key].map (keyToAddress utf8 hashlib)

/-! ### Transactions and batches -/

variable (signer : Signer)

/-- `_make_txn`. -/
def makeTxn (settingKey : PyString) (payload : Genesis.SettingsPayload) : Transaction :=
  let serializedPayload := pb.serializeSettingsPayload payload
  let header := pb.serializeTransactionHeader
    { signerPublicKey := signer.publicKey
      familyName := "sawtooth_settings".toList
      familyVersion := "1.0".toList
      inputs := configInputs utf8 hashlib settingKey
      outputs := configOutputs utf8 hashlib settingKey
      dependencies := []
      payloadSha512 := hashlib.sha512 serializedPayload
      batcherPublicKey := signer.publicKey }
  ⟨header, signer.sign header, serializedPayload⟩

/-- `_create_propose_txn`, with what `randint` draws. -/
def createProposeTxn (draw : Nat) (settingKey settingValue : PyString) : Transaction :=
  let proposal : SettingProposal := ⟨settingKey, settingValue, pyHex draw⟩
  makeTxn pb utf8 hashlib signer settingKey ⟨.propose, pb.serializeSettingProposal proposal⟩

/-- `_create_batch`. -/
def createBatch (transactions : List Transaction) : Batch :=
  let batchHeader := pb.serializeBatchHeader
    ⟨signer.publicKey, transactions.map Transaction.headerSignature⟩
  ⟨batchHeader, signer.sign batchHeader, transactions, false⟩

/-- `setting_key, setting_value = setting_key_value`. -/
def unpack : List PyString → Except Raised (PyString × PyString)
  | [settingKey, settingValue] => .ok (settingKey, settingValue)
  | _ => .error .valueError

/-- The transactions for some settings, with a draw for each. -/
def createProposeTxns : (Nat → Nat) → List (List PyString) → Except Raised (List Transaction)
  | _, [] => .ok []
  | draws, setting :: settings => do
      let (settingKey, settingValue) ← unpack setting
      let txns ← createProposeTxns (fun i => draws (i + 1)) settings
      return createProposeTxn pb utf8 hashlib signer (draws 0) settingKey settingValue :: txns

/-! ### The commands -/

/-- The arguments of `genesis`; an option that is not given is an empty list or nothing. -/
structure GenesisArgs where
  signer : Signer
  authorizedKey : List PyString
  approvalThreshold : Option Int
  output : PyString

/-- Where `proposal create` writes to, when that is a file. -/
inductive Target where
  | output (path : PyString)
  | sabreOutput (path : PyString)

structure CreateArgs where
  signer : Signer
  setting : List PyString
  target : Target

/-- The keys of `genesis`: those given, or that of the signer, which is always one of them. -/
def authorizedKeys (args : GenesisArgs) : List PyString :=
  let keys := if args.authorizedKey ≠ [] then args.authorizedKey else [args.signer.publicKey]
  if args.signer.publicKey ∈ keys then keys else keys ++ [args.signer.publicKey]

/-- The settings `genesis` proposes. -/
def genesisSettings (args : GenesisArgs) : Except Raised (List (List PyString)) :=
  let keys := authorizedKeys args
  let settings := [[AUTHORIZED_KEYS, pyJoin ',' keys]]
  match args.approvalThreshold with
  | none => .ok settings
  | some approvalThreshold =>
      if approvalThreshold < 1 then .error (.cliException .thresholdTooLow)
      else if approvalThreshold > keys.length then .error (.cliException .thresholdTooHigh)
      else .ok (settings ++ [[APPROVAL_THRESHOLD, pyStr approvalThreshold.toNat]])

/-- `_do_config_genesis`, up to its file. -/
def genesisTxns (draws : Nat → Nat) (args : GenesisArgs) : Except Raised (List Transaction) := do
  let settings ← genesisSettings args
  createProposeTxns pb utf8 hashlib args.signer draws settings

/-- `_do_config_proposal_create`, up to where it writes to. -/
def createTxns (draws : Nat → Nat) (args : CreateArgs) : Except Raised (List Transaction) :=
  createProposeTxns pb utf8 hashlib args.signer draws (args.setting.map (splitMax '=' 1))

/-- The file of a batch. -/
def batchFile (path : PyString) (transactions : List Transaction) : PyString × PyBytes :=
  (path, pb.serializeBatchList [createBatch pb signer transactions])

/-- What `proposal create` writes. -/
def targetFiles (transactions : List Transaction) : Target → List (PyString × PyBytes)
  | .output path => [batchFile pb signer path transactions]
  | .sabreOutput path =>
      transactions.mapIdx fun i txn => (path ++ "-".toList ++ pyStr i, txn.payload)

/-- A command, with what is drawn for it. -/
inductive Command where
  | genesis (draws : Nat → Nat) (args : GenesisArgs)
  | proposalCreate (draws : Nat → Nat) (args : CreateArgs)

/-- The files a command writes. -/
def files : Command → Except Raised (List (PyString × PyBytes))
  | .genesis draws args => do
      let txns ← genesisTxns pb utf8 hashlib draws args
      return [batchFile pb args.signer args.output txns]
  | .proposalCreate draws args => do
      let txns ← createTxns pb utf8 hashlib draws args
      return targetFiles pb args.signer txns args.target

/-- **One command.** -/
def command (fs : FileSystem) (c : Command) : Except Raised Unit × FileSystem :=
  match files pb utf8 hashlib c with
  | .error e => (.error e, fs)
  | .ok files => (.ok (), files.foldl (fun fs file => fs.write file.1 file.2) fs)

end Evoting.Sawset
