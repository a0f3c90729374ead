/-
`sawadm genesis`: the batches of the input files in one file.

The protobuf library is a parameter: a parser is nothing where `ParseFromString` raises a
`DecodeError`, and the batches that `GenesisData` is serialized from are parsed from it
again.  The command checks that every dependency of a transaction has come before it,
with one set of ids that grows along the batches, and unless it is told not to, that
the settings the validator needs are proposed.  The output file is opened last.
-/
import Evoting.Python.Basic
import Mathlib.Data.Finset.Insert

namespace Evoting.Genesis

/-! ### Messages -/

structure Transaction where
  /-- A `TransactionHeader`. -/
  header : PyBytes
  headerSignature : PyString
  payload : PyBytes
  deriving DecidableEq

structure Batch where
  /-- A `BatchHeader`. -/
  header : PyBytes
  headerSignature : PyString
  transactions : List Transaction
  trace : Bool
  deriving DecidableEq

/-- `TransactionHeader`, of whose fields two are read. -/
structure TransactionHeader where
  familyName : PyString
  dependencies : List PyString
  deriving DecidableEq

/-- `SettingsPayload.Action`; a number without a name is kept. -/
inductive Action where
  | actionUnset
  | propose
  | vote
  | unrecognized
  deriving DecidableEq

structure SettingsPayload where
  action : Action
  data : PyBytes
  deriving DecidableEq

/-- `SettingProposal`, of whose fields one is read. -/
structure SettingProposal where
  setting : PyString
  deriving DecidableEq

/-- The protobuf library, for the messages of the command. -/
structure Protobuf where
  batchList : PyBytes → Option (List Batch)
  transactionHeader : PyBytes → Option TransactionHeader
  settingsPayload : PyBytes → Option SettingsPayload
  settingProposal : PyBytes → Option SettingProposal
  genesisData : PyBytes → Option (List Batch)
  /-- `SerializeToString` of a `GenesisData` of batches. -/
  serializeGenesisData : List Batch → PyBytes
  genesisData_serialize : ∀ batches, genesisData (serializeGenesisData batches) = some batches

/-! ### Files -/

structure FileSystem where
  /-- The bytes of the files that can be read. -/
  contents : PyString → Option PyBytes
  /-- `os.path.exists`. -/
  pathExists : PyString → Bool

/-- `open(path, 'wb')` and a `write`, of a file that can be opened; what it held is gone. -/
def FileSystem.write (fs : FileSystem) (path : PyString) (bytes : PyBytes) : FileSystem where
  contents := Function.update fs.contents path (some bytes)
  pathExists := Function.update fs.pathExists path true

/-- `os.path.join`, for a second path that is not absolute. -/
def pathJoin (path other : PyString) : PyString :=
  if path = [] ∨ path.getLast? = some '/' then path ++ other else path ++ '/' :: other

/-! ### What is raised -/

/-- The message of a `CliException`. -/
inductive CliMessage where
  /-- `"Data directory does not exist: {}"` -/
  | noDataDir (dataDir : PyString)
  /-- `'Unable to read {}'` -/
  | unableToRead (inputFile : PyString)
  /-- `'Unsatisfied dependency in given transactions: {}'` -/
  | unsatisfiedDependency (unsatisfiedDeps : List PyString)
  /-- `'The following setting(s) are required at genesis, but were not included in the genesis
  batches: {}'` -/
  | missingSettings (requiredSettings : List PyString)
  deriving DecidableEq

inductive Raised where
  | cliException (message : CliMessage)
  /-- `google.protobuf.message.DecodeError` -/
  | decodeError
  deriving DecidableEq

/-- `ParseFromString`. -/
def parseFromString {Message : Type} (parser : PyBytes → Option Message) (bytes : PyBytes) :
    Except Raised Message :=
  match parser bytes with
  | some message => .ok message
  | none => .error .decodeError

variable (pb : Protobuf)

/-! ### `_validate_depedencies` -/

/-- One transaction, and the ids before it. -/
def validateTransaction (transactionIds : Finset PyString) (txn : Transaction) :
    Except Raised (Finset PyString) := do
  let txnHeader ← parseFromString pb.transactionHeader txn.header
  if txnHeader.dependencies ≠ [] then
    let unsatisfiedDeps := txnHeader.dependencies.filter (· ∉ transactionIds)
    if unsatisfiedDeps ≠ [] then
      throw (.cliException (.unsatisfiedDependency unsatisfiedDeps))
  return insert txn.headerSignature transactionIds

/-- `_validate_depedencies`. -/
def validateDepedencies (batches : List Batch) : Except Raised Unit := do
  let _ ← batches.foldlM
    (fun transactionIds batch => batch.transactions.foldlM (validateTransaction pb) transactionIds)
    ∅
  return ()

/-! ### `_check_required_settings` -/

def REQUIRED_SETTINGS : List PyString :=
  ["sawtooth.consensus.algorithm.name".toList, "sawtooth.consensus.algorithm.version".toList]

/-- The family whose payloads are read. -/
def settingsFamily : PyString := "sawtooth_settings".toList

/-- One transaction, and the settings still required before it. -/
def checkTransaction (requiredSettings : List PyString) (txn : Transaction) :
    Except Raised (List PyString) := do
  let txnHeader ← parseFromString pb.transactionHeader txn.header
  if txnHeader.familyName = settingsFamily then
    let settingsPayload ← parseFromString pb.settingsPayload txn.payload
    if settingsPayload.action = .propose then
      let proposal ← parseFromString pb.settingProposal settingsPayload.data
      if requiredSettings.contains proposal.setting then
        return requiredSettings.erase proposal.setting
  return requiredSettings

/-- `_check_required_settings`. -/
def checkRequiredSettings (batches : List Batch) : Except Raised Unit := do
  let requiredSettings ← batches.foldlM
    (fun requiredSettings batch => batch.transactions.foldlM (checkTransaction pb) requiredSettings)
    REQUIRED_SETTINGS
  if requiredSettings ≠ [] then
    throw (.cliException (.missingSettings requiredSettings))

/-! ### `do_genesis` -/

structure Args where
  inputFile : List PyString
  output : Option PyString
  ignoreRequiredSettings : Bool

/-- One input file, and the batches before it; the `except` clause has no type. -/
def readInput (fs : FileSystem) (genesisBatches : List Batch) (inputFile : PyString) :
    Except Raised (List Batch) :=
  match (fs.contents inputFile).bind pb.batchList with
  | some batches => .ok (genesisBatches ++ batches)
  | none => .error (.cliException (.unableToRead inputFile))

/-- `genesis_file`. -/
def genesisFile (args : Args) (dataDir : PyString) : PyString :=
  match args.output with
  | some (c :: output) => c :: output
  | _ => pathJoin dataDir "genesis.batch".toList

/-- `do_genesis`, up to the output file: the batches of all input files. -/
def genesisBatches (fs : FileSystem) (args : Args) (dataDir : PyString) :
    Except Raised (List Batch) := do
  if ¬fs.pathExists dataDir then
    throw (.cliException (.noDataDir dataDir))
  let genesisBatches ← args.inputFile.foldlM (readInput pb fs) []
  validateDepedencies pb genesisBatches
  if ¬args.ignoreRequiredSettings then
    checkRequiredSettings pb genesisBatches
  return genesisBatches

/-- `do_genesis`, with the data directory that is given or else configured. -/
def doGenesis (fs : FileSystem) (args : Args) (dataDir : PyString) :
    Except Raised Unit × FileSystem :=
  match genesisBatches pb fs args dataDir with
  | .error e => (.error e, fs)
  | .ok batches =>
      (.ok (), fs.write (genesisFile args dataDir) (pb.serializeGenesisData batches))

end Evoting.Genesis
