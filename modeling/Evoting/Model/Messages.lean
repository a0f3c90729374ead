/-
The messages of `sawadm genesis` and `sawset` on the wire.

The numbers and the types of the fields are those of the generated `_pb2` modules.  A text
is parsed when its bytes are UTF-8, in all fields of its number; of a field that is not
repeated the last one counts.  `Protobuf.wire` and `Library.wire` are the libraries that
read and write this.
-/
import Evoting.Lib.Wire
import Evoting.Model.Sawset

namespace Evoting.Genesis

open Wire

variable (utf8 : PyUtf8)

/-! ### Texts -/

def textField (number : Nat) (s : PyString) : List Field := bytesField number (utf8.encode s)

/-- The texts of the fields of a number. -/
def textsOf (number : Nat) (fields : List Field) : Option (List PyString) :=
  (bytesOf number fields).mapM utf8.decode

/-- A text, which is empty when no field has the number. -/
def textOf (number : Nat) (fields : List Field) : Option PyString :=
  (textsOf utf8 number fields).map fun texts => texts.getLastD []

theorem textOf_textField {number : Nat} {s : PyString} {fields : List Field}
    (h : bytesOf number fields = bytesOf number (textField utf8 number s)) :
    textOf utf8 number fields = some s := by
  rw [textOf, textsOf, h, textField, bytesOf_bytesField]
  by_cases hs : s = []
  · rw [hs, utf8.encode_nil, if_pos rfl]
    rfl
  · rw [if_neg (utf8.encode_ne_nil hs)]
    simp

/-! ### Batches -/

namespace Transaction

def fields (txn : Transaction) : List Field :=
  bytesField 1 txn.header ++ textField utf8 2 txn.headerSignature ++ bytesField 3 txn.payload

def write (txn : Transaction) : PyBytes := writeMessage (fields utf8 txn)

def parse (bytes : PyBytes) : Option Transaction := do
  let fields ← readMessage bytes
  let headerSignature ← textOf utf8 2 fields
  return ⟨lastBytes 1 fields, headerSignature, lastBytes 3 fields⟩

theorem parse_write (txn : Transaction) : parse utf8 (write utf8 txn) = some txn := by
  have hheader : lastBytes 1 (fields utf8 txn) = txn.header :=
    lastBytes_eq (by simp [fields, textField])
  have hsignature : textOf utf8 2 (fields utf8 txn) = some txn.headerSignature :=
    textOf_textField utf8 (by simp [fields])
  have hpayload : lastBytes 3 (fields utf8 txn) = txn.payload :=
    lastBytes_eq (by simp [fields, textField])
  rw [parse, write, readMessage_writeMessage_bind, hsignature, Option.bind_eq_bind,
    Option.bind_some, hheader, hpayload]
  rfl

end Transaction

namespace Batch

def fields (batch : Batch) : List Field :=
  bytesField 1 batch.header ++ textField utf8 2 batch.headerSignature
    ++ repeatedField 3 (batch.transactions.map (Transaction.write utf8))
    ++ varintField 4 batch.trace.toNat

def write (batch : Batch) : PyBytes := writeMessage (fields utf8 batch)

def parse (bytes : PyBytes) : Option Batch := do
  let fields ← readMessage bytes
  let headerSignature ← textOf utf8 2 fields
  let transactions ← (bytesOf 3 fields).mapM (Transaction.parse utf8)
  return ⟨lastBytes 1 fields, headerSignature, transactions, lastVarint 4 fields ≠ 0⟩

theorem parse_write (batch : Batch) : parse utf8 (write utf8 batch) = some batch := by
  have hheader : lastBytes 1 (fields utf8 batch) = batch.header :=
    lastBytes_eq (by simp [fields, textField])
  have hsignature : textOf utf8 2 (fields utf8 batch) = some batch.headerSignature :=
    textOf_textField utf8 (by simp [fields])
  have htransactions : (bytesOf 3 (fields utf8 batch)).mapM (Transaction.parse utf8)
      = some batch.transactions := by
    have hbytes : bytesOf 3 (fields utf8 batch)
        = batch.transactions.map (Transaction.write utf8) := by simp [fields, textField]
    rw [hbytes, mapM_map_eq_some (Transaction.parse_write utf8)]
  have htrace : lastVarint 4 (fields utf8 batch) = batch.trace.toNat :=
    lastVarint_eq (by simp [fields, textField])
  have hflag : decide (batch.trace.toNat ≠ 0) = batch.trace := by
    cases batch.trace with
    | false => rfl
    | true => rfl
  rw [parse, write, readMessage_writeMessage_bind, hsignature, Option.bind_eq_bind,
    Option.bind_some, htransactions, Option.bind_eq_bind, Option.bind_some, hheader, htrace, hflag]
  rfl

end Batch

/-- `BatchList` and `GenesisData` have one field, of the same number and type. -/
def writeBatches (batches : List Batch) : PyBytes :=
  writeMessage (repeatedField 1 (batches.map (Batch.write utf8)))

def parseBatches (bytes : PyBytes) : Option (List Batch) := do
  let fields ← readMessage bytes
  (bytesOf 1 fields).mapM (Batch.parse utf8)

theorem parseBatches_writeBatches (batches : List Batch) :
    parseBatches utf8 (writeBatches utf8 batches) = some batches := by
  rw [parseBatches, writeBatches, readMessage_writeMessage_bind, bytesOf_repeatedField,
    mapM_map_eq_some (Batch.parse_write utf8)]

/-! ### What is parsed of a transaction -/

namespace TransactionHeader

/-- A header whose other fields are empty. -/
def write (txnHeader : TransactionHeader) : PyBytes :=
  writeMessage (repeatedField 2 (txnHeader.dependencies.map utf8.encode)
    ++ textField utf8 3 txnHeader.familyName)

def parse (bytes : PyBytes) : Option TransactionHeader := do
  let fields ← readMessage bytes
  let dependencies ← textsOf utf8 2 fields
  let familyName ← textOf utf8 3 fields
  return ⟨familyName, dependencies⟩

theorem parse_write (txnHeader : TransactionHeader) :
    parse utf8 (write utf8 txnHeader) = some txnHeader := by
  rw [parse, write, readMessage_writeMessage_bind, textsOf,
    textOf_textField utf8 (s := txnHeader.familyName) (by simp)]
  simp [textField, mapM_map_eq_some utf8.decode_encode]

end TransactionHeader

namespace Action

def number : Action → Nat
  | actionUnset => 0
  | propose => 1
  | vote => 2
  | unrecognized => 3

def ofNumber : Nat → Action
  | 0 => actionUnset
  | 1 => propose
  | 2 => vote
  | _ => unrecognized

theorem ofNumber_number (action : Action) : ofNumber action.number = action := by
  cases action <;> rfl

end Action

namespace SettingsPayload

def fields (settingsPayload : SettingsPayload) : List Field :=
  varintField 1 settingsPayload.action.number ++ bytesField 2 settingsPayload.data

def write (settingsPayload : SettingsPayload) : PyBytes := writeMessage (fields settingsPayload)

def parse (bytes : PyBytes) : Option SettingsPayload := do
  let fields ← readMessage bytes
  return ⟨.ofNumber (lastVarint 1 fields), lastBytes 2 fields⟩

theorem parse_write (settingsPayload : SettingsPayload) :
    parse (write settingsPayload) = some settingsPayload := by
  have haction : lastVarint 1 (fields settingsPayload) = settingsPayload.action.number :=
    lastVarint_eq (by simp [fields])
  have hdata : lastBytes 2 (fields settingsPayload) = settingsPayload.data :=
    lastBytes_eq (by simp [fields])
  rw [parse, write, readMessage_writeMessage_bind, haction, hdata, Action.ofNumber_number]
  rfl

end SettingsPayload

namespace SettingProposal

/-- A proposal whose other fields are empty. -/
def write (proposal : SettingProposal) : PyBytes :=
  writeMessage (textField utf8 1 proposal.setting)

def parse (bytes : PyBytes) : Option SettingProposal := do
  let fields ← readMessage bytes
  let setting ← textOf utf8 1 fields
  return ⟨setting⟩

theorem parse_write (proposal : SettingProposal) :
    parse utf8 (write utf8 proposal) = some proposal := by
  rw [parse, write, readMessage_writeMessage_bind, textOf_textField utf8 rfl]
  rfl

end SettingProposal

/-- The library, on the wire format. -/
def Protobuf.wire : Protobuf where
  batchList := parseBatches utf8
  transactionHeader := TransactionHeader.parse utf8
  settingsPayload := SettingsPayload.parse
  settingProposal := SettingProposal.parse utf8
  genesisData := parseBatches utf8
  serializeGenesisData := writeBatches utf8
  genesisData_serialize := parseBatches_writeBatches utf8

end Evoting.Genesis

namespace Evoting.Sawset

open Wire
open Genesis (textField textOf_textField)

variable (utf8 : PyUtf8)

def TransactionHeader.write (txnHeader : TransactionHeader) : PyBytes :=
  writeMessage (textField utf8 1 txnHeader.batcherPublicKey
    ++ repeatedField 2 (txnHeader.dependencies.map utf8.encode)
    ++ textField utf8 3 txnHeader.familyName ++ textField utf8 4 txnHeader.familyVersion
    ++ repeatedField 5 (txnHeader.inputs.map utf8.encode)
    ++ repeatedField 7 (txnHeader.outputs.map utf8.encode)
    ++ textField utf8 9 txnHeader.payloadSha512 ++ textField utf8 10 txnHeader.signerPublicKey)

def SettingProposal.write (proposal : SettingProposal) : PyBytes :=
  writeMessage (textField utf8 1 proposal.setting ++ textField utf8 2 proposal.value
    ++ textField utf8 3 proposal.nonce)

def BatchHeader.write (batchHeader : BatchHeader) : PyBytes :=
  writeMessage (textField utf8 1 batchHeader.signerPublicKey
    ++ repeatedField 2 (batchHeader.transactionIds.map utf8.encode))

/-- **What is read of a header** is what was written into it. -/
theorem header_write (txnHeader : TransactionHeader) :
    Genesis.TransactionHeader.parse utf8 (txnHeader.write utf8)
      = some ⟨txnHeader.familyName, txnHeader.dependencies⟩ := by
  rw [Genesis.TransactionHeader.parse, TransactionHeader.write, readMessage_writeMessage_bind,
    Genesis.textsOf, textOf_textField utf8 (s := txnHeader.familyName) (by simp [textField])]
  simp [textField, mapM_map_eq_some utf8.decode_encode]

theorem proposal_write (proposal : SettingProposal) :
    Genesis.SettingProposal.parse utf8 (proposal.write utf8) = some ⟨proposal.setting⟩ := by
  rw [Genesis.SettingProposal.parse, SettingProposal.write, readMessage_writeMessage_bind,
    textOf_textField utf8 (s := proposal.setting) (by simp [textField])]
  rfl

/-- The number of the action is that of the batches, but a varint is no batch. -/
theorem parseBatches_payload (payload : Genesis.SettingsPayload) :
    Genesis.parseBatches utf8 payload.write = some [] := by
  rw [Genesis.SettingsPayload.write, Genesis.parseBatches, readMessage_writeMessage_bind]
  simp [Genesis.SettingsPayload.fields]

/-- The library, on the wire format. -/
def Library.wire : Library where
  toProtobuf := Genesis.Protobuf.wire utf8
  serializeBatchList := Genesis.writeBatches utf8
  serializeTransactionHeader := TransactionHeader.write utf8
  serializeBatchHeader := BatchHeader.write utf8
  serializeSettingsPayload := Genesis.SettingsPayload.write
  serializeSettingProposal := SettingProposal.write utf8
  batchList_serialize := Genesis.parseBatches_writeBatches utf8
  transactionHeader_serialize := header_write utf8
  settingsPayload_serialize := Genesis.SettingsPayload.parse_write
  settingProposal_serialize := proposal_write utf8
  batchList_payload data := parseBatches_payload utf8 ⟨.propose, data⟩

end Evoting.Sawset
