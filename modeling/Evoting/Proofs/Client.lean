/-
What the clients send does not fit what the handler expects.

The addresses are a matter of lengths and halves: the handler takes the first 64
digits of a name's hash, `BlockchainEncoder` the last 64, and `elect_client` a
whole hash and 64 digits more.  The payloads fail at their third field: what
`ElectionImp` sends there is the text of the key, not a serialized object.
-/
import Evoting.Proofs.Handler
import Evoting.Model.Client

namespace Evoting

variable {platform : Platform}

/-! ### Addresses -/

theorem printHexBinary_length (bytes : ByteString) :
    (printHexBinary bytes).length = 2 * bytes.length := by
  induction bytes with
  | nil => rfl
  | cons b bytes ih =>
      rw [printHexBinary, List.flatMap_cons, List.length_append, ← printHexBinary, ih]
      simp only [List.length_cons, List.length_nil]
      omega

@[simp] theorem hash512_length (data : ByteString) : (hash512 platform data).length = 128 := by
  rw [hash512, printHexBinary_length, (platform.sha512 data).length_eq]

/-- An address of the handler has 70 digits. -/
theorem makeElectionAddress_length (name : JString) :
    (makeElectionAddress platform name).length = 70 := by
  simp [makeElectionAddress, xoNameSpace]

/-- `BlockchainEncoder` computes the handler's address exactly when the two halves of the
name's hash are the same. -/
theorem blockchainAddress_eq_iff (name : JString) :
    BlockchainEncoder.getBlockchainAddressFromKey platform "election".toList name
        = makeElectionAddress platform name ↔
      (hash512 platform (platform.utf8.copyFromUtf8 name)).drop 64
        = (hash512 platform (platform.utf8.copyFromUtf8 name)).take 64 := by
  rw [BlockchainEncoder.getBlockchainAddressFromKey, makeElectionAddress, xoNameSpace,
    BlockchainEncoder.prefixAddress, List.append_cancel_left_eq, BlockchainEncoder.keyAddress]
  simp only [hash512_length]

theorem hashInSha512_length (rawString : JString) :
    32 ≤ (ElectClient.hashInSha512 platform rawString).length := by
  simp only [ElectClient.hashInSha512, List.length_leftpad]
  omega

/-- An address of `elect_client` has at least 96 digits, when there is one. -/
theorem getAddress_length {capacity : JString → Nat} {name : JString} {a : Address}
    (h : ElectClient.getAddress platform capacity name = .ok a) : 96 ≤ a.length := by
  obtain ⟨digits, hdigits, h⟩ := bind_eq_ok_iff.mp h
  rw [← Except.ok.inj h, List.length_append]
  have hprefix : 32 ≤ (ElectClient.getPrefix platform capacity).length := hashInSha512_length _
  unfold substring at hdigits
  split at hdigits
  · rename_i hlen
    rw [← Except.ok.inj hdigits, List.drop_zero, List.length_take]
    omega
  · simp at hdigits

/-- Both clients declare the address the handler uses for the name. -/
structure AddressesAgree (platform : Platform) (capacity : JString → Nat) (name : JString) :
    Prop where
  electionImp : BlockchainEncoder.getBlockchainAddressFromKey platform "election".toList name
    = makeElectionAddress platform name
  electClient : ElectClient.getAddress platform capacity name
    = .ok (makeElectionAddress platform name)

/-- **For no name do the clients and the handler agree on the address.** -/
theorem addresses_never_agree (platform : Platform) (capacity : JString → Nat) (name : JString) :
    ¬AddressesAgree platform capacity name := by
  intro h
  have hlong := getAddress_length h.electClient
  rw [makeElectionAddress_length] at hlong
  omega

/-- For "mayor" neither client computes the handler's address. -/
theorem mayor_addresses_disagree :
    ¬AddressesAgree .reference (fun s => s.length * 11 / 10) "mayor".toList ∧
      BlockchainEncoder.getBlockchainAddressFromKey .reference "election".toList "mayor".toList
        ≠ makeElectionAddress .reference "mayor".toList := by
  have hencoder : BlockchainEncoder.getBlockchainAddressFromKey .reference "election".toList
      "mayor".toList ≠ makeElectionAddress .reference "mayor".toList := by decide +kernel
  exact ⟨fun h => hencoder h.electionImp, hencoder⟩

/-! ### Payloads -/

theorem ascii_of_mem_render {i : Int} {c : Char} (hc : c ∈ BigInteger.toText i) :
    c.toNat < 128 := by
  rcases Decimal.isDecimal_of_mem_render hc with hdigit | rfl
  · have hrange := Char.isDigit_iff_toNat.mp hdigit
    rw [show '9'.toNat = 57 from rfl] at hrange
    omega
  · decide

/-- The text of a key is made of ASCII characters, and none of them is a comma. -/
theorem toText_chars (pk : PaillierPublicKey) :
    (∀ c ∈ pk.toText, c.toNat < 128) ∧ ',' ∉ pk.toText := by
  have hcomma : ∀ i : Int, ',' ∉ BigInteger.toText i := fun i =>
    Decimal.not_mem_render (by simp [Decimal.IsDecimal])
  constructor
  · intro c hc
    simp only [PaillierPublicKey.toText, List.mem_append] at hc
    rcases hc with (((((hc | hc) | hc) | hc) | hc) | hc) | hc <;>
      first | exact ascii_of_mem_render hc | (obtain rfl := List.mem_singleton.mp hc; decide)
  · simp [PaillierPublicKey.toText, hcomma]

theorem semicolon_mem_toText (pk : PaillierPublicKey) : ';' ∈ pk.toText := by
  simp [PaillierPublicKey.toText]

/-- The bytes of the text of a key are not an object stream. -/
theorem not_streamHeader_of_key (pk : PaillierPublicKey) :
    ¬streamHeader <+: platform.utf8.copyFromUtf8 pk.toText := by
  rw [platform.utf8.copyFromUtf8_ascii _ (toText_chars pk).1]
  intro h
  have hmem := h.subset (List.mem_cons_self : (0xAC : UInt8) ∈ streamHeader)
  obtain ⟨c, hc, hbyte⟩ := List.mem_map.mp hmem
  have hlt := (toText_chars pk).1 c hc
  have hval := congrArg UInt8.toNat hbyte
  rw [UInt8.toNat_ofNat', Nat.mod_eq_of_lt (by omega)] at hval
  rw [hval] at hlt
  exact absurd hlt (by decide)

/-- What `create` sends as a key is refused where the handler reads it. -/
theorem readBase64_createKey (platform : Platform) (pk : PaillierPublicKey) : ∃ e : ReadFailure,
    platform.streams.readBase64 (Base64.encode (platform.utf8.copyFromUtf8 pk.toText))
      = .error e.thrown := by
  rw [ObjectStreams.readBase64, Base64.decode_encode]
  cases h : platform.streams.readObject (platform.utf8.copyFromUtf8 pk.toText) with
  | error e => exact ⟨e, by simp [h]⟩
  | ok o => exact absurd (platform.streams.header_of_readObject _ _ h) (not_streamHeader_of_key pk)

/-- What `vote` sends as a ballot is not even Base64. -/
theorem readBase64_voteKey (pk : PaillierPublicKey) :
    platform.streams.readBase64 pk.toText = .error .illegalArgument := by
  cases h : Base64.decode pk.toText with
  | none => rw [ObjectStreams.readBase64, h]
  | some raw =>
      exact absurd (semicolon_mem_toText pk)
        (Base64.not_mem_of_decode h Base64.not_isText_semicolon)

theorem createKey_ne_nil (pk : PaillierPublicKey) :
    Base64.encode (platform.utf8.copyFromUtf8 pk.toText) ≠ [] := by
  rw [Ne, Base64.encode_eq_nil]
  intro hnil
  have htext : pk.toText = [] :=
    platform.utf8.copyFromUtf8_injective (by rw [hnil, Utf8.copyFromUtf8_nil])
  exact absurd (semicolon_mem_toText pk) (by simp [htext])

/-- The name and the action of `create` arrive. -/
theorem create_unpacked {name : JString} (hname : ',' ∉ name) (pk : PaillierPublicKey) :
    getUnpackedTransaction platform (ElectionImp.create platform "create".toList name pk).request
      = .ok ⟨name, "create".toList, Base64.encode (platform.utf8.copyFromUtf8 pk.toText)⟩ := by
  refine getUnpackedTransaction_of_fields ?_ hname (by decide)
    (Base64.not_mem_of_decode (Base64.decode_encode _) Base64.not_isText_comma)
    (createKey_ne_nil pk)
  simp [ElectionImp.create, ElectionImp.transaction, ElectionImp.createPayload, joinStrings]

/-- The name and the action of `vote` arrive. -/
theorem vote_unpacked {name : JString} (hname : ',' ∉ name) (pk : PaillierPublicKey) :
    getUnpackedTransaction platform (ElectionImp.vote platform "vote".toList name pk).request
      = .ok ⟨name, "vote".toList, pk.toText⟩ := by
  refine getUnpackedTransaction_of_fields ?_ hname (by decide) (toText_chars pk).2 ?_
  · simp [ElectionImp.vote, ElectionImp.transaction, ElectionImp.votePayload, joinStrings]
  · exact List.ne_nil_of_mem (semicolon_mem_toText pk)

/-- Both payloads are unpacked into their fields, and the third field is read back: a key
as that key, a ballot as an array of ciphertexts. -/
structure PayloadsRoundTrip (platform : Platform) (name : JString) (pk : PaillierPublicKey) :
    Prop where
  create : ∃ third, getUnpackedTransaction platform
      (ElectionImp.create platform "create".toList name pk).request
        = .ok ⟨name, "create".toList, third⟩ ∧
    platform.streams.readPublicKey third = .ok (some pk.toObject)
  vote : ∃ third ciphers, getUnpackedTransaction platform
      (ElectionImp.vote platform "vote".toList name pk).request
        = .ok ⟨name, "vote".toList, third⟩ ∧
    platform.streams.readCipherTexts third = .ok (some ciphers)

theorem not_create_roundTrip {name : JString} (hname : ',' ∉ name) (pk : PaillierPublicKey) :
    ¬∃ third, getUnpackedTransaction platform
        (ElectionImp.create platform "create".toList name pk).request
          = .ok ⟨name, "create".toList, third⟩ ∧
      platform.streams.readPublicKey third = .ok (some pk.toObject) := by
  rintro ⟨third, hunpacked, hread⟩
  rw [create_unpacked hname, Except.ok.injEq] at hunpacked
  obtain ⟨e, he⟩ := readBase64_createKey platform pk
  have hthird : Base64.encode (platform.utf8.copyFromUtf8 pk.toText) = third :=
    congrArg TransactionData.ballotOrKey hunpacked
  rw [← hthird, ObjectStreams.readPublicKey, he] at hread
  simp at hread

theorem not_vote_roundTrip {name : JString} (hname : ',' ∉ name) (pk : PaillierPublicKey) :
    ¬∃ third ciphers, getUnpackedTransaction platform
        (ElectionImp.vote platform "vote".toList name pk).request
          = .ok ⟨name, "vote".toList, third⟩ ∧
      platform.streams.readCipherTexts third = .ok (some ciphers) := by
  rintro ⟨third, ciphers, hunpacked, hread⟩
  rw [vote_unpacked hname, Except.ok.injEq] at hunpacked
  have hthird : pk.toText = third := congrArg TransactionData.ballotOrKey hunpacked
  rw [← hthird, ObjectStreams.readCipherTexts, readBase64_voteKey] at hread
  simp at hread

/-- **For no name and no key do the payloads round trip**; neither of the two does. -/
theorem payloads_never_roundTrip (platform : Platform) {name : JString} (hname : PlainField name)
    (pk : PaillierPublicKey) : ¬PayloadsRoundTrip platform name pk :=
  fun h => not_create_roundTrip hname.comma pk h.create

theorem payloads_never_roundTrip_council :
    ¬PayloadsRoundTrip .reference "council".toList KeyPair.reference.publicKey :=
  payloads_never_roundTrip .reference ⟨by decide, by decide⟩ _

/-- The payloads for "mayor" under the reference key: the third field of the first is not
a stream, the third field of the second is not Base64. -/
theorem mayor_payloads_refused :
    ¬PayloadsRoundTrip .reference "mayor".toList KeyPair.reference.publicKey :=
  fun h => not_vote_roundTrip (by decide) _ h.vote

end Evoting
