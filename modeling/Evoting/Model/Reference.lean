/-
A platform on which the handler can be run.

The streams write an object as tagged numbers after the stream header: the
format is not Java's, but it reads back whatever it writes, for every object,
and reads nothing without the header.  The digest is a table of SHA-512 values:
of the namespace, of two election names, and of what `elect_client` hashes for
the namespace and the first name.  `Providers.reference` records SHA-1 and SHA1PRNG
where the ring signatures of the examples ask for them.
-/
import Evoting.Lib.Codec
import Evoting.Model.Handler
import Evoting.Model.Ring

namespace Evoting

/-! ### Objects as numbers -/

namespace PublicKeyObject

def codec : Codec PublicKeyObject :=
  (Codec.int.prod (Codec.int.option.prod (Codec.int.option.prod Codec.int.option))).comap
    (fun pk => (pk.bits, pk.n, pk.nSquared, pk.g))
    (fun (bits, n, nSquared, g) => ⟨bits, n, nSquared, g⟩) fun _ => rfl

end PublicKeyObject

namespace CipherTextObject

def codec : Codec CipherTextObject :=
  (Codec.int.option.prod PublicKeyObject.codec.option).comap
    (fun c => (c.text, c.publicKey)) (fun (text, publicKey) => ⟨text, publicKey⟩) fun _ => rfl

end CipherTextObject

/-- Characters by their code. -/
def charCodec : Codec Char :=
  Codec.int.comap (fun c => (c.toNat : Int)) (fun i => Char.ofNat i.toNat) fun c => by simp

namespace JObject

/-- The four shapes of an object. -/
abbrev Shape : Type :=
  Option PublicKeyObject ⊕ List (Option CipherTextObject) ⊕ JString

def toShape : JObject → Shape
  | null => .inl none
  | publicKey pk => .inl (some pk)
  | cipherTexts cs => .inr (.inl cs)
  | other className => .inr (.inr className)

def ofShape : Shape → JObject
  | .inl none => null
  | .inl (some pk) => publicKey pk
  | .inr (.inl cs) => cipherTexts cs
  | .inr (.inr className) => other className

def codec : Codec JObject :=
  (PublicKeyObject.codec.option.sum (CipherTextObject.codec.option.list.sum charCodec.list)).comap
    toShape ofShape fun o => by cases o <;> rfl

end JObject

/-! ### Numbers as bytes -/

/-- The bytes of a list of numbers: decimal, with a blank between two. -/
def tokenBytes (tokens : List Int) : ByteString :=
  Utf8.standard.copyFromUtf8 (joinStrings ' ' (tokens.map BigInteger.toText))

def tokensOf (bs : ByteString) : Option (List Int) :=
  (splitString ' ' (Utf8.standard.toStringUtf8 bs)).mapM Decimal.parse

theorem mapM_parse_render (tokens : List Int) :
    (tokens.map Decimal.render).mapM Decimal.parse = some tokens := by
  induction tokens with
  | nil => rfl
  | cons i tokens ih => simp [Decimal.parse_render, ih]

theorem tokensOf_tokenBytes {tokens : List Int} (hne : tokens ≠ []) :
    tokensOf (tokenBytes tokens) = some tokens := by
  have hsplit : splitString ' ' (joinStrings ' ' (tokens.map BigInteger.toText))
      = tokens.map BigInteger.toText := by
    refine Fields.split_join ?_ (by simpa using hne) ?_
    · intro f hf
      obtain ⟨i, -, rfl⟩ := List.mem_map.mp hf
      exact Decimal.not_mem_render (by simp [Decimal.IsDecimal])
    · rw [List.getLast_map]
      exact Decimal.render_ne_nil _
  rw [tokensOf, tokenBytes, Utf8.toStringUtf8_copyFromUtf8, hsplit]
  exact mapM_parse_render tokens

namespace ObjectStreams

/-- Streams of tagged numbers behind the stream header. -/
def tagged : ObjectStreams where
  writeObject o := .ok (streamHeader ++ tokenBytes (0 :: JObject.codec.write o))
  readObject bs :=
    if streamHeader <+: bs then
      match tokensOf (bs.drop streamHeader.length) with
      | some (0 :: tokens) =>
          match JObject.codec.read tokens with
          | some (o, []) => .ok o
          | _ => .error .classNotFoundException
      | _ => .error .ioException
    else .error .ioException
  readObject_writeObject o bs h := by
    have hread := JObject.codec.read_write o []
    rw [List.append_nil] at hread
    rw [← Except.ok.inj h, if_pos (List.prefix_append _ _), List.drop_left,
      tokensOf_tokenBytes (by simp)]
    simp [hread]
  header_of_readObject bs o h := by
    split at h
    · assumption
    · simp at h

end ObjectStreams

/-! ### Digests -/

namespace Digest

/-- The digest whose bytes, read as a number, are `v`. -/
def ofNat (v : Nat) : Digest where
  bytes := (List.range 64).map fun i => UInt8.ofNat (v >>> (8 * (63 - i)))
  length_eq := by simp

end Digest

/-- SHA-512 of "election", "mayor" and "council", and of the texts of the buffers that hold
the first two. -/
def recordedSha512 (data : ByteString) : Digest :=
  if data = Utf8.standard.copyFromUtf8 "election".toList then .ofNat
    0xd8b4f18e53c79f8753b670968fee27606abe92c476f8e265d6bad92438f21ee0b8d286f56253e1dd36a68bf0d3eefa85cec2ec9f5ddefbed8d80c9bfb5f4bd28
  else if data = Utf8.standard.copyFromUtf8 "mayor".toList then .ofNat
    0xe4b6a1404f2684ea0add3f0ee03107f36274d8621c16cf2837530882ca2b6d84cba02e7cb8588d56f66cfb75881f43ad38281c01182be8c31ad275acf4b106dc
  else if data = Utf8.standard.copyFromUtf8 "council".toList then .ofNat
    0xf593b4c560dc144237bf5c56d2194acc6c56eca65f2040c830f444feebde617ca842c99ba7dd93d72919fd433edc829c7c90f8b6b5a4c8718e51054306e2477c
  else if data = Utf8.standard.copyFromUtf8
      "java.nio.HeapByteBuffer[pos=0 lim=8 cap=8]".toList then .ofNat
    0xe30d622857acff90da90bd54a436fe39555da6175dba8c64e904cb369843540f305e295f5e7ec13273ee572be0a0212399e09dce7267415ef2eba89303b47117
  else if data = Utf8.standard.copyFromUtf8
      "java.nio.HeapByteBuffer[pos=0 lim=5 cap=5]".toList then .ofNat
    0x3a14c3fca9dcf5be5f8cfec00b073f8810735f7c093780fbd87dcd029027378d54688548deabb69f88650bb8ced7a846c62883beaa50b456ece57001998a51e3
  else .ofNat 0

def Platform.reference : Platform := ⟨Utf8.standard, recordedSha512, ObjectStreams.tagged⟩

/-! ### A key pair and its requests -/

/-- The key pair of the primes 5 and 7. -/
def KeyPair.reference : KeyPair := ⟨⟨12, 3⟩, ⟨6, 35, 1225, 36⟩, none⟩

/-- The text a client would send of an object. -/
def referenceText (o : JObject) : JString :=
  Base64.encode (streamHeader ++ tokenBytes (0 :: JObject.codec.write o))

@[simp] theorem writeBase64_reference (o : JObject) :
    Platform.reference.streams.writeBase64 o = .ok (referenceText o) := rfl

@[simp] theorem readBase64_reference (o : JObject) :
    Platform.reference.streams.readBase64 (referenceText o) = .ok o :=
  ObjectStreams.readBase64_of_writeBase64 _ (writeBase64_reference o)

/-- A transaction with its three fields. -/
def referenceRequest (name action third : JString) : TpProcessRequest :=
  ⟨Utf8.standard.copyFromUtf8 (joinStrings ',' [name, action, third]), "signer".toList⟩

/-- The `create` of an election under the reference key. -/
def createReference (name : JString) : TpProcessRequest :=
  referenceRequest name "create".toList
    (referenceText (.publicKey KeyPair.reference.publicKey.toObject))

/-! ### Ring signatures -/

/-- The SHA-1 numbers that signing the messages 2 and 3 asks for in a ring of two. -/
def recordedSha1 : List (JString × Nat) :=
  [ ("2".toList, 1246245281287062843477446394631337292330716631216),
    ("1246245281287062843477446394631337292330716631216".toList, 415205077253547720026971303218870229693588141826),
    ("3".toList, 684329801336223661356952546078269889038938702779),
    ("684329801336223661356952546078269889038938702779".toList, 1239064414043155468131608360073918757032083393462),
    ("415205077253547720026971303218870229693588141879".toList, 1346995367003350917342959110881416410328492813704),
    ("1346995367003350917342959110881416410328492813703".toList, 661825831864785374109736562989278683572462340711),
    ("1239064414043155468131608360073918757032083393411".toList, 1084606039022536668509993143944770032306484170840),
    ("1084606039022536668509993143944770032306484170839".toList, 147443041910009799547672306166189636473295136861)]

/-- SHA-1 as recorded, and the first two integers SHA1PRNG yields under the seed 7. -/
def Providers.reference : Providers where
  sha1 text := (recordedSha1.lookup text).getD 0
  nextInt seed i := if seed = "7".toList then [602384194, -2126998625].getD i 0 else 0

end Evoting
