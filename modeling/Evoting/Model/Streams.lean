/-
Java object streams, as the election handler meets them.

What a stream yields is attacker-chosen: null, a public key or an array of
ciphertexts whose reference fields may themselves be null, or an object of some
other serializable class.  `PublicKeyObject` and `CipherTextObject` are therefore
the two Paillier classes with nullable fields; `toObject` embeds what the
constructors build.

`ObjectStreams` stands for `ObjectOutputStream.writeObject` and
`ObjectInputStream.readObject`.  Its two laws are that an object which could be
written is read back equal, and that reading succeeds only on a byte stream with
the header every `ObjectOutputStream` writes.
-/
import Evoting.Lib.Base64
import Evoting.Model.Paillier

namespace Evoting

/-- A `PaillierPublicKey` object out of a stream. -/
structure PublicKeyObject where
  bits : Int
  n : Option Int
  nSquared : Option Int
  g : Option Int
  deriving DecidableEq, Repr

/-- A `PaillierCipherText` object out of a stream. -/
structure CipherTextObject where
  text : Option Int
  publicKey : Option PublicKeyObject
  deriving DecidableEq, Repr

def PaillierPublicKey.toObject (pk : PaillierPublicKey) : PublicKeyObject :=
  ⟨pk.bits, some pk.n, some pk.nSquared, some pk.g⟩

def PaillierCipherText.toObject (c : PaillierCipherText) : CipherTextObject :=
  ⟨some c.text, some c.publicKey.toObject⟩

/-- Reading through a reference. -/
def deref {α : Type} : Option α → Except Throwable α
  | some a => .ok a
  | none => .error .nullPointer

/-- `getEmptyCipherText` of a key out of a stream. -/
def PublicKeyObject.getEmptyCipherText (pk : PublicKeyObject) : CipherTextObject :=
  ⟨some 1, some pk⟩

/-- `hAdd` of ciphertexts out of a stream. -/
def CipherTextObject.hAdd (c toAdd : CipherTextObject) : Except Throwable CipherTextObject := do
  let text ← deref c.text
  let other ← deref toAdd.text
  let publicKey ← deref c.publicKey
  let nSquared ← deref publicKey.nSquared
  let sum ← BigInteger.mod (text * other) nSquared
  return ⟨some sum, some publicKey⟩

/-- What `readObject` can return. -/
inductive JObject where
  | null
  | publicKey (pk : PublicKeyObject)
  /-- A `PaillierCipherText[]`; its elements are references. -/
  | cipherTexts (cs : List (Option CipherTextObject))
  /-- An object of another serializable class. -/
  | other (className : JString)
  deriving DecidableEq, Repr

/-- How `readObject`, or the stream's constructor, fails. -/
inductive ReadFailure where
  | ioException
  | classNotFoundException
  deriving DecidableEq, Repr

/-- How `writeObject` fails. -/
inductive WriteFailure where
  | notSerializableException
  deriving DecidableEq, Repr

def ReadFailure.thrown : ReadFailure → Throwable
  | ioException => .io
  | classNotFoundException => .classNotFound

/-- `STREAM_MAGIC` and `STREAM_VERSION`, the first bytes of every object stream. -/
def streamHeader : ByteString := [0xAC, 0xED, 0x00, 0x05]

/-- `ObjectOutputStream.writeObject` and `ObjectInputStream.readObject`. -/
structure ObjectStreams where
  writeObject : JObject → Except WriteFailure ByteString
  readObject : ByteString → Except ReadFailure JObject
  /-- An object that could be written is read back. -/
  readObject_writeObject : ∀ o bs, writeObject o = .ok bs → readObject bs = .ok o
  /-- Only streams written by `ObjectOutputStream` are read. -/
  header_of_readObject : ∀ bs o, readObject bs = .ok o → streamHeader <+: bs

namespace ObjectStreams

variable (streams : ObjectStreams)

/-- The constructor of `ObjectInputStream` meets the end of an empty input. -/
theorem readObject_nil : ∃ e, streams.readObject [] = .error e := by
  cases h : streams.readObject [] with
  | error e => exact ⟨e, rfl⟩
  | ok o =>
      have := streams.header_of_readObject _ _ h
      simp [streamHeader] at this

/-- `Base64.getDecoder().decode(text)` and then `readObject()`. -/
def readBase64 (text : JString) : Except Throwable JObject :=
  match Base64.decode text with
  | none => .error .illegalArgument
  | some raw =>
      match streams.readObject raw with
      | .error e => .error e.thrown
      | .ok o => .ok o

/-- `(PaillierCipherText[]) in.readObject()`; the cast lets null pass. -/
def readCipherTexts (text : JString) : Except Throwable (Option (List (Option CipherTextObject))) :=
  match streams.readBase64 text with
  | .error e => .error e
  | .ok .null => .ok none
  | .ok (.cipherTexts cs) => .ok (some cs)
  | .ok _ => .error .classCast

/-- `(PaillierPublicKey) in.readObject()`. -/
def readPublicKey (text : JString) : Except Throwable (Option PublicKeyObject) :=
  match streams.readBase64 text with
  | .error e => .error e
  | .ok .null => .ok none
  | .ok (.publicKey pk) => .ok (some pk)
  | .ok _ => .error .classCast

/-- `writeObject` and then `Base64.getEncoder().encodeToString(…)`. -/
def writeBase64 (o : JObject) : Except WriteFailure JString :=
  (streams.writeObject o).map Base64.encode

/-! ### Reading what was written -/

theorem readBase64_of_writeBase64 {o : JObject} {text : JString}
    (h : streams.writeBase64 o = .ok text) : streams.readBase64 text = .ok o := by
  unfold writeBase64 at h
  cases hw : streams.writeObject o with
  | error e => simp [hw, Except.map] at h
  | ok bs =>
      rw [hw, Except.map, Except.ok.injEq] at h
      rw [← h, readBase64, Base64.decode_encode]
      simp [streams.readObject_writeObject o bs hw]

/-- Text that is read as an object is not empty and contains no separator. -/
theorem text_of_readBase64 {text : JString} {o : JObject}
    (h : streams.readBase64 text = .ok o) : text ≠ [] ∧ ',' ∉ text ∧ '|' ∉ text := by
  unfold readBase64 at h
  cases hd : Base64.decode text with
  | none => simp [hd] at h
  | some raw =>
      refine ⟨?_, Base64.not_mem_of_decode hd Base64.not_isText_comma,
        Base64.not_mem_of_decode hd Base64.not_isText_bar⟩
      rintro rfl
      rw [Base64.decode_nil, Option.some.injEq] at hd
      subst hd
      obtain ⟨e, he⟩ := streams.readObject_nil
      rw [Base64.decode_nil] at h
      simp [he] at h

/-- The empty text is refused with an exception the handler catches. -/
theorem readBase64_nil : ∃ e : ReadFailure, streams.readBase64 [] = .error e.thrown := by
  obtain ⟨e, he⟩ := streams.readObject_nil
  exact ⟨e, by rw [readBase64, Base64.decode_nil]; simp [he]⟩

end ObjectStreams

end Evoting
