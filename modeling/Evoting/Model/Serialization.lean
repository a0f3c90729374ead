/-
Which objects Java serialization writes.

`ObjectOutputStream.writeObject` goes through everything an object refers to, and
refuses it with a `NotSerializableException` if one of the objects it meets is of a
class that does not implement `Serializable`.  Of the classes here only
`PaillierCipherText` does not: `PaillierPublicKey` is declared to, `BigInteger` does as
a `Number`, and arrays always do.
-/
import Evoting.Model.Streams

namespace Evoting

/-- The classes of the objects that `JObject` stands for. -/
inductive JavaClass where
  /-- `java.math.BigInteger` -/
  | bigInteger
  | paillierPublicKey
  | paillierCipherText
  /-- `PaillierCipherText[]` -/
  | cipherTextArray
  | other (className : JString)
  deriving DecidableEq, Repr

/-- The class is declared to implement `Serializable`, or inherits it.  Another class comes out
of a stream, which is why it does. -/
def JavaClass.implementsSerializable : JavaClass → Bool
  | bigInteger => true
  | paillierPublicKey => true
  | paillierCipherText => false
  | cipherTextArray => true
  | other _ => true

/-- The class of a `BigInteger` field, unless it is null. -/
def integerGraph : Option Int → List JavaClass
  | none => []
  | some _ => [.bigInteger]

/-- The classes met from a key: its fields `n`, `nSquared` and `g`. -/
def PublicKeyObject.graph (pk : PublicKeyObject) : List JavaClass :=
  .paillierPublicKey :: (integerGraph pk.n ++ integerGraph pk.nSquared ++ integerGraph pk.g)

/-- The classes met from a ciphertext: its fields `text` and `publicKey`. -/
def CipherTextObject.graph (c : CipherTextObject) : List JavaClass :=
  .paillierCipherText :: (integerGraph c.text ++ (c.publicKey.map PublicKeyObject.graph).getD [])

/-- The classes of the objects met from an object. -/
def JObject.graph : JObject → List JavaClass
  | null => []
  | publicKey pk => pk.graph
  | cipherTexts cs => .cipherTextArray :: cs.flatMap fun c => (c.map CipherTextObject.graph).getD []
  | other className => [.other className]

/-- What is assumed of `writeObject`: it throws exactly when the graph has an object of a class
that does not implement `Serializable`. -/
def ThrowsNotSerializable (streams : ObjectStreams) : Prop :=
  ∀ o : JObject, streams.writeObject o = .error .notSerializableException ↔
    ∃ c ∈ o.graph, c.implementsSerializable = false

end Evoting
