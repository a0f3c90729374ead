/-
The clients of the election family, as far as their transactions reach the handler.

`ElectionImp` sends a comma-separated payload and declares an address out of
`BlockchainEncoder`; `elect_client` computes an address of its own.  The address a
client declares is the transaction's input and output, so it is what the
validator lets the handler read and write.

`elect_client` does not hash the bytes of a name but the text of the
`ByteBuffer` that holds them, which shows the buffer's limit and capacity; how
much room the encoder of the platform allocates is a parameter.
-/
import Evoting.Model.Handler

namespace Evoting

/-- A transaction as a client builds it: the request, and the address declared as its
input and output. -/
structure ClientTransaction where
  request : TpProcessRequest
  address : Address

/-! ### `BlockchainEncoder` -/

namespace BlockchainEncoder

variable (platform : Platform)

/-- `prefixAddress`. -/
def prefixAddress (start : JString) : JString :=
  (hash512 platform (platform.utf8.copyFromUtf8 start)).take 6

/-- `keyAddress`: the last 64 digits. -/
def keyAddress (key : JString) : JString :=
  let hashedName := hash512 platform (platform.utf8.copyFromUtf8 key)
  hashedName.drop (hashedName.length - 64)

/-- `getBlockchainAddressFromKey`. -/
def getBlockchainAddressFromKey (start key : JString) : Address :=
  prefixAddress platform start ++ keyAddress platform key

end BlockchainEncoder

/-! ### `ElectionImp` -/

/-- `PaillierPublicKey.toHex`. -/
def PaillierPublicKey.toHex (platform : Platform) (pk : PaillierPublicKey) : JString :=
  printHexBinary (platform.utf8.copyFromUtf8 pk.toText)

namespace ElectionImp

variable (platform : Platform)

/-- The payload of `create`, for its arguments `args[0]` and `args[1]` and the key in the
file `args[2]`. -/
def createPayload (action name : JString) (pk : PaillierPublicKey) : JString :=
  let pubKey := Base64.encode (platform.utf8.copyFromUtf8 pk.toText)
  name ++ ",".toList ++ action ++ ",".toList ++ pubKey

/-- The payload of `vote`. -/
def votePayload (action name : JString) (pk : PaillierPublicKey) : JString :=
  name ++ ",".toList ++ action ++ ",".toList ++ pk.toText

/-- What both methods send of a payload. -/
def transaction (payload name : JString) (pk : PaillierPublicKey) : ClientTransaction where
  request := ⟨platform.utf8.copyFromUtf8 payload, pk.toHex platform⟩
  address := BlockchainEncoder.getBlockchainAddressFromKey platform "election".toList name

/-- `ElectionImp.create`. -/
def create (action name : JString) (pk : PaillierPublicKey) : ClientTransaction :=
  transaction platform (createPayload platform action name pk) name pk

/-- `ElectionImp.vote`. -/
def vote (action name : JString) (pk : PaillierPublicKey) : ClientTransaction :=
  transaction platform (votePayload action name pk) name pk

end ElectionImp

/-! ### `elect_client` -/

namespace ElectClient

variable (platform : Platform) (capacity : JString → Nat)

/-- `encodeInUTF`: the text of the buffer that holds the encoded string. -/
def encodeInUTF (rawString : JString) : JString :=
  "java.nio.HeapByteBuffer[pos=0 lim=".toList
    ++ BigInteger.toText (platform.utf8.copyFromUtf8 rawString).length
    ++ " cap=".toList ++ BigInteger.toText (capacity rawString) ++ "]".toList

/-- `hashInSha512`: the digits of the digest without leading zeros, then filled up to 32. -/
def hashInSha512 (rawString : JString) : JString :=
  let messageDigest := (platform.sha512 (platform.utf8.copyFromUtf8 rawString)).bytes
  (Nat.toDigits 16 (BigInteger.unsignedValue messageDigest)).leftpad 32 '0'

/-- `_get_prefix`. -/
def getPrefix : JString :=
  hashInSha512 platform (encodeInUTF platform capacity "election".toList)

/-- `_get_address`. -/
def getAddress (name : JString) : Except Throwable Address := do
  let elect_address ← substring (hashInSha512 platform (encodeInUTF platform capacity name)) 0 64
  return getPrefix platform capacity ++ elect_address

end ElectClient

end Evoting
