/-
The Paillier classes: keys, ciphertexts, encryption and decryption.

A random draw is an argument.  `encrypt` takes the draws of
`new BigInteger(bits, new Random())` in the order in which its rejection loop
makes them, and keeps the first one below `n`; `generateKeyPair` takes its two
primes and the draws of its generator loop.
-/
import Evoting.Java.BigInteger

namespace Evoting

/-- `PaillierPublicKey`, as its constructor builds it. -/
structure PaillierPublicKey where
  bits : Int
  n : Int
  nSquared : Int
  g : Int
  deriving DecidableEq, Repr

/-- `PaillierPrivateKey`. -/
structure PaillierPrivateKey where
  lambda : Int
  preCalculatedDenominator : Int
  deriving DecidableEq, Repr

/-- `KeyPair`; the upper bound may be null. -/
structure KeyPair where
  privateKey : PaillierPrivateKey
  publicKey : PaillierPublicKey
  upperBound : Option Int
  deriving DecidableEq, Repr

/-- `PaillierCipherText`, as its constructor builds it. -/
structure PaillierCipherText where
  text : Int
  publicKey : PaillierPublicKey
  deriving DecidableEq, Repr

namespace PaillierPublicKey

/-- The draw the loop `do { r = … } while (r.compareTo(n) >= 0)` leaves with. -/
def acceptedDraw (n : Int) (draws : List Int) : Option Int :=
  draws.find? (· < n)

/-- What `encrypt` computes from the draw it has accepted. -/
def encryptWith (pk : PaillierPublicKey) (m r : Int) : Except Throwable Int := do
  let result ← BigInteger.modPow pk.g m pk.nSquared
  let x ← BigInteger.modPow r pk.n pk.nSquared
  BigInteger.mod (result * x) pk.nSquared

/-- `encrypt`; nothing when the loop has not left with any of the draws. -/
def encrypt (pk : PaillierPublicKey) (m : Int) (draws : List Int) :
    Option (Except Throwable Int) :=
  (acceptedDraw pk.n draws).map (pk.encryptWith m)

/-- `encrypt(PaillierPublicKey, BigInteger)`, the static method. -/
def encryptUnder (pk : PaillierPublicKey) (m : Int) (draws : List Int) :
    Option (Except Throwable Int) :=
  (acceptedDraw pk.n draws).map (pk.encryptWith m)

/-- `encryptToCipherText`. -/
def encryptToCipherText (pk : PaillierPublicKey) (m : Int) (draws : List Int) :
    Option (Except Throwable PaillierCipherText) :=
  (pk.encrypt m draws).map fun result => result.map fun c => ⟨c, pk⟩

/-- `getEmptyCipherText`. -/
def getEmptyCipherText (pk : PaillierPublicKey) : PaillierCipherText := ⟨1, pk⟩

/-- `PaillierPublicKey.toString`. -/
def toText (pk : PaillierPublicKey) : JString :=
  BigInteger.toText pk.bits ++ ";".toList ++ BigInteger.toText pk.n ++ ";".toList
    ++ BigInteger.toText pk.nSquared ++ ";".toList ++ BigInteger.toText pk.g

end PaillierPublicKey

/-- `PaillierCipherText.hAdd`. -/
def PaillierCipherText.hAdd (c toAdd : PaillierCipherText) :
    Except Throwable PaillierCipherText := do
  let text ← BigInteger.mod (c.text * toAdd.text) c.publicKey.nSquared
  return ⟨text, c.publicKey⟩

namespace KeyPair

/-- `KeyPair.decrypt(BigInteger)`. -/
def decrypt (k : KeyPair) (c : Int) : Except Throwable Int := do
  let power ← BigInteger.modPow c k.privateKey.lambda k.publicKey.nSquared
  let quotient ← BigInteger.divide (power - 1) k.publicKey.n
  let p ← BigInteger.mod (quotient * k.privateKey.preCalculatedDenominator) k.publicKey.n
  match k.upperBound with
  | none => return p
  | some upperBound => return if p > upperBound then p - k.publicKey.n else p

/-- `KeyPair.decrypt(PaillierCipherText)`. -/
def decryptCipherText (k : KeyPair) (t : PaillierCipherText) : Except Throwable Int :=
  k.decrypt t.text

end KeyPair

namespace KeyPairBuilder

/-- `calculateL`. -/
def calculateL (u n : Int) : Except Throwable Int :=
  BigInteger.divide (u - 1) n

/-- `lcm`. -/
def lcm (a b : Int) : Except Throwable Int := do
  let result ← BigInteger.divide a.natAbs (Int.gcd a b)
  return result * b.natAbs

/-- The loop over `g = new BigInteger(bits, rng)`: the first draw whose `helper` has no
factor in common with `n`, with that `helper`. -/
def acceptedGenerator (lambda n nSquared : Int) :
    List Int → Except Throwable (Option (Int × Int))
  | [] => .ok none
  | g :: draws => do
      let power ← BigInteger.modPow g lambda nSquared
      let helper ← calculateL power n
      if Int.gcd helper n = 1 then return some (g, helper)
      else acceptedGenerator lambda n nSquared draws

/-- `generateKeyPair` for the primes it has drawn; nothing when the loop has not left with
any of the draws. -/
def generateKeyPair (bits : Int) (upperBound : Option Int) (p q : Int) (draws : List Int) :
    Except Throwable (Option KeyPair) := do
  let n := p * q
  let nSquared := n * n
  let lambda ← lcm (p - 1) (q - 1)
  match ← acceptedGenerator lambda n nSquared draws with
  | none => return none
  | some (g, helper) =>
      let preCalculatedDenominator ← BigInteger.modInverse helper n
      return some ⟨⟨lambda, preCalculatedDenominator⟩, ⟨bits, n, nSquared, g⟩, upperBound⟩

end KeyPairBuilder

end Evoting
