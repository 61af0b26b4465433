import Mathlib.Data.Vector.Defs
import KdxHotline.Foundations.Fallible

/-!
# Stored login credentials

What the server keeps for an account instead of its password: the salt and the
cost parameters the client derives with, and the two keys a login is checked
against. A credential that comes over the wire is stored only if
`KdxHotline.Crypto.StoredCredential.checkAcceptable` passes it, and it is stored
as the text `KdxHotline.Crypto.StoredCredential.encode` writes.
-/

namespace KdxHotline

namespace Crypto

open Foundations

/-! ### Cost parameters -/

/-- The least memory, in KiB. -/
def minMCost : ℕ := 19456
/-- The most memory, in KiB. -/
def maxMCost : ℕ := 262144
/-- The fewest passes. -/
def minTCost : ℕ := 2
/-- The most passes. -/
def maxTCost : ℕ := 10
/-- The fewest lanes. -/
def minPCost : ℕ := 1
/-- The most lanes. -/
def maxPCost : ℕ := 4
/-- The shortest salt. -/
def minSaltLen : ℕ := 16
/-- The longest salt. -/
def maxSaltLen : ℕ := 64

/-- Why a credential was refused, or shares of a secret. -/
inductive CryptoError
  | unacceptableKdf (what : String)
  | shamirParams (what : String)
  | shamirThreshold (required : UInt8) (got : ℕ)
  | shamirLengthMismatch
  deriving DecidableEq, Repr

/-- The text of a refusal. -/
def CryptoError.toString : CryptoError → String
  | unacceptableKdf what => "unacceptable KDF parameters: " ++ what
  | shamirParams what => "shamir: invalid parameters: " ++ what
  | shamirThreshold required got =>
    "shamir: need at least " ++ required.toNat.repr ++ " shares to reconstruct, got " ++ got.repr
  | shamirLengthMismatch => "shamir: share payload lengths differ"

/-- Argon2id cost parameters. -/
structure KdfParams where
  mCost : ℕ
  tCost : ℕ
  pCost : ℕ
  deriving DecidableEq, Repr

/-- Whether `value` is outside the inclusive range from `low` to `high`. -/
def outside (low high value : ℕ) : Bool := decide (value < low) || decide (high < value)

/-- The parameters and the salt length against the bounds a client accepts. -/
def KdfParams.checkBounds (p : KdfParams) (saltLen : ℕ) : Except CryptoError Unit := do
  refuseIf (outside minMCost maxMCost p.mCost) (.unacceptableKdf "memory cost out of range")
  refuseIf (outside minTCost maxTCost p.tCost) (.unacceptableKdf "time cost out of range")
  refuseIf (outside minPCost maxPCost p.pCost) (.unacceptableKdf "parallelism out of range")
  refuseIf (outside minSaltLen maxSaltLen saltLen) (.unacceptableKdf "salt length out of range")

/-! ### Credentials -/

/-- What the server stores for an account. -/
structure StoredCredential where
  salt : List UInt8
  params : KdfParams
  storedKey : Vector UInt8 32
  serverKey : Vector UInt8 32
  deriving DecidableEq, Repr

/-- Whether a credential that came from a client is fit to store. -/
def StoredCredential.checkAcceptable (c : StoredCredential) : Except CryptoError Unit := do
  c.params.checkBounds c.salt.length
  refuseIf (decide (c.storedKey = Vector.replicate 32 0) ||
    decide (c.serverKey = Vector.replicate 32 0)) (.unacceptableKdf "credential key is all zeros")

/-- One lowercase hexadecimal digit. -/
def hexDigit (n : ℕ) : Char :=
  if n < 10 then Char.ofNat ('0'.toNat + n) else Char.ofNat ('a'.toNat + (n - 10))

/-- Lowercase hexadecimal, two digits a byte. -/
def toHex (bytes : List UInt8) : String :=
  String.ofList (bytes.flatMap fun b => [hexDigit (b.toNat / 16), hexDigit (b.toNat % 16)])

/-- The text a credential is stored as. -/
def StoredCredential.encode (c : StoredCredential) : String :=
  "$kdx-scram-sha256$v=1$m=" ++ c.params.mCost.repr ++ ",t=" ++ c.params.tCost.repr ++ ",p=" ++
    c.params.pCost.repr ++ "$" ++ toHex c.salt ++ "$" ++ toHex c.storedKey.toList ++ "$" ++
    toHex c.serverKey.toList

end Crypto

end KdxHotline
