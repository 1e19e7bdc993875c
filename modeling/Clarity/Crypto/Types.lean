import Clarity.Common.Wire

/-!
Contract: the fixed-size byte types of `Crypto/Types.h` and the primitives the chain
is built over.

Owns: hashes, keys, addresses and signatures as little-endian bit vectors, their byte
encodings, and `Primitives`, the hash and the signature check as parameters.

The hash function and the signature scheme are never unfolded: a theorem that needs
them to be unforgeable or free of collisions says so, about the inputs it uses.
-/

namespace Clarity.Crypto

open Common

/-- A 32-byte array; byte `i` holds bits `8 i` to `8 i + 7`. -/
abbrev Hash := BitVec 256
abbrev PublicKey := BitVec 256
abbrev Address := PublicKey
abbrev Signature := BitVec 512

def isNull {width : Nat} (bytes : BitVec width) : Bool := bytes == 0

def bytes32 (value : BitVec 256) : Bytes := putUInt 32 value.toNat

def bytes64 (value : BitVec 512) : Bytes := putUInt 64 value.toNat

def readBytes32 : Reader (BitVec 256) := do
  let value ← Reader.readUInt 32
  pure (BitVec.ofNat 256 value)

def readBytes64 : Reader (BitVec 512) := do
  let value ← Reader.readUInt 64
  pure (BitVec.ofNat 512 value)

/-- The cryptographic primitives the program calls. -/
structure Primitives where
  blake2b : Bytes → Hash
  verify : Hash → PublicKey → Signature → Bool

/-- `hashDomain`: the hash of a domain tag followed by the data. -/
def Primitives.hashDomain (crypto : Primitives) (domain data : Bytes) : Hash :=
  crypto.blake2b (domain ++ data)

@[simp] theorem bytes32_length (value : BitVec 256) : (bytes32 value).length = 32 :=
  putUInt_length 32 value.toNat

@[simp] theorem bytes64_length (value : BitVec 512) : (bytes64 value).length = 64 :=
  putUInt_length 64 value.toNat

theorem bytes32_injective {left right : BitVec 256} (same : bytes32 left = bytes32 right) :
    left = right := by
  apply BitVec.eq_of_toNat_eq
  exact putUInt_injective (by have := left.isLt; omega) (by have := right.isLt; omega) same

theorem bytes64_injective {left right : BitVec 512} (same : bytes64 left = bytes64 right) :
    left = right := by
  apply BitVec.eq_of_toNat_eq
  exact putUInt_injective (by have := left.isLt; omega) (by have := right.isLt; omega) same

@[simp] theorem readBytes32_append (value : BitVec 256) (rest : Bytes) :
    readBytes32 (bytes32 value ++ rest) = some (value, rest) := by
  have fits : value.toNat % 256 ^ 32 = value.toNat := Nat.mod_eq_of_lt (by have := value.isLt; omega)
  refine (Reader.bind_of_read (Reader.readUInt_append 32 value.toNat rest) _).trans ?_
  rw [fits, BitVec.ofNat_toNat, BitVec.setWidth_eq]
  rfl

@[simp] theorem readBytes64_append (value : BitVec 512) (rest : Bytes) :
    readBytes64 (bytes64 value ++ rest) = some (value, rest) := by
  have fits : value.toNat % 256 ^ 64 = value.toNat := Nat.mod_eq_of_lt (by have := value.isLt; omega)
  refine (Reader.bind_of_read (Reader.readUInt_append 64 value.toNat rest) _).trans ?_
  rw [fits, BitVec.ofNat_toNat, BitVec.setWidth_eq]
  rfl

/-- A signature over a block hash by the validator at one position of the active set. -/
structure ValidatorSignature where
  signerIndex : Nat
  signature : Signature
deriving DecidableEq, Repr

end Clarity.Crypto
