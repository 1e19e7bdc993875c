import Clarity.Config
import Clarity.Crypto.Types
import Clarity.Library.Outcome
import Clarity.Library.PackedBits
import Mathlib.Data.Set.Function

/-!
Contract: the wallet's seed, `Wallet/Bip39.cpp`, `Wallet/Slip10.cpp` and
`SeedMaterial::fromMnemonic`.

Owns: the words of a mnemonic and their check; the seed and the master node that a mnemonic gives;
and that the bytes of the mnemonic count, not its words.

The list of words and the hash functions are parameters.
-/

namespace Clarity.Wallet

open Common Crypto Library

structure WalletPrimitives where
  english : List Bytes
  sha256 : Bytes → Bytes
  hmacSha512 : Bytes → Bytes → BitVec 512
  derivePublicKey : BitVec 256 → PublicKey
  blake2b160 : Bytes → Bytes

inductive WalletError
  | ok
  | invalidMnemonic
  | invalidWordCount
  | invalidWord
  | invalidChecksum
  | derivationFailed
deriving DecidableEq

def isSpace (byte : UInt8) : Bool := byte == 32 || (9 ≤ byte && byte ≤ 13)

/-- The words between runs of white space. -/
def splitWords (text : Bytes) : List Bytes := (text.splitOnP isSpace).filter (· ≠ [])

def entropyBytesForWordCount : Nat → Nat
  | 12 => 16
  | 15 => 20
  | 18 => 24
  | 21 => 28
  | 24 => 32
  | _ => 0

section

variable (crypto : WalletPrimitives)

def wordIndex (word : Bytes) : Option Nat := crypto.english.findIdx? (· == word)

/-- Eleven bits a word: the entropy, and behind it the first bits of its hash. The words are counted
in 32 bits, and those behind the count are not read. -/
def mnemonicToEntropy (mnemonic : Bytes) : Option Bytes := do
  let words := splitWords mnemonic
  let wordCount := u32 words.length
  let entropyLen := entropyBytesForWordCount wordCount
  guard (entropyLen ≠ 0)
  let indices ← (words.take wordCount).mapM (wordIndex crypto)
  let bits := indices.flatMap fun index => (List.range 11).map fun bit => index.testBit (10 - bit)
  let entropy := PackedBits.pack (bits.take (entropyLen * 8))
  guard (bits.drop (entropyLen * 8) =
    (List.range (entropyLen / 4)).map (PackedBits.packed (crypto.sha256 entropy)))
  pure entropy

def validateMnemonic (mnemonic : Bytes) : WalletError :=
  let words := splitWords mnemonic
  if words.isEmpty then .invalidMnemonic
  else if entropyBytesForWordCount (u32 words.length) = 0 then .invalidWordCount
  else if words.any fun word => (wordIndex crypto word).isNone then .invalidWord
  else if (mnemonicToEntropy crypto mnemonic).isNone then .invalidChecksum
  else .ok

/-- `pbkdf2HmacSha512` for one block of 64 bytes, with 2048 rounds and the salt of the standard. -/
def mnemonicToSeed (mnemonic passphrase : Bytes) : BitVec 512 :=
  let first := crypto.hmacSha512 mnemonic
    (putText "mnemonic".toList ++ passphrase ++ [0, 0, 0, 1])
  ((List.range 2047).foldl (fun (last, sum) _ =>
    let next := crypto.hmacSha512 mnemonic (bytes64 last)
    (next, sum ^^^ next)) (first, first)).2

structure Slip10Node where
  secret : BitVec 256
  chainCode : BitVec 256
  depth : Nat := 0
  childNumber : Nat := 0
deriving DecidableEq

def slip10Master (seed : Bytes) : Option Slip10Node :=
  if seed.length < 16 ∨ 64 < seed.length then none
  else
    let digest := crypto.hmacSha512 (putText "ed25519 seed".toList) seed
    some { secret := digest.extractLsb' 0 256, chainCode := digest.extractLsb' 256 256 }

structure SeedMaterial where
  seed : BitVec 512
  master : Slip10Node
  fingerprint : Bytes
deriving DecidableEq

def fingerprintForMaster (master : Slip10Node) : Bytes :=
  (crypto.blake2b160 (bytes32 (crypto.derivePublicKey master.secret))).take 4

def fromMnemonic (mnemonic passphrase : Bytes) : Except WalletError SeedMaterial :=
  let checked := validateMnemonic crypto mnemonic
  if checked ≠ .ok then .error checked
  else
    let seed := mnemonicToSeed crypto mnemonic passphrase
    match slip10Master crypto (bytes64 seed) with
    | none => .error .derivationFailed
    | some master => .ok { seed, master, fingerprint := fingerprintForMaster crypto master }

variable {crypto}

theorem slip10Master_bytes64 (seed : BitVec 512) :
    ∃ master, slip10Master crypto (bytes64 seed) = some master := by
  unfold slip10Master
  rw [if_neg (by rw [bytes64_length]; decide)]
  exact ⟨_, rfl⟩

/-- An accepted mnemonic has a seed. -/
theorem fromMnemonic_seed {mnemonic : Bytes} (accepted : validateMnemonic crypto mnemonic = .ok)
    (passphrase : Bytes) : ∃ master fingerprint, fromMnemonic crypto mnemonic passphrase =
      .ok ⟨mnemonicToSeed crypto mnemonic passphrase, master, fingerprint⟩ := by
  obtain ⟨master, isMaster⟩ := slip10Master_bytes64 (mnemonicToSeed crypto mnemonic passphrase)
  refine ⟨master, fingerprintForMaster crypto master, ?_⟩
  unfold fromMnemonic
  dsimp only
  rw [accepted, if_neg (not_not.mpr rfl), isMaster]

/-! ## White space -/

/-- White space between the words is not part of them, whichever it is. -/
theorem splitWords_space (front back : Bytes) {space other : UInt8} (isWhite : isSpace space = true)
    (otherWhite : isSpace other = true) :
    splitWords (front ++ other :: back) = splitWords (front ++ space :: back) := by
  unfold splitWords
  rw [List.splitOnP_append_cons _ _ isWhite, List.splitOnP_append_cons _ _ otherWhite]

/-- The check of a mnemonic sees its words only. -/
theorem validateMnemonic_congr {left right : Bytes} (same : splitWords left = splitWords right) :
    validateMnemonic crypto left = validateMnemonic crypto right := by
  unfold validateMnemonic mnemonicToEntropy
  rw [same]

/-- An accepted mnemonic has several words, so white space between them. -/
theorem exists_space {mnemonic : Bytes} (accepted : validateMnemonic crypto mnemonic = .ok) :
    ∃ space ∈ mnemonic, isSpace space = true := by
  by_contra none
  have single : mnemonic.splitOnP isSpace = [mnemonic] := List.splitOnP_eq_singleton
    fun byte member => Bool.eq_false_iff.mpr fun white => none ⟨byte, member, white⟩
  unfold validateMnemonic splitWords at accepted
  rw [single] at accepted
  by_cases empty : mnemonic = []
  · simp [empty] at accepted
  · simp [empty, entropyBytesForWordCount, u32] at accepted

/-- Another string of the same words, of the same length. -/
theorem exists_same_words {mnemonic : Bytes} (accepted : validateMnemonic crypto mnemonic = .ok) :
    ∃ other, other ≠ mnemonic ∧ other.length = mnemonic.length ∧
      splitWords other = splitWords mnemonic := by
  obtain ⟨space, member, white⟩ := exists_space accepted
  obtain ⟨front, back, rfl⟩ := List.append_of_mem member
  obtain ⟨other, different, otherWhite⟩ : ∃ other ≠ space, isSpace other = true := by
    by_cases isBlank : space = 32
    · exact ⟨9, by rw [isBlank]; decide, by decide⟩
    · exact ⟨32, Ne.symm isBlank, by decide⟩
  refine ⟨front ++ other :: back, ?_, by simp, splitWords_space front back white otherWhite⟩
  intro same
  exact different (List.cons.inj (List.append_cancel_left same)).1

/-- The accepted strings of up to `limit` bytes. -/
def acceptedWithin (crypto : WalletPrimitives) (limit : Nat) : Set Bytes :=
  { mnemonic | validateMnemonic crypto mnemonic = .ok ∧ mnemonic.length ≤ limit }

/-- **Two accepted mnemonics of the same words have the same seed and keys exactly when their white
space is the same too**, and every one has the words of another one with other keys. The key
derivation is taken to tell accepted strings of up to `limit` bytes apart. -/
theorem fromMnemonic_eq_iff {passphrase left right : Bytes} {limit : Nat}
    (apart : Set.InjOn (mnemonicToSeed crypto · passphrase) (acceptedWithin crypto limit))
    (accepted : left ∈ acceptedWithin crypto limit) (fits : right.length ≤ limit)
    (same : splitWords left = splitWords right) :
    (fromMnemonic crypto left passphrase = fromMnemonic crypto right passphrase ↔ left = right) ∧
      ∃ other ∈ acceptedWithin crypto limit, splitWords other = splitWords left ∧
        fromMnemonic crypto left passphrase ≠ fromMnemonic crypto other passphrase := by
  have keysApart {other : Bytes} (otherFits : other.length ≤ limit)
      (words : splitWords left = splitWords other)
      (sameKeys : fromMnemonic crypto left passphrase = fromMnemonic crypto other passphrase) :
      left = other := by
    have otherOk := (validateMnemonic_congr words).symm.trans accepted.1
    obtain ⟨_, _, isLeft⟩ := fromMnemonic_seed accepted.1 passphrase
    obtain ⟨_, _, isOther⟩ := fromMnemonic_seed otherOk passphrase
    rw [isLeft, isOther] at sameKeys
    exact apart accepted ⟨otherOk, otherFits⟩ (SeedMaterial.mk.inj (Except.ok.inj sameKeys)).1
  obtain ⟨other, different, length, words⟩ := exists_same_words accepted.1
  have otherFits : other.length ≤ limit := length ▸ accepted.2
  refine ⟨⟨keysApart fits same, fun isSame => by rw [isSame]⟩, other,
    ⟨(validateMnemonic_congr words).trans accepted.1, otherFits⟩, words, fun sameKeys => ?_⟩
  exact different (keysApart otherFits words.symm sameKeys).symm

end

namespace Sample

/-- A list of words, the hash of sixteen zeros, and a keyed hash that tells keys of up to 63 bytes
apart. -/
def crypto (words : List String) : WalletPrimitives where
  english := words.map fun word => putText word.toList
  sha256 := fun _ => [0x37, 0x47, 0x08, 0xff]
  hmacSha512 := fun key data => if data.length = 64 then 0 else BitVec.ofNat 512 (getUInt (key ++ [1]))
  derivePublicKey := fun _ => 0
  blake2b160 := fun _ => []

/-- The first words of the list. -/
def english : WalletPrimitives := crypto ["abandon", "ability", "able", "about"]

/-- The mnemonic of sixteen zeros, with some spaces before it. -/
def zeros (spaces : Nat) : Bytes :=
  List.replicate spaces 32 ++
    (List.replicate 11 (putText "abandon ".toList)).flatten ++ putText "about".toList

theorem mnemonicToSeed_eq (words : List String) (mnemonic : Bytes) :
    mnemonicToSeed (crypto words) mnemonic [] = BitVec.ofNat 512 (getUInt (mnemonic ++ [1])) := by
  have start : (crypto words).hmacSha512 mnemonic
      (putText "mnemonic".toList ++ [] ++ [0, 0, 0, 1]) =
        BitVec.ofNat 512 (getUInt (mnemonic ++ [1])) :=
    rfl
  unfold mnemonicToSeed
  rw [start]
  -- every later round gives zero
  refine @foldl_keeps _ _ (fun sums : BitVec 512 × BitVec 512 =>
    sums.2 = BitVec.ofNat 512 (getUInt (mnemonic ++ [1]))) _ (List.range 2047) ?_ _ rfl
  intro _ _ sums isSum
  simp only [crypto, bytes64_length, if_true]
  exact BitVec.xor_zero.trans isSum

theorem leading_space_other_seed :
    validateMnemonic english (zeros 0) = .ok ∧ validateMnemonic english (zeros 1) = .ok ∧
      splitWords (zeros 0) = splitWords (zeros 1) ∧
      mnemonicToSeed english (zeros 0) [] ≠ mnemonicToSeed english (zeros 1) [] := by
  refine ⟨by decide +kernel, by decide +kernel, by decide +kernel, ?_⟩
  rw [english, mnemonicToSeed_eq, mnemonicToSeed_eq]
  decide +kernel

/-- Short words, so that the keyed hash tells their strings apart. -/
def letters : WalletPrimitives := crypto ["a", "b", "c", "d"]

theorem getUInt_marked (bytes : Bytes) :
    getUInt (bytes ++ [1]) = getUInt bytes + 256 ^ bytes.length := by
  induction bytes with
  | nil => rfl
  | cons byte rest ih =>
    rw [List.cons_append, getUInt, getUInt, ih, List.length_cons, Nat.pow_succ]
    ring

/-- The mark behind a string tells its length, and its bytes the rest. -/
theorem letters_apart :
    Set.InjOn (mnemonicToSeed letters · []) (acceptedWithin letters 63) := by
  rintro left ⟨_, leftFits⟩ right ⟨_, rightFits⟩ same
  dsimp only at same
  rw [letters, mnemonicToSeed_eq, mnemonicToSeed_eq] at same
  have fits {bytes : Bytes} (short : bytes.length ≤ 63) : getUInt (bytes ++ [1]) < 2 ^ 512 := by
    calc getUInt (bytes ++ [1]) < 256 ^ (bytes ++ [1]).length := getUInt_lt _
      _ = 2 ^ (8 * (bytes.length + 1)) := by
        rw [List.length_append, List.length_singleton, Nat.pow_mul]
      _ ≤ 2 ^ 512 := Nat.pow_le_pow_right (by decide) (by omega)
  have sameNat := congrArg BitVec.toNat same
  rw [BitVec.toNat_ofNat, BitVec.toNat_ofNat, Nat.mod_eq_of_lt (fits leftFits),
    Nat.mod_eq_of_lt (fits rightFits), getUInt_marked, getUInt_marked] at sameNat
  have lengths : left.length = right.length := by
    have shorter {some other : Bytes} (less : some.length < other.length) :
        getUInt some + 256 ^ some.length < getUInt other + 256 ^ other.length := by
      have bound := getUInt_lt some
      have power : 256 ^ (some.length + 1) ≤ 256 ^ other.length :=
        Nat.pow_le_pow_right (by decide) less
      rw [Nat.pow_succ] at power
      omega
    rcases Nat.lt_trichotomy left.length right.length with less | isSame | more
    · exact absurd sameNat (Nat.ne_of_lt (shorter less))
    · exact isSame
    · exact absurd sameNat.symm (Nat.ne_of_lt (shorter more))
  rw [lengths] at sameNat
  exact getUInt_injective lengths (Nat.add_right_cancel sameNat)

/-- Twelve letters, with spaces before the first one. -/
def spelled (spaces : Nat) : Bytes :=
  List.replicate spaces 32 ++ (List.replicate 11 (putText "a ".toList)).flatten ++ putText "d".toList

theorem two_spaces_other_keys :
    splitWords (spelled 0) = splitWords (spelled 2) ∧
      fromMnemonic letters (spelled 0) [] ≠ fromMnemonic letters (spelled 2) [] := by
  have same : splitWords (spelled 0) = splitWords (spelled 2) := by decide +kernel
  have keys := (fromMnemonic_eq_iff letters_apart ⟨by decide +kernel, by decide +kernel⟩
    (by decide +kernel) same).1
  exact ⟨same, fun sameKeys => absurd (keys.mp sameKeys) (by decide +kernel)⟩

end Sample

end Clarity.Wallet
