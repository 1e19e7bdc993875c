import Clarity.Config
import Clarity.Crypto.Types
import Clarity.Library.PackedBits

/-!
Contract: the nodes of `State/SparseMerkleTree.cpp` as bytes and as hashes.

Owns:
- the bits of a key, most significant bit of byte 0 first;
- the leaf and branch nodes, their byte layouts and the parsers;
- the messages that are hashed for a leaf, a branch and an empty subtree, and that two of them
  are equal only when they are of one kind and carry the same fields;
- `CollisionFree`, the assumption on the hash, about the messages that are hashed and no others.
-/

namespace Clarity.State

open Common Crypto Library.PackedBits

variable {prefixLen : Nat} {prefixBits : Bytes} {key : Hash}

def KEY_BITS : Nat := 256
def MAX_PREFIX_BITS : Nat := KEY_BITS
def TAG_LEAF : UInt8 := 0x00
def TAG_BRANCH : UInt8 := 0x01
def TAG_DEFAULT : UInt8 := 0x02
def DOMAIN_LEAF : Bytes := putText ['l', 'e', 'a', 'f']
def DOMAIN_BRANCH : Bytes := putText ['b', 'r', 'c', 'h']
def DOMAIN_DEFAULT : Bytes := putText ['d', 'f', 'l', 't']

/-- `writeBE16`: a 16-bit number, most significant byte first. -/
def writeBE16 (value : Nat) : Bytes := [UInt8.ofNat (value / 256), UInt8.ofNat (value % 256)]

/-- `readBE16` of the bytes from `offset` on. -/
def readBE16 (bytes : Bytes) (offset : Nat) : Nat :=
  (bytes.getD offset 0).toNat * 256 + (bytes.getD (offset + 1) 0).toNat

/-- The 32 bytes from `offset` on. -/
def hashAt (bytes : Bytes) (offset : Nat) : Hash :=
  BitVec.ofNat 256 (getUInt ((bytes.drop offset).take 32))

/-! ## Keys as bits -/

/-- `bitAt`: bit `index` of a key, most significant bit of byte 0 first. -/
def bitAt (key : Hash) (index : Nat) : Bool := key.getLsbD (8 * (index / 8) + (7 - index % 8))

def bits (key : Hash) : List Bool := (List.range KEY_BITS).map (bitAt key)

@[simp] theorem bits_length (key : Hash) : (bits key).length = KEY_BITS := by
  simp [bits]

theorem length_of_bits {key : Hash} {path rest : List Bool} (isKey : bits key = path ++ rest) :
    KEY_BITS = path.length + rest.length := by
  rw [← bits_length key, isKey, List.length_append]

theorem bits_injective {left right : Hash} (same : bits left = bits right) : left = right := by
  apply BitVec.eq_of_getLsbD_eq
  intro place inside
  -- Within a byte the order of the bits is reversed; reversing twice changes nothing.
  have member : 8 * (place / 8) + (7 - place % 8) ∈ List.range KEY_BITS := by
    rw [List.mem_range, KEY_BITS]
    omega
  have read := List.map_inj_left.mp same _ member
  unfold bitAt at read
  have back : 8 * ((8 * (place / 8) + (7 - place % 8)) / 8) +
      (7 - (8 * (place / 8) + (7 - place % 8)) % 8) = place := by omega
  rwa [back] at read

/-- The bits of a key behind the part a walk has consumed. -/
theorem bitAt_of_bits {path rest : List Bool} (isKey : bits key = path ++ rest) {index : Nat}
    (inside : index < rest.length) : bitAt key (path.length + index) = rest.getD index false := by
  have total := length_of_bits isKey
  have below : path.length + index < KEY_BITS := by omega
  have read : (bits key)[path.length + index]? = some (bitAt key (path.length + index)) := by
    simp [bits, below]
  rw [isKey, List.getElem?_append_right (by omega), Nat.add_sub_cancel_left] at read
  rw [List.getD_eq_getElem?_getD, read]
  rfl

/-- `sharesPrefix`: the key has the bits of a branch's compressed part from `startBit` on. -/
def sharesPrefix (key : Hash) (startBit prefixLen : Nat) (prefixBits : Bytes) : Bool :=
  (List.range prefixLen).all fun index => bitAt key (startBit + index) == packed prefixBits index

/-- The key goes on with `stem` exactly when it shares the packed stem. -/
theorem sharesPrefix_pack {path rest stem : List Bool} (isKey : bits key = path ++ rest)
    (longer : stem.length ≤ rest.length) :
    sharesPrefix key path.length stem.length (pack stem) = true ↔ stem <+: rest := by
  have bitwise : sharesPrefix key path.length stem.length (pack stem) = true ↔
      ∀ index < stem.length, bitAt key (path.length + index) = packed (pack stem) index := by
    simp [sharesPrefix]
  rw [bitwise]
  constructor
  · intro shares
    rw [List.prefix_iff_eq_take]
    apply List.ext_getElem
    · rw [List.length_take, Nat.min_eq_left longer]
    · intro index inStem inRest
      have read := shares index inStem
      rw [bitAt_of_bits isKey (by omega), packed_pack] at read
      have inWhole : index < rest.length := by omega
      simpa [inStem, inWhole] using read.symm
  · rintro ⟨tail, isRest⟩ index inStem
    rw [bitAt_of_bits isKey (by omega), packed_pack, ← isRest]
    simp [List.getD_eq_getElem?_getD, List.getElem?_append_left inStem]

/-! ## Nodes -/

structure LeafNode where
  key : Hash
  valueHash : Hash
deriving DecidableEq

structure BranchNode where
  prefixLen : Nat
  prefixBits : Bytes
  left : Hash
  right : Hash
deriving DecidableEq

/-- The bytes `makeLeaf` stores. -/
def leafBytes (key valueHash : Hash) : Bytes :=
  TAG_LEAF :: (bytes32 key ++ bytes32 valueHash)

/-- The bytes `makeBranch` stores. -/
def branchBytes (prefixLen : Nat) (prefixBits : Bytes) (left right : Hash) : Bytes :=
  TAG_BRANCH :: (writeBE16 prefixLen ++
    (prefixBits.take (byteCount prefixLen) ++ (bytes32 left ++ bytes32 right)))

def parseLeaf (bytes : Bytes) : Option LeafNode :=
  if bytes.length ≠ 1 + 32 + 32 then none
  else if bytes.head? ≠ some TAG_LEAF then none
  else some { key := hashAt bytes 1, valueHash := hashAt bytes 33 }

def parseBranch (bytes : Bytes) : Option BranchNode :=
  if bytes.length < 1 + 2 + 32 + 32 then none
  else if bytes.head? ≠ some TAG_BRANCH then none
  else
    let prefixLen := readBE16 bytes 1
    if prefixLen > MAX_PREFIX_BITS then none
    else
      let prefixBytes := byteCount prefixLen
      if bytes.length ≠ 1 + 2 + prefixBytes + 32 + 32 then none
      else
        some
          { prefixLen := prefixLen
            prefixBits := (bytes.drop 3).take prefixBytes
            left := hashAt bytes (3 + prefixBytes)
            right := hashAt bytes (3 + prefixBytes + 32) }

/-- What a branch holds when its compressed part has the size its length implies. -/
structure WellSized (prefixLen : Nat) (prefixBits : Bytes) : Prop where
  bounded : prefixLen ≤ MAX_PREFIX_BITS
  sized : prefixBits.length = byteCount prefixLen

theorem hashAt_of_append {bytes front rest : Bytes} {value : Hash} {offset : Nat}
    (layout : bytes = front ++ (bytes32 value ++ rest)) (length : front.length = offset) :
    hashAt bytes offset = value := by
  have read : (bytes.drop offset).take 32 = bytes32 value := by
    rw [layout, ← length, List.drop_left, List.take_left' (bytes32_length value)]
  have fits : value.toNat % 256 ^ 32 = value.toNat :=
    Nat.mod_eq_of_lt (by have := value.isLt; omega)
  rw [hashAt, read, bytes32, getUInt_putUInt, fits, BitVec.ofNat_toNat, BitVec.setWidth_eq]

@[simp] theorem leafBytes_length (key valueHash : Hash) : (leafBytes key valueHash).length = 65 := by
  simp [leafBytes]

@[simp] theorem leafBytes_head (key valueHash : Hash) :
    (leafBytes key valueHash).head? = some TAG_LEAF := rfl

@[simp] theorem branchBytes_head (prefixLen : Nat) (prefixBits : Bytes) (left right : Hash) :
    (branchBytes prefixLen prefixBits left right).head? = some TAG_BRANCH := rfl

theorem branchBytes_length (wellSized : WellSized prefixLen prefixBits) (left right : Hash) :
    (branchBytes prefixLen prefixBits left right).length = 1 + 2 + byteCount prefixLen + 32 + 32 := by
  simp only [branchBytes, writeBE16, List.length_cons, List.length_append, List.length_nil,
    bytes32_length, List.length_take, wellSized.sized, Nat.min_self]
  omega

theorem leafBytes_fields (key valueHash : Hash) :
    hashAt (leafBytes key valueHash) 1 = key ∧ hashAt (leafBytes key valueHash) 33 = valueHash := by
  constructor
  · exact hashAt_of_append (show leafBytes key valueHash = [TAG_LEAF] ++ _ from rfl) rfl
  · have layout : leafBytes key valueHash =
        (TAG_LEAF :: bytes32 key) ++ (bytes32 valueHash ++ []) := by simp [leafBytes]
    exact hashAt_of_append layout (by simp)

theorem parseLeaf_leafBytes (key valueHash : Hash) :
    parseLeaf (leafBytes key valueHash) = some { key := key, valueHash := valueHash } := by
  obtain ⟨isKey, isValue⟩ := leafBytes_fields key valueHash
  simp [parseLeaf, isKey, isValue]

/-- `parseBranch` and the reads of `proveFromRoot` get a branch's fields back. -/
theorem branchBytes_fields (wellSized : WellSized prefixLen prefixBits) (left right : Hash) :
    let bytes := branchBytes prefixLen prefixBits left right
    readBE16 bytes 1 = prefixLen ∧
      (bytes.drop 3).take (byteCount prefixLen) = prefixBits ∧
      hashAt bytes (3 + byteCount prefixLen) = left ∧
      hashAt bytes (3 + byteCount prefixLen + 32) = right := by
  have bounded := wellSized.bounded
  have whole : prefixBits.take (byteCount prefixLen) = prefixBits := by
    rw [← wellSized.sized, List.take_length]
  have fits : prefixLen < 2 ^ 16 := by
    unfold MAX_PREFIX_BITS KEY_BITS at bounded
    omega
  refine ⟨?_, ?_, ?_, ?_⟩
  · simp only [branchBytes, readBE16, writeBE16, List.cons_append, List.nil_append,
      List.getD_cons_succ, List.getD_cons_zero, UInt8.toNat_ofNat']
    omega
  · show (prefixBits.take (byteCount prefixLen) ++ _).take (byteCount prefixLen) = prefixBits
    rw [whole, List.take_left' wellSized.sized]
  · have layout : branchBytes prefixLen prefixBits left right =
        (TAG_BRANCH :: (writeBE16 prefixLen ++ prefixBits)) ++ (bytes32 left ++ bytes32 right) := by
      simp [branchBytes, whole]
    apply hashAt_of_append layout
    simp only [writeBE16, List.length_cons, List.length_append, List.length_nil, wellSized.sized]
    omega
  · have layout : branchBytes prefixLen prefixBits left right =
        (TAG_BRANCH :: (writeBE16 prefixLen ++ (prefixBits ++ bytes32 left))) ++
          (bytes32 right ++ []) := by
      simp [branchBytes, whole]
    apply hashAt_of_append layout
    simp only [writeBE16, List.length_cons, List.length_append, List.length_nil, wellSized.sized,
      bytes32_length]
    omega

theorem parseBranch_branchBytes (wellSized : WellSized prefixLen prefixBits) (left right : Hash) :
    parseBranch (branchBytes prefixLen prefixBits left right) =
      some { prefixLen := prefixLen, prefixBits := prefixBits, left := left, right := right } := by
  obtain ⟨isLen, isBits, isLeft, isRight⟩ := branchBytes_fields wellSized left right
  have length := branchBytes_length wellSized left right
  have notShort : ¬ (branchBytes prefixLen prefixBits left right).length < 1 + 2 + 32 + 32 := by
    rw [length]
    omega
  have notLong : ¬ prefixLen > MAX_PREFIX_BITS := Nat.not_lt.mpr wellSized.bounded
  unfold parseBranch
  rw [if_neg notShort, if_neg (not_not_intro (branchBytes_head _ _ _ _))]
  simp only [isLen]
  rw [if_neg notLong, if_neg (not_not_intro length), isBits, isLeft, isRight]

/-! ## Hashes -/

def leafMessage (key valueHash : Hash) : Bytes := DOMAIN_LEAF ++ leafBytes key valueHash

def branchMessage (prefixLen : Nat) (prefixBits : Bytes) (left right : Hash) : Bytes :=
  DOMAIN_BRANCH ++ branchBytes prefixLen prefixBits left right

def hashLeaf (crypto : Primitives) (key valueHash : Hash) : Hash :=
  crypto.blake2b (leafMessage key valueHash)

def hashBranch (crypto : Primitives) (prefixLen : Nat) (prefixBits : Bytes) (left right : Hash) : Hash :=
  crypto.blake2b (branchMessage prefixLen prefixBits left right)

/-- The preimage of the hash of an empty subtree, as the default table is filled. -/
def defaultMessage (crypto : Primitives) : Nat → Bytes
  | 0 => DOMAIN_DEFAULT ++ TAG_DEFAULT :: writeBE16 0
  | depth + 1 =>
    let below := bytes32 (crypto.blake2b (defaultMessage crypto depth))
    DOMAIN_DEFAULT ++ TAG_DEFAULT :: (writeBE16 (depth + 1) ++ (below ++ below))

/-- `defaultHash`: the hash of the empty subtree with `depth` bits left. -/
def defaultHash (crypto : Primitives) (depth : Nat) : Hash :=
  crypto.blake2b (defaultMessage crypto (min depth KEY_BITS))

def defaultMessages (crypto : Primitives) : List Bytes :=
  (List.range (KEY_BITS + 1)).map (defaultMessage crypto)

/-- What is hashed for a stored node: its bytes behind the domain its tag belongs to. -/
def nodeMessage (bytes : Bytes) : Bytes :=
  (if bytes.head? = some TAG_LEAF then DOMAIN_LEAF else DOMAIN_BRANCH) ++ bytes

/-- No two different messages of a list have one hash. -/
def CollisionFree (crypto : Primitives) (messages : List Bytes) : Prop :=
  ∀ left ∈ messages, ∀ right ∈ messages, crypto.blake2b left = crypto.blake2b right → left = right

instance (crypto : Primitives) (messages : List Bytes) : Decidable (CollisionFree crypto messages) :=
  inferInstanceAs (Decidable (∀ left ∈ messages, ∀ right ∈ messages, _ → _))

theorem CollisionFree.subset {crypto : Primitives} {messages fewer : List Bytes}
    (collisionFree : CollisionFree crypto messages) (subset : fewer ⊆ messages) :
    CollisionFree crypto fewer :=
  fun left inLeft right inRight => collisionFree left (subset inLeft) right (subset inRight)

theorem nodeMessage_injective {left right : Bytes} (same : nodeMessage left = nodeMessage right) :
    left = right := by
  have dropped : ∀ bytes, (nodeMessage bytes).drop 4 = bytes := by
    intro bytes
    unfold nodeMessage
    split <;> rfl
  rw [← dropped left, ← dropped right, same]

theorem leafMessage_injective {other valueHash otherHash : Hash}
    (same : leafMessage key valueHash = leafMessage other otherHash) :
    key = other ∧ valueHash = otherHash := by
  have bytes : leafBytes key valueHash = leafBytes other otherHash := nodeMessage_injective same
  have parsed := congrArg parseLeaf bytes
  rw [parseLeaf_leafBytes, parseLeaf_leafBytes] at parsed
  cases parsed
  exact ⟨rfl, rfl⟩

theorem branchMessage_injective {otherLen : Nat} {otherBits : Bytes}
    {left right otherLeft otherRight : Hash} (wellSized : WellSized prefixLen prefixBits)
    (otherWellSized : WellSized otherLen otherBits)
    (same : branchMessage prefixLen prefixBits left right =
      branchMessage otherLen otherBits otherLeft otherRight) :
    prefixLen = otherLen ∧ prefixBits = otherBits ∧ left = otherLeft ∧ right = otherRight := by
  have bytes : branchBytes prefixLen prefixBits left right =
      branchBytes otherLen otherBits otherLeft otherRight := nodeMessage_injective same
  have parsed := congrArg parseBranch bytes
  rw [parseBranch_branchBytes wellSized, parseBranch_branchBytes otherWellSized] at parsed
  cases parsed
  exact ⟨rfl, rfl, rfl, rfl⟩

/-- The first byte of a message tells its kind. -/
theorem leafMessage_ne_branchMessage (key valueHash : Hash) (prefixLen : Nat) (prefixBits : Bytes)
    (left right : Hash) : leafMessage key valueHash ≠ branchMessage prefixLen prefixBits left right := by
  intro same
  have first := congrArg List.head? same
  exact absurd first (show some (UInt8.ofNat 108) ≠ some (UInt8.ofNat 98) by decide)

theorem defaultMessage_head (crypto : Primitives) (depth : Nat) :
    (defaultMessage crypto depth).head? = some (UInt8.ofNat 100) := by
  cases depth <;> rfl

theorem nodeMessage_ne_defaultMessage (crypto : Primitives) (bytes : Bytes) (depth : Nat) :
    nodeMessage bytes ≠ defaultMessage crypto depth := by
  intro same
  have first := congrArg List.head? same
  rw [defaultMessage_head] at first
  unfold nodeMessage at first
  split at first
  · exact absurd first (show some (UInt8.ofNat 108) ≠ some (UInt8.ofNat 100) by decide)
  · exact absurd first (show some (UInt8.ofNat 98) ≠ some (UInt8.ofNat 100) by decide)

/-! ## A hash for small trees -/

namespace SmallTree

/-- A message of an empty subtree is told by its first seven bytes; of any other, the bytes behind
the first 32 are added to these. -/
def shortHash : Primitives :=
  { blake2b := fun message =>
      if message.head? = some 100 then BitVec.ofNat 256 (getUInt (message.take 7))
      else BitVec.ofNat 256 (getUInt (message.take 32) + 2 ^ 40 * getUInt (message.drop 32))
    verify := fun _ _ _ => false }

theorem getUInt_take_mod (bytes : Bytes) (count : Nat) :
    getUInt (bytes.take (count + 1)) % 256 = (bytes.head?.getD 0).toNat := by
  cases bytes with
  | nil => rfl
  | cons byte rest =>
    have small := byte.toNat_lt
    simp only [List.take_succ_cons, getUInt, List.head?_cons, Option.getD_some]
    omega

theorem blake2b_eq (message : Bytes) : shortHash.blake2b message =
      if message.head? = some 100 then BitVec.ofNat 256 (getUInt (message.take 7))
      else BitVec.ofNat 256 (getUInt (message.take 32) + 2 ^ 40 * getUInt (message.drop 32)) := rfl

/-- The first byte can be read off the hash. -/
theorem blake2b_head (message : Bytes) :
    (shortHash.blake2b message).toNat % 256 = (message.head?.getD 0).toNat := by
  have short : getUInt (message.take 7) % 256 = _ := getUInt_take_mod message 6
  have long : getUInt (message.take 32) % 256 = _ := getUInt_take_mod message 31
  rw [blake2b_eq]
  split
  · rw [BitVec.toNat_ofNat]
    omega
  · rw [BitVec.toNat_ofNat]
    omega

theorem blake2b_default (depth : Nat) : (shortHash.blake2b (defaultMessage shortHash depth)).toNat =
      getUInt (DOMAIN_DEFAULT ++ TAG_DEFAULT :: writeBE16 depth) := by
  have isDefault : (defaultMessage shortHash depth).head? = some 100 := defaultMessage_head shortHash depth
  have first : (defaultMessage shortHash depth).take 7 =
      DOMAIN_DEFAULT ++ TAG_DEFAULT :: writeBE16 depth := by
    cases depth <;> rfl
  have small := getUInt_lt (DOMAIN_DEFAULT ++ TAG_DEFAULT :: writeBE16 depth)
  have length : (DOMAIN_DEFAULT ++ TAG_DEFAULT :: writeBE16 depth).length = 7 := rfl
  rw [length] at small
  rw [blake2b_eq, if_pos isDefault, first, BitVec.toNat_ofNat]
  omega

theorem default_injective {depth other : Nat} (inRange : depth ≤ KEY_BITS)
    (otherInRange : other ≤ KEY_BITS)
    (same : shortHash.blake2b (defaultMessage shortHash depth) = shortHash.blake2b (defaultMessage shortHash other)) :
    depth = other := by
  have numbers := congrArg BitVec.toNat same
  rw [blake2b_default, blake2b_default] at numbers
  have lengths : (DOMAIN_DEFAULT ++ TAG_DEFAULT :: writeBE16 depth).length =
      (DOMAIN_DEFAULT ++ TAG_DEFAULT :: writeBE16 other).length := rfl
  have bytes := List.append_cancel_left (getUInt_injective lengths numbers)
  unfold KEY_BITS at inRange otherInRange
  have high := congrArg UInt8.toNat (List.cons.inj (List.cons.inj bytes).2).1
  have low := congrArg UInt8.toNat (List.cons.inj (List.cons.inj (List.cons.inj bytes).2).2).1
  simp only [UInt8.toNat_ofNat'] at high low
  omega

/-- Messages of which none is one of an empty subtree, with the messages of all of these. -/
theorem collisionFree {messages : List Bytes}
    (distinct : CollisionFree shortHash messages)
    (otherDomain : ∀ message ∈ messages, (message.head?.getD 0).toNat ≠ 100) :
    CollisionFree shortHash (messages ++ defaultMessages shortHash) := by
  have apart : ∀ message ∈ messages, ∀ depth,
      shortHash.blake2b message ≠ shortHash.blake2b (defaultMessage shortHash depth) := by
    intro message member depth same
    have heads := congrArg (fun hash : Hash => hash.toNat % 256) same
    simp only [blake2b_head, defaultMessage_head] at heads
    exact otherDomain message member heads
  intro left inLeft right inRight same
  rcases List.mem_append.mp inLeft with leftNode | leftDefault
  · rcases List.mem_append.mp inRight with rightNode | rightDefault
    · exact distinct left leftNode right rightNode same
    · obtain ⟨depth, _, isDefault⟩ := List.mem_map.mp rightDefault
      rw [← isDefault] at same
      exact absurd same (apart left leftNode depth)
  · obtain ⟨depth, inRange, isDefault⟩ := List.mem_map.mp leftDefault
    rcases List.mem_append.mp inRight with rightNode | rightDefault
    · rw [← isDefault] at same
      exact absurd same.symm (apart right rightNode depth)
    · obtain ⟨other, otherInRange, isOther⟩ := List.mem_map.mp rightDefault
      rw [← isDefault, ← isOther] at same ⊢
      rw [default_injective (Nat.lt_succ_iff.mp (List.mem_range.mp inRange))
        (Nat.lt_succ_iff.mp (List.mem_range.mp otherInRange)) same]

end SmallTree

end Clarity.State
