import Clarity.State.SparseMerkleTree

/-!
Contract: the Merkle proofs of `State/SmtProof.cpp`.

Owns:
- `SmtProof`, its structural check, `proveFromRoot` and `verifyProof`;
- `verifierMessages`, what the verifier hashes.

`serialize` is left out. `isValid` compares the compressed part of a divergent branch with bits
behind the end of the key when the proof names a part that is too long; what is read there is a
parameter, and the theorems hold for all of its values.
-/

namespace Clarity.State

open Common Crypto Library.PackedBits

def MAX_SIBLINGS : Nat := KEY_BITS

inductive ProofTerminalKind where
  | inclusion
  | default
  | differentLeaf
  | divergentBranch
  -- A byte that is none of the four, which the switch of `isValid` rejects.
  | unknown (code : Nat)
deriving DecidableEq

structure ProofSibling where
  prefixLen : Nat
  prefixBits : Bytes
  hash : Hash
deriving DecidableEq

def ProofSibling.isValid (sibling : ProofSibling) : Bool :=
  decide (sibling.prefixLen ≤ KEY_BITS) &&
    decide (sibling.prefixBits.length = byteCount sibling.prefixLen)

structure SmtProof where
  key : Hash
  terminalKind : ProofTerminalKind
  value : Option Bytes
  divergentLeafKey : Hash
  divergentLeafValueHash : Hash
  divergentBranchPrefixLen : Nat
  divergentBranchPrefixBits : Bytes
  divergentBranchLeft : Hash
  divergentBranchRight : Hash
  siblings : List ProofSibling
deriving DecidableEq

/-- What `bitAt` returns for any index; `beyond` is what lies behind the key. -/
def readBit (beyond : Nat → Bool) (key : Hash) (index : Nat) : Bool :=
  if index < KEY_BITS then bitAt key index else beyond index

def sharesPrefixAt (beyond : Nat → Bool) (key : Hash) (startBit prefixLen : Nat) (prefixBits : Bytes) :
    Bool :=
  (List.range prefixLen).all fun index =>
    readBit beyond key (startBit + index) == packed prefixBits index

/-- The running `start_bit` of `isValid`. -/
def startBitOf : Nat → List ProofSibling → Option Nat
  | startBit, [] => some startBit
  | startBit, sibling :: siblings =>
    if startBit + (sibling.prefixLen + 1) > KEY_BITS then none
    else startBitOf (startBit + (sibling.prefixLen + 1)) siblings

/-- `terminalDepth`, from `remaining` on. -/
def terminalDepth : Nat → List ProofSibling → Nat
  | remaining, [] => remaining
  | remaining, sibling :: siblings =>
    if sibling.prefixLen + 1 > remaining then 0
    else terminalDepth (remaining - (sibling.prefixLen + 1)) siblings

namespace SmtProof

def isInclusion (proof : SmtProof) : Bool := decide (proof.terminalKind = .inclusion)

/-- The switch of `isValid`; `start` is where the siblings end, or nothing if they do not fit. -/
def terminalValid (beyond : Nat → Bool) (proof : SmtProof) (start : Option Nat) : Bool :=
  match proof.terminalKind with
  | .inclusion => true
  | .default => true
  | .differentLeaf => decide (proof.divergentLeafKey ≠ proof.key)
  | .divergentBranch =>
    decide (proof.divergentBranchPrefixLen ≤ KEY_BITS) &&
      decide (proof.divergentBranchPrefixBits.length = byteCount proof.divergentBranchPrefixLen) &&
      match start with
      | none => false
      | some startBit =>
        !sharesPrefixAt beyond proof.key startBit proof.divergentBranchPrefixLen
          proof.divergentBranchPrefixBits
  | .unknown _ => false

def isValid (beyond : Nat → Bool) (proof : SmtProof) : Bool :=
  decide (proof.siblings.length ≤ MAX_SIBLINGS) &&
    proof.terminalValid beyond (startBitOf 0 proof.siblings) &&
    proof.siblings.all ProofSibling.isValid

end SmtProof

/-! ## Generation -/

section

variable (crypto : Primitives) (beyond : Nat → Bool)

def SmtProof.blank (key : Hash) (siblings : List ProofSibling) : SmtProof :=
  { key := key
    terminalKind := .default
    value := none
    divergentLeafKey := 0
    divergentLeafValueHash := 0
    divergentBranchPrefixLen := 0
    divergentBranchPrefixBits := []
    divergentBranchLeft := 0
    divergentBranchRight := 0
    siblings := siblings }

/-- The loop of `proveFromRoot`. -/
def proveFromRoot (store : SmtStore) (key : Hash) :
    Nat → Hash → Nat → List ProofSibling → Option SmtProof
  | 0, _, _, _ => none
  | fuel + 1, current, remainingDepth, siblings =>
    let blank := SmtProof.blank key siblings
    if current = defaultHash crypto remainingDepth then some blank
    else
      match store.getNode current with
      | none => none
      | some bytes =>
        if bytes.head? = some TAG_LEAF then
          if bytes.length ≠ 1 + 32 + 32 then none
          else if hashAt bytes 1 = key then
            match store.getLeafData current with
            | none => none
            | some value => some { blank with terminalKind := .inclusion, value := some value }
          else
            some
              { blank with
                terminalKind := .differentLeaf
                divergentLeafKey := hashAt bytes 1
                divergentLeafValueHash := hashAt bytes 33 }
        else if bytes.head? ≠ some TAG_BRANCH then none
        else if bytes.length < 1 + 2 + 32 + 32 then none
        else
          let prefixLen := readBE16 bytes 1
          if prefixLen > remainingDepth then none
          else
            let prefixBytes := byteCount prefixLen
            if bytes.length ≠ 1 + 2 + prefixBytes + 32 + 32 then none
            else
              let prefixBits := (bytes.drop 3).take prefixBytes
              let left := hashAt bytes (3 + prefixBytes)
              let right := hashAt bytes (3 + prefixBytes + 32)
              let prefixStart := KEY_BITS - remainingDepth
              if sharesPrefixAt beyond key prefixStart prefixLen prefixBits = false then
                some
                  { blank with
                    terminalKind := .divergentBranch
                    divergentBranchPrefixLen := prefixLen
                    divergentBranchPrefixBits := prefixBits
                    divergentBranchLeft := left
                    divergentBranchRight := right }
              else
                let bit := readBit beyond key (prefixStart + prefixLen)
                let sibling : ProofSibling :=
                  { prefixLen := prefixLen
                    prefixBits := prefixBits
                    hash := if bit then left else right }
                proveFromRoot store key fuel (if bit then right else left)
                  (sub64 remainingDepth (prefixLen + 1)) (siblings ++ [sibling])

def prove (tree : SparseMerkleTree) (key : Hash) : Option SmtProof :=
  proveFromRoot crypto beyond tree.store key (KEY_BITS + 1) tree.root KEY_BITS []

/-! ## Verification -/

def terminalHash (proof : SmtProof) : Option Hash :=
  match proof.terminalKind with
  | .inclusion => proof.value.map fun value => hashLeaf crypto proof.key (crypto.blake2b value)
  | .default => some (defaultHash crypto (terminalDepth KEY_BITS proof.siblings))
  | .differentLeaf => some (hashLeaf crypto proof.divergentLeafKey proof.divergentLeafValueHash)
  | .divergentBranch =>
    some (hashBranch crypto proof.divergentBranchPrefixLen proof.divergentBranchPrefixBits
      proof.divergentBranchLeft proof.divergentBranchRight)
  | .unknown _ => none

/-- The forward pass: the remaining depth at each sibling. -/
def siblingDepths : Nat → List ProofSibling → Option (List Nat)
  | _, [] => some []
  | remaining, sibling :: siblings =>
    if sibling.prefixLen + 1 > remaining then none
    else (siblingDepths (remaining - (sibling.prefixLen + 1)) siblings).map (remaining :: ·)

/-- The preimage of a branch on the way up. -/
def siblingMessage (key : Hash) (sibling : ProofSibling) (remainingDepth : Nat) (current : Hash) :
    Bytes :=
  if readBit beyond key (KEY_BITS - remainingDepth + sibling.prefixLen) then
    branchMessage sibling.prefixLen sibling.prefixBits sibling.hash current
  else branchMessage sibling.prefixLen sibling.prefixBits current sibling.hash

/-- One step of the reconstruction. -/
def rebuild (key : Hash) (sibling : ProofSibling) (remainingDepth : Nat) (current : Hash) : Option Hash :=
  let prefixStart := KEY_BITS - remainingDepth
  if sharesPrefixAt beyond key prefixStart sibling.prefixLen sibling.prefixBits = false then none
  else if prefixStart + sibling.prefixLen ≥ KEY_BITS then none
  else some (crypto.blake2b (siblingMessage beyond key sibling remainingDepth current))

/-- The reconstruction, bottom-up: the siblings are stored root first. -/
def reconstruct (key : Hash) (terminal : Hash) : List (ProofSibling × Nat) → Option Hash
  | [] => some terminal
  | (sibling, remainingDepth) :: below =>
    (reconstruct key terminal below).bind (rebuild crypto beyond key sibling remainingDepth)

def verifyProof (expectedRoot : Hash) (proof : SmtProof) : Bool :=
  if proof.isValid beyond = false then false
  else
    match terminalHash crypto proof, siblingDepths KEY_BITS proof.siblings with
    | some terminal, some depths =>
      decide (reconstruct crypto beyond proof.key terminal (proof.siblings.zip depths) = some expectedRoot)
    | _, _ => false

/-- The messages that are hashed for the terminal. -/
def terminalMessages (proof : SmtProof) : List Bytes :=
  match proof.terminalKind with
  | .inclusion =>
    match proof.value with
    | none => []
    | some value => [value, leafMessage proof.key (crypto.blake2b value)]
  | .default => []
  | .differentLeaf => [leafMessage proof.divergentLeafKey proof.divergentLeafValueHash]
  | .divergentBranch =>
    [branchMessage proof.divergentBranchPrefixLen proof.divergentBranchPrefixBits
      proof.divergentBranchLeft proof.divergentBranchRight]
  | .unknown _ => []

/-- The messages that are hashed on the way up. -/
def climbMessages (key : Hash) (terminal : Hash) : List (ProofSibling × Nat) → List Bytes
  | [] => []
  | (sibling, remainingDepth) :: below =>
    match reconstruct crypto beyond key terminal below with
    | none => climbMessages key terminal below
    | some current =>
      siblingMessage beyond key sibling remainingDepth current :: climbMessages key terminal below

/-- All messages the verifier hashes. -/
def verifierMessages (proof : SmtProof) : List Bytes :=
  terminalMessages crypto proof ++
    match terminalHash crypto proof, siblingDepths KEY_BITS proof.siblings with
    | some terminal, some depths =>
      climbMessages crypto beyond proof.key terminal (proof.siblings.zip depths)
    | _, _ => []

end

end Clarity.State
