import Clarity.Common.Framing
import Clarity.Library.Fault
import Clarity.State.SmtProof

/-!
Contract: the proofs of `State/SmtProof.cpp` that come over the wire, and what is read for them.

Owns: `SmtProof.deserialize`; `isValid` and `verifyProof` once more, with every read of a bit of the
key as a step that faults behind its end; and when they do without a fault what they do.
-/

namespace Clarity.State

open Common Crypto Library Library.PackedBits Library.Faulty Reader

def MAX_VALUE_LEN : Nat := 64 * 1024

def readPrefix : Reader (Nat × Bytes) := do
  let prefixLen ← readU16
  require (prefixLen ≤ KEY_BITS)
  let prefixBits ← readVector (byteCount prefixLen)
  pure (prefixLen, prefixBits)

def readSibling : Reader ProofSibling := do
  let part ← readPrefix
  let hash ← readBytes32
  pure { prefixLen := part.1, prefixBits := part.2, hash := hash }

/-- The switch of `deserialize`. -/
def readTerminal (blank : SmtProof) : Nat → Reader SmtProof
  | 0 => do
    let size ← readU32
    require (size ≤ MAX_VALUE_LEN)
    let value ← readVector size
    pure { blank with terminalKind := .inclusion, value := some value }
  | 1 => pure blank
  | 2 => do
    let leafKey ← readBytes32
    let valueHash ← readBytes32
    pure
      { blank with
        terminalKind := .differentLeaf
        divergentLeafKey := leafKey
        divergentLeafValueHash := valueHash }
  | 3 => do
    let part ← readPrefix
    let left ← readBytes32
    let right ← readBytes32
    pure
      { blank with
        terminalKind := .divergentBranch
        divergentBranchPrefixLen := part.1
        divergentBranchPrefixBits := part.2
        divergentBranchLeft := left
        divergentBranchRight := right }
  | _ => fail

def readProof (beyond : Nat → Bool) : Reader SmtProof := do
  let key ← readBytes32
  let kind ← readU8
  let terminal ← readTerminal (.blank key []) kind
  let siblingCount ← readU8
  require (siblingCount ≤ MAX_SIBLINGS)
  let siblings ← replicate readSibling siblingCount
  let left ← remaining
  require (left = 0)
  let proof := { terminal with siblings := siblings }
  require (proof.isValid beyond)
  pure proof

def SmtProof.deserialize (beyond : Nat → Bool) (data : Bytes) : Option SmtProof :=
  if data.length < 32 + 1 + 1 then none else (readProof beyond data).map Prod.fst

/-! ## Reads of the key -/

namespace Guarded

def readBit (key : Hash) (index : Nat) : Faulty Bool :=
  if index < KEY_BITS then pure (bitAt key index) else fault

/-- The loop of `sharesPrefixAt`, which ends where two bits differ. -/
def sharesPrefixFrom (key : Hash) (startBit : Nat) (prefixBits : Bytes) : List Nat → Faulty Bool
  | [] => pure true
  | offset :: rest => do
    let bit ← readBit key (startBit + offset)
    if bit = packed prefixBits offset then sharesPrefixFrom key startBit prefixBits rest
    else pure false

def sharesPrefixAt (key : Hash) (startBit prefixLen : Nat) (prefixBits : Bytes) : Faulty Bool :=
  sharesPrefixFrom key startBit prefixBits (List.range prefixLen)

def terminalValid (proof : SmtProof) (start : Option Nat) : Faulty Bool :=
  match proof.terminalKind with
  | .inclusion => pure true
  | .default => pure true
  | .differentLeaf => pure (decide (proof.divergentLeafKey ≠ proof.key))
  | .divergentBranch =>
    if proof.divergentBranchPrefixLen ≤ KEY_BITS ∧
        proof.divergentBranchPrefixBits.length = byteCount proof.divergentBranchPrefixLen then
      match start with
      | none => pure false
      | some startBit => do
        let shares ← sharesPrefixAt proof.key startBit proof.divergentBranchPrefixLen
          proof.divergentBranchPrefixBits
        pure !shares
    else pure false
  | .unknown _ => pure false

def isValid (proof : SmtProof) : Faulty Bool :=
  if proof.siblings.length ≤ MAX_SIBLINGS then do
    let terminal ← terminalValid proof (startBitOf 0 proof.siblings)
    pure (terminal && proof.siblings.all ProofSibling.isValid)
  else pure false

def rebuild (crypto : Primitives) (key : Hash) (sibling : ProofSibling) (remainingDepth : Nat)
    (current : Hash) : Faulty (Option Hash) := do
  let prefixStart := KEY_BITS - remainingDepth
  let shares ← sharesPrefixAt key prefixStart sibling.prefixLen sibling.prefixBits
  if shares = false then pure none
  else if prefixStart + sibling.prefixLen ≥ KEY_BITS then pure none
  else do
    let bit ← readBit key (prefixStart + sibling.prefixLen)
    pure (some (crypto.blake2b
      (if bit then branchMessage sibling.prefixLen sibling.prefixBits sibling.hash current
      else branchMessage sibling.prefixLen sibling.prefixBits current sibling.hash)))

def reconstruct (crypto : Primitives) (key terminal : Hash) :
    List (ProofSibling × Nat) → Faulty (Option Hash)
  | [] => pure (some terminal)
  | (sibling, remainingDepth) :: below => do
    match ← reconstruct crypto key terminal below with
    | none => pure none
    | some current => rebuild crypto key sibling remainingDepth current

def verifyProof (crypto : Primitives) (expectedRoot : Hash) (proof : SmtProof) : Faulty Bool := do
  let valid ← isValid proof
  if valid = false then pure false
  else
    match terminalHash crypto proof, siblingDepths KEY_BITS proof.siblings with
    | some terminal, some depths => do
      let root ← reconstruct crypto proof.key terminal (proof.siblings.zip depths)
      pure (decide (root = some expectedRoot))
    | _, _ => pure false

end Guarded

/-- A part at `startBit` ends inside the key, or differs from it there. -/
def EndsInside (key : Hash) (startBit prefixLen : Nat) (prefixBits : Bytes) : Prop :=
  prefixLen ≤ KEY_BITS - startBit ∨ ∃ index < prefixLen, startBit + index < KEY_BITS ∧
    bitAt key (startBit + index) ≠ packed prefixBits index

/-- The part of a divergent branch ends inside the key, or differs from it there. -/
def InsideKey (proof : SmtProof) : Prop :=
  proof.terminalKind = .divergentBranch → ∀ startBit ∈ startBitOf 0 proof.siblings,
    EndsInside proof.key startBit proof.divergentBranchPrefixLen proof.divergentBranchPrefixBits

variable {beyond : Nat → Bool} {key : Hash} {startBit prefixLen : Nat} {prefixBits : Bytes}
  {proof : SmtProof}

/-- Bits inside the key are compared as they are, and the loop goes on if they agree. -/
theorem sharesPrefixFrom_append (offsets more : List Nat)
    (inside : ∀ offset ∈ offsets, startBit + offset < KEY_BITS) :
    Guarded.sharesPrefixFrom key startBit prefixBits (offsets ++ more) =
      if offsets.all fun offset => bitAt key (startBit + offset) == packed prefixBits offset then
        Guarded.sharesPrefixFrom key startBit prefixBits more
      else value false := by
  induction offsets with
  | nil => rfl
  | cons offset rest ih =>
    have later := ih fun other member => inside other (List.mem_cons_of_mem _ member)
    rw [List.cons_append, Guarded.sharesPrefixFrom, Guarded.readBit,
      if_pos (inside offset List.mem_cons_self), pure_eq, value_bind, later, List.all_cons]
    by_cases same : bitAt key (startBit + offset) = packed prefixBits offset
    · simp [same]
    · simp [same]

/-- The comparison of a part reads bits of the key and no others exactly when the part ends or
differs inside the key. -/
theorem sharesPrefixAt_guarded_iff :
    Guarded.sharesPrefixAt key startBit prefixLen prefixBits =
        value (sharesPrefixAt beyond key startBit prefixLen prefixBits) ↔
      EndsInside key startBit prefixLen prefixBits := by
  unfold Guarded.sharesPrefixAt sharesPrefixAt EndsInside
  -- the offsets inside the key, and those behind it
  obtain ⟨count, behind, isCount, isLen⟩ : ∃ count behind,
      count = min prefixLen (KEY_BITS - startBit) ∧ prefixLen = count + behind :=
    ⟨_, prefixLen - min prefixLen (KEY_BITS - startBit), rfl, by omega⟩
  have inKey : ∀ offset ∈ List.range count, startBit + offset < KEY_BITS := by
    intro offset member
    rw [List.mem_range] at member
    omega
  have plain : ((List.range count).all fun offset =>
      readBit beyond key (startBit + offset) == packed prefixBits offset) =
        (List.range count).all fun offset => bitAt key (startBit + offset) ==
          packed prefixBits offset := by
    rw [Bool.eq_iff_iff, List.all_eq_true, List.all_eq_true]
    refine forall₂_congr fun offset member => ?_
    rw [readBit, if_pos (inKey offset member)]
  rw [isLen, List.range_add, sharesPrefixFrom_append _ _ inKey, List.all_append, plain]
  cases agrees : (List.range count).all fun offset => bitAt key (startBit + offset) ==
      packed prefixBits offset with
  | false =>
    rw [List.all_eq_false] at agrees
    obtain ⟨offset, member, differs⟩ := agrees
    refine iff_of_true rfl (Or.inr ⟨offset, ?_, inKey offset member, by simpa using differs⟩)
    rw [List.mem_range] at member
    omega
  | true =>
    rw [List.all_eq_true] at agrees
    cases behind with
    | zero =>
      refine iff_of_true rfl (Or.inl ?_)
      omega
    | succ more =>
      have isEnd : ¬startBit + count < KEY_BITS := by omega
      rw [List.range_succ_eq_map, List.map_cons, Nat.add_zero, Guarded.sharesPrefixFrom,
        Guarded.readBit, if_neg isEnd]
      refine iff_of_false (fun faulty => by cases faulty) ?_
      rintro (short | ⟨index, _, inside, differs⟩)
      · omega
      · exact differs (by simpa using agrees index (List.mem_range.mpr (by omega)))

theorem depth_of_mem_zip {siblings : List ProofSibling} {remaining : Nat} {depths : List Nat}
    (isDepths : siblingDepths remaining siblings = some depths) {step : ProofSibling × Nat}
    (member : step ∈ siblings.zip depths) : step.1.prefixLen + 1 ≤ step.2 ∧ step.2 ≤ remaining := by
  induction siblings generalizing remaining depths with
  | nil => cases member
  | cons sibling rest ih =>
    unfold siblingDepths at isDepths
    split at isDepths
    · cases isDepths
    next fits =>
      obtain ⟨below, isBelow, rfl⟩ := Option.map_eq_some_iff.mp isDepths
      rcases List.mem_cons.mp member with rfl | inRest
      · exact ⟨Nat.le_of_not_lt fits, Nat.le_refl _⟩
      · have deeper := ih isBelow inRest
        omega

/-- The siblings of a proof are compared inside the key. -/
theorem reconstruct_guarded (crypto : Primitives) (terminal : Hash)
    (steps : List (ProofSibling × Nat))
    (inside : ∀ step ∈ steps, step.1.prefixLen + 1 ≤ step.2 ∧ step.2 ≤ KEY_BITS) :
    Guarded.reconstruct crypto key terminal steps =
      value (reconstruct crypto beyond key terminal steps) := by
  induction steps with
  | nil => rfl
  | cons step below ih =>
    obtain ⟨sibling, depth⟩ := step
    obtain ⟨fits, inKey⟩ := inside _ List.mem_cons_self
    dsimp only at fits inKey
    unfold Guarded.reconstruct reconstruct
    rw [ih fun step member => inside step (List.mem_cons_of_mem _ member), value_bind]
    cases reconstruct crypto beyond key terminal below with
    | none => rfl
    | some current =>
      have compared := (@sharesPrefixAt_guarded_iff beyond key (KEY_BITS - depth) sibling.prefixLen
        sibling.prefixBits).mpr (Or.inl (by omega))
      have fork : KEY_BITS - depth + sibling.prefixLen < KEY_BITS := by omega
      dsimp only [Option.bind_some]
      unfold Guarded.rebuild rebuild Guarded.readBit siblingMessage readBit
      dsimp only
      rw [compared, value_bind, if_pos fork, if_pos fork]
      split
      · rfl
      · rw [if_neg (Nat.not_le.mpr fork), if_neg (Nat.not_le.mpr fork), pure_eq, value_bind]
        rfl

/-- The check of a proof that passes it reads inside the key exactly when its divergent branch
does. -/
theorem isValid_guarded_iff (valid : proof.isValid beyond = true) :
    Guarded.isValid proof = value true ↔ InsideKey proof := by
  unfold SmtProof.isValid SmtProof.terminalValid at valid
  unfold Guarded.isValid Guarded.terminalValid InsideKey
  rw [Bool.and_eq_true, Bool.and_eq_true, decide_eq_true_eq] at valid
  obtain ⟨⟨few, terminal⟩, siblings⟩ := valid
  rw [if_pos few, siblings]
  cases kind : proof.terminalKind with
  | inclusion => simp
  | default => simp
  | differentLeaf =>
    rw [kind] at terminal
    simpa using terminal
  | unknown code =>
    rw [kind] at terminal
    cases terminal
  | divergentBranch =>
    rw [kind] at terminal
    simp only [Bool.and_eq_true, decide_eq_true_eq] at terminal
    obtain ⟨formed, differs⟩ := terminal
    cases start : startBitOf 0 proof.siblings with
    | none =>
      rw [start] at differs
      cases differs
    | some startBit =>
      rw [start] at differs
      dsimp only at differs ⊢
      rw [Bool.not_eq_true'] at differs
      have compared := @sharesPrefixAt_guarded_iff beyond proof.key startBit
        proof.divergentBranchPrefixLen proof.divergentBranchPrefixBits
      rw [differs] at compared
      simp only [if_pos formed, Bool.and_true, forall_const, Option.mem_some_iff, forall_eq',
        ← compared]
      cases Guarded.sharesPrefixAt proof.key startBit proof.divergentBranchPrefixLen
        proof.divergentBranchPrefixBits with
      | fault => simp [Bind.bind, Faulty.bind]
      | refused => simp [Bind.bind, Faulty.bind]
      | value shares => simp

theorem deserialize_isValid {data : Bytes} (accepted : proof ∈ SmtProof.deserialize beyond data) :
    proof.isValid beyond = true := by
  unfold SmtProof.deserialize at accepted
  split at accepted
  · cases accepted
  · obtain ⟨⟨read, rest⟩, ran, isProof⟩ := Option.map_eq_some_iff.mp accepted
    dsimp only at isProof
    subst isProof
    unfold readProof at ran
    obtain ⟨_, _, _, ran⟩ := bind_eq_some_iff.mp ran
    obtain ⟨_, _, _, ran⟩ := bind_eq_some_iff.mp ran
    obtain ⟨_, _, _, ran⟩ := bind_eq_some_iff.mp ran
    obtain ⟨_, _, _, ran⟩ := bind_eq_some_iff.mp ran
    obtain ⟨_, _, _, ran⟩ := bind_eq_some_iff.mp ran
    obtain ⟨_, _, _, ran⟩ := bind_eq_some_iff.mp ran
    obtain ⟨_, _, _, ran⟩ := bind_eq_some_iff.mp ran
    obtain ⟨_, _, _, ran⟩ := bind_eq_some_iff.mp ran
    obtain ⟨_, _, checked, ran⟩ := bind_eq_some_iff.mp ran
    cases ran
    exact (require_eq_some_iff.mp checked).1

/-- **For a proof that comes over the wire, `isValid` and `verifyProof` read bits of the key and no
others, and do what they do, exactly when the part of its divergent branch ends or differs inside
the key.** -/
theorem deserialize_reads_inside_iff (beyond : Nat → Bool) (data : Bytes) :
    ∀ proof ∈ SmtProof.deserialize beyond data,
      (Guarded.isValid proof = value (proof.isValid beyond) ∧
        ∀ crypto expectedRoot, Guarded.verifyProof crypto expectedRoot proof =
          value (verifyProof crypto beyond expectedRoot proof)) ↔ InsideKey proof := by
  intro proof accepted
  have valid := deserialize_isValid accepted
  rw [valid, isValid_guarded_iff valid]
  refine and_iff_left_of_imp fun inside crypto expectedRoot => ?_
  unfold Guarded.verifyProof verifyProof
  rw [(isValid_guarded_iff valid).mpr inside, value_bind, if_neg (by decide), valid,
    if_neg (by decide)]
  cases terminalHash crypto proof with
  | none => rfl
  | some terminal =>
    cases isDepths : siblingDepths KEY_BITS proof.siblings with
    | none => rfl
    | some depths =>
      have climbed := @reconstruct_guarded beyond proof.key crypto terminal _
        fun step member => depth_of_mem_zip isDepths member
      dsimp only
      rw [climbed]
      rfl

namespace SmallTree

/-- One sibling takes the whole key, and the divergent branch names one bit more. -/
def hostile : Bytes :=
  List.replicate 32 0 ++ putU8 3 ++ putU16 1 ++ [128] ++ List.replicate 64 0 ++
    putU8 1 ++ putU16 255 ++ List.replicate 64 0

theorem hostile_reads_behind : hostile.length = 167 ∧
    ∃ proof ∈ SmtProof.deserialize (fun _ => false) hostile, Guarded.isValid proof = fault := by
  have found : (SmtProof.deserialize (fun _ => false) hostile).any (fun proof =>
      (Guarded.isValid proof).isFault) = true := by
    decide +kernel
  rw [Option.any_eq_true] at found
  obtain ⟨proof, isProof, faults⟩ := found
  exact ⟨by decide +kernel, proof, isProof, isFault_iff.mp faults⟩

/-- One bit of the key is left for the divergent branch, and it differs. -/
def lastBit : Bytes :=
  List.replicate 32 0 ++ putU8 3 ++ putU16 1 ++ [128] ++ List.replicate 64 0 ++
    putU8 1 ++ putU16 254 ++ List.replicate 64 0

theorem lastBit_reads_inside : ∃ proof ∈ SmtProof.deserialize (fun _ => false) lastBit,
    startBitOf 0 proof.siblings = some 255 ∧ Guarded.isValid proof = value true ∧
      ∀ crypto expectedRoot, Guarded.verifyProof crypto expectedRoot proof =
        value (verifyProof crypto (fun _ => false) expectedRoot proof) := by
  have found : (SmtProof.deserialize (fun _ => false) lastBit).any (fun proof =>
      startBitOf 0 proof.siblings = some 255 ∧ proof.divergentBranchPrefixLen = 1) = true := by
    decide +kernel
  rw [Option.any_eq_true] at found
  obtain ⟨proof, isProof, facts⟩ := found
  obtain ⟨start, length⟩ := of_decide_eq_true facts
  have inside : InsideKey proof := by
    intro _ startBit isStart
    cases start.symm.trans isStart
    exact Or.inl (by rw [length]; decide)
  have reads := (deserialize_reads_inside_iff _ lastBit _ isProof).mpr inside
  exact ⟨proof, isProof, start, reads.1.trans (by rw [deserialize_isValid isProof]), reads.2⟩

end SmallTree

end Clarity.State
