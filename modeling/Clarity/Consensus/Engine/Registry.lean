import Clarity.Consensus.Engine.Runs

/-!
Contract: what a node signs. It signs one vote for each height, round and type.

Owns: which moves sign a vote and which do not, the invariants of the registry of signed
votes, and their preservation by every event of a node that is never started at a height
it has been at.
-/

namespace Clarity.Consensus

open Common Crypto Clarity.Core Library Relation

namespace Engine

variable {env : Env} {inputs : Inputs} {grants : Grants} {engine before after : Engine}
  {isPrecommit : Bool} {vote : Vote}

/-! ## Signing moves -/

theorem signed_append {outputs extra : List Output}
    (others : ∀ output ∈ extra, ∀ other otherType, output ≠ .signedVote other otherType) :
    .signedVote vote isPrecommit ∈ outputs ++ extra ↔ .signedVote vote isPrecommit ∈ outputs :=
  List.mem_append.trans (or_iff_left fun inExtra => others _ inExtra vote isPrecommit rfl)

/-- A move that signs no vote. -/
structure Silent (before after : Engine) : Prop where
  signedVotes : after.signedVotes = before.signedVotes
  outputs : ∃ sent, after.outputs = before.outputs ++ sent ∧
    ∀ output ∈ sent, ∀ vote isPrecommit, output ≠ .signedVote vote isPrecommit
  signed : ∀ isPrecommit vote, after.Signed isPrecommit vote ↔ before.Signed isPrecommit vote
  walVotes : ∀ entry ∈ after.walVotes.entries, entry ∈ before.walVotes.entries

/-- The value a vote of this type is cast for: nil is `none`. -/
def castValue (env : Env) (engine : Engine) (isPrecommit : Bool) : Option Hash :=
  if isPrecommit then ((engine.setStep .precommit).lockPolka env).precommitChoice
  else engine.selectPrevoteHash

/-- A move that signs this vote. -/
structure Casts (env : Env) (before after : Engine) (isPrecommit : Bool) (vote : Vote) : Prop where
  unsigned : before.signedVotes.find? (before.height, before.round, isPrecommit) = none
  signedVotes : after.signedVotes =
    before.signedVotes.emplace (before.height, before.round, isPrecommit) vote
  outputs : after.outputs = before.outputs ++ [.signedVote vote isPrecommit]
  signed : ∀ otherType other, after.Signed otherType other ↔
    before.Signed otherType other ∨ (otherType = isPrecommit ∧ other = vote)
  walVotes : ∀ entry ∈ after.walVotes.entries, entry ∈ before.walVotes.entries ∨
    entry = ((vote.height, vote.round, vote.signerId), vote, isPrecommit)
  height : vote.height = before.height
  round : vote.round = before.round
  signer : vote.signerId = (env.now before).myValidatorId
  signerValid : (env.now before).myValidatorId ≠ INVALID_ID
  index : vote.signerIndex ≠ INVALID_INDEX
  signature : vote.signature = (env.now before).sign (vote.signingHash env.crypto)
  step : before.step = if isPrecommit then .prevote else .propose
  sameRound : after.round = before.round
  stepAfter : after.step = if isPrecommit then .precommit else .prevote
  isNil : vote.isNil = (castValue env before isPrecommit).isNone
  blockHash : vote.blockHash = (castValue env before isPrecommit).getD 0

/-- Registering the engine's own vote signs it. -/
theorem casts_registerVote {value : Option Hash}
    (unsigned : engine.signedVotes.find? (engine.height, engine.round, isPrecommit) = none)
    (valid : (env.now engine).myValidatorId ≠ INVALID_ID)
    (inSet : (engine.ownVote env value.isNone (value.getD 0)).signerIndex ≠ INVALID_INDEX)
    (signedVotes : engine.signedVotes = before.signedVotes)
    (outputs : engine.outputs = before.outputs) (walVotes : engine.walVotes = before.walVotes)
    (height : engine.height = before.height) (round : engine.round = before.round)
    (pending : engine.pendingHeight = before.pendingHeight)
    (step : before.step = if isPrecommit then .prevote else .propose)
    (stepped : engine.step = if isPrecommit then .precommit else .prevote)
    (isValue : value = castValue env before isPrecommit) :
    Casts env before
      (engine.registerVote isPrecommit (engine.ownVote env value.isNone (value.getD 0))) isPrecommit
      (engine.ownVote env value.isNone (value.getD 0)) := by
  have sameView : env.now engine = env.now before := by
    unfold Env.now stateHeight
    rw [pending, height]
  refine ⟨?_, ?_, ?_, ?_, ?_, height, round, ?_, ?_, inSet, ?_, step, round, stepped,
    by rw [← isValue]; rfl, by rw [← isValue]; rfl⟩
  · rw [← signedVotes, ← height, ← round]
    exact unsigned
  · rw [← signedVotes, ← height, ← round]
    rfl
  · rw [← outputs]
    rfl
  · intro otherType other
    have same : before.Signed otherType other ↔ engine.Signed otherType other := by
      unfold Signed
      rw [outputs]
    rw [same]
    simp [Signed, registerVote, and_comm]
  · intro entry member
    rcases Table.mem_put member with ⟨old, _⟩ | isNew
    · exact Or.inl (walVotes ▸ old)
    · exact Or.inr isNew
  · rw [← sameView]
    rfl
  · rw [← sameView]
    exact valid
  · rw [← sameView]
    rfl

theorem Silent.of_outputs {extra : List Output} (signedVotes : after.signedVotes = before.signedVotes)
    (outputs : after.outputs = before.outputs ++ extra)
    (others : ∀ output ∈ extra, ∀ vote isPrecommit, output ≠ .signedVote vote isPrecommit)
    (walVotes : ∀ entry ∈ after.walVotes.entries, entry ∈ before.walVotes.entries) :
    Silent before after := by
  refine ⟨signedVotes, ⟨extra, outputs, others⟩, ?_, walVotes⟩
  intro isPrecommit vote
  unfold Signed
  rw [outputs]
  exact signed_append others

theorem Silent.of_same (signedVotes : after.signedVotes = before.signedVotes)
    (outputs : after.outputs = before.outputs) (walVotes : after.walVotes = before.walVotes) :
    Silent before after :=
  .of_outputs signedVotes (outputs.trans (List.append_nil _).symm) (by simp)
    fun _ member => walVotes ▸ member

theorem silent_castPrecommit_or_casts (env : Env) (step : before.step = .prevote) :
    Silent before (before.castPrecommit env).1 ∨
      ∃ vote, Casts env before (before.castPrecommit env).1 true vote := by
  obtain ⟨signedVotes, outputs, walVotes, height, round, pending, stepped⟩ :
      let locked := (before.setStep .precommit).lockPolka env
      locked.signedVotes = before.signedVotes ∧ locked.outputs = before.outputs ∧
        locked.walVotes = before.walVotes ∧ locked.height = before.height ∧
        locked.round = before.round ∧ locked.pendingHeight = before.pendingHeight ∧
        locked.step = .precommit := by
    rcases lockPolka_cases env (before.setStep .precommit) with ⟨_, same⟩ | ⟨_, _, locked⟩
    · rw [same]
      exact ⟨rfl, rfl, rfl, rfl, rfl, rfl, rfl⟩
    · rw [locked]
      exact ⟨rfl, rfl, rfl, rfl, rfl, rfl, rfl⟩
  rcases castPrecommit_cases env before with
    same | ⟨locked, value, isLocked, isValue, missing, valid, inSet, new⟩
  · left
    rw [same]
    refine Silent.of_outputs signedVotes (outputs.trans (List.append_nil _).symm) (by simp) ?_
    intro entry member
    rw [walVotes] at member
    exact member
  · right
    subst isLocked
    rw [new]
    exact ⟨_, casts_registerVote missing valid inSet signedVotes outputs walVotes height round pending
      step stepped isValue⟩

section

variable (move : Move env inputs grants before after)

include move

/-- Every move signs nothing or casts one vote. -/
theorem move_silent_or_casts :
    Silent before after ∨ ∃ isPrecommit vote, Casts env before after isPrecommit vote := by
  cases move.change with
  | prevote step _ cast =>
    rw [← cast]
    rcases castPrevote_cases env before with same | ⟨missing, valid, value, isValue, inSet, new⟩
    · rw [same]
      exact Or.inl (Silent.of_same rfl rfl rfl)
    · rw [new]
      exact Or.inr ⟨false, _,
        casts_registerVote missing valid inSet rfl rfl rfl rfl rfl rfl step rfl isValue⟩
  | precommit step _ _ _ cast =>
    rw [← cast]
    rcases silent_castPrecommit_or_casts env step with silent | ⟨vote, casts⟩
    · exact Or.inl silent
    · exact Or.inr ⟨true, vote, casts⟩
  | lock _ step _ _ cast =>
    rw [← cast]
    rcases silent_castPrecommit_or_casts env step with silent | ⟨vote, casts⟩
    · exact Or.inl silent
    · exact Or.inr ⟨true, vote, casts⟩
  | books _ _ _ _ _ sent notices =>
    refine Or.inl (Silent.of_outputs rfl rfl ?_ fun _ member => member)
    exact fun output member _ _ => Output.ne_of_isNotice (notices output member) rfl
  | own proposal block =>
    refine Or.inl (Silent.of_outputs rfl (List.append_assoc _ _ _) ?_ fun _ member => member)
    simp
  | applied block =>
    exact Or.inl (Silent.of_outputs rfl rfl (by simp) fun _ member => (Table.mem_filter.mp member).1)
  | rejected block _ _ _ _ _ _ extra _ _ halts =>
    refine Or.inl (Silent.of_outputs rfl rfl ?_ fun _ member => member)
    intro output member vote isPrecommit same
    rcases List.mem_cons.mp member with isCommit | inExtra
    · exact Output.noConfusion (same.symm.trans isCommit)
    · exact Output.noConfusion (same.symm.trans (halts output inExtra))
  | _ => exact Or.inl (Silent.of_same rfl rfl rfl)

/-- A vote that is signed after a move was signed before it, or the move casts it. -/
theorem signed_of_move (signed : after.Signed isPrecommit vote) :
    before.Signed isPrecommit vote ∨ Casts env before after isPrecommit vote := by
  rcases move_silent_or_casts move with silent | ⟨castType, cast, casts⟩
  · exact Or.inl ((silent.signed _ _).mp signed)
  · rcases (casts.signed _ _).mp signed with old | ⟨isType, isCast⟩
    · exact Or.inl old
    · subst isType isCast
      exact Or.inr casts

theorem signed_after_move
    (signed : before.Signed isPrecommit vote) : after.Signed isPrecommit vote := by
  rcases move_silent_or_casts move with silent | ⟨castType, cast, casts⟩
  · exact (silent.signed _ _).mpr signed
  · exact (casts.signed _ _).mpr (Or.inl signed)

/-- An entry of the registry after a move was there before it, or is the vote the move casts. -/
theorem registered_of_move {key : SignedKey}
    (found : after.signedVotes.find? key = some vote) :
    before.signedVotes.find? key = some vote ∨
      ∃ isPrecommit, key = (before.height, before.round, isPrecommit) ∧
        Casts env before after isPrecommit vote := by
  rcases move_silent_or_casts move with silent | ⟨isPrecommit, cast, casts⟩
  · exact Or.inl (silent.signedVotes ▸ found)
  · rw [casts.signedVotes, Table.find?_emplace] at found
    split at found
    next isKey =>
      rw [casts.unsigned] at found
      cases found
      exact Or.inr ⟨isPrecommit, isKey, casts⟩
    · exact Or.inl found

theorem registered_after_move {key : SignedKey} (found : before.signedVotes.find? key = some vote) :
    after.signedVotes.find? key = some vote := by
  rcases move_silent_or_casts move with silent | ⟨isPrecommit, cast, casts⟩
  · rw [silent.signedVotes]
    exact found
  · rw [casts.signedVotes, Table.find?_emplace]
    split
    next isKey =>
      rw [isKey, casts.unsigned] at found
      cases found
    · exact found

end

section

variable (casts : Casts env before after isPrecommit vote)

include casts

theorem Casts.registered :
    after.signedVotes.find? (before.height, vote.round, isPrecommit) = some vote := by
  rw [casts.signedVotes, casts.round, Table.find?_emplace, if_pos rfl, casts.unsigned]
  rfl

/-- No vote of the registry is of the round and type of a vote that is cast. -/
theorem Casts.fresh {other : Vote}
    (found : before.signedVotes.find? (before.height, other.round, isPrecommit) = some other) :
    other.round ≠ vote.round := by
  intro sameRound
  rw [sameRound, casts.round, casts.unsigned] at found
  cases found

theorem Casts.value (notNil : vote.isNil = false) :
    castValue env before isPrecommit = some vote.blockHash := by
  cases value : castValue env before isPrecommit with
  | none =>
    rw [casts.isNil, value] at notNil
    cases notNil
  | some hash => rw [casts.blockHash, value]; rfl

end

/-! ## Control state -/

/-- A decided height is in its commit step, and the next height is the one after it. -/
structure Control (engine : Engine) : Prop where
  pending : ∀ next, engine.pendingHeight = some next → next = engine.height + 1
  pendingStep : engine.pendingHeight ≠ none → engine.step = .commit
  decidedStep : engine.commitBlock ≠ none → engine.step = .commit

theorem Control.undecided (control : engine.Control) (step : engine.step ≠ .commit) :
    engine.Undecided :=
  ⟨by_contra fun decided => step (control.decidedStep decided),
    by_contra fun pending => step (control.pendingStep pending)⟩

theorem Control.of_undecided (undecided : engine.Undecided) : engine.Control where
  pending := by
    intro next pending
    rw [undecided.2] at pending
    cases pending
  pendingStep := fun pending => absurd undecided.2 pending
  decidedStep := fun decided => absurd undecided.1 decided

theorem move_control (move : Move env inputs grants before after) (control : before.Control) :
    after.Control := by
  cases move.change with
  | prevote step =>
    have undecided := control.undecided (by simp [step])
    exact .of_undecided ⟨undecided.1, undecided.2⟩
  | precommit step =>
    have undecided := control.undecided (by simp [step])
    exact .of_undecided ⟨undecided.1, undecided.2⟩
  | lock _ step =>
    have undecided := control.undecided (by simp [step])
    exact .of_undecided ⟨undecided.1, undecided.2⟩
  | newRound round timeouts undecided => exact .of_undecided undecided
  | commit round block undecided =>
    exact ⟨fun next pending => absurd (undecided.2.symm.trans pending) (by simp),
      fun _ => rfl, fun _ => rfl⟩
  | applied block decided =>
    have step : before.step = .commit := control.decidedStep (by simp [decided])
    refine ⟨?_, fun _ => step, fun _ => step⟩
    intro next pending
    exact (Option.some.inj pending).symm
  | rejected block _ _ _ _ _ _ _ decided =>
    have step : before.step = .commit := control.decidedStep (by simp [decided])
    exact ⟨control.pending, fun _ => step, fun _ => step⟩
  | _ => exact ⟨control.pending, control.pendingStep, control.decidedStep⟩

/-! ## The registry -/

/-- A vote the node made and signed in the state of its height. -/
structure OwnVote (env : Env) (vote : Vote) : Prop where
  signer : vote.signerId = (env.view vote.height).myValidatorId
  signerValid : vote.signerId ≠ INVALID_ID
  index : vote.signerIndex ≠ INVALID_INDEX
  signature : vote.signature = (env.view vote.height).sign (vote.signingHash env.crypto)

/-- The registry holds the votes signed at this height, one for each round and type. -/
structure Registry (env : Env) (engine : Engine) : Prop where
  control : engine.Control
  own : ∀ isPrecommit vote, engine.Signed isPrecommit vote → OwnVote env vote
  reached : ∀ isPrecommit vote, engine.Signed isPrecommit vote → vote.height ≤ engine.height
  registered : ∀ isPrecommit vote, engine.Signed isPrecommit vote → vote.height = engine.height →
    engine.signedVotes.find? (engine.height, vote.round, isPrecommit) = some vote
  unique : ∀ isPrecommit first second, engine.Signed isPrecommit first →
    engine.Signed isPrecommit second → first.height = second.height →
    first.round = second.round → first = second

theorem Casts.undecided (casts : Casts env before after isPrecommit vote)
    (control : before.Control) : before.Undecided := by
  apply control.undecided
  rw [casts.step]
  cases isPrecommit <;> simp

theorem Casts.own (casts : Casts env before after isPrecommit vote) (control : before.Control) : OwnVote env vote := by
  have sameView : env.now before = env.view vote.height := by
    unfold Env.now stateHeight
    rw [(casts.undecided control).2, casts.height]
    rfl
  exact ⟨sameView ▸ casts.signer, casts.signer ▸ casts.signerValid, casts.index,
    sameView ▸ casts.signature⟩

/-- A vote is signed only where none of its height, round and type was. -/
theorem move_signed_unique {first second : Vote} (move : Move env inputs grants before after)
    (old : before.Signed isPrecommit first → before.Signed isPrecommit second → first = second)
    (fresh : ∀ vote other, Casts env before after isPrecommit vote → before.Signed isPrecommit other →
      other.height = vote.height → other.round ≠ vote.round)
    (signedFirst : after.Signed isPrecommit first) (signedSecond : after.Signed isPrecommit second)
    (sameHeight : first.height = second.height) (sameRound : first.round = second.round) :
    first = second := by
  rcases signed_of_move move signedFirst with oldFirst | castsFirst <;>
    rcases signed_of_move move signedSecond with oldSecond | castsSecond
  · exact old oldFirst oldSecond
  · exact absurd sameRound (fresh second first castsSecond oldFirst sameHeight)
  · exact absurd sameRound.symm (fresh first second castsFirst oldSecond sameHeight.symm)
  · have found := castsFirst.registered
    rw [sameRound, castsSecond.registered] at found
    exact (Option.some.inj found).symm

theorem move_registry (move : Move env inputs grants before after)
    (registry : Registry env before) : Registry env after := by
  have height := move_height move
  refine ⟨move_control move registry.control, ?_, ?_, ?_, ?_⟩
  · intro isPrecommit vote signed
    rcases signed_of_move move signed with old | casts
    · exact registry.own isPrecommit vote old
    · exact casts.own registry.control
  · intro isPrecommit vote signed
    rw [height]
    rcases signed_of_move move signed with old | casts
    · exact registry.reached isPrecommit vote old
    · exact casts.height.le
  · intro isPrecommit vote signed sameHeight
    rw [height] at sameHeight ⊢
    rcases signed_of_move move signed with old | casts
    · exact registered_after_move move (registry.registered isPrecommit vote old sameHeight)
    · exact casts.registered
  · intro isPrecommit first second signedFirst signedSecond sameHeight sameRound
    refine move_signed_unique move (fun oldFirst oldSecond =>
      registry.unique isPrecommit first second oldFirst oldSecond sameHeight sameRound) ?_
      signedFirst signedSecond sameHeight sameRound
    intro vote other casts signed atHeight
    exact casts.fresh (registry.registered isPrecommit other signed (atHeight.trans casts.height))

/-! ## New heights -/

theorem Control.height_le (control : engine.Control) : engine.height ≤ engine.stateHeight := by
  unfold stateHeight
  cases pending : engine.pendingHeight with
  | none => exact le_rfl
  | some next =>
    rw [control.pending next pending]
    exact Nat.le_succ _

/-- The node is started only at a height it has not been at. -/
def FreshStart (engine : Engine) (event : Event) : Prop :=
  ∀ height, event = .start height → engine.running = false → engine.height < height

section

variable {event : Event} {height : Nat} {opened : Engine}
  (newHeight : NewHeight env event engine height opened)

include newHeight

/-- A change of height goes up. -/
theorem newHeight_above (control : engine.Control)
    (fresh : FreshStart engine event) : engine.height < height := by
  rcases newHeight.reason with ⟨isStart, stopped⟩ | pending | overtaken
  · exact fresh height isStart stopped
  · rw [control.pending height pending]
    exact Nat.lt_succ_self _
  · exact control.height_le.trans_lt overtaken

/-- A height opens undecided, and nothing is signed or logged for it. -/
theorem newHeight_opened : opened.height = height ∧ opened.Undecided ∧
      (∀ entry ∈ opened.walVotes.entries, entry ∈ engine.walVotes.entries) ∧
      ∃ resent, opened.outputs = engine.outputs ++ resent ∧
        ∀ output ∈ resent, ∃ vote isPrecommit, output = .broadcastVote vote isPrecommit := by
  obtain ⟨base, undecided, outputs, _, _, walVotes, _, _, isOpened⟩ := newHeight.base
  obtain ⟨_, _, _, _, _, _, _, _, resent, result, _, broadcasts⟩ := openHeight_cases env height base
  rw [result] at isOpened
  rw [isOpened, ← outputs]
  exact ⟨rfl, ⟨rfl, undecided.2⟩, walVotes, resent, rfl, broadcasts⟩

theorem newHeight_signed (isPrecommit : Bool) (vote : Vote) :
    opened.Signed isPrecommit vote ↔ engine.Signed isPrecommit vote := by
  obtain ⟨_, _, _, resent, outputs, broadcasts⟩ := newHeight_opened newHeight
  unfold Signed
  rw [outputs]
  apply signed_append
  intro output member other otherType isVote
  obtain ⟨_, _, isBroadcast⟩ := broadcasts output member
  exact Output.noConfusion (isVote.symm.trans isBroadcast)

theorem newHeight_registry (registry : Registry env engine)
    (fresh : FreshStart engine event) : Registry env opened := by
  have above := newHeight_above newHeight registry.control fresh
  have signed := newHeight_signed newHeight
  obtain ⟨openedHeight, undecided, _⟩ := newHeight_opened newHeight
  refine ⟨.of_undecided undecided, ?_, ?_, ?_, ?_⟩
  · intro isPrecommit vote isSigned
    exact registry.own isPrecommit vote ((signed _ _).mp isSigned)
  · intro isPrecommit vote isSigned
    rw [openedHeight]
    exact (registry.reached isPrecommit vote ((signed _ _).mp isSigned)).trans above.le
  · intro isPrecommit vote isSigned sameHeight
    have reached := registry.reached isPrecommit vote ((signed _ _).mp isSigned)
    rw [openedHeight] at sameHeight
    omega
  · intro isPrecommit first second signedFirst signedSecond
    exact registry.unique isPrecommit first second ((signed _ _).mp signedFirst)
      ((signed _ _).mp signedSecond)

end

/-! ## Runs -/

/-- A node before its first start, with the log an earlier process left. -/
def initial (walVotes : Table (Nat × Nat × Nat) (Vote × Bool)) (walLocks : Table (Nat × Nat) Hash) :
    Engine :=
  { walVotes := walVotes, walLocks := walLocks }

theorem registry_initial (env : Env) (walVotes : Table (Nat × Nat × Nat) (Vote × Bool))
    (walLocks : Table (Nat × Nat) Hash) : Registry env (initial walVotes walLocks) where
  control := .of_undecided ⟨rfl, rfl⟩
  own := fun _ _ signed => absurd signed List.not_mem_nil
  reached := fun _ _ signed => absurd signed List.not_mem_nil
  registered := fun _ _ signed => absurd signed List.not_mem_nil
  unique := fun _ _ _ signed => absurd signed List.not_mem_nil

def anyGrants : Grants where
  delivered := fun _ _ => True
  proposed := fun _ => True
  fallback := fun _ => True
  advance := fun _ _ => True

theorem allows_any (env : Env) (inputs : Inputs) (event : Event) (engine : Engine) :
    Allows env inputs anyGrants event engine :=
  ⟨fun _ _ _ => trivial, fun _ _ => trivial, fun _ _ => trivial, fun _ _ => trivial,
    fun _ => trivial, fun _ _ => trivial⟩

theorem sourced_any (engine : Engine) : engine.Sourced anyGrants :=
  ⟨fun _ _ _ => trivial, fun _ _ => trivial⟩

/-- The round number has a successor. -/
def RoundFits (engine : Engine) (_ : Event) : Prop := engine.round + 1 < 2 ^ 32

/-- Every delivery and every growth of the round is granted. -/
def climbing : Grants := { anyGrants with advance := fun round target => round < target }

theorem allows_climbing {event : Event} (fits : engine.RoundFits event) :
    Allows env inputs climbing event engine where
  skips := fun _ _ above => above
  proposal := fun _ _ => trivial
  prevote := fun _ _ => trivial
  precommit := fun _ _ => trivial
  fallback := fun _ => trivial
  advance := fun _ _ => by
    rw [show u32 (engine.round + 1) = engine.round + 1 from Nat.mod_eq_of_lt fits]
    exact Nat.lt_succ_self engine.round

end Engine

/-- The states one node reaches from any log, by events in any order. -/
inductive Reachable (env : Env) (Allowed : Engine → Event → Prop) : Engine → Prop
  | initial (walVotes : Table (Nat × Nat × Nat) (Vote × Bool)) (walLocks : Table (Nat × Nat) Hash) :
      Reachable env Allowed (Engine.initial walVotes walLocks)
  | step {engine after : Engine} {event : Event} {inputs : Inputs} {fuel : Nat}
      (reachable : Reachable env Allowed engine) (allowed : Allowed engine event)
      (ran : handle env inputs fuel event engine = some after) : Reachable env Allowed after

/-- No start is at a height the node has been at, and no round number wraps around. -/
def Engine.Steady (engine : Engine) (event : Event) : Prop :=
  engine.FreshStart event ∧ engine.RoundFits event

instance (engine : Engine) (event : Event) : Decidable (Engine.FreshStart engine event) :=
  match event with
  | .start height =>
    decidable_of_iff (engine.running = false → engine.height < height)
      ⟨fun fresh _ isStart => Event.start.inj isStart ▸ fresh, fun fresh => fresh height rfl⟩
  | .stop | .onProposal _ | .onPrevote _ | .onPrecommit _ | .onTimeoutVote _ | .noteChainHead _
  | .pollTimers | .tryPropose => isTrue fun _ isStart => Event.noConfusion isStart

instance (engine : Engine) (event : Event) : Decidable (engine.Steady event) :=
  inferInstanceAs (Decidable (engine.FreshStart event ∧ engine.round + 1 < 2 ^ 32))

section RunEvents

variable (Allowed : Engine → Event → Prop) [∀ engine event, Decidable (Allowed engine event)]

def runEvents (env : Env) (fuel : Nat) : List (Inputs × Event) → Engine → Option Engine
  | [], engine => some engine
  | (inputs, event) :: rest, engine =>
    if Allowed engine event then
      (handle env inputs fuel event engine).bind (runEvents env fuel rest)
    else none

theorem reachable_of_runEvents_from {env : Env} {fuel : Nat} {events : List (Inputs × Event)}
    {engine after : Engine} (reachable : Reachable env Allowed engine)
    (ran : runEvents Allowed env fuel events engine = some after) : Reachable env Allowed after := by
  induction events generalizing engine with
  | nil =>
    cases ran
    exact reachable
  | cons head rest ih =>
    simp only [runEvents] at ran
    split at ran
    next allowed =>
      obtain ⟨middle, first, second⟩ := Option.bind_eq_some_iff.mp ran
      exact ih (reachable.step allowed first) second
    · cases ran

theorem reachable_of_runEvents {env : Env} {fuel : Nat} {events : List (Inputs × Event)}
    {after : Engine} (ran : runEvents Allowed env fuel events {} = some after) :
    Reachable env Allowed after :=
  reachable_of_runEvents_from Allowed (.initial .empty .empty) ran

end RunEvents

theorem Reachable.registry {env : Env} {engine : Engine}
    (reachable : Reachable env Engine.FreshStart engine) : engine.Registry env := by
  induction reachable with
  | initial walVotes walLocks => exact Engine.registry_initial env walVotes walLocks
  | @step engine _ event inputs _ _ allowed ran ih =>
    have kept : ∀ before after, Move env inputs Engine.anyGrants before after →
        before.Registry env → after.Registry env := fun _ _ move => Engine.move_registry move
    obtain ⟨_, path | ⟨height, opened, newHeight, path⟩⟩ := Engine.handle_handled
      (Engine.sourced_any engine) (Engine.allows_any env inputs event engine) ran
    · exact path_invariant kept path ih
    · exact path_invariant kept path (Engine.newHeight_registry newHeight ih allowed)

end Clarity.Consensus
