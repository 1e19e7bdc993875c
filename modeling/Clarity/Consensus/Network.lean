import Mathlib.Logic.Function.Basic
import Clarity.Consensus.Engine.Membership

/-!
Contract: the network of honest engines, and an adversary that delivers anything it can sign.

Owns: the agreement of honest nodes on hashes, sets and keys, the runs of a network below the
emergency rounds, and their execution on a given schedule.

A step of a run is one event of one honest node. Byzantine members have no state: their
votes, proposals and timeout votes are events like any other. The order, the number and the
loss of messages and the times of the timeouts are the schedule.
-/

namespace Clarity.Consensus

open Common Crypto Clarity.Core Library

/-- Honest nodes, named by their validator ids, that agree on the hash, the committed sets and
the registered keys; at most a third of each committed set is not honest. -/
structure Network where
  env : Nat → Env
  honest : Nat → Bool
  crypto : Primitives
  committed : Nat → List Nat
  lookup : Nat → Nat → Option ValidatorInfo
  sameCrypto : ∀ node, honest node = true → (env node).crypto = crypto
  sameSet : ∀ node height, honest node = true → (env node).committed height = committed height
  sameLookup : ∀ node height, honest node = true →
    ((env node).view height).stateLookupValidator = lookup height
  identity : ∀ node height, honest node = true → ((env node).view height).myValidatorId = node
  fewFaulty : ∀ height, ((committed height).filter fun id => honest id = false).length ≤
    ((committed height).length - 1) / 3
  soundHash : SoundHash crypto

abbrev System := Nat → Engine

abbrev Ballots := Nat → Bool → Vote → Prop

def System.ballots (system : System) : Ballots := fun node => (system node).Signed

namespace Network

/-- The vote verifies under the key of the validator at the vote's height. -/
def Verifies (network : Network) (id : Nat) (vote : Vote) : Prop :=
  ∃ validator, network.lookup vote.height id = some validator ∧
    network.crypto.verify (vote.signingHash network.crypto) validator.effectiveConsensusKey
      vote.signature = true

def Cast (ballots : Ballots) (isPrecommit : Bool) (height : Nat) (id round : Nat) (hash : Hash) :
    Prop :=
  ∃ vote, ballots id isPrecommit vote ∧ vote.height = height ∧ vote.round = round ∧
    vote.isNil = false ∧ vote.blockHash = hash

/-- A vote for a block in an honest name was cast by that node, as the type it is delivered as. -/
def Authentic (network : Network) (ballots : Ballots) (isPrecommit : Bool) (vote : Vote) : Prop :=
  ∀ id, network.honest id = true → network.Verifies id vote → vote.isNil = false →
    Cast ballots isPrecommit vote.height id vote.round vote.blockHash

def AuthenticEvent (network : Network) (ballots : Ballots) : Event → Prop
  | .onPrevote vote => network.Authentic ballots false vote
  | .onPrecommit vote => network.Authentic ballots true vote
  | _ => True

/-- The systems reached by schedules whose steps are all `Allowed`, with every round below the
emergency rounds. -/
inductive Run (network : Network) (Allowed : Env → Inputs → Event → Engine → Prop) : System → Prop
  | initial : Run network Allowed fun _ => Engine.initial .empty .empty
  | step {system : System} {node fuel : Nat} {event : Event} {inputs : Inputs} {after : Engine}
      (run : Run network Allowed system) (honest : network.honest node = true)
      (authentic : network.AuthenticEvent system.ballots event)
      (fresh : (system node).FreshStart event)
      (allowed : Allowed (network.env node) inputs event (system node))
      (ran : handle (network.env node) inputs fuel event (system node) = some after)
      (below : after.round < EMERGENCY_ROTATION_ROUNDS) :
      Run network Allowed (Function.update system node after)

/-! ## Schedules -/

/-- One step of a schedule: a node and an event, which may depend on the messages so far. -/
abbrev Action := System → Nat × Inputs × Event

def hasCast (engine : Engine) (isPrecommit : Bool) (vote : Vote) : Bool :=
  engine.outputs.any fun output =>
    match output with
    | .signedVote cast castType =>
      castType == isPrecommit && cast.height == vote.height && cast.round == vote.round &&
        cast.isNil == false && cast.blockHash == vote.blockHash
    | _ => false

/-- Authenticity of a vote among the validators that have keys. -/
def authenticAmong (network : Network) (ids : List Nat) (system : System) (isPrecommit : Bool)
    (vote : Vote) : Bool :=
  vote.isNil || ids.all fun id =>
    !network.honest id || hasCast (system id) isPrecommit vote ||
      match network.lookup vote.height id with
      | none => true
      | some validator => !network.crypto.verify (vote.signingHash network.crypto)
          validator.effectiveConsensusKey vote.signature

def authenticEventAmong (network : Network) (ids : List Nat) (system : System) : Event → Bool
  | .onPrevote vote => network.authenticAmong ids system false vote
  | .onPrecommit vote => network.authenticAmong ids system true vote
  | _ => true

/-- A run on a given schedule; `none` when a step is not one of a run or the fuel is too small. -/
def execute (network : Network) (ids : List Nat) (Allowed : Env → Inputs → Event → Engine → Prop)
    [∀ env inputs event engine, Decidable (Allowed env inputs event engine)] (fuel : Nat) :
    List Action → System → Option System
  | [], system => some system
  | action :: rest, system =>
    let (node, inputs, event) := action system
    if network.honest node = true ∧ network.authenticEventAmong ids system event = true ∧
        (system node).FreshStart event ∧ Allowed (network.env node) inputs event (system node) then
      match handle (network.env node) inputs fuel event (system node) with
      | none => none
      | some after =>
        if after.round < EMERGENCY_ROTATION_ROUNDS then
          network.execute ids Allowed fuel rest (Function.update system node after)
        else none
    else none

section

variable {network : Network} {ids : List Nat}
  (closed : ∀ height id, id ∉ ids → network.lookup height id = none)

include closed

theorem authentic_of_among {system : System} {isPrecommit : Bool} {vote : Vote}
    (among : network.authenticAmong ids system isPrecommit vote = true) :
    network.Authentic system.ballots isPrecommit vote := by
  rintro id honest ⟨validator, found, verified⟩ notNil
  have isMember : id ∈ ids := by
    by_contra outside
    rw [closed vote.height id outside] at found
    cases found
  unfold authenticAmong at among
  rw [notNil, Bool.false_or, List.all_eq_true] at among
  have each := among id isMember
  rw [honest, found] at each
  simp only [verified, Bool.not_true, Bool.false_or, Bool.or_false] at each
  obtain ⟨output, member, isCast⟩ := List.any_eq_true.mp each
  split at isCast
  next cast castType =>
    simp only [Bool.and_eq_true, beq_iff_eq] at isCast
    obtain ⟨⟨⟨⟨isType, atHeight⟩, inRound⟩, notNil⟩, forHash⟩ := isCast
    exact ⟨cast, isType ▸ member, atHeight, inRound, notNil, forHash⟩
  · cases isCast

/-- An executed schedule is a run. -/
theorem run_of_execute {Allowed : Env → Inputs → Event → Engine → Prop}
    [∀ env inputs event engine, Decidable (Allowed env inputs event engine)] {fuel : Nat}
    {schedule : List Action} {system final : System} (run : network.Run Allowed system)
    (executed : network.execute ids Allowed fuel schedule system = some final) :
    network.Run Allowed final := by
  induction schedule generalizing system with
  | nil =>
    cases executed
    exact run
  | cons action rest ih =>
    simp only [execute] at executed
    split at executed
    next admitted =>
      obtain ⟨honest, authentic, fresh, allowed⟩ := admitted
      split at executed
      · cases executed
      next after ran =>
        split at executed
        next below =>
          refine ih (run.step honest ?_ fresh allowed ran below) executed
          generalize (action system).2.2 = event at authentic
          cases event with
          | onPrevote vote => exact authentic_of_among closed authentic
          | onPrecommit vote => exact authentic_of_among closed authentic
          | _ => trivial
        · cases executed
    · cases executed

end

end Network

end Clarity.Consensus
