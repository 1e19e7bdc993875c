import Clarity.Consensus.Committee
import Clarity.Consensus.Engine.Registry

/-!
Contract: what a node signs over all its processes, when it is killed and started again.

Owns: the runs of a node with crashes (`CrashRun`), in which a process loses everything but its
log; `Recorded`, that the log still binds the node in every round it may return to; and that a node
signs one value for each height, round and kind of message as long as it is so at every restart.

## What the log forgets

A vote is logged under its height, round and signer. The precommit of a round takes the place of
its prevote, and proposals are not logged: `tryPropose` infers them from the prevote. A process
that is killed after its precommit comes back to the same round without its prevote, and may
propose and prevote in it once more.
-/

namespace Clarity.Consensus

open Common Crypto Clarity.Core Library Relation

variable {higher : Nat}

namespace Engine

variable {env : Env} {inputs : Inputs} {grants : Grants} {engine before after : Engine}
  {height : Nat} {vote : Vote} {proposal : Proposal} {isPrecommit : Bool}

/-! ## One value for each height, round and kind -/

def Proposed (engine : Engine) (proposal : Proposal) : Prop :=
  .signedProposal proposal ∈ engine.outputs

structure SignsOnce (engine : Engine) : Prop where
  votes : ∀ isPrecommit first second, engine.Signed isPrecommit first →
    engine.Signed isPrecommit second → first.height = second.height →
    first.round = second.round → first = second
  proposals : ∀ first second, engine.Proposed first → engine.Proposed second →
    first.height = second.height → first.round = second.round → first = second

/-- The log holds votes the node signed, each under its own key. -/
def Faithful (engine : Engine) : Prop :=
  ∀ entry ∈ engine.walVotes.entries,
    entry.1 = (entry.2.1.height, entry.2.1.round, entry.2.1.signerId) ∧
      engine.Signed entry.2.2 entry.2.1

/-- What a node has signed, up to a height. -/
structure SignedUpTo (env : Env) (height : Nat) (engine : Engine) : Prop where
  own : ∀ isPrecommit vote, engine.Signed isPrecommit vote → OwnVote env vote
  log : engine.Faithful
  reached : ∀ isPrecommit vote, engine.Signed isPrecommit vote → vote.height ≤ height
  proposedReached : ∀ proposal, engine.Proposed proposal → proposal.height ≤ height
  once : engine.SignsOnce

/-- What a node has signed, while it works at a height. -/
structure Signing (env : Env) (engine : Engine) : Prop
    extends SignedUpTo env engine.height engine where
  control : engine.Control
  registered : ∀ isPrecommit vote, engine.Signed isPrecommit vote → vote.height = engine.height →
    vote.round < engine.round ∨
      engine.signedVotes.find? (engine.height, vote.round, isPrecommit) = some vote
  spent : ∀ proposal, engine.Proposed proposal → proposal.height = engine.height →
    proposal.round < engine.round ∨
      (proposal.round = engine.round ∧ (engine.proposal.isSome = true ∨
        engine.signedVotes.contains (engine.height, engine.round, false) = true))

/-- Only what was sent and the log count. -/
theorem SignedUpTo.carry (record : SignedUpTo env height before) (notBelow : height ≤ higher)
    (signed : ∀ isPrecommit vote, after.Signed isPrecommit vote ↔ before.Signed isPrecommit vote)
    (proposed : ∀ proposal, after.Proposed proposal ↔ before.Proposed proposal)
    (old : ∀ entry ∈ after.walVotes.entries, entry ∈ before.walVotes.entries) :
    SignedUpTo env higher after := by
  refine ⟨?_, ?_, ?_, ?_, ?_, ?_⟩
  · exact fun isPrecommit vote isSigned => record.own isPrecommit vote ((signed _ _).mp isSigned)
  · exact fun entry member => (record.log entry (old entry member)).imp_right (signed _ _).mpr
  · exact fun isPrecommit vote isSigned =>
      (record.reached isPrecommit vote ((signed _ _).mp isSigned)).trans notBelow
  · exact fun proposal isProposed =>
      (record.proposedReached proposal ((proposed _).mp isProposed)).trans notBelow
  · exact fun isPrecommit first second signedFirst signedSecond =>
      record.once.votes isPrecommit first second ((signed _ _).mp signedFirst)
        ((signed _ _).mp signedSecond)
  · exact fun first second proposedFirst proposedSecond =>
      record.once.proposals first second ((proposed _).mp proposedFirst)
        ((proposed _).mp proposedSecond)

theorem SignedUpTo.raise (record : SignedUpTo env height engine)
    (notBelow : height ≤ higher) : SignedUpTo env higher engine :=
  record.carry notBelow (fun _ _ => Iff.rfl) (fun _ => Iff.rfl) (fun _ => id)

/-! ## Proposing moves -/

/-- A move that signs no proposal: the round goes up, or its proposal stays. -/
structure Quiet (before after : Engine) : Prop where
  proposed : ∀ proposal, after.Proposed proposal ↔ before.Proposed proposal
  round : before.round < after.round ∨
    (after.round = before.round ∧ (before.proposal.isSome = true → after.proposal.isSome = true))

structure Proposes (before after : Engine) (proposal : Proposal) : Prop where
  silent : Silent before after
  proposed : ∀ other, after.Proposed other ↔ before.Proposed other ∨ other = proposal
  height : proposal.height = before.height
  round : proposal.round = before.round
  sameRound : after.round = before.round
  first : before.proposal = none
  unsigned : before.signedVotes.contains (before.height, before.round, false) = false
  stored : after.proposal.isSome = true

theorem proposed_append {outputs extra : List Output}
    (others : ∀ output ∈ extra, ∀ other, output ≠ .signedProposal other) :
    .signedProposal proposal ∈ outputs ++ extra ↔ .signedProposal proposal ∈ outputs :=
  List.mem_append.trans (or_iff_left fun inExtra => others _ inExtra proposal rfl)

theorem Quiet.of_outputs {extra : List Output} (outputs : after.outputs = before.outputs ++ extra)
    (others : ∀ output ∈ extra, ∀ other, output ≠ .signedProposal other)
    (round : after.round = before.round) (proposal : after.proposal = before.proposal) :
    Quiet before after := by
  refine ⟨?_, Or.inr ⟨round, fun some => proposal ▸ some⟩⟩
  intro other
  unfold Proposed
  rw [outputs]
  exact proposed_append others

theorem Quiet.of_votes {sent : List Output} {isPrecommit : Bool}
    (outputs : after.outputs = before.outputs ++ sent)
    (votes : ∀ output ∈ sent, ∃ vote, output = .signedVote vote isPrecommit)
    (round : after.round = before.round) (proposal : after.proposal = before.proposal) :
    Quiet before after := by
  refine .of_outputs outputs (fun output member other isProposal => ?_) round proposal
  obtain ⟨vote, isVote⟩ := votes output member
  exact Output.noConfusion (isVote.symm.trans isProposal)

section Moves

variable (increasing : ∀ round target, grants.advance round target → round < target)
  (move : Move env inputs grants before after)

include increasing move

theorem move_quiet_or_proposes :
    Quiet before after ∨ ∃ proposal, Proposes before after proposal := by
  cases move.change with
  | own proposal block step first unsigned made =>
    right
    obtain ⟨_, _, _, _, _, _, height, round, _⟩ := makeProposal_spec made
    refine ⟨proposal, ?_, ?_, height, round, rfl, first, unsigned, rfl⟩
    · refine Silent.of_outputs rfl (List.append_assoc _ _ _) ?_ fun _ member => member
      simp
    · intro other
      simp [Proposed, storeOwnProposal, storeProposal, emit]
  | newRound round timeouts undecided advances =>
    exact Or.inl ⟨fun _ => Iff.rfl, Or.inl (increasing _ _ advances)⟩
  | accept proposal block =>
    exact Or.inl ⟨fun _ => Iff.rfl, Or.inr ⟨rfl, fun _ => rfl⟩⟩
  | prevote step votes =>
    exact Or.inl (Quiet.of_votes rfl votes rfl rfl)
  | precommit step noPolka fallback votes =>
    exact Or.inl (Quiet.of_votes rfl votes rfl rfl)
  | lock polka step quorum votes =>
    exact Or.inl (Quiet.of_votes rfl votes rfl rfl)
  | books _ _ _ _ _ sent notices =>
    refine Or.inl (Quiet.of_outputs rfl ?_ rfl rfl)
    exact fun output member _ => Output.ne_of_isNotice (notices output member) rfl
  | applied block => exact Or.inl (Quiet.of_outputs rfl (by simp) rfl rfl)
  | rejected block _ _ _ _ _ _ extra _ _ halts =>
    refine Or.inl (Quiet.of_outputs rfl ?_ rfl rfl)
    intro output member other same
    rcases List.mem_cons.mp member with isCommit | inExtra
    · exact Output.noConfusion (same.symm.trans isCommit)
    · exact Output.noConfusion (same.symm.trans (halts output inExtra))
  | _ => exact Or.inl (Quiet.of_outputs (List.append_nil _).symm (by simp) rfl rfl)

/-! ## Every move -/

/-- A proposal that is signed after a move was signed before it, or the move signs it. -/
theorem proposed_of_move (proposed : after.Proposed proposal) :
    before.Proposed proposal ∨ Proposes before after proposal := by
  rcases move_quiet_or_proposes increasing move with quiet | ⟨other, proposes⟩
  · exact Or.inl ((quiet.proposed _).mp proposed)
  · rcases (proposes.proposed _).mp proposed with old | isOther
    · exact Or.inl old
    · subst isOther
      exact Or.inr proposes

/-- The round goes up, or its proposal stays. -/
theorem move_keeps_proposal : before.round < after.round ∨ (after.round = before.round ∧
      (before.proposal.isSome = true → after.proposal.isSome = true)) := by
  rcases move_quiet_or_proposes increasing move with quiet | ⟨_, proposes⟩
  · exact quiet.round
  · exact Or.inr ⟨proposes.sameRound, fun _ => proposes.stored⟩

omit increasing in
theorem move_faithful (log : before.Faithful) : after.Faithful := by
  intro entry member
  have old (inLog : entry ∈ before.walVotes.entries) :
      entry.1 = (entry.2.1.height, entry.2.1.round, entry.2.1.signerId) ∧
        after.Signed entry.2.2 entry.2.1 :=
    (log entry inLog).imp_right (signed_after_move move)
  rcases move_silent_or_casts move with silent | ⟨isPrecommit, vote, casts⟩
  · exact old (silent.walVotes entry member)
  · rcases casts.walVotes entry member with inLog | isNew
    · exact old inLog
    · rw [isNew]
      exact ⟨rfl, (casts.signed _ _).mpr (Or.inr ⟨rfl, rfl⟩)⟩

/-- What a proposal uses up stays used up. -/
theorem Signing.spent_after (signing : Signing env before) (proposed : before.Proposed proposal)
    (sameHeight : proposal.height = before.height) :
    proposal.round < after.round ∨ (proposal.round = after.round ∧ (after.proposal.isSome = true ∨
      after.signedVotes.contains (before.height, after.round, false) = true)) := by
  rcases signing.spent proposal proposed sameHeight with below | ⟨current, bound⟩
  · left
    rcases move_keeps_proposal increasing move with above | ⟨same, _⟩
    · exact below.trans above
    · exact below.trans_eq same.symm
  · rcases move_keeps_proposal increasing move with above | ⟨same, kept⟩
    · exact Or.inl (current.trans_lt above)
    · rw [same]
      refine Or.inr ⟨current, bound.imp kept ?_⟩
      unfold Table.contains
      rw [Option.isSome_iff_exists, Option.isSome_iff_exists]
      rintro ⟨vote, found⟩
      exact ⟨vote, registered_after_move move found⟩

theorem move_signing (signing : Signing env before) : Signing env after := by
  have height := move_height move
  refine ⟨⟨?_, move_faithful move signing.log, ?_, ?_, ?_, ?_⟩, move_control move signing.control,
    ?_, ?_⟩
  · intro isPrecommit vote signed
    rcases signed_of_move move signed with old | casts
    · exact signing.own isPrecommit vote old
    · exact casts.own signing.control
  · intro isPrecommit vote signed
    rw [height]
    rcases signed_of_move move signed with old | casts
    · exact signing.reached isPrecommit vote old
    · exact casts.height.le
  · intro proposal proposed
    rw [height]
    rcases proposed_of_move increasing move proposed with old | proposes
    · exact signing.proposedReached proposal old
    · exact proposes.height.le
  · intro isPrecommit first second signedFirst signedSecond sameHeight sameRound
    refine move_signed_unique move (fun oldFirst oldSecond =>
      signing.once.votes isPrecommit first second oldFirst oldSecond sameHeight sameRound) ?_
      signedFirst signedSecond sameHeight sameRound
    intro vote other casts signed atHeight
    rcases signing.registered isPrecommit other signed (atHeight.trans casts.height) with below | found
    · exact (below.trans_eq casts.round.symm).ne
    · exact casts.fresh found
  · intro first second proposedFirst proposedSecond sameHeight sameRound
    -- a round with a proposal of the node is spent
    have fresh : ∀ proposal other, Proposes before after proposal → before.Proposed other →
        other.height = proposal.height → other.round ≠ proposal.round := by
      intro proposal other proposes proposed atHeight inRound
      rcases signing.spent other proposed (atHeight.trans proposes.height) with
        below | ⟨_, isSome | isSigned⟩
      · rw [inRound, proposes.round] at below
        exact below.false
      · rw [proposes.first] at isSome
        cases isSome
      · rw [proposes.unsigned] at isSigned
        cases isSigned
    rcases proposed_of_move increasing move proposedFirst with oldFirst | proposesFirst
    · rcases proposed_of_move increasing move proposedSecond with oldSecond | proposesSecond
      · exact signing.once.proposals first second oldFirst oldSecond sameHeight sameRound
      · exact absurd sameRound (fresh second first proposesSecond oldFirst sameHeight)
    · rcases (proposesFirst.proposed second).mp proposedSecond with oldSecond | isFirst
      · exact absurd sameRound.symm (fresh first second proposesFirst oldSecond sameHeight.symm)
      · exact isFirst.symm
  · intro isPrecommit vote signed sameHeight
    rw [height] at sameHeight ⊢
    rcases signed_of_move move signed with old | casts
    · rcases signing.registered isPrecommit vote old sameHeight with below | found
      · rcases move_keeps_proposal increasing move with above | ⟨same, _⟩
        · exact Or.inl (below.trans above)
        · exact Or.inl (below.trans_eq same.symm)
      · exact Or.inr (registered_after_move move found)
    · exact Or.inr casts.registered
  · intro proposal proposed sameHeight
    rw [height] at sameHeight ⊢
    rcases proposed_of_move increasing move proposed with old | proposes
    · exact Signing.spent_after increasing move signing old sameHeight
    · exact Or.inr ⟨proposes.round.trans proposes.sameRound.symm, Or.inl proposes.stored⟩

end Moves

/-! ## What a restart reads from the log -/

/-- The first entry for a key stays, so entries that agree on a key settle its value. -/
theorem find?_foldl_emplace {Entry : Type} (entries : List Entry) (keep : Entry → Prop)
    [DecidablePred keep] (keyOf : Entry → SignedKey) (voteOf : Entry → Vote) {key : SignedKey}
    (agree : ∀ entry ∈ entries, keep entry → keyOf entry = key → voteOf entry = vote)
    (signed : Table SignedKey Vote)
    (source : signed.find? key = some vote ∨
      (signed.find? key = none ∧ ∃ entry ∈ entries, keep entry ∧ keyOf entry = key)) :
    (entries.foldl (fun table entry =>
      if keep entry then table.emplace (keyOf entry) (voteOf entry) else table) signed).find? key =
      some vote := by
  induction entries generalizing signed with
  | nil =>
    rcases source with found | ⟨_, entry, member, _⟩
    · exact found
    · cases member
  | cons head tail ih =>
    rw [List.foldl_cons]
    apply ih fun entry member => agree entry (List.mem_cons_of_mem head member)
    rcases source with found | ⟨missing, entry, member, kept, isKey⟩
    · left
      split
      · rw [Table.find?_emplace]
        split
        next same =>
          rw [← same, found]
          rfl
        · exact found
      · exact found
    · by_cases hit : keep head ∧ keyOf head = key
      · left
        rw [if_pos hit.1, Table.find?_emplace, if_pos hit.2.symm, hit.2, missing,
          agree head List.mem_cons_self hit.1 hit.2]
        rfl
      · right
        refine ⟨?_, entry, ?_, kept, isKey⟩
        · split
          next kept =>
            rw [Table.find?_emplace, if_neg fun same => hit ⟨kept, same.symm⟩]
            exact missing
          · exact missing
        · rcases List.mem_cons.mp member with isHead | inTail
          · exact absurd ⟨isHead ▸ kept, isHead ▸ isKey⟩ hit
          · exact inTail

theorem find?_replayVotes {me : Nat} (fresh : engine.signedVotes = .empty)
    (keys : ∀ entry ∈ engine.walVotes.entries,
      entry.1 = (entry.2.1.height, entry.2.1.round, entry.2.1.signerId))
    (logged : engine.walVotes.find? (vote.height, vote.round, vote.signerId) =
      some (vote, isPrecommit)) (atHeight : vote.height = height) (signer : vote.signerId = me) :
    (engine.replayVotes height me).find? (height, vote.round, isPrecommit) = some vote := by
  have member := Table.find?_eq_some_iff.mp logged
  have sameKey : ∀ entry ∈ engine.walVotes.entries, entry.2.1.height = height →
      entry.2.1.signerId = me → entry.2.1.round = vote.round → entry.2 = (vote, isPrecommit) := by
    intro entry inLog entryHeight entrySigner entryRound
    have key : entry.1 = (vote.height, vote.round, vote.signerId) := by
      rw [keys entry inLog, entryHeight, entrySigner, entryRound, atHeight, signer]
    have found : engine.walVotes.find? entry.1 = some entry.2 := Table.find?_eq_some_iff.mpr inLog
    rw [key, logged] at found
    exact (Option.some.inj found).symm
  unfold replayVotes
  apply find?_foldl_emplace _ (fun entry : (Nat × Nat × Nat) × Vote × Bool =>
    entry.1.1 = height ∧ entry.2.1.height = height ∧ entry.2.1.signerId = me)
    (fun entry => (entry.2.1.height, entry.2.1.round, entry.2.2)) (fun entry => entry.2.1)
  · rintro entry inLog ⟨_, entryHeight, entrySigner⟩ isKey
    have entryRound : entry.2.1.round = vote.round := by
      have rounds := congrArg (fun key : SignedKey => key.2.1) isKey
      exact rounds
    exact congrArg Prod.fst (sameKey entry inLog entryHeight entrySigner entryRound)
  · right
    rw [fresh]
    exact ⟨rfl, _, member, ⟨atHeight, atHeight, signer⟩, by rw [atHeight]⟩

theorem le_foldl_max {entries : List (SignedKey × Vote)} {start : Nat} : ∀ entry ∈ entries,
      entry.1.2.1 ≤ entries.foldl (fun resume entry => max resume entry.1.2.1) start := by
  induction entries generalizing start with
  | nil => simp
  | cons head tail ih =>
    intro entry member
    rcases List.mem_cons.mp member with isHead | inTail
    · rw [isHead]
      exact @foldl_keeps _ _ (head.1.2.1 ≤ ·) _ tail (fun _ _ _ => le_max_of_le_left) _
        (le_max_right _ _)
    · exact ih entry inTail

/-- A height is opened with the votes of the log, in a round not below any of them. -/
theorem openHeight_replays {me : Nat}
    (isMe : (env.now (engine.resetForNewHeight height)).myValidatorId = me)
    (valid : me ≠ INVALID_ID) :
    (engine.openHeight env height).1.signedVotes =
        (engine.resetForNewHeight height).replayVotes height me ∧
      ∀ entry ∈ ((engine.resetForNewHeight height).replayVotes height me).entries,
        entry.1.2.1 ≤ (engine.openHeight env height).2 := by
  have replayed : ∃ start, ((engine.resetForNewHeight height).replayWalForHeight env height).1.signedVotes =
      (engine.resetForNewHeight height).replayVotes height me ∧
      ((engine.resetForNewHeight height).replayWalForHeight env height).2 =
        ((engine.resetForNewHeight height).replayVotes height me).entries.foldl
          (fun resume entry => max resume entry.1.2.1) start := by
    unfold replayWalForHeight
    dsimp only
    rw [isMe, if_neg valid]
    obtain ⟨locked, hash, round, result⟩ := replayLocks_cases height
      { engine.resetForNewHeight height with
        signedVotes := (engine.resetForNewHeight height).replayVotes height me }
    rw [result]
    cases locked
    · exact ⟨_, rfl, rfl⟩
    · exact ⟨_, rfl, rfl⟩
  obtain ⟨start, signedVotes, resume⟩ := replayed
  unfold openHeight
  dsimp only
  split
  · refine ⟨signedVotes, ?_⟩
    rw [resume]
    exact le_foldl_max
  · refine ⟨signedVotes, ?_⟩
    rw [resume]
    exact le_foldl_max

/-- The log has a vote of this height in a later round. -/
def LogsAfter (engine : Engine) (height round : Nat) : Prop :=
  ∃ entry ∈ engine.walVotes.entries, entry.1.1 = height ∧ round < entry.1.2.1

/-- The log binds the node at a height: what it signed there is in the log, a proposal by its
prevote, or belongs to a round it will not return to. -/
structure Recorded (height : Nat) (engine : Engine) : Prop where
  votes : ∀ isPrecommit vote, engine.Signed isPrecommit vote → vote.height = height →
    engine.walVotes.find? (vote.height, vote.round, vote.signerId) = some (vote, isPrecommit) ∨
      engine.LogsAfter height vote.round
  proposals : ∀ proposal, engine.Proposed proposal → proposal.height = height →
    (∃ entry ∈ engine.walVotes.entries, entry.1.1 = height ∧ entry.1.2.1 = proposal.round ∧
      entry.2.2 = false) ∨ engine.LogsAfter height proposal.round

/-- What must hold for a node to be started at a height. -/
structure Restartable (env : Env) (height : Nat) (engine : Engine) : Prop
    extends SignedUpTo env height engine where
  recorded : engine.Recorded height

/-- A node that never was at the height can be started there. -/
theorem SignedUpTo.restartable (record : SignedUpTo env height engine)
    (above : height < higher) : Restartable env higher engine := by
  refine ⟨record.raise above.le, ?_, ?_⟩
  · exact fun isPrecommit vote signed atHeight =>
      absurd (atHeight ▸ record.reached isPrecommit vote signed) above.not_ge
  · exact fun proposal proposed atHeight =>
      absurd (atHeight ▸ record.proposedReached proposal proposed) above.not_ge

theorem Restartable.above (restartable : Restartable env height engine)
    (notBelow : height ≤ higher) : Restartable env higher engine := by
  rcases notBelow.eq_or_lt with same | below
  · exact same ▸ restartable
  · exact restartable.restartable below

theorem newHeight_replays {event : Event} {opened : Engine}
    (newHeight : NewHeight env event engine height opened)
    (restartable : Restartable env height engine) {entry : (Nat × Nat × Nat) × Vote × Bool}
    (member : entry ∈ engine.walVotes.entries) (atHeight : entry.1.1 = height) :
    opened.signedVotes.find? (height, entry.1.2.1, entry.2.2) = some entry.2.1 ∧
      entry.1.2.1 ≤ opened.round := by
  obtain ⟨base, undecided, _, _, _, logged, _, kept, isOpened⟩ := newHeight.base
  obtain ⟨key, signed⟩ := restartable.log entry member
  have own := restartable.own _ _ signed
  have voteHeight : entry.2.1.height = height := by
    rw [key] at atHeight
    exact atHeight
  have view : (env.now (base.resetForNewHeight height)).myValidatorId = entry.2.1.signerId := by
    rw [own.signer, voteHeight]
    unfold Env.now stateHeight
    have idle : (base.resetForNewHeight height).pendingHeight = none := undecided.2
    rw [idle]
    rfl
  obtain ⟨replays, rounds⟩ := openHeight_replays view own.signerValid
  have inBase : (entry.1, entry.2.1, entry.2.2) ∈ base.walVotes.entries :=
    kept entry member atHeight.ge
  rw [key] at inBase
  have keys : ∀ other ∈ (base.resetForNewHeight height).walVotes.entries,
      other.1 = (other.2.1.height, other.2.1.round, other.2.1.signerId) :=
    fun other inLog => (restartable.log other (logged other inLog)).1
  have found := find?_replayVotes rfl keys (Table.find?_eq_some_iff.mpr inBase) voteHeight rfl
  rw [key, isOpened]
  refine ⟨?_, ?_⟩
  · rw [← found, ← replays]
    rfl
  · exact rounds _ (Table.find?_eq_some_iff.mp found)

theorem newHeight_signing {event : Event} {opened : Engine}
    (newHeight : NewHeight env event engine height opened)
    (restartable : Restartable env height engine) : Signing env opened := by
  have replays {entry : (Nat × Nat × Nat) × Vote × Bool} (member : entry ∈ engine.walVotes.entries)
      (atHeight : entry.1.1 = height) := newHeight_replays newHeight restartable member atHeight
  have signed := newHeight_signed newHeight
  obtain ⟨openedHeight, undecided, logged, resent, sent, broadcasts⟩ := newHeight_opened newHeight
  have proposed : ∀ proposal, opened.Proposed proposal ↔ engine.Proposed proposal := by
    intro proposal
    unfold Proposed
    rw [sent]
    apply proposed_append
    intro output member other isProposal
    obtain ⟨_, _, isBroadcast⟩ := broadcasts output member
    exact Output.noConfusion (isProposal.symm.trans isBroadcast)
  have later : ∀ round, engine.LogsAfter height round → round < opened.round := by
    rintro round ⟨entry, member, atHeight, below⟩
    exact below.trans_le (replays member atHeight).2
  refine ⟨restartable.carry openedHeight.ge signed proposed logged, .of_undecided undecided, ?_, ?_⟩
  · intro isPrecommit vote isSigned atHeight
    rw [openedHeight] at atHeight ⊢
    rcases restartable.recorded.votes isPrecommit vote ((signed _ _).mp isSigned) atHeight with
      inLog | after
    · exact Or.inr (replays (Table.find?_eq_some_iff.mp inLog) atHeight).1
    · exact Or.inl (later vote.round after)
  · intro proposal isProposed atHeight
    rw [openedHeight] at atHeight ⊢
    rcases restartable.recorded.proposals proposal ((proposed _).mp isProposed) atHeight with
      ⟨entry, member, entryHeight, entryRound, isPrevote⟩ | after
    · obtain ⟨found, notAbove⟩ := replays member entryHeight
      rw [entryRound] at found notAbove
      rcases notAbove.eq_or_lt with current | below
      · right
        refine ⟨current, Or.inr ?_⟩
        rw [← current]
        unfold Table.contains
        rw [isPrevote] at found
        rw [found]
        rfl
      · exact Or.inl below
    · exact Or.inl (later proposal.round after)

/-! ## Processes -/

/-- A new process: what was sent remains, and the log that was left. -/
def reboot (walVotes : Table (Nat × Nat × Nat) (Vote × Bool)) (walLocks : Table (Nat × Nat) Hash)
    (engine : Engine) : Engine :=
  { initial walVotes walLocks with outputs := engine.outputs }

/-- What a killed process leaves of its log: everything from the height on, and nothing new. A
truncation that was under way may have taken lower heights. -/
structure LogLeft (height : Nat) (engine : Engine)
    (walVotes : Table (Nat × Nat × Nat) (Vote × Bool)) (walLocks : Table (Nat × Nat) Hash) :
    Prop where
  votes : ∀ entry ∈ walVotes.entries, entry ∈ engine.walVotes.entries
  keptVotes : ∀ entry ∈ engine.walVotes.entries, height ≤ entry.1.1 → entry ∈ walVotes.entries
  locks : ∀ entry ∈ walLocks.entries, entry ∈ engine.walLocks.entries
  keptLocks : ∀ entry ∈ engine.walLocks.entries, height ≤ entry.1.1 → entry ∈ walLocks.entries

/-- Grants under which anything is delivered and a round only gives way to a later one. -/
def upwards : Grants := { anyGrants with advance := fun round target => round < target }

/-- The states in which the node can be killed while it handles an event: before the first move,
after some of the moves, or, once a new height is open, after some of the moves there. -/
inductive Interrupted (env : Env) (event : Event) (engine : Engine) : Engine → Prop
  | before : Interrupted env event engine engine
  | moving {inputs : Inputs} {middle : Engine} (running : engine.running = true)
      (path : ReflTransGen (Move env inputs upwards) engine middle) :
      Interrupted env event engine middle
  | opening {inputs : Inputs} {height : Nat} {opened middle : Engine}
      (awake : engine.running = true ∨ event = .start height)
      (newHeight : NewHeight env event engine height opened)
      (path : ReflTransGen (Move env inputs upwards) opened middle) :
      Interrupted env event engine middle

/-- The node is started at the height after its chain, or not at all. -/
def NotBelow (floor : Nat) (event : Event) : Prop :=
  ∀ height, event = .start height → floor ≤ height

end Engine

/-- What a run with crashes may do in a state: handle an event, or be killed. -/
inductive Occurrence
  | event (event : Event)
  | crash

/-- The states of one node over all its processes. `floor` is the height after the chain the node
has stored, and `Allowed` says when an occurrence may take place at this floor. -/
inductive CrashRun (env : Env) (Allowed : Nat → Occurrence → Engine → Prop) : Nat → Engine → Prop
  | initial : CrashRun env Allowed 0 (Engine.initial .empty .empty)
  | event {floor fuel : Nat} {engine after : Engine} {event : Event} {inputs : Inputs}
      (run : CrashRun env Allowed floor engine) (notBelow : Engine.NotBelow floor event)
      (allowed : Allowed floor (.event event) engine)
      (ran : handle env inputs fuel event engine = some after) :
      CrashRun env Allowed (max floor after.stateHeight) after
  | crash {floor : Nat} {engine middle : Engine} {event : Event}
      {walVotes : Table (Nat × Nat × Nat) (Vote × Bool)} {walLocks : Table (Nat × Nat) Hash}
      (run : CrashRun env Allowed floor engine) (notBelow : Engine.NotBelow floor event)
      (allowedEvent : Allowed floor (.event event) engine)
      (interrupted : Engine.Interrupted env event engine middle)
      (allowed : Allowed (max floor middle.stateHeight) .crash middle)
      (left : Engine.LogLeft (max floor middle.stateHeight) middle walVotes walLocks) :
      CrashRun env Allowed (max floor middle.stateHeight) (middle.reboot walVotes walLocks)

namespace Engine

variable {env : Env} {inputs : Inputs} {grants : Grants} {engine before after : Engine}
  {floor : Nat} {event : Event}

/-- The log binds the node whenever it is to be started again, after a crash or a stop, and the
round counter does not wrap. -/
def Recoverable (floor : Nat) : Occurrence → Engine → Prop
  | .event event, engine => engine.round + 1 < 2 ^ 32 ∧
      ∀ height, event = .start height → engine.running = false → engine.Recorded floor
  | .crash, engine => engine.Recorded floor

instance (height round : Nat) (engine : Engine) : Decidable (engine.LogsAfter height round) :=
  inferInstanceAs (Decidable (∃ entry ∈ engine.walVotes.entries, _))

def recordedOutput (height : Nat) (engine : Engine) : Output → Bool
  | .signedVote vote isPrecommit => vote.height = height →
      engine.walVotes.find? (vote.height, vote.round, vote.signerId) = some (vote, isPrecommit) ∨
        engine.LogsAfter height vote.round
  | .signedProposal proposal => proposal.height = height →
      (∃ entry ∈ engine.walVotes.entries, entry.1.1 = height ∧ entry.1.2.1 = proposal.round ∧
        entry.2.2 = false) ∨ engine.LogsAfter height proposal.round
  | _ => true

instance (height : Nat) (engine : Engine) : Decidable (engine.Recorded height) :=
  decidable_of_iff (∀ output ∈ engine.outputs, recordedOutput height engine output = true) (by
    constructor
    · intro all
      exact ⟨fun isPrecommit vote signed => of_decide_eq_true (all _ signed),
        fun proposal proposed => of_decide_eq_true (all _ proposed)⟩
    · intro recorded output member
      cases output with
      | signedVote vote isPrecommit => exact decide_eq_true (recorded.votes isPrecommit vote member)
      | signedProposal proposal => exact decide_eq_true (recorded.proposals proposal member)
      | _ => rfl)

/-! ## The height of the chain -/

/-- Once a block is stored, no move goes back on it. -/
theorem move_pending (move : Move env inputs grants before after) (control : before.Control)
    (stored : before.pendingHeight ≠ none) : after.pendingHeight = before.pendingHeight := by
  have step := control.pendingStep stored
  cases move.change with
  | prevote inPropose => cases step.symm.trans inPropose
  | precommit inPrevote => cases step.symm.trans inPrevote
  | lock polka inPrevote => cases step.symm.trans inPrevote
  | newRound round timeouts undecided => exact absurd undecided.2 stored
  | commit round block undecided => exact absurd undecided.2 stored
  | applied =>
    obtain ⟨next, isNext⟩ := Option.ne_none_iff_exists'.mp stored
    rw [isNext, control.pending next isNext]
    rfl
  | _ => rfl

theorem move_stateHeight_le (move : Move env inputs grants before after)
    (control : before.Control) : before.stateHeight ≤ after.stateHeight := by
  cases pending : before.pendingHeight with
  | none =>
    calc before.stateHeight = before.height := by rw [stateHeight, pending]; rfl
      _ = after.height := (move_height move).symm
      _ ≤ after.stateHeight := (move_control move control).height_le
  | some next =>
    have same := move_pending move control (by simp [pending])
    unfold stateHeight
    rw [same, pending]
    rfl

/-! ## The states of a run -/

/-- A node between two crashes: it works at the height after its chain, or is yet to be started. -/
inductive Standing (env : Env) (floor : Nat) (engine : Engine) : Prop
  | working (signing : Signing env engine) (height : engine.stateHeight = floor)
  | waiting (restartable : Restartable env floor engine) (stopped : engine.running = false)
      (step : engine.step = .newHeight) (height : engine.stateHeight ≤ floor)

theorem Standing.once (standing : Standing env floor engine) : engine.SignsOnce := by
  cases standing with
  | working signing => exact signing.once
  | waiting restartable => exact restartable.once

theorem path_standing (path : ReflTransGen (Move env inputs upwards) engine after)
    (signing : Signing env engine) (height : floor ≤ engine.stateHeight) :
    Standing env (max floor after.stateHeight) after := by
  have kept : Signing env after ∧ engine.stateHeight ≤ after.stateHeight := by
    induction path with
    | refl => exact ⟨signing, le_rfl⟩
    | tail _ move ih =>
      obtain ⟨middle, notBelow⟩ := ih
      exact ⟨move_signing (fun _ _ above => above) move middle,
        notBelow.trans (move_stateHeight_le move middle.control)⟩
  exact .working kept.1 (max_eq_right (height.trans kept.2)).symm

theorem Signing.restartable_at (signing : Signing env engine) (height : engine.stateHeight = floor)
    (recorded : engine.Recorded floor) : Restartable env floor engine :=
  ⟨signing.raise (height ▸ signing.control.height_le), recorded⟩

/-- A working node that opens a height is bound by its log there. -/
theorem Signing.opens {height : Nat} {opened : Engine} (signing : Signing env engine)
    (atFloor : engine.stateHeight = floor) (newHeight : NewHeight env event engine height opened)
    (notBelow : NotBelow floor event) (recoverable : Recoverable floor (.event event) engine) :
    Restartable env height engine ∧ floor ≤ height := by
  rcases newHeight.reason with ⟨isStart, stopped⟩ | pending | overtaken
  · have reached := notBelow height isStart
    have restartable := signing.restartable_at atFloor (recoverable.2 height isStart stopped)
    exact ⟨restartable.above reached, reached⟩
  · have next := signing.control.pending height pending
    refine ⟨signing.restartable (next ▸ Nat.lt_succ_self _), ?_⟩
    rw [← atFloor, stateHeight, pending]
    rfl
  · exact ⟨signing.restartable (signing.control.height_le.trans_lt overtaken),
      atFloor ▸ overtaken.le⟩

theorem newHeight_standing {height : Nat} {opened : Engine}
    (newHeight : NewHeight env event engine height opened)
    (bound : Restartable env height engine ∧ floor ≤ height)
    (path : ReflTransGen (Move env inputs upwards) opened after) :
    Standing env (max floor after.stateHeight) after := by
  apply path_standing path (newHeight_signing newHeight bound.1)
  obtain ⟨base, undecided, _, _, _, _, _, _, isOpened⟩ := newHeight.base
  obtain ⟨_, _, _, _, _, _, _, _, _, result, _, _⟩ := openHeight_cases env height base
  have openedHeight : opened.stateHeight = height := by
    rw [isOpened, result, stateHeight]
    exact congrArg (fun pending : Option Nat => pending.getD height) undecided.2
  exact openedHeight ▸ bound.2

theorem handle_waiting {fuel : Nat} (stopped : engine.running = false)
    (step : engine.step = .newHeight) (ran : handle env inputs fuel event engine = some after) :
    (∃ height, event = .start height) ∨
      ∃ next, after = { engine with externalNextHeight := next } := by
  have stays : some engine = some after →
      ∃ next, after = { engine with externalNextHeight := next } := by
    intro same
    cases same
    exact ⟨engine.externalNextHeight, rfl⟩
  have asleep : ∀ {result : Option Engine},
      (if engine.running then result else some engine) = some after →
      ∃ next, after = { engine with externalNextHeight := next } := by
    intro result same
    rw [if_neg (by simp [stopped])] at same
    exact stays same
  cases event with
  | start height => exact Or.inl ⟨height, rfl⟩
  | onProposal proposal => exact Or.inr (asleep ran)
  | onPrevote vote => exact Or.inr (asleep ran)
  | onPrecommit vote => exact Or.inr (asleep ran)
  | onTimeoutVote vote => exact Or.inr (asleep ran)
  | noteChainHead appliedHeight =>
    cases ran
    exact Or.inr ⟨_, rfl⟩
  | stop =>
    refine Or.inr (stays (Eq.trans ?_ ran))
    show some engine = some engine.stop
    rw [stop, if_neg (by simp [stopped])]
  | pollTimers =>
    refine Or.inr (stays (Eq.trans ?_ ran))
    show some engine = engine.pollTimers env inputs _
    rw [pollTimers, if_pos stopped]
  | tryPropose =>
    refine Or.inr (stays (Eq.trans ?_ ran))
    show some engine = engine.tryPropose env inputs _
    rw [tryPropose, if_pos (by simp [step])]

theorem skips_upwards : Grants.Skips upwards := fun _ _ above => above

theorem sourced_upwards (engine : Engine) : engine.Sourced upwards :=
  ⟨fun _ _ _ => trivial, fun _ _ => trivial⟩

/-- Only the part of the log from the height on binds the node there. -/
theorem Restartable.of_log {height : Nat} (restartable : Restartable env height before)
    (outputs : after.outputs = before.outputs)
    (old : ∀ entry ∈ after.walVotes.entries, entry ∈ before.walVotes.entries)
    (kept : ∀ entry ∈ before.walVotes.entries, height ≤ entry.1.1 →
      entry ∈ after.walVotes.entries) : Restartable env height after := by
  have signed : ∀ isPrecommit vote, after.Signed isPrecommit vote ↔
      before.Signed isPrecommit vote := by
    intro isPrecommit vote
    unfold Signed
    rw [outputs]
  have proposed : ∀ proposal, after.Proposed proposal ↔ before.Proposed proposal := by
    intro proposal
    unfold Proposed
    rw [outputs]
  have logsAfter : ∀ round, before.LogsAfter height round → after.LogsAfter height round := by
    rintro round ⟨entry, member, atHeight, above⟩
    exact ⟨entry, kept entry member atHeight.ge, atHeight, above⟩
  refine ⟨restartable.carry le_rfl signed proposed old, ?_, ?_⟩
  · intro isPrecommit vote isSigned atHeight
    rcases restartable.recorded.votes isPrecommit vote ((signed _ _).mp isSigned) atHeight with
      found | later
    · left
      exact Table.find?_eq_some_iff.mpr (kept _ (Table.find?_eq_some_iff.mp found) atHeight.ge)
    · exact Or.inr (logsAfter _ later)
  · intro proposal isProposed atHeight
    rcases restartable.recorded.proposals proposal ((proposed _).mp isProposed) atHeight with
      ⟨entry, member, entryHeight, isPrevote⟩ | later
    · exact Or.inl ⟨entry, kept entry member entryHeight.ge, entryHeight, isPrevote⟩
    · exact Or.inr (logsAfter _ later)

theorem handle_standing {fuel : Nat} (standing : Standing env floor engine)
    (notBelow : NotBelow floor event) (recoverable : Recoverable floor (.event event) engine)
    (ran : handle env inputs fuel event engine = some after) :
    Standing env (max floor after.stateHeight) after := by
  have allows : Allows env inputs upwards event engine := by
    refine ⟨skips_upwards, fun _ _ => trivial, fun _ _ => trivial, fun _ _ => trivial,
      fun _ => trivial, fun _ _ => ?_⟩
    show engine.round < u32 (engine.round + 1)
    rw [u32, Nat.mod_eq_of_lt recoverable.1]
    exact Nat.lt_succ_self _
  cases standing with
  | working signing atFloor =>
    obtain ⟨_, path | ⟨height, opened, newHeight, path⟩⟩ :=
      handle_handled (sourced_upwards engine) allows ran
    · exact path_standing path signing atFloor.ge
    · exact newHeight_standing newHeight (signing.opens atFloor newHeight notBelow recoverable) path
  | waiting restartable stopped step below =>
    rcases handle_waiting stopped step ran with ⟨height, isStart⟩ | ⟨next, same⟩
    · subst isStart
      obtain ⟨_, opened, newHeight, _, path⟩ :=
        start_opens skips_upwards (sourced_upwards engine) stopped ran
      have reached := notBelow height rfl
      exact newHeight_standing newHeight ⟨restartable.above reached, reached⟩ path.moves
    · have height : after.stateHeight = engine.stateHeight := by
        rw [same]
        rfl
      rw [height, max_eq_left below]
      refine .waiting ?_ (same ▸ stopped) (same ▸ step) (height ▸ below)
      have log : after.walVotes = engine.walVotes := by rw [same]
      exact restartable.of_log (same ▸ rfl) (fun entry member => log ▸ member)
        (fun entry member _ => log ▸ member)

/-- Wherever the process is killed, the log it leaves binds the next one. -/
theorem crash_standing {middle : Engine} {walVotes : Table (Nat × Nat × Nat) (Vote × Bool)}
    {walLocks : Table (Nat × Nat) Hash} (standing : Standing env floor engine)
    (notBelow : NotBelow floor event) (recoverable : Recoverable floor (.event event) engine)
    (interrupted : Interrupted env event engine middle)
    (recorded : middle.Recorded (max floor middle.stateHeight))
    (left : LogLeft (max floor middle.stateHeight) middle walVotes walLocks) :
    Standing env (max floor middle.stateHeight) (middle.reboot walVotes walLocks) := by
  have reached : Standing env (max floor middle.stateHeight) middle := by
    cases interrupted with
    | before =>
      cases standing with
      | working signing atFloor => exact .working signing (atFloor ▸ (max_self _).symm)
      | waiting restartable stopped step below =>
        rw [max_eq_left below]
        exact .waiting restartable stopped step below
    | moving running path =>
      cases standing with
      | working signing atFloor => exact path_standing path signing atFloor.ge
      | waiting _ stopped => cases running.symm.trans stopped
    | opening awake newHeight path =>
      cases standing with
      | working signing atFloor =>
        exact newHeight_standing newHeight
          (signing.opens atFloor newHeight notBelow recoverable) path
      | waiting restartable stopped =>
        have notLower := notBelow _ (awake.resolve_left (by simp [stopped]))
        exact newHeight_standing newHeight ⟨restartable.above notLower, notLower⟩ path
  have restartable : Restartable env (max floor middle.stateHeight) middle := by
    cases reached with
    | working signing atFloor => exact signing.restartable_at atFloor recorded
    | waiting restartable => exact restartable
  refine .waiting (restartable.of_log rfl left.votes left.keptVotes) rfl rfl ?_
  exact Nat.zero_le _

theorem restartable_initial (env : Env) : Restartable env 0 (initial .empty .empty) where
  own := fun _ _ signed => absurd signed List.not_mem_nil
  log := fun _ member => absurd member List.not_mem_nil
  reached := fun _ _ signed => absurd signed List.not_mem_nil
  proposedReached := fun _ proposed => absurd proposed List.not_mem_nil
  recorded :=
    { votes := fun _ _ signed => absurd signed List.not_mem_nil
      proposals := fun _ proposed => absurd proposed List.not_mem_nil }
  once :=
    { votes := fun _ _ _ signed => absurd signed List.not_mem_nil
      proposals := fun _ _ proposed => absurd proposed List.not_mem_nil }

end Engine

/-- A node that is bound by its log at every restart signs one value for each height, round and
kind of message, over all its processes. -/
theorem signsOnce_of_recoverable {env : Env} {floor : Nat} {engine : Engine}
    (run : CrashRun env Engine.Recoverable floor engine) : engine.SignsOnce := by
  have standing : Engine.Standing env floor engine := by
    induction run with
    | initial => exact .waiting (Engine.restartable_initial env) rfl rfl le_rfl
    | event _ notBelow allowed ran ih =>
      exact Engine.handle_standing ih notBelow allowed ran
    | crash _ notBelow allowedEvent interrupted allowed left ih =>
      exact Engine.crash_standing ih notBelow allowedEvent interrupted allowed left
  exact standing.once

/-! ## Runs on given occurrences -/

instance (floor : Nat) (event : Event) : Decidable (Engine.NotBelow floor event) :=
  match event with
  | .start height =>
    decidable_of_iff (floor ≤ height)
      ⟨fun notBelow _ isStart => Event.start.inj isStart ▸ notBelow,
        fun notBelow => notBelow height rfl⟩
  | .stop | .onProposal _ | .onPrevote _ | .onPrecommit _ | .onTimeoutVote _ | .noteChainHead _
  | .pollTimers | .tryPropose => isTrue fun _ isStart => Event.noConfusion isStart

instance (floor : Nat) (occurrence : Occurrence) (engine : Engine) :
    Decidable (Engine.Recoverable floor occurrence engine) :=
  match occurrence with
  | .crash => inferInstanceAs (Decidable (engine.Recorded floor))
  | .event (.start height) =>
    decidable_of_iff (engine.round + 1 < 2 ^ 32 ∧
        (engine.running = false → engine.Recorded floor))
      ⟨fun bound => ⟨bound.1, fun _ _ => bound.2⟩, fun bound => ⟨bound.1, bound.2 height rfl⟩⟩
  | .event .stop | .event (.onProposal _) | .event (.onPrevote _) | .event (.onPrecommit _)
  | .event (.onTimeoutVote _) | .event (.noteChainHead _) | .event .pollTimers
  | .event .tryPropose =>
    decidable_of_iff (engine.round + 1 < 2 ^ 32)
      ⟨fun bound => ⟨bound, fun _ isStart => Event.noConfusion isStart⟩, And.left⟩

section Schedules

variable (env : Env) (fuel : Nat) (Allowed : Nat → Occurrence → Engine → Prop)
  [∀ floor occurrence engine, Decidable (Allowed floor occurrence engine)]

/-- A run in which a process is killed between two events; `none` when an occurrence is not
allowed or the fuel is too small. -/
def runProcesses : List (Inputs × Occurrence) → Nat → Engine → Option (Nat × Engine)
  | [], floor, engine => some (floor, engine)
  | (inputs, .event event) :: rest, floor, engine =>
    if Engine.NotBelow floor event ∧ Allowed floor (.event event) engine then
      (handle env inputs fuel event engine).bind fun after =>
        runProcesses rest (max floor after.stateHeight) after
    else none
  | (_, .crash) :: rest, floor, engine =>
    let chain := max floor engine.stateHeight
    if Allowed floor (.event .stop) engine ∧ Allowed chain .crash engine then
      runProcesses rest chain (engine.reboot engine.walVotes engine.walLocks)
    else none

variable {env fuel Allowed}

theorem crashRun_of_runProcesses {schedule : List (Inputs × Occurrence)} {floor last : Nat}
    {engine final : Engine} (run : CrashRun env Allowed floor engine)
    (ran : runProcesses env fuel Allowed schedule floor engine = some (last, final)) :
    CrashRun env Allowed last final := by
  induction schedule generalizing floor engine with
  | nil =>
    cases ran
    exact run
  | cons head rest ih =>
    obtain ⟨inputs, event | _⟩ := head
    · simp only [runProcesses] at ran
      split at ran
      next guards =>
        obtain ⟨after, handled, ran⟩ := Option.bind_eq_some_iff.mp ran
        exact ih (run.event guards.1 guards.2 handled) ran
      · cases ran
    · simp only [runProcesses] at ran
      split at ran
      next guards =>
        have notStarted : Engine.NotBelow floor .stop := fun _ isStart => Event.noConfusion isStart
        refine ih (run.crash notStarted guards.1 .before guards.2 ?_) ran
        exact ⟨fun _ member => member, fun _ member _ => member, fun _ member => member,
          fun _ member _ => member⟩
      · cases ran

end Schedules

namespace Committee

/-- The second member is killed after its precommit and started again at the same height. -/
def killedAfterPrecommit : List (Inputs × Occurrence) :=
  [(inputs 20000 false, .event (.start 1)), (inputs 30000 true, .event .pollTimers),
    (inputs 30000 false, .crash), (inputs 50000 false, .event (.start 1))]

def proposalsOf (engine : Engine) : List Proposal :=
  engine.outputs.filterMap fun output =>
    match output with
    | .signedProposal proposal => some proposal
    | _ => none

def prevotesOf (engine : Engine) : List Vote :=
  engine.outputs.filterMap fun output =>
    match output with
    | .signedVote vote false => some vote
    | _ => none

theorem proposed_of_mem {engine : Engine} {proposal : Proposal}
    (member : proposal ∈ proposalsOf engine) : engine.Proposed proposal := by
  obtain ⟨output, sent, isProposal⟩ := List.mem_filterMap.mp member
  split at isProposal
  · cases isProposal
    exact sent
  · cases isProposal

theorem signed_of_mem {engine : Engine} {vote : Vote} (member : vote ∈ prevotesOf engine) :
    engine.Signed false vote := by
  obtain ⟨output, sent, isVote⟩ := List.mem_filterMap.mp member
  split at isVote
  · cases isVote
    exact sent
  · cases isVote

/-- In one round the member signs two proposals and two prevotes. -/
theorem restarted_member_signs_twice :
    ∃ floor engine, CrashRun (env 4 2) (fun _ _ _ => True) floor engine ∧
      (∃ first second, engine.Proposed first ∧ engine.Proposed second ∧
        first.height = second.height ∧ first.round = second.round ∧
        first.blockHash ≠ second.blockHash) ∧
      ∃ first second, engine.Signed false first ∧ engine.Signed false second ∧
        first.height = second.height ∧ first.round = second.round ∧
        first.blockHash ≠ second.blockHash := by
  have found : (runProcesses (env 4 2) 12 (fun _ _ _ => True) killedAfterPrecommit 0
      (Engine.initial .empty .empty)).any (fun reached => decide
        ((∃ first ∈ proposalsOf reached.2, ∃ second ∈ proposalsOf reached.2,
          first.height = second.height ∧ first.round = second.round ∧
          first.blockHash ≠ second.blockHash) ∧
        ∃ first ∈ prevotesOf reached.2, ∃ second ∈ prevotesOf reached.2,
          first.height = second.height ∧ first.round = second.round ∧
          first.blockHash ≠ second.blockHash)) = true := by
    decide +kernel
  rw [Option.any_eq_true] at found
  obtain ⟨⟨floor, engine⟩, ran, twice⟩ := found
  obtain ⟨⟨first, inFirst, second, inSecond, differ⟩, vote, inVote, other, inOther, votesDiffer⟩ :=
    of_decide_eq_true twice
  refine ⟨floor, engine, crashRun_of_runProcesses .initial ran, ?_, ?_⟩
  · exact ⟨first, second, proposed_of_mem inFirst, proposed_of_mem inSecond, differ⟩
  · exact ⟨vote, other, signed_of_mem inVote, signed_of_mem inOther, votesDiffer⟩

/-- The member is killed after its prevote and started again at the same height. -/
def killedAfterPrevote : List (Inputs × Occurrence) :=
  [(inputs 20000 false, .event (.start 1)), (inputs 30000 false, .crash),
    (inputs 50000 false, .event (.start 1))]

/-- The log binds it, and it signs nothing more. -/
theorem restarted_member_signs_once :
    ∃ floor engine, CrashRun (env 4 2) Engine.Recoverable floor engine ∧
      (proposalsOf engine).length = 1 ∧ (prevotesOf engine).length = 1 ∧ engine.SignsOnce := by
  have found : (runProcesses (env 4 2) 12 Engine.Recoverable killedAfterPrevote 0
      (Engine.initial .empty .empty)).any (fun reached => decide
        ((proposalsOf reached.2).length = 1 ∧ (prevotesOf reached.2).length = 1)) = true := by
    decide +kernel
  rw [Option.any_eq_true] at found
  obtain ⟨⟨floor, engine⟩, ran, lengths⟩ := found
  have run := crashRun_of_runProcesses .initial ran
  obtain ⟨oneProposal, onePrevote⟩ := of_decide_eq_true lengths
  exact ⟨floor, engine, run, oneProposal, onePrevote, signsOnce_of_recoverable run⟩

end Committee

end Clarity.Consensus
