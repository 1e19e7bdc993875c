import Clarity.Consensus.Engine.Effects
import Clarity.Consensus.Engine.Moves

/-!
Contract: handling an event is a path of moves.

Owns: which methods leave the mailbox alone, that buffered votes are votes that were
delivered, and one theorem for each method: what it returns is reached by moves.
-/

namespace Clarity.Consensus

open Common Crypto Clarity.Core Library Relation

namespace Engine

/-! ## The mailbox and the noted head -/

/-- The counter of timeouts is the round, unless the height is over. -/
def Timed (engine : Engine) : Prop :=
  engine.pendingHeight = none → engine.consecutiveTimeouts = engine.round

/-- The mailbox and the noted head are the same, and so are the round, the counter of timeouts
and the pending height. -/
def SameInbox (before after : Engine) : Prop :=
  after.mailbox = before.mailbox ∧ after.externalNextHeight = before.externalNextHeight ∧
    (after.pendingHeight, after.consecutiveTimeouts, after.round) =
      (before.pendingHeight, before.consecutiveTimeouts, before.round)

theorem tallyPast_inbox (env : Env) (vote : Vote) (engine : Engine) :
    SameInbox engine (engine.tallyPast env vote).1 := by
  obtain ⟨_, _, result⟩ := tallyPast_frame env vote engine
  rw [result]
  exact ⟨rfl, rfl, rfl⟩

theorem castPrevote_inbox (env : Env) (engine : Engine) :
    SameInbox engine (engine.castPrevote env).1 := by
  obtain ⟨_, _, _, _, frame⟩ := castPrevote_frame env engine
  rw [frame]
  exact ⟨rfl, rfl, rfl⟩

theorem castPrecommit_inbox (env : Env) (engine : Engine) :
    SameInbox engine (engine.castPrecommit env).1 := by
  obtain ⟨_, _, _, _, ⟨_, frame⟩ | ⟨_, _, frame⟩⟩ := castPrecommit_frame env engine
  · rw [frame]
    exact ⟨rfl, rfl, rfl⟩
  · rw [frame]
    exact ⟨rfl, rfl, rfl⟩

theorem broadcastTimeoutVote_inbox (env : Env) (round : Nat) (engine : Engine) :
    SameInbox engine (engine.broadcastTimeoutVote env round) := by
  obtain ⟨_, _, result, _⟩ := broadcastTimeoutVote_cases env round engine
  rw [result]
  exact ⟨rfl, rfl, rfl⟩

end Engine

/-! ## Buffered votes were delivered -/

theorem InStore.of_filter {store : Table Nat VoteMap} {keep : Nat × VoteMap → Bool} {vote : Vote}
    (held : InStore (store.filter keep) vote) : InStore store vote := by
  obtain ⟨bucket, inStore, entry⟩ := held
  exact ⟨bucket, (Table.mem_filter.mp inStore).1, entry⟩

theorem not_inStore_empty (vote : Vote) : ¬InStore Table.empty vote := by
  rintro ⟨bucket, inEmpty, _⟩
  cases inEmpty

theorem InStore.of_find {store : Table Nat VoteMap} {key : Nat} {bucket : VoteMap}
    {entry : Nat × Vote} (found : store.find? key = some bucket)
    (member : entry ∈ bucket.entries) : InStore store entry.2 :=
  ⟨(key, bucket), Table.find?_eq_some_iff.mp found, entry, member, rfl⟩

/-- A bucket takes in at most the new vote. -/
theorem InStore.of_fillBucket {store : Table Nat VoteMap} {key signer : Nat} {vote other : Vote}
    (held : InStore (Engine.fillBucket key signer vote store) other) :
    InStore store other ∨ other = vote := by
  obtain ⟨bucket, inStore, entry, inBucket, isOther⟩ := held
  have oldBucket : ∀ entry ∈ ((store.find? key).getD Table.empty).entries, InStore store entry.2 := by
    intro entry member
    cases found : store.find? key with
    | none =>
      rw [found] at member
      cases member
    | some old =>
      rw [found] at member
      exact InStore.of_find found member
  unfold Engine.fillBucket at inStore
  dsimp only at inStore
  split at inStore
  · rcases Table.mem_put inStore with ⟨inOld, _⟩ | isNew
    · exact Or.inl ⟨bucket, inOld, entry, inBucket, isOther⟩
    · subst isNew
      rcases Table.mem_emplace inBucket with inOld | isVote
      · exact Or.inl (isOther ▸ oldBucket entry inOld)
      · right
        rw [← isOther, isVote]
  · rcases Table.mem_put inStore with ⟨inOld, _⟩ | isNew
    · exact Or.inl ⟨bucket, inOld, entry, inBucket, isOther⟩
    · subst isNew
      exact Or.inl (isOther ▸ oldBucket entry inBucket)

theorem InStore.of_delivered {grants : Grants} {isPrecommit : Bool} {store : Table Nat VoteMap}
    {key signer : Nat} {vote other : Vote} (delivered : grants.delivered isPrecommit vote)
    (held : InStore (Engine.fillBucket key signer vote store) other) :
    InStore store other ∨ grants.delivered isPrecommit other :=
  held.of_fillBucket.imp id (fun isNew : other = vote => isNew ▸ delivered)

/-- The new mailbox holds what the old one held, and messages that were delivered. What is not
said of a change is what it leaves as it was. -/
structure Mailbox.Takes (grants : Grants) (old new : Mailbox) : Prop where
  pending : ∀ isPrecommit, ∀ vote ∈ new.pending isPrecommit,
    vote ∈ old.pending isPrecommit ∨ grants.delivered isPrecommit vote := by
      exact fun _ _ => Or.inl
  rounds : ∀ isPrecommit vote, InStore (new.futureRound isPrecommit) vote →
    InStore (old.futureRound isPrecommit) vote ∨ grants.delivered isPrecommit vote := by
      exact fun _ _ => Or.inl
  heights : ∀ isPrecommit vote, InStore (new.futureHeight isPrecommit) vote →
    InStore (old.futureHeight isPrecommit) vote ∨ grants.delivered isPrecommit vote := by
      exact fun _ _ => Or.inl
  proposals : ∀ entry ∈ new.futureProposals.entries,
    entry ∈ old.futureProposals.entries ∨ grants.proposed entry.2 := by
      exact fun _ => Or.inl
  heightProposals : ∀ entry ∈ new.futureHeightProposals.entries,
    entry ∈ old.futureHeightProposals.entries ∨ grants.proposed entry.2 := by
      exact fun _ => Or.inl

namespace Engine

variable {grants : Grants} {engine : Engine} {vote : Vote} {isPrecommit : Bool} {signer : Nat}
  {before after : Engine} {env : Env} {inputs : Inputs}

theorem Sourced.take (sourced : before.Sourced grants)
    (takes : before.mailbox.Takes grants after.mailbox) : after.Sourced grants := by
  constructor
  · rintro isPrecommit vote (inPending | inRound | inHeight)
    · exact (takes.pending isPrecommit vote inPending).elim
        (fun old => sourced.votes isPrecommit vote (Or.inl old)) id
    · exact (takes.rounds isPrecommit vote inRound).elim
        (fun old => sourced.votes isPrecommit vote (Or.inr (Or.inl old))) id
    · exact (takes.heights isPrecommit vote inHeight).elim
        (fun old => sourced.votes isPrecommit vote (Or.inr (Or.inr old))) id
  · rintro proposal (⟨entry, member, rfl⟩ | ⟨entry, member, rfl⟩)
    · exact (takes.proposals entry member).elim
        (fun old => sourced.proposals _ (Or.inl ⟨entry, old, rfl⟩)) id
    · exact (takes.heightProposals entry member).elim
        (fun old => sourced.proposals _ (Or.inr ⟨entry, old, rfl⟩)) id

theorem Sourced.of_mailbox_eq (sourced : before.Sourced grants)
    (same : after.mailbox = before.mailbox) : after.Sourced grants where
  votes := fun isPrecommit vote held => sourced.votes isPrecommit vote (same ▸ held)
  proposals := fun proposal held => sourced.proposals proposal (same ▸ held)

/-! A vote that is put aside. -/

theorem takes_pushPending (delivered : grants.delivered isPrecommit vote) :
    engine.mailbox.Takes grants (engine.pushPending isPrecommit vote).mailbox := by
  have oneMore {other : Vote} {buffer : List Vote} (member : other ∈ pushBuffer vote buffer) :
      other ∈ buffer ∨ grants.delivered isPrecommit other := by
    unfold pushBuffer at member
    dsimp only at member
    split_ifs at member
    · exact Or.inl member
    · exact Or.inl member
    · exact Or.inl member
    · rcases List.mem_append.mp member with old | isNew
      · exact Or.inl old
      · exact Or.inr (List.mem_singleton.mp isNew ▸ delivered)
  cases isPrecommit
  · refine { pending := ?_ }
    rintro (_ | _) other member
    · exact oneMore member
    · exact Or.inl member
  · refine { pending := ?_ }
    rintro (_ | _) other member
    · exact Or.inl member
    · exact oneMore member

section Buckets

variable {key : Nat} (delivered : grants.delivered isPrecommit vote)

include delivered

theorem takes_futureRound : engine.mailbox.Takes grants
    (if isPrecommit then
      { engine.mailbox with
        futureRoundPrecommits := fillBucket key signer vote engine.mailbox.futureRoundPrecommits }
    else
      { engine.mailbox with
        futureRoundPrevotes := fillBucket key signer vote engine.mailbox.futureRoundPrevotes }) := by
  cases isPrecommit
  · refine { rounds := ?_ }
    rintro (_ | _) other held
    · exact held.of_delivered delivered
    · exact Or.inl held
  · refine { rounds := ?_ }
    rintro (_ | _) other held
    · exact Or.inl held
    · exact held.of_delivered delivered

theorem takes_futureHeight : engine.mailbox.Takes grants
    (if isPrecommit then
      { engine.mailbox with
        futureHeightPrecommits := fillBucket key signer vote engine.mailbox.futureHeightPrecommits }
    else
      { engine.mailbox with
        futureHeightPrevotes := fillBucket key signer vote engine.mailbox.futureHeightPrevotes }) := by
  cases isPrecommit
  · refine { heights := ?_ }
    rintro (_ | _) other held
    · exact held.of_delivered delivered
    · exact Or.inl held
  · refine { heights := ?_ }
    rintro (_ | _) other held
    · exact Or.inl held
    · exact held.of_delivered delivered

end Buckets

/-! ## Methods without calls back -/

/-- A move that leaves the noted head alone: all that a method makes but `noteChainHead`. Unless
the round wraps around, the counter of timeouts stays the round. -/
structure Act (env : Env) (inputs : Inputs) (grants : Grants) (before after : Engine) : Prop where
  move : Move env inputs grants before after
  noted : after.externalNextHeight = before.externalNextHeight
  timed : before.round ≤ after.round → after.round < 2 ^ 32 → before.Timed → after.Timed

abbrev Acts (env : Env) (inputs : Inputs) (grants : Grants) : Engine → Engine → Prop :=
  ReflTransGen (Act env inputs grants)

/-- An act that keeps the mailbox sourced. -/
abbrev SourcedAct (env : Env) (inputs : Inputs) (grants : Grants) : Engine → Engine → Prop :=
  Keeping (Sourced grants) (Act env inputs grants)

abbrev Course (env : Env) (inputs : Inputs) (grants : Grants) : Engine → Engine → Prop :=
  ReflTransGen (SourcedAct env inputs grants)

/-- What a method returns is reached by moves, which keep the mailbox sourced. -/
abbrev Follows (env : Env) (inputs : Inputs) (grants : Grants) (engine : Engine)
    (result : Option Engine) : Prop :=
  Reaches (Sourced grants) (Act env inputs grants) engine result

theorem quiet (move : Move env inputs grants before after) (inbox : SameInbox before after) :
    SourcedAct env inputs grants before after := by
  obtain ⟨mailbox, noted, counters⟩ := inbox
  simp only [Prod.mk.injEq] at counters
  refine ⟨⟨move, noted, ?_⟩, fun sourced => sourced.of_mailbox_eq mailbox⟩
  intro _ _ timed
  unfold Timed
  rwa [counters.1, counters.2.1, counters.2.2]

theorem applies (engine : Engine) :
    SourcedAct env inputs grants engine (engine.tryApplyCommit env inputs) := by
  have move := @Move.apply env inputs grants engine
  rcases tryApplyCommit_cases env inputs engine with
    same | ⟨_, _, _, applied⟩ | ⟨_, _, _, _, _, _, _, _, _, _, _, _, rejected⟩
  · rw [same] at move ⊢
    exact quiet move ⟨rfl, rfl, rfl⟩
  · rw [applied] at move ⊢
    exact ⟨⟨move, rfl, fun _ _ _ pending => by cases pending⟩, fun sourced => sourced.of_mailbox_eq rfl⟩
  · rw [rejected] at move ⊢
    exact quiet move ⟨rfl, rfl, rfl⟩

theorem takes {change : Mailbox → Mailbox}
    (takes : engine.mailbox.Takes grants (change engine.mailbox)) :
    SourcedAct env inputs grants engine (engine.modifyMailbox change) :=
  ⟨⟨.mailbox engine change, rfl, fun _ _ timed => timed⟩, fun sourced => sourced.take takes⟩

theorem enterCommit_cases (env : Env) (inputs : Inputs) (height round : Nat) (engine : Engine) :
    engine.enterCommit env inputs height round = engine ∨
      ∃ block, engine.Undecided ∧ engine.blockToCommit env round = some block ∧
        engine.enterCommit env inputs height round =
          (engine.startCommit block).tryApplyCommit env inputs := by
  unfold enterCommit
  split
  · exact Or.inl rfl
  next free =>
    split
    · exact Or.inl rfl
    · split
      · exact Or.inl rfl
      next block found =>
        right
        refine ⟨block, ?_, found, rfl⟩
        simpa [Undecided, and_comm] using free

theorem enterCommit_moves (height round : Nat) (engine : Engine) :
    Course env inputs grants engine (engine.enterCommit env inputs height round) := by
  rcases enterCommit_cases env inputs height round engine with same | ⟨block, free, quorum, result⟩
  · rw [same]
  · rw [result]
    exact (ReflTransGen.single (quiet (.commit engine round block free quorum) ⟨rfl, rfl, rfl⟩)).tail
      (applies _)

theorem checkPrecommitQuorum_moves (engine : Engine) :
    Course env inputs grants engine (engine.checkPrecommitQuorum env inputs) := by
  unfold checkPrecommitQuorum
  split
  · exact enterCommit_moves _ _ engine
  · exact .refl

def Recordable (grants : Grants) (engine : Engine) (vote : Vote) (isPrecommit : Bool) : Prop :=
  (grants.delivered isPrecommit vote ∧ engine.voteReady vote = true) ∨
    engine.signedVotes.find? (engine.height, engine.round, isPrecommit) = some vote

theorem Recordable.keeping (source : Recordable grants engine vote isPrecommit) :
    SourcedAct env inputs grants engine (engine.tallyVote env vote isPrecommit).1 := by
  apply quiet (.record engine vote isPrecommit source)
  obtain ⟨_, _, _, result⟩ := tallyVote_frame env vote isPrecommit engine
  rw [result]
  exact ⟨rfl, rfl, rfl⟩

theorem recordPrecommit_moves (source : Recordable grants engine vote true) :
    Course env inputs grants engine (engine.recordPrecommit env inputs vote) := by
  unfold recordPrecommit
  dsimp only
  split
  · exact (ReflTransGen.single source.keeping).trans (checkPrecommitQuorum_moves _)
  · exact .single source.keeping

theorem recordPastPrecommit_moves (source : grants.delivered true vote)
    (height : vote.height = engine.height) (past : vote.round < engine.round) :
    Course env inputs grants engine (engine.recordPastPrecommit env inputs vote) := by
  unfold recordPastPrecommit
  dsimp only
  split
  · exact .refl
  · split
    · exact .refl
    next ready =>
      split
      · exact .refl
      next signer =>
        split
        · exact .refl
        next verified =>
          have recorded : SourcedAct env inputs grants engine (engine.tallyPast env vote).1 :=
            quiet (.recordPast engine vote source height past (by simpa using ready) signer
              (by simpa using verified)) (tallyPast_inbox env vote engine)
          split
          · exact (ReflTransGen.single recorded).trans (enterCommit_moves _ _ _)
          · exact .single recorded

/-- A vote `signOwnVote` returns is the registered one for its height, round and type. -/
theorem signOwnVote_recordable {isNil : Bool} {hash : Hash}
    (signed : (engine.signOwnVote env isPrecommit isNil hash).2 = some vote) :
    Recordable grants (engine.signOwnVote env isPrecommit isNil hash).1 vote isPrecommit := by
  right
  rcases signOwnVote_cases env isPrecommit isNil hash engine with
    none | ⟨prior, found, result⟩ | ⟨missing, _, _, result⟩
  · rw [none] at signed
    cases signed
  · rw [result] at signed ⊢
    cases signed
    exact found
  · rw [result] at signed ⊢
    cases signed
    simp [registerVote, Table.find?_emplace, missing]

/-- No move changes the height. -/
theorem move_height (move : Move env inputs grants before after) : after.height = before.height := by
  cases move.change <;> rfl

theorem Acts.noted (path : Acts env inputs grants before after) :
    after.externalNextHeight = before.externalNextHeight := by
  induction path with
  | refl => rfl
  | tail _ act ih => exact act.noted.trans ih

theorem Acts.moves (path : Acts env inputs grants before after) :
    ReflTransGen (Move env inputs grants) before after :=
  ReflTransGen.mono (fun _ _ => Act.move) _ _ path

theorem Course.acts (course : Course env inputs grants before after) :
    Acts env inputs grants before after :=
  ReflTransGen.mono (fun _ _ => Keeping.move) _ _ course

theorem Course.sourced (course : Course env inputs grants before after)
    (sourced : before.Sourced grants) : after.Sourced grants :=
  path_invariant (fun _ _ => Keeping.keeps) course sourced

theorem Course.height (course : Course env inputs grants before after) :
    after.height = before.height := by
  induction course with
  | refl => rfl
  | tail _ act ih => exact (move_height act.move.move).trans ih

/-! ## Methods that call back -/

/-- The two entries of every cycle follow the moves. -/
structure SelfFollows (env : Env) (inputs : Inputs) (grants : Grants) (calls : Self) : Prop where
  handleVote : ∀ engine vote isPrecommit, grants.delivered isPrecommit vote →
    Follows env inputs grants engine (calls (.handleVote vote isPrecommit) engine)
  enterPropose : ∀ engine round timeouts, engine.Undecided → engine.step ≠ .commit →
    grants.advance engine.round round →
    ((timeouts = engine.consecutiveTimeouts ∧ round = u32 (engine.round + 1)) ∨
      timeouts = round - 1) →
    Follows env inputs grants engine
      (calls (.enterPropose engine.height round) (engine.setTimeouts timeouts))

section Calls

variable {self : Self} (selfFollows : SelfFollows env inputs grants self)

include selfFollows

theorem drainVotes_follows {votes : List Vote}
    (delivered : ∀ vote ∈ votes, grants.delivered isPrecommit vote) :
    Follows env inputs grants engine (engine.drainVotes self isPrecommit votes) := by
  apply Reaches.foldlM votes
  intro vote member state
  exact selfFollows.handleVote state vote isPrecommit (delivered vote member)

/-- Draining a mailbox after some of its votes were taken out. -/
theorem drainBoth_follows {change : Mailbox → Mailbox} {prevotes precommits : List Vote}
    (prevotesHeld : ∀ vote ∈ prevotes, engine.mailbox.Holds false vote)
    (precommitsHeld : ∀ vote ∈ precommits, engine.mailbox.Holds true vote)
    (fewer : engine.mailbox.Takes grants (change engine.mailbox)) :
    Follows env inputs grants engine (do
      let engine ← (engine.modifyMailbox change).drainVotes self false prevotes
      engine.drainVotes self true precommits) := by
  refine Reaches.given fun sourced => Reaches.afterStep (takes fewer) (Reaches.bind ?_ ?_)
  · exact drainVotes_follows selfFollows
      fun vote member => sourced.votes false vote (prevotesHeld vote member)
  · exact fun middle _ => drainVotes_follows selfFollows
      fun vote member => sourced.votes true vote (precommitsHeld vote member)

theorem drainPendingVotes_follows :
    Follows env inputs grants engine (engine.drainPendingVotes self) := by
  apply drainBoth_follows selfFollows
  · exact fun vote => Or.inl
  · exact fun vote => Or.inl
  · exact { pending := fun isPrecommit vote member => by cases isPrecommit <;> cases member }

omit selfFollows in
theorem inStore_bucketVotes {store : Table Nat VoteMap} {key : Nat}
    (member : vote ∈ bucketVotes env store key) : InStore store vote := by
  unfold bucketVotes at member
  split at member
  · cases member
  next bucket found =>
    obtain ⟨entry, inOrder, isVote⟩ := List.mem_map.mp member
    rw [← isVote]
    exact InStore.of_find found ((env.order.votes_perm bucket).mem_iff.mp inOrder)

theorem drainFutureRoundVotes_follows :
    Follows env inputs grants engine (engine.drainFutureRoundVotes env self) := by
  apply drainBoth_follows selfFollows
  · exact fun vote member => Or.inr (Or.inl (inStore_bucketVotes member))
  · exact fun vote member => Or.inr (Or.inl (inStore_bucketVotes member))
  · exact { rounds := fun isPrecommit vote held => Or.inl (by
      cases isPrecommit <;> exact InStore.of_filter held) }

theorem drainFutureHeightVotes_follows :
    Follows env inputs grants engine (engine.drainFutureHeightVotes env self) := by
  apply drainBoth_follows selfFollows
  · exact fun vote member => Or.inr (Or.inr (inStore_bucketVotes member))
  · exact fun vote member => Or.inr (Or.inr (inStore_bucketVotes member))
  · exact { heights := fun isPrecommit vote held => Or.inl (by
      cases isPrecommit <;> exact InStore.of_filter held) }

/-! ### The steps of a round -/

/-- `enterPrecommit` from a state that precommits as `start` does. -/
theorem enterPrecommit_follows {start : Engine} (step : start.step = .prevote)
    (entering : engine.step = .prevote)
    (reason : (start.quorumValue env false).isSome = true ∨ grants.fallback start)
    (same : engine.precommitNow env inputs = start.precommitNow env inputs) :
    Follows env inputs grants start
      (engine.enterPrecommit env inputs self engine.height engine.round) := by
  have cast : SourcedAct env inputs grants start (start.castPrecommit env).1 :=
    quiet (.precommit start step reason) (castPrecommit_inbox env start)
  have recordable (vote : Vote) (signed : (start.castPrecommit env).2 = some vote) :
      Recordable grants (start.castPrecommit env).1 vote true := signOwnVote_recordable signed
  have moves : Course env inputs grants start (start.precommitNow env inputs) := by
    unfold precommitNow
    split
    next result =>
      rw [result] at cast
      exact .single cast
    next vote result =>
      rw [result] at cast recordable
      exact ((ReflTransGen.single cast).trans (recordPrecommit_moves (recordable vote rfl))).tail
        (quiet (.sent _ vote true) ⟨rfl, rfl, rfl⟩)
  unfold enterPrecommit
  rw [if_neg (by simp [entering]), if_neg (by simp), same]
  apply Reaches.after moves
  refine .guard fun _ => ?_
  apply Reaches.afterStep (quiet (.control _ _ true _) ⟨rfl, rfl, rfl⟩)
  apply Reaches.bind (drainPendingVotes_follows selfFollows)
  exact fun middle _ => .guard fun _ => Reaches.path (checkPrecommitQuorum_moves middle)

omit selfFollows in
/-- Noting a polka changes nothing that a later lock does not set again. -/
theorem precommitNow_noteValid {polka : Hash} (quorum : engine.quorumValue env false = some polka) :
    (engine.noteValid polka).precommitNow env inputs = engine.precommitNow env inputs := by
  have sameLock : ((engine.noteValid polka).setStep .precommit).lockPolka env =
      (engine.setStep .precommit).lockPolka env := by
    have after : ((engine.noteValid polka).setStep .precommit).quorumValue env false =
        some polka := by
      rw [← quorum]
      unfold noteValid
      split <;> rfl
    have before : (engine.setStep .precommit).quorumValue env false = some polka := quorum
    unfold lockPolka
    rw [after, before]
    unfold noteValid
    dsimp only
    split <;> rfl
  unfold precommitNow castPrecommit
  rw [sameLock]

theorem checkPrevoteQuorum_follows :
    Follows env inputs grants engine (engine.checkPrevoteQuorum env inputs self) := by
  unfold checkPrevoteQuorum
  split
  · exact Reaches.stay
  next polka quorum =>
    obtain ⟨_, _, _, frame⟩ := noteValid_frame polka engine
    have sameStep : (engine.noteValid polka).step = engine.step := by rw [frame]
    have inbox : SameInbox engine (engine.noteValid polka) := by
      rw [frame]
      exact ⟨rfl, rfl, rfl⟩
    dsimp only
    split
    next step =>
      rw [sameStep] at step
      apply enterPrecommit_follows selfFollows step (sameStep.trans step)
      · left
        rw [quorum]
        rfl
      · exact precommitNow_noteValid quorum
    next step =>
      rw [sameStep] at step
      exact Reaches.step (quiet (.valid engine polka quorum step) inbox)

theorem recordVote_follows (source : Recordable grants engine vote isPrecommit) :
    Follows env inputs grants engine
      (engine.recordVote env inputs self vote isPrecommit) := by
  unfold recordVote
  cases isPrecommit with
  | true => exact Reaches.path (recordPrecommit_moves source)
  | false =>
    rw [if_neg (by decide)]
    dsimp only
    split
    · exact Reaches.afterStep source.keeping (checkPrevoteQuorum_follows selfFollows)
    · exact Reaches.step source.keeping

theorem prevoteNow_follows (step : engine.step = .propose) :
    Follows env inputs grants engine (engine.prevoteNow env inputs self) := by
  have cast : SourcedAct env inputs grants engine (engine.castPrevote env).1 :=
    quiet (.prevote engine step) (castPrevote_inbox env engine)
  have recordable (vote : Vote) (signed : (engine.castPrevote env).2 = some vote) :
      Recordable grants (engine.castPrevote env).1 vote false := signOwnVote_recordable signed
  unfold prevoteNow
  split
  next result =>
    rw [result] at cast
    exact Reaches.step cast
  next vote result =>
    rw [result] at cast recordable
    apply Reaches.afterStep cast
    apply Reaches.bind (recordVote_follows selfFollows (recordable vote rfl))
    exact fun middle _ => Reaches.step (quiet (.sent middle vote false) ⟨rfl, rfl, rfl⟩)

theorem enterPrevote_follows (step : engine.step = .propose) : Follows env inputs grants engine
      (engine.enterPrevote env inputs self engine.height engine.round) := by
  unfold enterPrevote
  rw [if_neg (by simp [step]), if_neg (by simp)]
  apply Reaches.bind (prevoteNow_follows selfFollows step)
  refine fun voted _ => .guard fun _ => ?_
  apply Reaches.afterStep (quiet (.control voted _ true _) ⟨rfl, rfl, rfl⟩)
  apply Reaches.bind (drainPendingVotes_follows selfFollows)
  exact fun drained _ => .guard fun _ => checkPrevoteQuorum_follows selfFollows

/-! ### Proposing -/

theorem tryPropose_follows :
    Follows env inputs grants engine (engine.tryPropose env inputs self) := by
  unfold tryPropose propose
  refine .guard fun step => .guard fun first => .guard fun _ => .guard fun _ => ?_
  refine .guard fun unsigned => .guard fun _ => ?_
  split
  · exact Reaches.stay
  next proposal block made =>
    apply Reaches.afterStep (quiet (.own engine proposal block (not_not.mp step)
      (by simpa using first) (by simpa using unsigned) made) ⟨rfl, rfl, rfl⟩)
    dsimp only
    split
    next step => exact enterPrevote_follows selfFollows step
    · exact Reaches.stay

/-! ### The round skip -/

omit selfFollows in
theorem skipTarget_spec {target : Nat} (skips : engine.skipTarget env = some target) :
    engine.Undecided ∧ engine.step ≠ .commit ∧ engine.round < target ∧ engine.running = true := by
  unfold skipTarget at skips
  dsimp only at skips
  split at skips
  · cases skips
  next free =>
    split at skips
    · cases skips
    · split at skips
      · cases skips
      · split at skips
        · cases skips
        next above =>
          cases skips
          simp only [not_or, Bool.not_eq_false, Bool.not_eq_true, Option.isSome_eq_false_iff,
            Option.isNone_iff_eq_none] at free
          exact ⟨⟨free.2.2.2, free.2.2.1⟩, free.2.1, Nat.lt_of_not_le above, free.1⟩

/-- The grants allow every skip to a later round. -/
def Grants.Skips (grants : Grants) : Prop := ∀ round target, round < target → grants.advance round target

variable (skips : Grants.Skips grants)

include skips

theorem maybeSkipRound_follows :
    Follows env inputs grants engine (engine.maybeSkipRound env self) := by
  unfold maybeSkipRound
  split
  · exact Reaches.stay
  next target found =>
    obtain ⟨undecided, notCommitted, above, _⟩ := skipTarget_spec found
    refine Reaches.afterStep (takes ?_) (selfFollows.enterPropose
      (engine.modifyMailbox (dropHints target)) target (target - 1) undecided notCommitted
      (skips _ _ above) (Or.inr rfl))
    exact {}

theorem noteRoundHint_follows {round : Nat} :
    Follows env inputs grants engine (engine.noteRoundHint env self signer round) := by
  unfold noteRoundHint
  exact .guard fun _ => Reaches.afterStep (takes {}) (maybeSkipRound_follows selfFollows skips)

/-! ### Messages -/

theorem handleProposal_follows {proposal : Proposal} (proposed : grants.proposed proposal) :
    Follows env inputs grants engine (engine.handleProposal env inputs self proposal) := by
  have oneMore {table : Table Nat Proposal} {key : Nat} :
      ∀ entry ∈ (table.emplace key proposal).entries, entry ∈ table.entries ∨ grants.proposed entry.2 :=
    fun entry member => (Table.mem_emplace member).imp id (fun isNew : entry = _ => isNew ▸ proposed)
  unfold handleProposal
  refine .guard fun _ => ?_
  split
  · split
    · exact Reaches.step (takes { heightProposals := oneMore })
    · exact Reaches.stay
  next sameHeight =>
    split
    · exact .guard fun _ => .guard fun _ => Reaches.afterStep (takes { proposals := oneMore })
        (noteRoundHint_follows selfFollows skips)
    next notAbove =>
      refine .guard fun notBelow => .guard fun first => ?_
      split
      · exact Reaches.stay
      next block acceptable =>
        apply Reaches.afterStep (quiet (.accept engine proposal block proposed
          (not_not.mp sameHeight)
          (Nat.le_antisymm (Nat.le_of_not_lt notAbove) (Nat.le_of_not_lt notBelow))
          (by simpa using first) acceptable) ⟨rfl, rfl, rfl⟩)
        apply Reaches.bind (drainPendingVotes_follows selfFollows)
        intro drained _
        split
        next step => exact enterPrevote_follows selfFollows step.1
        · exact Reaches.stay

omit skips in
theorem placeVote_follows (delivered : grants.delivered isPrecommit vote)
    (height : vote.height = engine.height) :
    Follows env inputs grants engine
      (engine.placeVote env inputs self vote isPrecommit signer) := by
  unfold placeVote
  split
  · unfold bufferFutureVote
    split
    · exact Reaches.stay
    · split
      · exact Reaches.stay
      · exact Reaches.step (takes (takes_futureRound delivered))
  · split
    next past =>
      split
      next precommit =>
        subst precommit
        exact Reaches.path (recordPastPrecommit_moves delivered height past)
      · exact Reaches.stay
    · split
      · exact Reaches.step (takes (takes_pushPending delivered))
      next ready =>
        apply recordVote_follows selfFollows
        left
        refine ⟨delivered, ?_⟩
        simpa using (not_or.mp ready).2

theorem handleVote_follows (delivered : grants.delivered isPrecommit vote) :
    Follows env inputs grants engine
      (engine.handleVote env inputs self vote isPrecommit) := by
  unfold handleVote
  split
  · split
    · split
      · exact Reaches.stay
      · exact Reaches.step (takes (takes_futureHeight delivered))
    · exact Reaches.stay
  next sameHeight =>
    have height : vote.height = engine.height := not_not.mp sameHeight
    split
    · exact Reaches.stay
    · split
      · apply Reaches.bind (noteRoundHint_follows selfFollows skips)
        intro noted course
        exact placeVote_follows selfFollows delivered (height.trans (Course.height course).symm)
      · exact placeVote_follows selfFollows delivered height

theorem drainFutureProposal_follows :
    Follows env inputs grants engine (engine.drainFutureProposal env inputs self) := by
  unfold drainFutureProposal
  split
  · exact Reaches.stay
  next proposal found =>
    refine Reaches.given fun sourced => Reaches.afterStep (takes ?_)
      (handleProposal_follows selfFollows skips (sourced.proposals proposal
        (Or.inl ⟨_, Table.find?_eq_some_iff.mp found, rfl⟩)))
    exact { proposals := fun entry member => Or.inl (Table.mem_erase.mp member).1 }

theorem drainFutureHeightProposal_follows :
    Follows env inputs grants engine (engine.drainFutureHeightProposal env inputs self) := by
  unfold drainFutureHeightProposal
  dsimp only
  split
  · exact Reaches.step
      (takes { heightProposals := fun entry member => Or.inl (Table.mem_filter.mp member).1 })
  next proposal found =>
    refine Reaches.afterStep (takes ?_) (Reaches.given fun sourced => Reaches.afterStep (takes ?_)
      (handleProposal_follows selfFollows skips (sourced.proposals proposal
        (Or.inr ⟨_, Table.find?_eq_some_iff.mp found, rfl⟩))))
    · exact { heightProposals := fun entry member => Or.inl (Table.mem_filter.mp member).1 }
    · exact { heightProposals := fun entry member => Or.inl (Table.mem_erase.mp member).1 }

/-! ### Rounds -/

omit selfFollows skips in
/-- A new round keeps at most the messages that waited for a later one. -/
theorem takes_beginRound (engine : Engine) (round : Nat) :
    engine.mailbox.Takes grants (engine.beginRound env round).mailbox where
  pending := by
    rintro (_ | _) vote ⟨⟩
  rounds := by
    rintro (_ | _) vote held
    · exact Or.inl (InStore.of_filter held)
    · exact Or.inl (InStore.of_filter held)
  proposals := fun entry member => Or.inl (Table.mem_filter.mp member).1

/-- What `enterPropose` does once its round has begun. -/
theorem enterPropose_follows {height round : Nat} :
    Follows env inputs grants (engine.beginRound env round)
      (engine.enterPropose env inputs self height round) := by
  unfold enterPropose
  dsimp only
  apply Reaches.bind (drainFutureHeightProposal_follows selfFollows skips)
  intro _ _
  apply Reaches.bind (drainFutureProposal_follows selfFollows skips)
  intro _ _
  apply Reaches.bind (drainFutureHeightVotes_follows selfFollows)
  intro _ _
  apply Reaches.bind (drainFutureRoundVotes_follows selfFollows)
  refine fun _ _ => .guard fun _ => ?_
  split
  · exact tryPropose_follows selfFollows
  · exact Reaches.stay

end Calls

/-- A round that begins after a timeout or a skip leaves the counter at its number. -/
theorem timed_beginRound {round timeouts : Nat} (active : engine.pendingHeight = none)
    (counted : (timeouts = engine.consecutiveTimeouts ∧ round = u32 (engine.round + 1)) ∨
      timeouts = round - 1)
    (grows : engine.round ≤ round) (typed : round < 2 ^ 32) (timed : engine.Timed) :
    ((engine.setTimeouts timeouts).beginRound env round).Timed := by
  intro _
  change (if round > 0 then u32 (timeouts + 1) else timeouts) = round
  have before := timed active
  split
  next positive =>
    rcases counted with ⟨rfl, next⟩ | rfl
    · rw [before, ← next]
    · rw [Nat.sub_add_cancel positive]
      exact Nat.mod_eq_of_lt typed
  · omega

/-- Calls follow the moves, however deep they nest. -/
theorem exec_follows (env : Env) (inputs : Inputs) (skips : Grants.Skips grants) (fuel : Nat) :
    SelfFollows env inputs grants (exec env inputs fuel) := by
  induction fuel with
  | zero =>
    constructor
    · intro engine vote isPrecommit _ _ final ran
      cases ran
    · intro engine round timeouts _ _ _ _ _ final ran
      cases ran
  | succ fuel ih =>
    constructor
    · intro engine vote isPrecommit delivered
      exact handleVote_follows ih skips delivered
    · intro engine round timeouts undecided notCommitted advances counted
      have begun : SourcedAct env inputs grants engine
          ((engine.setTimeouts timeouts).beginRound env round) :=
        ⟨⟨.newRound engine round timeouts undecided notCommitted advances (counted.imp And.left id),
            rfl, timed_beginRound undecided.2 counted⟩,
          fun sourced => sourced.take (takes_beginRound (engine.setTimeouts timeouts) round)⟩
      exact Reaches.afterStep begun (enterPropose_follows ih skips)

end Engine

end Clarity.Consensus
