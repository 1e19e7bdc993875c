import Mathlib.Logic.Basic

/-!
Contract: agreement by locking, in two phases of voting over rounds.

Owns: `LockDiscipline`, what each correct node promises about its own votes and how
quorums meet in correct nodes, and the theorem that two decided values are equal.

A polka is a quorum of first-phase votes, a decision a quorum of second-phase votes. A node
that voted for a value in the second phase leaves it only for a value with a later polka.
-/

namespace Clarity.Library

variable {Node Value : Type}

/-- What correct nodes promise, and where quorums meet. -/
structure LockDiscipline (prevoted precommitted : Node → Nat → Value → Prop)
    (polka decided : Nat → Value → Prop) : Prop where
  onePrevote : ∀ node round left right, prevoted node round left → prevoted node round right →
    left = right
  onePrecommit : ∀ node round left right, precommitted node round left →
    precommitted node round right → left = right
  /-- A precommit follows a polka of its round, or agrees with the node's own prevote. -/
  backed : ∀ node round value, precommitted node round value →
    polka round value ∨ ∀ other, prevoted node round other → other = value
  /-- After a precommit another value is prevoted only on a polka since. -/
  prevoteAfter : ∀ node early late value other, precommitted node early value →
    prevoted node late other → early < late →
    other = value ∨ ∃ round, early ≤ round ∧ round < late ∧ polka round other
  /-- After a precommit another value is precommitted only on a later polka. -/
  precommitAfter : ∀ node early late value other, precommitted node early value →
    precommitted node late other → early < late →
    other = value ∨ ∃ round, early < round ∧ round ≤ late ∧ polka round other
  polkasMeet : ∀ round left right, polka round left → polka round right →
    ∃ node, prevoted node round left ∧ prevoted node round right
  decisionMeetsPolka : ∀ early late value other, decided early value → polka late other →
    ∃ node, precommitted node early value ∧ prevoted node late other
  decisionsMeet : ∀ early late value other, decided early value → decided late other →
    ∃ node, precommitted node early value ∧ precommitted node late other

namespace LockDiscipline

variable {prevoted precommitted : Node → Nat → Value → Prop} {polka decided : Nat → Value → Prop}
  (discipline : LockDiscipline prevoted precommitted polka decided)

include discipline

/-- From the round of a decision on, every polka is for the decided value. -/
theorem polka_eq_of_decided {early : Nat} {value : Value} (isDecided : decided early value) :
    ∀ late other, early ≤ late → polka late other → other = value := by
  intro late
  induction late using Nat.strongRecOn with
  | ind late ih =>
    intro other le isPolka
    obtain ⟨node, precommit, prevote⟩ :=
      discipline.decisionMeetsPolka early late value other isDecided isPolka
    rcases Nat.lt_or_eq_of_le le with later | same
    · rcases discipline.prevoteAfter node early late value other precommit prevote later with
        equal | ⟨round, notBefore, before, since⟩
      · exact equal
      · exact ih round before other notBefore since
    · subst same
      rcases discipline.backed node early value precommit with ownPolka | own
      · obtain ⟨both, left, right⟩ :=
          discipline.polkasMeet early other value isPolka ownPolka
        exact discipline.onePrevote both early other value left right
      · exact own other prevote

theorem decided_eq_of_le {early late : Nat} {value other : Value} (isDecided : decided early value)
    (otherDecided : decided late other) (le : early ≤ late) : other = value := by
  obtain ⟨node, first, second⟩ :=
    discipline.decisionsMeet early late value other isDecided otherDecided
  rcases Nat.lt_or_eq_of_le le with later | same
  · rcases discipline.precommitAfter node early late value other first second later with
      equal | ⟨round, after, _, since⟩
    · exact equal
    · exact discipline.polka_eq_of_decided isDecided round other (Nat.le_of_lt after) since
  · subst same
    exact discipline.onePrecommit node early other value second first

/-- **Agreement.** Two decided values are equal, whatever their rounds. -/
theorem decided_eq {early late : Nat} {value other : Value} (isDecided : decided early value)
    (otherDecided : decided late other) : value = other := by
  rcases Nat.le_total early late with le | le
  · exact (discipline.decided_eq_of_le isDecided otherDecided le).symm
  · exact discipline.decided_eq_of_le otherDecided isDecided le

end LockDiscipline

end Clarity.Library
