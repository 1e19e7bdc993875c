import Mathlib.Data.Finset.Card
import Mathlib.Data.List.Nodup

/-!
Contract: two quorums of one set of members share a correct member.

Owns: the counting argument, over any type of members, for quorums given as lists without
repetition.
-/

namespace Clarity.Library

variable {α : Type} [DecidableEq α]

/-- A list of distinct members that is at least `threshold` long. -/
structure IsQuorum (members : List α) (threshold : Nat) (voters : List α) : Prop where
  distinct : voters.Nodup
  members : ∀ voter ∈ voters, voter ∈ members
  enough : threshold ≤ voters.length

/-- If two quorums together outnumber the members and the faulty ones, a correct member is in
both. -/
theorem IsQuorum.meet {members left right : List α} {leftThreshold rightThreshold : Nat}
    {faulty : α → Prop} [DecidablePred faulty] (isLeft : IsQuorum members leftThreshold left)
    (isRight : IsQuorum members rightThreshold right)
    (large : members.length + (members.filter faulty).length < leftThreshold + rightThreshold) :
    ∃ voter, voter ∈ left ∧ voter ∈ right ∧ ¬faulty voter := by
  by_contra none
  push Not at none
  have common : (left.toFinset ∩ right.toFinset) ⊆ (members.filter faulty).toFinset := by
    intro voter inBoth
    obtain ⟨inLeft, inRight⟩ := Finset.mem_inter.mp inBoth
    rw [List.mem_toFinset] at inLeft inRight
    simpa using ⟨isLeft.members voter inLeft, none voter inLeft inRight⟩
  have union : (left.toFinset ∪ right.toFinset) ⊆ members.toFinset := by
    intro voter inEither
    rcases Finset.mem_union.mp inEither with inLeft | inRight
    · exact List.mem_toFinset.mpr (isLeft.members voter (List.mem_toFinset.mp inLeft))
    · exact List.mem_toFinset.mpr (isRight.members voter (List.mem_toFinset.mp inRight))
  have count : left.length + right.length ≤ members.length + (members.filter faulty).length := by
    calc left.length + right.length
        = left.toFinset.card + right.toFinset.card := by
          rw [List.toFinset_card_of_nodup isLeft.distinct,
            List.toFinset_card_of_nodup isRight.distinct]
      _ = (left.toFinset ∪ right.toFinset).card + (left.toFinset ∩ right.toFinset).card :=
          (Finset.card_union_add_card_inter _ _).symm
      _ ≤ members.toFinset.card + (members.filter faulty).toFinset.card :=
          Nat.add_le_add (Finset.card_le_card union) (Finset.card_le_card common)
      _ ≤ members.length + (members.filter faulty).length :=
          Nat.add_le_add (List.toFinset_card_le _) (List.toFinset_card_le _)
  have enoughLeft := isLeft.enough
  have enoughRight := isRight.enough
  omega

end Clarity.Library
