import Mathlib.Data.List.Sort
import Mathlib.Data.List.Count

/-!
Contract: the first places of a list under a preference with ties.

Owns: `Ranks`, an order in which nobody is preferred to an earlier one; `CleanCut`, a number of
places that parts no tie; who is placed when the cut is clean; and `tilt`, the preference that
breaks ties in favour of some elements.
-/

namespace Clarity.Library

variable {α : Type}

/-- A strict preference: never both ways, and not being preferred is transitive. -/
structure Preference (less : α → α → Bool) : Prop where
  asymm : ∀ a b, less a b = true → less b a = false
  trans : ∀ a b c, less b a = false → less c b = false → less c a = false

theorem Preference.irrefl {less : α → α → Bool} (preference : Preference less) (a : α) :
    less a a = false := by
  cases self : less a a with
  | false => rfl
  | true => exact self.symm.trans (preference.asymm a a self)

/-- A permutation in which nobody is preferred to an earlier one. -/
structure Ranks (less : α → α → Bool) (candidates ranked : List α) : Prop where
  perm : ranked.Perm candidates
  sorted : ranked.Pairwise fun earlier later => less later earlier = false

/-- Preferred where the first preference is, and in a tie where `front` holds. -/
def tilt (front : α → Bool) (less : α → α → Bool) (a b : α) : Bool :=
  less a b || (!less b a && front a && !front b)

theorem Preference.tilt {less : α → α → Bool} (preference : Preference less) (front : α → Bool) :
    Preference (tilt front less) := by
  constructor
  · intro a b isLess
    have asymm := preference.asymm a b
    unfold Library.tilt at *
    grind
  · intro a b c first second
    have direct := preference.trans a b c
    -- were `a` and `c` tied, both would be tied with `b`, and `front` decides
    have left := preference.trans b c a
    have right := preference.trans c a b
    unfold Library.tilt at *
    grind

theorem Ranks.of_tilt {less : α → α → Bool} {front : α → Bool} {candidates ranked : List α}
    (ranks : Ranks (tilt front less) candidates ranked) : Ranks less candidates ranked := by
  refine ⟨ranks.perm, ranks.sorted.imp fun {earlier later} apart => ?_⟩
  unfold tilt at apart
  rw [Bool.or_eq_false_iff] at apart
  exact apart.1

variable [DecidableEq α]

/-- How many candidates are preferred to `a`. -/
def preferred (less : α → α → Bool) (candidates : List α) (a : α) : Nat :=
  candidates.countP fun other => less other a

/-- How many other candidates `a` is not preferred to. -/
def rivals (less : α → α → Bool) (candidates : List α) (a : α) : Nat :=
  candidates.countP fun other => decide (other ≠ a) && !less a other

/-- No candidate is tied across the last of the places. -/
def CleanCut (less : α → α → Bool) (candidates : List α) (places : Nat) : Prop :=
  ∀ a ∈ candidates, places ≤ preferred less candidates a ∨ rivals less candidates a < places

instance (less : α → α → Bool) (candidates : List α) (places : Nat) :
    Decidable (CleanCut less candidates places) :=
  inferInstanceAs (Decidable (∀ a ∈ candidates, _ ∨ _))

variable {less : α → α → Bool} {candidates ranked : List α} {places : Nat} {a : α}

theorem CleanCut.perm {other : List α} (clean : CleanCut less candidates places)
    (perm : other.Perm candidates) : CleanCut less other places := by
  intro a member
  unfold preferred rivals
  rw [perm.countP_eq, perm.countP_eq]
  exact clean a (perm.mem_iff.mp member)

/-- Where a candidate first stands: behind all that are preferred to it, before all it is
preferred to. -/
theorem Ranks.position (preference : Preference less) (ranks : Ranks less candidates ranked)
    (member : a ∈ candidates) :
    ∃ ahead, preferred less candidates a ≤ ahead ∧ ahead ≤ rivals less candidates a ∧
      (a ∈ ranked.take places ↔ ahead < places) := by
  obtain ⟨before, behind, isRanked, first⟩ :=
    List.eq_append_cons_of_mem (ranks.perm.mem_iff.mpr member)
  have sorted := ranks.sorted
  rw [isRanked, List.pairwise_append, List.pairwise_cons] at sorted
  obtain ⟨_, ⟨later, _⟩, earlier⟩ := sorted
  refine ⟨before.length, ?_, ?_, ?_⟩
  · have none : behind.countP (fun other => less other a) = 0 :=
      List.countP_eq_zero.mpr fun other isBehind => by simp [later other isBehind]
    unfold preferred
    rw [← ranks.perm.countP_eq, isRanked, List.countP_append, List.countP_cons, none,
      preference.irrefl]
    simpa using List.countP_le_length
  · have all : before.countP (fun other => decide (other ≠ a) && !less a other) = before.length :=
      List.countP_eq_length.mpr fun other isBefore => by
        have apart : other ≠ a := fun same => first (same ▸ isBefore)
        simp [apart, earlier other isBefore a List.mem_cons_self]
    unfold rivals
    rw [← ranks.perm.countP_eq, isRanked, List.countP_append, all]
    exact Nat.le_add_right _ _
  · rw [isRanked, List.take_append, List.mem_append]
    constructor
    · rintro (early | placed)
      · exact absurd (List.mem_of_mem_take early) first
      · by_contra notPlaced
        rw [Nat.sub_eq_zero_of_le (Nat.le_of_not_lt notPlaced)] at placed
        exact List.not_mem_nil placed
    · intro placed
      right
      rw [← Nat.succ_pred (Nat.sub_ne_zero_of_lt placed), List.take_succ_cons]
      exact List.mem_cons_self

/-- Behind a clean cut the placed candidates are those that few are preferred to. -/
theorem CleanCut.mem_take (clean : CleanCut less candidates places)
    (preference : Preference less) (ranks : Ranks less candidates ranked) :
    a ∈ ranked.take places ↔ a ∈ candidates ∧ preferred less candidates a < places := by
  constructor
  · intro placed
    have member := ranks.perm.mem_iff.mp (List.mem_of_mem_take placed)
    obtain ⟨ahead, lower, _, place⟩ := @Ranks.position _ _ _ _ _ places _ preference ranks member
    exact ⟨member, Nat.lt_of_le_of_lt lower (place.mp placed)⟩
  · rintro ⟨member, few⟩
    obtain ⟨ahead, _, upper, place⟩ := @Ranks.position _ _ _ _ _ places _ preference ranks member
    rcases clean a member with many | fewRivals
    · exact absurd few (Nat.not_lt.mpr many)
    · exact place.mpr (Nat.lt_of_le_of_lt upper fewRivals)

/-- A candidate that wins its ties is placed if few are preferred to it. -/
theorem mem_take_of_tilt (preference : Preference less) (member : a ∈ candidates)
    (ranks : Ranks (tilt (fun other => decide (other = a)) less) candidates ranked)
    (few : preferred less candidates a < places) : a ∈ ranked.take places := by
  obtain ⟨ahead, _, upper, place⟩ :=
    @Ranks.position _ _ _ _ _ places _ (preference.tilt _) ranks member
  refine place.mpr (Nat.lt_of_le_of_lt (upper.trans ?_) few)
  refine List.countP_mono_left fun other _ rival => ?_
  unfold tilt at rival
  grind

/-- A candidate that loses its ties is not placed if it has many rivals. -/
theorem not_mem_take_of_tilt (preference : Preference less) (member : a ∈ candidates)
    (ranks : Ranks (tilt (fun other => decide (other ≠ a)) less) candidates ranked)
    (many : places ≤ rivals less candidates a) : a ∉ ranked.take places := by
  obtain ⟨ahead, lower, _, place⟩ :=
    @Ranks.position _ _ _ _ _ places _ (preference.tilt _) ranks member
  rw [place]
  refine Nat.not_lt.mpr (many.trans (le_trans ?_ lower))
  refine List.countP_mono_left fun other _ rival => ?_
  unfold tilt
  grind

end Clarity.Library
