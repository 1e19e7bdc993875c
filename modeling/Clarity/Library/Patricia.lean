import Mathlib.Data.List.Basic

/-!
Contract: prefix-compressed binary tries.

Owns:
- `Trie`, whose leaves hold the bits of a key that are left and whose branches hold the bits
  all keys below share; a branch has two children, so the empty trie is not one;
- lookup, insertion and deletion, and the induction along the key of a call;
- that insertion and deletion are those of a finite map, for keys of one length;
- that a trie is determined by the map it holds.
-/

namespace Clarity.Library.Patricia

variable {V : Type}

/-! ## Bits -/

/-- What is left of `bits` after `stem`. -/
def strip : List Bool → List Bool → Option (List Bool)
  | [], bits => some bits
  | _ :: _, [] => none
  | first :: stem, bit :: bits => if first = bit then strip stem bits else none

theorem strip_eq_some_iff {stem bits rest : List Bool} :
    strip stem bits = some rest ↔ bits = stem ++ rest := by
  induction stem generalizing bits with
  | nil => simp [strip]
  | cons first stem ih =>
    cases bits with
    | nil => simp [strip]
    | cons bit bits =>
      by_cases same : first = bit
      · simp [strip, same, ih]
      · simp [strip, same, Ne.symm same]

@[simp] theorem strip_append (stem rest : List Bool) : strip stem (stem ++ rest) = some rest :=
  strip_eq_some_iff.mpr rfl

theorem strip_append_append (front stem bits : List Bool) :
    strip (front ++ stem) (front ++ bits) = strip stem bits := by
  induction front with
  | nil => rfl
  | cons first front ih => simp [strip, ih]

/-- Where two bit strings part: what they share, the bit of the first, and what is left of each
behind that bit. -/
structure Fork where
  shared : List Bool
  bit : Bool
  left : List Bool
  right : List Bool
deriving DecidableEq

/-- The first place where two bit strings differ. -/
def diverge : List Bool → List Bool → Option Fork
  | first :: left, second :: right =>
    if first = second then
      (diverge left right).map fun fork => { fork with shared := first :: fork.shared }
    else some { shared := [], bit := first, left := left, right := right }
  | _, _ => none

theorem diverge_eq_some {left right : List Bool} {fork : Fork}
    (parts : diverge left right = some fork) :
    left = fork.shared ++ fork.bit :: fork.left ∧
      right = fork.shared ++ (!fork.bit) :: fork.right := by
  induction left generalizing right fork with
  | nil => cases parts
  | cons first left ih =>
    cases right with
    | nil => cases parts
    | cons second right =>
      unfold diverge at parts
      split at parts
      next same =>
        obtain ⟨inner, found, isFork⟩ := Option.map_eq_some_iff.mp parts
        obtain ⟨isLeft, isRight⟩ := ih found
        rw [← isFork, ← same]
        exact ⟨congrArg _ isLeft, congrArg _ isRight⟩
      next different =>
        cases parts
        have flipped : second = !first := by
          cases first <;> cases second <;> simp_all
        simp [flipped]

/-- Strings that do not part and are not too short: the first is the beginning of the second. -/
theorem diverge_eq_none {left right : List Bool} (together : diverge left right = none)
    (longer : left.length ≤ right.length) : ∃ rest, right = left ++ rest := by
  induction left generalizing right with
  | nil => exact ⟨right, rfl⟩
  | cons first left ih =>
    cases right with
    | nil => simp at longer
    | cons second right =>
      unfold diverge at together
      split at together
      next same =>
        obtain ⟨rest, isRight⟩ := ih (Option.map_eq_none_iff.mp together)
          (by simpa using longer)
        exact ⟨rest, by rw [isRight, ← same]; rfl⟩
      next => cases together

/-- Bits of one length that do not part are the same. -/
theorem eq_of_diverge_eq_none {left right : List Bool} (together : diverge left right = none)
    (sameLength : left.length = right.length) : left = right := by
  obtain ⟨rest, isRight⟩ := diverge_eq_none together (Nat.le_of_eq sameLength)
  have noRest : rest = [] := by
    rw [isRight, List.length_append] at sameLength
    exact List.length_eq_zero_iff.mp (by omega)
  rw [isRight, noRest, List.append_nil]

theorem diverge_append (stem rest : List Bool) : diverge stem (stem ++ rest) = none := by
  induction stem with
  | nil => cases rest <;> rfl
  | cons first stem ih => simp [diverge, ih]

theorem diverge_append_append (shared left right : List Bool) (bit : Bool) :
    diverge (shared ++ bit :: left) (shared ++ (!bit) :: right) = some ⟨shared, bit, left, right⟩ := by
  induction shared with
  | nil => simp [diverge]
  | cons first shared ih => simp [diverge, ih]

theorem outside_of_diverge {stem bits : List Bool} {fork : Fork}
    (parts : diverge stem bits = some fork) (rest : List Bool) : bits ≠ stem ++ rest := by
  intro isBits
  rw [isBits, diverge_append] at parts
  cases parts

/-! ## Tries -/

/-- A trie that holds at least one key. -/
inductive Trie (V : Type) where
  | leaf (suffix : List Bool) (value : V)
  | branch (stem : List Bool) (left right : Trie V)
deriving DecidableEq

namespace Trie

variable {length : Nat} {stem bits : List Bool} {left right trie other : Trie V}

def child (bit : Bool) (left right : Trie V) : Trie V := if bit then right else left

/-- Induction over a trie, with both children of a branch at once. -/
@[elab_as_elim, induction_eliminator]
theorem sides {motive : Trie V → Prop} (leaf : ∀ suffix value, motive (leaf suffix value))
    (branch : ∀ stem left right, (∀ bit, motive (child bit left right)) →
      motive (branch stem left right)) (trie : Trie V) : motive trie := by
  refine Trie.rec leaf ?_ trie
  intro stem left right lefts rights
  exact branch stem left right (Bool.forall_bool.mpr ⟨lefts, rights⟩)

/-- A branch with `own` on the side of a bit and `other` on the opposite side. -/
def fork (stem : List Bool) (bit : Bool) (own other : Trie V) : Trie V :=
  if bit then branch stem other own else branch stem own other

def lookup : Trie V → List Bool → Option V
  | leaf suffix value, bits => if suffix = bits then some value else none
  | branch stem left right, bits =>
    match strip stem bits with
    | some (true :: rest) => right.lookup rest
    | some (false :: rest) => left.lookup rest
    | _ => none

def insert : Trie V → List Bool → V → Trie V
  | leaf suffix old, bits, value =>
    match diverge suffix bits with
    | none => leaf bits value
    | some parts => fork parts.shared parts.bit (leaf parts.left old) (leaf parts.right value)
  | branch stem left right, bits, value =>
    match diverge stem bits with
    | some parts =>
      fork parts.shared parts.bit (branch parts.left left right) (leaf parts.right value)
    | none =>
      match strip stem bits with
      | some (true :: rest) => branch stem left (right.insert rest value)
      | some (false :: rest) => branch stem (left.insert rest value) right
      | _ => branch stem left right

/-- A trie whose keys get more bits in front. -/
def attach (front : List Bool) : Trie V → Trie V
  | leaf suffix value => leaf (front ++ suffix) value
  | branch stem left right => branch (front ++ stem) left right

/-- The key is taken out; nothing may be left. -/
def delete : Trie V → List Bool → Option (Trie V)
  | leaf suffix value, bits => if suffix = bits then none else some (leaf suffix value)
  | branch stem left right, bits =>
    match strip stem bits with
    | some (true :: rest) =>
      match right.delete rest with
      | some shrunk => some (branch stem left shrunk)
      | none => some (attach (stem ++ [false]) left)
    | some (false :: rest) =>
      match left.delete rest with
      | some shrunk => some (branch stem shrunk right)
      | none => some (attach (stem ++ [true]) right)
    | _ => some (branch stem left right)

/-- All keys have `length` bits. -/
def Uniform (length : Nat) : Trie V → Prop
  | leaf suffix _ => suffix.length = length
  | branch stem left right =>
    ∃ below, length = stem.length + 1 + below ∧ left.Uniform below ∧ right.Uniform below

/-! ### Lookup -/

theorem lookup_branch (stem rest : List Bool) (bit : Bool) (left right : Trie V) :
    (branch stem left right).lookup (stem ++ bit :: rest) = (child bit left right).lookup rest := by
  cases bit <;> simp [lookup, child]

theorem strip_of_outside (outside : ∀ bit rest, bits ≠ stem ++ bit :: rest) :
    strip stem bits = none ∨ strip stem bits = some [] := by
  match stripped : strip stem bits with
  | none => exact .inl rfl
  | some [] => exact .inr rfl
  | some (bit :: rest) => exact absurd (strip_eq_some_iff.mp stripped) (outside bit rest)

/-- A key that does not go on behind the stem is not in a branch. -/
theorem lookup_branch_of_strip (outside : ∀ bit rest, bits ≠ stem ++ bit :: rest) :
    (branch stem left right).lookup bits = none := by
  rcases strip_of_outside outside with stripped | stripped <;> simp [lookup, stripped]

/-- A key goes on behind a stem or it does not. -/
theorem behind_or_outside (stem bits : List Bool) :
    (∃ bit rest, bits = stem ++ bit :: rest) ∨ ∀ bit rest, bits ≠ stem ++ bit :: rest := by
  by_cases behind : ∃ bit rest, bits = stem ++ bit :: rest
  · exact .inl behind
  · exact .inr fun bit rest same => behind ⟨bit, rest, same⟩

theorem lookup_fork (stem rest : List Bool) (bit side : Bool) (own other : Trie V) :
    (fork stem bit own other).lookup (stem ++ side :: rest) =
      if side = bit then own.lookup rest else other.lookup rest := by
  cases bit <;> cases side <;> simp [fork, lookup]

theorem lookup_fork_of_outside {bit : Bool} {own : Trie V}
    (outside : ∀ bit rest, bits ≠ stem ++ bit :: rest) :
    (fork stem bit own other).lookup bits = none := by
  cases bit <;> exact lookup_branch_of_strip outside

theorem lookup_leaf (suffix bits : List Bool) (value : V) :
    (leaf suffix value).lookup bits = if suffix = bits then some value else none := rfl

/-! ### Bits in front -/

/-- More bits in front: the keys are those that begin with them. -/
theorem lookup_attach (front bits : List Bool) (trie : Trie V) :
    (attach front trie).lookup (front ++ bits) = trie.lookup bits := by
  cases trie with
  | leaf suffix value => simp [attach, lookup_leaf]
  | branch stem left right =>
    rcases behind_or_outside stem bits with ⟨bit, rest, isBits⟩ | outside
    · have whole : front ++ bits = (front ++ stem) ++ bit :: rest := by simp [isBits]
      rw [attach, whole, lookup_branch, isBits, lookup_branch]
    · rw [attach, lookup_branch_of_strip outside]
      apply lookup_branch_of_strip
      intro bit rest isWhole
      apply outside bit rest
      simpa using isWhole

theorem lookup_attach_of_outside {front : List Bool} (outside : ∀ rest, bits ≠ front ++ rest) :
    (attach front trie).lookup bits = none := by
  cases trie with
  | leaf suffix value =>
    rw [attach, lookup_leaf, if_neg]
    exact fun isBits => outside suffix isBits.symm
  | branch stem left right =>
    apply lookup_branch_of_strip
    intro bit rest isBits
    apply outside (stem ++ bit :: rest)
    simpa using isBits

theorem Uniform.attach (front : List Bool) (uniform : trie.Uniform length) :
    (attach front trie).Uniform (front.length + length) := by
  cases trie with
  | leaf suffix value =>
    have fits : suffix.length = length := uniform
    show (front ++ suffix).length = front.length + length
    rw [List.length_append, fits]
  | branch stem left right =>
    obtain ⟨below, isLength, lefts, rights⟩ := uniform
    refine ⟨below, ?_, lefts, rights⟩
    rw [List.length_append]
    omega

theorem lookup_attach_behind (stem rest : List Bool) (bit side : Bool) (trie : Trie V) :
    (attach (stem ++ [bit]) trie).lookup (stem ++ side :: rest) =
      if side = bit then trie.lookup rest else none := by
  by_cases same : side = bit
  · have whole : stem ++ side :: rest = (stem ++ [bit]) ++ rest := by simp [same]
    rw [if_pos same, whole, lookup_attach]
  · rw [if_neg same]
    apply lookup_attach_of_outside
    intro later isWhole
    simp [same] at isWhole

theorem lookup_attach_outside {bit : Bool} (outside : ∀ bit rest, bits ≠ stem ++ bit :: rest) :
    (attach (stem ++ [bit]) trie).lookup bits = none := by
  apply lookup_attach_of_outside
  intro rest isBits
  apply outside bit rest
  simpa using isBits

/-! ### Insertion and deletion -/

/-- A branch after a change on one side, where nothing may be left. -/
def shrink (stem : List Bool) (bit : Bool) (shrunk : Option (Trie V)) (other : Trie V) : Trie V :=
  match shrunk with
  | some own => fork stem bit own other
  | none => attach (stem ++ [!bit]) other

theorem delete_branch_of_outside (outside : ∀ bit rest, bits ≠ stem ++ bit :: rest) :
    (branch stem left right).delete bits = some (branch stem left right) := by
  rcases strip_of_outside outside with stripped | stripped <;> simp [delete, stripped]

def edit (content : Option V) (trie : Trie V) (bits : List Bool) : Option (Trie V) :=
  match content with
  | none => trie.delete bits
  | some value => some (trie.insert bits value)

theorem edit_branch (content : Option V) (stem rest : List Bool) (bit : Bool) (left right : Trie V) :
    (branch stem left right).edit content (stem ++ bit :: rest) =
      some (shrink stem bit ((child bit left right).edit content rest) (child (!bit) left right)) := by
  cases content with
  | none =>
    cases bit
    · cases shrunk : left.delete rest <;> simp [edit, delete, child, shrink, fork, shrunk]
    · cases shrunk : right.delete rest <;> simp [edit, delete, child, shrink, fork, shrunk]
  | some value => cases bit <;> simp [edit, insert, diverge_append, shrink, fork, child]

/-- A key that parts from all keys of a trie at one bit: an insertion makes a fork there. -/
theorem edit_attach (content : Option V) (shared right : List Bool) (bit : Bool) (kept : Trie V) :
    (attach (shared ++ [bit]) kept).edit content (shared ++ (!bit) :: right) =
      some (content.elim (attach (shared ++ [bit]) kept) fun value =>
        fork shared bit kept (leaf right value)) := by
  cases content with
  | none => cases kept <;> simp [edit, attach, delete, strip_append_append, strip]
  | some value => cases kept <;> simp [edit, attach, insert, diverge_append_append]

theorem edit_leaf (content : Option V) (bits : List Bool) (old : V) :
    (leaf bits old).edit content bits = content.map (leaf bits) := by
  cases content with
  | none => simp [edit, delete]
  | some value =>
    have together := diverge_append bits []
    rw [List.append_nil] at together
    simp [edit, insert, together]

/-- The value under a key of a trie that may be empty. -/
def lookupIn (trie : Option (Trie V)) (bits : List Bool) : Option V := trie.bind (lookup · bits)

theorem lookup_shrink (stem rest : List Bool) (bit side : Bool) (shrunk : Option (Trie V))
    (other : Trie V) :
    (shrink stem bit shrunk other).lookup (stem ++ side :: rest) =
      if side = bit then lookupIn shrunk rest else other.lookup rest := by
  cases shrunk with
  | some own => exact lookup_fork stem rest bit side own other
  | none =>
    rw [shrink, lookup_attach_behind]
    cases bit <;> cases side <;> rfl

theorem lookup_shrink_of_outside {bit : Bool} {shrunk : Option (Trie V)}
    (outside : ∀ bit rest, bits ≠ stem ++ bit :: rest) :
    (shrink stem bit shrunk other).lookup bits = none := by
  cases shrunk with
  | some own => exact lookup_fork_of_outside outside
  | none => exact lookup_attach_outside outside

/-- All keys of a trie that may be empty have `length` bits. -/
def UniformIn (length : Nat) (trie : Option (Trie V)) : Prop := ∀ held ∈ trie, held.Uniform length

theorem Uniform.side {below : Nat} (lefts : left.Uniform below) (rights : right.Uniform below)
    (bit : Bool) : (child bit left right).Uniform below := by
  cases bit
  · exact lefts
  · exact rights

theorem Uniform.strip_branch (uniform : (branch stem left right).Uniform bits.length)
    (together : diverge stem bits = none) :
    ∃ bit rest, bits = stem ++ bit :: rest ∧
      ∀ side, (child side left right).Uniform rest.length := by
  obtain ⟨below, isLength, lefts, rights⟩ := uniform
  obtain ⟨tail, isBits⟩ := diverge_eq_none together (by omega)
  cases tail with
  | nil =>
    rw [isBits, List.append_nil] at isLength
    omega
  | cons bit rest =>
    refine ⟨bit, rest, isBits, ?_⟩
    rw [isBits, List.length_append, List.length_cons] at isLength
    have isBelow : rest.length = below := by omega
    rw [isBelow]
    exact lefts.side rights

theorem Uniform.join {below : Nat} {bit : Bool} {own : Trie V} (owns : own.Uniform below)
    (others : other.Uniform below) (isLength : length = stem.length + 1 + below) :
    (fork stem bit own other).Uniform length := by
  cases bit
  · exact ⟨below, isLength, owns, others⟩
  · exact ⟨below, isLength, others, owns⟩

/-- Induction along a key of the right length: it parts from all keys of the trie at one bit, it ends
at a leaf, or it goes on in a child. -/
theorem Uniform.along_key {motive : Trie V → List Bool → Prop}
    (parting : ∀ shared bit rest kept, kept.Uniform rest.length →
      motive (Trie.attach (shared ++ [bit]) kept) (shared ++ (!bit) :: rest))
    (ending : ∀ bits old, motive (leaf bits old) bits)
    (below : ∀ stem bit rest left right, (∀ side, (child side left right).Uniform rest.length) →
      motive (child bit left right) rest → motive (branch stem left right) (stem ++ bit :: rest))
    (uniform : trie.Uniform bits.length) : motive trie bits := by
  induction trie generalizing bits with
  | leaf suffix old =>
    have fits : suffix.length = bits.length := uniform
    cases parts : diverge suffix bits with
    | none =>
      rw [eq_of_diverge_eq_none parts fits]
      exact ending bits old
    | some found =>
      obtain ⟨isSuffix, isBits⟩ := diverge_eq_some parts
      rw [isSuffix, isBits] at fits ⊢
      have shorter : (leaf found.left old).Uniform found.right.length := by simpa [Uniform] using fits
      simpa [Trie.attach] using parting found.shared found.bit found.right (leaf found.left old) shorter
  | branch stem left right ih =>
    cases parts : diverge stem bits with
    | none =>
      obtain ⟨bit, rest, isBits, children⟩ := uniform.strip_branch parts
      rw [isBits]
      exact below stem bit rest left right children (ih bit (children bit))
    | some found =>
      obtain ⟨isStem, isBits⟩ := diverge_eq_some parts
      obtain ⟨shorter, isLength, lefts, rights⟩ := uniform
      rw [isStem, isBits] at isLength ⊢
      simp only [List.length_append, List.length_cons] at isLength
      have kept : (Trie.branch found.left left right).Uniform found.right.length :=
        ⟨shorter, by omega, lefts, rights⟩
      simpa [Trie.attach] using
        parting found.shared found.bit found.right (.branch found.left left right) kept

/-- After a call the key has the new content, and nothing else changed. -/
theorem lookup_edit {content : Option V} {other : List Bool} (uniform : trie.Uniform bits.length) :
    lookupIn (trie.edit content bits) other = if other = bits then content else trie.lookup other := by
  refine uniform.along_key (motive := fun trie bits => ∀ other, lookupIn (trie.edit content bits)
    other = if other = bits then content else trie.lookup other) ?_ ?_ ?_ other
  · intro shared bit rest kept _ other
    rw [edit_attach]
    show lookup (content.elim _ _) other = _
    rcases behind_or_outside shared other with ⟨side, later, isOther⟩ | outside
    · rw [isOther, lookup_attach_behind]
      cases content with
      | none =>
        rw [Option.elim_none, lookup_attach_behind]
        cases bit <;> cases side <;> simp
      | some value =>
        rw [Option.elim_some, lookup_fork]
        cases bit <;> cases side <;> simp [lookup_leaf, eq_comm]
    · rw [if_neg (outside _ _), lookup_attach_outside outside]
      cases content with
      | none => exact lookup_attach_outside outside
      | some value => exact lookup_fork_of_outside outside
  · intro bits old other
    rw [edit_leaf]
    by_cases isOther : bits = other
    · cases content <;> simp [lookupIn, lookup_leaf, isOther]
    · cases content <;> simp [lookupIn, lookup_leaf, isOther, Ne.symm isOther]
  · intro stem bit rest left right _ ih other
    rw [edit_branch]
    show (shrink _ _ _ _).lookup other = _
    rcases behind_or_outside stem other with ⟨side, later, isOther⟩ | outside
    · rw [isOther, lookup_shrink, lookup_branch, ih]
      cases bit <;> cases side <;> simp
    · rw [lookup_shrink_of_outside outside, lookup_branch_of_strip outside, if_neg (outside _ _)]

theorem Uniform.edit {content : Option V} (uniform : trie.Uniform length)
    (fits : bits.length = length) : UniformIn length (trie.edit content bits) := by
  subst fits
  refine uniform.along_key
    (motive := fun trie bits => UniformIn bits.length (trie.edit content bits)) ?_ ?_ ?_
  · intro shared bit rest kept shorter
    rw [edit_attach]
    intro held isHeld
    cases isHeld
    cases content with
    | none =>
      have whole := shorter.attach (shared ++ [bit])
      simpa [Nat.add_assoc, Nat.add_comm 1] using whole
    | some value =>
      have added : (leaf rest value).Uniform rest.length := rfl
      apply shorter.join added
      rw [List.length_append, List.length_cons]
      omega
  · intro bits old
    rw [edit_leaf]
    intro held isHeld
    obtain ⟨value, _, isLeaf⟩ := Option.map_eq_some_iff.mp isHeld
    rw [← isLeaf]
    rfl
  · intro stem bit rest left right children ih
    rw [edit_branch]
    intro held isHeld
    cases isHeld
    have isLength : (stem ++ bit :: rest).length = stem.length + 1 + rest.length := by
      rw [List.length_append, List.length_cons]
      omega
    rw [isLength]
    cases shrunk : (child bit left right).edit content rest with
    | none =>
      have attached := (children (!bit)).attach (stem ++ [!bit])
      rwa [List.length_append, List.length_singleton] at attached
    | some own => exact (ih own shrunk).join (children (!bit)) rfl

/-! ### A trie is determined by its map -/

theorem Uniform.exists_key (uniform : trie.Uniform length) :
    ∃ bits, bits.length = length ∧ (trie.lookup bits).isSome = true := by
  induction trie generalizing length with
  | leaf suffix value => exact ⟨suffix, uniform, by simp [lookup_leaf]⟩
  | branch stem left right ih =>
    obtain ⟨below, isLength, lefts, _⟩ := uniform
    obtain ⟨rest, restFits, found⟩ := ih false lefts
    refine ⟨stem ++ false :: rest, ?_, ?_⟩
    · rw [List.length_append, List.length_cons]
      omega
    · rw [lookup_branch]
      exact found

/-- A branch holds a key on either side. -/
theorem Uniform.exists_key_on (uniform : (branch stem left right).Uniform length) (bit : Bool) :
    ∃ rest, (stem ++ bit :: rest).length = length ∧
      ((branch stem left right).lookup (stem ++ bit :: rest)).isSome = true := by
  obtain ⟨below, isLength, lefts, rights⟩ := uniform
  obtain ⟨rest, restFits, found⟩ := (lefts.side rights bit).exists_key
  refine ⟨rest, ?_, ?_⟩
  · rw [List.length_append, List.length_cons]
    omega
  · rw [lookup_branch]
    exact found

theorem stem_isPrefix {other : List Bool} {first second : Trie V}
    (uniform : (branch stem left right).Uniform length)
    (same : ∀ bits, bits.length = length →
      (branch stem left right).lookup bits = (branch other first second).lookup bits) :
    other <+: stem := by
  have behind : ∀ bit, ∃ rest side later, stem ++ bit :: rest = other ++ side :: later := by
    intro bit
    obtain ⟨rest, fits, found⟩ := uniform.exists_key_on bit
    rw [same _ fits] at found
    rcases behind_or_outside other (stem ++ bit :: rest) with ⟨side, later, isKey⟩ | outside
    · exact ⟨rest, side, later, isKey⟩
    · rw [lookup_branch_of_strip outside] at found
      cases found
  obtain ⟨_, _, _, goesLeft⟩ := behind false
  obtain ⟨_, _, _, goesRight⟩ := behind true
  -- two keys that part behind the stem begin alike for no more than the stem
  rcases List.append_eq_append_iff.mp goesLeft with ⟨middle, isOther, isLeft⟩ | ⟨middle, isStem, _⟩
  · cases middle with
    | nil => exact ⟨[], by simpa using isOther⟩
    | cons bit middle =>
      rw [List.cons_append] at isLeft
      cases isLeft
      rw [isOther] at goesRight
      simp at goesRight
  · exact ⟨middle, isStem.symm⟩

theorem leaf_ne_branch {suffix : List Bool} {value : V}
    (uniform : (branch stem left right).Uniform length)
    (same : ∀ bits, bits.length = length →
      (leaf suffix value).lookup bits = (branch stem left right).lookup bits) : False := by
  have isSuffix : ∀ bit, ∃ rest, suffix = stem ++ bit :: rest := by
    intro bit
    obtain ⟨rest, fits, found⟩ := uniform.exists_key_on bit
    rw [← same _ fits, lookup_leaf] at found
    split at found
    next isKey => exact ⟨rest, isKey⟩
    next => cases found
  obtain ⟨first, isFirst⟩ := isSuffix false
  obtain ⟨second, isSecond⟩ := isSuffix true
  rw [isFirst] at isSecond
  simp at isSecond

theorem eq_of_lookup_eq (uniform : trie.Uniform length) (otherUniform : other.Uniform length)
    (same : ∀ bits, bits.length = length → trie.lookup bits = other.lookup bits) : trie = other := by
  induction trie generalizing length other with
  | leaf suffix value =>
    cases other with
    | leaf otherSuffix otherValue =>
      have suffixFits : suffix.length = length := uniform
      have found := same suffix suffixFits
      rw [lookup_leaf, lookup_leaf, if_pos rfl] at found
      split at found
      next isSuffix =>
        cases found
        rw [isSuffix]
      next => cases found
    | branch stem left right => exact (leaf_ne_branch otherUniform same).elim
  | branch stem left right ih =>
    cases other with
    | leaf suffix value =>
      exact (leaf_ne_branch uniform fun bits fits => (same bits fits).symm).elim
    | branch otherStem otherLeft otherRight =>
      have shorter := stem_isPrefix uniform same
      have longer := stem_isPrefix otherUniform fun bits fits => (same bits fits).symm
      have stems : otherStem = stem :=
        shorter.eq_of_length (Nat.le_antisymm shorter.length_le longer.length_le)
      subst stems
      obtain ⟨below, isLength, lefts, rights⟩ := uniform
      obtain ⟨otherBelow, isOtherLength, otherLefts, otherRights⟩ := otherUniform
      have belows : otherBelow = below := by omega
      subst belows
      have children : ∀ bit rest, rest.length = otherBelow →
          (child bit left right).lookup rest = (child bit otherLeft otherRight).lookup rest := by
        intro bit rest restFits
        have found := same (otherStem ++ bit :: rest) (by
          rw [List.length_append, List.length_cons]
          omega)
        rwa [lookup_branch, lookup_branch] at found
      rw [show left = otherLeft from ih false lefts otherLefts (children false),
        show right = otherRight from ih true rights otherRights (children true)]

theorem eq_of_lookupIn_eq {trie other : Option (Trie V)} (uniform : UniformIn length trie)
    (otherUniform : UniformIn length other)
    (same : ∀ bits, bits.length = length → lookupIn trie bits = lookupIn other bits) : trie = other := by
  cases trie with
  | none =>
    cases other with
    | none => rfl
    | some held =>
      obtain ⟨bits, fits, found⟩ := (otherUniform held rfl).exists_key
      have absent : none = held.lookup bits := same bits fits
      rw [← absent] at found
      cases found
  | some held =>
    cases other with
    | none =>
      obtain ⟨bits, fits, found⟩ := (uniform held rfl).exists_key
      have absent : held.lookup bits = none := same bits fits
      rw [absent] at found
      cases found
    | some otherHeld =>
      rw [eq_of_lookup_eq (uniform held rfl) (otherUniform otherHeld rfl) same]

end Trie

end Clarity.Library.Patricia
