import Clarity.Library.Patricia

/-!
Contract: the nodes on the way of a key in a compressed trie, and how a call changes them.

Owns:
- `Along`, that a property holds of every node on the way of a key;
- `written`, the nodes an insertion or deletion makes;
- that a property of the nodes made holds along the key of an insertion, and that it goes on to
  hold along every other key of the trie.

A deletion that leaves a lone leaf moves the leaf up and makes no node for it.
-/

namespace Clarity.Library.Patricia.Trie

variable {V : Type} {trie : Trie V} {bits : List Bool}

/-- The property holds of every node from the top down to a leaf, or to the branch whose stem the
key leaves. -/
def Along (P : Trie V → Prop) : Trie V → List Bool → Prop
  | leaf suffix value, _ => P (leaf suffix value)
  | branch stem left right, bits =>
    P (branch stem left right) ∧
      match strip stem bits with
      | some (true :: rest) => right.Along P rest
      | some (false :: rest) => left.Along P rest
      | _ => True

/-- The node made for a branch after a call on one of its children. -/
def rejoined (stem : List Bool) (bit : Bool) (shrunk : Option (Trie V)) (other : Trie V) :
    List (Trie V) :=
  match shrunk, other with
  | none, leaf _ _ => []
  | _, _ => [shrink stem bit shrunk other]

/-- The nodes a call makes, each with what is below it. -/
def written (content : Option V) : Trie V → List Bool → List (Trie V)
  | leaf suffix old, bits =>
    match content with
    | none => if suffix = bits then [] else [leaf suffix old]
    | some value =>
      match diverge suffix bits with
      | none => [leaf bits value]
      | some parts =>
        [leaf parts.left old, leaf parts.right value,
          fork parts.shared parts.bit (leaf parts.left old) (leaf parts.right value)]
  | branch stem left right, bits =>
    match diverge stem bits with
    | some parts =>
      match content with
      | none => [branch stem left right]
      | some value =>
        [branch parts.left left right, leaf parts.right value,
          fork parts.shared parts.bit (branch parts.left left right) (leaf parts.right value)]
    | none =>
      match strip stem bits with
      | some (true :: rest) =>
        right.written content rest ++ rejoined stem true (right.edit content rest) left
      | some (false :: rest) =>
        left.written content rest ++ rejoined stem false (left.edit content rest) right
      | _ => []

/-! ### Equations -/

theorem written_branch (content : Option V) (stem rest : List Bool) (bit : Bool)
    (left right : Trie V) :
    (branch stem left right).written content (stem ++ bit :: rest) =
      (child bit left right).written content rest ++
        rejoined stem bit ((child bit left right).edit content rest) (child (!bit) left right) := by
  have stripped : strip stem (stem ++ bit :: rest) = some (bit :: rest) := strip_eq_some_iff.mpr rfl
  rw [written, diverge_append, stripped]
  cases bit <;> rfl

theorem written_attach (content : Option V) (shared rest : List Bool) (bit : Bool) (kept : Trie V) :
    (attach (shared ++ [bit]) kept).written content (shared ++ (!bit) :: rest) =
      content.elim [attach (shared ++ [bit]) kept] fun value =>
        [kept, leaf rest value, fork shared bit kept (leaf rest value)] := by
  cases content <;> cases kept <;> simp [attach, written, diverge_append_append]

theorem along_branch {P : Trie V → Prop} {stem rest : List Bool} {bit : Bool} {left right : Trie V} :
    (branch stem left right).Along P (stem ++ bit :: rest) ↔
      P (branch stem left right) ∧ (child bit left right).Along P rest := by
  have stripped : strip stem (stem ++ bit :: rest) = some (bit :: rest) := strip_eq_some_iff.mpr rfl
  rw [Along, stripped]
  cases bit <;> rfl

theorem along_fork {P : Trie V → Prop} {stem rest : List Bool} {bit side : Bool}
    {own other : Trie V} :
    (fork stem bit own other).Along P (stem ++ side :: rest) ↔
      P (fork stem bit own other) ∧ (if side = bit then own else other).Along P rest := by
  cases bit <;> cases side <;> exact along_branch

theorem Along.mono {P Q : Trie V → Prop} (implies : ∀ node, P node → Q node)
    (along : trie.Along P bits) : trie.Along Q bits := by
  induction trie generalizing bits with
  | leaf suffix value => exact implies _ along
  | branch stem left right ih =>
    rcases behind_or_outside stem bits with ⟨bit, rest, isBits⟩ | outside
    · subst isBits
      obtain ⟨top, below⟩ := along_branch.mp along
      exact along_branch.mpr ⟨implies _ top, ih bit below⟩
    · rcases strip_of_outside outside with stripped | stripped <;>
        simp [Along, stripped, implies _ along.1]

/-- The way of a key that is held ends at its leaf. -/
theorem Along.leaf_of_lookup {P : Trie V → Prop} {value : V} (along : trie.Along P bits)
    (found : trie.lookup bits = some value) : ∃ suffix, P (leaf suffix value) := by
  induction trie generalizing bits with
  | leaf suffix held =>
    rw [lookup_leaf] at found
    split at found
    · cases found
      exact ⟨suffix, along⟩
    · cases found
  | branch stem left right ih =>
    rcases behind_or_outside stem bits with ⟨bit, rest, isBits⟩ | outside
    · subst isBits
      rw [lookup_branch] at found
      exact ih bit (along_branch.mp along).2 found
    · rw [lookup_branch_of_strip outside] at found
      cases found

/-! ### The way after a call -/

/-- A lone child that takes the place of its branch. -/
theorem along_attach {P : Trie V → Prop} {front : List Bool}
    (moves : ∀ suffix other value, P (leaf suffix value) → P (leaf other value))
    (along : trie.Along P bits)
    (made : ∀ stem left right, trie = branch stem left right → P (attach front trie)) :
    (attach front trie).Along P (front ++ bits) := by
  cases trie with
  | leaf suffix value => exact moves suffix (front ++ suffix) value along
  | branch stem left right =>
    rw [attach, Along, strip_append_append]
    exact ⟨made stem left right rfl, along.2⟩

theorem behind_of_lookup {stem : List Bool} (held : (trie.lookup bits).isSome = true)
    (outside : (∀ bit rest, bits ≠ stem ++ bit :: rest) → trie.lookup bits = none) :
    ∃ bit rest, bits = stem ++ bit :: rest := by
  rcases behind_or_outside stem bits with behind | isOutside
  · exact behind
  · rw [outside isOutside] at held
    cases held

/-- After a call, a key is reached over nodes the call made and nodes it was reached over before. -/
theorem Uniform.along_edit {P : Trie V → Prop} {length : Nat} {after : Trie V} {other : List Bool}
    {content : Option V} (uniform : trie.Uniform length) (fits : bits.length = length)
    (moves : ∀ suffix other value, P (leaf suffix value) → P (leaf other value))
    (along : other ≠ bits → trie.Along P other)
    (made : ∀ node ∈ trie.written content bits, P node)
    (isAfter : trie.edit content bits = some after) (held : (after.lookup other).isSome = true) :
    after.Along P other := by
  subst fits
  refine uniform.along_key (motive := fun trie bits => ∀ other after,
    (other ≠ bits → trie.Along P other) → (∀ node ∈ trie.written content bits, P node) →
      trie.edit content bits = some after → (after.lookup other).isSome = true →
        after.Along P other) ?_ ?_ ?_ other after along made isAfter held
  · intro shared bit rest kept _ other after along made isAfter held
    rw [edit_attach] at isAfter
    rw [written_attach] at made
    cases isAfter
    cases content with
    | none =>
      apply along
      intro isBits
      rw [isBits, Option.elim_none, lookup_attach_behind] at held
      simp at held
    | some value =>
      simp only [Option.elim_some, List.mem_cons, List.not_mem_nil, or_false, forall_eq_or_imp,
        forall_eq] at made held ⊢
      obtain ⟨side, later, isOther⟩ := behind_of_lookup held lookup_fork_of_outside
      subst isOther
      refine along_fork.mpr ⟨made.2.2, ?_⟩
      by_cases sameSide : side = bit
      · subst sameSide
        have before := along (by simp)
        rw [List.append_cons shared side later] at before
        rw [if_pos rfl]
        -- the part of the trie below the fork
        cases kept with
        | leaf suffix value => exact made.1
        | branch stem left right =>
          rw [Trie.attach, Along, strip_append_append] at before
          exact ⟨made.1, before.2⟩
      · rw [if_neg sameSide]
        exact made.2.1
  · intro bits old other after _ made isAfter _
    rw [edit_leaf] at isAfter
    obtain ⟨value, isValue, isLeaf⟩ := Option.map_eq_some_iff.mp isAfter
    have together := diverge_append bits []
    rw [List.append_nil] at together
    subst isValue
    rw [← isLeaf]
    exact made _ (by simp [written, together])
  · intro stem bit rest left right _ ih other after along made isAfter held
    rw [edit_branch] at isAfter
    rw [written_branch] at made
    cases isAfter
    obtain ⟨side, later, isOther⟩ := behind_of_lookup held lookup_shrink_of_outside
    subst isOther
    rw [lookup_shrink] at held
    have childMade : ∀ node ∈ (child bit left right).written content rest, P node :=
      fun node member => made node (List.mem_append_left _ member)
    have joined : ∀ node ∈ rejoined stem bit ((child bit left right).edit content rest)
        (child (!bit) left right), P node :=
      fun node member => made node (List.mem_append_right _ member)
    have below (apart : stem ++ side :: later ≠ stem ++ bit :: rest) :
        (child side left right).Along P later := (along_branch.mp (along apart)).2
    by_cases sameSide : side = bit
    · subst sameSide
      rw [if_pos rfl] at held
      cases isOwn : (child side left right).edit content rest with
      | none =>
        rw [isOwn] at held
        cases held
      | some own =>
        rw [isOwn] at held joined
        refine along_fork.mpr ⟨joined _ (List.mem_singleton.mpr rfl), ?_⟩
        rw [if_pos rfl]
        exact ih later own (fun apart => below (by simpa using apart)) childMade isOwn held
    · have isSide : side = !bit := Bool.eq_not.mpr sameSide
      subst isSide
      have reached := below (by simp)
      cases isOwn : (child bit left right).edit content rest with
      | some own =>
        rw [isOwn] at joined
        refine along_fork.mpr ⟨joined _ (List.mem_singleton.mpr rfl), ?_⟩
        rwa [if_neg sameSide]
      | none =>
        rw [isOwn] at joined
        rw [List.append_cons stem (!bit) later]
        apply along_attach moves reached
        intro otherStem otherLeft otherRight isBranch
        rw [isBranch] at joined ⊢
        exact joined _ (List.mem_singleton.mpr rfl)

end Clarity.Library.Patricia.Trie
