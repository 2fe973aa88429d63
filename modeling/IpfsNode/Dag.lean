import Mathlib.Data.Finset.Basic
import Mathlib.Data.Finset.Filter
import Mathlib.Data.Finset.Lattice.Basic

/-!
# Protection of content-addressed blocks

Content is a set of blocks under a root, and a root of one piece of content
may be an inner block of another. Roots are pinned; a block is protected by a
set of pinned roots when it lies below one of them, and a collection drops
exactly the blocks that are not.

The one structural fact is that the blocks below a block that lies below `r`
lie below `r` as well (`Dag.closed`), so protecting a root protects everything
below it, whichever pin it is that protects the root.
-/

/-- The blocks below each root, the root included. -/
structure Dag (B : Type) where
  blocks : B → Finset B
  root_mem : ∀ r, r ∈ blocks r
  closed : ∀ {r b}, b ∈ blocks r → blocks b ⊆ blocks r

namespace Dag

/-- Every root is a single block. -/
def flat {B : Type} : Dag B where
  blocks := fun r => {r}
  root_mem := fun r => Finset.mem_singleton_self r
  closed := fun h => by rw [Finset.mem_singleton.mp h]

variable {B : Type} (D : Dag B)

/-- Some root of `roots` has `b` below it. -/
def Protects (roots : Finset B) (b : B) : Prop :=
  ∃ r ∈ roots, b ∈ D.blocks r

instance [DecidableEq B] (roots : Finset B) (b : B) : Decidable (D.Protects roots b) :=
  inferInstanceAs (Decidable (∃ r ∈ roots, b ∈ D.blocks r))

/-- All blocks below `r` are among `present`. -/
def Complete (present : Finset B) (r : B) : Prop :=
  D.blocks r ⊆ present

instance [DecidableEq B] (present : Finset B) (r : B) : Decidable (D.Complete present r) :=
  inferInstanceAs (Decidable (D.blocks r ⊆ present))

/-- What a collection leaves of `present`: the protected blocks. -/
def collect [DecidableEq B] (roots present : Finset B) : Finset B :=
  present.filter (D.Protects roots)

variable {D} {roots roots' : Finset B} {b r : B}

theorem protects_of_mem (h : r ∈ roots) : D.Protects roots r :=
  ⟨r, h, D.root_mem r⟩

theorem Protects.mono (h : D.Protects roots b) (hsub : roots ⊆ roots') :
    D.Protects roots' b := by
  obtain ⟨r, hr, hb⟩ := h
  exact ⟨r, hsub hr, hb⟩

/-- Protecting a block protects everything below it. -/
theorem Protects.below (h : D.Protects roots r) (hb : b ∈ D.blocks r) :
    D.Protects roots b := by
  obtain ⟨r', hr', hr⟩ := h
  exact ⟨r', hr', D.closed hr hb⟩

/-- A root that is protected survives a collection with all that is below it. -/
theorem blocks_subset_collect [DecidableEq B] {present : Finset B}
    (h : D.Protects roots r) (hc : D.Complete present r) :
    D.blocks r ⊆ D.collect roots present := fun _ hb =>
  Finset.mem_filter.mpr ⟨hc hb, h.below hb⟩

end Dag
