import IpfsNode.Placement

/-!
# Configuration

How the operator's file is read: a value that is missing takes its default, a
value of the wrong kind or out of range is refused with the path of the option.

The tiers of the placement policy start at age zero, and the copies they ask
for never grow with age (`tiersShrink_of_resolvePlacement`). So the last tier is
what every file keeps: `last_copies_le` bounds the copies of any age by it.
-/

namespace IpfsNode

/-- A value of the configuration file. -/
inductive ConfigValue where
  | undefined
  | null
  | boolean (value : Bool)
  /-- `none` is a number that is not finite. -/
  | number (value : Option Rat)
  | string (value : String)
  | array (items : List ConfigValue)
  | object (fields : List (String × ConfigValue))

structure ConfigError where
  path : String
  expectation : String
deriving DecidableEq, Repr

def ConfigError.message (err : ConfigError) : String :=
  "Invalid config: \"" ++ err.path ++ "\" " ++ err.expectation

/-- Largest integer that a number carries exactly. -/
def MAX_SAFE_INTEGER : Nat := 2 ^ 53 - 1

def isSafeInteger (value : Rat) : Bool :=
  value.den = 1 && value.num.natAbs ≤ MAX_SAFE_INTEGER

/-- The fields of a section; a missing section has none. -/
def configSection (value : ConfigValue) (path : String) :
    Except ConfigError (List (String × ConfigValue)) :=
  match value with
  | .undefined => .ok []
  | .object fields => .ok fields
  | _ => .error ⟨path, "must be an object"⟩

def configField (fields : List (String × ConfigValue)) (name : String) : ConfigValue :=
  (fields.lookup name).getD .undefined

def optionalInteger (value : ConfigValue) (path : String) (fallback min : Nat) :
    Except ConfigError Nat :=
  let refused : Except ConfigError Nat :=
    .error ⟨path, "must be an integer >= " ++ toString min⟩
  match value with
  | .undefined => .ok fallback
  | .number (some value) =>
      if isSafeInteger value && decide ((min : Int) ≤ value.num) then .ok value.num.toNat
      else refused
  | _ => refused

/-! ## Placement tiers -/

def DAY : Nat := 24 * 60 * 60 * 1000

def DEFAULT_PLACEMENT : List PlacementTier :=
  [⟨0, 4⟩, ⟨180 * DAY, 3⟩, ⟨365 * DAY, 2⟩]

def resolveTier (entry : ConfigValue) (index : Nat) : Except ConfigError PlacementTier := do
  let path := "replication.placement[" ++ toString index ++ "]"
  let tier ← configSection entry path
  let minAgeMs ← optionalInteger (configField tier "minAgeMs") (path ++ ".minAgeMs") 0 0
  let copies ← optionalInteger (configField tier "copies") (path ++ ".copies") 1 1
  pure { minAgeMs, copies }

def resolveTiers : List ConfigValue → Nat → Except ConfigError (List PlacementTier)
  | [], _ => pure []
  | entry :: entries, index => do
      let tier ← resolveTier entry index
      let tiers ← resolveTiers entries (index + 1)
      pure (tier :: tiers)

/-- Each tier against the one before it. -/
def checkTiers (previous : PlacementTier) :
    List PlacementTier → Nat → Except ConfigError Unit
  | [], _ => pure ()
  | tier :: tiers, index =>
      let path := "replication.placement[" ++ toString index ++ "]"
      if tier.minAgeMs ≤ previous.minAgeMs then
        throw ⟨path ++ ".minAgeMs", "must be greater than the previous tier"⟩
      else if previous.copies < tier.copies then
        throw ⟨path ++ ".copies",
          "must not exceed the previous tier so copies shrink as a file ages"⟩
      else checkTiers tier tiers (index + 1)

/-- Validate the placement tiers, so that exactly one of them applies to any
file and every node reaches the same answer. -/
def resolvePlacement (raw : ConfigValue) (defaults : List PlacementTier) :
    Except ConfigError (List PlacementTier) :=
  match raw with
  | .undefined => .ok defaults
  | .array (entry :: entries) => do
      let first ← resolveTier entry 0
      let rest ← resolveTiers entries 1
      if first.minAgeMs ≠ 0 then
        throw ⟨"replication.placement[0].minAgeMs",
          "must be 0 so that every file matches a tier"⟩
      else do
        checkTiers first rest 1
        pure (first :: rest)
  | _ => .error ⟨"replication.placement", "must be a non-empty array of tiers"⟩

/-! ## What accepted tiers are like -/

/-- Tiers by growing age and shrinking copies, the first for every file. -/
structure TiersShrink (tiers : List PlacementTier) : Prop where
  nonempty : tiers ≠ []
  fromZero : ∀ first ∈ tiers.head?, first.minAgeMs = 0
  ordered : tiers.IsChain fun older newer =>
    older.minAgeMs < newer.minAgeMs ∧ newer.copies ≤ older.copies
  positive : ∀ tier ∈ tiers, 1 ≤ tier.copies

theorem tiersShrink_default : TiersShrink DEFAULT_PLACEMENT where
  nonempty := by decide
  fromZero := by decide
  ordered := by decide
  positive := by decide

section Accepted

variable {tiers : List PlacementTier}

theorem bind_eq_ok {ε α β : Type} {x : Except ε α} {f : α → Except ε β} {b : β} :
    x >>= f = .ok b ↔ ∃ a, x = .ok a ∧ f a = .ok b := by
  cases x with
  | error err =>
      refine ⟨fun h => ?_, fun ⟨a, h, _⟩ => ?_⟩
      · cases h
      · cases h
  | ok a =>
      refine ⟨fun h => ⟨a, rfl, h⟩, fun ⟨a', h, h'⟩ => ?_⟩
      cases h
      exact h'

theorem optionalInteger_ge {value : ConfigValue} {path : String} {fallback min n : Nat}
    (hfallback : min ≤ fallback) (h : optionalInteger value path fallback min = .ok n) :
    min ≤ n := by
  unfold optionalInteger at h
  split at h
  · cases h
    exact hfallback
  · split at h
    · rename_i hcond
      cases h
      rw [Bool.and_eq_true, decide_eq_true_eq] at hcond
      omega
    · cases h
  · cases h

theorem copies_of_resolveTier {entry : ConfigValue} {index : Nat} {tier : PlacementTier}
    (h : resolveTier entry index = .ok tier) : 1 ≤ tier.copies := by
  obtain ⟨fields, -, h⟩ := bind_eq_ok.mp h
  obtain ⟨minAgeMs, -, h⟩ := bind_eq_ok.mp h
  obtain ⟨copies, hcopies, h⟩ := bind_eq_ok.mp h
  cases h
  exact optionalInteger_ge le_rfl hcopies

theorem copies_of_resolveTiers {entries : List ConfigValue} {index : Nat}
    (h : resolveTiers entries index = .ok tiers) : ∀ tier ∈ tiers, 1 ≤ tier.copies := by
  induction entries generalizing index tiers with
  | nil =>
      cases h
      intro tier hmem
      cases hmem
  | cons entry entries ih =>
      obtain ⟨first, hfirst, h⟩ := bind_eq_ok.mp h
      obtain ⟨rest, hrest, h⟩ := bind_eq_ok.mp h
      cases h
      rw [List.forall_mem_cons]
      exact ⟨copies_of_resolveTier hfirst, ih hrest⟩

theorem isChain_of_checkTiers {previous : PlacementTier} {index : Nat}
    (h : checkTiers previous tiers index = .ok ()) :
    (previous :: tiers).IsChain fun older newer =>
      older.minAgeMs < newer.minAgeMs ∧ newer.copies ≤ older.copies := by
  induction tiers generalizing previous index with
  | nil => exact .singleton _
  | cons tier tiers ih =>
      unfold checkTiers at h
      dsimp only at h
      split at h
      · cases h
      · split at h
        · cases h
        · exact .cons_cons ⟨by omega, by omega⟩ (ih h)

/-- Every accepted policy starts at age zero and asks for fewer copies later. -/
theorem tiersShrink_of_resolvePlacement {raw : ConfigValue}
    (h : resolvePlacement raw DEFAULT_PLACEMENT = .ok tiers) : TiersShrink tiers := by
  unfold resolvePlacement at h
  split at h
  · cases h
    exact tiersShrink_default
  · obtain ⟨first, hfirst, h⟩ := bind_eq_ok.mp h
    obtain ⟨rest, hrest, h⟩ := bind_eq_ok.mp h
    split at h
    · cases h
    · rename_i hzero
      obtain ⟨⟨⟩, hcheck, h⟩ := bind_eq_ok.mp h
      cases h
      exact {
        nonempty := List.cons_ne_nil _ _
        fromZero := fun tier htier => by
          cases htier
          exact not_not.mp hzero
        ordered := isChain_of_checkTiers hcheck
        positive := by
          rw [List.forall_mem_cons]
          exact ⟨copies_of_resolveTier hfirst, copies_of_resolveTiers hrest⟩ }
  · cases h

/-- The copies every file keeps, however old it is. -/
def lastCopies (tiers : List PlacementTier) : Nat :=
  (tiers.getLast?.map (·.copies)).getD 1

/-- The tier an age selects is one of the tiers. -/
theorem copiesForAge_loop (ageMs copies : Nat) (tiers : List PlacementTier) :
    tiers.foldl (fun copies tier => if tier.minAgeMs ≤ ageMs then tier.copies else copies) copies
      = copies ∨ ∃ tier ∈ tiers,
        tiers.foldl (fun copies tier => if tier.minAgeMs ≤ ageMs then tier.copies else copies)
          copies = tier.copies := by
  induction tiers generalizing copies with
  | nil => exact .inl rfl
  | cons tier tiers ih =>
      rw [List.foldl_cons]
      rcases ih (if tier.minAgeMs ≤ ageMs then tier.copies else copies) with h | ⟨other, hmem, h⟩
      · rw [h]
        split
        · exact .inr ⟨tier, List.mem_cons_self, rfl⟩
        · exact .inl rfl
      · exact .inr ⟨other, List.mem_cons_of_mem _ hmem, h⟩

theorem TiersShrink.lastCopies_le (h : TiersShrink tiers) {tier : PlacementTier}
    (hmem : tier ∈ tiers) : lastCopies tiers ≤ tier.copies := by
  have htrans : tiers.Pairwise fun older newer => newer.copies ≤ older.copies := by
    have hchain := h.ordered.imp fun _ _ hstep => hstep.2
    exact List.isChain_iff_pairwise.mp hchain
  obtain ⟨init, last, htiers⟩ := (List.eq_nil_or_concat tiers).resolve_left h.nonempty
  rw [List.concat_eq_append] at htiers
  subst htiers
  have hlast : lastCopies (init ++ [last]) = last.copies := by simp [lastCopies]
  rw [hlast]
  rcases List.mem_append.mp hmem with hmem | hmem
  · exact (List.pairwise_append.mp htrans).2.2 tier hmem last (List.mem_singleton.mpr rfl)
  · obtain rfl := List.mem_singleton.mp hmem
    exact le_rfl

/-- Whatever the age, a file has at least the copies of the last tier. -/
theorem TiersShrink.lastCopies_le_copiesForAge (h : TiersShrink tiers) (ageMs : Nat) :
    lastCopies tiers ≤ copiesForAge tiers ageMs := by
  unfold copiesForAge
  rcases copiesForAge_loop ageMs ((tiers.head?.map (·.copies)).getD 1) tiers
    with hloop | ⟨tier, hmem, hloop⟩
  · rw [hloop]
    cases htiers : tiers with
    | nil => exact absurd htiers h.nonempty
    | cons first rest =>
        subst htiers
        exact h.lastCopies_le List.mem_cons_self
  · rw [hloop]
    exact h.lastCopies_le hmem

end Accepted

end IpfsNode
