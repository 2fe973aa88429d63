import IpfsNode.Config

/-!
# JSON values

What the node reads back from its datastore, after `JSON.parse`. A counter or a
time is accepted when it is an integer that a number carries exactly; `asCount`
says so, and `asCount_nat` that a counter in range comes back as it was written.
-/

namespace IpfsNode

/-- The latest time that `Date.now` can return. -/
def MAX_TIME : Nat := 8640000000000000

inductive Json where
  | null
  | bool (value : Bool)
  | number (value : Rat)
  | string (value : String)
  | array (items : List Json)
  | object (fields : List (String × Json))

namespace Json

/-- A field of an object, `none` where the code reads `undefined`. -/
def field (name : String) (fields : List (String × Json)) : Option Json := fields.lookup name

def nat (n : Nat) : Json := .number n

/-- `Number.isSafeInteger(value) && value >= 0`. -/
def isCount : Json → Bool
  | .number value => isSafeInteger value && 0 ≤ value.num
  | _ => false

def asCount : Json → Option Nat
  | .number value => if isCount (.number value) then some value.num.toNat else none
  | _ => none

def asString : Json → Option String
  | .string value => some value
  | _ => none

def asBool : Json → Option Bool
  | .bool value => some value
  | _ => none

/-- A count or `null`. -/
def asTime : Json → Option (Option Nat)
  | .null => some none
  | value => (asCount value).map some

/-- A field that may be missing, but not be anything else. -/
def optional {α : Type} (read : Json → Option α) : Option Json → Option (Option α)
  | none => some none
  | some value => (read value).map some

/-- A time that is `null` before the first. -/
def time : Option Nat → Json
  | none => .null
  | some t => .nat t

@[simp] theorem asCount_nat (n : Nat) :
    asCount (.nat n) = if n ≤ MAX_SAFE_INTEGER then some n else none := by
  have hnum : ((n : Nat) : Rat).num = n := rfl
  have hden : ((n : Nat) : Rat).den = 1 := rfl
  simp only [asCount, nat, isCount, isSafeInteger, hnum, hden, Int.natAbs_natCast,
    Int.natCast_nonneg, Int.toNat_natCast]
  by_cases hle : n ≤ MAX_SAFE_INTEGER <;> simp [hle]

@[simp] theorem asString_string (value : String) : asString (.string value) = some value := rfl

@[simp] theorem asBool_bool (value : Bool) : asBool (.bool value) = some value := rfl

@[simp] theorem asTime_time (t : Option Nat) :
    asTime (.time t) = if ∀ n ∈ t, n ≤ MAX_SAFE_INTEGER then some t else none := by
  cases t with
  | none => simp [time, asTime]
  | some n =>
    have hcount : asTime (.nat n) = (asCount (.nat n)).map some := rfl
    rw [time, hcount, asCount_nat]
    by_cases hle : n ≤ MAX_SAFE_INTEGER <;> simp [hle]

@[simp] theorem optional_some {α : Type} (read : Json → Option α) (value : Json) :
    optional read (some value) = (read value).map some := rfl

@[simp] theorem optional_none {α : Type} (read : Json → Option α) :
    optional read none = some none := rfl

end Json

end IpfsNode
