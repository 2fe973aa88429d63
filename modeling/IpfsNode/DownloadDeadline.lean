import IpfsNode.Config

/-!
# The deadlines of a download

A download is given up when it pauses for too long, and when it takes longer
than its size allows for. The time that the largest file needs is worked out
when the configuration is read, so that no limit cuts it off. `deadline_iff`
says which sizes have a deadline that suffices and that a timer can keep: those
whose time a timer can hold at all, which is not looked at.
-/

namespace IpfsNode

/-! ## Numbers -/

/-- The number that stands for an integer: to 53 binary digits, to the nearest,
and to the even one of two that are as near. -/
def toNumber (n : Nat) : Nat :=
  if n < 2 ^ 53 then n
  else
    let unit := 2 ^ (n.log2 - 52)
    let quotient := n / unit
    let rest := n % unit
    let up := unit < 2 * rest ∨ 2 * rest = unit ∧ quotient % 2 = 1
    (if up then quotient + 1 else quotient) * unit

theorem toNumber_of_lt {n : Nat} (h : n < 2 ^ 53) : toNumber n = n := if_pos h

/-- What is not carried exactly is still large. -/
theorem le_toNumber {n : Nat} (h : 2 ^ 53 ≤ n) : 2 ^ 52 ≤ toNumber n := by
  have hne : n ≠ 0 := by omega
  have hlog : 53 ≤ n.log2 := (Nat.le_log2 hne).mpr h
  have hunit : 0 < 2 ^ (n.log2 - 52) := Nat.two_pow_pos _
  have hquotient : 2 ^ 52 ≤ n / 2 ^ (n.log2 - 52) := by
    rw [Nat.le_div_iff_mul_le hunit, ← Nat.pow_add, show 52 + (n.log2 - 52) = n.log2 by omega]
    exact Nat.log2_self_le hne
  unfold toNumber
  rw [if_neg (by omega)]
  refine (Nat.le_mul_of_pos_right _ hunit).trans (Nat.mul_le_mul_right _ ?_)
  split
  · exact hquotient.trans (Nat.le_succ _)
  · exact hquotient

theorem toNumber_ge {n bound : Nat} (hbound : bound < 2 ^ 52) (h : bound ≤ n) :
    bound ≤ toNumber n := by
  by_cases hlt : n < 2 ^ 53
  · rwa [toNumber_of_lt hlt]
  · exact hbound.le.trans (le_toNumber (by omega))

/-- `Math.ceil(size / rate)`. The quotient of two safe integers is rounded by
less than it is away from an integer, so nothing is lost here. -/
def ceilQuotient (size rate : Nat) : Nat := (size + rate - 1) / rate

/-! ## Validation -/

inductive LimitsError where
  | invalid (err : ConfigError)
  | security (message : String)
deriving DecidableEq, Repr

def requireInteger (value : ConfigValue) (path : String) (min : Nat) :
    Except ConfigError Nat :=
  match value with
  | .undefined => .error ⟨path, "must be an integer >= " ++ toString min⟩
  | value => optionalInteger value path 0 min

/-- `value !== undefined`. -/
def isSet : ConfigValue → Bool
  | .undefined => false
  | _ => true

structure DownloadLimits where
  uploadLimitSizeBytes : Nat
  downloadIdleTimeout : Nat
  downloadMinBytesPerSecond : Nat
  downloadMaxDurationMs : Nat
deriving DecidableEq, Repr

def DEFAULT_DOWNLOAD_MAX_DURATION_MS : Nat := 4 * 60 * 60 * 1000

/-- The largest delay that a timer keeps. -/
def MAX_TIMER_MS : Nat := 2147483647

/-- The part of `validateSecurityConfig` that the limits need. -/
def validateUploadLimit (value : ConfigValue) : Except LimitsError Nat :=
  (requireInteger value "uploadLimitSizeBytes" 1).mapError fun _ =>
    .security "uploadLimitSizeBytes must be a positive integer"

/-- The time that a file needs at the lowest rate, as it is computed. -/
def sizeAwareTimeoutMs (size rate idleTimeoutMs : Nat) : Nat :=
  toNumber (toNumber (ceilQuotient size rate * 1000) + idleTimeoutMs)

/-- The part of `validateConfig` that is about downloads. -/
def validateDownloadLimits (root : List (String × ConfigValue)) :
    Except LimitsError DownloadLimits := do
  let findFileTimeout ←
    (requireInteger (configField root "findFileTimeout") "findFileTimeout" 1).mapError .invalid
  let downloadIdleTimeout ← (optionalInteger (configField root "downloadIdleTimeout")
    "downloadIdleTimeout" findFileTimeout 1).mapError .invalid
  let downloadMinBytesPerSecond ← (optionalInteger (configField root "downloadMinBytesPerSecond")
    "downloadMinBytesPerSecond" (32 * 1024) 1).mapError .invalid
  let uploadLimitSizeBytes ← validateUploadLimit (configField root "uploadLimitSizeBytes")
  let largestDownloadMs :=
    sizeAwareTimeoutMs uploadLimitSizeBytes downloadMinBytesPerSecond downloadIdleTimeout
  let downloadMaxDurationMs ← (optionalInteger (configField root "downloadMaxDurationMs")
    "downloadMaxDurationMs" (max DEFAULT_DOWNLOAD_MAX_DURATION_MS largestDownloadMs)
      1).mapError .invalid
  if downloadMaxDurationMs < downloadIdleTimeout then
    throw (.invalid ⟨"downloadMaxDurationMs",
      "must be greater than or equal to downloadIdleTimeout"⟩)
  else if isSet (configField root "downloadMaxDurationMs") &&
      decide (downloadMaxDurationMs < largestDownloadMs) then
    throw (.invalid ⟨"downloadMaxDurationMs",
      "must be at least " ++ toString largestDownloadMs ++ ", the time an "
        ++ toString uploadLimitSizeBytes ++ " byte file needs at downloadMinBytesPerSecond "
        ++ toString downloadMinBytesPerSecond ++ " plus the " ++ toString downloadIdleTimeout
        ++ " ms idle allowance"⟩)
  else
    pure
      { uploadLimitSizeBytes, downloadIdleTimeout, downloadMinBytesPerSecond
        downloadMaxDurationMs }

/-! ## A download -/

structure StreamTimeouts where
  idleTimeoutMs : Nat
  totalTimeoutMs : Nat
deriving DecidableEq, Repr

/-- What `downloadFile` passes on; a caller may set its own timeouts. -/
def downloadTimeouts (config : DownloadLimits) (fileSize : Nat)
    (idleTimeoutMs totalTimeoutMs : Option Nat) : StreamTimeouts :=
  let idleTimeoutMs := idleTimeoutMs.getD config.downloadIdleTimeout
  let sizeAware := sizeAwareTimeoutMs fileSize config.downloadMinBytesPerSecond idleTimeoutMs
  { idleTimeoutMs
    totalTimeoutMs := totalTimeoutMs.getD
      (min MAX_TIMER_MS (min config.downloadMaxDurationMs (max idleTimeoutMs sizeAware))) }

/-- The delay of a timer; what it cannot keep is a millisecond. -/
def timerDelay (ms : Nat) : Nat := if 1 ≤ ms ∧ ms ≤ MAX_TIMER_MS then ms else 1

/-! ## What accepted limits are like -/

structure LimitsAccepted (config : DownloadLimits) : Prop where
  idle : 1 ≤ config.downloadIdleTimeout
  rate : 1 ≤ config.downloadMinBytesPerSecond
  covered : sizeAwareTimeoutMs config.uploadLimitSizeBytes config.downloadMinBytesPerSecond
    config.downloadIdleTimeout ≤ config.downloadMaxDurationMs
  ceiling : config.downloadIdleTimeout ≤ config.downloadMaxDurationMs

theorem mapError_eq_ok {ε ε' α : Type} {x : Except ε α} {f : ε → ε'} {a : α} :
    x.mapError f = .ok a ↔ x = .ok a := by
  cases x with
  | error err => exact ⟨nofun, nofun⟩
  | ok b => exact ⟨fun h => by cases h; rfl, fun h => by cases h; rfl⟩

theorem requireInteger_ge {value : ConfigValue} {path : String} {min n : Nat}
    (h : requireInteger value path min = .ok n) : min ≤ n := by
  unfold requireInteger at h
  split at h
  · cases h
  · rename_i hdefined
    unfold optionalInteger at h
    split at h
    · exact absurd rfl hdefined
    · split at h
      · rename_i hcond
        cases h
        rw [Bool.and_eq_true, decide_eq_true_eq] at hcond
        omega
      · cases h
    · cases h

theorem accepted_of_validate {root : List (String × ConfigValue)} {config : DownloadLimits}
    (h : validateDownloadLimits root = .ok config) : LimitsAccepted config := by
  obtain ⟨findFileTimeout, hfind, h⟩ := bind_eq_ok.mp h
  obtain ⟨idle, hidle, h⟩ := bind_eq_ok.mp h
  obtain ⟨rate, hrate, h⟩ := bind_eq_ok.mp h
  obtain ⟨limit, -, h⟩ := bind_eq_ok.mp h
  obtain ⟨maximum, hmaximum, h⟩ := bind_eq_ok.mp h
  rw [mapError_eq_ok] at hfind hidle hrate hmaximum
  split at h
  · cases h
  · rename_i hceiling
    split at h
    · cases h
    · rename_i hcovered
      cases h
      refine ⟨optionalInteger_ge (requireInteger_ge hfind) hidle,
        optionalInteger_ge (by decide) hrate, ?_, not_lt.mp hceiling⟩
      cases hvalue : configField root "downloadMaxDurationMs" with
      | undefined =>
        rw [hvalue] at hmaximum
        cases hmaximum
        exact le_max_right _ _
      | _ => simpa [hvalue, isSet] using hcovered

/-! ## Which deadlines suffice -/

section Deadlines

variable {config : DownloadLimits} {size : Nat}

/-- The time the file needs, exactly. -/
def neededMs (config : DownloadLimits) (size : Nat) : Nat :=
  ceilQuotient size config.downloadMinBytesPerSecond * 1000 + config.downloadIdleTimeout

/-- The deadline of the file suffices and both timers keep their delays. -/
structure DeadlineHolds (config : DownloadLimits) (size : Nat) (timeouts : StreamTimeouts) :
    Prop where
  needed : neededMs config size ≤ timeouts.totalTimeoutMs
  idle : timeouts.idleTimeoutMs ≤ timeouts.totalTimeoutMs
  idleTimer : 1 ≤ timeouts.idleTimeoutMs ∧ timeouts.idleTimeoutMs ≤ MAX_TIMER_MS
  totalTimer : 1 ≤ timeouts.totalTimeoutMs ∧ timeouts.totalTimeoutMs ≤ MAX_TIMER_MS

theorem neededMs_mono {larger : Nat} (h : size ≤ larger) :
    neededMs config size ≤ neededMs config larger := by
  have hquotient : ceilQuotient size config.downloadMinBytesPerSecond ≤
      ceilQuotient larger config.downloadMinBytesPerSecond :=
    Nat.div_le_div_right (by omega)
  unfold neededMs
  omega

/-- The deadline is computed exactly as far as a timer goes. -/
theorem sizeAwareTimeoutMs_eq (h : neededMs config size ≤ MAX_TIMER_MS) :
    sizeAwareTimeoutMs size config.downloadMinBytesPerSecond config.downloadIdleTimeout =
      neededMs config size := by
  unfold neededMs MAX_TIMER_MS at h
  have hseconds : toNumber (ceilQuotient size config.downloadMinBytesPerSecond * 1000) =
      ceilQuotient size config.downloadMinBytesPerSecond * 1000 := toNumber_of_lt (by omega)
  unfold sizeAwareTimeoutMs neededMs
  rw [hseconds, toNumber_of_lt (by omega)]

/-- Past that, it is still past any timer. -/
theorem le_sizeAwareTimeoutMs {bound : Nat} (hbound : bound ≤ MAX_TIMER_MS)
    (h : bound ≤ neededMs config size) :
    bound ≤ sizeAwareTimeoutMs size config.downloadMinBytesPerSecond
      config.downloadIdleTimeout := by
  unfold MAX_TIMER_MS at hbound
  unfold neededMs at h
  have hsmall : bound < 2 ^ 52 := by omega
  refine toNumber_ge hsmall ?_
  by_cases hseconds :
      ceilQuotient size config.downloadMinBytesPerSecond * 1000 < 2 ^ 53
  · rwa [toNumber_of_lt hseconds]
  · have hlarge := le_toNumber (not_lt.mp hseconds)
    omega

/-- For every configuration that is accepted and every size up to its limit, the
deadline holds exactly if a timer can hold the time that the file needs. -/
theorem deadline_iff (root : List (String × ConfigValue)) (config : DownloadLimits)
    (hconfig : validateDownloadLimits root = .ok config) (size : Nat)
    (hsize : size ≤ config.uploadLimitSizeBytes) :
    DeadlineHolds config size (downloadTimeouts config size none none) ↔
      neededMs config size ≤ MAX_TIMER_MS := by
  have haccepted := accepted_of_validate hconfig
  constructor
  · exact fun h => h.needed.trans h.totalTimer.2
  · intro hneeded
    have hidle : config.downloadIdleTimeout ≤ neededMs config size := Nat.le_add_left _ _
    have hceiling : neededMs config size ≤ config.downloadMaxDurationMs :=
      (le_sizeAwareTimeoutMs hneeded (neededMs_mono hsize)).trans haccepted.covered
    have htotal : (downloadTimeouts config size none none).totalTimeoutMs =
        neededMs config size := by
      show min MAX_TIMER_MS (min config.downloadMaxDurationMs (max config.downloadIdleTimeout
        (sizeAwareTimeoutMs size config.downloadMinBytesPerSecond
          config.downloadIdleTimeout))) = _
      rw [sizeAwareTimeoutMs_eq hneeded]
      omega
    have hpositive := haccepted.idle
    refine ⟨htotal.ge, ?_, ⟨hpositive, ?_⟩, ?_, ?_⟩
    · rw [htotal]
      exact hidle
    · exact hidle.trans hneeded
    · rw [htotal]
      omega
    · rw [htotal]
      exact hneeded

end Deadlines

/-! ## Limits that no timer keeps -/

/-- The operator sets an idle timeout of fifty days. -/
def unhurried : List (String × ConfigValue) :=
  [("findFileTimeout", .number (some 20000)), ("downloadIdleTimeout", .number (some 4320000000)),
    ("uploadLimitSizeBytes", .number (some 268435456))]

/-- The defaults, with which the largest file has two hours and a quarter. -/
def hurried : List (String × ConfigValue) :=
  [("findFileTimeout", .number (some 20000)), ("uploadLimitSizeBytes", .number (some 268435456))]

theorem deadline_iff_defaults : ∃ config, validateDownloadLimits hurried = .ok config ∧
    DeadlineHolds config 268435456 (downloadTimeouts config 268435456 none none) := by
  refine ⟨⟨268435456, 20000, 32768, 14400000⟩, by decide +kernel, ?_⟩
  exact (deadline_iff hurried ⟨268435456, 20000, 32768, 14400000⟩ (by decide +kernel) 268435456
    (by decide)).mpr (by decide)

theorem unhurried_download_ends_at_once : ∃ config,
    validateDownloadLimits unhurried = .ok config ∧
      timerDelay (downloadTimeouts config 0 none none).idleTimeoutMs = 1 ∧
      ¬ DeadlineHolds config 0 (downloadTimeouts config 0 none none) := by
  refine ⟨⟨268435456, 4320000000, 32768, 4328192000⟩, by decide +kernel, by decide, fun h => ?_⟩
  exact absurd h.idleTimer.2 (by decide)

end IpfsNode
