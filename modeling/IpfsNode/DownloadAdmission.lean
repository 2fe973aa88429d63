import IpfsNode.Transition
import IpfsNode.UploadAdmission
import Mathlib.Data.List.AList

/-!
# Download admission

A download takes a slot of the limiter that all downloads share, and counts
against the share of its client. Both go back when the response finishes or
closes; both events may come, and the first one gives back. The counts are kept
in a map that has entries for clients with downloads only.
-/

namespace IpfsNode

open TransitionSystem (Run always)

/-! ## The code -/

/-- An admitted request, and the listeners on its response that did not run yet.
`returns` counts how often its slot went back. -/
structure Download (Client : Type) where
  key : Client
  released : Bool
  onFinish : Bool
  onClose : Bool
  returns : Nat
deriving DecidableEq, Repr

def Download.new {Client : Type} (key : Client) : Download Client where
  key := key
  released := false
  onFinish := true
  onClose := true
  returns := 0

/-- The response finished or closed. -/
def Download.ended {Client : Type} (d : Download Client) : Bool := !d.onFinish || !d.onClose

/-- What a download counts for. -/
def Download.live {Client : Type} (d : Download Client) : Nat := (!d.ended).toNat

/-- How a request is answered by the guard. -/
inductive DownloadVerdict where
  /-- 429, because of the client. -/
  | downloadClientConcurrency
  /-- 429, because of the node. -/
  | downloadConcurrency
  | next
deriving DecidableEq, Repr

structure DownloadAdmission (Client : Type) where
  limiter : ConcurrencyLimiter
  perClientLimit : Option Nat
  heldPerClient : AList fun _ : Client => Nat
  downloads : List (Download Client)

theorem ConcurrencyLimiter.maxConcurrent_release (limiter : ConcurrencyLimiter) :
    limiter.release.maxConcurrent = limiter.maxConcurrent := by
  unfold ConcurrencyLimiter.release
  split <;> rfl

theorem ConcurrencyLimiter.inFlight_release_le (limiter : ConcurrencyLimiter) :
    limiter.release.inFlight ≤ limiter.inFlight := by
  unfold ConcurrencyLimiter.release
  split
  · exact Nat.sub_le _ _
  · exact Nat.le_refl _

namespace DownloadAdmission

variable {Client : Type} [DecidableEq Client]

def start (maxConcurrent : Nat) (perClientLimit : Option Nat) : DownloadAdmission Client where
  limiter := ⟨0, maxConcurrent⟩
  perClientLimit := perClientLimit
  heldPerClient := ∅
  downloads := []

def held (s : DownloadAdmission Client) (key : Client) : Nat :=
  (s.heldPerClient.lookup key).getD 0

/-- The guard. -/
def handle (s : DownloadAdmission Client) (key : Client) :
    DownloadVerdict × DownloadAdmission Client :=
  let held := s.held key
  if s.perClientLimit.any (· ≤ held) then (.downloadClientConcurrency, s)
  else
    match s.limiter.tryAcquire with
    | none => (.downloadConcurrency, s)
    | some limiter =>
        (.next, { s with
          limiter
          heldPerClient := s.heldPerClient.insert key (held + 1)
          downloads := s.downloads ++ [.new key] })

/-- What both listeners call. -/
def release (s : DownloadAdmission Client) (i : Nat) (d : Download Client) :
    DownloadAdmission Client :=
  if d.released then { s with downloads := s.downloads.set i d }
  else
    let remaining := (s.heldPerClient.lookup d.key).getD 1 - 1
    { s with
      heldPerClient :=
        if 0 < remaining then s.heldPerClient.insert d.key remaining
        else s.heldPerClient.erase d.key
      limiter := s.limiter.release
      downloads := s.downloads.set i { d with released := true, returns := d.returns + 1 } }

inductive Event (Client : Type) where
  | arrive (key : Client)
  | finish (i : Nat)
  | close (i : Nat)
deriving DecidableEq, Repr

/-- A listener runs once. -/
inductive Step : DownloadAdmission Client → Event Client → DownloadAdmission Client → Prop
  | arrive {s : DownloadAdmission Client} {key : Client} : Step s (.arrive key) (s.handle key).2
  | finish {s : DownloadAdmission Client} {i : Nat} {d : Download Client}
      (h : s.downloads[i]? = some d) (hlistens : d.onFinish = true) :
      Step s (.finish i) (s.release i { d with onFinish := false })
  | close {s : DownloadAdmission Client} {i : Nat} {d : Download Client}
      (h : s.downloads[i]? = some d) (hlistens : d.onClose = true) :
      Step s (.close i) (s.release i { d with onClose := false })

/-! ## What the counts are -/

variable {s s' : DownloadAdmission Client} {a : Event Client} {maxConcurrent : Nat}
variable {perClientLimit : Option Nat}

/-- The downloads of a client that have not ended. -/
def liveOf (s : DownloadAdmission Client) (key : Client) : Nat :=
  s.downloads.tally fun d => if d.key = key then d.live else 0

/-- What holds between two events. -/
structure Counted (maxConcurrent : Nat) (perClientLimit : Option Nat)
    (s : DownloadAdmission Client) : Prop where
  maximum : s.limiter.maxConcurrent = maxConcurrent
  share : s.perClientLimit = perClientLimit
  counts : ∀ key, s.held key = s.liveOf key
  positive : ∀ key n, s.heldPerClient.lookup key = some n → 0 < n
  withinShare : ∀ limit, perClientLimit = some limit → ∀ key, s.held key ≤ limit
  active : s.limiter.inFlight = s.downloads.tally Download.live
  withinMaximum : s.limiter.inFlight ≤ maxConcurrent
  released : ∀ d ∈ s.downloads, d.released = d.ended
  returns : ∀ d ∈ s.downloads, d.returns = d.ended.toNat

theorem start_counted : (start maxConcurrent perClientLimit : DownloadAdmission Client).Counted
    maxConcurrent perClientLimit where
  maximum := rfl
  share := rfl
  counts := fun _ => rfl
  positive := by simp [start]
  withinShare := fun _ _ _ => Nat.zero_le _
  active := rfl
  withinMaximum := Nat.zero_le _
  released := by simp [start]
  returns := by simp [start]

/-- An entry is the count, and there is none for a client without downloads. -/
theorem Counted.lookup (h : s.Counted maxConcurrent perClientLimit) {key : Client} {n : Nat}
    (hlookup : s.heldPerClient.lookup key = some n) : n = s.liveOf key := by
  rw [← h.counts key, held, hlookup, Option.getD_some]

/-- A refusal changes nothing, and an admission needs room on both counts. -/
theorem admit_cases (s : DownloadAdmission Client) (key : Client) :
    (s.handle key).2 = s ∨
      ((∀ limit, s.perClientLimit = some limit → s.held key < limit) ∧
        s.limiter.inFlight < s.limiter.maxConcurrent ∧
        (s.handle key).2 = { s with
          limiter := { s.limiter with inFlight := s.limiter.inFlight + 1 }
          heldPerClient := s.heldPerClient.insert key (s.held key + 1)
          downloads := s.downloads ++ [.new key] }) := by
  unfold handle
  dsimp only
  by_cases hshare : s.perClientLimit.any (· ≤ s.held key) = true
  · rw [if_pos hshare]
    exact .inl rfl
  · rw [if_neg hshare]
    by_cases hfull : s.limiter.maxConcurrent ≤ s.limiter.inFlight
    · simp only [ConcurrencyLimiter.tryAcquire, if_pos hfull]
      exact .inl trivial
    · simp only [ConcurrencyLimiter.tryAcquire, if_neg hfull]
      refine .inr ⟨fun limit hlimit => ?_, Nat.lt_of_not_le hfull, trivial⟩
      rw [hlimit] at hshare
      simpa using hshare

theorem Counted.admits (h : s.Counted maxConcurrent perClientLimit) (key : Client) :
    (s.handle key).2.Counted maxConcurrent perClientLimit := by
  rcases s.admit_cases key with hsame | ⟨hshare, hroom, hadmitted⟩
  · rw [hsame]
    exact h
  rw [hadmitted]
  have hheld (other : Client) : ((s.heldPerClient.insert key (s.held key + 1)).lookup
      other).getD 0 = s.held other + if key = other then 1 else 0 := by
    by_cases hother : other = key
    · subst hother
      simp
    · rw [AList.lookup_insert_ne hother, if_neg fun heq => hother heq.symm]
      rfl
  refine
    { maximum := h.maximum, share := h.share, counts := ?_, positive := ?_, withinShare := ?_
      active := ?_, withinMaximum := ?_, released := ?_, returns := ?_ }
  · intro other
    have hcounts := h.counts other
    refine (hheld other).trans ?_
    rw [hcounts]
    simp [liveOf, Download.live, Download.ended, Download.new]
  · intro other n hn
    by_cases hother : other = key
    · subst hother
      have : n = s.held other + 1 := by simpa [eq_comm] using hn
      omega
    · exact h.positive other n ((AList.lookup_insert_ne hother).symm.trans hn)
  · intro limit hlimit other
    have hbefore := h.withinShare limit hlimit other
    have hless := hshare limit (h.share.trans hlimit)
    refine (hheld other).trans_le ?_
    split
    · rename_i heq
      rw [← heq]
      omega
    · omega
  · show s.limiter.inFlight + 1 = _
    rw [h.active]
    simp [Download.live, Download.ended, Download.new]
  · have hmaximum := h.maximum
    show s.limiter.inFlight + 1 ≤ _
    omega
  · intro d hmem
    rcases List.mem_append.mp hmem with hmem | hmem
    · exact h.released d hmem
    · obtain rfl := List.mem_singleton.mp hmem
      rfl
  · intro d hmem
    rcases List.mem_append.mp hmem with hmem | hmem
    · exact h.returns d hmem
    · obtain rfl := List.mem_singleton.mp hmem
      rfl

/-- A listener that hears its event is gone, and gives back unless the other one did. -/
theorem Counted.hears (h : s.Counted maxConcurrent perClientLimit) {i : Nat}
    {d : Download Client} (hget : s.downloads[i]? = some d) (onFinish onClose : Bool)
    (hended : (!onFinish || !onClose) = true) :
    (s.release i { d with onFinish, onClose }).Counted maxConcurrent perClientLimit := by
  have hmem := List.mem_of_getElem? hget
  have hgone := h.released d hmem
  have hcount := h.returns d hmem
  have hafter (released : Bool) (returns : Nat) :
      Download.live ⟨d.key, released, onFinish, onClose, returns⟩ = 0 := by
    simp only [Download.live, Download.ended, hended]
    rfl
  have hof (released : Bool) (returns : Nat) (key : Client) :
      ((s.downloads.set i ⟨d.key, released, onFinish, onClose, returns⟩).tally
          fun d => if d.key = key then d.live else 0)
        + (if d.key = key then d.live else 0) = s.liveOf key := by
    have hset := List.tally_set ⟨d.key, released, onFinish, onClose, returns⟩
      (fun d => if d.key = key then d.live else 0) hget
    simp only [hafter, ite_self] at hset
    exact hset
  have hall (released : Bool) (returns : Nat) :
      (s.downloads.set i ⟨d.key, released, onFinish, onClose, returns⟩).tally Download.live
        + d.live = s.downloads.tally Download.live := by
    have hset := List.tally_set ⟨d.key, released, onFinish, onClose, returns⟩ Download.live hget
    rw [hafter] at hset
    exact hset
  have hmem' {d'' e : Download Client} (he : e ∈ s.downloads.set i d'') :
      e = d'' ∨ e ∈ s.downloads := List.mem_or_eq_of_mem_set he |>.symm
  unfold release
  dsimp only
  rw [hgone]
  cases hwas : d.ended with
  | true =>
      have hbefore : d.live = 0 := by simp [Download.live, hwas]
      rw [if_pos rfl]
      refine
        { maximum := h.maximum, share := h.share, counts := fun key => ?_, positive := h.positive
          withinShare := h.withinShare, active := ?_, withinMaximum := h.withinMaximum
          released := ?_, returns := ?_ }
      · have hsame := hof true d.returns key
        rw [hbefore, ite_self, Nat.add_zero] at hsame
        exact (h.counts key).trans hsame.symm
      · have hsame := hall true d.returns
        rw [hbefore, Nat.add_zero] at hsame
        exact h.active.trans hsame.symm
      · intro e he
        rcases hmem' he with rfl | he
        · exact hended.symm
        · exact h.released e he
      · intro e he
        rcases hmem' he with rfl | he
        · exact (hcount.trans (congrArg Bool.toNat hwas)).trans (congrArg Bool.toNat hended).symm
        · exact h.returns e he
  | false =>
      have hbefore : d.live = 1 := by simp [Download.live, hwas]
      have hone : 1 ≤ s.liveOf d.key := by
        have hle := List.le_tally (fun e => if e.key = d.key then e.live else 0) hmem
        rw [if_pos rfl, hbefore] at hle
        exact hle
      obtain ⟨n, hlookup⟩ : ∃ n, s.heldPerClient.lookup d.key = some n := by
        refine Option.ne_none_iff_exists'.mp fun hnone => ?_
        have hcounts := h.counts d.key
        rw [held, hnone, Option.getD_none] at hcounts
        omega
      have hn := h.lookup hlookup
      rw [if_neg Bool.false_ne_true, hlookup, Option.getD_some]
      have hnew (key : Client) : ((if 0 < n - 1 then s.heldPerClient.insert d.key (n - 1)
          else s.heldPerClient.erase d.key).lookup key).getD 0 =
          if key = d.key then n - 1 else s.held key := by
        by_cases hother : key = d.key
        · subst hother
          split
          · simp
          · simp only [AList.lookup_erase, if_true, Option.getD_none]
            omega
        · rw [if_neg hother]
          split
          · rw [AList.lookup_insert_ne hother]
            rfl
          · rw [AList.lookup_erase_ne hother]
            rfl
      refine
        { maximum := ?_, share := h.share, counts := fun key => ?_, positive := ?_
          withinShare := ?_, active := ?_, withinMaximum := ?_, released := ?_, returns := ?_ }
      · exact (ConcurrencyLimiter.maxConcurrent_release _).trans h.maximum
      · have hless := hof true (d.returns + 1) key
        refine (hnew key).trans ?_
        have hcounts := h.counts key
        by_cases hother : key = d.key
        · subst hother
          rw [if_pos rfl, hbefore] at hless
          rw [if_pos rfl]
          show n - 1 = List.tally _ (s.downloads.set i _)
          omega
        · rw [if_neg fun heq => hother heq.symm] at hless
          rw [if_neg hother]
          exact hcounts.trans hless.symm
      · intro key m hm
        by_cases hother : key = d.key
        · subst hother
          split at hm
          · have : m = n - 1 := by simpa [eq_comm] using hm
            omega
          · simp at hm
        · refine h.positive key m ?_
          split at hm
          · exact (AList.lookup_insert_ne hother).symm.trans hm
          · exact (AList.lookup_erase_ne hother).symm.trans hm
      · intro limit hlimit key
        have hwithin := h.withinShare limit hlimit key
        refine (hnew key).trans_le ?_
        split
        · rename_i heq
          have hcounts := h.counts key
          subst heq
          omega
        · exact hwithin
      · have hless := hall true (d.returns + 1)
        have hactive := h.active
        show (ConcurrencyLimiter.release s.limiter).inFlight = List.tally _ (s.downloads.set i _)
        unfold ConcurrencyLimiter.release
        rw [if_pos (by omega)]
        show s.limiter.inFlight - 1 = _
        omega
      · exact (ConcurrencyLimiter.inFlight_release_le _).trans h.withinMaximum
      · intro e he
        rcases hmem' he with rfl | he
        · exact hended.symm
        · exact h.released e he
      · intro e he
        rcases hmem' he with rfl | he
        · show d.returns + 1 = _
          rw [hcount, hwas]
          exact (congrArg Bool.toNat hended).symm
        · exact h.returns e he

theorem Step.counted (hstep : Step s a s') (h : s.Counted maxConcurrent perClientLimit) :
    s'.Counted maxConcurrent perClientLimit := by
  cases hstep with
  | arrive => exact h.admits _
  | @finish i d hget hlistens => exact h.hears hget false d.onClose rfl
  | @close i d hget hlistens => exact h.hears hget d.onFinish false (Bool.or_true _)

/-- There is an entry for a client exactly while it has downloads. -/
theorem Counted.mem_iff (h : s.Counted maxConcurrent perClientLimit) (key : Client) :
    key ∈ s.heldPerClient ↔ 0 < s.liveOf key := by
  rw [← AList.lookup_isSome, ← h.counts key, held]
  cases hlookup : s.heldPerClient.lookup key with
  | none => simp
  | some n => simpa using h.positive key n hlookup

/-- Every download is counted under the entry of its client. -/
theorem Counted.sum (h : s.Counted maxConcurrent perClientLimit) :
    s.heldPerClient.entries.tally (·.2) = s.limiter.inFlight := by
  have hentries : s.heldPerClient.entries.tally (·.2) = s.heldPerClient.keys.tally s.liveOf := by
    show _ = List.tally _ (s.heldPerClient.entries.map Sigma.fst)
    rw [List.tally_map]
    exact List.tally_congr fun entry hmem => h.lookup (AList.mem_lookup_iff.mpr hmem)
  rw [hentries, h.active]
  refine (List.tally_keys Download.live Download.key _ _ s.heldPerClient.keys_nodup).trans ?_
  refine List.tally_congr fun d hmem => ?_
  by_cases hkey : d.key ∈ s.heldPerClient.keys
  · rw [if_pos hkey]
  · rw [if_neg hkey]
    have hle := List.le_tally (fun e => if e.key = d.key then e.live else 0) hmem
    rw [if_pos rfl] at hle
    have hnone : ¬ 0 < s.liveOf d.key := fun hpos =>
      hkey (AList.mem_keys.mp ((h.mem_iff d.key).mpr hpos))
    unfold liveOf at hnone
    omega

end DownloadAdmission

end IpfsNode
