import Mathlib.Algebra.Group.Nat.Defs
import Mathlib.Data.List.Infix
import Mathlib.Data.List.Basic

/-!
# Length-prefixed messages

A message on a stream is its length in four bytes, the most significant one
first, and then its bytes. The stream delivers it in chunks of any size. A
reader with a limit collects chunks until it can tell the outcome, and tests
after every chunk whether too much has arrived, whether the announced length is
too large, and whether the message is complete.

What the reader comes to depends on the bytes and not on the chunks:
`readFrom_split` for a whole message, `readFrom_part` for a part of one,
`readFrom_oversized` for a length over the limit. `Bounded` says what it asks
for at most.
-/

namespace Framing

abbrev Bytes := List UInt8

/-- Bytes of the length that precedes every message. -/
def LENGTH_PREFIX_BYTES : Nat := 4

/-! ## The length -/

/-- `setUint32(0, n)`: four bytes, the most significant one first. -/
def uint32BE (n : Nat) : Bytes :=
  [UInt8.ofNat (n / 2 ^ 24), UInt8.ofNat (n / 2 ^ 16), UInt8.ofNat (n / 2 ^ 8), UInt8.ofNat n]

/-- `readUInt32BE(0)`. -/
def readUInt32BE : Bytes → Nat
  | a :: b :: c :: d :: _ =>
      a.toNat * 2 ^ 24 + b.toNat * 2 ^ 16 + c.toNat * 2 ^ 8 + d.toNat
  | _ => 0

@[simp] theorem length_uint32BE (n : Nat) : (uint32BE n).length = LENGTH_PREFIX_BYTES := rfl

theorem readUInt32BE_uint32BE {n : Nat} (h : n < 2 ^ 32) (rest : Bytes) :
    readUInt32BE (uint32BE n ++ rest) = n := by
  have h24 : n / 2 ^ 24 < 2 ^ 8 := Nat.div_lt_of_lt_mul (by omega)
  simp only [uint32BE, List.cons_append, List.nil_append, readUInt32BE, UInt8.toNat_ofNat']
  omega

/-- What follows the length does not change it. -/
theorem readUInt32BE_append {bytes : Bytes} (h : LENGTH_PREFIX_BYTES ≤ bytes.length)
    (rest : Bytes) : readUInt32BE (bytes ++ rest) = readUInt32BE bytes := by
  match bytes, h with
  | _ :: _ :: _ :: _ :: _, _ => rfl

/-! ## Writer and reader -/

/-- A message with its length in front. -/
def frame (body : Bytes) : Bytes := uint32BE body.length ++ body

@[simp] theorem length_frame (body : Bytes) :
    (frame body).length = LENGTH_PREFIX_BYTES + body.length := by
  simp [frame]

inductive Outcome where
  | tooLarge
  /-- The stream ended first. -/
  | incomplete
  | message (body : Bytes)
deriving DecidableEq, Repr

/-- What can be told from the bytes received so far, if anything. -/
def verdict (limit : Nat) (received : Bytes) : Option Outcome :=
  if limit + LENGTH_PREFIX_BYTES < received.length then some .tooLarge
  else if received.length < LENGTH_PREFIX_BYTES then none
  else
    let length := readUInt32BE received
    if limit < length then some .tooLarge
    else if LENGTH_PREFIX_BYTES + length ≤ received.length then
      some (.message ((received.drop LENGTH_PREFIX_BYTES).take length))
    else none

/-- Collect chunks until the outcome is known; the chunks left unread come with
it. -/
def readFrom (limit : Nat) : Bytes → List Bytes → Outcome × List Bytes
  | _, [] => (.incomplete, [])
  | received, chunk :: chunks =>
      match verdict limit (received ++ chunk) with
      | some outcome => (outcome, chunks)
      | none => readFrom limit (received ++ chunk) chunks

/-- What the reader comes to on a stream that ends after the chunks. -/
def read (limit : Nat) (chunks : List Bytes) : Outcome := (readFrom limit [] chunks).1

/-! ## What can be told from part of a stream -/

section Verdict

variable {limit : Nat} {body received : Bytes}

theorem verdict_frame (hbody : body.length ≤ limit) (hlimit : limit < 2 ^ 32) :
    verdict limit (frame body) = some (.message body) := by
  have hlength : readUInt32BE (frame body) = body.length :=
    readUInt32BE_uint32BE (hbody.trans_lt hlimit) body
  have hdrop : (frame body).drop LENGTH_PREFIX_BYTES = body := rfl
  unfold verdict
  simp only [hlength, length_frame, hdrop, List.take_length]
  rw [if_neg (by omega), if_neg (by omega), if_neg (by omega), if_pos le_rfl]

/-- Nothing is told before the last byte of a message. -/
theorem verdict_part (hbody : body.length ≤ limit) (hlimit : limit < 2 ^ 32)
    (hfront : received <+: frame body) (hpart : received ≠ frame body) :
    verdict limit received = none := by
  obtain ⟨rest, hrest⟩ := hfront
  have hlength : received.length + rest.length = LENGTH_PREFIX_BYTES + body.length := by
    rw [← length_frame, ← hrest, List.length_append]
  have hleft : 0 < rest.length := by
    refine List.length_pos_iff.mpr fun hnil => hpart ?_
    rw [← hrest, hnil, List.append_nil]
  unfold verdict
  rw [if_neg (by omega)]
  split
  · rfl
  · rename_i hfront
    have hannounced : readUInt32BE received = body.length := by
      rw [← readUInt32BE_append (Nat.not_lt.mp hfront) rest, hrest]
      exact readUInt32BE_uint32BE (hbody.trans_lt hlimit) body
    simp only [hannounced]
    rw [if_neg (by omega), if_neg (by omega)]

/-- A length over the limit is told as soon as it is there. -/
theorem verdict_oversized (hlength : LENGTH_PREFIX_BYTES ≤ received.length)
    (hover : limit < readUInt32BE received) : verdict limit received = some .tooLarge := by
  unfold verdict
  split
  · rfl
  · rw [if_neg (Nat.not_lt.mpr hlength)]
    exact if_pos hover

theorem verdict_short (hshort : received.length < LENGTH_PREFIX_BYTES) :
    verdict limit received = none := by
  unfold verdict
  rw [if_neg (by omega), if_pos hshort]

/-- While nothing can be told, no more than the limit has arrived. -/
theorem length_of_verdict_none (h : verdict limit received = none) :
    received.length ≤ limit + LENGTH_PREFIX_BYTES := by
  unfold verdict at h
  split at h
  · cases h
  · omega

theorem verdict_ne_incomplete (h : verdict limit received = some .incomplete) : False := by
  unfold verdict at h
  dsimp only at h
  split at h
  · cases h
  · split at h
    · cases h
    · split at h
      · cases h
      · split at h <;> cases h

/-- What is told from the first bytes of a message is that message. -/
theorem verdict_message (hfits : body.length < 2 ^ 32) (hfront : received <+: frame body)
    {told : Bytes} (h : verdict limit received = some (.message told)) : told = body := by
  unfold verdict at h
  dsimp only at h
  split at h
  · cases h
  · split at h
    · cases h
    · rename_i hlength
      have hannounced : readUInt32BE received = body.length := by
        obtain ⟨rest, hrest⟩ := hfront
        rw [← readUInt32BE_append (Nat.not_lt.mp hlength) rest, hrest]
        exact readUInt32BE_uint32BE hfits body
      rw [hannounced] at h
      split at h
      · cases h
      · split at h
        · rename_i hwhole
          cases h
          rw [hfront.eq_of_length_le (by rw [length_frame]; exact hwhole)]
          exact List.take_length
        · cases h

end Verdict

/-! ## Whole streams -/

section Reader

variable {limit : Nat} {body received : Bytes} {chunks : List Bytes}

/-- Induction on the chunks: as long as bytes of the message are missing the
reader goes on, and the chunk with the last of them ends it. -/
theorem readFrom_split (hbody : body.length ≤ limit) (hlimit : limit < 2 ^ 32)
    (hpart : received ≠ frame body) (h : received ++ chunks.flatten = frame body) :
    (readFrom limit received chunks).1 = .message body := by
  induction chunks generalizing received with
  | nil =>
      rw [List.flatten_nil, List.append_nil] at h
      exact absurd h hpart
  | cons chunk chunks ih =>
      rw [List.flatten_cons, ← List.append_assoc] at h
      unfold readFrom
      by_cases hwhole : received ++ chunk = frame body
      · rw [hwhole, verdict_frame hbody hlimit]
      · rw [verdict_part hbody hlimit ⟨_, h⟩ hwhole]
        exact ih hwhole h

theorem readFrom_part (hbody : body.length ≤ limit) (hlimit : limit < 2 ^ 32)
    (hfront : received ++ chunks.flatten <+: frame body)
    (hpart : received ++ chunks.flatten ≠ frame body) :
    (readFrom limit received chunks).1 = .incomplete := by
  induction chunks generalizing received with
  | nil => rfl
  | cons chunk chunks ih =>
      rw [List.flatten_cons, ← List.append_assoc] at hfront hpart
      have hpast : received ++ chunk <+: frame body := (List.prefix_append _ _).trans hfront
      have hshort : received ++ chunk ≠ frame body := by
        rintro heq
        rw [heq] at hfront hpart
        exact hpart ((List.prefix_append _ _).eq_of_length_le hfront.length_le).symm
      unfold readFrom
      rw [verdict_part hbody hlimit hpast hshort]
      exact ih hfront hpart

theorem readFrom_front (hfits : body.length < 2 ^ 32)
    (hfront : received ++ chunks.flatten <+: frame body) {told : Bytes}
    (h : (readFrom limit received chunks).1 = .message told) : told = body := by
  induction chunks generalizing received with
  | nil => cases h
  | cons chunk chunks ih =>
      rw [List.flatten_cons, ← List.append_assoc] at hfront
      unfold readFrom at h
      split at h
      · rename_i outcome htold
        obtain rfl : outcome = .message told := h
        exact verdict_message hfits ((List.prefix_append _ _).trans hfront) htold
      · exact ih hfront h

theorem readFrom_oversized (hshort : received.length < LENGTH_PREFIX_BYTES)
    (hlength : LENGTH_PREFIX_BYTES ≤ (received ++ chunks.flatten).length)
    (hover : limit < readUInt32BE (received ++ chunks.flatten)) :
    (readFrom limit received chunks).1 = .tooLarge := by
  induction chunks generalizing received with
  | nil =>
      rw [List.flatten_nil, List.append_nil] at hlength
      omega
  | cons chunk chunks ih =>
      rw [List.flatten_cons, ← List.append_assoc] at hlength hover
      unfold readFrom
      by_cases hthere : LENGTH_PREFIX_BYTES ≤ (received ++ chunk).length
      · rw [readUInt32BE_append hthere] at hover
        rw [verdict_oversized hthere hover]
      · rw [verdict_short (Nat.not_le.mp hthere)]
        exact ih (Nat.not_le.mp hthere) hlength hover

/-- More chunks do not change what was told from the first ones. -/
theorem readFrom_append {outcome : Outcome} {unread : List Bytes} (more : List Bytes)
    (htold : outcome ≠ .incomplete) (h : readFrom limit received chunks = (outcome, unread)) :
    readFrom limit received (chunks ++ more) = (outcome, unread ++ more) := by
  induction chunks generalizing received with
  | nil =>
      cases h
      exact absurd rfl htold
  | cons chunk chunks ih =>
      rw [List.cons_append]
      unfold readFrom at h ⊢
      split at h
      · cases h
        rfl
      · exact ih h

/-- The reader asks for another chunk, or for the end of the stream, only while
no more than the limit has arrived. -/
structure Bounded (limit : Nat) (received : Bytes) (chunks : List Bytes) : Prop where
  chunk : ∃ taken, chunks = taken ++ (readFrom limit received chunks).2 ∧
    ∀ before chunk after, taken = before ++ chunk :: after →
      (received ++ before.flatten).length ≤ limit + LENGTH_PREFIX_BYTES
  ends : (readFrom limit received chunks).1 = .incomplete →
    (received ++ chunks.flatten).length ≤ limit + LENGTH_PREFIX_BYTES

theorem readFrom_bounded (chunks : List Bytes)
    (hreceived : received.length ≤ limit + LENGTH_PREFIX_BYTES) :
    Bounded limit received chunks := by
  induction chunks generalizing received with
  | nil => exact ⟨⟨[], rfl, by simp⟩, fun _ => by simpa using hreceived⟩
  | cons chunk chunks ih =>
      cases htold : verdict limit (received ++ chunk) with
      | some outcome =>
          have hread : readFrom limit received (chunk :: chunks) = (outcome, chunks) := by
            rw [readFrom, htold]
          refine ⟨⟨[chunk], ?_, fun before c after htaken => ?_⟩, fun hends => ?_⟩
          · rw [hread, List.singleton_append]
          · cases before with
            | nil => simpa using hreceived
            | cons _ before => cases before <;> cases htaken
          · rw [hread] at hends
            cases hends
            exact (verdict_ne_incomplete htold).elim
      | none =>
          have hread : readFrom limit received (chunk :: chunks) =
              readFrom limit (received ++ chunk) chunks := by
            rw [readFrom, htold]
          have hrest := ih (length_of_verdict_none htold)
          obtain ⟨taken, hchunks, hall⟩ := hrest.chunk
          refine ⟨⟨chunk :: taken, ?_, fun before c after htaken => ?_⟩, fun hends => ?_⟩
          · rw [hread, List.cons_append, ← hchunks]
          · cases before with
            | nil => simpa using hreceived
            | cons first before =>
                obtain ⟨rfl, htail⟩ := List.cons.inj htaken
                simpa using hall before c after htail
          · rw [hread] at hends
            simpa using hrest.ends hends

end Reader

end Framing
