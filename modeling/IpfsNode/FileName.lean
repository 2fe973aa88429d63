import Mathlib.Algebra.GroupWithZero.Nat
import Mathlib.Data.List.DropRight
import Mathlib.Data.List.Chain

/-!
# File names

A name of an uploaded file goes through passes over its code units and is then
cut at a number of bytes. The passes leave surrogates alone, so they split no
code point, and the cut does not either. The cut comes after the ends were
trimmed: `safeName_iff` says when it does harm.
-/

namespace IpfsNode

/-! ## Strings of code units -/

abbrev CodeUnit := UInt16

/-- Any list of code units is a string, lone surrogates included. -/
abbrev JsString := List CodeUnit

def isHighSurrogate (u : CodeUnit) : Bool := 0xD800 ≤ u.toNat && u.toNat ≤ 0xDBFF

def isLowSurrogate (u : CodeUnit) : Bool := 0xDC00 ≤ u.toNat && u.toNat ≤ 0xDFFF

/-- What iterating over a string gives. -/
def codePoints : JsString → List JsString
  | [] => []
  | [u] => [[u]]
  | u :: v :: s =>
      if isHighSurrogate u && isLowSurrogate v then [u, v] :: codePoints s
      else [u] :: codePoints (v :: s)

/-- A lone surrogate is written as the replacement character. -/
def encodedLength : JsString → Nat
  | [u] => if u.toNat < 0x80 then 1 else if u.toNat < 0x800 then 2 else 3
  | _ => 4

def byteLength (s : JsString) : Nat := ((codePoints s).map encodedLength).sum

def ascii (text : String) : JsString := text.toList.map fun c => UInt16.ofNat c.toNat

/-! ## The code -/

abbrev DOT : CodeUnit := 0x2e
abbrev SPACE : CodeUnit := 0x20
abbrev SLASH : CodeUnit := 0x2f
abbrev BACKSLASH : CodeUnit := 0x5c
abbrev UNDERSCORE : CodeUnit := 0x5f
abbrev HYPHEN : CodeUnit := 0x2d

def isControl (u : CodeUnit) : Bool := u.toNat ≤ 0x1f || u.toNat = 0x7f

def isFormatting (u : CodeUnit) : Bool :=
  (0x200b ≤ u.toNat && u.toNat ≤ 0x200f) || (0x202a ≤ u.toNat && u.toNat ≤ 0x202e) ||
    u.toNat = 0x2060 || u.toNat = 0xfeff

def isSeparator (u : CodeUnit) : Bool := u = SLASH || u = BACKSLASH

def replaceSeparator (u : CodeUnit) : CodeUnit := if isSeparator u then UNDERSCORE else u

/-- Removes every run of two or more dots: a dot beside a dot is in such a run. -/
def removeDotRuns (afterDot : Bool) : JsString → JsString
  | [] => []
  | u :: s =>
      if u = DOT ∧ (afterDot ∨ s.head? = some DOT) then removeDotRuns true s
      else u :: removeDotRuns (u = DOT) s

def isDotOrSpace (u : CodeUnit) : Bool := u = DOT || u = SPACE

def isFiller (u : CodeUnit) : Bool := u = DOT || u = UNDERSCORE || u = SPACE || u = HYPHEN

/-- The passes before the cut. -/
def cleanName (name : JsString) : JsString :=
  let name := name.filter (!isControl ·)
  let name := name.filter (!isFormatting ·)
  let name := name.map replaceSeparator
  let name := removeDotRuns false name
  (name.dropWhile isDotOrSpace).rdropWhile isDotOrSpace

def takeCharacters (result : JsString) : List JsString → JsString
  | [] => result
  | character :: characters =>
      if 255 < byteLength (result ++ character) then result
      else takeCharacters (result ++ character) characters

def fallbackName : JsString := ascii "unnamed"

def sanitizeFilename (normalize : JsString → JsString) (raw : JsString) : JsString :=
  let name := cleanName (normalize raw)
  let result := takeCharacters [] (codePoints name)
  if result ≠ [] ∧ ¬ result.all isFiller then result else fallbackName

/-! ## Code points -/

variable {s t name result : JsString} {u v : CodeUnit} {a b characters : List JsString}

theorem codePoints_pair (h : (isHighSurrogate u && isLowSurrogate v) = true) :
    codePoints (u :: v :: s) = [u, v] :: codePoints s := by
  rw [codePoints, if_pos h]

theorem codePoints_single (h : ∀ v rest, s = v :: rest →
    ¬ (isHighSurrogate u && isLowSurrogate v) = true) :
    codePoints (u :: s) = [u] :: codePoints s := by
  cases s with
  | nil => rfl
  | cons v rest => rw [codePoints, if_neg (h v rest rfl)]

/-- A code point is taken off the front: a pair of surrogates or one unit. -/
theorem codePoints_cases (u : CodeUnit) (s : JsString) :
    (∃ v rest, s = v :: rest ∧ (isHighSurrogate u && isLowSurrogate v) = true ∧
        codePoints (u :: s) = [u, v] :: codePoints rest) ∨
      ((∀ v rest, s = v :: rest → ¬ (isHighSurrogate u && isLowSurrogate v) = true) ∧
        codePoints (u :: s) = [u] :: codePoints s) := by
  cases s with
  | nil => exact .inr ⟨nofun, rfl⟩
  | cons v rest =>
      by_cases hpair : (isHighSurrogate u && isLowSurrogate v) = true
      · exact .inl ⟨v, rest, rfl, hpair, codePoints_pair hpair⟩
      · refine .inr ⟨fun w rest' heq => ?_, by rw [codePoints, if_neg hpair]⟩
        cases heq
        exact hpair

theorem flatten_codePoints (s : JsString) : (codePoints s).flatten = s := by
  fun_induction codePoints s with
  | case1 => rfl
  | case2 u => rfl
  | case3 u v s hpair ih => simp [ih]
  | case4 u v s hpair ih => simp [ih]

/-- A code point of a string. -/
def IsCodePoint (c : JsString) : Prop :=
  (∃ u, c = [u]) ∨ ∃ u v, c = [u, v] ∧ (isHighSurrogate u && isLowSurrogate v) = true

theorem isCodePoint_of_mem {c : JsString} (h : c ∈ codePoints s) : IsCodePoint c := by
  fun_induction codePoints s with
  | case1 => cases h
  | case2 u => exact .inl ⟨u, List.mem_singleton.mp h⟩
  | case3 u v s hpair ih =>
      rcases List.mem_cons.mp h with rfl | h
      · exact .inr ⟨u, v, rfl, hpair⟩
      · exact ih h
  | case4 u v s hpair ih =>
      rcases List.mem_cons.mp h with rfl | h
      · exact .inl ⟨u, rfl⟩
      · exact ih h

/-- The first code points of a string are those of what they spell. -/
theorem codePoints_flatten_of_append (h : codePoints s = a ++ b) : codePoints a.flatten = a := by
  induction a generalizing s with
  | nil => rfl
  | cons c a ih =>
      cases s with
      | nil => cases h
      | cons u s =>
          rcases codePoints_cases u s with ⟨v, rest, rfl, hpair, heq⟩ | ⟨hsingle, heq⟩
          · rw [heq] at h
            obtain ⟨rfl, htail⟩ : [u, v] = c ∧ codePoints rest = a ++ b := by simpa using h
            simp only [List.flatten_cons, List.cons_append, List.nil_append]
            rw [codePoints_pair hpair, ih htail]
          · rw [heq] at h
            obtain ⟨rfl, htail⟩ : [u] = c ∧ codePoints s = a ++ b := by simpa using h
            simp only [List.flatten_cons, List.cons_append, List.nil_append]
            rw [codePoints_single, ih htail]
            intro v rest hflat
            -- The next unit is the one that follows in the string.
            have hs : s = v :: (rest ++ b.flatten) := by
              rw [← flatten_codePoints s, htail, List.flatten_append, hflat, List.cons_append]
            exact hsingle v _ hs

theorem byteLength_flatten (h : codePoints s = a ++ b) :
    byteLength a.flatten = (a.map encodedLength).sum := by
  rw [byteLength, codePoints_flatten_of_append h]

/-- More of a name takes more bytes. -/
theorem byteLength_le_of_prefix (hfront : a <+: b) (h : b <+: codePoints s) :
    byteLength a.flatten ≤ byteLength b.flatten := by
  obtain ⟨c, hc⟩ := h
  obtain ⟨d, rfl⟩ := hfront
  rw [byteLength_flatten hc.symm, byteLength_flatten (hc.symm.trans (List.append_assoc ..)),
    List.map_append, List.sum_append]
  omega

/-! ## The cut -/

/-- The cut takes the first characters: those that fit, and the next one does not. -/
theorem takeCharacters_cases (characters : List JsString) (hfits : byteLength result ≤ 255) :
    ∃ kept dropped, characters = kept ++ dropped ∧
      takeCharacters result characters = result ++ kept.flatten ∧
      byteLength (result ++ kept.flatten) ≤ 255 ∧
      ∀ next rest, dropped = next :: rest → 255 < byteLength (result ++ kept.flatten ++ next) := by
  induction characters generalizing result with
  | nil => exact ⟨[], [], rfl, by simp [takeCharacters], by simpa using hfits, nofun⟩
  | cons character characters ih =>
      by_cases hover : 255 < byteLength (result ++ character)
      · refine ⟨[], character :: characters, rfl, ?_, by simpa using hfits, ?_⟩
        · simp [takeCharacters, hover]
        · rintro next rest heq
          cases heq
          simpa using hover
      · obtain ⟨kept, dropped, rfl, htake, hkept, hnext⟩ := ih (Nat.le_of_not_lt hover)
        refine ⟨character :: kept, dropped, rfl, ?_, ?_, ?_⟩
        · rw [takeCharacters, if_neg hover, htake, List.flatten_cons, List.append_assoc]
        · simpa using hkept
        · simpa using hnext

/-- What the cut leaves, and what it takes off. -/
theorem cut_cases (name : JsString) :
    ∃ kept dropped, codePoints name = kept ++ dropped ∧
      takeCharacters [] (codePoints name) = kept.flatten ∧ byteLength kept.flatten ≤ 255 ∧
      ∀ next rest, dropped = next :: rest → 255 < byteLength (kept.flatten ++ next) :=
  takeCharacters_cases (codePoints name) (by decide : byteLength [] ≤ 255)

/-- The cut is where the limit falls. -/
theorem takeCharacters_eq {next : JsString} {rest : List JsString}
    (h : codePoints name = a ++ next :: rest) (hfits : byteLength a.flatten ≤ 255)
    (hover : 255 < byteLength (a.flatten ++ next)) :
    takeCharacters [] (codePoints name) = a.flatten := by
  obtain ⟨kept, dropped, heq, htake, hkept, hnext⟩ := cut_cases name
  rw [htake]
  have hnext' : a ++ [next] <+: codePoints name := ⟨rest, by simp [h]⟩
  have hkept' : kept <+: codePoints name := ⟨dropped, heq.symm⟩
  rcases Nat.lt_trichotomy kept.length a.length with hlt | hlen | hgt
  · -- The cut would have gone on.
    obtain ⟨c, dropped, rfl⟩ : ∃ c rest', dropped = c :: rest' := by
      cases dropped with
      | nil =>
          have := congrArg List.length (h.symm.trans heq)
          simp at this
          omega
      | cons c rest' => exact ⟨c, rest', rfl⟩
    have hle : kept ++ [c] <+: a := by
      have hlonger : kept ++ [c] <+: codePoints name := ⟨dropped, by simp [heq]⟩
      refine List.prefix_of_prefix_length_le hlonger ⟨next :: rest, h.symm⟩ ?_
      simp
      omega
    have hbytes := byteLength_le_of_prefix hle ⟨next :: rest, h.symm⟩
    have := hnext c dropped rfl
    simp at hbytes
    omega
  · have hsame : kept = a := by
      have := List.append_inj (heq.symm.trans h) hlen
      exact this.1
    rw [hsame]
  · have hle : a ++ [next] <+: kept := by
      refine List.prefix_of_prefix_length_le hnext' hkept' ?_
      simp
      omega
    have hbytes := byteLength_le_of_prefix hle hkept'
    simp at hbytes
    omega

/-! ## The passes split no code point -/

def isSurrogate (u : CodeUnit) : Bool := isHighSurrogate u || isLowSurrogate u

/-- The second string is the first one without some units that are not surrogates. -/
inductive Thinned : JsString → JsString → Prop
  | nil : Thinned [] []
  | keep (u : CodeUnit) {s t : JsString} (h : Thinned s t) : Thinned (u :: s) (u :: t)
  | drop (u : CodeUnit) {s t : JsString} (hplain : isSurrogate u = false) (h : Thinned s t) :
      Thinned (u :: s) t

theorem Thinned.refl (s : JsString) : Thinned s s := by
  induction s with
  | nil => exact .nil
  | cons u s ih => exact .keep u ih

theorem Thinned.trans {r : JsString} (h : Thinned s t) (h' : Thinned t r) : Thinned s r := by
  induction h generalizing r with
  | nil => exact h'
  | keep u h ih =>
      cases h' with
      | keep _ h' => exact .keep u (ih h')
      | drop _ hplain h' => exact .drop u hplain (ih h')
  | drop u hplain h ih => exact .drop u hplain (ih h')

theorem Thinned.sublist (h : Thinned s t) : t.Sublist s := by
  induction h with
  | nil => exact .slnil
  | keep u h ih => exact ih.cons_cons u
  | drop u hplain h ih => exact ih.cons u

theorem thinned_filter {p : CodeUnit → Bool} (h : ∀ u, p u = false → isSurrogate u = false)
    (s : JsString) : Thinned s (s.filter p) := by
  induction s with
  | nil => exact .nil
  | cons u s ih =>
      cases hu : p u with
      | true => simpa [hu] using ih.keep u
      | false => simpa [hu] using ih.drop u (h u hu)

theorem thinned_dropWhile {p : CodeUnit → Bool} (h : ∀ u, p u = true → isSurrogate u = false)
    (s : JsString) : Thinned s (s.dropWhile p) := by
  induction s with
  | nil => exact .nil
  | cons u s ih =>
      cases hu : p u with
      | true => simpa [hu] using ih.drop u (h u hu)
      | false => simpa [hu] using Thinned.refl (u :: s)

theorem thinned_rdropWhile {p : CodeUnit → Bool} (h : ∀ u, p u = true → isSurrogate u = false)
    (s : JsString) : Thinned s (s.rdropWhile p) := by
  induction s using List.reverseRecOn with
  | nil => exact .nil
  | append_singleton s u ih =>
      cases hu : p u with
      | true =>
          rw [List.rdropWhile_concat_pos _ _ _ hu]
          refine Thinned.trans ?_ ih
          clear ih
          induction s with
          | nil => exact .drop u (h u hu) .nil
          | cons v s ih => exact .keep v ih
      | false =>
          rw [List.rdropWhile_concat_neg _ _ _ (by simp [hu])]
          exact .refl _

theorem thinned_removeDotRuns (afterDot : Bool) (s : JsString) :
    Thinned s (removeDotRuns afterDot s) := by
  induction s generalizing afterDot with
  | nil => exact .nil
  | cons u s ih =>
      rw [removeDotRuns]
      split
      · rename_i hdot
        exact (ih true).drop u (by rw [hdot.1]; decide)
      · exact (ih _).keep u

/-- What is thinned consists of whole code points. -/
theorem Thinned.kept (h : Thinned s t) :
    ∃ kept : List JsString, kept.Sublist (codePoints s) ∧ t = kept.flatten := by
  fun_induction codePoints s generalizing t with
  | case1 =>
      cases h
      exact ⟨[], List.Sublist.refl _, rfl⟩
  | case2 u =>
      cases h with
      | keep _ h =>
          cases h
          exact ⟨[[u]], List.Sublist.refl _, rfl⟩
      | drop _ hplain h =>
          cases h
          exact ⟨[], List.nil_sublist _, rfl⟩
  | case3 u v s hpair ih =>
      rw [Bool.and_eq_true] at hpair
      cases h with
      | keep _ h =>
          cases h with
          | keep _ h =>
              obtain ⟨kept, hkept, rfl⟩ := ih h
              exact ⟨[u, v] :: kept, hkept.cons_cons _, rfl⟩
          | drop _ hplain h => simp [isSurrogate, hpair.2] at hplain
      | drop _ hplain h => simp [isSurrogate, hpair.1] at hplain
  | case4 u v s hpair ih =>
      cases h with
      | keep _ h =>
          obtain ⟨kept, hkept, rfl⟩ := ih h
          exact ⟨[u] :: kept, hkept.cons_cons _, rfl⟩
      | drop _ hplain h =>
          obtain ⟨kept, hkept, rfl⟩ := ih h
          exact ⟨kept, hkept.cons _, rfl⟩

theorem not_low_of_high (h : isHighSurrogate u = true) : isLowSurrogate u = false := by
  simp only [isHighSurrogate, isLowSurrogate, Bool.and_eq_true, decide_eq_true_eq,
    Bool.and_eq_false_iff, decide_eq_false_iff_not] at *
  omega

/-- A low surrogate at the front is a code point of its own. -/
theorem head_of_low {rest : JsString} (hpoints : ∀ c ∈ characters, IsCodePoint c)
    (hlow : isLowSurrogate v = true) (h : characters.flatten = v :: rest) :
    ∃ more, characters = [v] :: more ∧ more.flatten = rest := by
  cases characters with
  | nil => cases h
  | cons d more =>
      rcases hpoints d List.mem_cons_self with ⟨w, rfl⟩ | ⟨w, x, rfl, hpair⟩
      · obtain ⟨rfl, hrest⟩ : w = v ∧ more.flatten = rest := by simpa using h
        exact ⟨more, rfl, hrest⟩
      · obtain ⟨rfl, -⟩ : w = v ∧ x :: more.flatten = rest := by simpa using h
        rw [Bool.and_eq_true] at hpair
        simp [not_low_of_high hpair.1] at hlow

/-- Code points of what code points spell end where one of those ends. -/
theorem exists_take_of_codePoints (hpoints : ∀ c ∈ characters, IsCodePoint c)
    (h : codePoints characters.flatten = a ++ b) :
    ∃ k, a.flatten = (characters.take k).flatten := by
  induction hlen : characters.length using Nat.strongRecOn generalizing characters a with
  | ind n ih =>
      cases a with
      | nil => exact ⟨0, by simp⟩
      | cons p a =>
          cases characters with
          | nil => cases h
          | cons c characters =>
              have htail (d : JsString) (hd : d ∈ characters) : IsCodePoint d :=
                hpoints d (List.mem_cons_of_mem _ hd)
              have hshorter : characters.length < n := by simp at hlen; omega
              -- The rest of the characters, after the code point that the first one begins.
              have hnext (h : codePoints characters.flatten = a ++ b) :
                  ∃ k, c ++ a.flatten = ((c :: characters).take k).flatten := by
                obtain ⟨k, hk⟩ := ih characters.length hshorter htail h rfl
                exact ⟨k + 1, by simp [hk]⟩
              rcases hpoints c List.mem_cons_self with ⟨u, rfl⟩ | ⟨u, v, rfl, hpair⟩
              · rw [List.flatten_cons, List.singleton_append] at h
                rcases codePoints_cases u characters.flatten with
                  ⟨v, rest, hrest, hpair, heq⟩ | ⟨-, heq⟩
                · -- Two characters came together to one code point.
                  rw [heq] at h
                  obtain ⟨rfl, hafter⟩ : [u, v] = p ∧ codePoints rest = a ++ b := by simpa using h
                  rw [Bool.and_eq_true] at hpair
                  obtain ⟨more, rfl, rfl⟩ := head_of_low htail hpair.2 hrest
                  obtain ⟨k, hk⟩ := ih more.length (by simp at hshorter; omega)
                    (fun d hd => htail d (List.mem_cons_of_mem _ hd)) hafter rfl
                  exact ⟨k + 2, by simp [hk]⟩
                · rw [heq] at h
                  obtain ⟨rfl, hafter⟩ : [u] = p ∧ codePoints characters.flatten = a ++ b := by
                    simpa using h
                  exact hnext hafter
              · have hflat : ([u, v] :: characters).flatten = u :: v :: characters.flatten := rfl
                rw [hflat, codePoints_pair hpair] at h
                obtain ⟨rfl, hafter⟩ : [u, v] = p ∧ codePoints characters.flatten = a ++ b := by
                  simpa using h
                exact hnext hafter

/-! ## What the passes leave -/

/-- No path separator, control character or formatting character. -/
def IsPlain (u : CodeUnit) : Prop :=
  u ≠ SLASH ∧ u ≠ BACKSLASH ∧ isControl u = false ∧ isFormatting u = false

instance (u : CodeUnit) : Decidable (IsPlain u) := inferInstanceAs (Decidable (_ ∧ _))

/-- The name before its runs of dots and its ends are taken off. -/
def replacedName (name : JsString) : JsString :=
  ((name.filter (!isControl ·)).filter (!isFormatting ·)).map replaceSeparator

theorem cleanName_eq (name : JsString) : cleanName name =
    ((removeDotRuns false (replacedName name)).dropWhile isDotOrSpace).rdropWhile isDotOrSpace :=
  rfl

theorem isDotOrSpace_iff : isDotOrSpace u = true ↔ u = DOT ∨ u = SPACE := by
  simp [isDotOrSpace]

theorem not_surrogate_of_dotOrSpace (h : isDotOrSpace u = true) : isSurrogate u = false := by
  rcases isDotOrSpace_iff.mp h with rfl | rfl <;> decide

theorem not_surrogate_of_control (h : (!isControl u) = false) : isSurrogate u = false := by
  simp only [isControl, isSurrogate, isHighSurrogate, isLowSurrogate, Bool.not_eq_false',
    Bool.or_eq_true, decide_eq_true_eq, Bool.or_eq_false_iff, Bool.and_eq_false_iff,
    decide_eq_false_iff_not] at *
  omega

theorem not_surrogate_of_formatting (h : (!isFormatting u) = false) : isSurrogate u = false := by
  simp only [isFormatting, isSurrogate, isHighSurrogate, isLowSurrogate, Bool.not_eq_false',
    Bool.or_eq_true, Bool.and_eq_true, decide_eq_true_eq, Bool.or_eq_false_iff,
    Bool.and_eq_false_iff, decide_eq_false_iff_not] at *
  omega

theorem isPlain_of_mem_replacedName (h : u ∈ replacedName name) : IsPlain u := by
  obtain ⟨v, hv, rfl⟩ := List.mem_map.mp h
  obtain ⟨hv, hformatting⟩ := List.mem_filter.mp hv
  obtain ⟨-, hcontrol⟩ := List.mem_filter.mp hv
  unfold replaceSeparator
  split
  · exact ⟨by decide, by decide, by decide, by decide⟩
  · rename_i hseparator
    simp only [isSeparator, Bool.or_eq_true, decide_eq_true_eq, not_or] at hseparator
    exact ⟨hseparator.1, hseparator.2, by simpa using hcontrol, by simpa using hformatting⟩

theorem thinned_trim (s : JsString) :
    Thinned s ((s.dropWhile isDotOrSpace).rdropWhile isDotOrSpace) :=
  (thinned_dropWhile (fun _ => not_surrogate_of_dotOrSpace) s).trans
    (thinned_rdropWhile (fun _ => not_surrogate_of_dotOrSpace) _)

theorem thinned_cleanName (name : JsString) : Thinned (replacedName name) (cleanName name) :=
  (thinned_removeDotRuns false _).trans (thinned_trim _)

theorem isPlain_of_mem_cleanName (h : u ∈ cleanName name) : IsPlain u :=
  isPlain_of_mem_replacedName ((thinned_cleanName name).sublist.subset h)

/-- Replacing a separator keeps what kind of unit it is. -/
theorem surrogates_replaceSeparator (u : CodeUnit) :
    isHighSurrogate (replaceSeparator u) = isHighSurrogate u ∧
      isLowSurrogate (replaceSeparator u) = isLowSurrogate u := by
  unfold replaceSeparator
  split
  · rename_i hseparator
    simp only [isSeparator, Bool.or_eq_true, decide_eq_true_eq] at hseparator
    rcases hseparator with rfl | rfl <;> decide
  · exact ⟨rfl, rfl⟩

theorem codePoints_map_replaceSeparator (s : JsString) :
    codePoints (s.map replaceSeparator) = (codePoints s).map (·.map replaceSeparator) := by
  have hpair (u v : CodeUnit) : (isHighSurrogate (replaceSeparator u) &&
      isLowSurrogate (replaceSeparator v)) = (isHighSurrogate u && isLowSurrogate v) := by
    rw [(surrogates_replaceSeparator u).1, (surrogates_replaceSeparator v).2]
  fun_induction codePoints s with
  | case1 => rfl
  | case2 u => rfl
  | case3 u v s h ih =>
      rw [List.map_cons, List.map_cons, codePoints_pair ((hpair u v).trans h), ih]
      rfl
  | case4 u v s h ih =>
      rw [List.map_cons, List.map_cons, codePoints, if_neg (by rw [hpair]; exact h),
        ← List.map_cons, ih]
      rfl

theorem Thinned.replace (h : Thinned s t) :
    Thinned (s.map replaceSeparator) (t.map replaceSeparator) := by
  induction h with
  | nil => exact .nil
  | keep u h ih => exact ih.keep _
  | drop u hplain h ih =>
      have hsame := surrogates_replaceSeparator u
      exact ih.drop _ (by rw [isSurrogate, hsame.1, hsame.2]; exact hplain)

/-- The name consists of whole code points of what it was made from. -/
theorem characters_cleanName (name : JsString) : ∃ characters : List JsString,
    characters.Sublist ((codePoints name).map (·.map replaceSeparator)) ∧
      (∀ c ∈ characters, IsCodePoint c) ∧ cleanName name = characters.flatten := by
  have hreplaced : Thinned (name.map replaceSeparator) (replacedName name) :=
    ((thinned_filter (fun _ => not_surrogate_of_control) name).trans
      (thinned_filter (fun _ => not_surrogate_of_formatting) _)).replace
  obtain ⟨kept, hkept, heq⟩ := (hreplaced.trans (thinned_cleanName name)).kept
  exact ⟨kept, codePoints_map_replaceSeparator name ▸ hkept,
    fun c hc => isCodePoint_of_mem (hkept.subset hc), heq⟩

theorem head?_removeDotRuns (s : JsString) : (removeDotRuns true s).head? ≠ some DOT := by
  induction s with
  | nil => nofun
  | cons u s ih =>
      rw [removeDotRuns]
      split
      · exact ih
      · rename_i hkept
        intro hhead
        have hdot : u = DOT := by simpa using hhead
        exact hkept ⟨hdot, .inl rfl⟩

theorem noDots_removeDotRuns (afterDot : Bool) (s : JsString) :
    ¬ [DOT, DOT] <:+: removeDotRuns afterDot s := by
  induction s generalizing afterDot with
  | nil => simp [removeDotRuns]
  | cons u s ih =>
      rw [removeDotRuns]
      split
      · exact ih true
      · rw [List.infix_cons_iff]
        rintro (hfront | hlater)
        · obtain ⟨hdot, rest, hrest⟩ := List.cons_prefix_cons.mp hfront
          have hhead := head?_removeDotRuns s
          rw [← hdot, decide_eq_true rfl] at hrest
          exact hhead (by rw [← hrest]; rfl)
        · exact ih _ hlater

theorem cleanName_within (name : JsString) :
    cleanName name <:+: removeDotRuns false (replacedName name) :=
  (List.rdropWhile_prefix _ _).isInfix.trans (List.dropWhile_suffix _).isInfix

theorem head_cleanName (h : (cleanName name).head? = some u) : isDotOrSpace u = false := by
  obtain ⟨rest, hrest⟩ := List.rdropWhile_prefix isDotOrSpace
    ((removeDotRuns false (replacedName name)).dropWhile isDotOrSpace)
  have hhead := List.head?_dropWhile_not isDotOrSpace (removeDotRuns false (replacedName name))
  rw [cleanName_eq] at h
  rw [← hrest, List.head?_append, h] at hhead
  simpa using hhead

theorem getLast_cleanName (h : (cleanName name).getLast? = some u) : isDotOrSpace u = false := by
  have hne : cleanName name ≠ [] := by
    intro hnil
    simp [hnil] at h
  have hlast := List.rdropWhile_last_not isDotOrSpace
    ((removeDotRuns false (replacedName name)).dropWhile isDotOrSpace) hne
  have heq : (cleanName name).getLast hne = u := by
    rw [List.getLast?_eq_some_getLast hne] at h
    exact Option.some.inj h
  rw [← heq]
  exact Bool.eq_false_iff.mpr hlast

/-! ## When the result is safe -/

/-- What the passes and the cut give for every name. -/
structure Sanitized (name result : JsString) : Prop where
  nonempty : result ≠ []
  short : byteLength result ≤ 255
  plain : ∀ u ∈ result, IsPlain u
  noDots : ¬ [DOT, DOT] <:+: result
  first : ∀ u, result.head? = some u → isDotOrSpace u = false
  whole : ∃ (characters : List JsString) (k : Nat),
    characters.Sublist ((codePoints name).map (·.map replaceSeparator)) ∧
      cleanName name = characters.flatten ∧
      (result = fallbackName ∨ result = (characters.take k).flatten)

/-- What a file name from the outside has to become. -/
structure SafeName (name result : JsString) : Prop extends Sanitized name result where
  last : ∀ u, result.getLast? = some u → isDotOrSpace u = false

/-- The limit falls right behind a dot or a space, and what is before it is a name. -/
def CutsAtBlank (name : JsString) : Prop :=
  ∃ (front : List JsString) (blank : CodeUnit) (next : JsString) (rest : List JsString),
    codePoints name = front ++ [blank] :: next :: rest ∧ isDotOrSpace blank = true ∧
      byteLength (front.flatten ++ [blank]) ≤ 255 ∧
      255 < byteLength (front.flatten ++ [blank] ++ next) ∧ front.flatten.all isFiller = false

theorem isFiller_of_dotOrSpace (h : isDotOrSpace u = true) : isFiller u = true := by
  rcases isDotOrSpace_iff.mp h with rfl | rfl <;> decide

/-- The result is the fallback, or what the cut leaves of the name. -/
theorem sanitizeFilename_cases (normalize : JsString → JsString) (raw : JsString) :
    sanitizeFilename normalize raw = fallbackName ∨
      (sanitizeFilename normalize raw =
          takeCharacters [] (codePoints (cleanName (normalize raw))) ∧
        sanitizeFilename normalize raw ≠ [] ∧
        (sanitizeFilename normalize raw).all isFiller = false) := by
  unfold sanitizeFilename
  dsimp only
  split
  · rename_i hkept
    exact .inr ⟨rfl, hkept.1, by simpa using hkept.2⟩
  · exact .inl rfl

/-- The code points of a name are whole ones of what it was made from, wherever it
is cut. -/
theorem whole_of_append (h : codePoints (cleanName name) = a ++ b) :
    ∃ (characters : List JsString) (k : Nat),
      characters.Sublist ((codePoints name).map (·.map replaceSeparator)) ∧
        cleanName name = characters.flatten ∧ a.flatten = (characters.take k).flatten := by
  obtain ⟨characters, hsub, hpoints, heq⟩ := characters_cleanName name
  rw [heq] at h
  obtain ⟨k, hk⟩ := exists_take_of_codePoints hpoints h
  exact ⟨characters, k, hsub, heq, hk⟩

theorem fallbackName_plain (h : u ∈ fallbackName) : IsPlain u := by
  have hall : fallbackName.all (fun u => decide (IsPlain u)) = true := by decide
  exact of_decide_eq_true (List.all_eq_true.mp hall u h)

theorem noDots_fallbackName : ¬ [DOT, DOT] <:+: fallbackName := by
  intro h
  have hnone : DOT ∉ fallbackName := by decide
  exact hnone (h.subset List.mem_cons_self)

theorem head_fallbackName (h : fallbackName.head? = some u) : isDotOrSpace u = false := by
  have hhead : fallbackName.head? = some 0x75 := by decide
  rw [hhead] at h
  cases h
  decide

theorem getLast_fallbackName (h : fallbackName.getLast? = some u) : isDotOrSpace u = false := by
  have hlast : fallbackName.getLast? = some 0x64 := by decide
  rw [hlast] at h
  cases h
  decide

theorem sanitizeFilename_sanitized (normalize : JsString → JsString) (raw : JsString) :
    Sanitized (normalize raw) (sanitizeFilename normalize raw) := by
  obtain ⟨kept, dropped, heq, htake, hfits, -⟩ := cut_cases (cleanName (normalize raw))
  obtain ⟨characters, k, hsub, hclean, hk⟩ := whole_of_append heq
  rcases sanitizeFilename_cases normalize raw with hresult | ⟨hresult, hne, -⟩
  · rw [hresult]
    exact ⟨by decide, by decide, fun u => fallbackName_plain, noDots_fallbackName,
      fun u => head_fallbackName, ⟨characters, k, hsub, hclean, .inl rfl⟩⟩
  · rw [htake] at hresult
    have hfront : kept.flatten <+: cleanName (normalize raw) :=
      ⟨dropped.flatten, by rw [← List.flatten_append, ← heq, flatten_codePoints]⟩
    rw [hresult] at hne ⊢
    refine ⟨hne, hfits, fun u hu => isPlain_of_mem_cleanName (hfront.subset hu), fun hdots => ?_,
      fun u hu => ?_, ⟨characters, k, hsub, hclean, .inr hk⟩⟩
    · exact noDots_removeDotRuns false _
        ((hdots.trans hfront.isInfix).trans (cleanName_within (normalize raw)))
    · obtain ⟨rest, hrest⟩ := hfront
      have hhead : (cleanName (normalize raw)).head? = some u := by
        rw [← hrest, List.head?_append, hu]
        rfl
      exact head_cleanName hhead

/-- The result ends with a dot or a space only where the limit falls behind one. -/
theorem last_iff (normalize : JsString → JsString) (raw : JsString) :
    (∀ u, (sanitizeFilename normalize raw).getLast? = some u → isDotOrSpace u = false) ↔
      ¬ CutsAtBlank (cleanName (normalize raw)) := by
  obtain ⟨kept, dropped, heq, htake, hfits, hnext⟩ := cut_cases (cleanName (normalize raw))
  constructor
  · rintro hlast ⟨front, blank, next, rest, hpoints, hblank, hbytes, hover, hname⟩
    have hflat : (front ++ [[blank]]).flatten = front.flatten ++ [blank] := by simp
    have hcut : takeCharacters [] (codePoints (cleanName (normalize raw))) =
        front.flatten ++ [blank] := by
      rw [← hflat]
      have hlimit : codePoints (cleanName (normalize raw)) =
          (front ++ [[blank]]) ++ next :: rest := by
        simp [hpoints]
      exact takeCharacters_eq hlimit (hflat ▸ hbytes) (hflat ▸ hover)
    have hresult : sanitizeFilename normalize raw = front.flatten ++ [blank] := by
      unfold sanitizeFilename
      dsimp only
      rw [hcut, if_pos]
      exact ⟨by simp, by simp [hname]⟩
    have := hlast blank (by simp [hresult])
    rw [hblank] at this
    cases this
  · intro hcuts u hu
    rcases sanitizeFilename_cases normalize raw with hresult | ⟨hresult, hne, hname⟩
    · rw [hresult] at hu
      exact getLast_fallbackName hu
    · by_contra hblank
      rw [Bool.not_eq_false] at hblank
      rw [htake] at hresult
      rw [hresult] at hu hname
      obtain ⟨front, last, rfl⟩ : ∃ front last, kept = front ++ [last] := by
        cases kept using List.reverseRecOn with
        | nil => simp at hu
        | append_singleton front last _ => exact ⟨front, last, rfl⟩
      have hpoint : IsCodePoint last := isCodePoint_of_mem (s := cleanName (normalize raw))
        (by simp [heq])
      rcases hpoint with ⟨v, rfl⟩ | ⟨v, w, rfl, hpair⟩
      · obtain rfl : v = u := by simpa using hu
        have hflat : (front ++ [[v]]).flatten = front.flatten ++ [v] := by simp
        rw [hflat] at hfits hname
        cases dropped with
        | nil =>
            -- Nothing was cut off, and the passes trimmed the end.
            have hend : (cleanName (normalize raw)).getLast? = some v := by
              rw [← flatten_codePoints (cleanName (normalize raw)), heq]
              simp
            simp [getLast_cleanName hend] at hblank
        | cons next rest =>
            refine hcuts ⟨front, v, next, rest, by simp [heq], hblank, hfits, ?_, ?_⟩
            · rw [← hflat]
              exact hnext next rest rfl
            · simpa [isFiller_of_dotOrSpace hblank] using hname
      · obtain rfl : w = u := by simpa using hu
        have hplain := not_surrogate_of_dotOrSpace hblank
        rw [Bool.and_eq_true] at hpair
        simp [isSurrogate, hpair.2] at hplain

theorem safeName_iff (normalize : JsString → JsString) (raw : JsString) :
    Sanitized (normalize raw) (sanitizeFilename normalize raw) ∧
      (SafeName (normalize raw) (sanitizeFilename normalize raw) ↔
        ¬ CutsAtBlank (cleanName (normalize raw))) := by
  have hsanitized := sanitizeFilename_sanitized normalize raw
  refine ⟨hsanitized, fun h => (last_iff normalize raw).mp h.last, fun h => ?_⟩
  exact ⟨hsanitized, (last_iff normalize raw).mpr h⟩

/-- A name of 256 bytes whose last byte but one is a space. -/
theorem not_safe_of_space_at_limit : ¬ ∀ (normalize : JsString → JsString) (raw : JsString),
    SafeName (normalize raw) (sanitizeFilename normalize raw) := by
  intro h
  have hlast := (h id (List.replicate 254 0x61 ++ ascii " b")).last SPACE (by decide +kernel)
  exact absurd hlast (by decide)

end IpfsNode
