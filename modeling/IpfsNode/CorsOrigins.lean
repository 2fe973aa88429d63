import IpfsNode.Cors

/-!
# The origins that a list admits

What a list of origins asks for, told without the rules: the origin is listed,
or a wildcard of its scheme and port covers its host. `matchesOrigin_iff` says
what the compiled list accepts, which is less: a wildcard has to write its port
as a browser does. `cors_iff` is where the two agree.
-/

namespace IpfsNode

/-! ## Origins as a browser serializes them -/

inductive WebScheme where
  | http
  | https
deriving DecidableEq, Repr

def WebScheme.text : WebScheme → Text
  | .http => "http".toList
  | .https => "https".toList

def WebScheme.defaultPort : WebScheme → Nat
  | .http => 80
  | .https => 443

inductive BrowserOrigin where
  | null
  | app (host : Text)
  | web (scheme : WebScheme) (host : Text) (port : Nat)
  | other (scheme host : Text) (port : Option Nat)
deriving DecidableEq, Repr

/-- The port as it is written: not at all when it is the default. -/
def canonicalPort (scheme : WebScheme) (port : Nat) : Text :=
  if port = scheme.defaultPort then [] else Nat.toDigits 10 port

def portPart (port : Text) : Text := if port = [] then [] else ':' :: port

namespace BrowserOrigin

def text : BrowserOrigin → Text
  | .null => nullText
  | .app host => appStart ++ host
  | .web scheme host port =>
      scheme.text ++ [':'] ++ "//".toList ++ host ++ portPart (canonicalPort scheme port)
  | .other scheme host port =>
      scheme ++ [':'] ++ "//".toList ++ host ++ portPart ((port.map (Nat.toDigits 10)).getD [])

/-- What parsing the text of an origin gives back. -/
def Parses (newUrl : Text → Option Url) : BrowserOrigin → Prop
  | .null => True
  | .app host => newUrl (app host).text = some
      { href := (app host).text, origin := nullText, protocol := appProtocol, username := []
        password := [], hostname := host, port := [], pathname := [], search := [], hash := [] }
  | .web scheme host port => host.map Char.toLower = host ∧
      newUrl (web scheme host port).text = some
        { href := (web scheme host port).text ++ ['/'], origin := (web scheme host port).text
          protocol := scheme.text ++ [':'], username := [], password := [], hostname := host
          port := canonicalPort scheme port, pathname := ['/'], search := [], hash := [] }
  | .other scheme host port => ':' ∉ scheme ∧ scheme ≠ "http".toList ∧ scheme ≠ "https".toList ∧
      scheme ≠ "app".toList ∧ host ≠ [] ∧
      ∀ parsed, newUrl (other scheme host port).text = some parsed →
        parsed.protocol = scheme ++ [':'] ∧ parsed.hostname = host

end BrowserOrigin

/-! ## What a list asks for -/

/-- The origin is an entry of the list, and not as a wildcard. -/
def Exactly (items : List ConfigValue) (origin : BrowserOrigin) : Prop :=
  ∃ value : String, .string value ∈ items ∧ value.toList = origin.text ∧
    wildcardMatch value.toList = none

/-- Labels, a key of a v3 service, and `onion`. -/
def IsOnionV3Host (host : Text) : Prop :=
  ∃ (labels : List Text) (key : Text), (∀ label ∈ labels, isLabel label = true) ∧
    key.length = 56 ∧ (∀ c ∈ key, isBase32 c = true) ∧
    host = ['.'].intercalate (labels ++ [key, "onion".toList])

def effectivePort (scheme : WebScheme) (port : Text) : Nat :=
  if port = [] then scheme.defaultPort else decimal port

/-- The wildcard covers an origin of http or https. -/
structure Covers (found : WildcardMatch) (scheme : WebScheme) (host : Text) (port : Nat) :
    Prop where
  protocol : found.protocol.map Char.toLower = scheme.text
  port : effectivePort scheme found.port = port
  suffix : ∃ labels, host = labels ++ '.' :: found.hostname.map Char.toLower
  onion : found.hostname.map Char.toLower = "onion".toList → IsOnionV3Host host

/-- A wildcard entry of the list covers the origin, and is of this kind. -/
def Covered (items : List ConfigValue) (kind : WebScheme → WildcardMatch → Prop) :
    BrowserOrigin → Prop
  | .web scheme host port => ∃ value : String, .string value ∈ items ∧
      ∃ found, wildcardMatch value.toList = some found ∧ Covers found scheme host port ∧
        kind scheme found
  | _ => False

/-- The list contains the origin, or a wildcard that covers it. -/
def AllowsOrigin (items : List ConfigValue) (origin : BrowserOrigin) : Prop :=
  Exactly items origin ∨ Covered items (fun _ _ => True) origin

/-- The wildcard writes its port as a browser does. -/
def WritesPort (scheme : WebScheme) (found : WildcardMatch) : Prop :=
  found.port = canonicalPort scheme (effectivePort scheme found.port)

/-! ## Hosts -/

theorem not_dot_of_isBase32 {key : Text} (h : ∀ c ∈ key, isBase32 c = true) : '.' ∉ key :=
  fun hmem => absurd (h '.' hmem) (by decide)

theorem not_dot_of_isLabel {label : Text} (h : isLabel label = true) : '.' ∉ label := by
  intro hmem
  simp only [isLabel, Bool.and_eq_true, List.all_eq_true] at h
  exact absurd (h.1.1.2 '.' hmem) (by decide)

theorem isOnionV3Host_iff (host : Text) : isOnionV3Host host = true ↔ IsOnionV3Host host := by
  constructor
  · intro h
    unfold isOnionV3Host at h
    split at h
    · rename_i onion key labels hlabels
      simp only [Bool.and_eq_true, decide_eq_true_eq, List.all_eq_true] at h
      obtain ⟨⟨⟨rfl, hlength⟩, hkey⟩, hrest⟩ := h
      refine ⟨labels.reverse, key, fun label hmem => hrest label (List.mem_reverse.mp hmem),
        hlength, hkey, ?_⟩
      have hsplit := congrArg List.reverse hlabels
      rw [List.reverse_reverse, List.reverse_cons, List.reverse_cons] at hsplit
      rw [List.append_assoc] at hsplit
      exact (List.intercalate_splitOn '.').symm.trans (congrArg _ hsplit)
    · cases h
  · rintro ⟨labels, key, hlabels, hlength, hkey, rfl⟩
    have hdots : ∀ l ∈ labels ++ [key, "onion".toList], '.' ∉ l := by
      intro l hmem
      simp only [List.mem_append, List.mem_cons, List.not_mem_nil, or_false] at hmem
      rcases hmem with hmem | rfl | rfl
      · exact not_dot_of_isLabel (hlabels l hmem)
      · exact not_dot_of_isBase32 hkey
      · decide
    unfold isOnionV3Host
    rw [List.splitOn_intercalate '.' hdots (by simp), List.reverse_append]
    simp only [List.reverse_cons, List.reverse_nil, List.nil_append, List.cons_append,
      hlength, Bool.and_eq_true, decide_eq_true_eq, List.all_eq_true, List.mem_reverse]
    exact ⟨⟨⟨trivial, trivial⟩, hkey⟩, hlabels⟩

theorem intercalate_concat {labels : List Text} (h : labels ≠ []) (last : Text) :
    ['.'].intercalate (labels ++ [last]) = ['.'].intercalate labels ++ '.' :: last := by
  induction labels with
  | nil => exact absurd rfl h
  | cons label labels ih =>
    cases labels with
    | nil => simp [List.intercalate]
    | cons next labels =>
      rw [List.cons_append, List.cons_append, List.intercalate_cons_cons,
        List.intercalate_cons_cons, ← List.cons_append, ih (by simp)]
      simp

/-- A v3 host has labels before `onion`. -/
theorem suffix_of_isOnionV3Host {host : Text} (h : IsOnionV3Host host) :
    ∃ labels, host = labels ++ '.' :: "onion".toList := by
  obtain ⟨labels, key, -, -, -, rfl⟩ := h
  refine ⟨['.'].intercalate (labels ++ [key]), ?_⟩
  rw [← intercalate_concat (by simp), List.append_assoc]
  rfl

/-! ## Ports -/

/-- A text is the port of an origin if it stands for it and is written so. -/
theorem canonicalPort_eq_iff {scheme : WebScheme} {port : Nat} {text : Text} :
    canonicalPort scheme port = text ↔
      effectivePort scheme text = port ∧
        text = canonicalPort scheme (effectivePort scheme text) := by
  constructor
  · rintro rfl
    have hport : effectivePort scheme (canonicalPort scheme port) = port := by
      unfold canonicalPort effectivePort
      by_cases hdefault : port = scheme.defaultPort
      · rw [if_pos hdefault, if_pos rfl, hdefault]
      · rw [if_neg hdefault, if_neg Nat.toDigits_ne_nil]
        exact Nat.ofDigitChars_ten_toDigits
    exact ⟨hport, by rw [hport]⟩
  · rintro ⟨rfl, htext⟩
    exact htext.symm

/-! ## Rules against origins -/

section Rules

variable {newUrl : Text → Option Url} {items : List ConfigValue} {rules : List OriginRule}
  {scheme : WebScheme} {host : Text} {port : Nat} {found : WildcardMatch}

/-- The wildcard rule of an entry takes the origins that the entry covers. -/
theorem matchesRule_wildcard {parsed : Url} (hprotocol : parsed.protocol = scheme.text ++ [':'])
    (hhostname : parsed.hostname = host) (hport : parsed.port = canonicalPort scheme port)
    (hlower : host.map Char.toLower = host) :
    matchesRule parsed
        { protocol := found.protocol.map Char.toLower ++ [':']
          hostname := found.hostname.map Char.toLower, port := found.port, wildcard := true } =
        true ↔ Covers found scheme host port ∧ WritesPort scheme found := by
  unfold matchesRule
  dsimp only
  rw [hprotocol, hhostname, hport]
  by_cases hpart : scheme.text ++ [':'] ≠ found.protocol.map Char.toLower ++ [':'] ∨
      canonicalPort scheme port ≠ found.port
  · rw [if_pos hpart]
    refine iff_of_false Bool.false_ne_true fun hcovers => ?_
    rcases hpart with hprotocol | hport
    · exact hprotocol (congrArg (· ++ [':']) hcovers.1.protocol.symm)
    · exact hport (canonicalPort_eq_iff.mpr ⟨hcovers.1.port, hcovers.2⟩)
  · rw [if_neg hpart]
    simp only [ne_eq, not_or, not_not] at hpart
    obtain ⟨hprotocol, hport⟩ := hpart
    obtain ⟨heffective, hwrites⟩ := canonicalPort_eq_iff.mp hport
    have hprotocol := (List.append_cancel_right hprotocol).symm
    rw [if_neg (by simp)]
    by_cases honion : found.hostname.map Char.toLower = "onion".toList
    · rw [if_pos honion, matchesOnionV3OriginHost, hlower, isOnionV3Host_iff]
      constructor
      · intro hv3
        exact ⟨⟨hprotocol, heffective, honion ▸ suffix_of_isOnionV3Host hv3, fun _ => hv3⟩, hwrites⟩
      · exact fun hcovers => hcovers.1.onion honion
    · rw [if_neg honion]
      simp only [Bool.and_eq_true, decide_eq_true_eq, List.isSuffixOf_iff_suffix]
      constructor
      · rintro ⟨-, labels, hlabels⟩
        exact ⟨⟨hprotocol, heffective, ⟨labels, hlabels.symm⟩, fun h => absurd h honion⟩, hwrites⟩
      · rintro ⟨hcovers, -⟩
        obtain ⟨labels, hlabels⟩ := hcovers.suffix
        refine ⟨fun hsame => ?_, labels, hlabels.symm⟩
        have hlength := congrArg List.length (hsame.symm.trans hlabels)
        rw [List.length_append, List.length_cons] at hlength
        omega

/-! ### The forms of an entry -/

theorem wildcardMatch_null : wildcardMatch nullText = none := by decide

theorem wildcardMatch_app : wildcardMatch (appStart ++ host) = none := by
  simp [wildcardMatch, appStart]

theorem wildcardSuffix_protocol {protocol rest : Text}
    (h : wildcardSuffix protocol rest = some found) : found.protocol = protocol := by
  unfold wildcardSuffix at h
  dsimp only at h
  split at h
  · cases h
  · split at h
    · cases h
      rfl
    · split at h <;> cases h
      rfl

theorem wildcardMatch_protocol {value : Text} (h : wildcardMatch value = some found) :
    ∃ scheme : WebScheme, found.protocol.map Char.toLower = scheme.text := by
  unfold wildcardMatch at h
  dsimp only at h
  split at h
  · rename_i hstart
    refine ⟨.http, ?_⟩
    have htake := congrArg (List.take 4) hstart
    rw [List.map_take, List.take_take, ← List.map_take] at htake
    rw [wildcardSuffix_protocol h]
    exact htake
  · split at h
    · rename_i hstart
      refine ⟨.https, ?_⟩
      have htake := congrArg (List.take 5) hstart
      rw [List.map_take, List.take_take, ← List.map_take] at htake
      rw [wildcardSuffix_protocol h]
      exact htake
    · cases h

/-- An entry that is written with a wildcard compiles to a wildcard rule. -/
theorem RuleOf.of_wildcard {value : Text} {rule : OriginRule} (h : RuleOf newUrl value rule)
    (hfound : wildcardMatch value = some found) :
    rule =
      { protocol := found.protocol.map Char.toLower ++ [':']
        hostname := found.hostname.map Char.toLower, port := found.port, wildcard := true } := by
  cases h with
  | null hvalue =>
    rw [hvalue, wildcardMatch_null] at hfound
    cases hfound
  | app hvalue hhost =>
    rw [hvalue, wildcardMatch_app] at hfound
    cases hfound
  | wildcard hfound' =>
    obtain rfl := Option.some.inj (hfound'.symm.trans hfound)
    rfl
  | exact hnone =>
    rw [hnone] at hfound
    cases hfound

/-! ### Each kind of origin -/

theorem text_web_ne_null : (BrowserOrigin.web scheme host port).text ≠ nullText := by
  cases scheme <;> simp [BrowserOrigin.text, WebScheme.text, nullText]

theorem text_web_ne_app : (BrowserOrigin.web scheme host port).text.take appStart.length ≠
    appStart := by
  cases scheme <;> simp [BrowserOrigin.text, WebScheme.text, appStart]

theorem matchesOrigin_web (hurl : Serializes newUrl)
    (hrules : parseOriginRules newUrl items = .ok rules)
    (hparses : (BrowserOrigin.web scheme host port).Parses newUrl) :
    matchesOrigin newUrl rules (BrowserOrigin.web scheme host port).text = true ↔
      Exactly items (.web scheme host port) ∨ Covered items WritesPort (.web scheme host port) := by
  obtain ⟨hlower, hparsed⟩ := hparses
  have happ : scheme.text ++ [':'] ≠ appProtocol := by cases scheme <;> decide
  unfold matchesOrigin
  rw [if_neg text_web_ne_null, hparsed]
  dsimp only
  rw [if_neg (by simp), if_neg happ, if_neg (by simp), any_parseOriginRules hrules]
  constructor
  · rintro ⟨item, hmem, rule, hrule, hmatches⟩
    obtain ⟨value, rfl, hform⟩ := ruleOf_parseOriginRule hurl hrule
    cases hform with
    | null hvalue =>
      have hne : scheme.text ++ [':'] ≠ "null:".toList := by cases scheme <;> decide
      rw [matchesRule, if_pos (.inl hne)] at hmatches
      cases hmatches
    | app hvalue hhost =>
      rw [matchesRule, if_pos (.inl happ)] at hmatches
      cases hmatches
    | wildcard hfound =>
      obtain ⟨hcovers, hwrites⟩ := (matchesRule_wildcard rfl rfl rfl hlower).mp hmatches
      exact .inr ⟨value, hmem, _, hfound, hcovers, hwrites⟩
    | @exact parsed hnone hstart hvalue hprotocol horigin =>
      refine .inl ⟨value, hmem, ?_, hnone⟩
      simp only [matchesRule, ne_eq, Bool.not_false, if_true] at hmatches
      split at hmatches
      · cases hmatches
      · rename_i hsame
        simp only [not_or, not_not] at hsame
        have hhost := of_decide_eq_true hmatches
        rw [← horigin, hurl.origin _ _ hvalue hprotocol, ← hsame.1, ← hsame.2, ← hhost]
        rfl
  · rintro (⟨value, hmem, htext, hnone⟩ | ⟨value, hmem, found, hfound, hcovers, hwrites⟩)
    · obtain ⟨rule, hrule⟩ := parseOriginRule_of_mem hrules hmem
      obtain ⟨_, ⟨⟩, hform⟩ := ruleOf_parseOriginRule hurl hrule
      refine ⟨_, hmem, rule, hrule, ?_⟩
      cases hform with
      | null hvalue => exact absurd (htext.symm.trans hvalue) text_web_ne_null
      | app hvalue hhost =>
        rw [htext] at hvalue
        refine absurd ?_ (@text_web_ne_app scheme host port)
        rw [hvalue, List.take_left']
        rfl
      | wildcard hfound =>
        rw [hnone] at hfound
        cases hfound
      | exact hnone hstart hvalue hprotocol horigin =>
        rw [htext] at hvalue
        obtain rfl := Option.some.inj (hparsed.symm.trans hvalue)
        simp [matchesRule]
    · obtain ⟨rule, hrule⟩ := parseOriginRule_of_mem hrules hmem
      obtain ⟨_, ⟨⟩, hform⟩ := ruleOf_parseOriginRule hurl hrule
      refine ⟨_, hmem, rule, hrule, ?_⟩
      rw [hform.of_wildcard hfound]
      exact (matchesRule_wildcard rfl rfl rfl hlower).mpr ⟨hcovers, hwrites⟩

theorem matchesOrigin_null (hurl : Serializes newUrl)
    (hrules : parseOriginRules newUrl items = .ok rules) :
    matchesOrigin newUrl rules BrowserOrigin.null.text = true ↔ Exactly items .null := by
  unfold matchesOrigin
  rw [if_pos (show BrowserOrigin.null.text = nullText from rfl), any_parseOriginRules hrules]
  constructor
  · rintro ⟨item, hmem, rule, hrule, hmatches⟩
    have hmatches := of_decide_eq_true hmatches
    obtain ⟨value, rfl, hform⟩ := ruleOf_parseOriginRule hurl hrule
    cases hform with
    | null hvalue => exact ⟨value, hmem, hvalue, hvalue ▸ wildcardMatch_null⟩
    | app hvalue hhost => cases hmatches
    | wildcard hfound =>
      obtain ⟨scheme, hscheme⟩ := wildcardMatch_protocol hfound
      rw [hscheme] at hmatches
      cases scheme <;> cases hmatches
    | @exact parsed hnone hstart hvalue hprotocol horigin =>
      have hmatches : parsed.protocol = "null:".toList := hmatches
      rw [hmatches] at hprotocol
      rcases hprotocol with hprotocol | hprotocol <;> cases hprotocol
  · rintro ⟨value, hmem, htext, hnone⟩
    obtain ⟨rule, hrule⟩ := parseOriginRule_of_mem hrules hmem
    obtain ⟨_, ⟨⟩, hform⟩ := ruleOf_parseOriginRule hurl hrule
    refine ⟨_, hmem, rule, hrule, ?_⟩
    cases hform with
    | null hvalue => rfl
    | app hvalue hhost =>
      rw [htext] at hvalue
      cases hvalue
    | wildcard hfound =>
      rw [hnone] at hfound
      cases hfound
    | @exact parsed hnone hstart hvalue hprotocol horigin =>
      have hserialized := hurl.origin _ parsed hvalue hprotocol
      rw [horigin, htext] at hserialized
      rcases hprotocol with hprotocol | hprotocol
      all_goals
        rw [hprotocol] at hserialized
        cases hserialized

theorem matchesOrigin_app (hurl : Serializes newUrl)
    (hrules : parseOriginRules newUrl items = .ok rules)
    (hparses : (BrowserOrigin.app host).Parses newUrl) :
    matchesOrigin newUrl rules (BrowserOrigin.app host).text = true ↔
      Exactly items (.app host) := by
  have hne : (BrowserOrigin.app host).text ≠ nullText := by
    simp [BrowserOrigin.text, appStart, nullText]
  unfold matchesOrigin
  rw [if_neg hne, hparses]
  dsimp only
  rw [if_neg (by simp), if_pos rfl, if_neg (by simp), any_parseOriginRules hrules]
  constructor
  · rintro ⟨item, hmem, rule, hrule, hmatches⟩
    simp only [Bool.and_eq_true, decide_eq_true_eq, Bool.not_eq_true'] at hmatches
    obtain ⟨⟨hprotocol, hexact⟩, hhost⟩ := hmatches
    obtain ⟨value, rfl, hform⟩ := ruleOf_parseOriginRule hurl hrule
    cases hform with
    | null hvalue => cases hprotocol
    | app hvalue hhost' =>
      have hvalue : value.toList = appStart ++ host :=
        hvalue.trans (congrArg (appStart ++ ·) hhost.symm)
      exact ⟨value, hmem, hvalue, hvalue ▸ wildcardMatch_app⟩
    | wildcard hfound => cases hexact
    | @exact parsed hnone hstart hvalue hweb horigin =>
      have hprotocol : parsed.protocol = appProtocol := hprotocol
      rw [hprotocol] at hweb
      rcases hweb with hweb | hweb <;> cases hweb
  · rintro ⟨value, hmem, htext, hnone⟩
    obtain ⟨rule, hrule⟩ := parseOriginRule_of_mem hrules hmem
    obtain ⟨_, ⟨⟩, hform⟩ := ruleOf_parseOriginRule hurl hrule
    refine ⟨_, hmem, rule, hrule, ?_⟩
    cases hform with
    | null hvalue => exact absurd (htext.symm.trans hvalue) hne
    | app hvalue hhost =>
      have hsame := hhost _ ((congrArg newUrl htext).trans hparses)
      simp [← hsame]
    | wildcard hfound =>
      rw [hnone] at hfound
      cases hfound
    | exact hnone hstart =>
      refine absurd ?_ hstart
      rw [htext, BrowserOrigin.text, List.take_left']
      rfl

theorem takeWhile_scheme {scheme rest : Text} (h : ':' ∉ scheme) :
    (scheme ++ ':' :: rest).takeWhile (· ≠ ':') = scheme := by
  rw [List.takeWhile_append_of_pos fun c hc => by simpa using ne_of_mem_of_not_mem hc h]
  simp

theorem text_other {scheme : Text} {port : Option Nat} :
    ∃ rest, (BrowserOrigin.other scheme host port).text = scheme ++ ':' :: rest :=
  ⟨"//".toList ++ host ++ portPart ((port.map (Nat.toDigits 10)).getD []), by
    simp [BrowserOrigin.text]⟩

/-- No entry is for another scheme. -/
theorem matchesOrigin_other {scheme : Text} {port : Option Nat} (hurl : Serializes newUrl)
    (hrules : parseOriginRules newUrl items = .ok rules)
    (hparses : (BrowserOrigin.other scheme host port).Parses newUrl) :
    matchesOrigin newUrl rules (BrowserOrigin.other scheme host port).text = true ↔
      Exactly items (.other scheme host port) := by
  obtain ⟨hcolon, hhttp, hhttps, happ, hhost, hparsed⟩ := hparses
  obtain ⟨rest, htext⟩ := @text_other host scheme port
  have hnull : (BrowserOrigin.other scheme host port).text ≠ nullText := by
    intro hnull
    have hmem : ':' ∈ nullText := hnull ▸ htext ▸ List.mem_append_right _ List.mem_cons_self
    exact absurd hmem (by decide)
  have hprotocol (name : Text) (hname : scheme ≠ name) (parsed : Url)
      (h : newUrl (BrowserOrigin.other scheme host port).text = some parsed) :
      parsed.protocol ≠ name ++ [':'] := by
    rw [(hparsed parsed h).1]
    exact fun hsame => hname (List.append_cancel_right hsame)
  refine iff_of_false (fun hmatches => ?_) ?_
  · unfold matchesOrigin at hmatches
    rw [if_neg hnull] at hmatches
    split at hmatches
    · cases hmatches
    · rename_i parsed hsome
      have hother : parsed.protocol ≠ appProtocol := hprotocol _ happ parsed hsome
      rw [if_neg hother] at hmatches
      split at hmatches
      · cases hmatches
      · split at hmatches
        · cases hmatches
        · obtain ⟨item, -, rule, hrule, hmatches⟩ := (any_parseOriginRules hrules _).mp hmatches
          obtain ⟨value, rfl, hform⟩ := ruleOf_parseOriginRule hurl hrule
          unfold matchesRule at hmatches
          split at hmatches
          · cases hmatches
          · rename_i hsame
            simp only [ne_eq, not_or, not_not] at hsame
            cases hform with
            | null hvalue =>
              rw [if_pos (by simp)] at hmatches
              rw [(hparsed parsed hsome).2] at hmatches
              exact hhost (of_decide_eq_true hmatches)
            | app hvalue hhost' => exact hprotocol _ happ parsed hsome hsame.1
            | wildcard hfound =>
              obtain ⟨web, hweb⟩ := wildcardMatch_protocol hfound
              rw [hweb] at hsame
              cases web with
              | http => exact hprotocol _ hhttp parsed hsome hsame.1
              | https => exact hprotocol _ hhttps parsed hsome hsame.1
            | exact hnone hstart hvalue hweb horigin =>
              rcases hweb with hweb | hweb
              · exact hprotocol _ hhttp parsed hsome (hsame.1.trans hweb)
              · exact hprotocol _ hhttps parsed hsome (hsame.1.trans hweb)
  · rintro ⟨value, hmem, hvalueText, hnone⟩
    obtain ⟨rule, hrule⟩ := parseOriginRule_of_mem hrules hmem
    obtain ⟨_, ⟨⟩, hform⟩ := ruleOf_parseOriginRule hurl hrule
    cases hform with
    | null hvalue => exact hnull (hvalueText.symm.trans hvalue)
    | @app other hvalue hhost' =>
      have hsame := congrArg (List.takeWhile (· ≠ ':'))
        (htext.symm.trans (hvalueText.symm.trans hvalue))
      rw [takeWhile_scheme hcolon] at hsame
      exact happ hsame
    | wildcard hfound =>
      rw [hnone] at hfound
      cases hfound
    | @exact parsed hnone hstart hvalue hweb horigin =>
      rw [hvalueText] at hvalue
      rcases hweb with hweb | hweb
      · exact hprotocol _ hhttp parsed hvalue hweb
      · exact hprotocol _ hhttps parsed hvalue hweb

/-- What the compiled list accepts: the origins it contains, and those that a
wildcard covers which writes its port as a browser does. -/
theorem matchesOrigin_iff (hurl : Serializes newUrl)
    (hrules : parseOriginRules newUrl items = .ok rules) {origin : BrowserOrigin}
    (hparses : origin.Parses newUrl) :
    matchesOrigin newUrl rules origin.text = true ↔
      Exactly items origin ∨ Covered items WritesPort origin := by
  cases origin with
  | null => exact (matchesOrigin_null hurl hrules).trans (or_iff_left id).symm
  | app host => exact (matchesOrigin_app hurl hrules hparses).trans (or_iff_left id).symm
  | web scheme host port => exact matchesOrigin_web hurl hrules hparses
  | other scheme host port =>
    exact (matchesOrigin_other hurl hrules hparses).trans (or_iff_left id).symm

end Rules

theorem Covered.mono {items : List ConfigValue} {kind kind' : WebScheme → WildcardMatch → Prop}
    {origin : BrowserOrigin} (h : ∀ scheme found, kind scheme found → kind' scheme found) :
    Covered items kind origin → Covered items kind' origin := by
  cases origin with
  | web scheme host port =>
    rintro ⟨value, hmem, found, hfound, hcovers, hkind⟩
    exact ⟨value, hmem, found, hfound, hcovers, h _ _ hkind⟩
  | _ => exact id

/-- An accepted list never admits an origin it does not ask for, and it admits
one that it asks for exactly if a wildcard that covers it and does not write its
port as a browser does is not the only reason. -/
theorem cors_iff (newUrl : Text → Option Url) (hurl : Serializes newUrl)
    (items : List ConfigValue) (rules : List OriginRule)
    (hrules : originRules newUrl (.array items) = .ok rules) (origin : BrowserOrigin)
    (hparses : origin.Parses newUrl) :
    (matchesOrigin newUrl rules origin.text = true → AllowsOrigin items origin) ∧
      ((matchesOrigin newUrl rules origin.text = true ↔ AllowsOrigin items origin) ↔
        (Covered items (fun scheme found => ¬ WritesPort scheme found) origin →
          Exactly items origin ∨ Covered items WritesPort origin)) := by
  have hrules : parseOriginRules newUrl items = .ok rules := by
    cases items with
    | nil => cases hrules
    | cons item items => exact hrules
  have hmatches := matchesOrigin_iff hurl hrules hparses
  have hsound : Covered items WritesPort origin → Covered items (fun _ _ => True) origin :=
    Covered.mono fun _ _ _ => trivial
  refine ⟨fun h => (hmatches.mp h).imp id hsound, ?_⟩
  rw [hmatches]
  constructor
  · intro hagree hother
    exact hagree.mpr (.inr (hother.mono fun _ _ _ => trivial))
  · intro hcondition
    refine ⟨Or.imp id hsound, fun hadmits => ?_⟩
    rcases hadmits with hexactly | hcovered
    · exact .inl hexactly
    · by_cases hwrites : Covered items WritesPort origin
      · exact .inr hwrites
      · refine hcondition ?_
        cases origin with
        | web scheme host port =>
          obtain ⟨value, hmem, found, hfound, hcovers, -⟩ := hcovered
          exact ⟨value, hmem, found, hfound, hcovers, fun hkind =>
            hwrites ⟨value, hmem, found, hfound, hcovers, hkind⟩⟩
        | _ => exact hcovered

/-! ## A default port that is written out -/

namespace WrittenPort

/-- `https://chat.example.org`, as it is parsed. -/
def chat : BrowserOrigin := .web .https "chat.example.org".toList 443

def chatUrl : Url where
  href := "https://chat.example.org/".toList
  origin := "https://chat.example.org".toList
  protocol := "https:".toList
  username := []
  password := []
  hostname := "chat.example.org".toList
  port := []
  pathname := ['/']
  search := []
  hash := []

def newUrl (value : Text) : Option Url := if value = chat.text then some chatUrl else none

theorem serializes_newUrl : Serializes newUrl where
  origin value parsed h _ := by
    unfold newUrl at h
    split at h <;> cases h
    decide
  href host parsed _ h := by
    have hne : appStart ++ host ≠ chat.text := by
      intro hsame
      cases congrArg List.head? hsame
    rw [newUrl, if_neg hne] at h
    cases h

theorem chat_parses : chat.Parses newUrl := ⟨by decide, if_pos rfl⟩

def wildcard (port : Text) : OriginRule :=
  { protocol := "https:".toList, hostname := "example.org".toList, port, wildcard := true }

end WrittenPort

open WrittenPort in
theorem cors_iff_subdomain :
    matchesOrigin newUrl [wildcard []] chat.text = true ↔
      AllowsOrigin [.string "https://*.example.org"] chat := by
  refine (cors_iff newUrl serializes_newUrl [.string "https://*.example.org"] [wildcard []]
    (by decide +kernel) chat chat_parses).2.mpr fun _ => ?_
  refine .inr ⟨"https://*.example.org", List.mem_singleton_self _,
    ⟨"https".toList, "example.org".toList, []⟩, by decide, ?_, rfl⟩
  exact ⟨rfl, rfl, ⟨"chat".toList, rfl⟩, fun h => absurd h (by decide)⟩

open WrittenPort in
/-- A wildcard for port 443 of https is accepted and covers no origin. -/
theorem written_default_port_refused :
    ¬ ∀ (newUrl : Text → Option Url), Serializes newUrl →
      ∀ (items : List ConfigValue) (rules : List OriginRule),
        originRules newUrl (.array items) = .ok rules →
        ∀ origin : BrowserOrigin, origin.Parses newUrl →
          (matchesOrigin newUrl rules origin.text = true ↔ AllowsOrigin items origin) := by
  intro hclaim
  have hrules : originRules newUrl (.array [.string "https://*.example.org:443"]) =
      .ok [wildcard "443".toList] := by
    decide +kernel
  have hcovered : AllowsOrigin [.string "https://*.example.org:443"] chat := by
    refine .inr ⟨"https://*.example.org:443", List.mem_singleton_self _,
      ⟨"https".toList, "example.org".toList, "443".toList⟩, by decide, ?_, trivial⟩
    exact ⟨rfl, rfl, ⟨"chat".toList, rfl⟩, fun h => absurd h (by decide)⟩
  have hmatches := (hclaim newUrl serializes_newUrl _ _ hrules chat chat_parses).mpr hcovered
  exact absurd hmatches (by decide +kernel)

end IpfsNode
