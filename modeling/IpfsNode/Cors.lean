import Mathlib.Algebra.GroupWithZero.Nat
import IpfsNode.Config

/-!
# Which origins the browser may call from

The operator lists the origins: exact ones, which have to be written as a browser
serializes them, and wildcards for the subdomains of a suffix, which are taken
apart by a regular expression. The list is compiled to rules at startup, and the
origin of a request is compared with each. Parsing of URLs is left open.
-/

namespace IpfsNode

abbrev Text := List Char

/-! ## The code -/

/-- What `new URL` makes of a text. -/
structure Url where
  href : Text
  origin : Text
  protocol : Text
  username : Text
  password : Text
  hostname : Text
  port : Text
  pathname : Text
  search : Text
  hash : Text
deriving DecidableEq, Repr

structure OriginRule where
  protocol : Text
  hostname : Text
  port : Text
  wildcard : Bool
deriving DecidableEq, Repr

def nullText : Text := "null".toList
def appProtocol : Text := "app:".toList
def appStart : Text := "app://".toList

/-- The length of a text in the units of JavaScript. -/
def utf16Length (value : Text) : Nat :=
  (value.map fun c => if c.toNat < 0x10000 then 1 else 2).sum

/-- `[a-z0-9](?:[a-z0-9-]{0,61}[a-z0-9])?`. -/
def isLabel (label : Text) : Bool :=
  let alphanumeric (c : Char) := c.isLower || c.isDigit
  label.length ≤ 63 && label.all (fun c => alphanumeric c || c = '-')
    && label.head?.any alphanumeric && label.getLast?.any alphanumeric

/-- The host part of `APP_ORIGIN`. -/
def isAppHost (host : Text) : Bool :=
  host = ['.'] || (host.splitOn '.').all isLabel

def isBase32 (c : Char) : Bool := c.isLower || ('2' ≤ c && c ≤ '7')

/-- `ONION_V3_ORIGIN_HOST`: labels, a key of 56 characters, `onion`. -/
def isOnionV3Host (host : Text) : Bool :=
  match (host.splitOn '.').reverse with
  | onion :: key :: labels =>
      onion = "onion".toList && key.length = 56 && key.all isBase32 && labels.all isLabel
  | _ => false

def matchesOnionV3OriginHost (hostname : Text) : Bool :=
  isOnionV3Host (hostname.map Char.toLower)

/-- What the wildcard expression captures. -/
structure WildcardMatch where
  protocol : Text
  hostname : Text
  port : Text
deriving DecidableEq, Repr

/-- `[a-z0-9.-]`, either case. -/
def isSuffixChar (c : Char) : Bool := c.isAlphanum || c = '.' || c = '-'

/-- `([a-z0-9.-]+)(?::([0-9]{1,5}))?$`. -/
def wildcardSuffix (protocol rest : Text) : Option WildcardMatch :=
  let hostname := rest.takeWhile isSuffixChar
  if hostname = [] then none
  else
    match rest.dropWhile isSuffixChar with
    | [] => some { protocol, hostname, port := [] }
    | colon :: port =>
        if colon = ':' ∧ port ≠ [] ∧ port.length ≤ 5 ∧ port.all Char.isDigit then
          some { protocol, hostname, port }
        else none

/-- `/^(https?):\/\/\*\.([a-z0-9.-]+)(?::([0-9]{1,5}))?$/i`. -/
def wildcardMatch (value : Text) : Option WildcardMatch :=
  let http := "http://*.".toList
  let https := "https://*.".toList
  if (value.take http.length).map Char.toLower = http then
    wildcardSuffix (value.take 4) (value.drop http.length)
  else if (value.take https.length).map Char.toLower = https then
    wildcardSuffix (value.take 5) (value.drop https.length)
  else none

def validateHostname (hostname : Text) : Except String Unit :=
  if 253 < hostname.length ∨ '.' ∉ hostname ∨ hostname.head? = some '.' ∨
      hostname.getLast? = some '.' ∨ ['.', '.'] <:+: hostname then
    throw ("Invalid wildcard CORS hostname: " ++ String.ofList hostname)
  else pure ()

def validateWildcardSuffix (hostname : Text) : Except String Unit :=
  if hostname = "onion".toList then pure () else validateHostname hostname

/-- `Number` of a text of digits. -/
def decimal (digits : Text) : Nat := Nat.ofDigitChars 10 digits 0

def validatePort (port : Text) : Except String Unit :=
  if port ≠ [] ∧ 65535 < decimal port then throw ("Invalid CORS port: " ++ String.ofList port)
  else pure ()

section Url

variable (newUrl : Text → Option Url)

def parseAppOrigin (value : Text) : Except String OriginRule :=
  let refused : Except String OriginRule :=
    throw ("CORS app origins must be canonical app://. or app://<host> values with no wildcard, "
      ++ "port, path, or userinfo: " ++ String.ofList value)
  if value.take appStart.length = appStart ∧ isAppHost (value.drop appStart.length) then
    match newUrl value with
    | none => throw "Invalid URL"
    | some parsed =>
        if parsed.href ≠ value ∨ parsed.protocol ≠ appProtocol ∨ parsed.username ≠ [] ∨
            parsed.password ≠ [] ∨ parsed.port ≠ [] ∨ parsed.search ≠ [] ∨ parsed.hash ≠ [] ∨
            parsed.pathname ≠ [] then refused
        else
          pure
            { protocol := appProtocol, hostname := parsed.hostname, port := [], wildcard := false }
  else refused

def parseWildcard (found : WildcardMatch) : Except String OriginRule := do
  validateWildcardSuffix found.hostname
  validatePort found.port
  pure
    { protocol := found.protocol.map Char.toLower ++ [':']
      hostname := found.hostname.map Char.toLower
      port := found.port, wildcard := true }

def parseExact (value : Text) : Except String OriginRule :=
  match newUrl value with
  | none => throw ("Invalid CORS origin: " ++ String.ofList value)
  | some parsed =>
      if (parsed.protocol ≠ "http:".toList ∧ parsed.protocol ≠ "https:".toList) ∨
          parsed.username ≠ [] ∨ parsed.password ≠ [] ∨ '*' ∈ parsed.hostname ∨
          parsed.pathname ≠ ['/'] ∨ parsed.search ≠ [] ∨ parsed.hash ≠ [] ∨
          parsed.origin ≠ value then
        throw ("CORS entries must be canonical HTTP(S) origins: " ++ String.ofList value)
      else
        pure
          { protocol := parsed.protocol, hostname := parsed.hostname, port := parsed.port
            wildcard := false }

def parseOriginRule (value : ConfigValue) : Except String OriginRule :=
  match value with
  | .string value =>
      let value := value.toList
      if value = [] ∨ 255 < utf16Length value then
        throw "Each CORS origin must be a non-empty string of at most 255 characters"
      else if value = nullText then
        pure { protocol := "null:".toList, hostname := [], port := [], wildcard := false }
      else if (value.take appProtocol.length).map Char.toLower = appProtocol then
        parseAppOrigin newUrl value
      else
        match wildcardMatch value with
        | some found => parseWildcard found
        | none => parseExact newUrl value
  | _ => throw "Each CORS origin must be a non-empty string of at most 255 characters"

def parseOriginRules : List ConfigValue → Except String (List OriginRule)
  | [] => pure []
  | item :: items => do
      let rule ← parseOriginRule newUrl item
      let rules ← parseOriginRules items
      pure (rule :: rules)

/-- The rules that `createOriginMatcher` compiles. -/
def originRules (allowedOrigins : ConfigValue) : Except String (List OriginRule) :=
  match allowedOrigins with
  | .array (item :: items) => parseOriginRules newUrl (item :: items)
  | _ => throw "cors.allowedOrigins must be a non-empty array"

/-- One rule against an origin of http or https. -/
def matchesRule (parsed : Url) (rule : OriginRule) : Bool :=
  if parsed.protocol ≠ rule.protocol ∨ parsed.port ≠ rule.port then false
  else if !rule.wildcard then parsed.hostname = rule.hostname
  else if rule.hostname = "onion".toList then matchesOnionV3OriginHost parsed.hostname
  else parsed.hostname ≠ rule.hostname && ('.' :: rule.hostname).isSuffixOf parsed.hostname

/-- The predicate that `createOriginMatcher` returns. -/
def matchesOrigin (rules : List OriginRule) (origin : Text) : Bool :=
  if origin = nullText then rules.any fun rule => rule.protocol = "null:".toList
  else
    match newUrl origin with
    | none => false
    | some parsed =>
        if parsed.username ≠ [] ∨ parsed.password ≠ [] ∨ parsed.search ≠ [] ∨ parsed.hash ≠ [] then
          false
        else if parsed.protocol = appProtocol then
          if parsed.pathname ≠ [] ∨ parsed.port ≠ [] then false
          else
            rules.any fun rule =>
              rule.protocol = appProtocol && !rule.wildcard && parsed.hostname = rule.hostname
        else if parsed.pathname ≠ ['/'] then false
        else rules.any (matchesRule parsed)

end Url

/-! ## What an entry compiles to -/

/-- The rule of an accepted entry. -/
inductive RuleOf (newUrl : Text → Option Url) (value : Text) : OriginRule → Prop
  | null (hvalue : value = nullText) :
      RuleOf newUrl value
        { protocol := "null:".toList, hostname := [], port := [], wildcard := false }
  | app {host : Text} (hvalue : value = appStart ++ host)
      (hhost : ∀ parsed, newUrl value = some parsed → parsed.hostname = host) :
      RuleOf newUrl value
        { protocol := appProtocol, hostname := host, port := [], wildcard := false }
  | wildcard {found : WildcardMatch} (hfound : wildcardMatch value = some found) :
      RuleOf newUrl value
        { protocol := found.protocol.map Char.toLower ++ [':']
          hostname := found.hostname.map Char.toLower, port := found.port, wildcard := true }
  | exact {parsed : Url} (hnone : wildcardMatch value = none)
      (happ : value.take appStart.length ≠ appStart) (hurl : newUrl value = some parsed)
      (hprotocol : parsed.protocol = "http:".toList ∨ parsed.protocol = "https:".toList)
      (horigin : parsed.origin = value) :
      RuleOf newUrl value
        { protocol := parsed.protocol, hostname := parsed.hostname, port := parsed.port
          wildcard := false }

/-- How a parsed URL is serialized again: the origin of one of http or https, and
one of the app scheme that is nothing but labels of a host. -/
structure Serializes (newUrl : Text → Option Url) : Prop where
  origin : ∀ value parsed, newUrl value = some parsed →
    parsed.protocol = "http:".toList ∨ parsed.protocol = "https:".toList →
    parsed.origin = parsed.protocol ++ "//".toList ++ parsed.hostname ++
      (if parsed.port = [] then [] else ':' :: parsed.port)
  href : ∀ host parsed, isAppHost host = true → newUrl (appStart ++ host) = some parsed →
    parsed.username = [] → parsed.password = [] → parsed.port = [] → parsed.pathname = [] →
    parsed.search = [] → parsed.hash = [] →
    parsed.href = parsed.protocol ++ "//".toList ++ parsed.hostname

variable {newUrl : Text → Option Url} {value : Text} {rule : OriginRule}

theorem ruleOf_parseAppOrigin (hurl : Serializes newUrl)
    (h : parseAppOrigin newUrl value = .ok rule) : RuleOf newUrl value rule := by
  unfold parseAppOrigin at h
  dsimp only at h
  split at h
  · rename_i hvalue
    have hsplit : value = appStart ++ value.drop appStart.length := by
      conv_lhs => rw [← List.take_append_drop appStart.length value, hvalue.1]
    split at h
    · cases h
    · rename_i parsed hparsed
      split at h
      · cases h
      · rename_i hempty
        cases h
        simp only [ne_eq, not_or, not_not] at hempty
        obtain ⟨hhref, hprotocol, husername, hpassword, hport, hsearch, hhash, hpathname⟩ := hempty
        have hserialized := hurl.href (value.drop appStart.length) parsed hvalue.2
          (hsplit ▸ hparsed) husername hpassword hport hpathname hsearch hhash
        rw [hhref, hprotocol] at hserialized
        refine .app hserialized fun other hother => ?_
        rw [hparsed] at hother
        rw [← Option.some.inj hother]
  · cases h

theorem ruleOf_parseExact (hnone : wildcardMatch value = none)
    (happ : value.take appStart.length ≠ appStart)
    (h : parseExact newUrl value = .ok rule) : RuleOf newUrl value rule := by
  unfold parseExact at h
  split at h
  · cases h
  · rename_i parsed hparsed
    split at h
    · cases h
    · rename_i hcanonical
      cases h
      simp only [ne_eq, not_or, not_not] at hcanonical
      refine .exact hnone happ hparsed ?_ hcanonical.2.2.2.2.2.2.2
      exact or_iff_not_imp_left.mpr fun hhttp =>
        not_not.mp fun hhttps => hcanonical.1 ⟨hhttp, hhttps⟩

theorem ruleOf_parseOriginRule (hurl : Serializes newUrl) {item : ConfigValue}
    (h : parseOriginRule newUrl item = .ok rule) :
    ∃ text : String, item = .string text ∧ RuleOf newUrl text.toList rule := by
  unfold parseOriginRule at h
  split at h
  · rename_i text
    refine ⟨text, rfl, ?_⟩
    dsimp only at h
    split at h
    · cases h
    · split at h
      · rename_i hnull
        cases h
        exact .null hnull
      · split at h
        · exact ruleOf_parseAppOrigin hurl h
        · rename_i happ
          split at h
          · rename_i found hfound
            unfold parseWildcard at h
            obtain ⟨-, -, h⟩ := bind_eq_ok.mp h
            obtain ⟨-, -, h⟩ := bind_eq_ok.mp h
            cases h
            exact .wildcard hfound
          · rename_i hnone
            refine ruleOf_parseExact hnone (fun hstart => happ ?_) h
            have htake : text.toList.take appProtocol.length =
                (text.toList.take appStart.length).take appProtocol.length := by
              rw [List.take_take]
              rfl
            rw [htake, hstart]
            rfl
  · cases h

/-- The rules are those of the entries. -/
theorem any_parseOriginRules {items : List ConfigValue} {rules : List OriginRule}
    (h : parseOriginRules newUrl items = .ok rules) (p : OriginRule → Bool) :
    rules.any p = true ↔
      ∃ item ∈ items, ∃ rule, parseOriginRule newUrl item = .ok rule ∧ p rule = true := by
  induction items generalizing rules with
  | nil =>
    cases h
    simp
  | cons item items ih =>
    obtain ⟨rule, hrule, h⟩ := bind_eq_ok.mp h
    obtain ⟨rest, hrest, h⟩ := bind_eq_ok.mp h
    cases h
    rw [List.any_cons, Bool.or_eq_true, ih hrest]
    simp [hrule]

/-- Every entry of an accepted list is accepted. -/
theorem parseOriginRule_of_mem {items : List ConfigValue} {rules : List OriginRule}
    (h : parseOriginRules newUrl items = .ok rules) {item : ConfigValue} (hmem : item ∈ items) :
    ∃ rule, parseOriginRule newUrl item = .ok rule := by
  induction items generalizing rules with
  | nil => cases hmem
  | cons first items ih =>
    obtain ⟨rule, hrule, h⟩ := bind_eq_ok.mp h
    obtain ⟨rest, hrest, -⟩ := bind_eq_ok.mp h
    rcases List.mem_cons.mp hmem with rfl | hmem
    · exact ⟨rule, hrule⟩
    · exact ih hrest hmem

end IpfsNode
