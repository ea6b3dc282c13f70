import LeadPulse.Domain.IpAddress
import Mathlib

/-!
# The host of a URL

`urlparse(value).hostname` as CPython computes it: `urlsplit` finds the network location
of the URL and checks it, `hostname` cuts user info and port off and lower-cases the rest.

What the Unicode tables decide, lower-casing and NFKC, is a parameter, a `Unicode`.
-/

namespace LeadPulse

open PyStr IpAddress

/-- `str.lower` and `unicodedata.normalize("NFKC", ...)`. -/
structure Unicode where
  lower : List Char → List Char
  nfkc : List Char → List Char
  /-- A string of characters that lower-casing leaves alone, ASCII and not upper case,
  stays as it is. -/
  lower_ascii : ∀ s, (∀ c ∈ s, c.toNat < 128 ∧ c.isUpper = false) → lower s = s
  /-- Lower-casing makes no line feeds. -/
  lower_newline : ∀ s, '\n' ∈ lower s → '\n' ∈ s

/-- Python's functions on ASCII strings. -/
def Unicode.ascii : Unicode where
  lower s := s.map Char.toLower
  nfkc := id
  lower_ascii s hs := by
    have hc (c : Char) (h : c ∈ s) : c.toLower = c :=
      Char.toLower_eq_of_not_isUpper (by simp [(hs c h).2])
    calc s.map Char.toLower = s.map id := List.map_congr_left hc
      _ = s := List.map_id s
  lower_newline s h := by
    obtain ⟨c, hc, hlow⟩ := List.mem_map.mp h
    have halpha : c.isAlpha = false := by
      rw [← Char.isLower_toLower_eq_isAlpha, hlow]
      rfl
    have hup : c.isUpper = false := by
      simp only [Char.isAlpha, Bool.or_eq_false_iff] at halpha
      exact halpha.1
    rw [Char.toLower_eq_of_not_isUpper (by simp [hup])] at hlow
    exact hlow ▸ hc

/-- The `ValueError`s of `urlparse` and of `ip_address` on the host in brackets. -/
inductive ValueError where
  | invalidIPv6Url
  | invalidIPvFuture
  | ipv4InBrackets
  | notAnAddress (host : List Char)
  | invalidNetloc (netloc : List Char)
deriving DecidableEq, Repr

namespace Url

/-! ## `urlsplit` -/

def isSchemeChar (c : Char) : Bool := c.isAlphanum || c == '+' || c == '-' || c == '.'

/-- The URL without its scheme, if it starts with one. -/
def dropScheme (url : List Char) : List Char :=
  if ':' ∈ url ∧ url.head?.any Char.isAlpha ∧ (upTo ':' url).all isSchemeChar then past ':' url
  else url

/-- What `urlsplit` takes off the URL before it looks at it. -/
def clean (url : List Char) : List Char :=
  (url.dropWhile fun c => c.toNat ≤ 0x20).filter fun c => c ∉ ['\t', '\r', '\n']

/-- The network location: what follows `//`, up to the next `/`, `?` or `#`. -/
def splitNetloc (url : List Char) : List Char :=
  if ['/', '/'] <+: url then (url.drop 2).takeWhile fun c => c ∉ ['/', '?', '#'] else []

/-- `re.match(r"\Av[a-fA-F0-9]+\..+\Z", hostname)`, once the `v` has been seen. -/
def isIPvFuture (afterV : List Char) : Bool :=
  let digits := afterV.takeWhile isHexDigit
  match afterV.dropWhile isHexDigit with
  | '.' :: rest => digits ≠ [] ∧ rest ≠ [] ∧ '\n' ∉ rest
  | _ => false

def checkBracketedHost (hostname : List Char) : Except ValueError Unit :=
  match hostname with
  | 'v' :: afterV => if isIPvFuture afterV then .ok () else .error .invalidIPvFuture
  | _ =>
    match ipAddress hostname with
    | some (.v6 _ _) => .ok ()
    | some (.v4 _) => .error .ipv4InBrackets
    | none => .error (.notAnAddress hostname)

/-- `_checknetloc`: no delimiter may come up under NFKC. -/
def checkNetloc (U : Unicode) (netloc : List Char) : Except ValueError Unit :=
  let n := netloc.filter fun c => c ∉ ['@', ':', '#', '?']
  if netloc.all (fun c => c.toNat < 128) ∨ U.nfkc n = n then .ok ()
  else if ['/', '?', '#', '@', ':'].any (· ∈ U.nfkc n) then .error (.invalidNetloc netloc)
  else .ok ()

/-- `urlsplit(url).netloc`. -/
def netloc (U : Unicode) (url : List Char) : Except ValueError (List Char) := do
  let n := splitNetloc (dropScheme (clean url))
  -- brackets come in pairs, and only around an IPv6 or IPvFuture address
  if ('[' ∈ n) ≠ (']' ∈ n) then throw .invalidIPv6Url
  if '[' ∈ n then checkBracketedHost (upTo ']' (past '[' n))
  checkNetloc U n
  return n

/-! ## `hostname` -/

/-- `_hostinfo[0]`: the host without user info and port. -/
def hostInfo (netloc : List Char) : List Char :=
  if '[' ∈ pastLast '@' netloc then upTo ']' (past '[' (pastLast '@' netloc))
  else upTo ':' (pastLast '@' netloc)

/-- A host in lower case, a zone id apart. -/
def lowerHost (U : Unicode) (host : List Char) : List Char :=
  if '%' ∈ host then U.lower (upTo '%' host) ++ '%' :: past '%' host else U.lower host

/-- `urlparse(url).hostname`, `[]` for `None`. -/
def hostname (U : Unicode) (url : List Char) : Except ValueError (List Char) := do
  let n ← netloc U url
  return lowerHost U (hostInfo n)

/-! ## `path` -/

/-- The scheme of the URL in lower case, `[]` if it starts with none. -/
def scheme (url : List Char) : List Char :=
  if ':' ∈ url ∧ url.head?.any Char.isAlpha ∧ (upTo ':' url).all isSchemeChar then
    (upTo ':' url).map Char.toLower
  else []

/-- `uses_params`: the schemes whose paths may end in parameters. -/
def usesParams : List (List Char) :=
  ["", "ftp", "hdl", "prospero", "http", "imap", "https", "shttp", "rtsp", "rtsps", "rtspu",
    "sip", "sips", "mms", "sftp", "tel"].map String.toList

/-- `_splitparams(url)[0]`: the last segment loses what follows its first `;`. -/
def dropParams (url : List Char) : List Char :=
  url.rdropWhile (· != '/') ++ upTo ';' (pastLast '/' url)

/-- `urlparse(url).path`. -/
def path (U : Unicode) (url : List Char) : Except ValueError (List Char) :=
  (netloc U url).map fun n =>
    let rest := dropScheme (clean url)
    let afterNetloc := if ['/', '/'] <+: rest then rest.drop (2 + n.length) else rest
    let p := upTo '?' (upTo '#' afterNetloc)
    if usesParams.contains (scheme (clean url)) ∧ ';' ∈ p then dropParams p else p

/-! ## No line feed in a host -/

theorem newline_not_mem_clean (url : List Char) : '\n' ∉ clean url := by
  intro h
  have := (List.mem_filter.mp h).2
  simp at this

theorem mem_of_mem_clean {url : List Char} {c : Char} (h : c ∈ clean url) : c ∈ url :=
  (List.dropWhile_suffix _).subset (List.mem_of_mem_filter h)

theorem mem_of_mem_dropScheme {url : List Char} {c : Char} (h : c ∈ dropScheme url) :
    c ∈ url := by
  unfold dropScheme at h
  split at h
  · exact mem_of_mem_past h
  · exact h

theorem mem_of_mem_splitNetloc {url : List Char} {c : Char} (h : c ∈ splitNetloc url) :
    c ∈ url := by
  unfold splitNetloc at h
  split at h
  · exact List.mem_of_mem_drop ((List.takeWhile_prefix _).subset h)
  · cases h

theorem slash_not_mem_splitNetloc (url : List Char) : '/' ∉ splitNetloc url := by
  unfold splitNetloc
  split
  · intro h
    have := List.mem_takeWhile_imp h
    simp at this
  · simp

theorem mem_of_mem_hostInfo {netloc : List Char} {c : Char} (h : c ∈ hostInfo netloc) :
    c ∈ netloc := by
  unfold hostInfo at h
  split at h
  · exact mem_of_mem_pastLast (mem_of_mem_past (mem_of_mem_upTo h))
  · exact mem_of_mem_pastLast (mem_of_mem_upTo h)

theorem newline_not_mem_lowerHost {U : Unicode} {host : List Char} (h : '\n' ∉ host) :
    '\n' ∉ lowerHost U host := by
  unfold lowerHost
  split
  · intro hm
    rw [List.mem_append, List.mem_cons] at hm
    rcases hm with hm | hm | hm
    · -- lower-casing could only have kept it
      exact h (mem_of_mem_upTo (U.lower_newline _ hm))
    · exact absurd hm (by decide)
    · exact h (mem_of_mem_past hm)
  · exact fun hm => h (U.lower_newline _ hm)

/-- The checks of `urlsplit` change nothing. -/
theorem netloc_eq {U : Unicode} {url n : List Char} (h : netloc U url = .ok n) :
    n = splitNetloc (dropScheme (clean url)) := by
  have hok {x : Except ValueError Unit} {m : List Char}
      (hx : (do x; return m) = Except.ok n) : n = m := by
    cases x with
    | error e => cases hx
    | ok u => cases hx; rfl
  unfold netloc at h
  dsimp only at h
  split at h
  · cases h
  · split at h
    · cases hb : checkBracketedHost (upTo ']' (past '[' (splitNetloc (dropScheme (clean url)))))
      · rw [hb] at h
        cases h
      · rw [hb] at h
        exact hok h
    · exact hok h

/-- `urlsplit` drops the line feeds of a URL, so its host has none. -/
theorem newline_not_mem_hostname {U : Unicode} {url host : List Char}
    (h : hostname U url = .ok host) : '\n' ∉ host := by
  cases hn : netloc U url with
  | error e =>
    rw [hostname, hn] at h
    cases h
  | ok n =>
    rw [hostname, hn] at h
    cases h
    refine newline_not_mem_lowerHost fun hm => ?_
    have hm := mem_of_mem_hostInfo hm
    rw [netloc_eq hn] at hm
    exact newline_not_mem_clean url (mem_of_mem_dropScheme (mem_of_mem_splitNetloc hm))

end Url
end LeadPulse
