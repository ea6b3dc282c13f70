import LeadPulse.Lib.PyStr
import Mathlib.Algebra.Group.Nat.Defs

/-!
# IP literals

`ipaddress.ip_address` on strings, as CPython has it: which strings are IPv4 or IPv6
addresses, and how an address is written out again.
-/

namespace LeadPulse

open PyStr

/-- An IP address; an IPv6 address may have a scope id. -/
inductive IpAddress where
  | v4 (ip : ℕ)
  | v6 (ip : ℕ) (scopeId : Option (List Char))
deriving DecidableEq, Repr

namespace IpAddress

/-! ## IPv4 -/

/-- The number that a string of digits stands for. -/
def digitsValue (base : ℕ) (s : List Char) : ℕ := s.foldl (fun n c => n * base + digit c) 0
where
  digit (c : Char) : ℕ :=
    if c.isDigit then c.toNat - '0'.toNat else c.toLower.toNat - 'a'.toNat + 10

def parseOctet (s : List Char) : Option ℕ :=
  if s = [] ∨ s.all Char.isDigit = false ∨ 3 < s.length ∨ (s ≠ ['0'] ∧ s.head? = some '0') then
    none
  else if 255 < digitsValue 10 s then none
  else some (digitsValue 10 s)

/-- `IPv4Address._ip_int_from_string`. -/
def ipv4 (s : List Char) : Option ℕ :=
  match (s.splitOn '.').mapM parseOctet with
  | some [a, b, c, d] => some (((a * 256 + b) * 256 + c) * 256 + d)
  | _ => none

/-! ## IPv6 -/

/-- `_split_scope_id`: the address before the `%` and the scope id after it. -/
def splitScopeId (s : List Char) : Option (List Char × Option (List Char)) :=
  if '%' ∈ s then
    if past '%' s = [] ∨ '%' ∈ past '%' s then none
    else some (upTo '%' s, some (past '%' s))
  else some (s, none)

def isHexDigit (c : Char) : Bool := c.isDigit || ('a' ≤ c.toLower && c.toLower ≤ 'f')

def parseHextet (s : List Char) : Option ℕ :=
  if s ≠ [] ∧ s.all isHexDigit = true ∧ s.length ≤ 4 then some (digitsValue 16 s) else none

/-- An IPv4 address in the last part becomes two hextets. -/
def expandIpv4Suffix (parts : List (List Char)) : Option (List (List Char)) :=
  match parts.getLast? with
  | some p =>
    if '.' ∈ p then
      (ipv4 p).map fun n =>
        parts.dropLast ++ [Nat.toDigits 16 (n / 65536), Nat.toDigits 16 (n % 65536)]
    else some parts
  | none => some parts

def joinHextets (hextets : List ℕ) : ℕ := hextets.foldl (fun n h => n * 65536 + h) 0

/-- The hextets of an address whose parts leave out a run of zeros at index `skip`. -/
def skippedHextets (parts : List (List Char)) (skip : ℕ) : Option (List ℕ) :=
  let first := parts.head? = some []
  let last := parts.getLast? = some []
  let hi := if first then skip - 1 else skip
  let lo := if last then parts.length - skip - 2 else parts.length - skip - 1
  if (first ∧ hi ≠ 0) ∨ (last ∧ lo ≠ 0) ∨ 8 < hi + lo + 1 then none
  else do
    let above ← (parts.take hi).mapM parseHextet
    let below ← (parts.drop (parts.length - lo)).mapM parseHextet
    return above ++ List.replicate (8 - (hi + lo)) 0 ++ below

/-- `IPv6Address._ip_int_from_string`. -/
def ipv6 (s : List Char) : Option ℕ := do
  let parts := s.splitOn ':'
  if parts.length < 3 then none
  -- an address has at least two colons, and at most eight once the suffix is expanded
  let parts ← expandIpv4Suffix parts
  if 9 < parts.length then none
  let inner := (List.range parts.length).filter fun i =>
    1 ≤ i ∧ i + 1 < parts.length ∧ parts[i]? = some []
  match inner with
  | [] =>
    -- no `::`, so all eight hextets are there
    if parts.length = 8 ∧ parts.head? ≠ some [] ∧ parts.getLast? ≠ some [] then
      (parts.mapM parseHextet).map joinHextets
    else none
  | [skip] => (skippedHextets parts skip).map joinHextets
  | _ => none

/-! ## Both -/

/-- `ipaddress.ip_address`, with `none` for the `ValueError`. -/
def ipAddress (s : List Char) : Option IpAddress :=
  match ipv4 s with
  | some ip => some (.v4 ip)
  | none =>
    if '/' ∈ s then none
    else (splitScopeId s).bind fun p => (ipv6 p.1).map fun ip => .v6 ip p.2

/-- The longest run of `"0"`, the first one if there are several: its start and its length. -/
def longestZeros : List (List Char) → (index : ℕ) → (run best : ℕ × ℕ) → ℕ × ℕ
  | [], _, _, best => best
  | h :: hs, index, run, best =>
    if h = ['0'] then
      let run := if run.2 = 0 then (index, 1) else (run.1, run.2 + 1)
      longestZeros hs (index + 1) run (if best.2 < run.2 then run else best)
    else longestZeros hs (index + 1) (0, 0) best

/-- `_compress_hextets`: the longest run of zeros gives way to an empty part. -/
def compressHextets (hextets : List (List Char)) : List (List Char) :=
  let (start, len) := longestZeros hextets 0 (0, 0) (0, 0)
  if 1 < len then
    (if start = 0 then [[]] else []) ++ hextets.take start ++ [[]] ++
      hextets.drop (start + len) ++ (if start + len = hextets.length then [[]] else [])
  else hextets

/-- `str(addr)`. -/
def toText : IpAddress → List Char
  | v4 ip =>
    ['.'].intercalate <| [24, 16, 8, 0].map fun k => Nat.toDigits 10 (ip / 2 ^ k % 256)
  | v6 ip scopeId =>
    let hextets := [112, 96, 80, 64, 48, 32, 16, 0].map fun k =>
      Nat.toDigits 16 (ip / 2 ^ k % 65536)
    let text := [':'].intercalate (compressHextets hextets)
    match scopeId with
    | some scope => text ++ '%' :: scope
    | none => text

example : (ipAddress "169.254.169.254".toList).map toText = some "169.254.169.254".toList := by
  decide +kernel

example : (ipAddress "fe80:0::0:1%eth0".toList).map toText = some "fe80::1%eth0".toList := by
  decide +kernel

/-! ## What an address is made of -/

theorem isDigit_of_parseOctet {s : List Char} {n : ℕ} (h : parseOctet s = some n) :
    ∀ c ∈ s, c.isDigit = true := by
  unfold parseOctet at h
  split at h
  · cases h
  · rename_i hn
    have hall : s.all Char.isDigit ≠ false := fun hf => hn (Or.inr (Or.inl hf))
    simpa using hall

theorem mapM_parseOctet {parts : List (List Char)} {ns : List ℕ}
    (h : parts.mapM parseOctet = some ns) : ∀ p ∈ parts, ∀ c ∈ p, c.isDigit = true := by
  induction parts generalizing ns with
  | nil => simp
  | cons p ps ih =>
    simp only [List.mapM_cons, Option.bind_eq_bind, Option.bind_eq_some_iff] at h
    obtain ⟨n, hn, ns', hns', _⟩ := h
    intro q hq
    rcases List.mem_cons.mp hq with rfl | hq
    · exact isDigit_of_parseOctet hn
    · exact ih hns' q hq

/-- An IPv4 address has digits and dots only. -/
theorem chars_of_ipv4 {s : List Char} {n : ℕ} (h : ipv4 s = some n) :
    ∀ c ∈ s, c = '.' ∨ c.isDigit = true := by
  intro c hc
  unfold ipv4 at h
  split at h
  · rename_i hm
    rcases eq_or_mem_splitOn '.' hc with rfl | ⟨p, hp, hcp⟩
    · exact Or.inl rfl
    · exact Or.inr (mapM_parseOctet hm p hp c hcp)
  · cases h

/-- An IPv6 address has a colon. -/
theorem colon_mem_of_ipv6 {s : List Char} {n : ℕ} (h : ipv6 s = some n) : ':' ∈ s := by
  by_contra hn
  have hone : s.splitOn ':' = [s] := List.splitOn_eq_singleton hn
  simp [ipv6, hone] at h

theorem mem_of_splitScopeId {s : List Char} {p : List Char × Option (List Char)}
    (h : splitScopeId s = some p) {c : Char} (hc : c ∈ p.1) : c ∈ s := by
  unfold splitScopeId at h
  split at h
  · split at h
    · cases h
    · cases h
      exact mem_of_mem_upTo hc
  · cases h
    exact hc

/-- A string with neither colons nor digits and dots only is no IP address. -/
theorem ipAddress_eq_none {s : List Char} (hcolon : ':' ∉ s)
    (hother : ∃ c ∈ s, c ≠ '.' ∧ c.isDigit = false) : ipAddress s = none := by
  have h4 : ipv4 s = none := by
    by_contra hne
    obtain ⟨n, hn⟩ := Option.ne_none_iff_exists'.mp hne
    obtain ⟨c, hc, hdot, hdigit⟩ := hother
    rcases chars_of_ipv4 hn c hc with h | h
    · exact hdot h
    · simp [hdigit] at h
  have h6 (p : List Char × Option (List Char)) (hp : splitScopeId s = some p) :
      ipv6 p.1 = none := by
    by_contra hne
    obtain ⟨n, hn⟩ := Option.ne_none_iff_exists'.mp hne
    exact hcolon (mem_of_splitScopeId hp (colon_mem_of_ipv6 hn))
  unfold ipAddress
  rw [h4]
  dsimp only
  split
  · rfl
  · cases hs : splitScopeId s with
    | none => rfl
    | some p => simp [h6 p hs]

end IpAddress
end LeadPulse
