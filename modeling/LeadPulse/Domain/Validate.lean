import LeadPulse.Lib.Regex
import LeadPulse.Domain.UrlParse

/-!
# Normalising and validating a domain

`normalize_domain` and `validate_public_domain` of `services/deduplication.py`, over the
characters of a string, with `_DOMAIN_RE` as a regular expression.

`IsDomain` says what the expression matches in terms of the labels between the dots;
`mem_domainRe` is the equivalence, and it makes the validator executable.
-/

namespace LeadPulse
namespace Domain

open Regex PyStr IpAddress

/-! ## `_DOMAIN_RE` -/

/-- `[a-z]` -/
def lowerAlpha : List Char := "abcdefghijklmnopqrstuvwxyz".toList

/-- `[a-z0-9]` -/
def alnum : List Char := lowerAlpha ++ "0123456789".toList

/-- `[a-z0-9-]` -/
def alnumDash : List Char := alnum ++ ['-']

/-- `[a-z0-9](?:[a-z0-9-]{0,61}[a-z0-9])?` -/
def labelRe : RegularExpression Char :=
  oneOf alnum * opt (atMost (oneOf alnumDash) 61 * oneOf alnum)

/-- `_DOMAIN_RE` between its anchors: `(?:<label>\.)+[a-z]{2,}`. -/
def domainRe : RegularExpression Char :=
  oneOrMore (labelRe * .char '.') * atLeast (oneOf lowerAlpha) 2

/-- A label of a host name, as `labelRe` has it. -/
structure IsLabel (l : List Char) : Prop where
  chars : ∀ c ∈ l, c ∈ alnumDash
  short : l.length ≤ 63
  head : ∃ c ∈ l.head?, c ∈ alnum
  last : ∃ c ∈ l.getLast?, c ∈ alnum

/-- A top-level domain. -/
structure IsTld (t : List Char) : Prop where
  long : 2 ≤ t.length
  chars : ∀ c ∈ t, c ∈ lowerAlpha

/-- A host name: labels and a top-level domain, with dots between them. -/
structure IsDomain (s : List Char) : Prop where
  labels : ∀ l ∈ (s.splitOn '.').dropLast, IsLabel l
  dot : 2 ≤ (s.splitOn '.').length
  tld : ∃ t ∈ (s.splitOn '.').getLast?, IsTld t

instance (l : List Char) : Decidable (IsLabel l) :=
  decidable_of_iff (l.all (· ∈ alnumDash) = true ∧ l.length ≤ 63 ∧
      l.head?.any (· ∈ alnum) = true ∧ l.getLast?.any (· ∈ alnum) = true) <| by
    simp only [List.all_eq_true, Option.any_eq_true, decide_eq_true_eq]
    exact ⟨fun h => ⟨h.1, h.2.1, h.2.2.1, h.2.2.2⟩, fun h => ⟨h.chars, h.short, h.head, h.last⟩⟩

instance (t : List Char) : Decidable (IsTld t) :=
  decidable_of_iff (2 ≤ t.length ∧ t.all (· ∈ lowerAlpha) = true) <| by
    simp only [List.all_eq_true, decide_eq_true_eq]
    exact ⟨fun h => ⟨h.1, h.2⟩, fun h => ⟨h.long, h.chars⟩⟩

instance (s : List Char) : Decidable (IsDomain s) :=
  decidable_of_iff ((s.splitOn '.').dropLast.all (IsLabel ·) = true ∧
      2 ≤ (s.splitOn '.').length ∧ (s.splitOn '.').getLast?.any (IsTld ·) = true) <| by
    simp only [List.all_eq_true, Option.any_eq_true, decide_eq_true_eq]
    exact ⟨fun h => ⟨h.1, h.2.1, h.2.2⟩, fun h => ⟨h.labels, h.dot, h.tld⟩⟩

theorem mem_alnumDash_of_alnum {c : Char} (h : c ∈ alnum) : c ∈ alnumDash :=
  List.mem_append_left _ h

theorem mem_alnum_of_lowerAlpha {c : Char} (h : c ∈ lowerAlpha) : c ∈ alnum :=
  List.mem_append_left _ h

theorem mem_labelRe {w : List Char} : w ∈ labelRe.matches' ↔ IsLabel w := by
  rw [labelRe, mem_oneOf_mul]
  constructor
  · rintro ⟨c, hc, v, hv, rfl⟩
    rcases mem_opt.mp hv with rfl | hv
    · -- a label of one character
      exact ⟨by simpa using mem_alnumDash_of_alnum hc, by simp, ⟨c, by simp, hc⟩, ⟨c, by simp, hc⟩⟩
    · -- the first and the last character are letters or digits
      obtain ⟨m, hm, e, he, rfl⟩ := mem_mul.mp hv
      obtain ⟨d, hd, rfl⟩ := mem_oneOf.mp he
      obtain ⟨hlen, hall⟩ := mem_atMost_oneOf.mp hm
      refine ⟨fun x hx => ?_, ?_, ⟨c, by simp, hc⟩, ⟨d, by simp [List.getLast?_cons], hd⟩⟩
      · simp only [List.mem_cons, List.mem_append, List.not_mem_nil, or_false] at hx
        rcases hx with rfl | hx | rfl
        · exact mem_alnumDash_of_alnum hc
        · exact hall x hx
        · exact mem_alnumDash_of_alnum hd
      · simp only [List.length_cons, List.length_append, List.length_nil]
        omega
  · rintro ⟨hchars, hshort, ⟨c, hc, hca⟩, ⟨d, hd, hda⟩⟩
    cases w with
    | nil => simp at hc
    | cons x v =>
      obtain rfl : x = c := by simpa using hc
      refine ⟨x, hca, v, mem_opt.mpr ?_, rfl⟩
      rcases List.eq_nil_or_concat' v with rfl | ⟨m, e, rfl⟩
      · exact Or.inl rfl
      · have hde : e = d := by simpa [List.getLast?_cons] using hd
        right
        refine mem_mul.mpr ⟨m, mem_atMost_oneOf.mpr ⟨?_, fun y hy => ?_⟩, [e],
          mem_oneOf.mpr ⟨e, hde ▸ hda, rfl⟩, rfl⟩
        · simp only [List.length_cons, List.length_append, List.length_nil] at hshort
          omega
        · exact hchars y (by simp [hy])

theorem IsLabel.dot_not_mem {l : List Char} (h : IsLabel l) : '.' ∉ l :=
  fun hd => absurd (h.chars _ hd) (by decide)

theorem IsTld.dot_not_mem {t : List Char} (h : IsTld t) : '.' ∉ t :=
  fun hd => absurd (h.chars _ hd) (by decide)

/-- The parts of labels and a top-level domain that are joined with dots. -/
theorem splitOn_labels {ls : List (List Char)} {t : List Char} (hls : ∀ l ∈ ls, IsLabel l)
    (ht : IsTld t) : ((ls.map fun l => l ++ ['.']).flatten ++ t).splitOn '.' = ls ++ [t] := by
  rw [← intercalate_concat]
  refine List.splitOn_intercalate '.' (fun l hl => ?_) (by simp)
  rcases List.mem_append.mp hl with hl | hl
  · exact (hls l hl).dot_not_mem
  · obtain rfl : l = t := by simpa using hl
    exact ht.dot_not_mem

/-- What `_DOMAIN_RE` matches. -/
theorem mem_domainRe {s : List Char} : s ∈ domainRe.matches' ↔ IsDomain s := by
  rw [domainRe, mem_mul]
  constructor
  · rintro ⟨a, ha, t, ht, rfl⟩
    have ht : IsTld t := ⟨(mem_atLeast_oneOf.mp ht).1, (mem_atLeast_oneOf.mp ht).2⟩
    obtain ⟨ws, hne, rfl, hws⟩ := mem_oneOrMore.mp ha
    -- every turn of the `+` is a label and its dot
    have hform (w : List Char) (hw : w ∈ ws) : ∃ l, IsLabel l ∧ l ++ ['.'] = w := by
      obtain ⟨l, hl, d, hd, rfl⟩ := mem_mul.mp (hws w hw)
      obtain rfl : d = ['.'] := hd
      exact ⟨l, mem_labelRe.mp hl, rfl⟩
    obtain ⟨ls, hls, rfl⟩ : ∃ ls : List (List Char),
        (∀ l ∈ ls, IsLabel l) ∧ ls.map (fun l => l ++ ['.']) = ws := by
      choose! f hf using hform  -- `f` takes the dot off
      refine ⟨ws.map f, fun l hl => ?_, ?_⟩
      · obtain ⟨w, hw, rfl⟩ := List.mem_map.mp hl
        exact (hf w hw).1
      · rw [List.map_map]
        exact (List.map_congr_left fun w hw => (hf w hw).2).trans (List.map_id ws)
    have hsplit := splitOn_labels hls ht
    have hlen : ls ≠ [] := fun h => hne (by simp [h])
    refine ⟨by rw [hsplit]; simpa using hls, ?_, ⟨t, by rw [hsplit]; simp, ht⟩⟩
    rw [hsplit, List.length_append, List.length_singleton]
    have := List.length_pos_iff.mpr hlen
    omega
  · -- conversely, the parts but the last one are the turns
    rintro ⟨hlabels, hdot, t, ht, htld⟩
    have hsplit : s.splitOn '.' = (s.splitOn '.').dropLast ++ [t] :=
      (List.dropLast_append_getLast? t ht).symm
    have hs : s = ((s.splitOn '.').dropLast.map fun l => l ++ ['.']).flatten ++ t := by
      rw [← intercalate_concat, ← hsplit, List.intercalate_splitOn]
    refine ⟨_, mem_oneOrMore.mpr ⟨_, ?_, rfl, fun w hw => ?_⟩, t,
      mem_atLeast_oneOf.mpr ⟨htld.long, htld.chars⟩, hs.symm⟩
    · rw [Ne, List.map_eq_nil_iff, ← List.length_eq_zero_iff, List.length_dropLast]
      omega
    · obtain ⟨l, hl, rfl⟩ := List.mem_map.mp hw
      exact mem_mul.mpr ⟨l, mem_labelRe.mpr (hlabels l hl), ['.'], rfl, rfl⟩

instance (s : List Char) : Decidable (FullMatch domainRe s) :=
  decidable_of_iff (IsDomain s ∨ (s.getLast? = some '\n' ∧ IsDomain s.dropLast)) <| by
    unfold FullMatch
    rw [mem_domainRe]
    refine or_congr_right ⟨fun h => ?_, fun h => ?_⟩
    · exact ⟨s.dropLast, mem_domainRe.mpr h.2, (List.dropLast_append_getLast? _ h.1).symm⟩
    · obtain ⟨t, ht, rfl⟩ := h
      exact ⟨by simp, by simpa using mem_domainRe.mp ht⟩

/-! ## `normalize_domain` -/

/-- The last lines of `normalize_domain`: no `www.` in front, no slashes and no dots at
the end. -/
def trimHost (host : List Char) : List Char :=
  rstripChar '.' (rstripChar '/' (stripPrefix "www.".toList host))

def normalizeDomain (U : Unicode) (raw : List Char) : Except ValueError (List Char) :=
  let value := U.lower (strip raw)
  if "://".toList <:+: value then
    (Url.hostname U value).map fun host => trimHost (if host = [] then value else host)
  else .ok (trimHost (upTo '/' value))

/-! ## `validate_public_domain` -/

/-- The answers of `validate_public_domain`. -/
inductive DomainError where
  | empty
  | ipAddress (addr : IpAddress)
  | internal (normalized : List Char)
  | format (normalized : List Char)
deriving DecidableEq, Repr

def DomainError.message : DomainError → String
  | empty => "Domain is empty"
  | ipAddress addr => "IP addresses are not allowed as domains: " ++ String.ofList addr.toText
  | internal normalized =>
    "Internal/reserved domain not allowed: " ++ String.ofList normalized
  | format normalized => "Invalid domain format: " ++ String.ofList normalized

def blocked : List (List Char) :=
  ["localhost", "127.0.0.1", "0.0.0.0", "metadata.google.internal"].map String.toList

/-- What `validate_public_domain` says of the normal form of a domain. -/
def checkNormalized (normalized : List Char) : Option DomainError :=
  if normalized = [] then some .empty
  else match ipAddress normalized with
  | some addr => some (.ipAddress addr)
  | none =>
    if normalized ∈ blocked ∨ ".local".toList <:+ normalized ∨ ".internal".toList <:+ normalized
    then some (.internal normalized)
    else if FullMatch domainRe normalized then none
    else some (.format normalized)

def validatePublicDomain (U : Unicode) (domain : List Char) :
    Except ValueError (Option DomainError) :=
  (normalizeDomain U domain).map checkNormalized

/-- `validate_public_domain` returns `None`. -/
def Accepts (U : Unicode) (domain : List Char) : Prop := validatePublicDomain U domain = .ok none

instance (U : Unicode) (domain : List Char) : Decidable (Accepts U domain) :=
  inferInstanceAs (Decidable (validatePublicDomain U domain = .ok none))

theorem accepts_iff {U : Unicode} {domain : List Char} :
    Accepts U domain ↔ ∃ v, normalizeDomain U domain = .ok v ∧ checkNormalized v = none := by
  unfold Accepts validatePublicDomain
  cases normalizeDomain U domain with
  | error e => simp [Except.map]
  | ok v => simp [Except.map]

theorem checkNormalized_eq_none {v : List Char} :
    checkNormalized v = none ↔ v ≠ [] ∧ ipAddress v = none ∧ v ∉ blocked ∧
      ¬ ".local".toList <:+ v ∧ ¬ ".internal".toList <:+ v ∧ FullMatch domainRe v := by
  unfold checkNormalized
  split
  · simp_all
  · rename_i hne
    cases hip : ipAddress v with
    | some addr => simp
    | none =>
      dsimp only
      split
      · rename_i hb
        simp only [reduceCtorEq, ne_eq, false_iff]
        rintro ⟨-, -, h1, h2, h3, -⟩
        rcases hb with hb | hb | hb
        · exact h1 hb
        · exact h2 hb
        · exact h3 hb
      · rename_i hb
        rw [not_or, not_or] at hb
        obtain ⟨hblocked, hlocal, hinternal⟩ := hb
        split
        · rename_i hmatch
          exact ⟨fun _ => ⟨hne, rfl, hblocked, hlocal, hinternal, hmatch⟩, fun _ => rfl⟩
        · rename_i hmatch
          exact ⟨fun h => (by cases h), fun h => absurd h.2.2.2.2.2 hmatch⟩

end Domain
end LeadPulse
