import LeadPulse.Domain.Idempotent
import LeadPulse.Domain.WritersTheorems

/-!
# The pages of a company

`url_matches_domain` and the first filter of `select_intel_urls`
(`services/intel_target_urls.py`), by which `monitor_company` picks the pages of a site that
belong to the stored domain. A leading `www.` is taken off the host of the URL, and not off the
domain: `pagesMatch_iff` says that a company loses its pages exactly if its domain was entered
with two of them.
-/

namespace LeadPulse
namespace Domain

open PyStr Regex

/-- `_normalize_host`, `[]` for `None`. -/
def normalizeHost (U : Unicode) (hostname : List Char) : List Char :=
  if hostname = [] then [] else stripPrefix "www.".toList (U.lower hostname)

def urlMatchesDomain (U : Unicode) (url domain : List Char) : Except ValueError Bool :=
  (Url.hostname U url).map fun hostname =>
    let host := normalizeHost U hostname
    host ≠ [] ∧ host = strip (U.lower domain)

/-- The link is one that `select_intel_urls` counts as `out_of_domain`. -/
def outOfDomain (U : Unicode) (domain link : List Char) : Except ValueError Bool :=
  if strip link = [] then .ok false
  else (urlMatchesDomain U (strip link) (strip (U.lower domain))).map (! ·)

/-- The path of a page. -/
def IsPath (p : List Char) : Prop := p = [] ∨ ∃ q, p = '/' :: q

/-- The pages of `d`, with `www.` and without, match the domain. -/
def OwnPagesMatch (U : Unicode) (d : List Char) : Prop :=
  ∀ p, IsPath p → urlMatchesDomain U ("https://".toList ++ (d ++ p)) d = .ok true ∧
    urlMatchesDomain U ("https://www.".toList ++ (d ++ p)) d = .ok true

/-- If the validator accepts `raw`, then the domain stored for it matches its own pages. -/
def PagesMatch (U : Unicode) (raw : List Char) : Prop :=
  Accepts U raw → ∀ d, normalizeDomain U raw = .ok d → OwnPagesMatch U d

/-- The host that is entered starts with `www.` twice. -/
def DoubleWww (U : Unicode) (raw : List Char) : Prop :=
  ∃ h, hostText U (U.lower (strip raw)) = .ok h ∧ "www.www.".toList <+: h

/-! ## The host of a page -/

section

variable {U : Unicode} {s d p : List Char}

/-- Characters of host names only. -/
def Plain (s : List Char) : Prop := ∀ c ∈ s, c ∈ alnumDash ∨ c = '.'

theorem Plain.not_mem (h : Plain s) {c : Char} (hc : ¬ (c ∈ alnumDash ∨ c = '.')) : c ∉ s :=
  fun hm => hc (h c hm)

theorem Plain.lower (h : Plain s) : U.lower s = s :=
  U.lower_ascii s fun c hc => (plain_of_mem (h c hc)).1

/-- What `urlsplit` takes out of a URL. -/
def dropBreaks (s : List Char) : List Char := s.filter fun c => c ∉ ['\t', '\r', '\n']

theorem Plain.dropBreaks (h : Plain s) : dropBreaks s = s := by
  unfold Domain.dropBreaks
  rw [List.filter_eq_self]
  intro c hc
  have hne : c ≠ '\t' ∧ c ≠ '\r' ∧ c ≠ '\n' := by
    refine ⟨?_, ?_, ?_⟩
    · rintro rfl
      exact h.not_mem (by decide) hc
    · rintro rfl
      exact h.not_mem (by decide) hc
    · rintro rfl
      exact h.not_mem (by decide) hc
  simp [hne]

theorem IsPath.dropBreaks (hp : IsPath p) : IsPath (dropBreaks p) := by
  rcases hp with rfl | ⟨q, rfl⟩
  · exact Or.inl rfl
  · exact Or.inr ⟨Domain.dropBreaks q, rfl⟩

theorem clean_https (x : List Char) :
    Url.clean ("https://".toList ++ x) = "https://".toList ++ dropBreaks x := rfl

theorem dropScheme_https (x : List Char) :
    Url.dropScheme ("https://".toList ++ x) = '/' :: '/' :: x := by
  have hcolon : ':' ∈ "https://".toList ++ x := List.mem_append_left _ (by decide)
  have hscheme : upTo ':' ("https://".toList ++ x) = "https".toList := rfl
  unfold Url.dropScheme
  rw [if_pos ⟨hcolon, by rfl, by rw [hscheme]; decide⟩]
  rfl

theorem splitNetloc_slashes (hs : Plain s) (hp : IsPath p) :
    Url.splitNetloc ('/' :: '/' :: (s ++ p)) = s := by
  have hall : ∀ c ∈ s, decide (c ∉ ['/', '?', '#']) = true := by
    intro c hc
    have hne : c ≠ '/' ∧ c ≠ '?' ∧ c ≠ '#' := by
      refine ⟨?_, ?_, ?_⟩
      · rintro rfl
        exact hs.not_mem (by decide) hc
      · rintro rfl
        exact hs.not_mem (by decide) hc
      · rintro rfl
        exact hs.not_mem (by decide) hc
    simp [hne]
  have hprefix : ['/', '/'] <+: '/' :: '/' :: (s ++ p) := ⟨s ++ p, rfl⟩
  unfold Url.splitNetloc
  rw [if_pos hprefix]
  show (s ++ p).takeWhile _ = s
  rw [List.takeWhile_append_of_pos hall]
  rcases hp with rfl | ⟨q, rfl⟩
  · simp
  · simp

/-- A host name passes the checks of `urlsplit`. -/
theorem checkNetloc_plain (hs : Plain s) : Url.checkNetloc U s = .ok () := by
  have hascii : s.all (fun c => decide (c.toNat < 128)) = true := by
    rw [List.all_eq_true]
    intro c hc
    exact decide_eq_true (plain_of_mem (hs c hc)).1.1
  unfold Url.checkNetloc
  dsimp only
  rw [if_pos (Or.inl hascii)]

theorem netloc_https (hd : Plain (dropBreaks d)) (hp : IsPath p) :
    Url.netloc U ("https://".toList ++ (d ++ p)) = .ok (dropBreaks d) := by
  have hsplit : Url.splitNetloc (Url.dropScheme (Url.clean ("https://".toList ++ (d ++ p)))) =
      dropBreaks d := by
    rw [clean_https, dropScheme_https]
    have happend : dropBreaks (d ++ p) = dropBreaks d ++ dropBreaks p := List.filter_append ..
    rw [happend]
    exact splitNetloc_slashes hd hp.dropBreaks
  have hopen : '[' ∉ dropBreaks d := hd.not_mem (by decide)
  have hclose : ']' ∉ dropBreaks d := hd.not_mem (by decide)
  unfold Url.netloc
  rw [hsplit]
  simp only [hopen, hclose, checkNetloc_plain hd]
  rfl

/-- The host of a page is the host name that has been put in. -/
theorem hostname_https (hd : Plain (dropBreaks d)) (hp : IsPath p) :
    Url.hostname U ("https://".toList ++ (d ++ p)) = .ok (dropBreaks d) := by
  have hat : pastLast '@' (dropBreaks d) = dropBreaks d := by
    unfold pastLast
    rw [List.rtakeWhile_eq_self_iff]
    intro c hc
    have hne : c ≠ '@' := by
      rintro rfl
      exact hd.not_mem (by decide) hc
    simpa using hne
  have hinfo : Url.hostInfo (dropBreaks d) = dropBreaks d := by
    unfold Url.hostInfo
    rw [hat, if_neg (hd.not_mem (by decide)), upTo_of_not_mem (hd.not_mem (by decide))]
  have hlower : Url.lowerHost U (dropBreaks d) = dropBreaks d := by
    unfold Url.lowerHost
    rw [if_neg (hd.not_mem (by decide)), hd.lower]
  unfold Url.hostname
  rw [netloc_https hd hp]
  show Except.ok (Url.lowerHost U (Url.hostInfo (dropBreaks d))) = _
  rw [hinfo, hlower]

/-! ## The domain and its pages -/

/-- What an accepted domain is stored as. -/
theorem accepts_stored {raw v : List Char} (h : Accepts U raw)
    (hv : normalizeDomain U raw = .ok v) : ∃ s, IsDomain s ∧ (v = s ∨ v = s ++ ['\n']) := by
  obtain ⟨v', hv', hcheck⟩ := accepts_iff.mp h
  obtain rfl : v = v' := Except.ok.inj (hv.symm.trans hv')
  obtain ⟨-, -, -, -, -, hmatch⟩ := checkNormalized_eq_none.mp hcheck
  rcases hmatch with hmatch | ⟨s, hs, rfl⟩
  · exact ⟨v, mem_domainRe.mp hmatch, Or.inl rfl⟩
  · exact ⟨s, mem_domainRe.mp hs, Or.inr rfl⟩

/-- With a line feed or not, the stored domain stands for the host name. -/
theorem stored_eq (hs : IsDomain s) (hd : d = s ∨ d = s ++ ['\n']) :
    dropBreaks d = s ∧ strip (U.lower d) = s := by
  have hplain : Plain s := hs.chars
  rcases hd with rfl | rfl
  · exact ⟨hplain.dropBreaks, by rw [hplain.lower, hs.strip_eq]⟩
  · constructor
    · show (s ++ ['\n']).filter _ = s
      rw [List.filter_append]
      exact (congrArg (· ++ _) hplain.dropBreaks).trans (List.append_nil s)
    · rw [U.lower_ascii, hs.strip_newline]
      intro c hc
      rcases List.mem_append.mp hc with hc | hc
      · exact (plain_of_mem (hs.chars c hc)).1
      · rw [List.mem_singleton.mp hc]
        decide

theorem normalizeHost_of_ne_nil (h : s ≠ []) (hs : Plain s) :
    normalizeHost U s = stripPrefix "www.".toList s := by
  unfold normalizeHost
  rw [if_neg h, hs.lower]

/-- A URL matches if its host, without `www.`, is the domain. -/
theorem urlMatchesDomain_of_hostname {url host : List Char} (hhost : Url.hostname U url = .ok host)
    (hne : host ≠ []) (hplain : Plain host) (hd : strip (U.lower d) = s) :
    urlMatchesDomain U url d =
      .ok (decide (stripPrefix "www.".toList host ≠ [] ∧ stripPrefix "www.".toList host = s)) := by
  unfold urlMatchesDomain
  rw [hhost, hd, Except.map, normalizeHost_of_ne_nil hne hplain]

/-- The URL with `www.` matches in any case, the one without it if the domain does not start with
`www.`. -/
theorem ownPagesMatch_iff (hs : IsDomain s) (hd : d = s ∨ d = s ++ ['\n']) :
    OwnPagesMatch U d ↔ ¬ "www.".toList <+: s := by
  obtain ⟨hdrop, hstrip⟩ := stored_eq (U := U) hs hd
  have hplain : Plain s := hs.chars
  have hwww : Plain ("www.".toList ++ s) := by
    intro c hc
    rcases List.mem_append.mp hc with hc | hc
    · have hc : c = 'w' ∨ c = '.' := by simpa using hc
      rcases hc with rfl | rfl
      · exact Or.inl (by decide)
      · exact Or.inr rfl
    · exact hplain c hc
  have hdrop' : dropBreaks ("www.".toList ++ d) = "www.".toList ++ s := by
    show "www.".toList ++ dropBreaks d = _
    rw [hdrop]
  -- the two URLs of a page
  have hpage (p : List Char) (hp : IsPath p) :
      urlMatchesDomain U ("https://".toList ++ (d ++ p)) d =
        .ok (decide (stripPrefix "www.".toList s ≠ [] ∧ stripPrefix "www.".toList s = s)) := by
    refine urlMatchesDomain_of_hostname ?_ hs.ne_nil hplain hstrip
    rw [hostname_https (by rwa [hdrop]) hp, hdrop]
  have hpage' (p : List Char) (hp : IsPath p) :
      urlMatchesDomain U ("https://www.".toList ++ (d ++ p)) d = .ok true := by
    have hurl : "https://www.".toList ++ (d ++ p) =
        "https://".toList ++ (("www.".toList ++ d) ++ p) := by
      simp
    have hhost := hostname_https (U := U) (d := "www.".toList ++ d) (by rwa [hdrop']) hp
    rw [hdrop'] at hhost
    rw [hurl, urlMatchesDomain_of_hostname hhost (by simp) hwww hstrip, stripPrefix_append]
    simp [hs.ne_nil]
  constructor
  · rintro hmatch ⟨t, rfl⟩
    have htrue := (hmatch [] (Or.inl rfl)).1
    rw [hpage [] (Or.inl rfl), stripPrefix_append] at htrue
    -- the host has lost its `www.`, the domain has not
    have hlen := congrArg List.length (of_decide_eq_true (Except.ok.inj htrue)).2
    simp only [List.length_append] at hlen
    have hfour : "www.".toList.length = 4 := rfl
    omega
  · intro hno p hp
    refine ⟨?_, hpage' p hp⟩
    rw [hpage p hp, stripPrefix_of_not hno]
    simp [hs.ne_nil]

/-- What matches is not discarded: the links of the site, for a domain without `www.`. -/
theorem outOfDomain_eq_false (hs : IsDomain s) (hd : d = s ∨ d = s ++ ['\n'])
    (hno : ¬ "www.".toList <+: s) (hp : IsPath p) {link : List Char}
    (hlink : strip link = "https://".toList ++ (s ++ p) ∨
      strip link = "https://www.".toList ++ (s ++ p)) : outOfDomain U d link = .ok false := by
  have hmatch := (ownPagesMatch_iff (U := U) hs (Or.inl rfl)).mpr hno p hp
  unfold outOfDomain
  rw [(stored_eq hs hd).2]
  rcases hlink with hlink | hlink
  · rw [hlink, if_neg (by simp), hmatch.1]
    rfl
  · rw [hlink, if_neg (by simp), hmatch.2]
    rfl

/-- The normal form of an accepted input starts with `www.` if the input does so twice. -/
theorem startsWww_stored {h : List Char} (hs : IsDomain s) (hd : s <+: trimHost h) :
    "www.".toList <+: s ↔ "www.www.".toList <+: h := by
  have hprefix : s <+: stripPrefix "www.".toList h :=
    hd.trans ((List.rdropWhile_prefix _ _).trans (List.rdropWhile_prefix _ _))
  constructor
  · intro hwww
    have htwice := hwww.trans hprefix
    rcases stripPrefix_cases "www.".toList h with heq | ⟨hno, heq⟩
    · rw [heq]
      exact (List.prefix_append_right_inj "www.".toList).mpr htwice
    · rw [heq] at htwice
      exact absurd htwice hno
  · rintro ⟨x, rfl⟩
    have hstrip : stripPrefix "www.".toList ("www.www.".toList ++ x) = "www.".toList ++ x :=
      stripPrefix_append "www.".toList ("www.".toList ++ x)
    rw [hstrip] at hprefix
    by_cases hlen : 4 ≤ s.length
    · exact List.prefix_of_prefix_length_le (List.prefix_append _ _) hprefix hlen
    · -- a part of `www` has no dot
      have hthree : "www".toList <+: "www.".toList ++ x := ⟨'.' :: x, rfl⟩
      have hle : s.length ≤ "www".toList.length := by
        have hlen3 : "www".toList.length = 3 := rfl
        omega
      have hsub := (List.prefix_of_prefix_length_le hprefix hthree hle).subset
      exact absurd (hsub hs.dot_mem) (by decide)

end

/-- A domain that the validator accepts matches its own pages exactly when its host does not start
with `www.` twice. -/
theorem pagesMatch_iff (U : Unicode) (raw : List Char) :
    PagesMatch U raw ↔ (Accepts U raw → ¬ DoubleWww U raw) := by
  unfold PagesMatch
  refine imp_congr_right fun haccepts => ?_
  obtain ⟨v, hv, _⟩ := accepts_iff.mp haccepts
  obtain ⟨s, hs, hstored⟩ := accepts_stored haccepts hv
  have hnorm := hv
  rw [normalizeDomain_eq_map] at hnorm
  cases hhost : hostText U (U.lower (strip raw)) with
  | error e =>
    rw [hhost] at hnorm
    cases hnorm
  | ok h =>
    rw [hhost] at hnorm
    have htrim : trimHost h = v := Except.ok.inj hnorm
    have hprefix : s <+: trimHost h := by
      rw [htrim]
      rcases hstored with rfl | rfl
      · exact List.prefix_rfl
      · exact List.prefix_append _ _
    have hdouble : DoubleWww U raw ↔ "www.".toList <+: s := by
      rw [startsWww_stored hs hprefix]
      constructor
      · rintro ⟨h', hh', hwww⟩
        obtain rfl : h = h' := Except.ok.inj (hhost.symm.trans hh')
        exact hwww
      · exact fun hwww => ⟨h, hhost, hwww⟩
    rw [hdouble, ← ownPagesMatch_iff hs hstored]
    constructor
    · exact fun hall => hall v hv
    · intro hmatch d hd
      obtain rfl : v = d := Except.ok.inj (hv.symm.trans hd)
      exact hmatch

/-- The careers page of `www.acme.nl` does not match the domain `www.acme.nl`, which is stored for
`www.www.acme.nl`. -/
theorem doubleWww_pages : ¬ PagesMatch .ascii "www.www.acme.nl".toList := by
  intro h
  have hmatch := (h (by decide +kernel) "www.acme.nl".toList (by decide +kernel)
    "/careers".toList (Or.inr ⟨"careers".toList, rfl⟩)).1
  revert hmatch
  decide +kernel

end Domain
end LeadPulse
