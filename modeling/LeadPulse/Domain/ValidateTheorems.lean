import LeadPulse.Domain.Validate

/-!
# What the validator lets through

`PublicHost` is what an accepted domain is meant to be stored as. The expression of the
validator ends in `$`, which also matches in front of a final line feed, so a line feed
behind the host can get through; `NewlineHost` is the kind of input that does it.

* `acceptedSafe_iff`: apart from that kind, what is accepted is stored as a public host;
* `newlineInternal_accepted`: with it, an internal host name gets through.
-/

namespace LeadPulse
namespace Domain

open Regex PyStr IpAddress

/-- A public host name: labels over `[a-z0-9-]` with single dots between them, the last one
alphabetic, and none of the names that the validator is there to keep out. -/
structure PublicHost (s : List Char) : Prop where
  dot : 2 ≤ (s.splitOn '.').length
  labels : ∀ l ∈ s.splitOn '.', l ≠ [] ∧ ∀ c ∈ l, c ∈ alnumDash
  tld : ∃ t ∈ (s.splitOn '.').getLast?, 2 ≤ t.length ∧ ∀ c ∈ t, c ∈ lowerAlpha
  /-- There are no other characters. -/
  chars : ∀ c ∈ s, c ∈ alnumDash ∨ c = '.'
  notIp : ipAddress s = none
  notBlocked : s ∉ blocked
  notLocal : ¬ ".local".toList <:+ s
  notInternal : ¬ ".internal".toList <:+ s

/-- If the validator accepts `raw`, then what is stored is a public host name. -/
def AcceptedSafe (U : Unicode) (raw : List Char) : Prop :=
  Accepts U raw → ∃ v, normalizeDomain U raw = .ok v ∧ PublicHost v

/-- The input, in lower case and without space around it, is no URL, and up to the first
slash and after a `www.` it is a host name, a line feed and any number of dots. -/
def NewlineHost (U : Unicode) (raw : List Char) : Prop :=
  ¬ "://".toList <:+: U.lower (strip raw) ∧
    ∃ host, IsDomain host ∧ ∃ n,
      stripPrefix "www.".toList (upTo '/' (U.lower (strip raw))) =
        host ++ '\n' :: List.replicate n '.'

/-! ## Host names -/

theorem IsLabel.ne_nil {l : List Char} (h : IsLabel l) : l ≠ [] := by
  rintro rfl
  obtain ⟨c, hc, _⟩ := h.head
  simp at hc

theorem IsTld.ne_nil {t : List Char} (h : IsTld t) : t ≠ [] := by
  rintro rfl
  have := h.long
  simp at this

theorem IsDomain.part {s l : List Char} (h : IsDomain s) (hl : l ∈ s.splitOn '.') :
    l ≠ [] ∧ ∀ c ∈ l, c ∈ alnumDash := by
  obtain ⟨t, ht, htld⟩ := h.tld
  rw [← List.dropLast_append_getLast? t ht, List.mem_append, List.mem_singleton] at hl
  rcases hl with hl | rfl
  · exact ⟨(h.labels l hl).ne_nil, (h.labels l hl).chars⟩
  · exact ⟨htld.ne_nil,
      fun c hc => mem_alnumDash_of_alnum (mem_alnum_of_lowerAlpha (htld.chars c hc))⟩

theorem IsDomain.chars {s : List Char} (h : IsDomain s) :
    ∀ c ∈ s, c ∈ alnumDash ∨ c = '.' := by
  intro c hc
  rcases eq_or_mem_splitOn '.' hc with rfl | ⟨l, hl, hcl⟩
  · exact Or.inr rfl
  · exact Or.inl ((h.part hl).2 c hcl)

theorem IsDomain.not_mem {s : List Char} (h : IsDomain s) {c : Char}
    (hc : ¬ (c ∈ alnumDash ∨ c = '.')) : c ∉ s :=
  fun hm => hc (h.chars c hm)

/-- The last character is a letter `a` to `z`. -/
def EndsInLetter (s : List Char) : Prop := ∃ c ∈ lowerAlpha, s.getLast? = some c

theorem EndsInLetter.getLast?_ne {s : List Char} (h : EndsInLetter s) {d : Char}
    (hd : d ∉ lowerAlpha) : s.getLast? ≠ some d := by
  obtain ⟨c, hc, hlast⟩ := h
  rw [hlast]
  intro hcd
  obtain rfl : c = d := Option.some.inj hcd
  exact hd hc

/-- A host name ends in a letter. -/
theorem IsDomain.endsInLetter {s : List Char} (h : IsDomain s) : EndsInLetter s := by
  obtain ⟨t, ht, htld⟩ := h.tld
  have hs : s = ((s.splitOn '.').dropLast.map fun l => l ++ ['.']).flatten ++ t := by
    rw [← intercalate_concat, List.dropLast_append_getLast? t ht, List.intercalate_splitOn]
  -- the last character is that of the top-level domain
  obtain ⟨c, hc⟩ : ∃ c, t.getLast? = some c :=
    ⟨_, List.getLast?_eq_some_getLast htld.ne_nil⟩
  refine ⟨c, htld.chars c (List.mem_of_getLast? hc), ?_⟩
  rw [hs, List.getLast?_append, hc]
  rfl

/-- A host name that passes the other checks of the validator is a public one. -/
theorem IsDomain.publicHost {s : List Char} (h : IsDomain s) (hip : ipAddress s = none)
    (hblocked : s ∉ blocked) (hlocal : ¬ ".local".toList <:+ s)
    (hinternal : ¬ ".internal".toList <:+ s) : PublicHost s where
  dot := h.dot
  labels := fun _ hl => h.part hl
  tld := by
    obtain ⟨t, ht, htld⟩ := h.tld
    exact ⟨t, ht, htld.long, htld.chars⟩
  chars := h.chars
  notIp := hip
  notBlocked := hblocked
  notLocal := hlocal
  notInternal := hinternal

/-! ## What normalising leaves in a string -/

theorem mem_trimHost {s : List Char} {c : Char} (h : c ∈ s) (hdot : c ≠ '.')
    (hslash : c ≠ '/') (hwww : c ∉ "www.".toList) : c ∈ trimHost s := by
  have hstrip : c ∈ stripPrefix "www.".toList s := by
    rcases stripPrefix_cases "www.".toList s with hs | ⟨-, hs⟩
    · rw [hs, List.mem_append] at h
      exact h.resolve_left hwww
    · rw [hs]
      exact h
  have hr {d : Char} {t : List Char} (hd : c ≠ d) (ht : c ∈ t) : c ∈ rstripChar d t := by
    obtain ⟨n, hn⟩ := eq_rstripChar_append d t
    rw [hn, List.mem_append] at ht
    exact ht.resolve_right fun hrep => hd (List.eq_of_mem_replicate hrep)
  exact hr hdot (hr hslash hstrip)

theorem mem_of_mem_trimHost {s : List Char} {c : Char} (h : c ∈ trimHost s) : c ∈ s :=
  mem_of_mem_stripPrefix (mem_of_mem_rstripChar (mem_of_mem_rstripChar h))

/-- A host with no slash keeps all but its `www.` and the dots at its end. -/
theorem trimHost_eq {s : List Char} (h : '/' ∉ s) :
    trimHost s = rstripChar '.' (stripPrefix "www.".toList s) := by
  unfold trimHost
  rw [rstripChar_of_getLast? (c := '/')]
  exact fun hl => h (mem_of_mem_stripPrefix (List.mem_of_getLast? hl))

/-- An input of the newline kind is normalised to its host and the line feed. -/
theorem NewlineHost.normalizeDomain {U : Unicode} {raw : List Char} (h : NewlineHost U raw) :
    ∃ host, IsDomain host ∧ Domain.normalizeDomain U raw = .ok (host ++ ['\n']) := by
  obtain ⟨hurl, host, hhost, n, hvalue⟩ := h
  refine ⟨host, hhost, ?_⟩
  rw [Domain.normalizeDomain, if_neg hurl, trimHost_eq (not_mem_upTo _ _), hvalue]
  congr 1
  have : host ++ '\n' :: List.replicate n '.' = (host ++ ['\n']) ++ List.replicate n '.' := by simp
  rw [this, rstripChar_append_replicate (by simp)]

/-- Conversely, a host and a line feed come out of an input of the newline kind only. -/
theorem newlineHost_of_normalizeDomain {U : Unicode} {raw host : List Char}
    (hhost : IsDomain host) (h : normalizeDomain U raw = .ok (host ++ ['\n'])) :
    NewlineHost U raw := by
  unfold normalizeDomain at h
  dsimp only at h
  split at h
  · -- a URL: the line feed would have to be in its host
    rename_i hurl
    exfalso
    cases hh : Url.hostname U (U.lower (strip raw)) with
    | error e => simp [hh, Except.map] at h
    | ok found =>
      rw [hh] at h
      have h : trimHost (if found = [] then U.lower (strip raw) else found) = host ++ ['\n'] := by
        simpa [Except.map] using h
      split at h
      · -- the value itself still has the colon of its `://`
        have hcolon : ':' ∈ U.lower (strip raw) := hurl.subset (by decide)
        have hmem := mem_trimHost hcolon (by decide) (by decide) (by decide)
        rw [h, List.mem_append] at hmem
        rcases hmem with hmem | hmem
        · exact hhost.not_mem (by decide) hmem
        · exact absurd hmem (by decide)
      · have hnl : '\n' ∈ trimHost found := by
          rw [h]
          simp
        exact Url.newline_not_mem_hostname hh (mem_of_mem_trimHost hnl)
  · rename_i hurl
    rw [trimHost_eq (not_mem_upTo _ _)] at h
    have h : rstripChar '.' (stripPrefix "www.".toList (upTo '/' (U.lower (strip raw)))) =
        host ++ ['\n'] := by simpa using h
    obtain ⟨n, hn⟩ :=
      eq_rstripChar_append '.' (stripPrefix "www.".toList (upTo '/' (U.lower (strip raw))))
    refine ⟨hurl, host, hhost, n, ?_⟩
    rw [hn, h]
    simp

/-- The validator accepts a host name with a line feed behind it, whatever the name. -/
theorem IsDomain.checkNormalized_newline {host : List Char} (h : IsDomain host) :
    checkNormalized (host ++ ['\n']) = none := by
  -- neither the suffixes nor the blocked names end in a line feed
  have hsuffix {p : List Char} (hne : p ≠ []) (hlast : p.getLast? ≠ some '\n') :
      ¬ p <:+ host ++ ['\n'] := by
    rintro ⟨t, ht⟩
    have hl := congrArg List.getLast? ht
    rw [List.getLast?_append_of_ne_nil t hne, List.getLast?_concat] at hl
    exact hlast hl
  refine checkNormalized_eq_none.mpr ⟨by simp, ?_, fun hb => ?_, hsuffix (by decide) (by decide),
    hsuffix (by decide) (by decide), Or.inr ⟨host, mem_domainRe.mpr h, rfl⟩⟩
  · refine ipAddress_eq_none (fun hc => ?_) ⟨'\n', by simp, by decide⟩
    rw [List.mem_append] at hc
    rcases hc with hc | hc
    · exact h.not_mem (by decide) hc
    · exact absurd hc (by decide)
  · have hlast : ∀ b ∈ blocked, b.getLast? ≠ some '\n' := by decide
    exact hlast _ hb (by simp)

/-- Accepted input is stored as a public host name exactly when it is not of the newline
kind. -/
theorem acceptedSafe_iff (U : Unicode) (raw : List Char) :
    AcceptedSafe U raw ↔ ¬ NewlineHost U raw := by
  constructor
  · intro hsafe hnl
    obtain ⟨host, hhost, hnorm⟩ := hnl.normalizeDomain
    obtain ⟨v, hv, hpublic⟩ := hsafe (accepts_iff.mpr ⟨_, hnorm, hhost.checkNormalized_newline⟩)
    obtain rfl : host ++ ['\n'] = v := by
      rw [hnorm] at hv
      exact Except.ok.inj hv
    have := hpublic.chars '\n' (by simp)
    exact absurd this (by decide)
  · intro hnl haccepts
    obtain ⟨v, hv, hcheck⟩ := accepts_iff.mp haccepts
    obtain ⟨-, hip, hblocked, hlocal, hinternal, hmatch⟩ := checkNormalized_eq_none.mp hcheck
    refine ⟨v, hv, ?_⟩
    -- the match stops at the end, or in front of a final line feed
    rcases hmatch with hmatch | ⟨host, hhost, rfl⟩
    · exact (mem_domainRe.mp hmatch).publicHost hip hblocked hlocal hinternal
    · exact absurd (newlineHost_of_normalizeDomain (mem_domainRe.mp hhost) hv) hnl

/-- The name of a metadata service gets through with a line feed and a slash behind it. -/
theorem newlineInternal_not_safe :
    ¬ AcceptedSafe Unicode.ascii "metadata.google.internal\n/".toList := by
  intro hsafe
  obtain ⟨v, hv, hpublic⟩ := hsafe (by decide +kernel)
  have hstored : normalizeDomain Unicode.ascii "metadata.google.internal\n/".toList =
      .ok "metadata.google.internal\n".toList := by decide +kernel
  obtain rfl : "metadata.google.internal\n".toList = v := Except.ok.inj (hstored.symm.trans hv)
  exact absurd (hpublic.chars '\n' (by decide)) (by decide)

end Domain
end LeadPulse
