import LeadPulse.Domain.ValidateTheorems

/-!
# Normalising twice

A domain is normalised when it is stored and again when it is compared
(`find_similar_companies`, `scan_duplicates`), so that `normalize_domain` should change nothing of
what it has returned. But each of its steps is made once: what is in front of the first `www.` may
end in another one, the path is cut off after the white space, the dots are stripped after the
slashes, and a URL without a host is taken as it is.

`idempotent_iff` says of which inputs the normal form is normal, in terms of the text that is
trimmed; `doubleWww_not_idempotent` is an input of which it is not.
-/

namespace LeadPulse

/-- `str.lower` leaves any text alone that is made of characters it has put out. -/
def Unicode.LowerFixed (U : Unicode) : Prop :=
  ∀ s t, (∀ c ∈ t, c ∈ U.lower s) → U.lower t = t

theorem Unicode.ascii_lowerFixed : Unicode.ascii.LowerFixed := by
  intro s t h
  have hfixed (c : Char) (hc : c ∈ t) : c.toLower = c := by
    obtain ⟨d, _, rfl⟩ := List.mem_map.mp (h c hc)
    exact Char.toLower_toLower_eq_toLower d
  calc t.map Char.toLower = t.map id := List.map_congr_left hfixed
    _ = t := List.map_id t

namespace Domain

open PyStr

/-- `normalize_domain` changes nothing of what it returns for `raw`. -/
def Idempotent (U : Unicode) (raw : List Char) : Prop :=
  ∀ v, normalizeDomain U raw = .ok v → normalizeDomain U v = .ok v

/-- What is trimmed: the host of a URL, or the URL itself if there is none in it; otherwise the
text up to the first slash. -/
def hostText (U : Unicode) (value : List Char) : Except ValueError (List Char) :=
  if "://".toList <:+: value then
    (Url.hostname U value).map fun host => if host = [] then value else host
  else .ok (upTo '/' value)

/-- `w` starts with a `www.` that stays there: dots alone behind it would take it along. -/
def StartsWww (w : List Char) : Prop := ∃ x, w = "www.".toList ++ x ∧ ∃ c ∈ x, c ≠ '.'

/-- `w` ends in white space, dots and slashes apart. -/
def EndsInSpace (w : List Char) : Prop :=
  ∃ y c n m, w = y ++ c :: (List.replicate n '.' ++ List.replicate m '/') ∧ isSpace c = true

/-- A text with slashes, the slashes and then the dots at its end cut off: no slash is left, or it
is still a URL without a host, and there was no slash in front of the dots. -/
def SlashesStay (U : Unicode) (w : List Char) : Prop :=
  let bare := rstripChar '.' (rstripChar '/' w)
  '/' ∉ bare ∨ ("://".toList <:+: bare ∧ Url.hostname U bare = .ok [] ∧ bare.getLast? ≠ some '/')

/-- The condition on what is trimmed, without a first `www.`. -/
structure Settled (U : Unicode) (w : List Char) : Prop where
  www : ¬ StartsWww w
  head : ∀ c ∈ w.head?, isSpace c = false
  last : ¬ EndsInSpace w
  slashes : '/' ∈ w → SlashesStay U w

/-- The input is normalised to a normal form. -/
def Settles (U : Unicode) (raw : List Char) : Prop :=
  ∀ h, hostText U (U.lower (strip raw)) = .ok h → Settled U (stripPrefix "www.".toList h)

/-! ## What is trimmed -/

section

variable {U : Unicode} {raw value h b w : List Char}

theorem normalizeDomain_eq_map (U : Unicode) (raw : List Char) :
    normalizeDomain U raw = (hostText U (U.lower (strip raw))).map trimHost := by
  unfold normalizeDomain hostText
  dsimp only
  split
  · cases Url.hostname U (U.lower (strip raw)) with
    | error e => rfl
    | ok host => rfl
  · rfl

theorem lowerHost_eq (hfix : ∀ t, (∀ c ∈ t, c ∈ value) → U.lower t = t)
    (h : ∀ c ∈ w, c ∈ value) : Url.lowerHost U w = w := by
  unfold Url.lowerHost
  split
  · rename_i hmem
    rw [hfix _ fun c hc => h c (mem_of_mem_upTo hc)]
    exact upTo_append_past hmem
  · exact hfix w h

/-- The host of a lower-cased URL is a part of it, without slashes. -/
theorem hostname_sub (hfix : ∀ t, (∀ c ∈ t, c ∈ value) → U.lower t = t)
    (hhost : Url.hostname U value = .ok h) : (∀ c ∈ h, c ∈ value) ∧ '/' ∉ h := by
  cases hn : Url.netloc U value with
  | error e =>
    rw [Url.hostname, hn] at hhost
    cases hhost
  | ok n =>
    have hsub (c : Char) (hc : c ∈ Url.hostInfo n) : c ∈ value := by
      have hc := Url.mem_of_mem_hostInfo hc
      rw [Url.netloc_eq hn] at hc
      exact Url.mem_of_mem_clean (Url.mem_of_mem_dropScheme (Url.mem_of_mem_splitNetloc hc))
    rw [Url.hostname, hn] at hhost
    obtain rfl : Url.lowerHost U (Url.hostInfo n) = h := Except.ok.inj hhost
    rw [lowerHost_eq hfix hsub]
    refine ⟨hsub, fun hslash => ?_⟩
    have hslash := Url.mem_of_mem_hostInfo hslash
    rw [Url.netloc_eq hn] at hslash
    exact Url.slash_not_mem_splitNetloc _ hslash

/-- Only a URL without a host keeps its slashes, and it keeps the colon in front of them, too. -/
theorem hostText_sub (hfix : ∀ t, (∀ c ∈ t, c ∈ value) → U.lower t = t)
    (hhost : hostText U value = .ok h) :
    (∀ c ∈ h, c ∈ value) ∧ ('/' ∉ h ∨ ':' ∈ h) := by
  unfold hostText at hhost
  split at hhost
  · rename_i hurl
    cases hname : Url.hostname U value with
    | error e =>
      rw [hname] at hhost
      cases hhost
    | ok host =>
      rw [hname] at hhost
      obtain rfl : (if host = [] then value else host) = h := Except.ok.inj hhost
      split
      · exact ⟨fun c hc => hc, Or.inr (hurl.subset (by decide))⟩
      · exact ⟨(hostname_sub hfix hname).1, Or.inl (hostname_sub hfix hname).2⟩
  · obtain rfl := Except.ok.inj hhost
    exact ⟨fun c hc => mem_of_mem_upTo hc, Or.inl (not_mem_upTo _ _)⟩

/-! ## Normal forms -/

theorem trimHost_sublist (h : List Char) : (trimHost h).Sublist h := by
  have hprefix : (stripPrefix "www.".toList h).Sublist h := by
    unfold stripPrefix
    split
    · exact List.drop_sublist _ _
    · exact List.Sublist.refl _
  exact ((rstripChar_sublist _ _).trans (rstripChar_sublist _ _)).trans hprefix

/-- What trimming leaves as it is. -/
theorem trimHost_eq_self_iff :
    trimHost b = b ↔ ¬ "www.".toList <+: b ∧ b.getLast? ≠ some '/' ∧ b.getLast? ≠ some '.' := by
  constructor
  · intro h
    have hwww : ¬ "www.".toList <+: b := by
      rintro ⟨t, rfl⟩
      have hle := ((rstripChar_sublist '.' _).trans (rstripChar_sublist '/' t)).length_le
      have hlen := congrArg List.length h
      simp only [trimHost, stripPrefix_append, List.length_append] at hlen
      have hfour : "www.".toList.length = 4 := rfl
      omega
    unfold trimHost at h
    rw [stripPrefix_of_not hwww] at h
    have hslash : rstripChar '/' b = b := by
      apply (rstripChar_sublist '/' b).eq_of_length_le
      have hle := (rstripChar_sublist '.' (rstripChar '/' b)).length_le
      rw [h] at hle
      exact hle
    rw [hslash] at h
    exact ⟨hwww, rstripChar_eq_self_iff.mp hslash, rstripChar_eq_self_iff.mp h⟩
  · rintro ⟨hwww, hslash, hdot⟩
    unfold trimHost
    rw [stripPrefix_of_not hwww, rstripChar_of_getLast? hslash, rstripChar_of_getLast? hdot]

/-- What `normalize_domain` leaves as it is. -/
structure IsNormal (U : Unicode) (b : List Char) : Prop where
  strip : strip b = b
  www : ¬ "www.".toList <+: b
  dot : b.getLast? ≠ some '.'
  slash : '/' ∉ b ∨
    ("://".toList <:+: b ∧ Url.hostname U b = .ok [] ∧ b.getLast? ≠ some '/')

theorem isNormal_of_normalizeDomain (hfix : ∀ t, (∀ c ∈ t, c ∈ b) → U.lower t = t)
    (h : normalizeDomain U b = .ok b) : IsNormal U b := by
  have hsub := strip_sublist b
  rw [normalizeDomain_eq_map, hfix _ fun c hc => hsub.subset hc] at h
  cases hhost : hostText U (strip b) with
  | error e =>
    rw [hhost] at h
    cases h
  | ok host =>
    rw [hhost] at h
    have htrim : trimHost host = b := Except.ok.inj h
    -- the text that is trimmed is no longer than the input, so nothing is trimmed
    have hself (hle : host.Sublist (strip b)) : strip b = b ∧ host = b ∧ trimHost b = b := by
      have hlen := (trimHost_sublist host).length_le
      rw [htrim] at hlen
      have hstrip : strip b = b := hsub.eq_of_length_le (hlen.trans hle.length_le)
      rw [hstrip] at hle
      have hb : host = b := hle.eq_of_length_le hlen
      rw [hb] at htrim
      exact ⟨hstrip, hb, htrim⟩
    unfold hostText at hhost
    split at hhost
    · rename_i hurl
      cases hname : Url.hostname U (strip b) with
      | error e =>
        rw [hname] at hhost
        cases hhost
      | ok name =>
        rw [hname] at hhost
        obtain rfl : (if name = [] then strip b else name) = host := Except.ok.inj hhost
        split at hself
        · rename_i hnil
          obtain ⟨hstrip, _, hb⟩ := hself (List.Sublist.refl _)
          obtain ⟨hwww, hslash, hdot⟩ := trimHost_eq_self_iff.mp hb
          rw [hstrip] at hurl hname
          rw [hnil] at hname
          exact ⟨hstrip, hwww, hdot, Or.inr ⟨hurl, hname, hslash⟩⟩
        · -- a host has no slashes, and there are some
          rename_i hne
          rw [if_neg hne] at htrim
          have hnot := (hostname_sub (fun t ht => hfix t fun c hc => hsub.subset (ht c hc)) hname).2
          have hslash : '/' ∈ b := hsub.subset (hurl.subset (by decide))
          rw [← htrim] at hslash
          exact absurd ((trimHost_sublist name).subset hslash) hnot
    · obtain rfl := Except.ok.inj hhost
      obtain ⟨hstrip, hup, hb⟩ := hself (List.takeWhile_prefix _).sublist
      obtain ⟨hwww, _, hdot⟩ := trimHost_eq_self_iff.mp hb
      refine ⟨hstrip, hwww, hdot, Or.inl ?_⟩
      rw [← hup]
      exact not_mem_upTo _ _

theorem IsNormal.normalizeDomain (hb : IsNormal U b)
    (hfix : ∀ t, (∀ c ∈ t, c ∈ b) → U.lower t = t) : normalizeDomain U b = .ok b := by
  rw [normalizeDomain_eq_map, hb.strip, hfix b fun c hc => hc]
  unfold hostText
  rcases hb.slash with hslash | ⟨hurl, hname, hslash⟩
  · have hurl : ¬ "://".toList <:+: b := fun h => hslash (h.subset (by decide))
    have hlast : b.getLast? ≠ some '/' := fun h => hslash (List.mem_of_getLast? h)
    rw [if_neg hurl, upTo_of_not_mem hslash]
    exact congrArg Except.ok (trimHost_eq_self_iff.mpr ⟨hb.www, hlast, hb.dot⟩)
  · rw [if_pos hurl, hname]
    exact congrArg Except.ok (trimHost_eq_self_iff.mpr ⟨hb.www, hslash, hb.dot⟩)

/-! ## What the condition says of the normal form -/

theorem startsWww_iff (hslash : '/' ∉ w ∨ ':' ∈ w) :
    StartsWww w ↔ "www.".toList <+: rstripChar '.' (rstripChar '/' w) := by
  constructor
  · rintro ⟨x, rfl, c, hc, hdot⟩
    -- something behind the second `www.` is not trimmed
    have hkeep : ∃ d ∈ x, d ≠ '.' ∧ d ≠ '/' := by
      rcases hslash with hslash | hcolon
      · refine ⟨c, hc, hdot, ?_⟩
        rintro rfl
        exact hslash (List.mem_append_right _ hc)
      · have hx := (List.mem_append.mp hcolon).resolve_left (by decide)
        exact ⟨':', hx, by decide, by decide⟩
    obtain ⟨d, hd, hddot, hdslash⟩ := hkeep
    have hmem : d ∈ rstripChar '/' x := by
      obtain ⟨n, hn⟩ := eq_rstripChar_append '/' x
      rw [hn] at hd
      exact (List.mem_append.mp hd).resolve_right fun hrep =>
        hdslash (List.eq_of_mem_replicate hrep)
    rw [rstripChar_append ⟨d, hd, hdslash⟩, rstripChar_append ⟨d, hmem, hddot⟩]
    exact List.prefix_append _ _
  · rintro ⟨y, hy⟩
    obtain ⟨m, hm⟩ := eq_rstripChar_append '/' w
    obtain ⟨n, hn⟩ := eq_rstripChar_append '.' (rstripChar '/' w)
    have hlast := getLast?_rstripChar '.' (rstripChar '/' w)
    rw [← hy] at hn hlast
    have hne : y ≠ [] := by
      rintro rfl
      exact hlast (by decide)
    refine ⟨y ++ (List.replicate n '.' ++ List.replicate m '/'), ?_, y.getLast hne, ?_, ?_⟩
    · rw [hm, hn]
      simp only [List.append_assoc]
    · exact List.mem_append_left _ (List.getLast_mem hne)
    · intro hdot
      rw [List.getLast?_append_of_ne_nil _ hne, List.getLast?_eq_some_getLast hne, hdot] at hlast
      exact hlast rfl

/-- White space at the start is not trimmed. -/
theorem head?_trimmed {c : Char} (hc : isSpace c = true) :
    c ∈ (rstripChar '.' (rstripChar '/' w)).head? ↔ c ∈ w.head? := by
  obtain ⟨m, hm⟩ := eq_rstripChar_append '/' w
  obtain ⟨n, hn⟩ := eq_rstripChar_append '.' (rstripChar '/' w)
  have hw : w = rstripChar '.' (rstripChar '/' w) ++
      (List.replicate n '.' ++ List.replicate m '/') := by
    rw [← List.append_assoc, ← hn, ← hm]
  have hends : c ∉ List.replicate n '.' ++ List.replicate m '/' := by
    intro hmem
    have hor : c = '.' ∨ c = '/' := (List.mem_append.mp hmem).imp List.eq_of_mem_replicate
      List.eq_of_mem_replicate
    rcases hor with rfl | rfl
    · cases hc
    · cases hc
  generalize rstripChar '.' (rstripChar '/' w) = b at hw
  rw [hw]
  cases b with
  | nil =>
    constructor
    · intro h
      cases h
    · exact fun h => absurd (List.mem_of_mem_head? h) hends
  | cons d b => rfl

/-- White space is at the end of the normal form if it is in front of what is trimmed. -/
theorem endsInSpace_iff : EndsInSpace w ↔
    ∃ c ∈ (rstripChar '.' (rstripChar '/' w)).getLast?, isSpace c = true := by
  constructor
  · rintro ⟨y, c, n, m, rfl, hc⟩
    have hdot : c ≠ '.' := by
      rintro rfl
      cases hc
    have hslash : c ≠ '/' := by
      rintro rfl
      cases hc
    have hsplit : y ++ c :: (List.replicate n '.' ++ List.replicate m '/') =
        ((y ++ [c]) ++ List.replicate n '.') ++ List.replicate m '/' := by simp
    have hlast : ((y ++ [c]) ++ List.replicate n '.').getLast? ≠ some '/' := by
      cases n with
      | zero => simpa using hslash
      | succ n =>
        rw [List.replicate_succ', ← List.append_assoc, List.getLast?_concat]
        decide
    rw [hsplit, rstripChar_append_replicate hlast,
      rstripChar_append_replicate (by simpa using hdot)]
    exact ⟨c, by simp, hc⟩
  · rintro ⟨c, hc, hspace⟩
    obtain ⟨m, hm⟩ := eq_rstripChar_append '/' w
    obtain ⟨n, hn⟩ := eq_rstripChar_append '.' (rstripChar '/' w)
    obtain ⟨y, hy⟩ := List.getLast?_eq_some_iff.mp hc
    refine ⟨y, c, n, m, ?_, hspace⟩
    rw [hm, hn, hy]
    simp

theorem isNormal_iff_settled (hslash : '/' ∉ w ∨ ':' ∈ w) :
    IsNormal U (rstripChar '.' (rstripChar '/' w)) ↔ Settled U w := by
  have hdot := getLast?_rstripChar '.' (rstripChar '/' w)
  constructor
  · intro hb
    obtain ⟨hhead, hlast⟩ := strip_eq_self_iff.mp hb.strip
    constructor
    · rw [startsWww_iff hslash]
      exact hb.www
    · intro c hc
      cases hspace : isSpace c with
      | false => rfl
      | true => exact hspace.symm.trans (hhead c ((head?_trimmed hspace).mpr hc))
    · rw [endsInSpace_iff]
      rintro ⟨c, hc, hspace⟩
      rw [hlast c hc] at hspace
      cases hspace
    · exact fun _ => hb.slash
  · intro hw
    refine ⟨strip_eq_self_iff.mpr ⟨fun c hc => ?_, fun c hc => ?_⟩, ?_, hdot, ?_⟩
    · cases hspace : isSpace c with
      | false => rfl
      | true => exact hspace.symm.trans (hw.head c ((head?_trimmed hspace).mp hc))
    · cases hspace : isSpace c with
      | false => rfl
      | true => exact absurd (endsInSpace_iff.mpr ⟨c, hc, hspace⟩) hw.last
    · rw [← startsWww_iff hslash]
      exact hw.www
    · by_cases hmem : '/' ∈ w
      · exact hw.slashes hmem
      · exact Or.inl fun h => hmem (mem_of_mem_rstripChar (mem_of_mem_rstripChar h))

/-- What `normalize_domain` returns for an input is left alone by it exactly when the text that it
trims is settled. -/
theorem idempotent_iff (hU : U.LowerFixed) (raw : List Char) :
    Idempotent U raw ↔ Settles U raw := by
  unfold Idempotent Settles
  rw [normalizeDomain_eq_map]
  have hvalue : ∀ t, (∀ c ∈ t, c ∈ U.lower (strip raw)) → U.lower t = t := hU (strip raw)
  cases hhost : hostText U (U.lower (strip raw)) with
  | error e =>
    constructor
    · intro _ h hh
      cases hh
    · intro _ v hv
      cases hv
  | ok h =>
    obtain ⟨hsub, hslash⟩ := hostText_sub hvalue hhost
    have hslash : '/' ∉ stripPrefix "www.".toList h ∨ ':' ∈ stripPrefix "www.".toList h := by
      rcases hslash with hslash | hcolon
      · exact Or.inl fun hmem => hslash (mem_of_mem_stripPrefix hmem)
      · rcases stripPrefix_cases "www.".toList h with heq | ⟨_, heq⟩
        · rw [heq] at hcolon
          exact Or.inr ((List.mem_append.mp hcolon).resolve_left (by decide))
        · rw [heq]
          exact Or.inr hcolon
    -- what is in lower case already stays so, and trimming only takes characters away
    have hfix (t : List Char) (ht : ∀ c ∈ t, c ∈ trimHost h) : U.lower t = t :=
      hvalue t fun c hc => hsub c (mem_of_mem_trimHost (ht c hc))
    have hiff : normalizeDomain U (trimHost h) = .ok (trimHost h) ↔
        Settled U (stripPrefix "www.".toList h) := by
      rw [← isNormal_iff_settled hslash]
      exact ⟨isNormal_of_normalizeDomain hfix, fun hb => hb.normalizeDomain hfix⟩
    constructor
    · intro hidem h' hh'
      obtain rfl := Except.ok.inj hh'
      exact hiff.mp (hidem _ rfl)
    · intro hsettled v hv
      obtain rfl : trimHost h = v := Except.ok.inj hv
      exact hiff.mpr (hsettled h rfl)

end

/-- With two `www.` in front, the second is left, and is gone when the domain is compared. -/
theorem doubleWww_not_idempotent : ¬ Idempotent .ascii "www.www.acme.nl".toList := by
  intro h
  have hsecond := h "www.acme.nl".toList (by decide +kernel)
  revert hsecond
  decide +kernel

/-- A plain URL is normalised for good. -/
theorem idempotent_acme : Idempotent .ascii "https://www.Acme.nl/jobs".toList := by
  refine (idempotent_iff Unicode.ascii_lowerFixed _).mpr fun h hh => ?_
  have hhost : hostText .ascii (Unicode.ascii.lower (strip "https://www.Acme.nl/jobs".toList)) =
      .ok "www.acme.nl".toList := by decide +kernel
  obtain rfl := Except.ok.inj (hhost.symm.trans hh)
  have hw : stripPrefix "www.".toList "www.acme.nl".toList = "acme.nl".toList := by decide +kernel
  have hb : rstripChar '.' (rstripChar '/' "acme.nl".toList) = "acme.nl".toList := by
    decide +kernel
  rw [hw]
  constructor
  · rintro ⟨x, hx, _⟩
    exact absurd (congrArg List.head? hx) (by simp)
  · intro c hc
    obtain rfl : 'a' = c := Option.some.inj hc
    rfl
  · rw [endsInSpace_iff, hb]
    rintro ⟨c, hc, hspace⟩
    obtain rfl : 'l' = c := Option.some.inj hc
    cases hspace
  · exact fun hslash => absurd hslash (by decide)

end Domain
end LeadPulse
