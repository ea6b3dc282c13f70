import LeadPulse.Domain.ClassifyUrl
import LeadPulse.Domain.IntelUrls
import LeadPulse.Lib.Raises

/-!
# The pages that are scraped

`select_intel_urls` (`services/intel_target_urls.py`) takes the links of a site apart into
vacancy pages, news pages and others, and cuts the two buckets and what they make together at
their limits.

`urlparse` raises a `ValueError` for some links, and no one catches it before `monitor_company`
does, around the whole selection: one such link costs all the others. `selectsWell_iff` says that
this is the only thing that goes wrong.
-/

namespace LeadPulse
namespace Domain

open PyStr

/-- The counters that are reported. -/
structure IntelStats where
  jobs : ℕ := 0
  news : ℕ := 0
  skipped : ℕ := 0
  outOfDomain : ℕ := 0
deriving DecidableEq, Repr

/-- What the loop over the links has collected. -/
structure IntelBuckets where
  jobs : List (List Char) := []
  news : List (List Char) := []
  seen : List (List Char) := []
  stats : IntelStats := {}
deriving DecidableEq, Repr

/-! ## `select_intel_urls` -/

section

variable (U : Unicode) (digit : Char → Bool)

/-- One turn of the loop over the links. -/
def takeLink (dom : List Char) (s : IntelBuckets) (raw : List Char) :
    Except ValueError IntelBuckets :=
  let raw := strip raw
  if raw = [] then .ok s
  else do
    if !(← urlMatchesDomain U raw dom) then
      return { s with stats := { s.stats with outOfDomain := s.stats.outOfDomain + 1 } }
    match ← classifyUrl U digit raw with
    | none => return { s with stats := { s.stats with skipped := s.stats.skipped + 1 } }
    | some kind =>
      if s.seen.contains raw then return s
      let s := { s with seen := s.seen ++ [raw] }
      match kind with
      | .jobs => return { s with jobs := s.jobs ++ [raw] }
      | .news => return { s with news := s.news ++ [raw] }

/-- The loop that fills `merged`. -/
def mergeUrls (maxTotal : ℕ) (merged : List (List Char)) :
    List (List Char) → List (List Char)
  | [] => merged
  | u :: us =>
    if maxTotal ≤ merged.length then merged
    else mergeUrls maxTotal (if merged.contains u then merged else merged ++ [u]) us

/-- `sum(1 for u in urls if classify_url(u) == kind)` -/
def countKind (kind : IntelKind) (urls : List (List Char)) : Except ValueError ℕ :=
  (urls.mapM (classifyUrl U digit)).map (List.count (some kind))

def selectIntelUrls (links : List (List Char)) (domain : List Char)
    (maxNews maxJobs maxTotal : ℕ) : Except ValueError (List (List Char) × IntelStats) := do
  let s ← links.foldlM (takeLink U digit (strip (U.lower domain))) {}
  let merged := mergeUrls maxTotal [] (s.jobs.take maxJobs ++ s.news.take maxNews)
  let jobs ← countKind U digit .jobs merged
  let news ← countKind U digit .news merged
  return (merged, { s.stats with jobs, news })

/-! ## What is selected -/

/-- A page of the domain that is scraped for `kind`. -/
def IsPage (domain : List Char) (kind : IntelKind) (u : List Char) : Prop :=
  urlMatchesDomain U u domain = .ok true ∧ classifyUrl U digit u = .ok (some kind)

instance (domain : List Char) (kind : IntelKind) : DecidablePred (IsPage U digit domain kind) :=
  fun u => inferInstanceAs (Decidable (urlMatchesDomain U u domain = .ok true ∧
    classifyUrl U digit u = .ok (some kind)))

/-- The limit of one kind of pages. -/
def kindCap (maxNews maxJobs : ℕ) : IntelKind → ℕ
  | .news => maxNews
  | .jobs => maxJobs

/-- The selection: from the links, without the space around them, the pages of either kind in the
order in which they come first, vacancies in front of news, as many as the limits let through. -/
structure Selected (links : List (List Char)) (domain : List Char) (maxNews maxJobs maxTotal : ℕ)
    (urls : List (List Char)) (stats : IntelStats) : Prop where
  listed : ∀ u ∈ urls, u ∈ links.map strip
  pages : ∀ u ∈ urls, ∃ kind, IsPage U digit domain kind u
  nodup : urls.Nodup
  jobsFirst : urls.Pairwise fun u v =>
    IsPage U digit domain .news u → ¬ IsPage U digit domain .jobs v
  inOrder : urls.Pairwise fun u v => ∀ kind, IsPage U digit domain kind u →
    IsPage U digit domain kind v → (links.map strip).idxOf u < (links.map strip).idxOf v
  kind_le : ∀ kind, urls.countP (IsPage U digit domain kind ·) ≤ kindCap maxNews maxJobs kind
  total_le : urls.length ≤ maxTotal
  full : ∀ kind, ∀ u ∈ links.map strip, IsPage U digit domain kind u → u ∉ urls →
    urls.countP (IsPage U digit domain kind ·) = kindCap maxNews maxJobs kind ∨
      urls.length = maxTotal
  firstOnes : ∀ kind, ∀ u ∈ links.map strip, IsPage U digit domain kind u → u ∉ urls →
    ∀ v ∈ urls, IsPage U digit domain kind v →
      (links.map strip).idxOf v < (links.map strip).idxOf u
  stats_eq : stats.jobs + stats.news = urls.length

/-- `select_intel_urls` returns such a selection. -/
def SelectsWell (links : List (List Char)) (domain : List Char) (maxNews maxJobs maxTotal : ℕ) :
    Prop :=
  ∃ urls stats,
    selectIntelUrls U digit links domain maxNews maxJobs maxTotal = .ok (urls, stats) ∧
    Selected U digit links domain maxNews maxJobs maxTotal urls stats

end

/-- `urlparse` takes every link, without the space around it, for a URL. -/
def AllParse (U : Unicode) (links : List (List Char)) : Prop :=
  ∀ raw ∈ links, ∃ n, Url.netloc U (strip raw) = .ok n

section

variable {U : Unicode} {digit : Char → Bool} {u n domain dom raw : List Char}
  {links rows : List (List Char)} {kind : IntelKind} {s s' : IntelBuckets}

/-! ## A URL that is parsed -/

theorem netloc_nil : Url.netloc U [] = .ok [] := by
  have hcheck : Url.checkNetloc U [] = .ok () := by
    unfold Url.checkNetloc
    simp
  have hsplit : Url.splitNetloc (Url.dropScheme (Url.clean [])) = [] := rfl
  unfold Url.netloc
  dsimp only
  rw [hsplit]
  simp only [List.not_mem_nil, ne_eq, not_true_eq_false, if_false, hcheck]
  rfl

/-- The empty text has no host. -/
theorem urlMatchesDomain_nil : urlMatchesDomain U [] domain = .ok false := by
  have hlower : U.lower [] = [] := U.lower_ascii [] (by simp)
  have hhost : Url.hostname U [] = .ok [] := by
    unfold Url.hostname
    rw [netloc_nil]
    show Except.ok (Url.lowerHost U []) = _
    unfold Url.lowerHost
    rw [if_neg (by simp), hlower]
  unfold urlMatchesDomain
  rw [hhost]
  simp [Except.map, normalizeHost]

theorem urlMatchesDomain_ok (domain : List Char) (h : Url.netloc U u = .ok n) :
    ∃ b, urlMatchesDomain U u domain = .ok b := by
  unfold urlMatchesDomain Url.hostname
  rw [h]
  exact ⟨_, rfl⟩

theorem classifyUrl_ok (digit : Char → Bool) (h : Url.netloc U u = .ok n) :
    ∃ k, classifyUrl U digit u = .ok k := by
  unfold classifyUrl Url.path
  rw [h]
  exact ⟨_, rfl⟩

theorem urlMatchesDomain_error {e : ValueError} (h : Url.netloc U u = .error e) :
    urlMatchesDomain U u domain = .error e := by
  unfold urlMatchesDomain Url.hostname
  rw [h]
  rfl

/-- It makes no difference that the domain has been lower-cased and stripped before. -/
theorem urlMatchesDomain_lower (hfix : U.LowerFixed) :
    urlMatchesDomain U u (strip (U.lower domain)) = urlMatchesDomain U u domain := by
  have hlower : U.lower (strip (U.lower domain)) = strip (U.lower domain) :=
    hfix domain _ fun c hc => (strip_sublist _).subset hc
  unfold urlMatchesDomain
  rw [hlower, strip_strip]

/-- A URL has one kind only. -/
theorem IsPage.kind_eq {k k' : IntelKind} (h : IsPage U digit domain k u)
    (h' : IsPage U digit domain k' u) : k = k' := by
  have heq := h.2.symm.trans h'.2
  simpa using heq

/-! ## A turn of the loop -/

/-- A URL joins its bucket. -/
def IntelBuckets.put (s : IntelBuckets) (kind : IntelKind) (u : List Char) : IntelBuckets :=
  match kind with
  | .jobs => { s with seen := s.seen ++ [u], jobs := s.jobs ++ [u] }
  | .news => { s with seen := s.seen ++ [u], news := s.news ++ [u] }

theorem takeLink_lower (hfix : U.LowerFixed) :
    takeLink U digit (strip (U.lower domain)) = takeLink U digit domain := by
  funext s raw
  unfold takeLink
  dsimp only
  rw [urlMatchesDomain_lower hfix]

/-- What a turn does with a link that is parsed: it is counted, it has been seen, or it joins its
bucket. -/
theorem takeLink_turn (digit : Char → Bool) (dom : List Char)
    (h : Url.netloc U (strip raw) = .ok n) (s : IntelBuckets) :
    ((∀ kind, ¬ IsPage U digit dom kind (strip raw)) ∧
      ∃ stats, takeLink U digit dom s raw = .ok { s with stats := stats }) ∨
    (strip raw ∈ s.seen ∧ takeLink U digit dom s raw = .ok s) ∨
    ∃ kind, IsPage U digit dom kind (strip raw) ∧ strip raw ∉ s.seen ∧
      takeLink U digit dom s raw = .ok (s.put kind (strip raw)) := by
  obtain ⟨b, hb⟩ := urlMatchesDomain_ok dom h
  obtain ⟨k, hk⟩ := classifyUrl_ok digit h
  unfold takeLink
  dsimp only
  by_cases hnil : strip raw = []
  · refine Or.inl ⟨fun kind hpage => ?_, s.stats, if_pos hnil⟩
    have hmatch := hpage.1
    rw [hnil, urlMatchesDomain_nil] at hmatch
    cases hmatch
  · rw [if_neg hnil, hb, hk]
    cases b with
    | false =>
      refine Or.inl ⟨fun kind hpage => ?_, _, rfl⟩
      have hmatch := hpage.1
      rw [hb] at hmatch
      cases hmatch
    | true =>
      cases k with
      | none =>
        refine Or.inl ⟨fun kind hpage => ?_, _, rfl⟩
        have hkind := hpage.2
        rw [hk] at hkind
        cases hkind
      | some kind =>
        by_cases hseen : strip raw ∈ s.seen
        · refine Or.inr (Or.inl ⟨hseen, ?_⟩)
          show (if s.seen.contains (strip raw) then _ else _) = _
          rw [if_pos (List.contains_iff_mem.mpr hseen)]
          rfl
        · refine Or.inr (Or.inr ⟨kind, ⟨hb, hk⟩, hseen, ?_⟩)
          show (if s.seen.contains (strip raw) then _ else _) = _
          rw [if_neg (mt List.contains_iff_mem.mp hseen)]
          cases kind <;> rfl

/-- A turn raises if `urlparse` does. -/
theorem takeLink_error {e : ValueError} (h : Url.netloc U (strip raw) = .error e)
    (s : IntelBuckets) : takeLink U digit dom s raw = .error e := by
  have hne : strip raw ≠ [] := by
    intro hnil
    rw [hnil, netloc_nil] at h
    cases h
  unfold takeLink
  dsimp only
  rw [if_neg hne, urlMatchesDomain_error h]
  rfl

/-! ## The loop -/

/-- What the loop has collected from the rows it has been through. -/
structure Collected (U : Unicode) (digit : Char → Bool) (dom : List Char)
    (rows : List (List Char)) (s : IntelBuckets) : Prop where
  nodup : s.seen.Nodup
  mem : ∀ u, u ∈ s.seen ↔ u ∈ rows ∧ ∃ kind, IsPage U digit dom kind u
  inOrder : s.seen.Pairwise fun u v => rows.idxOf u < rows.idxOf v
  jobs : s.jobs = s.seen.filter (IsPage U digit dom .jobs ·)
  news : s.news = s.seen.filter (IsPage U digit dom .news ·)

theorem collected_nil (U : Unicode) (digit : Char → Bool) (dom : List Char) :
    Collected U digit dom [] {} where
  nodup := List.nodup_nil
  mem u := by simp
  inOrder := List.Pairwise.nil
  jobs := rfl
  news := rfl

/-- Rows that come later do not change where one has come first. -/
theorem Collected.inOrder_append (h : Collected U digit dom rows s) (u : List Char) :
    s.seen.Pairwise fun v w => (rows ++ [u]).idxOf v < (rows ++ [u]).idxOf w := by
  refine h.inOrder.imp_of_mem fun {v w} hv hw hlt => ?_
  have hv := ((h.mem v).mp hv).1
  have hw := ((h.mem w).mp hw).1
  rw [List.idxOf_append_of_mem hv, List.idxOf_append_of_mem hw]
  exact hlt

/-- A row that is no page, or has been seen, changes nothing. -/
theorem Collected.skip (h : Collected U digit dom rows s)
    (hu : u ∈ s.seen ∨ ∀ kind, ¬ IsPage U digit dom kind u) (stats : IntelStats) :
    Collected U digit dom (rows ++ [u]) { s with stats := stats } where
  nodup := h.nodup
  inOrder := h.inOrder_append u
  jobs := h.jobs
  news := h.news
  mem v := by
    show v ∈ s.seen ↔ _
    rw [h.mem v, List.mem_append, List.mem_singleton]
    constructor
    · exact fun hv => ⟨Or.inl hv.1, hv.2⟩
    · rintro ⟨hv | rfl, kind, hkind⟩
      · exact ⟨hv, kind, hkind⟩
      · rcases hu with hu | hu
        · exact ⟨((h.mem v).mp hu).1, kind, hkind⟩
        · exact absurd hkind (hu kind)

/-- A page that has not been seen comes after the ones that have been. -/
theorem Collected.put (h : Collected U digit dom rows s) (hkind : IsPage U digit dom kind u)
    (hu : u ∉ s.seen) : Collected U digit dom (rows ++ [u]) (s.put kind u) := by
  have hrows : u ∉ rows := fun hmem => hu ((h.mem u).mpr ⟨hmem, kind, hkind⟩)
  have hseen : (s.put kind u).seen = s.seen ++ [u] := by
    cases kind <;> rfl
  constructor
  · rw [hseen, List.nodup_append]
    refine ⟨h.nodup, List.nodup_singleton u, fun v hv w hw => ?_⟩
    rw [List.mem_singleton.mp hw]
    rintro rfl
    exact hu hv
  · intro v
    rw [hseen, List.mem_append, List.mem_singleton, List.mem_append, List.mem_singleton, h.mem v]
    constructor
    · rintro (hv | rfl)
      · exact ⟨Or.inl hv.1, hv.2⟩
      · exact ⟨Or.inr rfl, kind, hkind⟩
    · rintro ⟨hv | rfl, hpage⟩
      · exact Or.inl ⟨hv, hpage⟩
      · exact Or.inr rfl
  · rw [hseen, List.pairwise_append]
    refine ⟨h.inOrder_append u, List.pairwise_singleton _ _, fun v hv w hw => ?_⟩
    have hv := ((h.mem v).mp hv).1
    rw [List.mem_singleton.mp hw, List.idxOf_append_of_mem hv,
      List.idxOf_append_of_notMem hrows]
    have hlt := List.idxOf_lt_length_of_mem hv
    omega
  · rw [hseen, List.filter_append, ← h.jobs]
    cases kind with
    | jobs => simp [IntelBuckets.put, hkind]
    | news =>
      have hnot : ¬ IsPage U digit dom .jobs u := fun hjobs => by cases hjobs.kind_eq hkind
      simp [IntelBuckets.put, hnot]
  · rw [hseen, List.filter_append, ← h.news]
    cases kind with
    | news => simp [IntelBuckets.put, hkind]
    | jobs =>
      have hnot : ¬ IsPage U digit dom .news u := fun hnews => by cases hnews.kind_eq hkind
      simp [IntelBuckets.put, hnot]

/-- The loop, from any point on. -/
theorem collected_foldlM (hparse : AllParse U links) (h : Collected U digit dom rows s) :
    ∃ s', links.foldlM (takeLink U digit dom) s = .ok s' ∧
      Collected U digit dom (rows ++ links.map strip) s' := by
  induction links generalizing rows s with
  | nil => exact ⟨s, rfl, by simpa using h⟩
  | cons raw links ih =>
    obtain ⟨n, hn⟩ := hparse raw List.mem_cons_self
    have hrest : AllParse U links := fun l hl => hparse l (List.mem_cons_of_mem raw hl)
    have hstep : ∃ s₁, takeLink U digit dom s raw = .ok s₁ ∧
        Collected U digit dom (rows ++ [strip raw]) s₁ := by
      rcases takeLink_turn digit dom hn s with
        ⟨hno, stats, hs⟩ | ⟨hseen, hs⟩ | ⟨kind, hkind, hseen, hs⟩
      · exact ⟨_, hs, h.skip (Or.inr hno) stats⟩
      · exact ⟨_, hs, h.skip (Or.inl hseen) s.stats⟩
      · exact ⟨_, hs, h.put hkind hseen⟩
    obtain ⟨s₁, hs₁, hcollected⟩ := hstep
    obtain ⟨s', hs', hfinal⟩ := ih hrest hcollected
    refine ⟨s', ?_, by simpa using hfinal⟩
    rw [List.foldlM_cons, hs₁]
    exact hs'

/-- The loop raises at a link that is not parsed. -/
theorem foldlM_error (digit : Char → Bool) (dom : List Char) (h : ¬ AllParse U links)
    (s : IntelBuckets) :
    ∃ e, links.foldlM (takeLink U digit dom) s = .error e := by
  induction links generalizing s with
  | nil => exact absurd (fun l hl => by cases hl) h
  | cons raw links ih =>
    rw [List.foldlM_cons]
    cases hn : Url.netloc U (strip raw) with
    | error e =>
      rw [takeLink_error hn]
      exact ⟨e, rfl⟩
    | ok n =>
      have hrest : ¬ AllParse U links := by
        intro hall
        refine h fun l hl => ?_
        rcases List.mem_cons.mp hl with rfl | hl
        · exact ⟨n, hn⟩
        · exact hall l hl
      rcases takeLink_turn digit dom hn s with
        ⟨-, stats, hs⟩ | ⟨-, hs⟩ | ⟨kind, -, -, hs⟩
      · rw [hs]
        exact ih hrest _
      · rw [hs]
        exact ih hrest _
      · rw [hs]
        exact ih hrest _

/-! ## Lists with a limit -/

/-- What a limit leaves out shows that the limit has been reached. -/
theorem length_take_of_not_mem {α : Type*} {l : List α} {x : α} {k : ℕ} (hx : x ∈ l)
    (hk : x ∉ l.take k) : (l.take k).length = k := by
  rw [List.length_take]
  by_contra hlen
  -- otherwise nothing has been left out
  have hle : l.length ≤ k := by omega
  rw [List.take_of_length_le hle] at hk
  exact hk hx

/-- What is left out comes after what is let through. -/
theorem rel_of_not_mem_take {α : Type*} {R : α → α → Prop} {l : List α} {x y : α} {k : ℕ}
    (hl : l.Pairwise R) (hx : x ∈ l) (hk : x ∉ l.take k) (hy : y ∈ l.take k) : R y x := by
  rw [← List.take_append_drop k l] at hl hx
  have hdrop : x ∈ l.drop k := (List.mem_append.mp hx).resolve_left hk
  exact (List.pairwise_append.mp hl).2.2 y hy x hdrop

/-- No page is merged twice, whatever the buckets hold. -/
theorem nodup_mergeUrls {maxTotal : ℕ} {merged us : List (List Char)} (h : merged.Nodup) :
    (mergeUrls maxTotal merged us).Nodup := by
  induction us generalizing merged with
  | nil => exact h
  | cons u us ih =>
    rw [mergeUrls]
    split
    · exact h
    · refine ih ?_
      split
      · exact h
      · next hnot =>
        rw [← List.concat_eq_append]
        exact List.Nodup.concat (mt List.contains_iff_mem.mpr hnot) h

theorem nodup_of_selectIntelUrls {links urls : List (List Char)} {domain : List Char}
    {maxNews maxJobs maxTotal : ℕ} {stats : IntelStats}
    (h : selectIntelUrls U digit links domain maxNews maxJobs maxTotal = .ok (urls, stats)) :
    urls.Nodup := by
  unfold selectIntelUrls at h
  obtain ⟨s, -, h⟩ := Raises.ok_of_bind h
  obtain ⟨jobs, -, h⟩ := Raises.ok_of_bind h
  obtain ⟨news, -, h⟩ := Raises.ok_of_bind h
  obtain ⟨rfl, -⟩ := Prod.mk.inj (Except.ok.inj h)
  exact nodup_mergeUrls List.nodup_nil

/-- Rows that are all different are taken up to the limit. -/
theorem mergeUrls_eq {maxTotal : ℕ} {merged us : List (List Char)} (h : (merged ++ us).Nodup)
    (hle : merged.length ≤ maxTotal) :
    mergeUrls maxTotal merged us = merged ++ us.take (maxTotal - merged.length) := by
  induction us generalizing merged with
  | nil => rw [mergeUrls, List.take_nil, List.append_nil]
  | cons u us ih =>
    rw [mergeUrls]
    by_cases hfull : maxTotal ≤ merged.length
    · have hzero : maxTotal - merged.length = 0 := by omega
      rw [if_pos hfull, hzero, List.take_zero, List.append_nil]
    · have hnot : u ∉ merged := fun hu =>
        (List.nodup_append.mp h).2.2 u hu u List.mem_cons_self rfl
      have hassoc : (merged ++ [u]) ++ us = merged ++ u :: us := by simp
      have hlen : (merged ++ [u]).length = merged.length + 1 := List.length_append
      have hsucc : maxTotal - merged.length = maxTotal - (merged.length + 1) + 1 := by omega
      rw [if_neg hfull, if_neg (mt List.contains_iff_mem.mp hnot), ih (hassoc ▸ h) (by omega),
        hlen, hsucc, List.take_succ_cons, List.append_assoc]
      rfl

/-! ## The selection -/

/-- The kinds of pages are all found out. -/
theorem mapM_classifyUrl {urls : List (List Char)}
    (h : ∀ u ∈ urls, ∃ kind, IsPage U digit dom kind u) :
    ∃ kinds, urls.mapM (classifyUrl U digit) = .ok kinds ∧
      ∀ kind, kinds.count (some kind) = urls.countP (IsPage U digit dom kind ·) := by
  induction urls with
  | nil => exact ⟨[], rfl, fun kind => rfl⟩
  | cons u urls ih =>
    obtain ⟨k, hk⟩ := h u List.mem_cons_self
    obtain ⟨kinds, hkinds, hcount⟩ := ih fun v hv => h v (List.mem_cons_of_mem u hv)
    refine ⟨some k :: kinds, ?_, fun kind => ?_⟩
    · rw [List.mapM_cons, hk.2, hkinds]
      rfl
    · rw [List.count_cons, List.countP_cons, hcount kind]
      congr 1
      by_cases heq : k = kind
      · rw [← heq]
        simp [hk]
      · have hnot : ¬ IsPage U digit dom kind u := fun hpage => heq (hk.kind_eq hpage)
        simp [hnot, heq]

theorem countKind_eq {urls : List (List Char)} (h : ∀ u ∈ urls, ∃ kind, IsPage U digit dom kind u)
    (kind : IntelKind) :
    countKind U digit kind urls = .ok (urls.countP (IsPage U digit dom kind ·)) := by
  obtain ⟨kinds, hkinds, hcount⟩ := mapM_classifyUrl h
  unfold countKind
  rw [hkinds, ← hcount kind]
  rfl

/-- The pages of one kind that have been seen. -/
def bucket (U : Unicode) (digit : Char → Bool) (dom : List Char) (s : IntelBuckets)
    (kind : IntelKind) : List (List Char) :=
  s.seen.filter (IsPage U digit dom kind ·)

theorem Collected.mem_bucket (h : Collected U digit dom rows s) :
    u ∈ bucket U digit dom s kind ↔ u ∈ rows ∧ IsPage U digit dom kind u := by
  unfold bucket
  rw [List.mem_filter, h.mem u, decide_eq_true_eq]
  exact ⟨fun hu => ⟨hu.1.1, hu.2⟩, fun hu => ⟨⟨hu.1, kind, hu.2⟩, hu.2⟩⟩

theorem Collected.isPage_of_mem_take (h : Collected U digit dom rows s) {k : ℕ}
    (hu : u ∈ (bucket U digit dom s kind).take k) : IsPage U digit dom kind u :=
  (h.mem_bucket.mp (List.mem_of_mem_take hu)).2

theorem Collected.inOrder_bucket (h : Collected U digit dom rows s) (kind : IntelKind) :
    (bucket U digit dom s kind).Pairwise fun u v => rows.idxOf u < rows.idxOf v :=
  h.inOrder.sublist List.filter_sublist

/-- How many pages of a kind are in a part of a bucket: all, or none. -/
theorem Collected.countP_take (h : Collected U digit dom rows s) (kind kind' : IntelKind)
    (k : ℕ) : ((bucket U digit dom s kind').take k).countP (IsPage U digit dom kind ·) =
      if kind = kind' then ((bucket U digit dom s kind').take k).length else 0 := by
  split
  · next heq =>
    rw [heq, List.countP_eq_length]
    exact fun u hu => decide_eq_true (h.isPage_of_mem_take hu)
  · next hne =>
    rw [List.countP_eq_zero]
    intro u hu hpage
    exact hne ((of_decide_eq_true hpage).kind_eq (h.isPage_of_mem_take hu))

/-- The pages of both kinds, cut at limits for each of them. -/
def cutBuckets (U : Unicode) (digit : Char → Bool) (dom : List Char) (s : IntelBuckets)
    (a b : ℕ) : List (List Char) :=
  (bucket U digit dom s .jobs).take a ++ (bucket U digit dom s .news).take b

section

variable {a b maxNews maxJobs maxTotal : ℕ}

theorem Collected.mem_cut (h : Collected U digit dom rows s)
    (hu : u ∈ cutBuckets U digit dom s a b) :
    u ∈ rows ∧ ∃ kind, IsPage U digit dom kind u := by
  rcases List.mem_append.mp hu with hu | hu
  · have hpage := h.mem_bucket.mp (List.mem_of_mem_take hu)
    exact ⟨hpage.1, .jobs, hpage.2⟩
  · have hpage := h.mem_bucket.mp (List.mem_of_mem_take hu)
    exact ⟨hpage.1, .news, hpage.2⟩

/-- What is so for the pages of each kind, and for a vacancy and a news page, is so for the pages
that are cut out. -/
theorem Collected.pairwise_cut (h : Collected U digit dom rows s)
    {R : List Char → List Char → Prop}
    (hkind : ∀ kind, (bucket U digit dom s kind).Pairwise R)
    (hboth : ∀ u v, IsPage U digit dom .jobs u → IsPage U digit dom .news v → R u v) :
    (cutBuckets U digit dom s a b).Pairwise R := by
  unfold cutBuckets
  rw [List.pairwise_append]
  refine ⟨(hkind .jobs).sublist (List.take_sublist _ _),
    (hkind .news).sublist (List.take_sublist _ _), fun u hu v hv => ?_⟩
  exact hboth u v (h.isPage_of_mem_take hu) (h.isPage_of_mem_take hv)

theorem Collected.countP_cut (h : Collected U digit dom rows s) (kind : IntelKind) :
    (cutBuckets U digit dom s a b).countP (IsPage U digit dom kind ·) =
      match kind with
      | .jobs => ((bucket U digit dom s .jobs).take a).length
      | .news => ((bucket U digit dom s .news).take b).length := by
  unfold cutBuckets
  rw [List.countP_append, h.countP_take, h.countP_take]
  cases kind with
  | jobs => simp
  | news => simp

theorem Collected.nodup_cut (h : Collected U digit dom rows s) :
    (cutBuckets U digit dom s a b).Nodup := by
  refine h.pairwise_cut (fun kind => h.nodup.sublist List.filter_sublist) fun u v hu hv => ?_
  rintro rfl
  cases hu.kind_eq hv

/-- The loop that merges cuts the vacancies at two limits, and the news at one and what is left of
the other. -/
theorem Collected.mergeUrls_eq (h : Collected U digit dom rows s)
    (maxNews maxJobs maxTotal : ℕ) :
    mergeUrls maxTotal [] (s.jobs.take maxJobs ++ s.news.take maxNews) =
      cutBuckets U digit dom s (min maxTotal maxJobs)
        (min (maxTotal - (s.jobs.take maxJobs).length) maxNews) := by
  have hjobs : s.jobs = bucket U digit dom s .jobs := h.jobs
  have hnews : s.news = bucket U digit dom s .news := h.news
  have hnodup : ([] ++ (s.jobs.take maxJobs ++ s.news.take maxNews)).Nodup := by
    rw [List.nil_append, hjobs, hnews]
    exact h.nodup_cut
  rw [Domain.mergeUrls_eq hnodup (Nat.zero_le _), List.nil_append, List.length_nil, Nat.sub_zero,
    List.take_append, List.take_take, List.take_take, hjobs, hnews]
  rfl

/-- A page is only left out if one of the limits has been reached. -/
theorem Collected.full (h : Collected U digit dom rows s) {urls : List (List Char)}
    (hurls : urls = cutBuckets U digit dom s (min maxTotal maxJobs)
      (min (maxTotal - (s.jobs.take maxJobs).length) maxNews))
    (hle : urls.length ≤ maxTotal) (hu : u ∈ bucket U digit dom s kind) (hnot : u ∉ urls) :
    urls.countP (IsPage U digit dom kind ·) = kindCap maxNews maxJobs kind ∨
      urls.length = maxTotal := by
  have hjobs : s.jobs = bucket U digit dom s .jobs := h.jobs
  have hlen : urls.length = ((bucket U digit dom s .jobs).take (min maxTotal maxJobs)).length +
      ((bucket U digit dom s .news).take
        (min (maxTotal - (s.jobs.take maxJobs).length) maxNews)).length := by
    rw [hurls]
    exact List.length_append
  rw [hurls] at hnot
  obtain ⟨hnotJobs, hnotNews⟩ := not_or.mp (mt List.mem_append.mpr hnot)
  rw [hurls, h.countP_cut, ← hurls]
  cases kind with
  | jobs =>
    -- the vacancies fill their own limit, or the limit of all pages
    have hcut := length_take_of_not_mem hu hnotJobs
    show ((bucket U digit dom s .jobs).take _).length = maxJobs ∨ _
    omega
  | news =>
    -- the news fill their own limit, or what the vacancies have left
    have hcut := length_take_of_not_mem hu hnotNews
    have htake : (s.jobs.take maxJobs).length =
        min maxJobs (bucket U digit dom s .jobs).length := by
      rw [hjobs, List.length_take]
    have htake' := List.length_take (i := min maxTotal maxJobs)
      (l := bucket U digit dom s .jobs)
    show ((bucket U digit dom s .news).take _).length = maxNews ∨ _
    omega

/-- No vacancy comes after a news page. -/
theorem Collected.jobsFirst_cut (h : Collected U digit dom rows s) :
    (cutBuckets U digit dom s a b).Pairwise fun u v =>
      IsPage U digit dom .news u → ¬ IsPage U digit dom .jobs v := by
  refine h.pairwise_cut (fun kind => ?_) fun u v hu hv hnews => ?_
  · -- the pages of one bucket have one kind
    refine List.pairwise_of_forall_mem_list fun u hu v hv hnews hjobs => ?_
    have hu := h.mem_bucket.mp hu
    have hv := h.mem_bucket.mp hv
    cases (hnews.kind_eq hu.2).trans (hv.2.kind_eq hjobs)
  · cases hu.kind_eq hnews

/-- Pages of one kind are in the order in which they come first. -/
theorem Collected.inOrder_cut (h : Collected U digit dom rows s) :
    (cutBuckets U digit dom s a b).Pairwise fun u v => ∀ kind, IsPage U digit dom kind u →
      IsPage U digit dom kind v → rows.idxOf u < rows.idxOf v := by
  refine h.pairwise_cut (fun kind => ?_) fun u v hu hv kind hku hkv => ?_
  · exact (h.inOrder_bucket kind).imp fun hlt _ _ _ => hlt
  · cases (hu.kind_eq hku).trans (hkv.kind_eq hv)

/-- What is left out of a bucket comes after what is taken from it. -/
theorem Collected.later (h : Collected U digit dom rows s) {v : List Char}
    (hu : u ∈ bucket U digit dom s kind) (hnot : u ∉ cutBuckets U digit dom s a b)
    (hv : v ∈ cutBuckets U digit dom s a b) (hpage : IsPage U digit dom kind v) :
    rows.idxOf v < rows.idxOf u := by
  obtain ⟨hnotJobs, hnotNews⟩ := not_or.mp (mt List.mem_append.mpr hnot)
  have horder := h.inOrder_bucket kind
  let R : List Char → List Char → Prop := fun u v => rows.idxOf u < rows.idxOf v
  rcases List.mem_append.mp hv with hv | hv
  · obtain rfl := hpage.kind_eq (h.isPage_of_mem_take hv)
    exact rel_of_not_mem_take (R := R) horder hu hnotJobs hv
  · obtain rfl := hpage.kind_eq (h.isPage_of_mem_take hv)
    exact rel_of_not_mem_take (R := R) horder hu hnotNews hv

/-- What has been collected is cut to a selection. -/
theorem Collected.selected (h : Collected U digit domain (links.map strip) s)
    {urls : List (List Char)}
    (hurls : urls = cutBuckets U digit domain s (min maxTotal maxJobs)
      (min (maxTotal - (s.jobs.take maxJobs).length) maxNews))
    {stats : IntelStats}
    (hjobs : stats.jobs = urls.countP (IsPage U digit domain .jobs ·))
    (hnews : stats.news = urls.countP (IsPage U digit domain .news ·)) :
    Selected U digit links domain maxNews maxJobs maxTotal urls stats := by
  have hcount := h.countP_cut (a := min maxTotal maxJobs)
    (b := min (maxTotal - (s.jobs.take maxJobs).length) maxNews)
  rw [← hurls] at hcount
  have hlen : urls.length = urls.countP (IsPage U digit domain .jobs ·) +
      urls.countP (IsPage U digit domain .news ·) := by
    rw [hcount .jobs, hcount .news, hurls]
    exact List.length_append
  have hle : urls.length ≤ maxTotal := by
    -- the news get what the vacancies have left of the limit of all pages
    rw [hlen, hcount .jobs, hcount .news, List.length_take, List.length_take, h.jobs,
      List.length_take]
    show min _ (bucket U digit domain s .jobs).length +
      min (min (maxTotal - min _ (bucket U digit domain s .jobs).length) _) _ ≤ _
    omega
  constructor
  · exact fun u hu => (h.mem_cut (hurls ▸ hu)).1
  · exact fun u hu => (h.mem_cut (hurls ▸ hu)).2
  · rw [hurls]
    exact h.nodup_cut
  · rw [hurls]
    exact h.jobsFirst_cut
  · rw [hurls]
    exact h.inOrder_cut
  · intro kind
    rw [hcount kind]
    cases kind with
    | jobs =>
      show ((bucket U digit domain s .jobs).take _).length ≤ maxJobs
      rw [List.length_take]
      omega
    | news =>
      show ((bucket U digit domain s .news).take _).length ≤ maxNews
      rw [List.length_take]
      omega
  · exact hle
  · exact fun kind u hu hpage hnot => h.full hurls hle (h.mem_bucket.mpr ⟨hu, hpage⟩) hnot
  · intro kind u hu hpage hnot v hv hpage'
    rw [hurls] at hnot hv
    exact h.later (h.mem_bucket.mpr ⟨hu, hpage⟩) hnot hv hpage'
  · rw [hjobs, hnews, hlen]

end

end

/-- `select_intel_urls` makes its selection exactly if `urlparse` takes every link for a URL. -/
theorem selectsWell_iff (U : Unicode) (hfix : U.LowerFixed) (digit : Char → Bool)
    (links : List (List Char)) (domain : List Char) (maxNews maxJobs maxTotal : ℕ) :
    SelectsWell U digit links domain maxNews maxJobs maxTotal ↔ AllParse U links := by
  have hselects : selectIntelUrls U digit links domain maxNews maxJobs maxTotal = do
      let s ← links.foldlM (takeLink U digit domain) {}
      let merged := mergeUrls maxTotal [] (s.jobs.take maxJobs ++ s.news.take maxNews)
      let jobs ← countKind U digit .jobs merged
      let news ← countKind U digit .news merged
      return (merged, { s.stats with jobs, news }) := by
    rw [← takeLink_lower hfix]
    rfl
  unfold SelectsWell
  rw [hselects]
  constructor
  · rintro ⟨urls, stats, hselect, -⟩
    by_contra hnot
    -- the selection raises with the loop
    obtain ⟨e, he⟩ := foldlM_error digit domain hnot {}
    rw [he] at hselect
    cases hselect
  · intro hparse
    obtain ⟨s, hs, hcollected⟩ := collected_foldlM hparse (collected_nil U digit domain)
    rw [List.nil_append] at hcollected
    have hmerge := hcollected.mergeUrls_eq maxNews maxJobs maxTotal
    let merged := mergeUrls maxTotal [] (s.jobs.take maxJobs ++ s.news.take maxNews)
    have hpages : ∀ u ∈ merged, ∃ kind, IsPage U digit domain kind u := by
      intro u hu
      rw [show merged = _ from hmerge] at hu
      exact (hcollected.mem_cut hu).2
    let count (kind : IntelKind) := merged.countP (IsPage U digit domain kind ·)
    let stats : IntelStats := { s.stats with jobs := count .jobs, news := count .news }
    have hstats : (do
        let jobs ← countKind U digit .jobs merged
        let news ← countKind U digit .news merged
        return (merged, { s.stats with jobs, news })) = Except.ok (merged, stats) := by
      rw [countKind_eq hpages, countKind_eq hpages]
      rfl
    rw [hs]
    exact ⟨merged, stats, hstats, hcollected.selected hmerge rfl rfl⟩

/-- Two pages, in the order of their kinds. -/
theorem selectsWell_iff_pages : SelectsWell .ascii Char.isDigit
    ["https://acme.com/nieuws/a".toList, "https://acme.com/careers".toList] "Acme.com".toList
    14 10 22 :=
  (selectsWell_iff .ascii Unicode.ascii_lowerFixed Char.isDigit _ _ 14 10 22).mpr
    fun raw hraw => by
      have hall : ∀ l ∈ ["https://acme.com/nieuws/a".toList, "https://acme.com/careers".toList],
          Url.netloc .ascii (strip l) = .ok "acme.com".toList := by decide +kernel
      exact ⟨_, hall raw hraw⟩

/-- A link with half of an IPv6 address costs the careers page. -/
theorem halfAddress_selects_nothing : ¬ SelectsWell .ascii Char.isDigit
    ["https://acme.com/careers".toList, "http://[x".toList] "acme.com".toList 14 10 22 := by
  rintro ⟨urls, stats, hselect, -⟩
  have herror : selectIntelUrls .ascii Char.isDigit
      ["https://acme.com/careers".toList, "http://[x".toList] "acme.com".toList 14 10 22 =
      .error .invalidIPv6Url := by
    decide +kernel
  rw [herror] at hselect
  cases hselect

end Domain
end LeadPulse
