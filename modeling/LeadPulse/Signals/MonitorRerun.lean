import LeadPulse.Signals.Monitor

/-!
# A second run of the monitor

A run of `monitor_company` looks at the pages that it fetches and that have content. As no page
comes twice in a run (`nodup_monitorTargets`), each has a key of its own in Redis, and the pages
that are reported as changed are those that Redis did not know before the run
(`pagesChanged_eq_countP`).

By `monitorCompany_rerun` a page that has been scraped with the same words before does not look
changed, whatever the other pages of either run have come to, and however many runs for other
companies lie between the two.
-/

namespace LeadPulse
namespace Monitor

open PyStr Cache
open Domain (selectIntelUrls nodup_of_selectIntelUrls)

/-! ## No page comes twice -/

section

variable {L : Libraries} {call : MonitorCall} {U : Unicode} {baseUrl domain : List Char}
  {targets targets' : List (List Char)}

theorem nodup_of_mapTargets (h : mapTargets L call domain = some targets) : targets.Nodup := by
  unfold mapTargets at h
  split at h
  · cases h
  · split at h
    · cases h
    · next hselect =>
      obtain rfl := Option.some.inj h
      exact nodup_of_selectIntelUrls hselect

/-- The paths of the fallback list are different pages, whatever the domain. -/
theorem nodup_fallback (h : fallbackIntelPaths.mapM (joinPath U ("https://".toList ++ domain)) =
    .ok targets) : targets.Nodup := by
  let base := "https://".toList ++ domain ++ ['/']
  have hbase : base ≠ [] := by simp [base]
  have hplain : ∀ p ∈ fallbackIntelPaths, Url.PlainSegment (p.dropWhile (· == '/')) := by
    decide +kernel
  have hnodup : (fallbackIntelPaths.map fun p => p.dropWhile (· == '/')).Nodup := by
    decide +kernel
  cases hparse : Url.parse U base [] with
  | error e =>
    -- then the first path raises
    have hcareers : joinPath U ("https://".toList ++ domain) "/careers".toList = .error e :=
      Url.join_error hbase (by decide) hparse
    unfold fallbackIntelPaths at h
    rw [List.map_cons, List.mapM_cons, hcareers] at h
    cases h
  | ok b =>
    have hscheme : b.scheme = "https".toList := by
      have hassoc : base = "https://".toList ++ (domain ++ ['/']) := List.append_assoc ..
      rw [hassoc] at hparse
      exact Url.scheme_of_parse_https hparse
    -- the pages have one front, so that their paths tell them apart
    obtain ⟨front, hfront⟩ := Url.exists_join_eq_append hbase hparse hscheme
    have hjoin : ∀ p ∈ fallbackIntelPaths, joinPath U ("https://".toList ++ domain) p =
        .ok (front ++ p.dropWhile (· == '/')) := fun p hp => hfront _ (hplain p hp)
    rw [Raises.mapM_eq_ok hjoin] at h
    obtain rfl := Except.ok.inj h
    have hmap : (fallbackIntelPaths.map fun p => front ++ p.dropWhile (· == '/')) =
        (fallbackIntelPaths.map fun p => p.dropWhile (· == '/')).map (front ++ ·) := by
      rw [List.map_map]
      rfl
    rw [hmap]
    exact hnodup.map fun _ _ => List.append_cancel_left

theorem nodup_pickTargets
    (h : pickTargets L call domain ("https://".toList ++ domain) = .ok targets) :
    targets.Nodup := by
  unfold pickTargets at h
  dsimp only at h
  split at h
  · exact nodup_fallback h
  · obtain rfl := Except.ok.inj h
    cases hmap : mapTargets L call domain with
    | none => exact List.nodup_nil
    | some targets => exact nodup_of_mapTargets hmap

theorem nodup_addSeed {extra : List Char} (hnodup : targets.Nodup)
    (h : addSeed U baseUrl targets extra = .ok targets') : targets'.Nodup := by
  obtain ⟨u, -, h⟩ := Raises.ok_of_bind h
  obtain rfl := Except.ok.inj h
  split
  · exact hnodup
  · next hnot =>
    rw [← List.concat_eq_append]
    exact List.Nodup.concat (mt List.contains_iff_mem.mpr hnot) hnodup

theorem nodup_monitorTargets
    (h : monitorTargets L call domain ("https://".toList ++ domain) = .ok targets) :
    targets.Nodup := by
  obtain ⟨picked, hpicked, h⟩ := Raises.ok_of_bind h
  obtain ⟨seeded, hseeded, h⟩ := Raises.ok_of_bind h
  obtain rfl := Except.ok.inj h
  have hnodup := Raises.foldlM_inv (fun _ _ _ => nodup_addSeed) (nodup_pickTargets hpicked) hseeded
  exact hnodup.sublist (List.take_sublist _ _)

end

/-! ## Keys -/

/-- The key tells the company and the page. -/
theorem redisHashKey_inj {i j : ℕ} {url url' : List Char}
    (h : redisHashKey i url = redisHashKey j url') : i = j ∧ url = url' := by
  have hcolon (n : ℕ) : ':' ∉ Nat.toDigits 10 n := by
    intro hmem
    have hdigit := Nat.isDigit_of_mem_toDigits (by decide) (by decide) hmem
    cases hdigit
  unfold redisHashKey at h
  rw [List.append_assoc, List.append_assoc] at h
  have h := List.append_cancel_left h
  -- an id ends where the first colon stands, whatever colons are in the URL
  have hdigits : Nat.toDigits 10 i = Nat.toDigits 10 j := by
    calc Nat.toDigits 10 i = upTo ':' (Nat.toDigits 10 i ++ ':' :: url) :=
          (upTo_append_cons (hcolon i) url).symm
      _ = upTo ':' (Nat.toDigits 10 j ++ ':' :: url') := by rw [h]
      _ = Nat.toDigits 10 j := upTo_append_cons (hcolon j) url'
  have hid : i = j := by
    calc i = Nat.ofDigitChars 10 (Nat.toDigits 10 i) 0 := Nat.ofDigitChars_ten_toDigits.symm
      _ = Nat.ofDigitChars 10 (Nat.toDigits 10 j) 0 := by rw [hdigits]
      _ = j := Nat.ofDigitChars_ten_toDigits
  rw [hdigits] at h
  exact ⟨hid, List.tail_eq_of_cons_eq (List.append_cancel_left h)⟩

/-! ## The pages that are fetched -/

/-- The pages of the loop that are fetched, from the `i`-th on, each with its turn. -/
def fetchedFrom (robots : Option (List Char → Except ValueError Bool)) (turn : ℕ → Turn) :
    ℕ → List (List Char) → List (List Char × Turn)
  | _, [] => []
  | i, pageUrl :: targets =>
    if maxRuntime < (turn i).elapsed then []
    else
      match canFetch robots pageUrl with
      | .error _ => []
      | .ok false => fetchedFrom robots turn (i + 1) targets
      | .ok true => (pageUrl, turn i) :: fetchedFrom robots turn (i + 1) targets

/-- The pages that a call fetches. -/
def MonitorCall.fetched (L : Libraries) (call : MonitorCall) : List (List Char × Turn) :=
  match call.company with
  | none => []
  | some company =>
    if company.status = .archived then []
    else
      let baseUrl := "https://".toList ++ company.domain
      match monitorTargets L call company.domain baseUrl with
      | .error _ => []
      | .ok targets => fetchedFrom (fetchRobotsTxt L call baseUrl) call.turn 0 targets

/-- The call scrapes the page, and finds content. -/
def MonitorCall.ScrapesContent (L : Libraries) (call : MonitorCall) (pageUrl markdown : List Char) :
    Prop :=
  ∃ turn, (pageUrl, turn) ∈ call.fetched L ∧ turn.scrape = .ok markdown ∧
    hasContent markdown = true

/-- Redis answers whenever the call asks it. -/
def MonitorCall.RedisWorks (call : MonitorCall) : Prop :=
  ∀ i, (call.turn i).canRead = true ∧ (call.turn i).canWrite = true

/-- The hashes of the pages that the call fetches have not expired when it reads them. -/
def MonitorCall.FindsUnexpired (L : Libraries) (call : MonitorCall) (cache : HashCache) : Prop :=
  ∀ pageUrl turn, (pageUrl, turn) ∈ call.fetched L → ∀ hash until',
    cache (redisHashKey call.companyId pageUrl) = some (hash, until') → turn.readAt < until'

/-- A page with content, as the cache sees it. -/
def lookOf (L : Libraries) (companyId : ℕ) (p : List Char × Turn) :
    Option (Look (List Char) (List Char) Time) :=
  match p.2.scrape with
  | .error _ => none
  | .ok markdown =>
    if hasContent markdown then
      some ⟨redisHashKey companyId p.1, contentHash L markdown, p.2.readAt, p.2.writeAt⟩
    else none

/-- What a call looks at. -/
def MonitorCall.looks (L : Libraries) (call : MonitorCall) :
    List (Look (List Char) (List Char) Time) :=
  (call.fetched L).filterMap (lookOf L call.companyId)

section

variable {L : Libraries} {call : MonitorCall} {companyId : ℕ} {s : PageState} {cache : HashCache}
  {pageUrl markdown : List Char} {turn : ℕ → Turn} {t : Turn}
  {robots : Option (List Char → Except ValueError Bool)}

theorem lookOf_eq_some {l : Look (List Char) (List Char) Time} :
    lookOf L companyId (pageUrl, t) = some l ↔ ∃ markdown, t.scrape = .ok markdown ∧
      hasContent markdown = true ∧
      l = ⟨redisHashKey companyId pageUrl, contentHash L markdown, t.readAt, t.writeAt⟩ := by
  unfold lookOf
  cases hscrape : t.scrape with
  | error e => simp
  | ok markdown =>
    dsimp only
    split
    · next hcontent =>
      rw [Option.some_inj]
      constructor
      · rintro rfl
        exact ⟨markdown, rfl, hcontent, rfl⟩
      · rintro ⟨markdown', heq, -, rfl⟩
        obtain rfl := Except.ok.inj heq
        rfl
    · next hcontent =>
      constructor
      · intro h
        cases h
      · rintro ⟨markdown', heq, hcontent', -⟩
        obtain rfl := Except.ok.inj heq
        exact absurd hcontent' hcontent

/-- A page without content changes neither the hashes nor the number of changed pages. -/
theorem visitPage_of_none (h : lookOf L companyId (pageUrl, t) = none) :
    (visitPage L companyId s pageUrl t).cache = s.cache ∧
      (visitPage L companyId s pageUrl t).result.pagesChanged = s.result.pagesChanged := by
  unfold lookOf at h
  unfold visitPage
  cases hscrape : t.scrape with
  | error e => exact ⟨rfl, rfl⟩
  | ok markdown =>
    rw [hscrape] at h
    dsimp only at h ⊢
    split at h
    · cases h
    · next hcontent =>
      simp only [if_neg hcontent]
      exact ⟨trivial, trivial⟩

/-- A page with content is a look at the cache. -/
theorem visitPage_of_some {l : Look (List Char) (List Char) Time}
    (h : lookOf L companyId (pageUrl, t) = some l) (hread : t.canRead = true)
    (hwrite : t.canWrite = true) :
    (visitPage L companyId s pageUrl t).cache = look hashTtl s.cache l ∧
      (visitPage L companyId s pageUrl t).result.pagesChanged =
        s.result.pagesChanged + if l.known s.cache then 0 else 1 := by
  obtain ⟨markdown, hscrape, hcontent, rfl⟩ := lookOf_eq_some.mp h
  have hcached : getCachedHash s.cache companyId pageUrl t =
      s.cache.get (redisHashKey companyId pageUrl) t.readAt := if_pos hread
  unfold visitPage look Look.known
  rw [hscrape]
  simp only [if_pos hcontent, hcached, decide_eq_true_eq]
  split
  · exact ⟨rfl, rfl⟩
  · refine ⟨?_, rfl⟩
    unfold setCachedHash
    rw [if_pos hwrite]

/-- The loop is a loop of looks. -/
theorem visitPages_looks (L : Libraries) (companyId : ℕ)
    (robots : Option (List Char → Except ValueError Bool))
    (hredis : ∀ i, (turn i).canRead = true ∧ (turn i).canWrite = true)
    (targets : List (List Char)) (i : ℕ) (s : PageState) :
    let looks := (fetchedFrom robots turn i targets).filterMap (lookOf L companyId)
    let s' := (visitPages L companyId robots turn i targets s).2
    s'.cache = lookAll hashTtl s.cache looks ∧
      s'.result.pagesChanged = s.result.pagesChanged + changes hashTtl s.cache looks := by
  induction targets generalizing i s with
  | nil => exact ⟨rfl, rfl⟩
  | cons pageUrl targets ih =>
    unfold visitPages fetchedFrom
    split
    · exact ⟨rfl, rfl⟩
    · cases hfetch : canFetch robots pageUrl with
      | error e => exact ⟨rfl, rfl⟩
      | ok allowed =>
        cases allowed with
        | false => exact ih (i + 1) _
        | true =>
          -- only a page with content is a look
          obtain ⟨hcache, hchanged⟩ := ih (i + 1) (visitPage L companyId s pageUrl (turn i))
          dsimp only at hcache hchanged ⊢
          cases hlook : lookOf L companyId (pageUrl, turn i) with
          | none =>
            obtain ⟨hsame, hcount⟩ := visitPage_of_none (s := s) hlook
            rw [List.filterMap_cons_none hlook, hcache, hchanged, hsame, hcount]
            exact ⟨rfl, rfl⟩
          | some l =>
            obtain ⟨hsame, hcount⟩ := visitPage_of_some (s := s) hlook (hredis i).1 (hredis i).2
            rw [List.filterMap_cons_some hlook, hcache, hchanged, hsame, hcount, Nat.add_assoc]
            exact ⟨rfl, rfl⟩

/-! ### A call as a loop -/

/-- The loop over `targets`, from `s` on, is what the call comes to. -/
structure IsLoop (L : Libraries) (call : MonitorCall) (cache : HashCache)
    (robots : Option (List Char → Except ValueError Bool)) (targets : List (List Char))
    (s : PageState) : Prop where
  nodup : targets.Nodup
  cache_eq : s.cache = cache
  unchanged : s.result.pagesChanged = 0
  fetched_eq : call.fetched L = fetchedFrom robots call.turn 0 targets
  end_cache : (monitorCompany L call cache).2 =
    (visitPages L call.companyId robots call.turn 0 targets s).2.cache
  end_changed : (monitorCompany L call cache).1.result.pagesChanged =
    (visitPages L call.companyId robots call.turn 0 targets s).2.result.pagesChanged

/-- A call that ends before its loop. -/
theorem isLoop_nil {r : MonitorEnd} (hend : monitorCompany L call cache = (r, cache))
    (hr : r.result.pagesChanged = 0) (hfetched : call.fetched L = []) :
    IsLoop L call cache none [] ⟨r.result, cache⟩ where
  nodup := List.nodup_nil
  cache_eq := rfl
  unchanged := hr
  fetched_eq := hfetched
  end_cache := congrArg Prod.snd hend
  end_changed := congrArg (·.1.result.pagesChanged) hend

theorem afterLoop_cache (x : Option ValueError × PageState) :
    (afterLoop call x).2 = x.2.cache := by
  obtain ⟨_ | e, s⟩ := x
  · rfl
  · rfl

theorem afterLoop_pagesChanged (x : Option ValueError × PageState) :
    (afterLoop call x).1.result.pagesChanged = x.2.result.pagesChanged := by
  obtain ⟨_ | e, s⟩ := x
  · rfl
  · rfl

theorem monitorPages_eq (L : Libraries) (call : MonitorCall) (domain : List Char)
    (cache : HashCache) : monitorPages L call domain cache =
      match monitorTargets L call domain ("https://".toList ++ domain) with
      | .error e => ({ result := beforeLoop L call domain, raised := some e }, cache)
      | .ok targets => afterLoop call (visitPages L call.companyId
          (fetchRobotsTxt L call ("https://".toList ++ domain)) call.turn 0 targets
          ⟨beforeLoop L call domain, cache⟩) := rfl

theorem exists_isLoop (L : Libraries) (call : MonitorCall) (cache : HashCache) :
    ∃ robots targets s, IsLoop L call cache robots targets s := by
  cases hcompany : call.company with
  | none =>
    have hend : monitorCompany L call cache = (missingCompany call.companyId, cache) := by
      rw [monitorCompany, hcompany]
    have hfetched : call.fetched L = [] := by
      rw [MonitorCall.fetched, hcompany]
    exact ⟨_, _, _, isLoop_nil hend rfl hfetched⟩
  | some company =>
    by_cases harchived : company.status = .archived
    · have hend : monitorCompany L call cache = (missingCompany call.companyId, cache) := by
        rw [monitorCompany, hcompany]
        exact if_pos harchived
      have hfetched : call.fetched L = [] := by
        rw [MonitorCall.fetched, hcompany]
        exact if_pos harchived
      exact ⟨_, _, _, isLoop_nil hend rfl hfetched⟩
    have hpages : monitorCompany L call cache = monitorPages L call company.domain cache := by
      rw [monitorCompany, hcompany]
      exact if_neg harchived
    have hfetched : call.fetched L =
        match monitorTargets L call company.domain ("https://".toList ++ company.domain) with
        | .error _ => []
        | .ok targets =>
          fetchedFrom (fetchRobotsTxt L call ("https://".toList ++ company.domain)) call.turn 0
            targets := by
      rw [MonitorCall.fetched, hcompany]
      exact if_neg harchived
    cases htargets : monitorTargets L call company.domain ("https://".toList ++ company.domain) with
    | error e =>
      -- `urljoin` raises before there is a loop
      rw [htargets] at hfetched
      have hend : monitorCompany L call cache =
          ({ result := beforeLoop L call company.domain, raised := some e }, cache) := by
        rw [hpages, monitorPages_eq, htargets]
      exact ⟨_, _, _, isLoop_nil hend rfl hfetched⟩
    | ok targets =>
      rw [htargets] at hfetched
      let s : PageState := ⟨beforeLoop L call company.domain, cache⟩
      have hend : monitorCompany L call cache = afterLoop call (visitPages L call.companyId
          (fetchRobotsTxt L call ("https://".toList ++ company.domain)) call.turn 0 targets s) := by
        rw [hpages, monitorPages_eq, htargets]
      refine ⟨_, targets, s, nodup_monitorTargets htargets, rfl, rfl, hfetched, ?_, ?_⟩
      · rw [hend, afterLoop_cache]
      · rw [hend, afterLoop_pagesChanged]

/-- A call is a loop of looks at the pages that it fetches. -/
theorem monitorCompany_looks (hredis : call.RedisWorks) (cache : HashCache) :
    (monitorCompany L call cache).2 = lookAll hashTtl cache (call.looks L) ∧
      (monitorCompany L call cache).1.result.pagesChanged =
        changes hashTtl cache (call.looks L) := by
  obtain ⟨robots, targets, s, hloop⟩ := exists_isLoop L call cache
  obtain ⟨hcache, hchanged⟩ := visitPages_looks L call.companyId robots hredis targets 0 s
  unfold MonitorCall.looks
  rw [hloop.end_cache, hloop.end_changed, hloop.fetched_eq, hcache, hchanged, hloop.cache_eq,
    hloop.unchanged, Nat.zero_add]
  exact ⟨rfl, rfl⟩

/-! ### Every page once -/

theorem fetchedFrom_sublist (targets : List (List Char)) (i : ℕ) :
    ((fetchedFrom robots turn i targets).map Prod.fst).Sublist targets := by
  induction targets generalizing i with
  | nil => exact List.Sublist.slnil
  | cons pageUrl targets ih =>
    unfold fetchedFrom
    split
    · exact List.nil_sublist _
    · split
      · exact List.nil_sublist _
      · exact (ih (i + 1)).cons pageUrl
      · exact (ih (i + 1)).cons_cons pageUrl

theorem nodup_fetched (L : Libraries) (call : MonitorCall) :
    ((call.fetched L).map Prod.fst).Nodup := by
  obtain ⟨robots, targets, s, hloop⟩ := exists_isLoop L call fun _ => none
  rw [hloop.fetched_eq]
  exact hloop.nodup.sublist (fetchedFrom_sublist targets 0)

theorem looks_sublist (ps : List (List Char × Turn)) :
    ((ps.filterMap (lookOf L companyId)).map Look.key).Sublist
      ((ps.map Prod.fst).map (redisHashKey companyId)) := by
  induction ps with
  | nil => exact List.Sublist.slnil
  | cons p ps ih =>
    obtain ⟨pageUrl, t⟩ := p
    cases hlook : lookOf L companyId (pageUrl, t) with
    | none =>
      rw [List.filterMap_cons_none hlook]
      exact ih.cons _
    | some l =>
      obtain ⟨markdown, -, -, rfl⟩ := lookOf_eq_some.mp hlook
      rw [List.filterMap_cons_some hlook]
      exact ih.cons_cons _

/-- The pages have different keys. -/
theorem nodup_looks (L : Libraries) (call : MonitorCall) :
    ((call.looks L).map Look.key).Nodup :=
  ((nodup_fetched L call).map fun _ _ h => (redisHashKey_inj h).2).sublist (looks_sublist _)

/-- A call reports the pages with content of which Redis does not hold the hash before the call. -/
theorem pagesChanged_eq_countP (hredis : call.RedisWorks) (cache : HashCache) :
    (monitorCompany L call cache).1.result.pagesChanged =
      (call.looks L).countP fun l => !l.known cache := by
  rw [(monitorCompany_looks hredis cache).2, changes_eq_countP (nodup_looks L call)]

theorem mem_looks {l : Look (List Char) (List Char) Time} :
    l ∈ call.looks L ↔ ∃ pageUrl t markdown, (pageUrl, t) ∈ call.fetched L ∧
      t.scrape = .ok markdown ∧ hasContent markdown = true ∧
      l = ⟨redisHashKey call.companyId pageUrl, contentHash L markdown, t.readAt, t.writeAt⟩ := by
  unfold MonitorCall.looks
  rw [List.mem_filterMap]
  constructor
  · rintro ⟨⟨pageUrl, t⟩, hmem, hlook⟩
    obtain ⟨markdown, hscrape, hcontent, rfl⟩ := lookOf_eq_some.mp hlook
    exact ⟨pageUrl, t, markdown, hmem, hscrape, hcontent, rfl⟩
  · rintro ⟨pageUrl, t, markdown, hmem, hscrape, hcontent, rfl⟩
    exact ⟨(pageUrl, t), hmem, lookOf_eq_some.mpr ⟨markdown, hscrape, hcontent, rfl⟩⟩

/-- After a call Redis holds the hash of every page that it has scraped with content. -/
theorem MonitorCall.ScrapesContent.cached (h : call.ScrapesContent L pageUrl markdown)
    (hredis : call.RedisWorks) (cache : HashCache) :
    ∃ until', (monitorCompany L call cache).2 (redisHashKey call.companyId pageUrl) =
      some (contentHash L markdown, until') := by
  obtain ⟨t, hmem, hscrape, hcontent⟩ := h
  let key := redisHashKey call.companyId pageUrl
  have hlook := mem_looks.mpr ⟨pageUrl, t, markdown, hmem, hscrape, hcontent, rfl⟩
  obtain ⟨until', huntil⟩ : ∃ until', lookAll hashTtl cache (call.looks L) key =
      some (contentHash L markdown, until') := exists_lookAll_of_mem (nodup_looks L call) hlook
  refine ⟨until', ?_⟩
  rw [(monitorCompany_looks hredis cache).1]
  exact huntil

/-! ### Other companies -/

theorem visitPage_other {id : ℕ} (hne : companyId ≠ id) (url : List Char) :
    (visitPage L companyId s pageUrl t).cache (redisHashKey id url) =
      s.cache (redisHashKey id url) := by
  have hkey : redisHashKey id url ≠ redisHashKey companyId pageUrl :=
    fun h => hne (redisHashKey_inj h).1.symm
  unfold visitPage
  split
  · rfl
  · dsimp only
    split
    · split
      · rfl
      · unfold setCachedHash
        split
        · exact setex_of_ne hkey
        · rfl
    · rfl

theorem visitPages_other {id : ℕ} (hne : companyId ≠ id) (url : List Char)
    (targets : List (List Char)) (i : ℕ) (s : PageState) :
    (visitPages L companyId robots turn i targets s).2.cache (redisHashKey id url) =
      s.cache (redisHashKey id url) := by
  induction targets generalizing i s with
  | nil => rfl
  | cons pageUrl targets ih =>
    unfold visitPages
    split
    · rfl
    · split
      · rfl
      · exact ih (i + 1) _
      · exact (ih (i + 1) _).trans (visitPage_other hne url)

/-- A call leaves the hashes of other companies alone, whether Redis works or not. -/
theorem monitorCompany_other {id : ℕ} (hne : call.companyId ≠ id) (url : List Char)
    (cache : HashCache) :
    (monitorCompany L call cache).2 (redisHashKey id url) = cache (redisHashKey id url) := by
  obtain ⟨robots, targets, s, hloop⟩ := exists_isLoop L call cache
  rw [hloop.end_cache, visitPages_other hne, hloop.cache_eq]

/-! ## The second run -/

/-- Redis after calls that are made one after the other. -/
def monitorAll (L : Libraries) (calls : List MonitorCall) (cache : HashCache) : HashCache :=
  calls.foldl (fun cache call => (monitorCompany L call cache).2) cache

theorem monitorAll_other {id : ℕ} {calls : List MonitorCall}
    (hne : ∀ call ∈ calls, call.companyId ≠ id) (url : List Char) (cache : HashCache) :
    monitorAll L calls cache (redisHashKey id url) = cache (redisHashKey id url) := by
  induction calls generalizing cache with
  | nil => rfl
  | cons call calls ih =>
    have hrest := ih (fun c hc => hne c (List.mem_cons_of_mem call hc))
      (monitorCompany L call cache).2
    exact hrest.trans (monitorCompany_other (hne call List.mem_cons_self) url cache)

theorem contentHash_congr {markdown' : List Char} (h : words markdown = words markdown') :
    contentHash L markdown = contentHash L markdown' := by
  unfold contentHash
  rw [h]

/-- A run reports no changed page if every page on which it finds content has had the same words in
a run before, with no other run for the company between the two, and the hashes have not expired. -/
theorem monitorCompany_rerun (L : Libraries) (first second : MonitorCall)
    (between : List MonitorCall) (cache : HashCache)
    (hsame : second.companyId = first.companyId)
    (hbetween : ∀ call ∈ between, call.companyId ≠ first.companyId)
    (hfirst : first.RedisWorks) (hsecond : second.RedisWorks)
    (hcontent : ∀ pageUrl markdown, second.ScrapesContent L pageUrl markdown →
      ∃ markdown', first.ScrapesContent L pageUrl markdown' ∧ words markdown' = words markdown)
    (hunexpired : second.FindsUnexpired L (monitorAll L (first :: between) cache)) :
    (monitorCompany L second (monitorAll L (first :: between) cache)).1.result.pagesChanged =
      0 := by
  rw [(monitorCompany_looks hsecond _).2]
  refine changes_eq_zero (nodup_looks L second) fun l hl => ?_
  obtain ⟨pageUrl, t, markdown, hmem, hscrape, hhas, rfl⟩ := mem_looks.mp hl
  obtain ⟨markdown', hscraped, hwords⟩ := hcontent pageUrl markdown ⟨t, hmem, hscrape, hhas⟩
  -- the first run has left the hash of the page, and the runs between have not touched it
  obtain ⟨until', huntil⟩ := hscraped.cached hfirst cache
  have hheld : monitorAll L (first :: between) cache (redisHashKey second.companyId pageUrl) =
      some (contentHash L markdown, until') := by
    rw [hsame, ← contentHash_congr hwords, ← huntil]
    exact monitorAll_other hbetween pageUrl _
  have hlt : t.readAt < until' := hunexpired pageUrl t hmem _ _ hheld
  exact decide_eq_true (get_of_eq hheld hlt)

end

def vacancies : List Char :=
  "We are hiring backend engineers and account managers in Utrecht.".toList

def vacanciesWrapped : List Char :=
  "We are hiring\n  backend engineers\n  and account managers\nin Utrecht.\n".toList

/-- Two texts are hashed, and `/jobs` may not be fetched. -/
def acmeLibraries : Libraries where
  unicode := .ascii
  digit := Char.isDigit
  sha256 text :=
    if text = vacancies then
      "9f3a07b9bda924488bc9c4da52bdae150fc57a3b669dcb291bc8bd2f6ab3fd2f".toList
    else "20253c7c05a575c245c33324461016ba25ebd1e110cd63ca0ad549f243a6c156".toList
  parseRobots _ baseUrl := some fun url => .ok !(baseUrl ++ "/jobs".toList).isPrefixOf url

/-- A call at which every clock shows `now`. -/
def callAt (now : Time) (companyId : ℕ) (domain : String)
    (links : Except String (List (List Char))) (scrape : ℕ → Except String (List Char)) :
    MonitorCall where
  companyId := companyId
  company := some { id := companyId, name := domain.toList, domain := domain.toList }
  robots := .ok "User-agent: *\nDisallow: /jobs".toList
  links := links
  turn i := { elapsed := 0, scrape := scrape i, readAt := now, writeAt := now }
  jobId := companyId
  createdAt := now
  startedAt := now
  completedAt := now
  elapsed := 0

/-- The careers page comes first, a page of vacancies is blocked, the news are short, and the blog
fails. -/
def acmeFirst : MonitorCall :=
  callAt 0 7 "acme.com"
    (.ok (["https://acme.com/careers", "https://acme.com/jobs/1", "https://acme.com/news",
      "https://acme.com/blog/launch"].map String.toList))
    fun i =>
      if i = 0 then .ok vacancies else if i = 2 then .ok "Soon more.".toList else .error "timeout"

/-- A call for another company. -/
def depotCall : MonitorCall :=
  callAt (hours 12) 8 "depot.nl" (.error "map") fun _ =>
    .ok "Warehouse staff and truck drivers wanted for our new site.".toList

/-- The links fail, and of the fallback list only the careers page has content. -/
def acmeSecond : MonitorCall :=
  callAt (hours 24) 7 "acme.com" (.error "map") fun i =>
    if i = 0 then .ok vacanciesWrapped
    else if i = 2 then .ok "Soon more.".toList else .error "timeout"

theorem monitorCompany_rerun_acme :
    (monitorCompany acmeLibraries acmeSecond
      (monitorAll acmeLibraries [acmeFirst, depotCall] fun _ => none)).1.result.pagesChanged =
        0 :=
  monitorCompany_rerun acmeLibraries acmeFirst acmeSecond [depotCall] _ rfl (by decide)
    (fun _ => ⟨rfl, rfl⟩) (fun _ => ⟨rfl, rfl⟩)
    (by
      rintro pageUrl markdown ⟨turn, hmem, hscrape, hhas⟩
      -- the careers page is the only one with content
      have hpages : ∀ p ∈ acmeSecond.fetched acmeLibraries,
          p = ("https://acme.com/careers".toList, acmeSecond.turn 0) ∨
            lookOf acmeLibraries 7 p = none := by decide +kernel
      rcases hpages _ hmem with heq | hnone
      · obtain ⟨rfl, rfl⟩ := Prod.mk.inj heq
        obtain rfl : vacanciesWrapped = markdown := Except.ok.inj hscrape
        have hfirst : ("https://acme.com/careers".toList, acmeFirst.turn 0) ∈
            acmeFirst.fetched acmeLibraries := by decide +kernel
        exact ⟨vacancies, ⟨_, hfirst, rfl, by decide +kernel⟩, by decide +kernel⟩
      · have hsome : lookOf acmeLibraries 7 (pageUrl, turn) = some _ :=
          lookOf_eq_some.mpr ⟨markdown, hscrape, hhas, rfl⟩
        rw [hnone] at hsome
        cases hsome)
    (by
      have hall : ∀ p ∈ acmeSecond.fetched acmeLibraries,
          ∀ e ∈ monitorAll acmeLibraries [acmeFirst, depotCall] (fun _ => none)
            (redisHashKey 7 p.1), p.2.readAt < e.2 := by decide +kernel
      exact fun pageUrl turn hmem hash until' heq => hall (pageUrl, turn) hmem (hash, until') heq)

end Monitor
end LeadPulse
