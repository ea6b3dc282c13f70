import LeadPulse.Domain.Idempotent

/-!
# News and vacancy pages

`classify_url` of `services/intel_target_urls.py`. It looks for a fragment in the normalised
path, once between slashes and once as the start of a segment, and in the end at the last two
segments of the path as it is.

`classifyUrl_iff` is the rule that comes out: a page is taken by the segments of its normalised
path alone. The last look finds nothing that the first two have not (`slugKind_eq_none`).
-/

namespace LeadPulse

/-- A slash is no letter, and `str.lower` does not look past it. -/
def Unicode.LowerSlash (U : Unicode) : Prop :=
  ∀ a b, U.lower (a ++ '/' :: b) = U.lower a ++ '/' :: U.lower b

theorem Unicode.ascii_lowerSlash : Unicode.ascii.LowerSlash := by
  intro a b
  show (a ++ '/' :: b).map Char.toLower = _
  rw [List.map_append]
  rfl

namespace Domain

open PyStr

/-- What a page is scraped for. -/
inductive IntelKind where
  | news
  | jobs
deriving DecidableEq, Repr

/-! ## The tables -/

/-- `_NEWS_FRAGMENTS` -/
def newsFragments : List (List Char) :=
  ["news", "nieuws", "blog", "blogs", "press", "pers", "media", "magazine", "stories", "story",
    "article", "articles", "insights", "updates", "announcements", "releases", "changelog",
    "release-notes", "events", "evenementen", "persbericht", "aktuelles",
    "nachrichten"].map String.toList

/-- `_JOBS_FRAGMENTS` -/
def jobsFragments : List (List Char) :=
  ["career", "careers", "jobs", "job", "vacancy", "vacancies", "vacatures", "vacature",
    "werken-bij", "werkenbij", "werk-bij", "join-us", "joinus", "join-our-team", "hiring",
    "recruitment", "recruit", "openings", "open-positions", "positions", "stellenangebote",
    "stellenangebot", "karriere", "employment"].map String.toList

/-- `_EXCLUDE_SUBSTRINGS` -/
def excludeSubstrings : List (List Char) :=
  ["/login", "/signin", "/signup", "/register", "/auth/", "/account", "/cart", "/checkout",
    "/privacy", "/terms", "/cookie", "/disclaimer", "/wp-admin", "/wp-content", "/wp-includes",
    "/admin", "/cdn/", "/assets/", "/static/", "/fonts/", "/images/", "/img/",
    "/favicon"].map String.toList

/-- `_EXCLUDE_EXTENSIONS` -/
def excludeExtensions : List (List Char) :=
  [".pdf", ".jpg", ".jpeg", ".png", ".gif", ".webp", ".svg", ".ico", ".zip", ".mp4", ".mp3",
    ".xml", ".rss", ".atom"].map String.toList

/-- `_BARE_MARKETING_SEGMENTS` -/
def bareMarketingSegments : List (List Char) :=
  ["about", "about-us", "over-ons", "contact", "pricing", "product", "products", "services",
    "solutions", "home", "team", "leadership", "customers", "clients", "faq", "support",
    "documentation", "docs"].map String.toList

/-! ## `classify_url` -/

/-- `path or "/"` -/
def pathOrSlash (path : List Char) : List Char := if path = [] then ['/'] else path

def normalizedPath (U : Unicode) (path : List Char) : List Char :=
  let p := strip (U.lower (pathOrSlash path))
  let p := if ['/'] <+: p then p else '/' :: p
  let p := if 1 < p.length ∧ ['/'] <:+ p then p.dropLast else p
  if p = ['/'] then ['/'] else p ++ ['/']

def pathSegments (normPath : List Char) : List (List Char) := parts '/' (stripChar '/' normPath)

def segmentMatchesSegment (U : Unicode) (s : List Char) (fragments : List (List Char)) : Bool :=
  fragments.any fun frag =>
    U.lower s = frag ∨ frag ++ ['-'] <+: U.lower s ∨ frag ++ ['_'] <+: U.lower s

def fragmentHit (U : Unicode) (normPath : List Char) (fragments : List (List Char)) : Bool :=
  (fragments.any fun frag =>
    let needle := '/' :: frag ++ ['/']
    needle <:+: normPath ∨ needle <+: normPath ∨ normPath = needle) ||
  (pathSegments normPath).any fun seg => segmentMatchesSegment U seg fragments

/-- What `[a-z0-9]` matches if case is ignored: there are letters outside ASCII whose other case
is an `i`, an `s` or a `k`. -/
def isSlugChar (c : Char) : Bool := c.isAlphanum ∨ c.toNat ∈ [0x130, 0x131, 0x17F, 0x212A]

/-- `_SLUG_SEGMENT.match(s)`: words with a dash between them, and `$` also matches in front of a
last line feed. -/
def isSlugSegment (s : List Char) : Bool :=
  let s := if s.getLast? = some '\n' then s.dropLast else s
  (s.splitOn '-').all fun word => word ≠ [] ∧ word.all isSlugChar

/-- The end of `classify_url`, which looks at the last two segments. The characters of
`str.isdigit` are a parameter. -/
def slugKind (U : Unicode) (digit : Char → Bool) (path : List Char) : Option IntelKind :=
  match (pathSegments path).reverse with
  | [] => none
  | [seg] => if bareMarketingSegments.contains (U.lower seg) then none else none
  | leaf :: parent :: _ =>
    let parent := U.lower parent
    let leaf := U.lower leaf
    if newsFragments.contains parent ∨ jobsFragments.contains parent then
      if isSlugSegment leaf ∨ (leaf ≠ [] ∧ leaf.all digit) then
        some (if newsFragments.contains parent then .news else .jobs)
      else none
    else none

/-- What `classify_url` makes of the path of the URL. -/
def classifyPath (U : Unicode) (digit : Char → Bool) (parsed : List Char) : Option IntelKind :=
  let path := pathOrSlash parsed
  let norm := normalizedPath U path
  if excludeExtensions.any (· <:+ U.lower path) then none
  else if excludeSubstrings.any (· <:+: norm) then none
  else if fragmentHit U norm jobsFragments then some .jobs
  else if fragmentHit U norm newsFragments then some .news
  else slugKind U digit path

def classifyUrl (U : Unicode) (digit : Char → Bool) (url : List Char) :
    Except ValueError (Option IntelKind) :=
  (Url.path U url).map (classifyPath U digit)

/-! ## The rule -/

/-- A segment that is a fragment, or starts with one and a dash or an underscore. -/
def NamesFragment (fragments : List (List Char)) (seg : List Char) : Prop :=
  ∃ frag ∈ fragments, seg = frag ∨ frag ++ ['-'] <+: seg ∨ frag ++ ['_'] <+: seg

/-- A segment of the normalised path names a fragment. -/
def HasFragment (U : Unicode) (fragments : List (List Char)) (path : List Char) : Prop :=
  ∃ seg ∈ parts '/' (normalizedPath U path), NamesFragment fragments seg

/-- A path that neither ends in an excluded extension nor has an excluded part in its normalised
form. -/
def Admitted (U : Unicode) (path : List Char) : Prop :=
  (∀ ext ∈ excludeExtensions, ¬ ext <:+ U.lower path) ∧
    ∀ ex ∈ excludeSubstrings, ¬ ex <:+: normalizedPath U path

/-- What the fragments have in common: a text without slashes that does not start with a space. -/
structure IsWord (frag : List Char) : Prop where
  ne_nil : frag ≠ []
  slash : '/' ∉ frag
  head : frag.head?.any isSpace = false

theorem isWord_of_mem {frag : List Char} (h : frag ∈ newsFragments ∨ frag ∈ jobsFragments) :
    IsWord frag := by
  have hall : ∀ f ∈ newsFragments ++ jobsFragments,
      f ≠ [] ∧ '/' ∉ f ∧ f.head?.any isSpace = false := by decide +kernel
  obtain ⟨hne, hslash, hhead⟩ := hall frag (List.mem_append.mpr h)
  exact ⟨hne, hslash, hhead⟩

section

variable {U : Unicode} {path norm frag s : List Char} {fragments : List (List Char)}

/-! ## The normalised path -/

theorem pathSegments_eq (norm : List Char) : pathSegments norm = parts '/' norm :=
  parts_stripChar '/' norm

theorem pathOrSlash_pathOrSlash (path : List Char) :
    pathOrSlash (pathOrSlash path) = pathOrSlash path := by
  unfold pathOrSlash
  split <;> simp

theorem normalizedPath_pathOrSlash (U : Unicode) (path : List Char) :
    normalizedPath U (pathOrSlash path) = normalizedPath U path := by
  unfold normalizedPath
  rw [pathOrSlash_pathOrSlash]

/-- The text of the path, from its first slash on. -/
def slashed (p : List Char) : List Char := if ['/'] <+: p then p else '/' :: p

/-- The slash at the end is taken off and put on again, except that one of two slashes is
lost. -/
theorem normalizedPath_cases (U : Unicode) (path : List Char) :
    let q := slashed (strip (U.lower (pathOrSlash path)))
    normalizedPath U path = q ∨ normalizedPath U path = q ++ ['/'] ∨
      (q = ['/', '/'] ∧ normalizedPath U path = ['/']) := by
  intro q
  have hnorm : normalizedPath U path =
      let p := if 1 < q.length ∧ ['/'] <:+ q then q.dropLast else q
      if p = ['/'] then ['/'] else p ++ ['/'] := rfl
  rw [hnorm]
  dsimp only
  by_cases hslash : 1 < q.length ∧ ['/'] <:+ q
  · rw [if_pos hslash]
    obtain ⟨-, t, ht⟩ := hslash
    rw [← ht, List.dropLast_concat]
    by_cases hone : t = ['/']
    · rw [if_pos hone, hone]
      exact Or.inr (Or.inr ⟨rfl, rfl⟩)
    · rw [if_neg hone]
      exact Or.inl rfl
  · rw [if_neg hslash]
    by_cases hone : q = ['/']
    · rw [if_pos hone, hone]
      exact Or.inl rfl
    · rw [if_neg hone]
      exact Or.inr (Or.inl rfl)

/-- A character of the normalised path is a slash or comes from the path. -/
theorem mem_normalizedPath {c : Char} (h : c ∈ normalizedPath U path) :
    c = '/' ∨ c ∈ U.lower (pathOrSlash path) := by
  have hslashed (hc : c ∈ slashed (strip (U.lower (pathOrSlash path)))) :
      c = '/' ∨ c ∈ U.lower (pathOrSlash path) := by
    unfold slashed at hc
    split at hc
    · exact Or.inr ((strip_sublist _).subset hc)
    · rcases List.mem_cons.mp hc with hc | hc
      · exact Or.inl hc
      · exact Or.inr ((strip_sublist _).subset hc)
  rcases normalizedPath_cases U path with hnorm | hnorm | ⟨-, hnorm⟩
  · rw [hnorm] at h
    exact hslashed h
  · rw [hnorm] at h
    rcases List.mem_append.mp h with h | h
    · exact hslashed h
    · exact Or.inl (List.mem_singleton.mp h)
  · rw [hnorm] at h
    exact Or.inl (List.mem_singleton.mp h)

/-- The segments of the normalised path are in lower case. -/
theorem lower_segment (hfix : U.LowerFixed) (h : s ∈ parts '/' (normalizedPath U path)) :
    U.lower s = s := by
  refine hfix (pathOrSlash path) s fun c hc => ?_
  obtain ⟨hmem, hne⟩ := mem_of_mem_parts h hc
  exact (mem_normalizedPath hmem).resolve_left hne

/-- A word between slashes loses nothing if the text is stripped. -/
theorem infix_strip (hword : IsWord frag) (h : '/' :: frag ++ ['/'] <:+: '/' :: s) :
    '/' :: frag ++ ['/'] <:+: '/' :: strip s := by
  obtain ⟨a, b, hab⟩ := h
  have hspace : isSpace '/' = false := rfl
  cases a with
  | nil =>
    obtain ⟨c, cs, rfl⟩ := List.exists_cons_of_ne_nil hword.ne_nil
    have hhead : isSpace c = false := by simpa using hword.head
    have hs : (c :: cs) ++ '/' :: b = s := by simpa using hab
    refine ⟨[], b.rdropWhile isSpace, ?_⟩
    rw [← hs, strip_append_cons hspace, List.dropWhile_cons_of_neg (by simp [hhead])]
    simp
  | cons c a =>
    have hs : (a ++ '/' :: frag) ++ '/' :: b = s := by
      have htail := (List.cons.inj hab).2
      simpa using htail
    refine ⟨'/' :: a.dropWhile isSpace, b.rdropWhile isSpace, ?_⟩
    rw [← hs, strip_append_cons hspace, dropWhile_append_cons hspace]
    simp

/-- A word between slashes is still there in the text from its first slash on. -/
theorem infix_slashed (hword : IsWord frag) (h : '/' :: frag ++ ['/'] <:+: '/' :: s) :
    '/' :: frag ++ ['/'] <:+: slashed s := by
  unfold slashed
  split
  · next hslash =>
    obtain ⟨t, rfl⟩ := hslash
    obtain ⟨a, b, hab⟩ := h
    cases a with
    | nil =>
      -- a word does not start with the second slash
      obtain ⟨c, cs, rfl⟩ := List.exists_cons_of_ne_nil hword.ne_nil
      have hc : c = '/' := by
        have htail := (List.cons.inj hab).2
        simpa using (List.cons.inj htail).1
      exact absurd (hc ▸ List.mem_cons_self) hword.slash
    | cons c a => exact ⟨a, b, (List.cons.inj hab).2⟩
  · exact h

/-- A word between slashes is still there in the normalised path. -/
theorem infix_normalizedPath (hword : IsWord frag)
    (h : '/' :: frag ++ ['/'] <:+: '/' :: U.lower (pathOrSlash path)) :
    '/' :: frag ++ ['/'] <:+: normalizedPath U path := by
  have hq := infix_slashed hword (infix_strip hword h)
  rcases normalizedPath_cases U path with hnorm | hnorm | ⟨htwo, -⟩
  · rw [hnorm]
    exact hq
  · rw [hnorm]
    exact hq.trans (List.prefix_append _ _).isInfix
  · -- a word and two slashes are more than two characters
    have hlen := hq.length_le
    have hpos := List.length_pos_iff.mpr hword.ne_nil
    rw [htwo] at hlen
    simp only [List.length_append, List.length_cons, List.length_nil] at hlen
    omega

/-! ## Fragments -/

theorem segmentMatchesSegment_iff (hs : U.lower s = s) :
    segmentMatchesSegment U s fragments = true ↔ NamesFragment fragments s := by
  unfold segmentMatchesSegment
  rw [hs, List.any_eq_true]
  simp only [decide_eq_true_eq]
  rfl

/-- What is found between slashes is a segment, so it is enough to look at the segments. -/
theorem fragmentHit_iff (hfix : U.LowerFixed) (hwords : ∀ frag ∈ fragments, IsWord frag) :
    fragmentHit U (normalizedPath U path) fragments = true ↔ HasFragment U fragments path := by
  unfold fragmentHit HasFragment
  rw [pathSegments_eq, Bool.or_eq_true, List.any_eq_true, List.any_eq_true]
  constructor
  · rintro (⟨frag, hfrag, hneedle⟩ | ⟨seg, hseg, hmatch⟩)
    · have hinfix : '/' :: frag ++ ['/'] <:+: normalizedPath U path := by
        rcases of_decide_eq_true hneedle with h | h | h
        · exact h
        · exact h.isInfix
        · rw [h]
      have hword := hwords frag hfrag
      exact ⟨frag, mem_parts_of_infix hword.ne_nil hword.slash hinfix, frag, hfrag, Or.inl rfl⟩
    · exact ⟨seg, hseg, (segmentMatchesSegment_iff (lower_segment hfix hseg)).mp hmatch⟩
  · rintro ⟨seg, hseg, hnames⟩
    exact Or.inr ⟨seg, hseg, (segmentMatchesSegment_iff (lower_segment hfix hseg)).mpr hnames⟩

/-! ## The last two segments -/

/-- The segment in front of another one stands between slashes in the lower-cased path, too. -/
theorem infix_lower (hslash : U.LowerSlash) {w w' : List Char} {ls : List (List Char)}
    (h : parts '/' s = ls ++ [w, w']) : '/' :: U.lower w ++ ['/'] <:+: '/' :: U.lower s := by
  obtain ⟨a, b, hab⟩ := infix_of_parts h
  cases a with
  | nil =>
    have hs : w ++ '/' :: b = s := by simpa using hab
    refine ⟨[], U.lower b, ?_⟩
    rw [← hs, hslash]
    simp
  | cons c a =>
    have hs : a ++ '/' :: (w ++ '/' :: b) = s := by
      have htail := (List.cons.inj hab).2
      simpa using htail
    refine ⟨'/' :: U.lower a, U.lower b, ?_⟩
    rw [← hs, hslash, hslash]
    simp

/-- If the segment in front of the last one is a fragment, the path has been taken already. -/
theorem slugKind_eq_none (hslash : U.LowerSlash) (digit : Char → Bool) (path : List Char)
    (hjobs : fragmentHit U (normalizedPath U path) jobsFragments = false)
    (hnews : fragmentHit U (normalizedPath U path) newsFragments = false) :
    slugKind U digit (pathOrSlash path) = none := by
  unfold slugKind
  split
  · rfl
  · split <;> rfl
  · next leaf parent rest hrev =>
    have hparts : parts '/' (pathOrSlash path) = rest.reverse ++ [parent, leaf] := by
      rw [← pathSegments_eq, ← List.reverse_reverse (pathSegments _), hrev]
      simp
    rw [if_neg]
    rw [List.contains_iff_mem, List.contains_iff_mem]
    intro hmem
    have hword : IsWord (U.lower parent) := isWord_of_mem hmem
    have hneedle := infix_normalizedPath hword (infix_lower hslash hparts)
    have hhit {fragments : List (List Char)} (hf : U.lower parent ∈ fragments) :
        fragmentHit U (normalizedPath U path) fragments = true := by
      unfold fragmentHit
      rw [Bool.or_eq_true, List.any_eq_true]
      exact Or.inl ⟨U.lower parent, hf, decide_eq_true (Or.inl hneedle)⟩
    rcases hmem with hmem | hmem
    · rw [hhit hmem] at hnews
      cases hnews
    · rw [hhit hmem] at hjobs
      cases hjobs

/-! ## The rule for a path -/

/-- No excluded extension is short enough to be at the end of the path `/`. -/
theorem not_suffix_slash {ext : List Char} (hext : ext ∈ excludeExtensions) :
    ¬ ext <:+ U.lower (pathOrSlash []) ∧ ¬ ext <:+ U.lower [] := by
  have hslash : U.lower (pathOrSlash []) = ['/'] := by
    refine U.lower_ascii ['/'] fun c hc => ?_
    rw [List.mem_singleton.mp hc]
    decide
  have hnil : U.lower [] = [] := U.lower_ascii [] (by simp)
  have hall : ∀ e ∈ excludeExtensions, ¬ e <:+ ['/'] ∧ ¬ e <:+ [] := by decide +kernel
  rw [hslash, hnil]
  exact hall ext hext

theorem suffix_pathOrSlash {ext : List Char} (hext : ext ∈ excludeExtensions) :
    ext <:+ U.lower (pathOrSlash path) ↔ ext <:+ U.lower path := by
  by_cases hpath : path = []
  · obtain ⟨hslash, hnil⟩ := not_suffix_slash (U := U) hext
    rw [hpath]
    exact iff_of_false hslash hnil
  · unfold pathOrSlash
    rw [if_neg hpath]

/-- The two exclusions of `classify_url`. -/
theorem admitted_iff : Admitted U path ↔
    excludeExtensions.any (· <:+ U.lower (pathOrSlash path)) = false ∧
      excludeSubstrings.any (· <:+: normalizedPath U path) = false := by
  unfold Admitted
  rw [List.any_eq_false, List.any_eq_false]
  simp only [decide_eq_true_eq]
  refine and_congr (forall₂_congr fun ext hext => ?_) Iff.rfl
  rw [suffix_pathOrSlash hext]

/-- The order in which the kinds are decided. -/
theorem classifyPath_eq (hfix : U.LowerFixed) (hslash : U.LowerSlash) (digit : Char → Bool)
    [Decidable (Admitted U path)] [Decidable (HasFragment U jobsFragments path)]
    [Decidable (HasFragment U newsFragments path)] :
    classifyPath U digit path =
      if ¬ Admitted U path then none
      else if HasFragment U jobsFragments path then some .jobs
      else if HasFragment U newsFragments path then some .news
      else none := by
  have hjobs : fragmentHit U (normalizedPath U path) jobsFragments = true ↔
      HasFragment U jobsFragments path :=
    fragmentHit_iff hfix fun frag h => isWord_of_mem (Or.inr h)
  have hnews : fragmentHit U (normalizedPath U path) newsFragments = true ↔
      HasFragment U newsFragments path :=
    fragmentHit_iff hfix fun frag h => isWord_of_mem (Or.inl h)
  unfold classifyPath
  dsimp only
  rw [normalizedPath_pathOrSlash]
  by_cases hadm : Admitted U path
  · obtain ⟨hext, hsub⟩ := admitted_iff.mp hadm
    rw [hext, hsub, if_neg (not_not_intro hadm), if_neg Bool.false_ne_true,
      if_neg Bool.false_ne_true]
    by_cases hj : HasFragment U jobsFragments path
    · rw [if_pos (hjobs.mpr hj), if_pos hj]
    · have hj' := Bool.eq_false_iff.mpr (mt hjobs.mp hj)
      rw [hj', if_neg Bool.false_ne_true, if_neg hj]
      by_cases hn : HasFragment U newsFragments path
      · rw [if_pos (hnews.mpr hn), if_pos hn]
      · have hn' := Bool.eq_false_iff.mpr (mt hnews.mp hn)
        rw [hn', if_neg Bool.false_ne_true, if_neg hn]
        -- what is left is the look at the last two segments
        exact slugKind_eq_none hslash digit path hj' hn'
  · -- one of the two exclusions applies
    rw [if_pos hadm]
    split
    · rfl
    · next hext =>
      rw [if_pos]
      by_contra hsub
      exact hadm (admitted_iff.mpr ⟨Bool.eq_false_iff.mpr hext, Bool.eq_false_iff.mpr hsub⟩)

end

/-- The kind of a page by the segments of its normalised path: a vacancy page if one of them names
a jobs fragment, otherwise a news page if one of them names a news fragment, and only if nothing is
excluded. What `classify_url` does last gives no page a kind. -/
theorem classifyUrl_iff (U : Unicode) (hfix : U.LowerFixed) (hslash : U.LowerSlash)
    (digit : Char → Bool) (url path : List Char) (hpath : Url.path U url = .ok path) :
    (classifyUrl U digit url = .ok (some .jobs) ↔
      Admitted U path ∧ HasFragment U jobsFragments path) ∧
    (classifyUrl U digit url = .ok (some .news) ↔
      Admitted U path ∧ ¬ HasFragment U jobsFragments path ∧ HasFragment U newsFragments path) ∧
    (classifyUrl U digit url = .ok none ↔
      ¬ Admitted U path ∨
        ¬ HasFragment U jobsFragments path ∧ ¬ HasFragment U newsFragments path) ∧
    (fragmentHit U (normalizedPath U path) jobsFragments = false →
      fragmentHit U (normalizedPath U path) newsFragments = false →
      slugKind U digit (pathOrSlash path) = none) := by
  classical
  have hclass : classifyUrl U digit url = .ok (classifyPath U digit path) := by
    unfold classifyUrl
    rw [hpath]
    rfl
  rw [hclass, classifyPath_eq hfix hslash]
  refine ⟨?_, ?_, ?_, slugKind_eq_none hslash digit path⟩
  all_goals
    by_cases hadm : Admitted U path <;> by_cases hj : HasFragment U jobsFragments path <;>
      by_cases hn : HasFragment U newsFragments path <;> simp [hadm, hj, hn]

/-- A vacancy page, two segments and a query long. -/
theorem classifyUrl_iff_careers :
    classifyUrl .ascii Char.isDigit "https://acme.com/Careers/data-engineer?ref=1".toList =
      .ok (some .jobs) ∧
    Admitted .ascii "/Careers/data-engineer".toList ∧
    HasFragment .ascii jobsFragments "/Careers/data-engineer".toList := by
  have hiff := (classifyUrl_iff .ascii Unicode.ascii_lowerFixed Unicode.ascii_lowerSlash
    Char.isDigit "https://acme.com/Careers/data-engineer?ref=1".toList
    "/Careers/data-engineer".toList (by decide +kernel)).1
  have hjobs : classifyUrl .ascii Char.isDigit
      "https://acme.com/Careers/data-engineer?ref=1".toList = .ok (some .jobs) := by
    decide +kernel
  exact ⟨hjobs, hiff.mp hjobs⟩

-- a fragment in a longer word is none
example : classifyUrl .ascii Char.isDigit "https://acme.com/newsroom/jobsite".toList =
    .ok none := by
  decide +kernel

end Domain
end LeadPulse
