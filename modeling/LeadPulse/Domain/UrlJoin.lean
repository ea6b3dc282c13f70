import LeadPulse.Domain.IntelUrls

/-!
# Putting a URL together

`urljoin(base, url)` as CPython computes it, with `urlparse` and `urlunparse`: the path of the URL
is resolved against the path of the base, segment by segment, as RFC 3986 wants it.

`monitor_company` joins the paths of its fallback list to the address of a company. Whatever the
domain, the page is a text that depends on the base alone, followed by the path
(`exists_join_eq_append`), so that different paths are different pages.
-/

namespace LeadPulse
namespace Url

open PyStr Domain

/-! ## `urlparse` -/

/-- `ParseResult` -/
structure Parts where
  scheme : List Char
  netloc : List Char
  path : List Char
  params : List Char
  query : List Char
  fragment : List Char
deriving DecidableEq, Repr

/-- `urlparse(url, default)` -/
def parse (U : Unicode) (url default : List Char) : Except ValueError Parts :=
  (netloc U url).map fun n =>
    let url := clean url
    let rest := dropScheme url
    let rest := if ['/', '/'] <+: rest then rest.drop (2 + n.length) else rest
    let path := upTo '?' (upTo '#' rest)
    let scheme := if scheme url = [] then default else scheme url
    let hasParams := usesParams.contains scheme && path.contains ';'
    { scheme := scheme
      netloc := n
      path := if hasParams then dropParams path else path
      params := if hasParams then past ';' (pastLast '/' path) else []
      query := past '?' (upTo '#' rest)
      fragment := past '#' rest }

/-- The path of `urlparse` is the one that pages are classified by. -/
theorem path_eq_map_parse (U : Unicode) (url : List Char) :
    path U url = (parse U url []).map fun p => p.path := by
  have hscheme : (if scheme (clean url) = [] then [] else scheme (clean url)) =
      scheme (clean url) := by
    split
    · next hnil => exact hnil.symm
    · rfl
  unfold path parse
  cases netloc U url with
  | error e => rfl
  | ok n =>
    simp only [Except.map, hscheme, Bool.and_eq_true, List.contains_iff_mem]

theorem scheme_of_parse_https {U : Unicode} {x : List Char} {b : Parts}
    (h : parse U ("https://".toList ++ x) [] = .ok b) : b.scheme = "https".toList := by
  unfold parse at h
  cases hnetloc : netloc U ("https://".toList ++ x) with
  | error e =>
    rw [hnetloc] at h
    cases h
  | ok n =>
    rw [hnetloc] at h
    obtain rfl := Except.ok.inj h
    rfl

/-! ## `urlunparse` -/

/-- `uses_relative` -/
def usesRelative : List (List Char) :=
  ["", "ftp", "http", "gopher", "nntp", "imap", "wais", "file", "https", "shttp", "mms",
    "prospero", "rtsp", "rtsps", "rtspu", "sftp", "svn", "svn+ssh", "ws", "wss"].map String.toList

/-- `uses_netloc` -/
def usesNetloc : List (List Char) :=
  ["", "ftp", "http", "gopher", "nntp", "telnet", "imap", "wais", "file", "mms", "https", "shttp",
    "snews", "prospero", "rtsp", "rtsps", "rtspu", "rsync", "svn", "svn+ssh", "sftp", "nfs", "git",
    "git+ssh", "ws", "wss", "itms-services"].map String.toList

/-- The path with the network location in front of it, as `urlunsplit` writes them. -/
def unsplitPath (scheme netloc path : List Char) : List Char :=
  if netloc ≠ [] then
    '/' :: '/' :: (netloc ++ if path ≠ [] ∧ ¬ ['/'] <+: path then '/' :: path else path)
  else if ['/', '/'] <+: path then '/' :: '/' :: path
  else if scheme ≠ [] ∧ usesNetloc.contains scheme ∧ (path = [] ∨ ['/'] <+: path) then
    '/' :: '/' :: path
  else path

/-- `urlunparse(parts)` -/
def unparse (p : Parts) : List Char :=
  let url := if p.params = [] then p.path else p.path ++ ';' :: p.params
  let url := unsplitPath p.scheme p.netloc url
  let url := if p.scheme = [] then url else p.scheme ++ ':' :: url
  let url := if p.query = [] then url else url ++ '?' :: p.query
  if p.fragment = [] then url else url ++ '#' :: p.fragment

/-! ## `urljoin` -/

/-- `segments[1:-1] = filter(None, segments[1:-1])` -/
def dropEmptyInside : List (List Char) → List (List Char)
  | [] => []
  | first :: rest => first :: ((rest.dropLast.filter fun s => s ≠ []) ++ rest.getLast?.toList)

/-- The segments of the base. The last one is no directory and does not count. -/
def baseParts (basePath : List Char) : List (List Char) :=
  let parts := basePath.splitOn '/'
  if parts.getLast? = some [] then parts else parts.dropLast

/-- The segments that are resolved. A path from the root does without the base. -/
def joinSegments (basePath path : List Char) : List (List Char) :=
  if ['/'] <+: path then path.splitOn '/'
  else dropEmptyInside (baseParts basePath ++ path.splitOn '/')

/-- One turn of the loop over the segments. -/
def resolveSegment (resolved : List (List Char)) (seg : List Char) : List (List Char) :=
  if seg = ['.', '.'] then resolved.dropLast
  else if seg = ['.'] then resolved
  else resolved ++ [seg]

def resolvePath (basePath path : List Char) : List Char :=
  let segments := joinSegments basePath path
  let resolved := segments.foldl resolveSegment []
  let resolved :=
    if segments.getLast? = some ['.'] ∨ segments.getLast? = some ['.', '.'] then resolved ++ [[]]
    else resolved
  let joined := ['/'].intercalate resolved
  if joined = [] then ['/'] else joined

/-- `urljoin(base, url)` -/
def join (U : Unicode) (base url : List Char) : Except ValueError (List Char) :=
  if base = [] then .ok url
  else if url = [] then .ok base
  else do
    let b ← parse U base []
    let r ← parse U url b.scheme
    if r.scheme ≠ b.scheme ∨ usesRelative.contains r.scheme = false then return url
    if usesNetloc.contains r.scheme ∧ r.netloc ≠ [] then return unparse r
    let netloc := if usesNetloc.contains r.scheme then b.netloc else r.netloc
    if r.path = [] ∧ r.params = [] then
      let query := if r.query = [] then b.query else r.query
      return unparse { r with netloc, path := b.path, params := b.params, query }
    return unparse { r with netloc, path := resolvePath b.path r.path }

/-! ## A path that is one segment -/

/-- A small letter or a dash. -/
def isPlainChar (c : Char) : Bool := c.isLower || c == '-'

/-- Small letters and dashes. -/
def PlainSegment (p : List Char) : Prop := p ≠ [] ∧ p.all isPlainChar = true

instance : DecidablePred PlainSegment := fun p =>
  inferInstanceAs (Decidable (p ≠ [] ∧ p.all isPlainChar = true))

section

variable {U : Unicode} {p base scheme front : List Char} {c : Char}

theorem lt_toNat_of_isPlainChar (hc : isPlainChar c = true) : 0x20 < c.toNat := by
  rcases Bool.or_eq_true .. ▸ hc with hlower | hdash
  · simp only [Char.isLower, Bool.and_eq_true, decide_eq_true_eq] at hlower
    have hle : 97 ≤ c.toNat := hlower.1
    omega
  · rw [eq_of_beq hdash]
    decide

theorem PlainSegment.of_mem (hp : PlainSegment p) (h : c ∈ p) : isPlainChar c = true :=
  List.all_eq_true.mp hp.2 c h

theorem PlainSegment.not_mem (hp : PlainSegment p) (hc : isPlainChar c = false) : c ∉ p := by
  intro h
  rw [hp.of_mem h] at hc
  cases hc

/-- Whether it starts with a slash is up to the text in front of it. -/
theorem PlainSegment.slash_append (hp : PlainSegment p) :
    ['/'] <+: front ++ p ↔ ['/'] <+: front := by
  cases front with
  | nil =>
    have hslash : '/' ∉ p := hp.not_mem (by decide)
    constructor
    · exact fun h => absurd (h.subset List.mem_cons_self) hslash
    · exact fun h => absurd h (by simp)
  | cons d front => simp [List.cons_prefix_cons]

theorem PlainSegment.slashes_append (hp : PlainSegment p) :
    ['/', '/'] <+: front ++ p ↔ ['/', '/'] <+: front := by
  cases front with
  | nil =>
    have hslash : '/' ∉ p := hp.not_mem (by decide)
    constructor
    · exact fun h => absurd (h.subset List.mem_cons_self) hslash
    · exact fun h => absurd h (by simp)
  | cons d front => rw [List.cons_append, List.cons_prefix_cons, List.cons_prefix_cons,
      hp.slash_append]

theorem clean_plain (hp : PlainSegment p) : clean p = p := by
  have hdrop : (p.dropWhile fun c => decide (c.toNat ≤ 0x20)) = p := by
    cases p with
    | nil => rfl
    | cons c p =>
      have hlt := lt_toNat_of_isPlainChar (hp.of_mem List.mem_cons_self)
      rw [List.dropWhile_cons, if_neg]
      simpa using hlt
  unfold clean
  rw [hdrop, List.filter_eq_self]
  intro c hc
  have hlt := lt_toNat_of_isPlainChar (hp.of_mem hc)
  have hne : c ≠ '\t' ∧ c ≠ '\r' ∧ c ≠ '\n' := by
    refine ⟨?_, ?_, ?_⟩
    · rintro rfl
      exact absurd hlt (by decide)
    · rintro rfl
      exact absurd hlt (by decide)
    · rintro rfl
      exact absurd hlt (by decide)
  simp [hne]

theorem past_of_not_mem {s : List Char} (h : c ∉ s) : past c s = [] := by
  have hall : s.dropWhile (· != c) = [] := by
    rw [List.dropWhile_eq_nil_iff]
    intro x hx
    have hne : x ≠ c := fun heq => h (heq ▸ hx)
    simpa using hne
  unfold past
  rw [hall]
  rfl

/-- `urlparse` takes it for a path. -/
theorem parse_plain (hp : PlainSegment p) :
    parse U p scheme = .ok { scheme := scheme, netloc := [], path := p, params := [], query := [],
                             fragment := [] } := by
  have hcolon : ':' ∉ p := hp.not_mem (by decide)
  have hrest : dropScheme (clean p) = p := by
    rw [clean_plain hp]
    unfold dropScheme
    rw [if_neg fun h => hcolon h.1]
  have hscheme : Url.scheme (clean p) = [] := by
    rw [clean_plain hp]
    unfold Url.scheme
    rw [if_neg fun h => hcolon h.1]
  have hslashes : ¬ ['/', '/'] <+: p :=
    fun h => hp.not_mem (show isPlainChar '/' = false by decide) (h.subset List.mem_cons_self)
  have hnetloc : Url.netloc U p = .ok [] := by
    have hsplit : splitNetloc (dropScheme (clean p)) = [] := by
      unfold splitNetloc
      rw [hrest, if_neg hslashes]
    unfold Url.netloc
    rw [hsplit]
    rfl
  have hfragment : '#' ∉ p := hp.not_mem (by decide)
  have hquery : '?' ∉ p := hp.not_mem (by decide)
  have hparams : p.contains ';' = false := by
    have hsemicolon : ';' ∉ p := hp.not_mem (by decide)
    simpa using hsemicolon
  unfold parse
  rw [hnetloc]
  show Except.ok _ = _
  simp only [hrest, hscheme, if_neg hslashes, upTo_of_not_mem hfragment, upTo_of_not_mem hquery,
    past_of_not_mem hfragment, past_of_not_mem hquery, hparams, Bool.and_false, if_true]
  rfl

/-! ### The path of the base in front of it -/

/-- What `dropEmptyInside` leaves of the parts in front of the last one. -/
def insideParts : List (List Char) → List (List Char)
  | [] => []
  | first :: rest => first :: rest.filter fun s => s ≠ []

theorem dropEmptyInside_concat (parts : List (List Char)) (p : List Char) :
    dropEmptyInside (parts ++ [p]) = insideParts parts ++ [p] := by
  cases parts with
  | nil => rfl
  | cons first rest =>
    show first :: (((rest ++ [p]).dropLast.filter _) ++ (rest ++ [p]).getLast?.toList) = _
    rw [List.dropLast_concat, List.getLast?_concat]
    rfl

/-- The segment is appended to what the base resolves to. -/
theorem exists_resolvePath_eq_append (basePath : List Char) :
    ∃ front, ∀ p, PlainSegment p → resolvePath basePath p = front ++ p := by
  let parts := baseParts basePath
  have hparts : ∀ p, PlainSegment p →
      joinSegments basePath p = insideParts parts ++ [p] := by
    intro p hp
    have hslash : '/' ∉ p := hp.not_mem (by decide)
    unfold joinSegments
    rw [if_neg fun h => hslash (h.subset List.mem_cons_self), List.splitOn_eq_singleton hslash,
      dropEmptyInside_concat]
  let resolved := (insideParts parts).foldl resolveSegment []
  refine ⟨(resolved.map fun seg => seg ++ ['/']).flatten, fun p hp => ?_⟩
  -- a plain segment is no dot segment, so it is put behind the others
  have hdot : '.' ∉ p := hp.not_mem (by decide)
  have hone : p ≠ ['.'] := fun h => hdot (h ▸ by decide)
  have htwo : p ≠ ['.', '.'] := fun h => hdot (h ▸ by decide)
  have hfold : (insideParts parts ++ [p]).foldl resolveSegment [] = resolved ++ [p] := by
    rw [List.foldl_append, List.foldl_cons, List.foldl_nil]
    show resolveSegment resolved p = _
    unfold resolveSegment
    rw [if_neg htwo, if_neg hone]
  have hlast : ¬((insideParts parts ++ [p]).getLast? = some ['.'] ∨
      (insideParts parts ++ [p]).getLast? = some ['.', '.']) := by
    rw [List.getLast?_concat, Option.some_inj, Option.some_inj]
    exact not_or.mpr ⟨hone, htwo⟩
  unfold resolvePath
  dsimp only
  rw [hparts p hp, hfold, if_neg hlast, intercalate_concat, if_neg]
  exact List.append_ne_nil_of_right_ne_nil _ hp.1

/-- Nor does the network location look at the end of the path. -/
theorem exists_unsplitPath_eq_append (scheme netloc front : List Char) :
    ∃ front', ∀ p, PlainSegment p → unsplitPath scheme netloc (front ++ p) = front' ++ p := by
  have hpath (p : List Char) (hp : PlainSegment p) : front ++ p ≠ [] :=
    List.append_ne_nil_of_right_ne_nil front hp.1
  -- which branch is taken is up to `front`: the segment has no slash, and is not empty
  by_cases hnetloc : netloc ≠ []
  · by_cases hslash : ['/'] <+: front
    · refine ⟨'/' :: '/' :: (netloc ++ front), fun p hp => ?_⟩
      unfold unsplitPath
      rw [if_pos hnetloc, if_neg fun h => h.2 (hp.slash_append.mpr hslash)]
      simp
    · refine ⟨'/' :: '/' :: (netloc ++ '/' :: front), fun p hp => ?_⟩
      unfold unsplitPath
      rw [if_pos hnetloc, if_pos ⟨hpath p hp, mt hp.slash_append.mp hslash⟩]
      simp
  by_cases hslashes : ['/', '/'] <+: front
  · refine ⟨'/' :: '/' :: front, fun p hp => ?_⟩
    unfold unsplitPath
    rw [if_neg hnetloc, if_pos (hp.slashes_append.mpr hslashes)]
    rfl
  by_cases hscheme : scheme ≠ [] ∧ usesNetloc.contains scheme ∧ ['/'] <+: front
  · refine ⟨'/' :: '/' :: front, fun p hp => ?_⟩
    unfold unsplitPath
    rw [if_neg hnetloc, if_neg (mt hp.slashes_append.mp hslashes),
      if_pos ⟨hscheme.1, hscheme.2.1, Or.inr (hp.slash_append.mpr hscheme.2.2)⟩]
    rfl
  · refine ⟨front, fun p hp => ?_⟩
    unfold unsplitPath
    rw [if_neg hnetloc, if_neg (mt hp.slashes_append.mp hslashes), if_neg]
    rintro ⟨hne, hcontains, hnil | hprefix⟩
    · exact hpath p hp hnil
    · exact hscheme ⟨hne, hcontains, hp.slash_append.mp hprefix⟩

/-- Joined to a base with scheme `https`, the segment is appended to a text that depends on the
base alone. -/
theorem exists_join_eq_append {b : Parts} (hbase : base ≠ []) (hparse : parse U base [] = .ok b)
    (hscheme : b.scheme = "https".toList) :
    ∃ front, ∀ p, PlainSegment p → join U base p = .ok (front ++ p) := by
  obtain ⟨front, hfront⟩ := exists_resolvePath_eq_append b.path
  obtain ⟨front', hfront'⟩ := exists_unsplitPath_eq_append b.scheme b.netloc front
  refine ⟨b.scheme ++ ':' :: front', fun p hp => ?_⟩
  have hrelative : b.scheme ∈ usesRelative := by
    rw [hscheme]
    decide +kernel
  have hnetloc : b.scheme ∈ usesNetloc := by
    rw [hscheme]
    decide +kernel
  have hne : b.scheme ≠ [] := by
    rw [hscheme]
    decide
  have hjoin : join U base p = .ok (unparse
      { scheme := b.scheme, netloc := b.netloc, path := resolvePath b.path p, params := [],
        query := [], fragment := [] }) := by
    unfold join
    rw [if_neg hbase, if_neg hp.1, hparse]
    simp [parse_plain hp, hrelative, hnetloc, hp.1, bind, Except.bind, pure, Except.pure]
  rw [hjoin, hfront p hp]
  unfold unparse
  simp only [if_true, if_neg hne, hfront' p hp, List.append_assoc, List.cons_append]

/-- If the base cannot be parsed, nothing can be joined to it. -/
theorem join_error {e : ValueError} (hbase : base ≠ []) (hp : p ≠ [])
    (hparse : parse U base [] = .error e) : join U base p = .error e := by
  unfold join
  rw [if_neg hbase, if_neg hp, hparse]
  rfl

end

end Url
end LeadPulse
