import LeadPulse.Dedup.Scan
import LeadPulse.Lib.GroupedTop
import LeadPulse.Pipeline.Digest

/-!
# The message of the daily digest

`build_daily_digest_blocks` of `services/slack.py` with the query of `send_daily_digest`. The
signals are grouped by company, the newest first; the message has a section for each of the first
fifteen companies, with a line for each of its first three signals, and counts the others.

The query loads every processed signal of the last 24 hours, also those with the action `IGNORE`
and those that Slack was told about at once. They take the place of the signals that wait for the
digest: by `digestShows_iff` a waiting signal gets its line exactly if few signals are as new.
-/

namespace LeadPulse

open Groups Paging

/-! ## Texts -/

/-- `signal_type.value` -/
def SignalType.value : SignalType → String
  | .hiringSurge => "hiring_surge"
  | .technologyAdoption => "technology_adoption"
  | .digitalTransformation => "digital_transformation"
  | .workforceChallenge => "workforce_challenge"
  | .fundingRound => "funding_round"
  | .leadershipChange => "leadership_change"
  | .expansion => "expansion"
  | .partnership => "partnership"
  | .productLaunch => "product_launch"
  | .other => "other"
  | .noSignal => "no_signal"

/-- `str.title()` of ASCII text, behind a letter or not. -/
def titleFrom : Bool → List Char → List Char
  | _, [] => []
  | behindLetter, c :: cs =>
    (if behindLetter then c.toLower else c.toUpper) :: titleFrom c.isAlpha cs

/-- `signal_type.value.replace("_", " ").title()` -/
def SignalType.label (t : SignalType) : String :=
  String.ofList (titleFrom false (t.value.toList.map fun c => if c = '_' then ' ' else c))

/-- `_signal_type_emoji` -/
def signalTypeEmoji : SignalType → String
  | .hiringSurge => ":busts_in_silhouette:"
  | .technologyAdoption => ":computer:"
  | .digitalTransformation => ":rocket:"
  | .workforceChallenge => ":warning:"
  | .fundingRound => ":moneybag:"
  | .leadershipChange => ":tophat:"
  | .expansion => ":chart_with_upwards_trend:"
  | .partnership => ":handshake:"
  | .productLaunch => ":package:"
  | .other => ":mag:"
  | .noSignal => ":bell:"

/-- `f"{score:.0f}"` of a score, which is not negative. -/
def wholeScore (score : ℚ) : ℤ := (10 * Dedup.roundTenth (score / 10)).floor

/-- `_score_badge` -/
def scoreBadge : Option ℚ → String
  | none => ":white_circle: N/A"
  | some score =>
    if 75 ≤ score then s!":large_green_circle: {wholeScore score}"
    else if 50 ≤ score then s!":large_yellow_circle: {wholeScore score}"
    else s!":white_circle: {wholeScore score}"

/-! ## Blocks -/

/-- A block of a message, with its text. -/
inductive Block where
  | header (plainText : String)
  | mrkdwn (text : String)
  | divider
deriving DecidableEq, Repr

section

/- The companies and, of the signals, the column that nothing else reads; the date of today. -/
variable (company : ℕ → Option Company) (sourceUrl : ℕ → Option String) (today : String)

/-- The line of a signal. -/
def digestLine (s : Signal) : String :=
  let relevance := match s.relevanceScore with
    | none => ""
    | some score => if score = 0 then "" else s!" ({score})"
  let summary := match s.llmSummary with
    | none => ""
    | some summary =>
      if summary = "" then ""
      else if summary.length ≤ 120 then s!"\n  {summary}"
      else s!"\n  {String.ofList (summary.toList.take 117)}…"
  let source := match sourceUrl s.id with
    | none => ""
    | some url => if url = "" then "" else s!"\n  <{url}|View source>"
  s!"• {signalTypeEmoji s.signalType} *{s.signalType.label}*" ++ relevance ++ summary ++ source

/-- `signal_lines` -/
def signalLines (sigs : List Signal) : List String :=
  (sigs.take 3).map (digestLine sourceUrl) ++
    if 3 < sigs.length then [s!"  _…and {sigs.length - 3} more_"] else []

/-- The first line of a section. -/
def companyTitle (companyId : ℕ) : String :=
  let name := match company companyId with
    | none => s!"Company #{companyId}"
    | some c => String.ofList c.name
  s!"*{name}* " ++ scoreBadge ((company companyId).bind Company.leadScore)

def companySection (g : ℕ × List Signal) : Block :=
  .mrkdwn ("\n".intercalate (companyTitle company g.1 :: signalLines sourceUrl g.2))

/-- `build_daily_digest_blocks` -/
def buildDailyDigestBlocks (signals : List Signal) : List Block :=
  let byCompany := groupBy Signal.companyId signals
  [.header s!"Daily Digest — {signals.length} Signal(s)",
    .mrkdwn s!"Signals detected in the last 24 hours ({today}).", .divider] ++
  (byCompany.take 15).map (companySection company sourceUrl) ++
  (if 15 < byCompany.length then
    [.mrkdwn s!"_…and {byCompany.length - 15} more companies with signals._"] else []) ++
  [.divider]

end

/-! ## What the message shows -/

variable {company : ℕ → Option Company} {sourceUrl : ℕ → Option String} {today : String}
  {signals answer : List Signal} {s : Signal}

/-- `ORDER BY created_at DESC` -/
def newestSignals : SortOrder Signal := SortOrder.asc.reverse.onKey Signal.createdAt

/-- The signals that `send_daily_digest` asks for. -/
def digestWindow (signals : List Signal) (now : Time) : List Signal :=
  signals.filter fun s => now - hours 24 ≤ s.createdAt ∧ s.isProcessed

/-- The signal has a line in the section of its company. -/
def Shown (answer : List Signal) (s : Signal) : Prop := Listed Signal.companyId 15 3 answer s

theorem line_of_shown (h : Shown answer s) :
    ∃ lines, digestLine sourceUrl s ∈ lines ∧
      Block.mrkdwn ("\n".intercalate (companyTitle company s.companyId :: lines)) ∈
        buildDailyDigestBlocks company sourceUrl today answer := by
  obtain ⟨g, hg, hs⟩ := h
  have hgroup := (isGrouping_groupBy Signal.companyId answer).rows_eq g (List.mem_of_mem_take hg)
  have hcompany : s.companyId = g.1 := by
    have hmem := List.mem_of_mem_take hs
    rw [hgroup, List.mem_filter, decide_eq_true_eq] at hmem
    exact hmem.2
  refine ⟨signalLines sourceUrl g.2, ?_, ?_⟩
  · exact List.mem_append_left _ (List.mem_map_of_mem hs)
  · rw [hcompany]
    unfold buildDailyDigestBlocks
    refine List.mem_append_left _ (List.mem_append_left _ (List.mem_append_right _ ?_))
    exact List.mem_map.mpr ⟨g, hg, rfl⟩

/-- A message has at most twenty blocks. -/
theorem length_buildDailyDigestBlocks_le :
    (buildDailyDigestBlocks company sourceUrl today signals).length ≤ 20 := by
  unfold buildDailyDigestBlocks
  simp only [List.length_append, List.length_map, List.length_take, List.length_cons,
    List.length_nil]
  split <;> simp only [List.length_cons, List.length_nil] <;> omega

/-- What is shown, what is counted in a section and what is not mentioned but in the header, make
up all signals. -/
theorem digest_accounts (signals : List Signal) :
    signals.length =
      (((groupBy Signal.companyId signals).take 15).map fun g =>
        (g.2.take 3).length + (g.2.length - 3)).sum +
      (((groupBy Signal.companyId signals).drop 15).map fun g => g.2.length).sum := by
  have hsum := sum_length_groupBy Signal.companyId signals
  rw [← List.take_append_drop 15 (groupBy Signal.companyId signals), List.map_append,
    List.sum_append] at hsum
  rw [← hsum]
  congr 2
  refine List.map_congr_left fun g _ => ?_
  rw [List.length_take]
  omega

/-! ## The signals that wait -/

/-- A digest sent now shows every signal that waits for it, in whatever order the database returns
signals of the same time. -/
def DigestShows (w : World) : Prop :=
  ∀ answer, SortedAs newestSignals (digestWindow w.signals w.now) answer →
    ∀ id ∈ w.awaiting, ∃ s, w.signal id = some s ∧ Shown answer s

/-- A waiting signal is from the last 24 hours, at most fifteen companies (its own one included)
have a signal at least as new as all of its company, and at most three signals of its company
(itself included) are at least as new as it is. -/
def roomInDigest (w : World) : Bool :=
  let window := digestWindow w.signals w.now
  w.awaiting.all fun id => (w.signal id).any fun s =>
    w.now - hours 24 ≤ s.createdAt ∧
      keysThrough newestSignals Signal.companyId window s.companyId ≤ 15 ∧
      numThrough newestSignals (window.filter fun r => r.companyId = s.companyId) s ≤ 3

theorem mem_digestWindow {now : Time} : s ∈ digestWindow signals now ↔
    s ∈ signals ∧ now - hours 24 ≤ s.createdAt ∧ s.isProcessed = true := by
  unfold digestWindow
  rw [List.mem_filter, decide_eq_true_eq]

theorem mem_of_shown (h : Shown answer s) : s ∈ answer := by
  obtain ⟨g, hg, hs⟩ := h
  have hmem := List.mem_of_mem_take hs
  rw [(isGrouping_groupBy Signal.companyId answer).rows_eq g (List.mem_of_mem_take hg)] at hmem
  exact List.mem_of_mem_filter hmem

namespace World

theorem digestShows_iff_room {w : World} (hsound : Sound w.signals w.analyses w.dispatches)
    (ha : AwaitingVerdict w) : DigestShows w ↔ roomInDigest w = true := by
  have hnodup : (digestWindow w.signals w.now).Nodup := (hsound.keyed.of_map _).filter _
  have hshown : ∀ s, s ∈ digestWindow w.signals w.now →
      ((∀ answer, SortedAs newestSignals (digestWindow w.signals w.now) answer → Shown answer s) ↔
        _) := fun s hs => listed_always_iff hnodup hs
  unfold roomInDigest
  simp only [List.all_eq_true, Option.any_eq_true, decide_eq_true_eq]
  constructor
  · intro h id hid
    obtain ⟨s, hs, -⟩ := ha id hid
    -- one answer tells that the signal is in the window
    have hanswer := answer_mergeSort newestSignals (digestWindow w.signals w.now)
    obtain ⟨s', hs', hfirst⟩ := h _ hanswer id hid
    obtain rfl : s = s' := Option.some.inj (hs.symm.trans hs')
    have hmem := hanswer.perm.mem_iff.mp (mem_of_shown hfirst)
    refine ⟨s, hs, (mem_digestWindow.mp hmem).2.1, (hshown s hmem).mp fun answer hsorted => ?_⟩
    obtain ⟨s', hs', hshows⟩ := h answer hsorted id hid
    obtain rfl : s = s' := Option.some.inj (hs.symm.trans hs')
    exact hshows
  · intro h answer hsorted id hid
    obtain ⟨s, hs, hnew, hroom⟩ := h id hid
    obtain ⟨row, hrow, hp⟩ := ha id hid
    obtain rfl : s = row := Option.some.inj (hs.symm.trans hrow)
    have hmem : s ∈ digestWindow w.signals w.now :=
      mem_digestWindow.mpr ⟨Table.mem_of_get hs, hnew, hp⟩
    exact ⟨s, hs, (hshown s hmem).mpr hroom answer hsorted⟩

end World

/-- In every state of a run, a digest that is sent shows all signals that wait for it, exactly if
they are new and few signals are as new, processed ones of any action. -/
theorem digestShows_iff (cfg : PipelineConfig) (t : Time) (events : List Event) :
    Run.AllStates (World.step cfg) (fun w => DigestShows w ↔ roomInDigest w = true)
      (World.init t) events := by
  have hinv : Run.AllStates (World.step cfg)
      (fun w => Sound w.signals w.analyses w.dispatches ∧ AwaitingVerdict w) (World.init t)
      events := by
    refine Run.AllStates.of_step ?_ ⟨Sound.init, World.awaiting_init t⟩ events
    rintro w ev w' ⟨hsound, ha⟩ hs
    exact ⟨World.sound_step hsound hs, World.awaiting_step hsound ha hs⟩
  exact hinv.mono fun w ⟨hsound, ha⟩ => World.digestShows_iff_room hsound ha

/-- A signal for the digest, and three newer ones of its company that are to be ignored. -/
def crowdedOut : List Event :=
  [.addCompany { id := 1, name := [], domain := [] }] ++ analysedSignal 1 1 60 ++
  [.tick (hours 1)] ++ analysedSignal 2 1 10 ++ analysedSignal 3 1 10 ++ analysedSignal 4 1 10

/-- It is new enough, and has no line. -/
example : (Run.exec (World.step {}) (World.init 0) crowdedOut).map
    (fun w => (w.awaiting, digestInTime w .digest, roomInDigest w)) = some ([1], true, false) := by
  decide +kernel

end LeadPulse
