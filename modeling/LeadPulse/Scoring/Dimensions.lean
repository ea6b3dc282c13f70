import Mathlib.Tactic.Positivity
import LeadPulse.Lib.Run
import LeadPulse.Scoring.LeadScore

/-!
# The dimensions of a lead score

`_calc_signal_strength`, `_calc_contact_quality` and `_calc_recency`
(`services/lead_scoring.py`), and who writes the rows that they read: `services/enrichment.py`
the contacts, `services/intelligence.py` the relevance of the signals.

`scores_inRange`: over rows as these writers leave them, all scores are between 0 and 100, so that
the lead score is the weighted sum as it is. `calcContactQuality_add_le`: a good contact more
never makes the contacts worse.

The arithmetic is exact. The weight `math.exp` gives to a signal is a parameter.
-/

namespace LeadPulse
namespace Scoring

open Domain

inductive EmailStatus where
  | verified
  | catchAll
  | unverified
deriving DecidableEq, Repr

/-! ## The rows -/

/-- What scoring reads of a contact. -/
structure ScoredContact where
  companyId : ℕ
  title : Option (List Char) := none
  email : Option (List Char) := none
  emailStatus : Option EmailStatus := none
  createdAt : Time
deriving DecidableEq, Repr

/-- What scoring reads of a signal. -/
structure ScoredSignal where
  id : ℕ
  companyId : ℕ
  signalType : SignalType
  relevanceScore : Option ℚ := none
  isProcessed : Bool := false
  createdAt : Time
deriving DecidableEq, Repr

structure ScoreTables where
  contacts : List ScoredContact := []
  signals : List ScoredSignal := []
deriving DecidableEq, Repr

namespace ScoredContact

/-- `if email`. -/
def hasEmail (c : ScoredContact) : Bool := orEmpty c.email ≠ []

def isVerified (c : ScoredContact) : Bool := c.emailStatus = some .verified

/-- What the writers of contacts keep. -/
def VerifiedHasEmail (c : ScoredContact) : Prop := c.isVerified = true → c.hasEmail = true

/-- `_DECISION_MAKER_KEYWORDS`. -/
def decisionMakerKeywords : List (List Char) :=
  ["ceo", "cto", "cio", "cfo", "coo", "cmo", "vp", "vice president", "director", "head of",
   "chief", "founder", "owner", "partner", "managing", "president"].map String.toList

/-- The title is one of a decision maker. -/
def isDecisionMaker (U : Unicode) (c : ScoredContact) : Bool :=
  orEmpty c.title ≠ [] && decisionMakerKeywords.any fun kw => kw <:+: U.lower (orEmpty c.title)

end ScoredContact

/-- A score that the schema `ScoreBreakdown` takes: `ge=0, le=100`. -/
def InRange (x : ℚ) : Prop := 0 ≤ x ∧ x ≤ 100

instance (x : ℚ) : Decidable (InRange x) := inferInstanceAs (Decidable (0 ≤ x ∧ x ≤ 100))

/-- The validation of the response. -/
structure ScoreBreakdown.Valid (b : ScoreBreakdown) : Prop where
  icpFit : InRange b.icpFit
  signalStrength : InRange b.signalStrength
  contactQuality : InRange b.contactQuality
  recency : InRange b.recency

/-- The rows as their writers leave them. -/
structure ScoreTables.Written (t : ScoreTables) : Prop where
  contacts : ∀ c ∈ t.contacts, c.VerifiedHasEmail
  signals : ∀ s ∈ t.signals, ∀ r ∈ s.relevanceScore, InRange r

/-! ## Signal strength -/

/-- `_RECENCY_MAX_DAYS`. -/
def recencyMaxDays : ℚ := 90

/-- `(now - created_at).total_seconds() / 86400`. -/
def ageDays (now createdAt : Time) : ℚ := ((now - createdAt : ℤ) : ℚ) / 86400000000

/-- The accumulators of the loop. -/
structure WeightedMean where
  weightedSum : ℚ := 0
  weightTotal : ℚ := 0
deriving DecidableEq, Repr

namespace WeightedMean

/-- One round of the loop: a signal without relevance or out of date is passed over. -/
def add (decay : ScoredSignal → ℚ) (now : Time) (m : WeightedMean) (s : ScoredSignal) :
    WeightedMean :=
  match s.relevanceScore with
  | none => m
  | some relevance =>
    if recencyMaxDays < ageDays now s.createdAt then m
    else { weightedSum := m.weightedSum + relevance * decay s
           weightTotal := m.weightTotal + decay s }

def mean (m : WeightedMean) : ℚ :=
  if m.weightTotal = 0 then 0 else min 100 (m.weightedSum / m.weightTotal)

end WeightedMean

/-- The signals that are looked at. -/
def ScoreTables.scored (t : ScoreTables) (companyId : ℕ) : List ScoredSignal :=
  t.signals.filter fun s => s.companyId = companyId ∧ s.isProcessed ∧ s.signalType ≠ .noSignal

/-- `_calc_signal_strength`. -/
def calcSignalStrength (decay : ScoredSignal → ℚ) (now : Time) (signals : List ScoredSignal) : ℚ :=
  (signals.foldl (WeightedMean.add decay now) {}).mean

/-! ## Contact quality -/

section

variable (U : Unicode)

/-- What the loop over the contacts counts. -/
structure ContactCounts where
  total : ℕ
  verified : ℕ
  hasEmail : ℕ
  decisionMakers : ℕ
deriving DecidableEq, Repr

def contactCounts (contacts : List ScoredContact) : ContactCounts where
  total := contacts.length
  verified := contacts.countP (·.isVerified)
  hasEmail := contacts.countP (·.hasEmail)
  decisionMakers := contacts.countP (·.isDecisionMaker U)

/-- `k / n * 100.0 if n > 0 else 0.0`. -/
def share (k n : ℕ) : ℚ := if 0 < n then k / n * 100 else 0

namespace ContactCounts

variable (n : ContactCounts)

def countScore : ℚ := min 100 (n.total * 20)

def emailScore : ℚ := share n.hasEmail n.total

def verifyScore : ℚ := share n.verified n.hasEmail

def dmScore : ℚ := if 0 < n.decisionMakers then min 100 (n.decisionMakers * 60) else 0

/-- The sub-scores together. -/
def quality : ℚ :=
  n.countScore * (25 / 100) + n.emailScore * (25 / 100) + n.verifyScore * (25 / 100) +
    n.dmScore * (25 / 100)

end ContactCounts

/-- `_calc_contact_quality`. -/
def calcContactQuality (contacts : List ScoredContact) : ℚ :=
  match contacts with
  | [] => 0
  | contacts => (contactCounts U contacts).quality

end

/-! ## Recency -/

/-- `_calc_recency`. -/
def calcRecency (now : Time) (latestSignal latestContact : Option Time) : ℚ :=
  match [latestSignal, latestContact].reduceOption.max? with
  | none => 0
  | some latest =>
    let age := ageDays now latest
    if age ≤ 0 then 100
    else if recencyMaxDays ≤ age then 0
    else max 0 (100 * (1 - age / recencyMaxDays))

/-- The three dimensions of a company. -/
def ScoreTables.dimensions (U : Unicode) (decay : ScoredSignal → ℚ) (now : Time) (companyId : ℕ)
    (t : ScoreTables) : Dimensions :=
  let contacts := t.contacts.filter (·.companyId = companyId)
  let signals := t.signals.filter (·.companyId = companyId)
  { signalStrength := calcSignalStrength decay now (t.scored companyId)
    contactQuality := calcContactQuality U contacts
    recency := calcRecency now (signals.map (·.createdAt)).max? (contacts.map (·.createdAt)).max? }

/-! ## Who writes the rows -/

/-- The contacts that the providers of `EnrichmentService` build, with what `_verify_email`
answers where it is asked. -/
inductive ContactWrite where
  /-- `_try_hunter`: a result without an address is skipped. -/
  | hunter (email : List Char) (nonempty : email ≠ []) (emailStatus : EmailStatus)
  /-- `_try_gemini`. -/
  | gemini (email : Option (List Char)) (answer : EmailStatus)
  /-- `_try_scrapin`. -/
  | scrapin (email : Option (List Char))
  /-- `_try_scraped_content`. -/
  | scrapedContent (email : Option (List Char)) (answer : EmailStatus)

def ContactWrite.email : ContactWrite → Option (List Char)
  | .hunter email _ _ => some email
  | .gemini email _ | .scrapin email | .scrapedContent email _ => email

def ContactWrite.emailStatus : ContactWrite → Option EmailStatus
  | .hunter _ _ emailStatus => some emailStatus
  | .gemini email answer => if orEmpty email ≠ [] then some answer else none
  | .scrapin email => if orEmpty email ≠ [] then some .unverified else none
  | .scrapedContent email answer => if orEmpty email ≠ [] then some answer else none

/-- What is written to the two tables. -/
inductive TableWrite where
  /-- `_store_contacts` adds a contact. -/
  | storeContact (companyId : ℕ) (title : Option (List Char)) (w : ContactWrite) (createdAt : Time)
  /-- A scraped page, not yet processed. -/
  | storeSignal (id companyId : ℕ) (signalType : SignalType) (createdAt : Time)
  /-- `process_signal` ends: without relevance, with that of `NO_SIGNAL`, or with the model's, which
  `ScoreAndRecommendation` has validated. -/
  | processSignal (id : ℕ) (signalType : SignalType) (relevance : Option (Fin 101))
  /-- A merge moves the rows of one company to another. -/
  | move (source target : ℕ)
  /-- Rows are deleted. -/
  | delete (contact : ScoredContact → Bool) (signal : ScoredSignal → Bool)

def ScoreTables.write (t : ScoreTables) : TableWrite → Option ScoreTables
  | .storeContact companyId title w createdAt =>
    some { t with contacts := t.contacts ++
      [{ companyId := companyId, title := title, email := w.email, emailStatus := w.emailStatus,
         createdAt := createdAt }] }
  | .storeSignal id companyId signalType createdAt =>
    some { t with signals := t.signals ++
      [{ id := id, companyId := companyId, signalType := signalType, createdAt := createdAt }] }
  | .processSignal id signalType relevance =>
    some { t with signals := t.signals.map fun s =>
      if s.id = id then
        { s with signalType := signalType
                 isProcessed := true
                 relevanceScore := (relevance.map fun r => (r.val : ℚ)).or s.relevanceScore }
      else s }
  | .move source target =>
    some { contacts := t.contacts.map fun c =>
             if c.companyId = source then { c with companyId := target } else c
           signals := t.signals.map fun s =>
             if s.companyId = source then { s with companyId := target } else s }
  | .delete contact signal =>
    some { contacts := t.contacts.filter contact, signals := t.signals.filter signal }

/-! ## The writers keep the rows in order -/

theorem ContactWrite.verified_hasEmail (w : ContactWrite)
    (h : w.emailStatus = some .verified) : orEmpty w.email ≠ [] := by
  cases w with
  | hunter email nonempty emailStatus => exact nonempty
  | gemini email answer =>
    simp only [emailStatus] at h
    split at h
    · assumption
    · cases h
  | scrapin email =>
    simp only [emailStatus] at h
    split at h
    · cases h
    · cases h
  | scrapedContent email answer =>
    simp only [emailStatus] at h
    split at h
    · assumption
    · cases h

theorem inRange_of_fin (r : Fin 101) : InRange (r.val : ℚ) := by
  have hle : r.val ≤ 100 := by omega
  exact ⟨Nat.cast_nonneg _, by exact_mod_cast hle⟩

namespace ScoreTables

variable {t t' : ScoreTables}

theorem written_empty : Written {} where
  contacts := by simp
  signals := by simp

theorem Written.write {w : TableWrite} (h : t.Written) (hw : t.write w = some t') :
    t'.Written := by
  cases w with
  | storeContact companyId title w createdAt =>
    obtain rfl := Option.some.inj hw
    refine ⟨fun c hc => ?_, h.signals⟩
    rcases List.mem_append.mp hc with hc | hc
    · exact h.contacts c hc
    · -- every writer that sets this status has an address at hand
      rw [List.mem_singleton.mp hc]
      intro hverified
      have hstatus : w.emailStatus = some .verified := by
        simpa [ScoredContact.isVerified] using hverified
      simpa [ScoredContact.hasEmail] using w.verified_hasEmail hstatus
  | storeSignal id companyId signalType createdAt =>
    obtain rfl := Option.some.inj hw
    refine ⟨h.contacts, fun s hs r hr => ?_⟩
    rcases List.mem_append.mp hs with hs | hs
    · exact h.signals s hs r hr
    · -- a new signal has no relevance yet
      rw [List.mem_singleton.mp hs] at hr
      cases hr
  | processSignal id signalType relevance =>
    obtain rfl := Option.some.inj hw
    refine ⟨h.contacts, fun s hs r hr => ?_⟩
    obtain ⟨s₀, hs₀, rfl⟩ := List.mem_map.mp hs
    split at hr
    · cases relevance with
      | none => exact h.signals s₀ hs₀ r hr
      | some value =>
        obtain rfl := Option.some.inj hr
        exact inRange_of_fin value
    · exact h.signals s₀ hs₀ r hr
  | move source target =>
    obtain rfl := Option.some.inj hw
    constructor
    · intro c hc
      obtain ⟨c₀, hc₀, rfl⟩ := List.mem_map.mp hc
      split
      · exact h.contacts c₀ hc₀
      · exact h.contacts c₀ hc₀
    · intro s hs r hr
      obtain ⟨s₀, hs₀, rfl⟩ := List.mem_map.mp hs
      split at hr
      · exact h.signals s₀ hs₀ r hr
      · exact h.signals s₀ hs₀ r hr
  | delete contact signal =>
    obtain rfl := Option.some.inj hw
    exact ⟨fun c hc => h.contacts c (List.mem_of_mem_filter hc),
      fun s hs => h.signals s (List.mem_of_mem_filter hs)⟩

/-- Whatever the writers do, in any order. -/
theorem written_of_writes (ws : List TableWrite) :
    Run.AllStates ScoreTables.write Written {} ws :=
  Run.AllStates.of_step (fun _ _ _ h hw => h.write hw) written_empty ws

end ScoreTables

/-! ## Signal strength -/

namespace WeightedMean

variable {decay : ScoredSignal → ℚ} {now : Time}

/-- The invariant of the loop: the sum is one of relevances up to 100. -/
structure Bounded (m : WeightedMean) : Prop where
  total : 0 ≤ m.weightTotal
  lower : 0 ≤ m.weightedSum
  upper : m.weightedSum ≤ 100 * m.weightTotal

theorem Bounded.add {m : WeightedMean} {s : ScoredSignal} (h : m.Bounded) (hdecay : 0 < decay s)
    (hs : ∀ r ∈ s.relevanceScore, InRange r) : (m.add decay now s).Bounded := by
  unfold WeightedMean.add
  split
  · exact h
  · rename_i relevance hrelevance
    split
    · exact h
    · obtain ⟨hlow, hhigh⟩ := hs relevance hrelevance
      have hnonneg : 0 ≤ relevance * decay s := mul_nonneg hlow hdecay.le
      have hle : relevance * decay s ≤ 100 * decay s := mul_le_mul_of_nonneg_right hhigh hdecay.le
      constructor
      · exact add_nonneg h.total hdecay.le
      · exact add_nonneg h.lower hnonneg
      · show m.weightedSum + relevance * decay s ≤ 100 * (m.weightTotal + decay s)
        rw [mul_add]
        exact add_le_add h.upper hle

theorem Bounded.foldl (signals : List ScoredSignal) (hdecay : ∀ s ∈ signals, 0 < decay s)
    (hs : ∀ s ∈ signals, ∀ r ∈ s.relevanceScore, InRange r) {m : WeightedMean} (h : m.Bounded) :
    (signals.foldl (WeightedMean.add decay now) m).Bounded := by
  induction signals generalizing m with
  | nil => exact h
  | cons s signals ih =>
    rw [List.forall_mem_cons] at hdecay hs
    exact ih hdecay.2 hs.2 (h.add hdecay.1 hs.1)

theorem Bounded.mean {m : WeightedMean} (h : m.Bounded) : InRange m.mean := by
  unfold WeightedMean.mean
  split
  · exact ⟨le_rfl, by norm_num⟩
  · have hdiv : 0 ≤ m.weightedSum / m.weightTotal := div_nonneg h.lower h.total
    exact ⟨le_min (by norm_num) hdiv, min_le_left _ _⟩

end WeightedMean

theorem calcSignalStrength_inRange {decay : ScoredSignal → ℚ} {now : Time}
    {signals : List ScoredSignal} (hdecay : ∀ s ∈ signals, 0 < decay s)
    (hs : ∀ s ∈ signals, ∀ r ∈ s.relevanceScore, InRange r) :
    InRange (calcSignalStrength decay now signals) := by
  have hempty : ({} : WeightedMean).Bounded := ⟨le_rfl, le_rfl, by norm_num⟩
  exact (WeightedMean.Bounded.foldl signals hdecay hs hempty).mean

/-! ## Contact quality -/

theorem InRange.min_of_nonneg {x : ℚ} (h : 0 ≤ x) : InRange (min 100 x) :=
  ⟨le_min (by norm_num) h, min_le_left _ _⟩

theorem share_inRange {k n : ℕ} (h : k ≤ n) : InRange (share k n) := by
  unfold share
  split
  · rename_i hn
    have hpos : (0 : ℚ) < n := by exact_mod_cast hn
    have hle : (k : ℚ) / n ≤ 1 := by
      rw [div_le_one hpos]
      exact_mod_cast h
    constructor
    · positivity
    · linarith
  · exact ⟨le_rfl, by norm_num⟩

/-- One more of both never makes a share smaller. -/
theorem share_le_share {k n : ℕ} (h : k ≤ n) : share k n ≤ share (k + 1) (n + 1) := by
  unfold share
  rw [if_pos (Nat.succ_pos n)]
  split
  · rename_i hn
    have hpos : (0 : ℚ) < n := by exact_mod_cast hn
    have hle : (k : ℚ) ≤ n := by exact_mod_cast h
    have hdiv : (k : ℚ) / n ≤ ((k + 1 : ℕ) : ℚ) / ((n + 1 : ℕ) : ℚ) := by
      push_cast
      rw [div_le_div_iff₀ hpos (by positivity)]
      linarith
    linarith
  · positivity

section

variable {U : Unicode} {contacts : List ScoredContact}

/-- Among contacts as their writers leave them, no more are verified than have an address. -/
theorem verified_le_hasEmail (h : ∀ c ∈ contacts, c.VerifiedHasEmail) :
    (contactCounts U contacts).verified ≤ (contactCounts U contacts).hasEmail :=
  List.countP_mono_left h

theorem hasEmail_le_total :
    (contactCounts U contacts).hasEmail ≤ (contactCounts U contacts).total :=
  List.countP_le_length

namespace ContactCounts

variable {n : ContactCounts}

theorem countScore_inRange : InRange n.countScore :=
  InRange.min_of_nonneg (by positivity)

theorem dmScore_inRange : InRange n.dmScore := by
  unfold dmScore
  split
  · exact InRange.min_of_nonneg (by positivity)
  · exact ⟨le_rfl, by norm_num⟩

theorem quality_inRange (hemail : n.hasEmail ≤ n.total) (hverified : n.verified ≤ n.hasEmail) :
    InRange n.quality := by
  obtain ⟨hcount, hcount'⟩ := n.countScore_inRange
  obtain ⟨hemail, hemail'⟩ : InRange n.emailScore := share_inRange hemail
  obtain ⟨hverify, hverify'⟩ : InRange n.verifyScore := share_inRange hverified
  obtain ⟨hdm, hdm'⟩ := n.dmScore_inRange
  unfold quality
  constructor
  · linarith
  · linarith

/-- The counts with a verified decision maker more. -/
def addGood (n : ContactCounts) : ContactCounts where
  total := n.total + 1
  verified := n.verified + 1
  hasEmail := n.hasEmail + 1
  decisionMakers := n.decisionMakers + 1

theorem countScore_le_addGood : n.countScore ≤ n.addGood.countScore := by
  have hle : (n.total : ℚ) * 20 ≤ ((n.total + 1 : ℕ) : ℚ) * 20 := by
    push_cast
    linarith
  exact min_le_min_left 100 hle

theorem dmScore_le_addGood : n.dmScore ≤ n.addGood.dmScore := by
  unfold dmScore
  rw [if_pos (show 0 < n.addGood.decisionMakers from Nat.succ_pos _)]
  split
  · have hle : (n.decisionMakers : ℚ) * 60 ≤ ((n.decisionMakers + 1 : ℕ) : ℚ) * 60 := by
      push_cast
      linarith
    exact min_le_min_left 100 hle
  · exact (InRange.min_of_nonneg (by positivity)).1

theorem quality_le_addGood (hemail : n.hasEmail ≤ n.total) (hverified : n.verified ≤ n.hasEmail) :
    n.quality ≤ n.addGood.quality := by
  have hcount := n.countScore_le_addGood
  have hemail : n.emailScore ≤ n.addGood.emailScore := share_le_share hemail
  have hverify : n.verifyScore ≤ n.addGood.verifyScore := share_le_share hverified
  have hdm := n.dmScore_le_addGood
  unfold quality
  linarith

end ContactCounts

theorem calcContactQuality_inRange (h : ∀ c ∈ contacts, c.VerifiedHasEmail) :
    InRange (calcContactQuality U contacts) := by
  unfold calcContactQuality
  split
  · exact ⟨le_rfl, by norm_num⟩
  · exact ContactCounts.quality_inRange hasEmail_le_total (verified_le_hasEmail h)

/-- Without contacts the counts give the same as the early return. -/
theorem calcContactQuality_eq :
    calcContactQuality U contacts = (contactCounts U contacts).quality := by
  unfold calcContactQuality
  split
  · simp [contactCounts, ContactCounts.quality, ContactCounts.countScore,
      ContactCounts.emailScore, ContactCounts.verifyScore, ContactCounts.dmScore, share]
  · rfl

/-- The order of the rows does not matter. -/
theorem contactCounts_perm {contacts' : List ScoredContact} (h : contacts.Perm contacts') :
    contactCounts U contacts = contactCounts U contacts' := by
  unfold contactCounts
  rw [h.length_eq, h.countP_eq, h.countP_eq, h.countP_eq]

theorem contactCounts_cons {c : ScoredContact} (hemail : c.hasEmail = true)
    (hverified : c.isVerified = true) (hdm : c.isDecisionMaker U = true) :
    contactCounts U (c :: contacts) = (contactCounts U contacts).addGood := by
  unfold contactCounts ContactCounts.addGood
  rw [List.countP_cons_of_pos hemail, List.countP_cons_of_pos hverified,
    List.countP_cons_of_pos hdm, List.length_cons]

/-- A contact with a verified address and a decision maker's title never lowers the quality,
wherever its row is read. -/
theorem calcContactQuality_add_le {c : ScoredContact} {contacts' : List ScoredContact}
    (h : ∀ c ∈ contacts, c.VerifiedHasEmail) (hemail : c.hasEmail = true)
    (hverified : c.isVerified = true) (hdm : c.isDecisionMaker U = true)
    (hadd : contacts'.Perm (c :: contacts)) :
    calcContactQuality U contacts ≤ calcContactQuality U contacts' := by
  rw [calcContactQuality_eq, calcContactQuality_eq, contactCounts_perm hadd,
    contactCounts_cons hemail hverified hdm]
  exact ContactCounts.quality_le_addGood hasEmail_le_total (verified_le_hasEmail h)

/-- A founder joins a contact without an address. -/
theorem calcContactQuality_add_founder :
    calcContactQuality .ascii [{ companyId := 1, createdAt := 0 }] ≤ calcContactQuality .ascii
      [{ companyId := 1, createdAt := 0 },
       { companyId := 1, title := some "Founder".toList, email := some "a@b.nl".toList,
         emailStatus := some .verified, createdAt := 0 }] :=
  calcContactQuality_add_le
    (fun c hc hverified => by rw [List.mem_singleton.mp hc] at hverified; cases hverified)
    (by decide +kernel) (by decide +kernel) (by decide +kernel) (List.Perm.swap _ _ _)

end

/-! ## Recency -/

theorem calcRecency_inRange {now : Time} {latestSignal latestContact : Option Time} :
    InRange (calcRecency now latestSignal latestContact) := by
  unfold calcRecency
  split
  · exact ⟨le_rfl, by norm_num⟩
  · rename_i latest _
    dsimp only
    split
    · exact ⟨by norm_num, le_rfl⟩
    · rename_i hpos
      split
      · exact ⟨le_rfl, by norm_num⟩
      · have hnonneg : 0 ≤ ageDays now latest / recencyMaxDays :=
          div_nonneg (not_le.mp hpos).le (by norm_num [recencyMaxDays])
        exact ⟨le_max_left _ _, max_le (by norm_num) (by linarith)⟩

/-! ## ICP fit -/

theorem scoreOf_inRange : ∀ total ≤ 4, ∀ k ≤ total, InRange (scoreOf k total) := by
  decide +kernel

theorem calcIcpFit_inRange {U : Unicode} {profile : Option ICPProfile} {c : ScoredCompany} :
    InRange (calcIcpFit U profile c) := by
  unfold calcIcpFit
  split
  · exact ⟨by norm_num, by norm_num⟩
  · split
    · exact ⟨le_rfl, by norm_num⟩
    · exact scoreOf_inRange _ length_criteria_le _ count_criteria_le

/-! ## The lead score -/

/-- Rounding stays between 0 and 100. -/
theorem InRange.roundHundredth {x : ℚ} (h : InRange x) : InRange (roundHundredth x) := by
  obtain ⟨hlow, hhigh⟩ := h
  have hfloor : 0 ≤ (10 * (10 * x)).floor := Rat.le_floor_iff.mpr (by push_cast; linarith)
  have hle : ((10 * (10 * x)).floor : ℚ) ≤ 10 * (10 * x) := Rat.floor_le _
  unfold Scoring.roundHundredth Dedup.roundTenth
  dsimp only
  generalize (10 * (10 * x)).floor = n at hfloor hle ⊢
  have hnonneg : (0 : ℚ) ≤ n := by exact_mod_cast hfloor
  split
  · constructor
    · positivity
    · linarith
  · -- rounded up, so that there is room above the floor
    rename_i hup
    rw [not_or, not_lt] at hup
    have hlt : (n : ℚ) < 10000 := by linarith [hup.1]
    have hstep : n + 1 ≤ 10000 := by
      have hlt : n < 10000 := by exact_mod_cast hlt
      omega
    have hstep : ((n + 1 : ℤ) : ℚ) ≤ 10000 := by exact_mod_cast hstep
    have hnonneg : (0 : ℚ) ≤ (n + 1 : ℤ) := by
      push_cast
      linarith
    constructor
    · positivity
    · linarith

section

variable {icpFit : ℚ} {d : Dimensions}

theorem weightedSum_inRange (hicp : InRange icpFit) (hsignal : InRange d.signalStrength)
    (hcontact : InRange d.contactQuality) (hrecency : InRange d.recency) :
    InRange (weightedSum icpFit d) := by
  obtain ⟨hicp, hicp'⟩ := hicp
  obtain ⟨hsignal, hsignal'⟩ := hsignal
  obtain ⟨hcontact, hcontact'⟩ := hcontact
  obtain ⟨hrecency, hrecency'⟩ := hrecency
  unfold weightedSum
  constructor
  · linarith
  · linarith

/-- What is between 0 and 100 is not clamped. -/
theorem InRange.clamp {x : ℚ} (h : InRange x) : min 100 (max 0 x) = x := by
  rw [max_eq_right h.1, min_eq_right h.2]

theorem leadScore_eq (h : InRange (weightedSum icpFit d)) :
    leadScore icpFit d = roundHundredth (weightedSum icpFit d) :=
  congrArg roundHundredth h.clamp

end

/-- Over rows as their writers leave them, whatever the weights of the signals are: the four
dimensions are between 0 and 100, the clamp changes nothing, the lead score is their weighted sum
as it is rounded, and what is stored passes the validation of the response. -/
theorem scores_inRange (U : Unicode) (profile : Option ICPProfile) (c : ScoredCompany)
    (decay : ScoredSignal → ℚ) (now : Time) (companyId : ℕ) (t : ScoreTables)
    (hdecay : ∀ s ∈ t.signals, 0 < decay s) (ht : t.Written) :
    let icpFit := calcIcpFit U profile c
    let d := t.dimensions U decay now companyId
    let scored := scoreCompany U profile d now c
    InRange icpFit ∧ InRange d.signalStrength ∧ InRange d.contactQuality ∧ InRange d.recency ∧
      InRange (weightedSum icpFit d) ∧
      min 100 (max 0 (weightedSum icpFit d)) = weightedSum icpFit d ∧
      scored.leadScore = some (roundHundredth (weightedSum icpFit d)) ∧
      (∀ x ∈ scored.leadScore, InRange x) ∧ ∀ b ∈ scored.scoreBreakdown, b.Valid := by
  intro icpFit d scored
  have hicp : InRange icpFit := calcIcpFit_inRange
  have hsignal : InRange d.signalStrength := by
    apply calcSignalStrength_inRange
    · exact fun s hs => hdecay s (List.mem_of_mem_filter hs)
    · exact fun s hs => ht.signals s (List.mem_of_mem_filter hs)
  have hcontact : InRange d.contactQuality :=
    calcContactQuality_inRange fun c hc => ht.contacts c (List.mem_of_mem_filter hc)
  have hrecency : InRange d.recency := calcRecency_inRange
  have hsum := weightedSum_inRange hicp hsignal hcontact hrecency
  have hscore : scored.leadScore = some (roundHundredth (weightedSum icpFit d)) :=
    congrArg some (leadScore_eq hsum)
  refine ⟨hicp, hsignal, hcontact, hrecency, hsum, hsum.clamp, hscore, ?_, ?_⟩
  · intro x hx
    rw [hscore] at hx
    obtain rfl := Option.some.inj hx
    exact hsum.roundHundredth
  · intro b hb
    obtain rfl := Option.some.inj hb
    exact ⟨hicp.roundHundredth, hsignal.roundHundredth, hcontact.roundHundredth,
      hrecency.roundHundredth⟩

/-- A company with one contact and one signal. -/
def oneOfEach : ScoreTables where
  contacts := [{ companyId := 1, email := some "a@b.nl".toList, emailStatus := some .verified,
                 createdAt := 0 }]
  signals := [{ id := 1, companyId := 1, signalType := .expansion, relevanceScore := some 80,
                isProcessed := true, createdAt := 0 }]

theorem scores_inRange_oneOfEach :
    InRange (weightedSum 50 (oneOfEach.dimensions .ascii (fun _ => 1) 0 1)) := by
  have hwritten : oneOfEach.Written := by
    constructor
    · intro c hc _
      rw [List.mem_singleton.mp hc]
      decide
    · intro s hs r hr
      rw [List.mem_singleton.mp hs] at hr
      obtain rfl := Option.some.inj hr
      decide
  exact (scores_inRange .ascii none {} (fun _ => 1) 0 1 oneOfEach (fun _ _ => by norm_num)
    hwritten).2.2.2.2.1

end Scoring
end LeadPulse
