import LeadPulse.LinkedIn.Batch

/-!
# Everyone's turn in the LinkedIn batch

A company that is overdue has a higher priority than any company that has been scraped since,
whatever their ICP scores (`priorityScore_lt`). So a batch that passes it over takes companies
that have not had their turn, and there are only so many of them (`tries_lt_of_batches`). This
counts on the scrapes: where as many companies as a batch takes have never been scraped and
cannot be, no other company has a turn (`not_pending_of_failing`), and where one scrape leaves
with an exception, none behind it has (`not_called_of_poison`).
-/

namespace LeadPulse
namespace LinkedIn

open Paging Rotation Scoring

variable {s s' s₀ : State} {a : Action} {as : List Action} {c id i L : ℕ} {now start : Time}
  {o : Outcome} {r r' : CompanyRow} {byBatch : Bool}

/-! ## Priorities -/

/-- The last scrape is so long ago at the time `start` that the ICP score makes no difference. A
company that has never been scraped counts as 999 days overdue, and not more. -/
def Overdue (start now : Time) : Option Time → Prop
  | none => now < start + days 989
  | some t => t + days 10 < start

theorem icpBonus_nonneg (r : CompanyRow) : 0 ≤ icpBonus r := by
  unfold icpBonus
  split
  · exact le_rfl
  · rename_i score _
    exact div_nonneg score.property.1 (by norm_num [icpScoreDivisor])

theorem icpBonus_le (r : CompanyRow) : icpBonus r ≤ 10 := by
  unfold icpBonus
  split
  · norm_num
  · rename_i score _
    rw [icpScoreDivisor, div_le_iff₀ (by norm_num)]
    linarith [score.property.2]

theorem stalenessDays_some {t : Time} (h : r.linkedinLastScrapedAt = some t) :
    stalenessDays now r = ((now - t : ℤ) : ℚ) / 1000000 / 86400 := by
  simp only [stalenessDays, h]

theorem stalenessDays_none (h : r.linkedinLastScrapedAt = none) : stalenessDays now r = 999 := by
  simp only [stalenessDays, h, neverScrapedStalenessDays]

/-- Days on the clock and in the order. -/
theorem div_lt_of_lt_days {x : ℤ} {n : ℕ} (h : x < days n) : (x : ℚ) / 1000000 / 86400 < n := by
  unfold days hours Time at h
  have hq : (x : ℚ) < n * 86400000000 := by
    have hx : x < (n : ℤ) * 86400000000 := by
      push_cast at h
      omega
    exact_mod_cast hx
  rw [div_div, div_lt_iff₀ (by norm_num)]
  linarith

theorem lt_div_of_days_lt {x : ℤ} {n : ℕ} (h : days n < x) :
    (n : ℚ) < (x : ℚ) / 1000000 / 86400 := by
  unfold days hours Time at h
  have hq : (n : ℚ) * 86400000000 < x := by
    have hx : (n : ℤ) * 86400000000 < x := by
      push_cast at h
      omega
    exact_mod_cast hx
  rw [div_div, lt_div_iff₀ (by norm_num)]
  linarith

/-- An overdue company goes before one that has been scraped since. -/
theorem priorityScore_lt {t : Time} (hr : r.linkedinLastScrapedAt = some t) (ht : start ≤ t)
    (hdue : Overdue start now r'.linkedinLastScrapedAt) :
    priorityScore now r < priorityScore now r' := by
  unfold priorityScore
  rw [stalenessDays_some hr]
  have hle := icpBonus_le r
  have hnonneg := icpBonus_nonneg r'
  cases hlast : r'.linkedinLastScrapedAt with
  | none =>
    rw [hlast] at hdue
    have hlt : now - t < days 989 := by
      have hdue : now < start + days 989 := hdue
      unfold Time at *
      omega
    have hdays := div_lt_of_lt_days hlt
    rw [stalenessDays_none hlast]
    push_cast at hdays ⊢
    linarith
  | some t' =>
    rw [hlast] at hdue
    have hlt : days 10 < t - t' := by
      have hdue : t' + days 10 < start := hdue
      unfold Time at *
      omega
    have hdays := lt_div_of_days_lt hlt
    rw [stalenessDays_some hlast]
    -- both are read off the same clock
    have hsplit : ((now - t' : ℤ) : ℚ) / 1000000 / 86400 =
        ((now - t : ℤ) : ℚ) / 1000000 / 86400 + ((t - t' : ℤ) : ℚ) / 1000000 / 86400 := by
      push_cast
      ring
    rw [hsplit]
    push_cast at hdays ⊢
    linarith

theorem byPriority_le {x y : CompanyRow} :
    (byPriority now).le x y = true ↔ priorityScore now y ≤ priorityScore now x := by
  simp [byPriority, SortOrder.reverse, SortOrder.onKey, SortOrder.asc]

/-! ## One scrape -/

/-- A scrape that does not come to Apify changes nothing; otherwise it is logged, and the company
gets its timestamp if the scrape is done. -/
theorem processCompany_cases (byBatch : Bool) (id : ℕ) (now : Time) (o : Outcome) (s : State) :
    (processCompany byBatch id now o s = s ∧
      ∀ r, Table.get CompanyRow.id s.companies id = some r → r.hasUrl = false) ∨
    ∃ r, Table.get CompanyRow.id s.companies id = some r ∧ r.hasUrl = true ∧
      processCompany byBatch id now o s = { s with
        calls := s.calls ++ [⟨id, byBatch⟩]
        companies := if o = .done then Table.modify CompanyRow.id s.companies id fun c =>
          { c with linkedinLastScrapedAt := some now } else s.companies } := by
  unfold processCompany
  cases hr : Table.get CompanyRow.id s.companies id with
  | none => exact Or.inl ⟨rfl, fun r h => nomatch h⟩
  | some r =>
    cases hurl : r.hasUrl with
    | false =>
      refine Or.inl ⟨by simp [hurl], fun r' h => ?_⟩
      rw [← Option.some.inj h, hurl]
    | true =>
      refine Or.inr ⟨r, rfl, hurl, ?_⟩
      by_cases ho : o = .done <;> simp [hurl, ho]

@[simp] theorem processCompany_batches :
    (processCompany byBatch id now o s).batches = s.batches := by
  obtain ⟨h, -⟩ | ⟨r, -, -, h⟩ := processCompany_cases byBatch id now o s <;> rw [h]

@[simp] theorem processCompany_clock :
    (processCompany byBatch id now o s).clock = s.clock := by
  obtain ⟨h, -⟩ | ⟨r, -, -, h⟩ := processCompany_cases byBatch id now o s <;> rw [h]

@[simp] theorem processCompany_nextId :
    (processCompany byBatch id now o s).nextId = s.nextId := by
  obtain ⟨h, -⟩ | ⟨r, -, -, h⟩ := processCompany_cases byBatch id now o s <;> rw [h]

/-- The rows after a scrape: a timestamp may have been written, to one row. -/
theorem processCompany_companies (byBatch : Bool) (id : ℕ) (now : Time) (o : Outcome)
    (s : State) : ∃ f : CompanyRow → CompanyRow,
    (processCompany byBatch id now o s).companies = s.companies.map f ∧
      ∀ r, f r = r ∨ r.id = id ∧ f r = { r with linkedinLastScrapedAt := some now } := by
  obtain ⟨h, -⟩ | ⟨r, -, -, h⟩ := processCompany_cases byBatch id now o s
  · exact ⟨fun r => r, by rw [h, List.map_id'], fun r => Or.inl rfl⟩
  · rw [h]
    by_cases ho : o = .done
    · refine ⟨fun r => if r.id = id then { r with linkedinLastScrapedAt := some now } else r,
        by rw [if_pos ho]; rfl, fun r => ?_⟩
      dsimp only
      split
      · rename_i hid
        exact Or.inr ⟨hid, rfl⟩
      · exact Or.inl rfl
    · exact ⟨fun r => r, by rw [if_neg ho, List.map_id'], fun r => Or.inl rfl⟩

/-- A company with a URL is tried when its turn comes. -/
theorem tries_processCompany : (processCompany byBatch id now o s).tries c =
    s.tries c + if id = c ∧ ∃ r, Table.get CompanyRow.id s.companies id = some r ∧ r.hasUrl = true
      then 1 else 0 := by
  obtain ⟨h, hurl⟩ | ⟨r, hr, hurl, h⟩ := processCompany_cases byBatch id now o s
  · rw [h, if_neg]
    · rfl
    · rintro ⟨-, r, hr, hr'⟩
      rw [hurl r hr] at hr'
      cases hr'
  · rw [h]
    unfold State.tries
    rw [List.countP_append, List.countP_singleton]
    congr 1
    simp only [decide_eq_true_eq]
    refine if_congr ⟨fun hid => ⟨hid, r, hr, hurl⟩, fun hid => hid.1⟩ rfl rfl

/-! ## One step -/

/-- The primary key of the table, and its sequence. -/
structure WF (s : State) : Prop where
  keyed : Table.Keyed CompanyRow.id s.companies
  fresh : ∀ r ∈ s.companies, r.id < s.nextId

theorem step_clock_le (h : step s a = some s') : s.clock ≤ s'.clock := by
  cases a with
  | selectBatch now dailyLimit answer =>
    simp only [step, Option.ite_none_right_eq_some, Option.some.injEq] at h
    obtain ⟨⟨hle, -⟩, rfl⟩ := h
    exact hle
  | processNext i now o =>
    simp only [step] at h
    split at h
    · simp only [Option.ite_none_right_eq_some, Option.some.injEq] at h
      obtain ⟨hle, rfl⟩ := h
      simpa using hle
    · cases h
  | scrapeSingle id now o =>
    simp only [step, Option.ite_none_right_eq_some, Option.some.injEq] at h
    obtain ⟨hle, rfl⟩ := h
    simpa using hle
  | killBatch i => exact (Option.some.inj h) ▸ le_rfl
  | create p => exact (Option.some.inj h) ▸ le_rfl
  | update id p => exact (Option.some.inj h) ▸ le_rfl
  | merge duplicate => exact (Option.some.inj h) ▸ le_rfl

/-- What a step does to the table: it may rewrite rows without touching their ids, add a row at
the end, or delete rows. A timestamp that is written is not in the past. -/
inductive RowsStep (s s' : State) : Prop
  | rewritten (f : CompanyRow → CompanyRow) (hf : s'.companies = s.companies.map f)
      (hid : ∀ r, (f r).id = r.id)
      (hlast : ∀ r, (f r).linkedinLastScrapedAt = r.linkedinLastScrapedAt ∨
        ∃ t, (f r).linkedinLastScrapedAt = some t ∧ s.clock ≤ t)
      (hnext : s'.nextId = s.nextId)
  | added (r : CompanyRow) (hr : s'.companies = s.companies ++ [r]) (hid : r.id = s.nextId)
      (hnext : s'.nextId = s.nextId + 1)
  | deleted (k : ℕ) (hk : s'.companies = Table.remove CompanyRow.id s.companies k)
      (hnext : s'.nextId = s.nextId)

theorem RowsStep.processCompany {u : State} (hu : u.companies = s.companies)
    (hnext : u.nextId = s.nextId) (hle : s.clock ≤ now) :
    RowsStep s (processCompany byBatch id now o u) := by
  obtain ⟨f, hf, hrow⟩ := processCompany_companies byBatch id now o u
  refine .rewritten f (hf.trans (by rw [hu])) (fun r => ?_) (fun r => ?_)
    (processCompany_nextId.trans hnext)
  · rcases hrow r with h | ⟨-, h⟩ <;> rw [h]
  · rcases hrow r with h | ⟨-, h⟩ <;> rw [h]
    · exact Or.inl rfl
    · exact Or.inr ⟨now, rfl, hle⟩

theorem RowsStep.unchanged (h : s'.companies = s.companies) (hnext : s'.nextId = s.nextId) :
    RowsStep s s' :=
  .rewritten (fun r => r) (by rw [h, List.map_id']) (fun _ => rfl) (fun _ => Or.inl rfl) hnext

theorem rowsStep (h : step s a = some s') : RowsStep s s' := by
  cases a with
  | selectBatch now dailyLimit answer =>
    simp only [step, Option.ite_none_right_eq_some, Option.some.injEq] at h
    obtain ⟨-, rfl⟩ := h
    exact .unchanged rfl rfl
  | processNext i now o =>
    simp only [step] at h
    split at h
    · simp only [Option.ite_none_right_eq_some, Option.some.injEq] at h
      obtain ⟨hle, rfl⟩ := h
      exact .processCompany rfl rfl hle
    · cases h
  | scrapeSingle id now o =>
    simp only [step, Option.ite_none_right_eq_some, Option.some.injEq] at h
    obtain ⟨hle, rfl⟩ := h
    exact .processCompany rfl rfl hle
  | killBatch i =>
    obtain rfl := Option.some.inj h
    exact .unchanged rfl rfl
  | create p =>
    obtain rfl := Option.some.inj h
    exact .added _ rfl rfl rfl
  | update id p =>
    obtain rfl := Option.some.inj h
    refine .rewritten _ rfl (fun r => ?_) (fun r => Or.inl ?_) rfl <;> split <;> rfl
  | merge duplicate =>
    obtain rfl := Option.some.inj h
    exact .deleted duplicate rfl rfl

theorem RowsStep.nextId_le (h : RowsStep s s') : s.nextId ≤ s'.nextId := by
  cases h <;> omega

theorem WF.of_rowsStep (hwf : WF s) (h : RowsStep s s') : WF s' := by
  cases h with
  | rewritten f hf hid _ hnext =>
    refine ⟨?_, ?_⟩
    · rw [hf]
      exact hwf.keyed.map hid
    · rw [hf, hnext]
      exact Table.lt_map hwf.fresh hid
  | added r hr hid hnext =>
    refine ⟨?_, ?_⟩
    · rw [hr]
      exact hwf.keyed.append (by rw [hid]; exact Table.get_of_lt hwf.fresh)
    · rw [hr, hnext]
      exact Table.lt_append hwf.fresh hid
  | deleted k hk hnext =>
    refine ⟨?_, ?_⟩
    · rw [hk]
      exact hwf.keyed.remove
    · rw [hk, hnext]
      exact fun r hr => hwf.fresh r (List.mem_filter.mp hr).1

/-- Where a row comes from, and its timestamp. -/
theorem RowsStep.origin (h : RowsStep s s') (hr : r' ∈ s'.companies) :
    (∃ r ∈ s.companies, r.id = r'.id ∧
      (r'.linkedinLastScrapedAt = r.linkedinLastScrapedAt ∨
        ∃ t, r'.linkedinLastScrapedAt = some t ∧ s.clock ≤ t)) ∨
    r'.id = s.nextId ∧ s'.nextId = s.nextId + 1 := by
  cases h with
  | rewritten f hf hid hlast hnext =>
    rw [hf] at hr
    obtain ⟨r, hold, rfl⟩ := List.mem_map.mp hr
    exact Or.inl ⟨r, hold, (hid r).symm, hlast r⟩
  | added r₁ hr₁ hid hnext =>
    rw [hr₁] at hr
    rcases List.mem_append.mp hr with hr | hr
    · exact Or.inl ⟨r', hr, rfl, Or.inl rfl⟩
    · rw [List.mem_singleton.mp hr]
      exact Or.inr ⟨hid, hnext⟩
  | deleted k hk hnext =>
    rw [hk] at hr
    exact Or.inl ⟨r', (List.mem_filter.mp hr).1, rfl, Or.inl rfl⟩

/-! ## The window -/

/-- The company of the number `c` can be scraped, and its last scrape was at `last`. -/
def Ready (c : ℕ) (last : Option Time) (s : State) : Prop :=
  ∃ r, Table.get CompanyRow.id s.companies c = some r ∧ r.status ≠ .archived ∧ r.hasUrl = true ∧
    r.linkedinLastScrapedAt = last

/-- What may happen while the company `c` waits for its turn. A batch has at least `L` companies,
and it starts when the one before is done, and comes to its end; the companies it comes to can be
scraped, except for those in `F`; and nobody archives `c`, or takes its URL or its row away. -/
def InWindow (F : Finset ℕ) (L c : ℕ) (s : State) : Action → Prop
  | .selectBatch _ dailyLimit _ => L ≤ dailyLimit ∧ s.pending = []
  | .processNext i _ o => o ≠ .raised ∧ ∀ b ∈ s.batches[i]?, ∀ id ∈ b.head?, id ∉ F →
      o = .done ∧ ∀ r ∈ Table.get CompanyRow.id s.companies id, r.hasUrl = true
  | .killBatch i => ∀ b ∈ s.batches[i]?, b = []
  | .update id p => id = c → p.status ≠ .archived ∧ p.linkedinUrl.getD [] ≠ []
  | .merge duplicate => duplicate ≠ c
  | .scrapeSingle .. | .create _ => True

instance (F : Finset ℕ) (L c : ℕ) (s : State) : DecidablePred (InWindow F L c s)
  | .selectBatch _ dailyLimit _ => inferInstanceAs (Decidable (L ≤ dailyLimit ∧ s.pending = []))
  | .processNext i _ o => inferInstanceAs (Decidable (o ≠ .raised ∧
      ∀ b ∈ s.batches[i]?, ∀ id ∈ b.head?, id ∉ F →
        o = .done ∧ ∀ r ∈ Table.get CompanyRow.id s.companies id, r.hasUrl = true))
  | .killBatch i => inferInstanceAs (Decidable (∀ b ∈ s.batches[i]?, b = []))
  | .update id p => inferInstanceAs (Decidable (id = c → p.status ≠ .archived ∧
      p.linkedinUrl.getD [] ≠ []))
  | .merge duplicate => inferInstanceAs (Decidable (duplicate ≠ c))
  | .scrapeSingle .. | .create _ => inferInstanceAs (Decidable True)

/-- The company has had its turn, or has been selected. -/
def TurnComes (s₀ : State) (c : ℕ) (s : State) : Prop :=
  s₀.tries c < s.tries c ∨
    s₀.tries c ≤ s.tries c ∧ c ∈ s.pending ∧ ∃ last, Ready c last s

/-- The companies that there have been since `s₀`. -/
def ever (s₀ s : State) : Finset ℕ :=
  (s₀.companies.map CompanyRow.id).toFinset ∪ Finset.Ico s₀.nextId s.nextId

theorem card_ever_le : (ever s₀ s).card ≤ s₀.companies.length + (s.nextId - s₀.nextId) := by
  unfold ever
  have hids := List.toFinset_card_le (s₀.companies.map CompanyRow.id)
  have hunion := Finset.card_union_le (s₀.companies.map CompanyRow.id).toFinset
    (Finset.Ico s₀.nextId s.nextId)
  rw [List.length_map] at hids
  rw [Nat.card_Ico] at hunion
  omega

theorem ever_mono (h : s.nextId ≤ s'.nextId) : ever s₀ s ⊆ ever s₀ s' :=
  Finset.union_subset_union_right (Finset.Ico_subset_Ico_right h)

theorem lt_of_mem_ever (h₀ : WF s₀) (hle : s₀.nextId ≤ s.nextId) (hid : id ∈ ever s₀ s) :
    id < s.nextId := by
  rcases Finset.mem_union.mp hid with hold | hnew
  · obtain ⟨r, hr, rfl⟩ := List.mem_map.mp (List.mem_toFinset.mp hold)
    exact (h₀.fresh r hr).trans_le hle
  · exact (Finset.mem_Ico.mp hnew).2

/-- The company `c` still waits; `picked` are those that have been selected since `s₀`. Whoever of
them could be scraped has been scraped since. -/
structure Waiting (s₀ : State) (c : ℕ) (last : Option Time) (F picked : Finset ℕ) (s : State) :
    Prop where
  wf : WF s
  clock : s₀.clock ≤ s.clock
  nextId : s₀.nextId ≤ s.nextId
  rows : ∀ r ∈ s.companies, r.id ∈ ever s₀ s
  tries : s₀.tries c ≤ s.tries c
  ready : Ready c last s
  others : picked ⊆ ever s₀ s
  notPicked : c ∉ picked
  served : ∀ id ∈ picked, id ∉ F → id ∈ s.pending ∨
    ∀ r ∈ s.companies, r.id = id → ∃ t, r.linkedinLastScrapedAt = some t ∧ s₀.clock ≤ t

theorem mem_pending {x : ℕ} : x ∈ s.pending ↔ ∃ b ∈ s.batches, x ∈ b := List.mem_flatten

/-- A step of a batch takes one company from it. -/
theorem mem_pending_set {rest : List ℕ} {x : ℕ} (hi : s.batches[i]? = some (id :: rest))
    (hx : x ∈ s.pending) (hne : x ≠ id) : x ∈ (s.batches.set i rest).flatten := by
  rw [List.mem_flatten]
  exact Pool.exists_set (P := fun b => x ∈ b) (mem_pending.mp hx) hi fun h =>
    (List.mem_cons.mp h).resolve_left hne

theorem tries_le_processCompany : s.tries c ≤ (processCompany byBatch id now o s).tries c := by
  rw [tries_processCompany]
  exact Nat.le_add_right _ _

/-- A scrape of `c` is a try, and a scrape of another company does not touch `c`. -/
theorem ready_processCompany (byBatch : Bool) (id : ℕ) (now : Time) (o : Outcome)
    {last : Option Time} (h : Ready c last s) :
    s.tries c < (processCompany byBatch id now o s).tries c ∨
      id ≠ c ∧ Ready c last (processCompany byBatch id now o s) := by
  obtain ⟨r, hr, hstatus, hurl, hlast⟩ := h
  by_cases hid : id = c
  · left
    rw [tries_processCompany, if_pos ⟨hid, r, by rw [hid]; exact hr, hurl⟩]
    omega
  · refine Or.inr ⟨hid, r, ?_, hstatus, hurl, hlast⟩
    obtain ⟨h, -⟩ | ⟨r', -, -, h⟩ := processCompany_cases byBatch id now o s
    · rw [h]
      exact hr
    · rw [h]
      dsimp only
      split
      · have hne : Table.get CompanyRow.id (Table.modify CompanyRow.id s.companies id fun c =>
            { c with linkedinLastScrapedAt := some now }) c =
              Table.get CompanyRow.id s.companies c :=
          Table.get_modify_ne (fun _ => rfl) (Ne.symm hid)
        exact hne.trans hr
      · exact hr

theorem step_tries_le (h : step s a = some s') : s.tries c ≤ s'.tries c := by
  cases a with
  | selectBatch now dailyLimit answer =>
    simp only [step, Option.ite_none_right_eq_some, Option.some.injEq] at h
    obtain ⟨-, rfl⟩ := h
    exact le_rfl
  | processNext i now o =>
    simp only [step] at h
    split at h
    · rename_i id rest _
      simp only [Option.ite_none_right_eq_some, Option.some.injEq] at h
      obtain ⟨-, rfl⟩ := h
      exact tries_le_processCompany (s := { s with
        clock := now, batches := s.batches.set i (if o = .raised then [] else rest) })
    · cases h
  | scrapeSingle id now o =>
    simp only [step, Option.ite_none_right_eq_some, Option.some.injEq] at h
    obtain ⟨-, rfl⟩ := h
    exact tries_le_processCompany (s := { s with clock := now })
  | killBatch i => exact (Option.some.inj h) ▸ le_rfl
  | create p => exact (Option.some.inj h) ▸ le_rfl
  | update id p => exact (Option.some.inj h) ▸ le_rfl
  | merge duplicate => exact (Option.some.inj h) ▸ le_rfl

/-- In the window who is selected stays so until the batch comes to it. -/
theorem pending_kept {F : Finset ℕ} (hC : InWindow F L c s a) (h : step s a = some s')
    (hid : id ∈ s.pending) : id ∈ s'.pending ∨
      ∃ i now o rest, a = .processNext i now o ∧ s.batches[i]? = some (id :: rest) := by
  cases a with
  | selectBatch now dailyLimit answer =>
    rw [hC.2] at hid
    cases hid
  | processNext i now o =>
    simp only [step] at h
    split at h
    · rename_i head rest hi
      simp only [Option.ite_none_right_eq_some, Option.some.injEq] at h
      obtain ⟨-, rfl⟩ := h
      by_cases hhead : id = head
      · subst hhead
        exact Or.inr ⟨i, now, o, rest, rfl, hi⟩
      · left
        rw [if_neg hC.1, State.pending, processCompany_batches]
        exact mem_pending_set hi hid hhead
    · cases h
  | killBatch i =>
    obtain rfl := Option.some.inj h
    left
    rw [State.pending, List.mem_flatten]
    cases hi : s.batches[i]? with
    | none =>
      rw [List.set_eq_of_length_le (List.getElem?_eq_none_iff.mp hi)]
      exact mem_pending.mp hid
    | some b =>
      -- only a batch that is done is ended
      refine Pool.exists_set (P := fun b => id ∈ b) (mem_pending.mp hid) hi fun hmem => ?_
      rw [hC b hi] at hmem
      exact hmem
  | scrapeSingle id' now o =>
    simp only [step, Option.ite_none_right_eq_some, Option.some.injEq] at h
    obtain ⟨-, rfl⟩ := h
    left
    rw [State.pending, processCompany_batches]
    exact hid
  | create p => exact Or.inl ((Option.some.inj h) ▸ hid)
  | update id' p => exact Or.inl ((Option.some.inj h) ▸ hid)
  | merge duplicate => exact Or.inl ((Option.some.inj h) ▸ hid)

/-- In the window `c` is tried, or it stays as it is and the batch has not come to it. -/
theorem step_ready {F : Finset ℕ} {last : Option Time} (hready : Ready c last s)
    (hC : InWindow F L c s a) (h : step s a = some s') :
    s.tries c < s'.tries c ∨ Ready c last s' ∧
      ∀ i now o rest, a = .processNext i now o → s.batches[i]? ≠ some (c :: rest) := by
  cases a with
  | selectBatch now dailyLimit answer =>
    simp only [step, Option.ite_none_right_eq_some, Option.some.injEq] at h
    obtain ⟨-, rfl⟩ := h
    exact Or.inr ⟨hready, nofun⟩
  | processNext i now o =>
    simp only [step] at h
    split at h
    · rename_i id rest hi
      simp only [Option.ite_none_right_eq_some, Option.some.injEq] at h
      obtain ⟨-, rfl⟩ := h
      refine (ready_processCompany true id now o (s := { s with
        clock := now, batches := s.batches.set i (if o = .raised then [] else rest) })
        hready).imp_right ?_
      rintro ⟨hid, hkept⟩
      refine ⟨hkept, ?_⟩
      rintro i' now' o' rest' ⟨⟩ hi'
      rw [hi] at hi'
      cases hi'
      exact hid rfl
    · cases h
  | killBatch i =>
    obtain rfl := Option.some.inj h
    exact Or.inr ⟨hready, nofun⟩
  | scrapeSingle id now o =>
    simp only [step, Option.ite_none_right_eq_some, Option.some.injEq] at h
    obtain ⟨-, rfl⟩ := h
    exact (ready_processCompany false id now o (s := { s with clock := now })
      hready).imp_right fun h => ⟨h.2, nofun⟩
  | create p =>
    obtain rfl := Option.some.inj h
    obtain ⟨r, hr, hrest⟩ := hready
    exact Or.inr ⟨⟨r, Table.get_append_of_some hr, hrest⟩, nofun⟩
  | update id p =>
    obtain rfl := Option.some.inj h
    refine Or.inr ⟨?_, nofun⟩
    obtain ⟨r, hr, hstatus, hurl, hlast⟩ := hready
    have hget : Table.get CompanyRow.id
        (Table.modify CompanyRow.id s.companies id (CompanyRow.apply p)) c =
          if c = id then (Table.get CompanyRow.id s.companies c).map (CompanyRow.apply p)
          else Table.get CompanyRow.id s.companies c := Table.get_modify fun _ => rfl
    by_cases hid : id = c
    · rw [if_pos hid.symm, hr] at hget
      exact ⟨_, hget, (hC hid).1, decide_eq_true (hC hid).2, hlast⟩
    · rw [if_neg (Ne.symm hid), hr] at hget
      exact ⟨r, hget, hstatus, hurl, hlast⟩
  | merge duplicate =>
    obtain rfl := Option.some.inj h
    refine Or.inr ⟨?_, nofun⟩
    obtain ⟨r, hr, hrest⟩ := hready
    refine ⟨r, ?_, hrest⟩
    dsimp only
    rw [Table.get_remove, if_neg (Ne.symm hC)]
    exact hr

/-- Whoever is scraped has a timestamp afterwards. -/
theorem stamped_processCompany
    (hurl : ∀ r, Table.get CompanyRow.id s.companies id = some r → r.hasUrl = true) :
    ∀ r ∈ (processCompany byBatch id now .done s).companies, r.id = id →
      r.linkedinLastScrapedAt = some now := by
  intro r hr hid
  obtain ⟨h, hnone⟩ | ⟨-, -, -, h⟩ := processCompany_cases byBatch id now .done s
  · rw [h] at hr
    -- there would be a row, and it would have a URL
    cases hget : Table.get CompanyRow.id s.companies id with
    | none =>
      have hne := List.find?_eq_none.mp hget r hr
      simp [hid] at hne
    | some r' =>
      have htrue := hurl r' hget
      rw [hnone r' hget] at htrue
      cases htrue
  · rw [h] at hr
    obtain ⟨r₀, -, rfl⟩ := List.mem_map.mp (show r ∈ s.companies.map _ from hr)
    by_cases hr₀ : r₀.id = id
    · rw [if_pos hr₀]
    · rw [if_neg hr₀] at hid
      contradiction

/-- A timestamp of the window stays one. -/
theorem RowsStep.stamped (h : RowsStep s s') (hlt : id < s.nextId) (hle : start ≤ s.clock)
    (hs : ∀ r ∈ s.companies, r.id = id → ∃ t, r.linkedinLastScrapedAt = some t ∧ start ≤ t) :
    ∀ r ∈ s'.companies, r.id = id → ∃ t, r.linkedinLastScrapedAt = some t ∧ start ≤ t := by
  intro r hr hid
  rcases h.origin hr with ⟨r₀, hr₀, hid₀, hlast | ⟨t, hlast, ht⟩⟩ | ⟨hnew, -⟩
  · rw [hlast]
    exact hs r₀ hr₀ (hid₀.trans hid)
  · exact ⟨t, hlast, hle.trans ht⟩
  · omega

/-- Who is selected and not in `F` stays selected until it is scraped. -/
theorem pending_or_stamped {F : Finset ℕ} (hC : InWindow F L c s a) (h : step s a = some s')
    (hid : id ∈ s.pending) (hF : id ∉ F) :
    id ∈ s'.pending ∨ ∀ r ∈ s'.companies, r.id = id →
      ∃ t, r.linkedinLastScrapedAt = some t ∧ s.clock ≤ t := by
  rcases pending_kept hC h hid with hkept | ⟨i, now, o, rest, rfl, hi⟩
  · exact Or.inl hkept
  · right
    simp only [step, hi, Option.ite_none_right_eq_some, Option.some.injEq] at h
    obtain ⟨hle, rfl⟩ := h
    obtain ⟨rfl, hurl⟩ := hC.2 _ hi id rfl hF
    intro r hr hrid
    exact ⟨now, stamped_processCompany (s := { s with
      clock := now, batches := s.batches.set i rest }) hurl r hr hrid, hle⟩

/-- A turn that is sure to come is so until it has come. -/
theorem TurnComes.step {F : Finset ℕ} (hgoal : TurnComes s₀ c s) (hC : InWindow F L c s a)
    (h : step s a = some s') : TurnComes s₀ c s' := by
  have hle := step_tries_le (c := c) h
  rcases hgoal with hlt | ⟨hle₀, hc, last, hready⟩
  · exact Or.inl (by omega)
  · rcases step_ready hready hC h with hlt | ⟨hready', hnot⟩
    · exact Or.inl (by omega)
    · have hc' := (pending_kept hC h hc).resolve_right fun ⟨i, now, o, rest, ha, hi⟩ =>
        hnot i now o rest ha hi
      exact Or.inr ⟨by omega, hc', last, hready'⟩

/-! ## One batch -/

/-- A batch that does not select the overdue company selects others that count: they have not been
selected in the window, or are in `F`. -/
theorem Waiting.select {F picked : Finset ℕ} {last : Option Time} {answer : List CompanyRow}
    {dailyLimit : ℕ} (hw : Waiting s₀ c last F picked s) (hdue : Overdue s₀.clock now last)
    (hpending : s.pending = []) (hlimit : L ≤ dailyLimit)
    (hanswer : SortedAs (byPriority now) (s.companies.filter eligible) answer)
    (hnot : c ∉ (answer.take dailyLimit).map CompanyRow.id) :
    (picked \ F).card + (L - F.card) ≤
      ((picked ∪ ((answer.take dailyLimit).map CompanyRow.id).toFinset) \ F).card := by
  obtain ⟨rc, hget, hstatus, hurl, hlast⟩ := hw.ready
  have htop : IsTop (byPriority now) dailyLimit (s.companies.filter eligible)
      (answer.take dailyLimit) := ⟨answer, hanswer, rfl⟩
  have helig : rc ∈ s.companies.filter eligible := by
    rw [List.mem_filter]
    refine ⟨Table.mem_of_get hget, ?_⟩
    have hsome : rc.linkedinUrl.isSome = true := by
      cases hu : rc.linkedinUrl with
      | none => simp [CompanyRow.hasUrl, hu] at hurl
      | some u => rfl
    simp [eligible, hsome, hstatus]
  have hleft : rc ∉ answer.take dailyLimit := by
    intro hmem
    refine hnot (List.mem_map.mpr ⟨rc, hmem, Table.key_of_get hget⟩)
  have hlen := htop.length_of_not_mem helig hleft
  have hnodup : ((answer.take dailyLimit).map CompanyRow.id).Nodup :=
    htop.nodup_map (hw.wf.keyed.sublist (List.filter_sublist.map _))
  -- whoever has been scraped in the window stands behind the overdue company
  have hnew : ∀ x ∈ (answer.take dailyLimit).map CompanyRow.id, x ∉ F → x ∉ picked := by
    intro x hx hF hpicked
    obtain ⟨r, hr, rfl⟩ := List.mem_map.mp hx
    have hstamped := (hw.served r.id hpicked hF).resolve_left (by simp [hpending])
    obtain ⟨t, ht, hstart⟩ := hstamped r (List.mem_filter.mp (htop.subset hr)).1 rfl
    have hle := byPriority_le.mp (htop.le hr helig hleft)
    have hlt := priorityScore_lt ht hstart (hlast.symm ▸ hdue)
    exact absurd hle (not_le.mpr hlt)
  have hcard := card_sdiff_union_ge hnodup hnew
  rw [List.length_map, hlen] at hcard
  omega

/-! ## The whole window -/

def Action.isSelect : Action → Bool
  | .selectBatch .. => true
  | _ => false

/-- What has been selected in the window keeps its part of the invariant along any step. -/
theorem Waiting.step_same {F picked : Finset ℕ} {last : Option Time} (h₀ : WF s₀)
    (hw : Waiting s₀ c last F picked s) (hC : InWindow F L c s a) (h : step s a = some s')
    (hready : Ready c last s') : Waiting s₀ c last F picked s' := by
  have hrows := rowsStep h
  have hmono : ever s₀ s ⊆ ever s₀ s' := ever_mono hrows.nextId_le
  refine ⟨hw.wf.of_rowsStep hrows, hw.clock.trans (step_clock_le h),
    hw.nextId.trans hrows.nextId_le, fun r hr => ?_, hw.tries.trans (step_tries_le h), hready,
    hw.others.trans hmono, hw.notPicked, fun id hid hF => ?_⟩
  · rcases hrows.origin hr with ⟨r₀, hr₀, hid, -⟩ | ⟨hid, hnext⟩
    · rw [← hid]
      exact hmono (hw.rows r₀ hr₀)
    · have hle := hw.nextId
      exact Finset.mem_union_right _ (Finset.mem_Ico.mpr (by omega))
  · rcases hw.served id hid hF with hpending | hstamped
    · refine (pending_or_stamped hC h hpending hF).imp_right fun hst r hr hrid => ?_
      obtain ⟨t, ht, hle⟩ := hst r hr hrid
      exact ⟨t, ht, hw.clock.trans hle⟩
    · have hlt := lt_of_mem_ever h₀ hw.nextId (hw.others hid)
      exact Or.inr (hrows.stamped hlt hw.clock hstamped)

/-- Who has just been selected is pending. -/
theorem Waiting.union {F picked : Finset ℕ} {last : Option Time} {round : List ℕ}
    (hw : Waiting s₀ c last F picked s) (hever : ∀ id ∈ round, id ∈ ever s₀ s) (hc : c ∉ round)
    (hpending : ∀ id ∈ round, id ∈ s.pending) :
    Waiting s₀ c last F (picked ∪ round.toFinset) s := by
  refine ⟨hw.wf, hw.clock, hw.nextId, hw.rows, hw.tries, hw.ready, ?_, ?_, fun id hid hF => ?_⟩
  · exact Finset.union_subset hw.others fun id hid => hever id (List.mem_toFinset.mp hid)
  · simp [hw.notPicked, hc]
  · rcases Finset.mem_union.mp hid with hid | hid
    · exact hw.served id hid hF
    · exact Or.inl (hpending id (List.mem_toFinset.mp hid))

/-- What a step adds to the companies that have been selected. -/
def selects (F : Finset ℕ) (L : ℕ) (a : Action) : ℕ := if a.isSelect then L - F.card else 0

/-- As long as `c` is not selected, every batch selects others. -/
theorem Waiting.step {F picked : Finset ℕ} {last : Option Time} (h₀ : WF s₀)
    (hw : Waiting s₀ c last F picked s) (hdue : Overdue s₀.clock s'.clock last)
    (hC : InWindow F L c s a) (h : step s a = some s') :
    TurnComes s₀ c s' ∨ ∃ picks, Waiting s₀ c last F picks s' ∧
      (picked \ F).card + selects F L a ≤ (picks \ F).card := by
  rcases step_ready hw.ready hC h with hlt | ⟨hready, -⟩
  · exact Or.inl (Or.inl (hw.tries.trans_lt hlt))
  have hsame := hw.step_same h₀ hC h hready
  cases a with
  | selectBatch now dailyLimit answer =>
    simp only [step, Option.ite_none_right_eq_some, Option.some.injEq] at h
    obtain ⟨⟨-, hanswer⟩, rfl⟩ := h
    have hround : ∀ id ∈ (answer.take dailyLimit).map CompanyRow.id,
        id ∈ ({ s with clock := now, batches := s.batches ++
          [(answer.take dailyLimit).map CompanyRow.id] } : State).pending := by
      intro id hid
      exact mem_pending.mpr ⟨_, List.mem_append_right _ (List.mem_singleton_self _), hid⟩
    by_cases hc : c ∈ (answer.take dailyLimit).map CompanyRow.id
    · exact Or.inl (Or.inr ⟨hw.tries, hround c hc, last, hready⟩)
    · refine Or.inr ⟨_, hsame.union (fun id hid => ?_) hc hround,
        hw.select hdue hC.2 hC.1 hanswer hc⟩
      obtain ⟨r, hr, rfl⟩ := List.mem_map.mp hid
      have hmem := hanswer.perm.mem_iff.mp (List.mem_of_mem_take hr)
      exact hsame.rows r (List.mem_filter.mp hmem).1
  | processNext i now o => exact Or.inr ⟨picked, hsame, le_rfl⟩
  | killBatch i => exact Or.inr ⟨picked, hsame, le_rfl⟩
  | scrapeSingle id now o => exact Or.inr ⟨picked, hsame, le_rfl⟩
  | create p => exact Or.inr ⟨picked, hsame, le_rfl⟩
  | update id p => exact Or.inr ⟨picked, hsame, le_rfl⟩
  | merge duplicate => exact Or.inr ⟨picked, hsame, le_rfl⟩

theorem sum_selects (F : Finset ℕ) (L : ℕ) (as : List Action) :
    (as.map (selects F L)).sum = as.countP Action.isSelect * (L - F.card) := by
  induction as with
  | nil => simp
  | cons a as ih =>
    rw [List.map_cons, List.sum_cons, List.countP_cons, ih, selects, Nat.add_mul]
    split <;> omega

theorem Overdue.mono {now' : Time} {last : Option Time} (h : Overdue start now last)
    (hle : now' ≤ now) : Overdue start now' last := by
  cases last with
  | none => exact hle.trans_lt h
  | some t => exact h

/-- In the window nobody starves: once the batches have had more room than there are companies, the
overdue company has been scraped. -/
theorem tries_lt_of_batches {F : Finset ℕ} {last : Option Time} (hwf : WF s)
    (hready : Ready c last s) (hdue : Overdue s.clock s'.clock last)
    (hC : Run.AllSteps step (InWindow F L c) s as) (hs : Run.exec step s as = some s')
    (hdone : s'.pending = [])
    (henough : s.companies.length + (s'.nextId - s.nextId) ≤
      as.countP Action.isSelect * (L - F.card)) :
    s.tries c < s'.tries c := by
  have hsmall : ∀ r ∈ s.companies, r.id ∈ ever s s := fun r hr =>
    Finset.mem_union_left _ (List.mem_toFinset.mpr (List.mem_map_of_mem hr))
  have hstart : Waiting s c last F ∅ s :=
    ⟨hwf, le_rfl, le_rfl, hsmall, le_rfl, hready, by simp, by simp, by simp⟩
  have hbefore := Run.AllSteps.of_exec (R := fun s s' : State => s.clock ≤ s'.clock)
    (fun _ => le_rfl) le_trans (fun _ _ _ h => step_clock_le h) hs
  have hgrow := exec_growth (TurnComes s c) (Waiting s c last F)
    (fun picked => (picked \ F).card) (selects F L)
    (fun t a t' hgoal hCa ht => hgoal.step hCa.1 ht)
    (fun picked t a t' hw hCa ht => hw.step hwf (hdue.mono (hCa.2 t' ht)) hCa.1 ht)
    hstart (hC.and hbefore) hs
  rcases hgrow with (hlt | ⟨-, hmem, -⟩) | ⟨picked, hw, hΦ⟩
  · exact hlt
  · rw [hdone] at hmem
    cases hmem
  · -- more companies would have been selected than there are, not counting `c`
    exfalso
    obtain ⟨r, hr, -⟩ := hready
    have hc : c ∈ ever s s' := by
      rw [← Table.key_of_get hr]
      exact ever_mono hw.nextId (hsmall r (Table.mem_of_get hr))
    have hpicked : (picked \ F).card ≤ ((ever s s').erase c).card :=
      Finset.card_le_card fun x hx => Finset.mem_erase.mpr
        ⟨fun he => hw.notPicked (he ▸ (Finset.mem_sdiff.mp hx).1),
          hw.others (Finset.mem_sdiff.mp hx).1⟩
    have hcard : (ever s s').card ≤ s.companies.length + (s'.nextId - s.nextId) := card_ever_le
    have hpos := Finset.card_pos.mpr ⟨c, hc⟩
    rw [Finset.card_erase_of_mem hc] at hpicked
    rw [sum_selects] at hΦ
    simp only [Finset.empty_sdiff, Finset.card_empty] at hΦ
    omega

/-- Three companies; the second one has never been scraped, and cannot be. -/
def threeCompanies : State where
  companies := [
    { id := 1, linkedinUrl := some "a".toList, linkedinLastScrapedAt := some 0 },
    { id := 2, linkedinUrl := some "b".toList },
    { id := 3, linkedinUrl := some "c".toList, icpScore := some ⟨100, by decide⟩,
      linkedinLastScrapedAt := some (days 5) }]
  nextId := 4
  clock := days 20

/-- The companies, with the days of their last scrapes. -/
def scrapedOn (first third : ℕ) : List CompanyRow := [
  { id := 1, linkedinUrl := some "a".toList, linkedinLastScrapedAt := some (days first) },
  { id := 2, linkedinUrl := some "b".toList },
  { id := 3, linkedinUrl := some "c".toList, icpScore := some ⟨100, by decide⟩,
    linkedinLastScrapedAt := some (days third) }]

/-- The rows in the order of the numbers. -/
def inOrder (rows : List CompanyRow) (ids : List ℕ) : List CompanyRow :=
  ids.filterMap (Table.get CompanyRow.id rows)

/-- Three batches of two companies each, the second one in vain. -/
def threeBatches : List Action := [
  .selectBatch (days 20) 2 (inOrder (scrapedOn 0 5) [2, 3, 1]),
  .processNext 0 (days 20) .apifyError, .processNext 0 (days 20) .done,
  .selectBatch (days 21) 2 (inOrder (scrapedOn 0 20) [2, 1, 3]),
  .processNext 1 (days 21) .apifyError, .processNext 1 (days 21) .done,
  .selectBatch (days 22) 2 (inOrder (scrapedOn 21 20) [2, 3, 1]),
  .processNext 2 (days 22) .apifyError, .processNext 2 (days 22) .done]

def afterThreeBatches : State where
  companies := scrapedOn 21 22
  nextId := 4
  batches := [[], [], []]
  calls := [2, 3, 2, 1, 2, 3].map fun c => { company := c, byBatch := true }
  clock := days 22

theorem tries_lt_of_batches_three :
    WF threeCompanies ∧ threeCompanies.tries 1 < afterThreeBatches.tries 1 := by
  have hwf : WF threeCompanies := ⟨by decide, by decide⟩
  have hready : Ready 1 (some 0) threeCompanies := ⟨_, rfl, by decide, by decide, rfl⟩
  have hdue : Overdue threeCompanies.clock afterThreeBatches.clock (some 0) :=
    show 0 + days 10 < days 20 by decide
  have hwindow : Run.AllSteps step (InWindow {2} 2 1) threeCompanies threeBatches :=
    Run.AllSteps.of_check (c := fun s a => decide (InWindow {2} 2 1 s a))
      (fun s a h => of_decide_eq_true h) (by decide +kernel)
  exact ⟨hwf, tries_lt_of_batches hwf hready hdue hwindow (by decide +kernel) rfl (by decide)⟩

end LinkedIn
end LeadPulse
