import LeadPulse.LinkedIn.Rotation

/-!
# Who keeps the others from their turn

Companies whose scrape fails stay at the head of the order. As many of them as a batch takes keep
every other company out of it (`not_pending_of_failing`). An exception does more: the companies
behind the one that raises are selected, but the batch does not come to them
(`not_called_of_poison`).
-/

namespace LeadPulse
namespace LinkedIn

open Paging Rotation

variable {s s' : State} {a : Action} {as : List Action} {c p id i : ℕ} {now t₀ : Time}
  {o : Outcome} {r r' : CompanyRow} {byBatch : Bool} {F : Finset ℕ}

/-- The company is in the query and has never been scraped. -/
def NeverScraped (s : State) (id : ℕ) : Prop :=
  ∃ r, Table.get CompanyRow.id s.companies id = some r ∧ eligible r = true ∧
    r.linkedinLastScrapedAt = none

/-- A scrape of the company does not come to its end, or is not even started. -/
def Fails (s : State) (id : ℕ) (o : Outcome) : Prop :=
  o ≠ .done ∨ ∀ r ∈ Table.get CompanyRow.id s.companies id, r.hasUrl = false

instance (s : State) (id : ℕ) (o : Outcome) : Decidable (Fails s id o) :=
  inferInstanceAs (Decidable (_ ∨ _))

/-- What may happen to the companies in `F`: their scrapes fail, and they stay in the query. -/
def KeepsFailing (F : Finset ℕ) (s : State) : Action → Prop
  | .processNext i _ o => ∀ b ∈ s.batches[i]?, ∀ id ∈ b.head?, id ∈ F → Fails s id o
  | .scrapeSingle id _ o => id ∈ F → Fails s id o
  | .update id p => id ∈ F → p.linkedinUrl.isSome = true ∧ p.status ≠ .archived
  | .merge duplicate => duplicate ∉ F
  | .selectBatch .. | .killBatch _ | .create _ => True

instance (F : Finset ℕ) (s : State) : DecidablePred (KeepsFailing F s)
  | .processNext i _ o => inferInstanceAs (Decidable (∀ b ∈ s.batches[i]?,
      ∀ id ∈ b.head?, id ∈ F → Fails s id o))
  | .scrapeSingle id _ o => inferInstanceAs (Decidable (id ∈ F → Fails s id o))
  | .update id p => inferInstanceAs (Decidable (id ∈ F →
      p.linkedinUrl.isSome = true ∧ p.status ≠ .archived))
  | .merge duplicate => inferInstanceAs (Decidable (duplicate ∉ F))
  | .selectBatch .. | .killBatch _ | .create _ => inferInstanceAs (Decidable True)

/-! ## Failing companies stay where they are -/

theorem NeverScraped.processCompany (h : NeverScraped s c) (hfails : id = c → Fails s c o) :
    NeverScraped (processCompany byBatch id now o s) c := by
  obtain ⟨r, hr, helig, hlast⟩ := h
  refine ⟨r, ?_, helig, hlast⟩
  obtain ⟨h, -⟩ | ⟨r', hr', hurl, h⟩ := processCompany_cases byBatch id now o s
  · rw [h]
    exact hr
  · rw [h]
    dsimp only
    split
    · rename_i ho
      by_cases hid : id = c
      · subst hid
        have hnone := (hfails rfl).resolve_left (not_not.mpr ho) r' hr'
        rw [hurl] at hnone
        cases hnone
      · have hne : Table.get CompanyRow.id (Table.modify CompanyRow.id s.companies id fun c =>
            { c with linkedinLastScrapedAt := some now }) c =
              Table.get CompanyRow.id s.companies c :=
          Table.get_modify_ne (fun _ => rfl) (Ne.symm hid)
        exact hne.trans hr
    · exact hr

theorem NeverScraped.step (h : NeverScraped s c) (hc : c ∈ F) (hC : KeepsFailing F s a)
    (hs : step s a = some s') : NeverScraped s' c := by
  cases a with
  | selectBatch now dailyLimit answer =>
    simp only [LinkedIn.step, Option.ite_none_right_eq_some, Option.some.injEq] at hs
    obtain ⟨-, rfl⟩ := hs
    exact h
  | processNext i now o =>
    simp only [LinkedIn.step] at hs
    split at hs
    · rename_i id rest hi
      simp only [Option.ite_none_right_eq_some, Option.some.injEq] at hs
      obtain ⟨-, rfl⟩ := hs
      refine NeverScraped.processCompany (s := { s with
        clock := now, batches := s.batches.set i (if o = .raised then [] else rest) }) h ?_
      rintro rfl
      exact hC _ hi id rfl hc
    · cases hs
  | killBatch i =>
    obtain rfl := Option.some.inj hs
    exact h
  | scrapeSingle id now o =>
    simp only [LinkedIn.step, Option.ite_none_right_eq_some, Option.some.injEq] at hs
    obtain ⟨-, rfl⟩ := hs
    refine NeverScraped.processCompany (s := { s with clock := now }) h ?_
    rintro rfl
    exact hC hc
  | create p =>
    obtain rfl := Option.some.inj hs
    obtain ⟨r, hr, hrest⟩ := h
    exact ⟨r, Table.get_append_of_some hr, hrest⟩
  | update id p =>
    obtain rfl := Option.some.inj hs
    obtain ⟨r, hr, helig, hlast⟩ := h
    have hget : Table.get CompanyRow.id
        (Table.modify CompanyRow.id s.companies id (CompanyRow.apply p)) c =
          if c = id then (Table.get CompanyRow.id s.companies c).map (CompanyRow.apply p)
          else Table.get CompanyRow.id s.companies c := Table.get_modify fun _ => rfl
    by_cases hid : c = id
    · rw [if_pos hid, hr] at hget
      refine ⟨_, hget, ?_, hlast⟩
      have hp := hC (hid ▸ hc)
      simp [eligible, CompanyRow.apply, hp.1, hp.2]
    · rw [if_neg hid, hr] at hget
      exact ⟨r, hget, helig, hlast⟩
  | merge duplicate =>
    obtain rfl := Option.some.inj hs
    obtain ⟨r, hr, hrest⟩ := h
    refine ⟨r, ?_, hrest⟩
    dsimp only
    have hne : c ≠ duplicate := by
      rintro rfl
      exact hC hc
    rw [Table.get_remove, if_neg hne]
    exact hr

/-- It stands before any company that has been scraped in the last 989 days. -/
theorem byPriority_le_false {t : Time} (hr : r.linkedinLastScrapedAt = none)
    (hr' : r'.linkedinLastScrapedAt = some t) (ht : t₀ ≤ t) (hnow : now < t₀ + days 989) :
    (byPriority now).le r' r = false := by
  rw [Bool.eq_false_iff]
  intro hle
  have hdue : Overdue t₀ now r.linkedinLastScrapedAt := by
    rw [hr]
    exact hnow
  have hlt := priorityScore_lt hr' ht hdue
  exact absurd (byPriority_le.mp hle) (not_le.mpr hlt)

/-! ## As many as a batch takes -/

/-- The company `c` has been scraped at `t₀` or later; everybody in `F` never has been. -/
structure Behind (F : Finset ℕ) (c : ℕ) (t₀ : Time) (s : State) : Prop where
  wf : WF s
  clock : t₀ ≤ s.clock
  lt : c < s.nextId
  stamped : ∀ r ∈ s.companies, r.id = c → ∃ t, r.linkedinLastScrapedAt = some t ∧ t₀ ≤ t
  never : ∀ id ∈ F, NeverScraped s id

theorem Behind.step (h : Behind F c t₀ s) (hC : KeepsFailing F s a) (hs : step s a = some s') :
    Behind F c t₀ s' where
  wf := h.wf.of_rowsStep (rowsStep hs)
  clock := h.clock.trans (step_clock_le hs)
  lt := h.lt.trans_le (rowsStep hs).nextId_le
  stamped := (rowsStep hs).stamped h.lt h.clock h.stamped
  never := fun id hid => (h.never id hid).step hid hC hs

/-- Batches that start within 989 days of `t₀`. -/
def Recent (t₀ : Time) : Action → Prop
  | .selectBatch now _ _ => now < t₀ + days 989
  | _ => True

instance (t₀ : Time) : DecidablePred (Recent t₀)
  | .selectBatch now _ _ => inferInstanceAs (Decidable (now < t₀ + days 989))
  | .processNext .. | .killBatch _ | .scrapeSingle .. | .create _ | .update .. | .merge _ =>
    inferInstanceAs (Decidable True)

/-- Batches of at most `n` companies. -/
def AtMost (n : ℕ) : Action → Prop
  | .selectBatch _ dailyLimit _ => dailyLimit ≤ n
  | _ => True

instance (n : ℕ) : DecidablePred (AtMost n)
  | .selectBatch _ dailyLimit _ => inferInstanceAs (Decidable (dailyLimit ≤ n))
  | .processNext .. | .killBatch _ | .scrapeSingle .. | .create _ | .update .. | .merge _ =>
    inferInstanceAs (Decidable True)

theorem Behind.not_selected (h : Behind F c t₀ s) {answer : List CompanyRow} {dailyLimit : ℕ}
    (hanswer : SortedAs (byPriority now) (s.companies.filter eligible) answer)
    (hlimit : dailyLimit ≤ F.card) (hnow : now < t₀ + days 989) :
    c ∉ (answer.take dailyLimit).map CompanyRow.id := by
  intro hmem
  obtain ⟨r, hr, hid⟩ := List.mem_map.mp hmem
  have htop : IsTop (byPriority now) dailyLimit (s.companies.filter eligible)
      (answer.take dailyLimit) := ⟨answer, hanswer, rfl⟩
  obtain ⟨t, ht, hle⟩ := h.stamped r (List.mem_filter.mp (htop.subset hr)).1 hid
  -- all of `F` are in the query, and before `c`
  let ahead := (s.companies.filter eligible).filter fun x => x.id ∈ F
  have hkeyed : ((s.companies.filter eligible).map CompanyRow.id).Nodup :=
    h.wf.keyed.sublist (List.filter_sublist.map _)
  have hcard : F.card ≤ ahead.length := by
    have hsub : F ⊆ (ahead.map CompanyRow.id).toFinset := by
      intro id hidF
      obtain ⟨x, hx, helig, -⟩ := h.never id hidF
      have hxid := Table.key_of_get hx
      refine List.mem_toFinset.mpr (List.mem_map.mpr ⟨x, ?_, hxid⟩)
      refine List.mem_filter.mpr ⟨List.mem_filter.mpr ⟨Table.mem_of_get hx, helig⟩, ?_⟩
      rw [decide_eq_true_eq, hxid]
      exact hidF
    have hle := Finset.card_le_card hsub
    have hle' := List.toFinset_card_le (ahead.map CompanyRow.id)
    rw [List.length_map] at hle'
    omega
  have hnodup : ahead.Nodup := hkeyed.of_map.filter _
  refine htop.not_mem_of_before hnodup (List.filter_subset_self _) (hlimit.trans hcard)
    (fun x hx => ?_) hr
  obtain ⟨hx, hxF⟩ := List.mem_filter.mp hx
  obtain ⟨y, hy, -, hlast⟩ := h.never x.id (of_decide_eq_true hxF)
  have hxy := Table.get_of_mem h.wf.keyed (List.mem_filter.mp hx).1
  obtain rfl := Option.some.inj (hxy.symm.trans hy)
  exact byPriority_le_false hlast ht hle hnow

/-- No step but a selection adds to what is selected. -/
theorem mem_pending_of_step (hs : step s a = some s') (hid : id ∈ s'.pending) :
    id ∈ s.pending ∨ ∃ now dailyLimit answer, a = .selectBatch now dailyLimit answer ∧
      id ∈ (answer.take dailyLimit).map CompanyRow.id ∧
      SortedAs (byPriority now) (s.companies.filter eligible) answer := by
  cases a with
  | selectBatch now dailyLimit answer =>
    simp only [step, Option.ite_none_right_eq_some, Option.some.injEq] at hs
    obtain ⟨⟨-, hanswer⟩, rfl⟩ := hs
    rw [State.pending, List.flatten_append] at hid
    rcases List.mem_append.mp hid with hid | hid
    · exact Or.inl hid
    · exact Or.inr ⟨now, dailyLimit, answer, rfl, by simpa using hid, hanswer⟩
  | processNext i now o =>
    simp only [step] at hs
    split at hs
    · rename_i head rest hi
      simp only [Option.ite_none_right_eq_some, Option.some.injEq] at hs
      obtain ⟨-, rfl⟩ := hs
      left
      rw [State.pending, processCompany_batches] at hid
      obtain ⟨b, hb, hmem⟩ := List.mem_flatten.mp hid
      rcases List.mem_or_eq_of_mem_set hb with hb | rfl
      · exact mem_pending.mpr ⟨b, hb, hmem⟩
      · refine mem_pending.mpr ⟨_, List.mem_of_getElem? hi, List.mem_cons_of_mem head ?_⟩
        split at hmem
        · cases hmem
        · exact hmem
    · cases hs
  | killBatch i =>
    obtain rfl := Option.some.inj hs
    left
    obtain ⟨b, hb, hmem⟩ := List.mem_flatten.mp hid
    rcases List.mem_or_eq_of_mem_set hb with hb | rfl
    · exact mem_pending.mpr ⟨b, hb, hmem⟩
    · cases hmem
  | scrapeSingle id' now o =>
    simp only [step, Option.ite_none_right_eq_some, Option.some.injEq] at hs
    obtain ⟨-, rfl⟩ := hs
    left
    rw [State.pending, processCompany_batches] at hid
    exact hid
  | create q =>
    obtain rfl := Option.some.inj hs
    exact Or.inl hid
  | update id' q =>
    obtain rfl := Option.some.inj hs
    exact Or.inl hid
  | merge duplicate =>
    obtain rfl := Option.some.inj hs
    exact Or.inl hid

/-- While as many companies fail as a batch takes, no batch selects a company that has been scraped
before. -/
theorem not_pending_of_failing (h : Behind F c t₀ s) (hnot : c ∉ s.pending)
    (hC : Run.AllSteps step (fun s a => KeepsFailing F s a ∧ AtMost F.card a ∧ Recent t₀ a) s as) :
    Run.AllStates step (fun s => c ∉ s.pending) s as := by
  refine (Run.AllStates.of_inv (I := fun s => Behind F c t₀ s ∧ c ∉ s.pending) ?_
    ⟨h, hnot⟩ hC).mono fun s hs => hs.2
  rintro s a s' ⟨hbehind, hnot⟩ ⟨hfailing, hsmall, hrecent⟩ hs
  refine ⟨hbehind.step hfailing hs, fun hmem => ?_⟩
  rcases mem_pending_of_step hs hmem with hold | ⟨now, dailyLimit, answer, rfl, hsel, hanswer⟩
  · exact hnot hold
  · exact hbehind.not_selected hanswer hsmall hrecent hsel

/-- Two batches of one company each. -/
def twoSmallBatches : List Action := [
  .selectBatch (days 20) 1 (inOrder (scrapedOn 0 5) [2, 3, 1]),
  .processNext 0 (days 20) .apifyError,
  .selectBatch (days 21) 1 (inOrder (scrapedOn 0 5) [2, 3, 1]),
  .processNext 1 (days 21) .apifyError]

theorem behind_threeCompanies : Behind {2} 1 0 threeCompanies where
  wf := ⟨by decide, by decide⟩
  clock := by decide
  lt := by decide
  stamped := by
    intro r hr hid
    have hall : threeCompanies.companies.all
        (fun r => r.id != 1 || r.linkedinLastScrapedAt == some 0) = true := by decide
    have hr := List.all_eq_true.mp hall r hr
    simp only [hid, bne_self_eq_false, Bool.false_or, beq_iff_eq] at hr
    exact ⟨0, hr, le_rfl⟩
  never := by
    intro id hid
    obtain rfl := Finset.mem_singleton.mp hid
    exact ⟨_, rfl, by decide, rfl⟩

theorem not_pending_of_failing_two :
    Behind {2} 1 0 threeCompanies ∧ 1 ∉ threeCompanies.pending ∧
      Run.AllStates step (fun s => 1 ∉ s.pending) threeCompanies twoSmallBatches := by
  refine ⟨behind_threeCompanies, by decide,
    not_pending_of_failing (F := {2}) behind_threeCompanies (by decide) ?_⟩
  exact Run.AllSteps.of_check (c := fun s a =>
    decide (KeepsFailing {2} s a ∧ AtMost (Finset.card {2}) a ∧ Recent 0 a))
    (fun s a h => of_decide_eq_true h) (by decide +kernel)

/-! ## One exception -/

/-- The scrapes of `p` end in an exception. -/
def KeepsRaising (p : ℕ) (s : State) : Action → Prop
  | .processNext i _ o => ∀ b ∈ s.batches[i]?, b.head? = some p → o = .raised
  | _ => True

instance (p : ℕ) (s : State) : DecidablePred (KeepsRaising p s)
  | .processNext i _ o => inferInstanceAs (Decidable (∀ b ∈ s.batches[i]?,
      b.head? = some p → o = .raised))
  | .selectBatch .. | .killBatch _ | .scrapeSingle .. | .create _ | .update .. | .merge _ =>
    inferInstanceAs (Decidable True)

/-- In a batch `c` comes after `p`, or not at all. -/
def After (p c : ℕ) (batch : List ℕ) : Prop := c ∉ batch.takeWhile (· ≠ p)

theorem After.nil : After p c [] := by simp [After]

theorem After.ne_head {rest : List ℕ} (h : After p c (id :: rest)) (hne : c ≠ p) : id ≠ c := by
  rintro rfl
  simp [After, hne] at h

theorem After.tail {rest : List ℕ} (h : After p c (id :: rest)) (hp : id ≠ p) :
    After p c rest := by
  unfold After at h ⊢
  rw [List.takeWhile_cons_of_pos (by simpa using hp)] at h
  exact fun hmem => h (List.mem_cons_of_mem id hmem)

/-- A batch has the companies in the order of the answer. -/
theorem after_of_sortedAs {answer : List CompanyRow} {dailyLimit : ℕ} {rows : List CompanyRow}
    (hanswer : SortedAs (byPriority now) rows answer) {rp : CompanyRow} (hp : rp ∈ rows)
    (hpid : rp.id = p)
    (hbefore : ∀ r ∈ rows, r.id = c → (byPriority now).le r rp = false) :
    After p c ((answer.take dailyLimit).map CompanyRow.id) := by
  intro hmem
  rw [List.takeWhile_map] at hmem
  obtain ⟨r, hr, hid⟩ := List.mem_map.mp hmem
  let early := (answer.take dailyLimit).takeWhile ((fun x => x ≠ p) ∘ CompanyRow.id)
  -- the row of `p` is not among the early ones, and so it is behind them
  obtain ⟨late, hlate⟩ : early <+: answer :=
    (List.takeWhile_prefix _).trans (List.take_prefix _ _)
  have hpnot : rp ∉ early := by
    intro hmem
    have hne := List.mem_takeWhile_imp hmem
    simp [hpid] at hne
  have hp' := hanswer.perm.mem_iff.mpr hp
  have hsorted := hanswer.sorted
  rw [← hlate] at hp' hsorted
  have hplate := (List.mem_append.mp hp').resolve_left hpnot
  have hle := (List.pairwise_append.mp hsorted).2.2 r hr rp hplate
  have hrow : r ∈ rows := hanswer.perm.mem_iff.mp (by
    rw [← hlate]
    exact List.mem_append_left _ hr)
  rw [hbefore r hrow hid] at hle
  cases hle

theorem batches_of_step (hC : KeepsRaising p s a) (hne : c ≠ p)
    (hs : step s a = some s') (hafter : ∀ b ∈ s.batches, After p c b)
    (hselect : ∀ now dailyLimit answer, a = .selectBatch now dailyLimit answer →
      SortedAs (byPriority now) (s.companies.filter eligible) answer →
      After p c ((answer.take dailyLimit).map CompanyRow.id)) :
    (∀ b ∈ s'.batches, After p c b) ∧
      (⟨c, true⟩ ∈ s'.calls → ⟨c, true⟩ ∈ s.calls) := by
  cases a with
  | selectBatch now dailyLimit answer =>
    simp only [step, Option.ite_none_right_eq_some, Option.some.injEq] at hs
    obtain ⟨⟨-, hanswer⟩, rfl⟩ := hs
    refine ⟨fun b hb => ?_, fun h => h⟩
    rcases List.mem_append.mp hb with hb | hb
    · exact hafter b hb
    · rw [List.mem_singleton.mp hb]
      exact hselect now dailyLimit answer rfl hanswer
  | processNext i now o =>
    simp only [step] at hs
    split at hs
    · rename_i head rest hi
      simp only [Option.ite_none_right_eq_some, Option.some.injEq] at hs
      obtain ⟨-, rfl⟩ := hs
      have hhead := hafter _ (List.mem_of_getElem? hi)
      refine ⟨fun b hb => ?_, fun hcall => ?_⟩
      · rw [processCompany_batches] at hb
        rcases List.mem_or_eq_of_mem_set hb with hb | rfl
        · exact hafter b hb
        · split
          · exact After.nil
          · rename_i ho
            exact hhead.tail fun hp => ho (hC _ hi (congrArg some hp))
      · obtain ⟨h, -⟩ | ⟨-, -, -, h⟩ := processCompany_cases true head now o { s with
          clock := now, batches := s.batches.set i (if o = .raised then [] else rest) }
        · rw [h] at hcall
          exact hcall
        · rw [h] at hcall
          refine (List.mem_append.mp hcall).resolve_right fun hcall => ?_
          have hid : c = head := congrArg Call.company (List.mem_singleton.mp hcall)
          exact hhead.ne_head hne hid.symm
    · cases hs
  | killBatch i =>
    obtain rfl := Option.some.inj hs
    refine ⟨fun b hb => ?_, fun h => h⟩
    rcases List.mem_or_eq_of_mem_set hb with hb | rfl
    · exact hafter b hb
    · exact After.nil
  | scrapeSingle id now o =>
    simp only [step, Option.ite_none_right_eq_some, Option.some.injEq] at hs
    obtain ⟨-, rfl⟩ := hs
    refine ⟨fun b hb => ?_, fun hcall => ?_⟩
    · rw [processCompany_batches] at hb
      exact hafter b hb
    · obtain ⟨h, -⟩ | ⟨-, -, -, h⟩ := processCompany_cases false id now o { s with clock := now }
      · rw [h] at hcall
        exact hcall
      · rw [h] at hcall
        refine (List.mem_append.mp hcall).resolve_right fun hcall => ?_
        cases List.mem_singleton.mp hcall
  | create q =>
    obtain rfl := Option.some.inj hs
    exact ⟨hafter, fun h => h⟩
  | update id q =>
    obtain rfl := Option.some.inj hs
    exact ⟨hafter, fun h => h⟩
  | merge duplicate =>
    obtain rfl := Option.some.inj hs
    exact ⟨hafter, fun h => h⟩

/-- While the scrape of a company that has never been scraped ends in an exception, no batch comes
to a company that has been scraped before, however many companies it takes. -/
theorem not_called_of_poison (h : Behind {p} c t₀ s) (hafter : ∀ b ∈ s.batches, After p c b)
    (hcall : ⟨c, true⟩ ∉ s.calls)
    (hC : Run.AllSteps step
      (fun s a => KeepsFailing {p} s a ∧ KeepsRaising p s a ∧ Recent t₀ a) s as) :
    Run.AllStates step (fun s => ⟨c, true⟩ ∉ s.calls) s as := by
  refine (Run.AllStates.of_inv (I := fun s => Behind {p} c t₀ s ∧
    (∀ b ∈ s.batches, After p c b) ∧ ⟨c, true⟩ ∉ s.calls) ?_ ⟨h, hafter, hcall⟩ hC).mono
    fun s hs => hs.2.2
  rintro s a s' ⟨hbehind, hafter, hcall⟩ ⟨hfailing, hraising, hrecent⟩ hs
  obtain ⟨rp, hrp, helig, hlast⟩ := hbehind.never p (Finset.mem_singleton_self p)
  have hne : c ≠ p := by
    rintro rfl
    obtain ⟨t, ht, -⟩ := hbehind.stamped rp (Table.mem_of_get hrp) (Table.key_of_get hrp)
    rw [hlast] at ht
    cases ht
  obtain ⟨hafter', hcall'⟩ := batches_of_step hraising hne hs hafter
    fun now dailyLimit answer ha hanswer => by
      subst ha
      refine after_of_sortedAs hanswer (List.mem_filter.mpr ⟨Table.mem_of_get hrp, helig⟩)
        (Table.key_of_get hrp) fun r hr hid => ?_
      obtain ⟨t, ht, hle⟩ := hbehind.stamped r (List.mem_filter.mp hr).1 hid
      exact byPriority_le_false hlast ht hle hrecent
  exact ⟨hbehind.step hfailing hs, hafter', fun hmem => hcall (hcall' hmem)⟩

/-- Two batches of all three companies, which end at the first one. -/
def twoPoisonedBatches : List Action := [
  .selectBatch (days 20) 3 (inOrder (scrapedOn 0 5) [2, 3, 1]),
  .processNext 0 (days 20) .raised,
  .selectBatch (days 21) 3 (inOrder (scrapedOn 0 5) [2, 3, 1]),
  .processNext 1 (days 21) .raised]

theorem not_called_of_poison_two :
    Behind {2} 1 0 threeCompanies ∧
      Run.AllStates step (fun s => ⟨1, true⟩ ∉ s.calls) threeCompanies twoPoisonedBatches := by
  refine ⟨behind_threeCompanies, not_called_of_poison (p := 2) behind_threeCompanies nofun
    (by decide) ?_⟩
  exact Run.AllSteps.of_check (c := fun s a =>
    decide (KeepsFailing {2} s a ∧ KeepsRaising 2 s a ∧ Recent 0 a))
    (fun s a h => of_decide_eq_true h) (by decide +kernel)

end LinkedIn
end LeadPulse
