import LeadPulse.Crm.Agreement

/-!
# Signals as comments

A signal is marked when its comment is in ClickUp, so that no turn posts it again until a
cleanup takes the mark away, and a signal whose call fails holds up none of the others
(`posted_once`). `Posts` ties the list of the posted signals to the comments themselves.
-/

namespace LeadPulse
namespace Crm

variable {E : Env} {cfg : Config} {legacy : ListConfig} {turn : Turn}
  {cache : Option TaskNameCache} {w w' : World} {company : Company} {taskId : String}
  {signals : List SignalRow} {posted : List ℕ} {k n : ℕ}

/-- The marks of the signals say what has been posted, each signal once. -/
structure Marked (signals : List SignalRow) (posted : List ℕ) : Prop where
  nodup : posted.Nodup
  marked : ∀ r ∈ signals, r.crmCommentedAt ≠ none ↔ r.id ∈ posted

/-- The marks, together with the ids of the signals: they are unique and come from a sequence,
which is at `n`. -/
structure Tracked (signals : List SignalRow) (posted : List ℕ) (n : ℕ) : Prop
    extends Marked signals posted where
  keyed : Table.Keyed (fun r : SignalRow => r.id) signals
  lt : ∀ r ∈ signals, r.id < n
  posted_lt : ∀ j ∈ posted, j < n

/-- A signal that a turn of the company `k` posts. -/
def Due (k : ℕ) (r : SignalRow) : Prop :=
  r.companyId = k ∧ r.crmCommentedAt = none ∧ r.signalType ≠ .noSignal

theorem mem_getUncommentedSignals {t : Tables} {r : SignalRow} :
    r ∈ getUncommentedSignals E t k ↔ r ∈ t.signals ∧ Due k r := by
  unfold getUncommentedSignals Due
  rw [List.mem_insertionSort, RowOrder.mem_arrange, List.mem_filter, decide_eq_true_eq]

/-- The rows of the loop are different signals. -/
theorem nodup_getUncommentedSignals (E : Env) {t : Tables}
    (h : Table.Keyed (fun r : SignalRow => r.id) t.signals) (k : ℕ) :
    ((getUncommentedSignals E t k).map fun r => r.id).Nodup := by
  unfold getUncommentedSignals
  rw [((List.perm_insertionSort _ _).map _).nodup_iff, ((E.signalOrder.perm _).map _).nodup_iff]
  exact h.sublist (List.filter_sublist.map _)

/-! ## The loop -/

/-- When the call for a signal succeeds. -/
theorem addComment_ok (turn : Turn) (h : w.clickup.find taskId ≠ none) (j : ℕ) :
    (∃ s, attempt turn.faults (.addComment j) (w.clickup.addComment taskId j) = .ok s) ↔
      turn.faults (.addComment j) = none := by
  obtain ⟨t, ht⟩ := Option.ne_none_iff_exists'.mp h
  constructor
  · rintro ⟨s, hs⟩
    exact (attempt_ok.mp hs).1
  · intro hcall
    refine ⟨{ w.clickup with comments := (taskId, j) :: w.clickup.comments },
      attempt_ok.mpr ⟨hcall, ?_⟩⟩
    unfold ClickUp.addComment
    rw [ht]

theorem find_congr {s s' : ClickUp} (h : s'.tasks = s.tasks) (taskId : String) :
    s'.find taskId = s.find taskId := by
  unfold ClickUp.find
  rw [h]

/-- A signal in the loop is posted if its call succeeds, whatever happens to the others. -/
theorem posted_postSignal (h : w.clickup.find taskId ≠ none) (r : SignalRow) (j : ℕ) :
    j ∈ (postSignal turn taskId w r).posted ↔
      j ∈ w.posted ∨ (j = r.id ∧ turn.faults (.addComment r.id) = none) := by
  have hok := addComment_ok turn h r.id
  rcases postSignal_cases turn taskId w r with ⟨e, he, hw⟩ | ⟨s, hs, hw⟩
  · have hfail : ¬ turn.faults (.addComment r.id) = none := by
      intro hcall
      obtain ⟨s, hs⟩ := hok.mpr hcall
      rw [he] at hs
      cases hs
    rw [hw]
    simp [hfail]
  · have hcall := hok.mp ⟨s, hs⟩
    rw [hw]
    unfold World.markPosted
    simp [hcall, or_comm]

theorem find_postSignal (turn : Turn) (taskId : String) (w : World) (r : SignalRow) :
    (postSignal turn taskId w r).clickup.find taskId = w.clickup.find taskId := by
  rcases postSignal_cases turn taskId w r with ⟨-, -, hw⟩ | ⟨s, hs, hw⟩
  · rw [hw]
  · rw [hw]
    exact find_congr (ClickUp.addComment_spec (attempt_ok.mp hs).2).1 taskId

theorem posted_foldl (h : w.clickup.find taskId ≠ none) (rows : List SignalRow) (j : ℕ) :
    j ∈ (rows.foldl (postSignal turn taskId) w).posted ↔
      j ∈ w.posted ∨ ∃ r ∈ rows, j = r.id ∧ turn.faults (.addComment r.id) = none := by
  induction rows generalizing w with
  | nil => simp
  | cons r rows ih =>
    have hnext : (postSignal turn taskId w r).clickup.find taskId ≠ none := by
      rw [find_postSignal]
      exact h
    rw [List.foldl_cons, ih hnext, posted_postSignal h]
    simp only [List.mem_cons, exists_eq_or_imp]
    exact or_assoc

/-- Posting a signal that has not been posted. -/
theorem Marked.markPosted (h : Marked w.tables.signals w.posted) {r : SignalRow}
    (hr : r.id ∉ w.posted) (now : Time) (s : ClickUp) :
    Marked (w.markPosted r.id now s).tables.signals (w.markPosted r.id now s).posted where
  nodup := List.nodup_cons.mpr ⟨hr, h.nodup⟩
  marked := by
    intro r' hr'
    obtain ⟨q, hq, rfl⟩ := List.mem_map.mp hr'
    have hmarked := h.marked q hq
    show (_ ↔ _ ∈ r.id :: w.posted)
    rw [List.mem_cons]
    split
    · next he => simp [he]
    · next he => simp [he, hmarked]

theorem Marked.postSignals_foldl (h : Marked w.tables.signals w.posted) (rows : List SignalRow)
    (hnodup : (rows.map fun r => r.id).Nodup) (hrows : ∀ r ∈ rows, r.id ∉ w.posted) :
    Marked (rows.foldl (postSignal turn taskId) w).tables.signals
      (rows.foldl (postSignal turn taskId) w).posted := by
  induction rows generalizing w with
  | nil => exact h
  | cons r rows ih =>
    obtain ⟨hnot, hrest⟩ := List.nodup_cons.mp hnodup
    have hr := hrows r List.mem_cons_self
    rw [List.foldl_cons]
    rcases postSignal_cases turn taskId w r with ⟨-, -, hw⟩ | ⟨s, -, hw⟩
    · rw [hw]
      exact ih h hrest fun q hq => hrows q (List.mem_cons_of_mem _ hq)
    · rw [hw]
      apply ih (h.markPosted hr turn.now s) hrest
      intro q hq hmem
      -- the later rows are other signals
      rcases List.mem_cons.mp hmem with heq | hold
      · exact hnot (List.mem_map.mpr ⟨q, hq, heq⟩)
      · exact hrows q (List.mem_cons_of_mem _ hq) hold

theorem Marked.postSignals (h : Marked w.tables.signals w.posted)
    (hkeyed : Table.Keyed (fun r : SignalRow => r.id) w.tables.signals) :
    Marked (postSignalsAsComments E turn taskId k w).tables.signals
      (postSignalsAsComments E turn taskId k w).posted := by
  apply h.postSignals_foldl _ (nodup_getUncommentedSignals E hkeyed k)
  intro r hr hmem
  obtain ⟨hsignal, -, hnone, -⟩ := mem_getUncommentedSignals.mp hr
  exact (h.marked r hsignal).mpr hmem hnone

/-- What the loop posts. -/
theorem posted_postSignals (hkeyed : Table.Keyed (fun r : SignalRow => r.id) w.tables.signals)
    (hfind : w.clickup.find taskId ≠ none) {r : SignalRow} (hr : r ∈ w.tables.signals) :
    r.id ∈ (postSignalsAsComments E turn taskId k w).posted ↔
      r.id ∈ w.posted ∨ (Due k r ∧ turn.faults (.addComment r.id) = none) := by
  unfold postSignalsAsComments
  rw [posted_foldl hfind]
  apply or_congr_right
  constructor
  · rintro ⟨q, hq, hid, hcall⟩
    obtain ⟨hqmem, hdue⟩ := mem_getUncommentedSignals.mp hq
    have heq : r = q := List.inj_on_of_nodup_map hkeyed hr hqmem hid
    subst heq
    exact ⟨hdue, hcall⟩
  · rintro ⟨hdue, hcall⟩
    exact ⟨r, mem_getUncommentedSignals.mpr ⟨hr, hdue⟩, rfl, hcall⟩

theorem Tracked.postSignals (h : Tracked w.tables.signals w.posted n)
    (hfind : w.clickup.find taskId ≠ none) :
    Tracked (postSignalsAsComments E turn taskId k w).tables.signals
      (postSignalsAsComments E turn taskId k w).posted n := by
  have hids : (postSignalsAsComments E turn taskId k w).tables.signals.map (fun r => r.id) =
      w.tables.signals.map fun r => r.id := by
    refine postSignals_keeps (fun w => w.tables.signals.map fun r => r.id) fun w j s _ _ => ?_
    apply Table.keys_map
    intro r
    split
    · rfl
    · rfl
  refine ⟨h.toMarked.postSignals h.keyed, h.keyed.of_keys hids, Table.lt_of_keys h.lt hids, ?_⟩
  · intro j hj
    unfold postSignalsAsComments at hj
    rw [posted_foldl hfind] at hj
    rcases hj with hold | ⟨r, hr, rfl, -⟩
    · exact h.posted_lt j hold
    · exact h.lt r (mem_getUncommentedSignals.mp hr).1

/-! ## The comments in ClickUp -/

/-- The comments that are new in ClickUp are those on the signals that are newly posted. -/
def Posts (w w' : World) : Prop :=
  ∃ news, w'.clickup.comments = news ++ w.clickup.comments ∧
    w'.posted = news.map (·.2) ++ w.posted

theorem Posts.refl (w : World) : Posts w w := ⟨[], rfl, rfl⟩

theorem Posts.trans {w₁ w₂ w₃ : World} (h₁ : Posts w₁ w₂) (h₂ : Posts w₂ w₃) : Posts w₁ w₃ := by
  obtain ⟨news₁, hc₁, hp₁⟩ := h₁
  obtain ⟨news₂, hc₂, hp₂⟩ := h₂
  refine ⟨news₂ ++ news₁, ?_, ?_⟩
  · rw [hc₂, hc₁, List.append_assoc]
  · rw [hp₂, hp₁, List.map_append, List.append_assoc]

theorem posts_of_same (hcomments : w'.clickup.comments = w.clickup.comments)
    (hposted : w'.posted = w.posted) : Posts w w' :=
  ⟨[], hcomments, hposted⟩

theorem posts_postSignal (turn : Turn) (taskId : String) (w : World) (r : SignalRow) :
    Posts w (postSignal turn taskId w r) := by
  rcases postSignal_cases turn taskId w r with ⟨-, -, hw⟩ | ⟨s, hs, hw⟩
  · rw [hw]
    exact .refl w
  · have hcall := (attempt_ok.mp hs).2
    unfold ClickUp.addComment at hcall
    split at hcall
    · cases hcall
    · rw [hw, ← Except.ok.inj hcall]
      exact ⟨[(taskId, r.id)], rfl, rfl⟩

theorem posts_postSignals (E : Env) (turn : Turn) (taskId : String) (k : ℕ) (w : World) :
    Posts w (postSignalsAsComments E turn taskId k w) := by
  unfold postSignalsAsComments
  generalize getUncommentedSignals E w.tables k = rows
  induction rows generalizing w with
  | nil => exact .refl w
  | cons r rows ih => exact (posts_postSignal turn taskId w r).trans (ih _)

section

variable {s s' : ClickUp} {task : ClickUpTask} {contact : Contact}

theorem comments_updateTask {fields : List (String × List Char)}
    (h : s.updateTask taskId fields = .ok (s', task)) : s'.comments = s.comments := by
  unfold ClickUp.updateTask at h
  split at h
  · cases h
  · cases h
    rfl

theorem comments_createPersonTask :
    (createPersonTask E cfg turn s contact).clickup.comments = s.comments := by
  unfold createPersonTask
  split
  · rfl
  · next s' task hs =>
    cases Except.ok.inj (attempt_ok.mp hs).2
    rfl

theorem comments_savePersonTask :
    (savePersonTask E cfg turn s contact).clickup.comments = s.comments := by
  unfold savePersonTask
  split
  · unfold updatePersonTask
    split
    · next s' task hs => exact comments_updateTask (attempt_ok.mp hs).2
    · exact comments_createPersonTask
    · rfl
  · split
    · rfl
    · rfl
    · exact comments_createPersonTask

theorem comments_relate (turn : Turn) (s : ClickUp) (call : Call) (taskId fieldId other : String) :
    (relate turn s call taskId fieldId other).comments = s.comments := by
  unfold relate
  split
  · rfl
  · split
    · rfl
    · next s' hs =>
      have hcall := (attempt_ok.mp hs).2
      unfold ClickUp.setCustomFieldValue at hcall
      split at hcall
      · cases hcall
      · rw [← Except.ok.inj hcall]
        rfl

theorem comments_linkIfNew (cfg : Config) (turn : Turn) (companyTaskId : String) (old : Contact)
    (p : PersonTurn) :
    (linkIfNew cfg turn companyTaskId old p).comments = p.clickup.comments := by
  unfold linkIfNew
  split
  · rfl
  · split
    · unfold linkPersonToCompany
      rw [comments_relate, comments_relate]
    · rfl

end

/-- The contacts of a company are no comments. -/
theorem posts_pushContacts (E : Env) (cfg : Config) (turn : Turn) (taskId : String) (k : ℕ)
    (w : World) : Posts w (pushContacts E cfg turn taskId k w) := by
  refine posts_of_same ?_ posted_pushContacts
  unfold pushContacts
  split
  · rfl
  · refine foldl_keeps (fun w => w.clickup.comments) (fun w c => ?_) _ w
    exact (comments_linkIfNew cfg turn taskId c _).trans comments_savePersonTask

theorem posts_finishTurn (E : Env) (cfg : Config) (turn : Turn) (commentsTo contactsTo : String)
    (k : ℕ) (w : World) : Posts w (finishTurn E cfg turn commentsTo contactsTo k w) :=
  (posts_postSignals E turn commentsTo k w).trans (posts_pushContacts E cfg turn contactsTo k _)

theorem comments_createCompanyTask {cfg : ListConfig} {s s' : ClickUp} {task : ClickUpTask}
    (h : createCompanyTask E turn cfg s company = .ok (s', task)) : s'.comments = s.comments := by
  cases createCompanyTask_ok h
  rfl

theorem posts_takeTurn : Posts w (takeTurn E cfg turn cache w k) := by
  apply takeTurn_keeps (P := fun w' => Posts w w') (.refl w)
  intro company w' hc hp
  cases hp with
  | updated i s task hi hs =>
    refine Posts.trans ?_ (posts_finishTurn E cfg turn _ _ _ _)
    exact posts_of_same (comments_updateTask (attempt_ok.mp hs).2) rfl
  | linked task hi hfind => exact posts_of_same rfl rfl
  | created s task hi hfind hs =>
    refine Posts.trans ?_ (posts_finishTurn E cfg turn _ _ _ _)
    exact posts_of_same (comments_createCompanyTask hs) rfl

theorem posts_takeLegacyTurn {inBatch : Bool} :
    Posts w (Legacy.takeTurn E legacy turn inBatch w k) := by
  apply Legacy.takeTurn_keeps (P := fun w' => Posts w w') (.refl w)
  intro company w' hc hp
  cases hp with
  | updated leads s task taskId hid hs hleads =>
    refine Posts.trans ?_ (posts_postSignals E turn _ _ _)
    exact posts_of_same (comments_updateTask (attempt_ok.mp hs).2) rfl
  | found task hid hfind => exact posts_of_same rfl rfl
  | created s task hid hfind hs =>
    refine Posts.trans ?_ (posts_postSignals E turn _ _ _)
    exact posts_of_same (comments_createCompanyTask hs) rfl

/-- A step keeps the account of the comments; a cleanup begins a new one. -/
def AccountsFor (w : World) (e : Event) (w' : World) : Prop :=
  match e with
  | .cleanup => w'.posted = [] ∧ w'.clickup.comments = w.clickup.comments
  | _ => Posts w w'

theorem accountsFor_cleanup {s s' : State} (hs : step E cfg legacy s .cleanup = some s') :
    AccountsFor s.world .cleanup s'.world := by
  cases hb : s.batch with
  | some batch => simp [step, hb] at hs
  | none =>
    simp only [step, hb, operation, Option.some.injEq] at hs
    rw [← hs]
    exact ⟨rfl, rfl⟩

theorem accountsFor_step {s s' : State} {e : Event} (hs : step E cfg legacy s e = some s') :
    AccountsFor s.world e s'.world := by
  have hposts : e ≠ .cleanup → Posts s.world s'.world := by
    intro he
    cases step_move hs with
    | stay hn => exact .refl _
    | provider k cache turn hturn => exact posts_takeTurn
    | legacy k inBatch turn hturn => exact posts_takeLegacyTurn
    | cleanup => exact absurd rfl he
    | renameCompany => exact posts_of_same rfl rfl
    | mergeCompanies h₀ hm => exact posts_of_same rfl rfl
    | addSignal r hid hr => exact posts_of_same rfl rfl
    | addContact c hid hc => exact posts_of_same rfl rfl
    | editTask => exact posts_of_same rfl rfl
    | deleteTask => exact posts_of_same rfl rfl
  cases e with
  | cleanup => exact accountsFor_cleanup hs
  | _ => exact hposts fun he => nomatch he

/-! ## Turns -/

/-- Each signal by itself: it has been posted by the turn if it was due and its own call has
succeeded. -/
structure PostsEach (turn : Turn) (k : ℕ) (w w' : World) : Prop where
  posted : ∀ r ∈ w.tables.signals, r.id ∈ w'.posted ↔
    r.id ∈ w.posted ∨ (Due k r ∧ turn.faults (.addComment r.id) = none)
  marked : ∀ r ∈ w'.tables.signals, r.crmCommentedAt ≠ none ↔ r.id ∈ w'.posted

/-- A turn of one of the services that creates or updates the task of a company. -/
inductive GoesThrough (E : Env) (cfg : Config) (legacy : ListConfig) (turn : Turn) (w : World)
    (company : Company) (w' : World) : Prop
  | update (i : CRMIntegration) (h : updateTask E cfg turn w company i = .ok w')
  | create (h : createTask E cfg turn w company = .ok w')
  | legacyUpdate (taskId : String) (h : Legacy.updateTask E legacy turn w company taskId = .ok w')
  | legacyCreate (h : Legacy.createTask E legacy turn w company = .ok w')

/-- The loop after the first commit of a turn, which is about other tables. -/
theorem postsEach_of_loop {v : World} (h : Tracked w.tables.signals w.posted n)
    (hsignals : v.tables.signals = w.tables.signals) (hposted : v.posted = w.posted)
    (hfind : v.clickup.find taskId ≠ none) :
    PostsEach turn k w (postSignalsAsComments E turn taskId k v) := by
  rw [← hsignals, ← hposted] at h
  constructor
  · intro r hr
    rw [← hsignals] at hr
    rw [posted_postSignals h.keyed hfind hr, hposted]
  · exact (h.toMarked.postSignals h.keyed).marked

theorem PostsEach.pushContacts (h : PostsEach turn k w w') (j : ℕ) :
    PostsEach turn k w (pushContacts E cfg turn taskId j w') where
  posted := by
    rw [posted_pushContacts]
    exact h.posted
  marked := by
    rw [posted_pushContacts, signals_pushContacts]
    exact h.marked

theorem postsEach_of_goesThrough (h : Tracked w.tables.signals w.posted n)
    (hturn : GoesThrough E cfg legacy turn w company w') : PostsEach turn company.id w w' := by
  cases hturn with
  | update i hu =>
    unfold updateTask at hu
    split at hu
    · cases hu
    · next s task hs =>
      cases hu
      obtain ⟨hid, hfind⟩ := find_updateCompanyTask hs
      rw [← hid] at hfind
      apply PostsEach.pushContacts
      apply postsEach_of_loop h
      · rfl
      · rfl
      · exact hfind
  | create hc =>
    unfold createTask at hc
    split at hc
    · cases hc
    · next s task hs =>
      cases hc
      apply PostsEach.pushContacts
      apply postsEach_of_loop h
      · rfl
      · rfl
      · exact find_createCompanyTask hs
  | legacyUpdate taskId hu =>
    unfold Legacy.updateTask at hu
    split at hu
    · cases hu
    · next s task hs =>
      cases hu
      obtain ⟨hid, hfind⟩ := find_updateCompanyTask hs
      rw [← hid] at hfind
      apply postsEach_of_loop h
      · rfl
      · rfl
      · exact hfind
  | legacyCreate hc =>
    unfold Legacy.createTask at hc
    split at hc
    · cases hc
    · next s task hs =>
      cases hc
      apply postsEach_of_loop h
      · rfl
      · rfl
      · exact find_createCompanyTask hs

theorem Tracked.takeTurn (h : Tracked w.tables.signals w.posted n) :
    Tracked (takeTurn E cfg turn cache w k).tables.signals
      (takeTurn E cfg turn cache w k).posted n := by
  apply takeTurn_keeps (P := fun w => Tracked w.tables.signals w.posted n) h
  intro company w' hc hp
  cases hp with
  | updated i s task hi hs =>
    obtain ⟨hid, hfind⟩ := find_updateCompanyTask hs
    unfold finishTurn
    rw [signals_pushContacts, posted_pushContacts]
    apply Tracked.postSignals
    · exact h
    · rw [hid]
      exact hfind
  | linked task hi hfind => exact h
  | created s task hi hfind hs =>
    unfold finishTurn
    rw [signals_pushContacts, posted_pushContacts]
    apply Tracked.postSignals
    · exact h
    · exact find_createCompanyTask hs

theorem Tracked.takeLegacyTurn {inBatch : Bool} (h : Tracked w.tables.signals w.posted n) :
    Tracked (Legacy.takeTurn E legacy turn inBatch w k).tables.signals
      (Legacy.takeTurn E legacy turn inBatch w k).posted n := by
  apply Legacy.takeTurn_keeps (P := fun w => Tracked w.tables.signals w.posted n) h
  intro company w' hc hp
  cases hp with
  | updated leads s task taskId hlink hs hleads =>
    obtain ⟨hid, hfind⟩ := find_updateCompanyTask hs
    apply Tracked.postSignals
    · exact h
    · rw [hid]
      exact hfind
  | found task hlink hfind => exact h
  | created s task hlink hfind hs =>
    apply Tracked.postSignals
    · exact h
    · exact find_createCompanyTask hs

/-! ## Runs -/

theorem Tracked.mono {m : ℕ} (h : Tracked signals posted n) (hnm : n ≤ m) :
    Tracked signals posted m where
  toMarked := h.toMarked
  keyed := h.keyed
  lt r hr := (h.lt r hr).trans_le hnm
  posted_lt j hj := (h.posted_lt j hj).trans_le hnm

/-- Nothing has been posted since a cleanup. -/
theorem Tracked.cleanup (h : Tracked w.tables.signals w.posted n) :
    Tracked (cleanupClickupLinks w).tables.signals (cleanupClickupLinks w).posted n := by
  have hid (r : SignalRow) :
      (if r.crmCommentedAt ≠ none then { r with crmCommentedAt := none } else r).id = r.id := by
    split
    · rfl
    · rfl
  refine ⟨⟨List.nodup_nil, ?_⟩, h.keyed.map hid, Table.lt_map h.lt hid, ?_⟩
  · intro r' hr'
    obtain ⟨r, -, rfl⟩ := List.mem_map.mp hr'
    have hnone : (if r.crmCommentedAt ≠ none then { r with crmCommentedAt := none }
        else r).crmCommentedAt = none := by
      split
      · rfl
      · next hr => exact not_not.mp hr
    rw [hnone]
    simp [cleanupClickupLinks]
  · intro j hj
    cases hj

/-- A new signal has not been posted. -/
theorem Tracked.addSignal (h : Tracked signals posted n) {r : SignalRow} (hid : r.id = n)
    (hr : r.crmCommentedAt = none) : Tracked (signals ++ [r]) posted (n + 1) where
  nodup := h.nodup
  marked := by
    intro q hq
    rcases List.mem_append.mp hq with hold | hnew
    · exact h.marked q hold
    · obtain rfl := List.mem_singleton.mp hnew
      have hfresh : q.id ∉ posted := fun hmem => Nat.lt_irrefl n (hid ▸ h.posted_lt q.id hmem)
      simp [hr, hfresh]
  keyed := by
    apply h.keyed.append
    rw [hid]
    exact Table.get_of_lt h.lt
  lt := Table.lt_append h.lt hid
  posted_lt j hj := Nat.lt_succ_of_lt (h.posted_lt j hj)

/-- The signals that a merge leaves have kept their marks. -/
theorem mergeCompanies_signals {U : Unicode} {contactOrder : RowOrder Contact}
    {signalOrder : RowOrder SignalRow} {p d : ℕ} {db db' : Database}
    (h : Dedup.mergeCompanies U contactOrder signalOrder p d db = .ok db') :
    ∀ r' ∈ db'.tables.signals, ∃ r ∈ db.tables.signals,
      r'.id = r.id ∧ r'.crmCommentedAt = r.crmCommentedAt := by
  obtain ⟨-, -, -, hrows⟩ := Dedup.mergeCompanies_ok.mp h
  rw [Dedup.mergeRows_tables hrows]
  intro r' hr'
  have hmerged := (List.mem_filter.mp hr').1
  obtain ⟨r, hr, rfl⟩ := List.mem_map.mp (List.mem_filter.mp hmerged).1
  refine ⟨r, hr, ?_⟩
  split
  · exact ⟨rfl, rfl⟩
  · exact ⟨rfl, rfl⟩

theorem Tracked.merge {U : Unicode} {contactOrder : RowOrder Contact}
    {signalOrder : RowOrder SignalRow} {p d : ℕ} {db db' : Database}
    (h : Tracked db.tables.signals posted n)
    (hm : Dedup.mergeCompanies U contactOrder signalOrder p d db = .ok db') :
    Tracked db'.tables.signals posted n where
  nodup := h.nodup
  marked := by
    intro r' hr'
    obtain ⟨r, hr, hid, hmark⟩ := mergeCompanies_signals hm r' hr'
    rw [hid, hmark]
    exact h.marked r hr
  keyed := db'.valid.unique.signals
  lt := by
    intro r' hr'
    obtain ⟨r, hr, hid, -⟩ := mergeCompanies_signals hm r' hr'
    rw [hid]
    exact h.lt r hr
  posted_lt := h.posted_lt

theorem Tracked.step {s s' : State} {e : Event}
    (h : Tracked s.world.tables.signals s.world.posted s.nextId)
    (hs : step E cfg legacy s e = some s') :
    Tracked s'.world.tables.signals s'.world.posted s'.nextId := by
  cases step_move hs with
  | stay hn => exact h.mono hn
  | provider k cache turn hturn => exact h.takeTurn
  | legacy k inBatch turn hturn => exact h.takeLegacyTurn
  | cleanup => exact h.cleanup
  | renameCompany => exact h
  | mergeCompanies h₀ hm =>
    rw [← h₀] at h
    exact h.merge hm
  | addSignal r hid hr => exact h.addSignal hid hr
  | addContact c hid hc => exact h.mono (Nat.le_succ _)
  | editTask => exact h
  | deleteTask => exact h

/-- In every state of a run no signal has been posted twice since the last cleanup, a signal is
marked if and only if it has been posted, and a turn posts each signal by itself. Every step posts
the signals that it writes comments on in ClickUp, and no others; a cleanup begins a new account. -/
theorem posted_once (E : Env) (cfg : Config) (legacy : ListConfig) (start : State)
    (events : List Event)
    (h₀ : Tracked start.world.tables.signals start.world.posted start.nextId) :
    Run.AllStates (step E cfg legacy) (fun s =>
      s.world.posted.Nodup ∧
      (∀ r ∈ s.world.tables.signals, r.crmCommentedAt ≠ none ↔ r.id ∈ s.world.posted) ∧
      ∀ turn company w', GoesThrough E cfg legacy turn s.world company w' →
        PostsEach turn company.id s.world w') start events ∧
    Run.AllSteps (step E cfg legacy) (fun s e =>
      ∀ s', step E cfg legacy s e = some s' → AccountsFor s.world e s'.world) start events := by
  have hinv : Run.AllStates (step E cfg legacy)
      (fun s => Tracked s.world.tables.signals s.world.posted s.nextId) start events :=
    Run.AllStates.of_step (I := fun s => Tracked s.world.tables.signals s.world.posted s.nextId)
      (fun s e s' h hs => h.step hs) h₀ events
  constructor
  · exact hinv.mono fun s h =>
      ⟨h.nodup, h.marked, fun turn company w' hturn => postsEach_of_goesThrough h hturn⟩
  · exact Run.AllSteps.of_forall (fun _ _ _ hs => accountsFor_step hs) start events

/-- Two signals. The call for one of them fails in the first push and succeeds in the second; after
a cleanup both are posted again. -/
def retriedComment : List Event :=
  [.addSignal 1 .expansion 1, .addSignal 1 .fundingRound 2,
    .pushCompany 1 { now := 3, faults := fun call =>
      if call = .addComment 1 then some (.failed "timeout") else none },
    .legacyPush 1 { now := 4 }, .cleanup, .pushCompany 1 { now := 5 }]

theorem posted_once_retry :
    Run.AllStates (step Env.plain Config.plain Config.plain.toListConfig) (fun s =>
      s.world.posted.Nodup ∧
      (∀ r ∈ s.world.tables.signals, r.crmCommentedAt ≠ none ↔ r.id ∈ s.world.posted) ∧
      ∀ turn company w',
        GoesThrough Env.plain Config.plain Config.plain.toListConfig turn s.world company w' →
          PostsEach turn company.id s.world w')
      (.fresh [qualifiedCompany 1 "Acme"]) retriedComment ∧
    Run.AllSteps (step Env.plain Config.plain Config.plain.toListConfig) (fun s e =>
      ∀ s', step Env.plain Config.plain Config.plain.toListConfig s e = some s' →
        AccountsFor s.world e s'.world)
      (.fresh [qualifiedCompany 1 "Acme"]) retriedComment :=
  posted_once Env.plain Config.plain Config.plain.toListConfig _ _
    ⟨⟨List.nodup_nil, by simp [State.fresh]⟩, List.nodup_nil, by simp [State.fresh],
      by simp [State.fresh]⟩

end Crm
end LeadPulse
