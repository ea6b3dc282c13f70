import LeadPulse.Crm.Persons

/-!
# People and their companies

After a push that creates or updates the task of a company every contact of the company has a
Person task, and the contacts that got theirs in this push, or were linked before, are linked to
the company. If the history had no failed link call and no merge that moved a contact with a task,
all of them are linked (`people_pushed`).
-/

namespace LeadPulse
namespace Crm

variable {E : Env} {cfg : Config} {legacy : ListConfig} {turn : Turn}
  {cache : Option TaskNameCache} {w w' : World} {s s' : ClickUp} {company : Company}
  {contacts : List Contact} {personTaskId companyTaskId : String} {k n : ℕ}

/-! ## A push -/

/-- The push only links the company to a task that is there; its contacts wait. -/
def LinksOnly (E : Env) (cfg : Config) (turn : Turn) (w : World) (k : ℕ) : Prop :=
  ∃ company ∈ w.tables.company k, w.tables.integration company.id = none ∧
    ∃ task, findExisting E cfg turn none w company = .ok (some task)

/-- Every contact of the company has a Person task, and it is linked in both directions if the
contact had another one before or none, or if it was linked before. -/
def PeoplePushed (cfg : Config) (w w' : World) (k : ℕ) : Prop :=
  ∃ e ∈ externalId w'.tables.toLeadTables k, ∀ c' ∈ w'.tables.contacts, c'.companyId = k →
    ∃ taskId ∈ nonEmpty c'.clickupTaskId, w'.clickup.find taskId ≠ none ∧
      ∀ c ∈ w.tables.contacts, c.id = c'.id →
        c.clickupTaskId ≠ some taskId ∨ Linked cfg w.clickup taskId e →
          Linked cfg w'.clickup taskId e

/-- Every contact of the company has a Person task that is linked in both directions. -/
def PeopleLinked (cfg : Config) (w : World) (k : ℕ) : Prop :=
  ∃ e ∈ externalId w.tables.toLeadTables k, ∀ c ∈ w.tables.contacts, c.companyId = k →
    ∃ taskId ∈ nonEmpty c.clickupTaskId, Linked cfg w.clickup taskId e

/-- What a turn has done to the contacts: those of the company are settled with its task. -/
def ContactsSettled (cfg : Config) (turn : Turn) (w w' : World) (k : ℕ) : Prop :=
  ∃ e ∈ externalId w'.tables.toLeadTables k, w'.clickup.find e ≠ none ∧
    ∀ r ∈ w'.tables.contacts, ∃ c ∈ w.tables.contacts, r.id = c.id ∧ r.companyId = c.companyId ∧
      ((c.companyId = k ∧ Settled cfg turn e c w'.clickup r.clickupTaskId) ∨
        (c.companyId ≠ k ∧ r = c))

theorem contactsSettled_finishTurn (hcfg : Relates cfg) (hlist : cfg.personListId ≠ "")
    (hkeyed : Table.Keyed (fun c : Contact => c.id) w.tables.contacts) (v : World)
    (hcontacts : v.tables.contacts = w.tables.contacts) {commentsTo : String}
    (hext : externalId v.tables.toLeadTables k = some companyTaskId)
    (hfind : v.clickup.find companyTaskId ≠ none) :
    ContactsSettled cfg turn w (finishTurn E cfg turn commentsTo companyTaskId k v) k := by
  have hposted := (grows_postSignals E turn commentsTo k v).find hfind
  refine ⟨companyTaskId, ?_, (grows_finishTurn E cfg turn commentsTo companyTaskId k v).find hfind,
    ?_⟩
  · unfold finishTurn
    rw [leads_pushContacts, leads_postSignals]
    exact hext
  · have hkeyed' : Table.Keyed (fun c : Contact => c.id)
        (postSignalsAsComments E turn commentsTo k v).tables.contacts := by
      rw [contacts_postSignals, hcontacts]
      exact hkeyed
    have hloop := contacts_pushContacts E turn k hcfg hlist hkeyed' hposted
    rw [contacts_postSignals, hcontacts] at hloop
    exact hloop

/-- A turn of the provider settles the contacts, unless it only links the company. -/
theorem Pushed.contactsSettled (hcfg : Relates cfg) (hlist : cfg.personListId ≠ "")
    (hkeyed : Table.Keyed (fun c : Contact => c.id) w.tables.contacts)
    (h : Pushed E cfg turn cache w company w') :
    (∃ task, w.tables.integration company.id = none ∧
      findExisting E cfg turn cache w company = .ok (some task) ∧
        w' = w.setLeads (w.tables.linkExisting company task)) ∨
    ContactsSettled cfg turn w w' company.id := by
  cases h with
  | updated i s task hi hs =>
    right
    apply contactsSettled_finishTurn hcfg hlist hkeyed
    · rfl
    · refine (externalId_updateTask w.tables.toLeadTables i task company.id).trans ?_
      unfold externalId
      rw [hi]
      rfl
    · exact (find_updateCompanyTask hs).2
  | linked task hi hfind => exact Or.inl ⟨task, hi, hfind, rfl⟩
  | created s task hi hfind hs =>
    right
    apply contactsSettled_finishTurn hcfg hlist hkeyed
    · rfl
    · refine (externalId_addIntegration _ hi company.id).trans ?_
      rw [if_pos rfl]
    · exact find_createCompanyTask hs

theorem pushCompany_ok (h : pushCompany E cfg turn w k = .ok w') :
    ∃ company, w.tables.company k = some company ∧
      pushLoaded E cfg turn none w company = .ok w' := by
  unfold pushCompany at h
  split at h
  · cases h
  · next company hc =>
    exact ⟨company, hc, mapError_eq_ok.mp h⟩

/-- A push of a company that creates or updates its task. -/
theorem contactsSettled_pushCompany (hcfg : Relates cfg) (hlist : cfg.personListId ≠ "")
    (hkeyed : Table.Keyed (fun c : Contact => c.id) w.tables.contacts)
    (h : pushCompany E cfg turn w k = .ok w') (hlinks : ¬ LinksOnly E cfg turn w k) :
    ContactsSettled cfg turn w w' k ∧ ClickUp.Grows w.clickup w'.clickup := by
  obtain ⟨company, hc, hp⟩ := pushCompany_ok h
  have hpushed := pushLoaded_ok hp
  have hid : company.id = k := Table.key_of_get hc
  rw [← hid]
  rcases hpushed.contactsSettled hcfg hlist hkeyed with ⟨task, hi, hfind, -⟩ | hsettled
  · exact absurd ⟨company, hc, hi, task, hfind⟩ hlinks
  · exact ⟨hsettled, hpushed.grows⟩

/-- The first part of the result, for a push from any state. -/
theorem peoplePushed_of_settled (hturn : turn.faults = noFaults)
    (hkeyed : Table.Keyed (fun c : Contact => c.id) w.tables.contacts)
    (h : ContactsSettled cfg turn w w' k) (hgrows : ClickUp.Grows w.clickup w'.clickup) :
    PeoplePushed cfg w w' k := by
  obtain ⟨e, he, -, hall⟩ := h
  refine ⟨e, he, fun r hr hk => ?_⟩
  obtain ⟨c, hc, hid, hcompany, hcase⟩ := hall r hr
  rcases hcase with ⟨-, hsettled⟩ | ⟨hother, -⟩
  · cases hsettled with
    | lost hnone hfaults => exact absurd hturn hfaults
    | kept hsame hfind =>
      obtain ⟨taskId, htask, hin⟩ := hfind hturn
      refine ⟨taskId, htask, hin, fun c' hc' hid' hor => ?_⟩
      have heq : c' = c := List.inj_on_of_nodup_map hkeyed hc' hc (hid'.trans hid)
      rcases hor with hnew | hlinked
      · -- the contact has kept its task
        refine absurd ?_ hnew
        rw [heq, ← hsame]
        exact (Option.filter_eq_some_iff.mp htask).1
      · exact hlinked.grows hgrows
    | got taskId hsome hne hold hfind hlinked =>
      refine ⟨taskId, ?_, hfind, fun _ _ _ _ => ?_⟩
      · rw [hsome]
        exact nonEmpty_some hne
      · apply hlinked
        · rw [hturn]
          rfl
        · rw [hturn]
          rfl
  · exact absurd (hcompany.symm.trans hk) hother

/-! ## What stays linked -/

/-- ClickUp keeps the ids that it has given out and the relations of the tasks. -/
structure Keeps (s s' : ClickUp) : Prop where
  used : ∀ taskId ∈ s.usedIds, taskId ∈ s'.usedIds
  related : ∀ t' ∈ s'.tasks,
    (∃ t ∈ s.tasks, t.id = t'.id ∧ t.related ⊆ t'.related) ∨ t'.id ∉ s.usedIds

theorem keeps_of_grows (h : ClickUp.Grows s s') : Keeps s s' where
  used _ := h.mem_usedIds
  related t' ht' := by
    rcases h.fresh t' ht' with ⟨t, ht, hid⟩ | hnew
    · left
      obtain ⟨u, hu, hparse, hrel⟩ := h.tasks t ht
      have hsame : u = t' := ClickUp.eq_of_id hu ht' ((ClickUp.id_of_parse hparse).trans hid)
      exact ⟨t, ht, hid, hsame ▸ hrel⟩
    · exact Or.inr hnew

theorem keeps_editTask (s : ClickUp) (taskId : String) (name : List Char)
    (status : Option String) (fields : List (String × List Char)) :
    Keeps s (s.editTask taskId name status fields) := by
  have hedit (t : StoredTask) :
      (if t.id = taskId then { t with name := name, status := status, fields := fields }
        else t).id = t.id ∧
      (if t.id = taskId then { t with name := name, status := status, fields := fields }
        else t).related = t.related := by
    split
    · exact ⟨rfl, rfl⟩
    · exact ⟨rfl, rfl⟩
  constructor
  · intro j hj
    unfold ClickUp.usedIds at *
    rw [List.mem_append] at *
    rcases hj with htask | hdeleted
    · left
      obtain ⟨t, ht, rfl⟩ := List.mem_map.mp htask
      exact List.mem_map.mpr ⟨_, List.mem_map_of_mem ht, (hedit t).1⟩
    · exact Or.inr hdeleted
  · intro t' ht'
    obtain ⟨t, ht, rfl⟩ := List.mem_map.mp ht'
    left
    refine ⟨t, ht, (hedit t).1.symm, ?_⟩
    rw [(hedit t).2]
    exact List.Subset.refl _

theorem keeps_deleteTask (s : ClickUp) (taskId : String) : Keeps s (s.deleteTask taskId) := by
  constructor
  · intro j hj
    unfold ClickUp.usedIds ClickUp.deleteTask at *
    rw [List.mem_append] at *
    by_cases hsame : j = taskId
    · right
      rw [hsame]
      exact List.mem_cons_self
    · rcases hj with htask | hdeleted
      · left
        obtain ⟨t, ht, rfl⟩ := List.mem_map.mp htask
        refine List.mem_map_of_mem (List.mem_filter.mpr ⟨ht, ?_⟩)
        simpa using hsame
      · exact Or.inr (List.mem_cons_of_mem _ hdeleted)
  · intro t ht
    exact Or.inl ⟨t, (List.mem_filter.mp ht).1, rfl, List.Subset.refl _⟩

/-- The two tasks are linked, as far as they have not been deleted. -/
structure Tied (cfg : Config) (s : ClickUp) (personTaskId companyTaskId : String) : Prop where
  person : personTaskId ∈ s.usedIds
  company : companyTaskId ∈ s.usedIds
  toCompany : ∀ t ∈ s.tasks, t.id = personTaskId →
    (cfg.contactRelationshipFieldId, companyTaskId) ∈ t.related
  toPerson : ∀ t ∈ s.tasks, t.id = companyTaskId →
    (cfg.companyContactFieldId, personTaskId) ∈ t.related

theorem related_of_keeps (h : Keeps s s') {taskId : String} {p : String × String}
    (hid : taskId ∈ s.usedIds) (hrel : ∀ t ∈ s.tasks, t.id = taskId → p ∈ t.related) :
    ∀ t ∈ s'.tasks, t.id = taskId → p ∈ t.related := by
  intro t' ht' hid'
  rcases h.related t' ht' with ⟨t, ht, hsame, hsub⟩ | hnew
  · exact hsub (hrel t ht (hsame.trans hid'))
  · rw [hid'] at hnew
    exact absurd hid hnew

theorem Tied.keeps (h : Tied cfg s personTaskId companyTaskId) (hk : Keeps s s') :
    Tied cfg s' personTaskId companyTaskId where
  person := hk.used _ h.person
  company := hk.used _ h.company
  toCompany := related_of_keeps hk h.person h.toCompany
  toPerson := related_of_keeps hk h.company h.toPerson

theorem related_of_exists {taskId : String} {p : String × String}
    (h : ∃ t ∈ s.tasks, t.id = taskId ∧ p ∈ t.related) :
    taskId ∈ s.usedIds ∧ ∀ t ∈ s.tasks, t.id = taskId → p ∈ t.related := by
  obtain ⟨t, ht, rfl, hp⟩ := h
  refine ⟨List.mem_append_left _ (List.mem_map_of_mem ht), fun u hu hid => ?_⟩
  rw [ClickUp.eq_of_id hu ht hid]
  exact hp

theorem Linked.tied (h : Linked cfg s personTaskId companyTaskId) :
    Tied cfg s personTaskId companyTaskId := by
  obtain ⟨hperson, htoCompany⟩ := related_of_exists h.1
  obtain ⟨hcompany, htoPerson⟩ := related_of_exists h.2
  exact ⟨hperson, hcompany, htoCompany, htoPerson⟩

/-- If both tasks are there, they are linked. -/
theorem Tied.linked (h : Tied cfg s personTaskId companyTaskId)
    (hperson : s.find personTaskId ≠ none) (hcompany : s.find companyTaskId ≠ none) :
    Linked cfg s personTaskId companyTaskId := by
  obtain ⟨t, ht, hid⟩ := ClickUp.find_ne_none.mp hperson
  obtain ⟨u, hu, huid⟩ := ClickUp.find_ne_none.mp hcompany
  exact ⟨⟨t, ht, hid, h.toCompany t ht hid⟩, ⟨u, hu, huid, h.toPerson u hu huid⟩⟩

/-! ## Runs -/

/-- The ids of contacts are unique and come from a sequence, which is at `n`. -/
structure ContactIds (contacts : List Contact) (n : ℕ) : Prop where
  keyed : Table.Keyed (fun c : Contact => c.id) contacts
  lt : ∀ c ∈ contacts, c.id < n

/-- Every contact that has a Person task is linked to its company. -/
def AllTied (cfg : Config) (t : Tables) (s : ClickUp) : Prop :=
  ∀ c ∈ t.contacts, ∀ taskId ∈ nonEmpty c.clickupTaskId,
    ∃ e ∈ externalId t.toLeadTables c.companyId, Tied cfg s taskId e

/-- The contacts that a merge moves, if it goes through. Others of the duplicate are deleted, since
the primary has their email. -/
def movedBy (E : Env) (s : State) : Event → List Contact
  | .mergeCompanies p d =>
    if h : s.world.tables.Constraints then
      match Dedup.mergeCompanies E.unicode E.contactOrder E.signalOrder p d
          ⟨s.world.tables, h⟩ with
      | .error _ => []
      | .ok _ => Dedup.movedContacts E.unicode E.contactOrder s.world.tables p d
    else []
  | _ => []

/-- No call for a link fails, and no merge moves a contact that has a Person task. -/
def keepsLinks (E : Env) (s : State) (e : Event) : Bool :=
  match providerTurn s e with
  | some (k, _, turn) => ∀ c ∈ s.world.tables.contacts, c.companyId = k →
      turn.faults (.linkPerson c.id) = none ∧ turn.faults (.linkCompany c.id) = none
  | none => ∀ c ∈ movedBy E s e, nonEmpty c.clickupTaskId = none

theorem movedBy_mergeCompanies {s : State} {p d : ℕ} {db db' : Database}
    (h₀ : db.tables = s.world.tables)
    (h : Dedup.mergeCompanies E.unicode E.contactOrder E.signalOrder p d db = .ok db') :
    movedBy E s (.mergeCompanies p d) =
      Dedup.movedContacts E.unicode E.contactOrder db.tables p d := by
  obtain ⟨tables, hvalid⟩ := db
  obtain rfl : tables = s.world.tables := h₀
  simp only [movedBy, dif_pos hvalid, h]

theorem ContactIds.of_ids {contacts' : List Contact} (h : ContactIds contacts n)
    (hids : contacts'.map (fun c => c.id) = contacts.map fun c => c.id) :
    ContactIds contacts' n where
  keyed := h.keyed.of_keys hids
  lt := Table.lt_of_keys h.lt hids

theorem ContactIds.mono {m : ℕ} (h : ContactIds contacts n) (hnm : n ≤ m) :
    ContactIds contacts m :=
  ⟨h.keyed, fun c hc => (h.lt c hc).trans_le hnm⟩

theorem contactIds_finishTurn (E : Env) (cfg : Config) (turn : Turn)
    (commentsTo contactsTo : String) (k : ℕ) (w : World) :
    (finishTurn E cfg turn commentsTo contactsTo k w).tables.contacts.map (fun c => c.id) =
      w.tables.contacts.map fun c => c.id := by
  unfold finishTurn
  refine (pushContacts_keeps (fun w => w.tables.contacts.map fun c => c.id)
    fun w c s => ?_).trans ?_
  · apply Table.keys_map
    exact Table.key_modify fun _ => rfl
  · rw [contacts_postSignals]

theorem ContactIds.takeTurn (h : ContactIds w.tables.contacts n) :
    ContactIds (takeTurn E cfg turn cache w k).tables.contacts n := by
  apply takeTurn_keeps (P := fun w => ContactIds w.tables.contacts n) h
  intro company w' hc hp
  cases hp with
  | updated i s task hi hs => exact h.of_ids (contactIds_finishTurn E cfg turn _ _ _ _)
  | linked task hi hfind => exact h
  | created s task hi hfind hs => exact h.of_ids (contactIds_finishTurn E cfg turn _ _ _ _)

/-- What has become of the contacts after a merge. -/
theorem mergeCompanies_contacts {U : Unicode} {contactOrder : RowOrder Contact}
    {signalOrder : RowOrder SignalRow} {p d : ℕ} {db db' : Database}
    (h : Dedup.mergeCompanies U contactOrder signalOrder p d db = .ok db') :
    ∀ c' ∈ db'.tables.contacts, ∃ c ∈ db.tables.contacts,
      (c' = c ∧ c.companyId ≠ d) ∨
        (c' = { c with companyId := p } ∧
          c ∈ Dedup.movedContacts U contactOrder db.tables p d) := by
  obtain ⟨-, -, -, hrows⟩ := Dedup.mergeCompanies_ok.mp h
  rw [Dedup.mergeRows_tables hrows]
  intro c' hc'
  obtain ⟨hmerged, hleft⟩ := List.mem_filter.mp hc'
  obtain ⟨c, hc, rfl⟩ := List.mem_map.mp (List.mem_filter.mp hmerged).1
  refine ⟨c, hc, ?_⟩
  split
  · next hmoved =>
    right
    refine ⟨rfl, ?_⟩
    -- the ids that are moved are those of rows of the table
    obtain ⟨m, hm, hid⟩ := List.mem_map.mp hmoved
    have hdup : m ∈ contactOrder.arrange (Dedup.contactsOf db.tables d) :=
      Unseen.mem_of_mem_unseen hm
    have hmem := (List.mem_filter.mp ((RowOrder.mem_arrange contactOrder).mp hdup)).1
    have hsame : m = c := List.inj_on_of_nodup_map db.valid.unique.contacts hmem hc hid
    rwa [← hsame]
  · next hstays =>
    left
    refine ⟨rfl, ?_⟩
    rw [if_neg hstays] at hleft
    exact of_decide_eq_true hleft

theorem ContactIds.step {s s' : State} {e : Event}
    (h : ContactIds s.world.tables.contacts s.nextId) (hs : step E cfg legacy s e = some s') :
    ContactIds s'.world.tables.contacts s'.nextId := by
  cases step_move hs with
  | stay hn => exact h.mono hn
  | provider k cache turn hturn => exact h.takeTurn
  | legacy k inBatch turn hturn =>
    dsimp only
    rw [Legacy.contacts_takeTurn]
    exact h
  | cleanup =>
    apply h.of_ids
    apply Table.keys_map
    intro c
    split
    · rfl
    · rfl
  | renameCompany => exact h
  | mergeCompanies h₀ hm =>
    refine ⟨Database.valid _ |>.unique.contacts, fun c' hc' => ?_⟩
    obtain ⟨c, hc, hcase⟩ := mergeCompanies_contacts hm c' hc'
    have hid : c'.id = c.id := by
      rcases hcase with ⟨rfl, -⟩ | ⟨rfl, -⟩
      · rfl
      · rfl
    rw [hid]
    rw [h₀] at hc
    exact h.lt c hc
  | addSignal r hid hr => exact h.mono (Nat.le_succ _)
  | addContact c hid hc =>
    refine ⟨h.keyed.append ?_, Table.lt_append h.lt hid⟩
    rw [hid]
    exact Table.get_of_lt h.lt
  | editTask => exact h
  | deleteTask => exact h

/-- Whatever leaves the contacts and the links of the companies alone. -/
theorem AllTied.of_same {t t' : Tables} (h : AllTied cfg t s)
    (hcontacts : t'.contacts = t.contacts)
    (hext : ∀ k e, externalId t.toLeadTables k = some e → externalId t'.toLeadTables k = some e)
    (hkeeps : Keeps s s') : AllTied cfg t' s' := by
  intro c hc taskId htask
  rw [hcontacts] at hc
  obtain ⟨e, he, htied⟩ := h c hc taskId htask
  exact ⟨e, hext _ e he, htied.keeps hkeeps⟩

/-- A turn of the provider in which no call for a link fails. -/
theorem AllTied.pushed (hcfg : Relates cfg) (hlist : cfg.personListId ≠ "")
    (hkeyed : Table.Keyed (fun c : Contact => c.id) w.tables.contacts)
    (h : AllTied cfg w.tables w.clickup)
    (hlinks : ∀ c ∈ w.tables.contacts, c.companyId = company.id →
      turn.faults (.linkPerson c.id) = none ∧ turn.faults (.linkCompany c.id) = none)
    (hp : Pushed E cfg turn cache w company w') : AllTied cfg w'.tables w'.clickup := by
  have hkeeps : Keeps w.clickup w'.clickup := keeps_of_grows hp.grows
  rcases hp.contactsSettled hcfg hlist hkeyed with ⟨task, -, -, rfl⟩ | ⟨e, he, -, hall⟩
  · exact h.of_same rfl (fun k e => hp.keeps_externalId) hkeeps
  · intro r hr taskId htask
    obtain ⟨c, hc, hid, hcompany, hcase⟩ := hall r hr
    rw [hcompany]
    -- a contact with the task that it had
    have hsame (hkept : r.clickupTaskId = c.clickupTaskId) :
        ∃ e ∈ externalId w'.tables.toLeadTables c.companyId, Tied cfg w'.clickup taskId e := by
      rw [hkept] at htask
      obtain ⟨e, he, htied⟩ := h c hc taskId htask
      exact ⟨e, hp.keeps_externalId he, htied.keeps hkeeps⟩
    rcases hcase with ⟨hk, hsettled⟩ | ⟨-, rfl⟩
    · cases hsettled with
      | lost hnone hfaults =>
        rw [hnone] at htask
        cases htask
      | kept hkept hfind => exact hsame hkept
      | got t hsome hne hold hfind hlinked =>
        rw [hsome, nonEmpty_some hne] at htask
        obtain rfl : t = taskId := Option.some.inj htask
        rw [hk]
        obtain ⟨hperson, hback⟩ := hlinks c hc hk
        exact ⟨e, he, (hlinked hperson hback).tied⟩
    · exact hsame rfl

theorem AllTied.merge {U : Unicode} {contactOrder : RowOrder Contact}
    {signalOrder : RowOrder SignalRow} {p d : ℕ} {db db' : Database}
    (h : AllTied cfg db.tables s)
    (hnone : ∀ c ∈ Dedup.movedContacts U contactOrder db.tables p d,
      nonEmpty c.clickupTaskId = none)
    (hm : Dedup.mergeCompanies U contactOrder signalOrder p d db = .ok db') :
    AllTied cfg db'.tables s := by
  intro c' hc' taskId htask
  obtain ⟨c, hc, hcase⟩ := mergeCompanies_contacts hm c' hc'
  rcases hcase with ⟨rfl, hne⟩ | ⟨rfl, hmoved⟩
  · obtain ⟨e, he, htied⟩ := h c' hc taskId htask
    refine ⟨e, ?_, htied⟩
    unfold externalId LeadTables.integration at *
    rw [(mergeCompanies_leads hm).2, Table.get_remove, if_neg hne]
    exact he
  · -- a contact that is moved has no task
    have hno : nonEmpty c.clickupTaskId = some taskId := htask
    rw [hnone c hmoved] at hno
    cases hno

theorem AllTied.step (hcfg : Relates cfg) (hlist : cfg.personListId ≠ "") {s s' : State}
    {e : Event} (hids : ContactIds s.world.tables.contacts s.nextId)
    (h : AllTied cfg s.world.tables s.world.clickup) (hC : keepsLinks E s e = true)
    (hs : step E cfg legacy s e = some s') : AllTied cfg s'.world.tables s'.world.clickup := by
  cases step_move hs with
  | stay hn => exact h
  | provider k cache turn hturn =>
    unfold keepsLinks at hC
    rw [hturn] at hC
    refine takeTurn_keeps (P := fun w => AllTied cfg w.tables w.clickup) h
      fun company _ hc hp => h.pushed hcfg hlist hids.keyed ?_ hp
    rw [Table.key_of_get hc]
    exact of_decide_eq_true hC
  | legacy k inBatch turn hturn =>
    refine h.of_same Legacy.contacts_takeTurn (fun k e he => ?_)
      (keeps_of_grows Legacy.grows_takeTurn)
    unfold externalId LeadTables.integration at *
    rw [Legacy.integrations_takeTurn]
    exact he
  | cleanup =>
    intro c' hc' taskId htask
    obtain ⟨c, -, rfl⟩ := List.mem_map.mp hc'
    have hnone : nonEmpty (if c.clickupTaskId ≠ none then
        { c with clickupTaskId := none, clickupTaskUrl := none } else c).clickupTaskId = none := by
      split
      · rfl
      · next hc =>
        rw [not_not.mp hc]
        rfl
    have hsome := hnone.symm.trans htask
    cases hsome
  | renameCompany => exact h.of_same rfl (fun _ _ he => he) (keeps_of_grows (.refl _))
  | mergeCompanies h₀ hm =>
    have hmoved := movedBy_mergeCompanies h₀ hm
    rw [← h₀] at h
    refine h.merge ?_ hm
    rw [← hmoved]
    exact of_decide_eq_true hC
  | addSignal r hid hr => exact h
  | addContact c hid hc =>
    intro c' hc' taskId htask
    rcases List.mem_append.mp hc' with hold | hnew
    · exact h c' hold taskId htask
    · rw [List.mem_singleton.mp hnew, hc] at htask
      cases htask
  | editTask => exact h.of_same rfl (fun _ _ he => he) (keeps_editTask _ _ _ _ _)
  | deleteTask => exact h.of_same rfl (fun _ _ he => he) (keeps_deleteTask _ _)

/-- All contacts, after a push from a state in which those with a task are linked. -/
theorem peopleLinked_of_pushed (hpushed : PeoplePushed cfg w w' k)
    (htied : AllTied cfg w'.tables w'.clickup)
    (hfind : ∀ e ∈ externalId w'.tables.toLeadTables k, w'.clickup.find e ≠ none) :
    PeopleLinked cfg w' k := by
  obtain ⟨e, he, hall⟩ := hpushed
  refine ⟨e, he, fun c hc hk => ?_⟩
  obtain ⟨taskId, htask, hin, -⟩ := hall c hc hk
  refine ⟨taskId, htask, ?_⟩
  obtain ⟨e', he', hlink⟩ := htied c hc taskId htask
  rw [hk] at he'
  obtain rfl : e = e' := Option.some.inj (he.symm.trans he')
  exact hlink.linked hin (hfind e he)

/-- `P` holds after every push of a company in which every call succeeds, if the push creates or
updates the company's task. -/
def AfterPush (E : Env) (cfg : Config) (P : World → World → ℕ → Prop) (s : State) : Prop :=
  ∀ turn k w', turn.faults = noFaults → pushCompany E cfg turn s.world k = .ok w' →
    ¬ LinksOnly E cfg turn s.world k → P s.world w' k

theorem afterPush_peoplePushed (hcfg : Relates cfg) (hlist : cfg.personListId ≠ "") {s : State}
    (hids : ContactIds s.world.tables.contacts s.nextId) :
    AfterPush E cfg (PeoplePushed cfg) s := by
  intro turn k w' hturn hok hlinks
  obtain ⟨hsettled, hgrows⟩ := contactsSettled_pushCompany hcfg hlist hids.keyed hok hlinks
  exact peoplePushed_of_settled hturn hids.keyed hsettled hgrows

/-- The push itself keeps what is linked. -/
theorem afterPush_peopleLinked (hcfg : Relates cfg) (hlist : cfg.personListId ≠ "") {s : State}
    (hids : ContactIds s.world.tables.contacts s.nextId)
    (htied : AllTied cfg s.world.tables s.world.clickup) :
    AfterPush E cfg (fun _ w' k => PeopleLinked cfg w' k) s := by
  intro turn k w' hturn hok hlinks
  have hpushed := afterPush_peoplePushed hcfg hlist hids turn k w' hturn hok hlinks
  obtain ⟨company, hc, hp⟩ := pushCompany_ok hok
  have hcalls : ∀ c ∈ s.world.tables.contacts, c.companyId = company.id →
      turn.faults (.linkPerson c.id) = none ∧ turn.faults (.linkCompany c.id) = none := by
    intro c _ _
    rw [hturn]
    exact ⟨rfl, rfl⟩
  have htied' := htied.pushed hcfg hlist hids.keyed hcalls (pushLoaded_ok hp)
  refine peopleLinked_of_pushed hpushed htied' fun e' he' => ?_
  -- the company's task is there
  obtain ⟨⟨e, he, hfind, -⟩, -⟩ := contactsSettled_pushCompany hcfg hlist hids.keyed hok hlinks
  obtain rfl : e = e' := Option.some.inj (he.symm.trans he')
  exact hfind

/-- With a list of people and both relationship fields. -/
def Config.people : Config :=
  { Config.plain with
    personListId := "people"
    contactRelationshipFieldId := "customer"
    companyContactFieldId := "contact" }

theorem relates_people : Relates Config.people := ⟨by decide, by decide⟩

/-- Two companies with a contact of the same email are pushed and merged: the merge deletes the
second contact with its task, and moves one that has none yet. -/
def mergedPeople : List Event :=
  [.addContact 1 "Ann Lee".toList (some "ann@acme.nl".toList),
    .addContact 2 "Ann".toList (some "ann@acme.nl".toList), .pushCompany 1 { now := 1 },
    .pushCompany 2 { now := 2 }, .addContact 2 "Bob".toList none, .mergeCompanies 1 2,
    .pushCompany 1 { now := 3 }]

instance (cfg : Config) (w : World) (k : ℕ) : Decidable (PeopleLinked cfg w k) :=
  inferInstanceAs (Decidable (∃ e ∈ externalId w.tables.toLeadTables k,
    ∀ c ∈ w.tables.contacts, c.companyId = k →
      ∃ taskId ∈ nonEmpty c.clickupTaskId, Linked cfg w.clickup taskId e))

/-- A push of the company `k` from which not all contacts come out linked. -/
def leavesUnlinked (k : ℕ) (s : State) : Bool :=
  match pushCompany Env.plain Config.people { now := 9 } s.world k with
  | .error _ => false
  | .ok w' => ¬ PeopleLinked Config.people w' k

theorem leavesUnlinked_eq_false {k : ℕ} (s : State)
    (h : ∀ turn k w', turn.faults = noFaults →
      pushCompany Env.plain Config.people turn s.world k = .ok w' →
        PeopleLinked Config.people w' k) : leavesUnlinked k s = false := by
  unfold leavesUnlinked
  split
  · rfl
  · next w' hok =>
    have hlinked := h { now := 9 } k w' rfl hok
    rw [decide_eq_false_iff_not]
    exact not_not_intro hlinked

end Crm
end LeadPulse
