import LeadPulse.Crm.Agreement

/-!
# Person tasks

What `_push_contacts` does for each contact: the Person task that it has afterwards, and the
links between that task and the company's. A contact gets its links in the turn in which it
gets its task (`linked_of_new`); what is linked stays linked.
-/

namespace LeadPulse
namespace Crm

variable {E : Env} {cfg : Config} {turn : Turn} {w w' : World} {s s' : ClickUp}
  {contact : Contact} {taskId fieldId other personTaskId companyTaskId : String} {k : ℕ}

/-! ## Links -/

/-- The Person task and the company's task are linked in both directions. -/
def Linked (cfg : Config) (s : ClickUp) (personTaskId companyTaskId : String) : Prop :=
  (∃ t ∈ s.tasks, t.id = personTaskId ∧
    (cfg.contactRelationshipFieldId, companyTaskId) ∈ t.related) ∧
  ∃ t ∈ s.tasks, t.id = companyTaskId ∧ (cfg.companyContactFieldId, personTaskId) ∈ t.related

instance (cfg : Config) (s : ClickUp) (personTaskId companyTaskId : String) :
    Decidable (Linked cfg s personTaskId companyTaskId) :=
  inferInstanceAs (Decidable (_ ∧ _))

theorem related_grows (h : ClickUp.Grows s s') {p : String × String}
    (hrel : ∃ t ∈ s.tasks, t.id = taskId ∧ p ∈ t.related) :
    ∃ t ∈ s'.tasks, t.id = taskId ∧ p ∈ t.related := by
  obtain ⟨t, ht, hid, hp⟩ := hrel
  obtain ⟨t', ht', hparse, hsub⟩ := h.tasks t ht
  exact ⟨t', ht', (ClickUp.id_of_parse hparse).trans hid, hsub hp⟩

theorem Linked.grows (h : Linked cfg s personTaskId companyTaskId) (hg : ClickUp.Grows s s') :
    Linked cfg s' personTaskId companyTaskId :=
  ⟨related_grows hg h.1, related_grows hg h.2⟩

/-- A relationship field, after a call that succeeds. -/
theorem related_relate {call : Call} (hfield : fieldId ≠ "") (hcall : turn.faults call = none)
    (hfind : s.find taskId ≠ none) :
    ∃ t ∈ (relate turn s call taskId fieldId other).tasks, t.id = taskId ∧
      (fieldId, other) ∈ t.related := by
  obtain ⟨t, ht⟩ := Option.ne_none_iff_exists'.mp hfind
  have hid := ClickUp.id_of_find ht
  have hrelate : relate turn s call taskId fieldId other =
      s.modify taskId (·.relate fieldId other) fun _ => rfl := by
    unfold relate attempt ClickUp.setCustomFieldValue
    rw [if_neg hfield, hcall, ht]
  rw [hrelate]
  refine ⟨t.relate fieldId other, ?_, hid, List.mem_cons_self⟩
  refine List.mem_map.mpr ⟨t, ClickUp.mem_of_find ht, ?_⟩
  rw [if_pos hid]

/-- The two calls, if both succeed. -/
theorem linked_linkPersonToCompany {contactId : ℕ} (hrel : cfg.contactRelationshipFieldId ≠ "")
    (hcontact : cfg.companyContactFieldId ≠ "") (hp : turn.faults (.linkPerson contactId) = none)
    (hc : turn.faults (.linkCompany contactId) = none) (hperson : s.find personTaskId ≠ none)
    (hcompany : s.find companyTaskId ≠ none) :
    Linked cfg (linkPersonToCompany cfg turn s contactId personTaskId companyTaskId) personTaskId
      companyTaskId := by
  unfold linkPersonToCompany
  have hfirst := grows_relate turn s (.linkPerson contactId) personTaskId
    cfg.contactRelationshipFieldId companyTaskId
  constructor
  · exact related_grows (grows_relate turn _ _ _ _ _) (related_relate hrel hp hperson)
  · exact related_relate hcontact hc (hfirst.find hcompany)

/-! ## The first part of a turn -/

/-- The contact has got a task that is in ClickUp. -/
structure Got (contact : Contact) (p : PersonTurn) (t : StoredTask) : Prop where
  contact : p.contact = setTask contact t.parse
  mem : t ∈ p.clickup.tasks
  ok : p.raised = false

theorem createPersonTask_cases (E : Env) (cfg : Config) (turn : Turn) (s : ClickUp)
    (contact : Contact) :
    (turn.faults (.createPerson contact.id) ≠ none ∧
      createPersonTask E cfg turn s contact =
        { clickup := s, contact := contact, raised := true }) ∨
    ∃ t, Got contact (createPersonTask E cfg turn s contact) t := by
  unfold createPersonTask
  cases h : attempt turn.faults (.createPerson contact.id)
      (.ok (s.createTask E.server cfg.personListId contact.name "prospect"
        (buildPersonCustomFields cfg contact))) with
  | error e =>
    left
    rw [attempt_error h]
    exact ⟨Option.some_ne_none e, rfl⟩
  | ok r =>
    obtain ⟨s', task⟩ := r
    obtain ⟨t, rfl, -, -, hmem, -⟩ :=
      ClickUp.createTask_spec (Except.ok.inj (attempt_ok.mp h).2)
    exact Or.inr ⟨t, rfl, (hmem t).mpr (Or.inl rfl), rfl⟩

/-- What has become of a contact's task when the first part of its turn is over. -/
inductive Saved (turn : Turn) (contact : Contact) (p : PersonTurn) : Prop
  /-- it has been updated -/
  | updated (taskId : String) (hid : nonEmpty contact.clickupTaskId = some taskId)
      (hsame : p.contact.clickupTaskId = contact.clickupTaskId)
      (hfind : p.clickup.find taskId ≠ none)
  /-- a call that failed has ended the turn -/
  | raised (hlost : p.contact.clickupTaskId = contact.clickupTaskId ∨
      p.contact.clickupTaskId = none) (h : p.raised = true) (hfaults : turn.faults ≠ noFaults)
  /-- it is created, found by the email, or created again -/
  | got (t : StoredTask) (h : p.contact.clickupTaskId = some t.id) (hmem : t ∈ p.clickup.tasks)
      (hok : p.raised = false)

theorem Saved.of_create {c : Contact} (hc : c.clickupTaskId = contact.clickupTaskId ∨
    c.clickupTaskId = none) : Saved turn contact (createPersonTask E cfg turn s c) := by
  rcases createPersonTask_cases E cfg turn s c with ⟨hcall, heq⟩ | ⟨t, hgot⟩
  · refine .raised ?_ ?_ ?_
    · rw [heq]
      exact hc
    · rw [heq]
    · intro hno
      rw [hno] at hcall
      exact hcall rfl
  · refine .got t ?_ hgot.mem hgot.ok
    rw [hgot.contact]
    rfl

theorem id_createPersonTask (E : Env) (cfg : Config) (turn : Turn) (s : ClickUp)
    (contact : Contact) : (createPersonTask E cfg turn s contact).contact.id = contact.id := by
  rcases createPersonTask_cases E cfg turn s contact with ⟨-, heq⟩ | ⟨t, hgot⟩
  · rw [heq]
  · rw [hgot.contact]
    rfl

theorem savePersonTask_saved (E : Env) (cfg : Config) (turn : Turn) (s : ClickUp)
    (contact : Contact) : Saved turn contact (savePersonTask E cfg turn s contact) := by
  unfold savePersonTask
  split
  · next taskId hid =>
    unfold updatePersonTask
    split
    · next s' task hs =>
      have hcall := (attempt_ok.mp hs).2
      obtain ⟨t, ht, htid, -, -⟩ := ClickUp.updateTask_spec hcall
      refine .updated taskId hid ?_ ?_
      · dsimp only
        split
        · rfl
        · rfl
      · exact (ClickUp.grows_updateTask hcall).find (ClickUp.find_ne_none.mpr ⟨t, ht, htid⟩)
    · exact .of_create (Or.inr rfl)
    · next e hgone hs =>
      refine .raised (Or.inl rfl) rfl fun hno => ?_
      -- the store itself has no other error than 404
      rw [hno, attempt_noFaults] at hs
      unfold ClickUp.updateTask at hs
      split at hs
      · cases hs
        exact hgone rfl
      · cases hs
  · split
    · next e hs =>
      refine .raised (Or.inl rfl) rfl fun hno => ?_
      unfold findExistingPerson at hs
      split at hs
      · cases hs
      · rw [hno] at hs
        cases hs
    · next task hs =>
      unfold findExistingPerson at hs
      split at hs
      · cases hs
      · obtain ⟨t, ht, rfl⟩ :=
          ClickUp.findTaskByCustomField_spec (Except.ok.inj (attempt_ok.mp hs).2)
        exact .got t rfl ht rfl
    · exact .of_create (Or.inl rfl)

theorem id_savePersonTask (E : Env) (cfg : Config) (turn : Turn) (s : ClickUp)
    (contact : Contact) : (savePersonTask E cfg turn s contact).contact.id = contact.id := by
  unfold savePersonTask
  split
  · unfold updatePersonTask
    split
    · dsimp only
      split
      · rfl
      · rfl
    · exact id_createPersonTask E cfg turn s _
    · rfl
  · split
    · rfl
    · rfl
    · exact id_createPersonTask E cfg turn s contact

/-! ## The turn of a contact -/

/-- A value of the column after a contact's turn: the contact has lost its task, has kept it, or
has got another one, which has its links if the two calls succeed. -/
inductive Settled (cfg : Config) (turn : Turn) (companyTaskId : String) (old : Contact)
    (s : ClickUp) (new : Option String) : Prop
  | lost (h : nonEmpty new = none) (hfaults : turn.faults ≠ noFaults)
  | kept (h : new = old.clickupTaskId)
      (hfind : turn.faults = noFaults → ∃ taskId, nonEmpty new = some taskId ∧ s.find taskId ≠ none)
  | got (taskId : String) (h : new = some taskId) (hne : taskId ≠ "")
      (hold : new ≠ old.clickupTaskId) (hfind : s.find taskId ≠ none)
      (hlinked : turn.faults (.linkPerson old.id) = none →
        turn.faults (.linkCompany old.id) = none → Linked cfg s taskId companyTaskId)

/-- Both relationship fields are configured. -/
structure Relates (cfg : Config) : Prop where
  contactRelationship : cfg.contactRelationshipFieldId ≠ ""
  companyContact : cfg.companyContactFieldId ≠ ""

/-- The column of a contact after its turn. -/
theorem settled_pushContact (E : Env) (turn : Turn) (contact : Contact) (hcfg : Relates cfg)
    (hcompany : w.clickup.find companyTaskId ≠ none) :
    Settled cfg turn companyTaskId contact
      (pushContact E cfg turn companyTaskId w contact).clickup
      (savePersonTask E cfg turn w.clickup contact).contact.clickupTaskId := by
  have hsaved := savePersonTask_saved E cfg turn w.clickup contact
  have hgrows := grows_linkIfNew cfg turn companyTaskId contact
    (savePersonTask E cfg turn w.clickup contact)
  show Settled cfg turn companyTaskId contact
    (linkIfNew cfg turn companyTaskId contact (savePersonTask E cfg turn w.clickup contact)) _
  have hcompany' : (savePersonTask E cfg turn w.clickup contact).clickup.find companyTaskId ≠
      none := grows_savePersonTask.find hcompany
  generalize savePersonTask E cfg turn w.clickup contact = p at *
  cases hsaved with
  | updated taskId hid hsame hfind =>
    refine .kept hsame fun _ => ⟨taskId, ?_, hgrows.find hfind⟩
    rw [hsame]
    exact hid
  | raised hlost h hfaults =>
    rcases hlost with hkept | hnone
    · exact .kept hkept fun hno => absurd hno hfaults
    · refine .lost ?_ hfaults
      rw [hnone]
      rfl
  | got t h hmem hok =>
    have hfind : p.clickup.find t.id ≠ none := ClickUp.find_ne_none.mpr ⟨t, hmem, rfl⟩
    have hid : nonEmpty p.contact.clickupTaskId = some t.id := by
      rw [h]
      exact nonEmpty_some t.id_ne
    by_cases hsame : p.contact.clickupTaskId = contact.clickupTaskId
    · exact .kept hsame fun _ => ⟨t.id, hid, hgrows.find hfind⟩
    · refine .got t.id h t.id_ne hsame (hgrows.find hfind) fun hp hc => ?_
      have hlink : linkIfNew cfg turn companyTaskId contact p =
          linkPersonToCompany cfg turn p.clickup contact.id t.id companyTaskId := by
        unfold linkIfNew
        rw [hid]
        dsimp only
        rw [if_pos ⟨hok, h ▸ hsame⟩]
      rw [hlink]
      exact linked_linkPersonToCompany hcfg.contactRelationship hcfg.companyContact hp hc hfind
        hcompany'

theorem Settled.grows {new : Option String} (h : Settled cfg turn companyTaskId contact s new)
    (hg : ClickUp.Grows s s') : Settled cfg turn companyTaskId contact s' new := by
  cases h with
  | lost h hfaults => exact .lost h hfaults
  | kept h hfind =>
    refine .kept h fun hno => ?_
    obtain ⟨taskId, hid, hin⟩ := hfind hno
    exact ⟨taskId, hid, hg.find hin⟩
  | got taskId h hne hold hfind hlinked =>
    exact .got taskId h hne hold (hg.find hfind) fun hp hc => (hlinked hp hc).grows hg

/-! ## The loop -/

/-- The row of a contact with the columns that a turn of the contact `id` leaves. -/
def writeTask (id : ℕ) (taskId url : Option String) (c : Contact) : Contact :=
  if c.id = id then { c with clickupTaskId := taskId, clickupTaskUrl := url } else c

theorem id_writeTask (id : ℕ) (taskId url : Option String) (c : Contact) :
    (writeTask id taskId url c).id = c.id ∧
      (writeTask id taskId url c).companyId = c.companyId := by
  unfold writeTask
  split
  · exact ⟨rfl, rfl⟩
  · exact ⟨rfl, rfl⟩

theorem contacts_pushContact (E : Env) (cfg : Config) (turn : Turn) (companyTaskId : String)
    (w : World) (contact : Contact) :
    (pushContact E cfg turn companyTaskId w contact).tables.contacts =
      w.tables.contacts.map (writeTask contact.id
        (savePersonTask E cfg turn w.clickup contact).contact.clickupTaskId
        (savePersonTask E cfg turn w.clickup contact).contact.clickupTaskUrl) := by
  unfold pushContact World.saveContact
  dsimp only
  rw [id_savePersonTask]
  rfl

/-- After the loop over some of the contacts, each of them is settled and the others are as they
were. -/
theorem foldl_pushContact (hcfg : Relates cfg) (rows : List Contact) (w : World)
    (hkeyed : Table.Keyed (fun c : Contact => c.id) w.tables.contacts)
    (hnodup : (rows.map fun c => c.id).Nodup) (hmem : ∀ c ∈ rows, c ∈ w.tables.contacts)
    (hcompany : w.clickup.find companyTaskId ≠ none) :
    ∀ r ∈ (rows.foldl (pushContact E cfg turn companyTaskId) w).tables.contacts,
      ∃ c ∈ w.tables.contacts, r.id = c.id ∧ r.companyId = c.companyId ∧
        ((c ∈ rows ∧ Settled cfg turn companyTaskId c
            (rows.foldl (pushContact E cfg turn companyTaskId) w).clickup r.clickupTaskId) ∨
          (c ∉ rows ∧ r = c)) := by
  induction rows generalizing w with
  | nil => exact fun r hr => ⟨r, hr, rfl, rfl, Or.inr ⟨List.not_mem_nil, rfl⟩⟩
  | cons c₀ rows ih =>
    obtain ⟨hnot, hrest⟩ := List.nodup_cons.mp hnodup
    have hc₀ := hmem c₀ List.mem_cons_self
    have hsettled := settled_pushContact E turn c₀ hcfg hcompany
    have hcontacts := contacts_pushContact E cfg turn companyTaskId w c₀
    have hother {c : Contact} (hc : c ∈ rows) : c.id ≠ c₀.id := fun he =>
      hnot (List.mem_map.mpr ⟨c, hc, he⟩)
    intro r hr
    rw [List.foldl_cons] at hr ⊢
    obtain ⟨c₁, hc₁, hid₁, hcompany₁, hcase⟩ := ih (pushContact E cfg turn companyTaskId w c₀)
      (by rw [hcontacts]; exact hkeyed.map fun c => (id_writeTask _ _ _ c).1) hrest
      (by
        intro c hc
        rw [hcontacts]
        refine List.mem_map.mpr ⟨c, hmem c (List.mem_cons_of_mem _ hc), ?_⟩
        unfold writeTask
        rw [if_neg (hother hc)])
      ((grows_pushContact w c₀).find hcompany) r hr
    rw [hcontacts] at hc₁
    obtain ⟨c, hc, rfl⟩ := List.mem_map.mp hc₁
    rw [(id_writeTask _ _ _ c).1] at hid₁
    rw [(id_writeTask _ _ _ c).2] at hcompany₁
    refine ⟨c, hc, hid₁, hcompany₁, ?_⟩
    by_cases he : c.id = c₀.id
    · -- the contact of this turn, which the later turns leave alone
      obtain rfl : c = c₀ := List.inj_on_of_nodup_map hkeyed hc hc₀ he
      rcases hcase with ⟨hin, -⟩ | ⟨-, rfl⟩
      · exact absurd (id_writeTask _ _ _ c).1 (hother hin)
      · refine Or.inl ⟨List.mem_cons_self, ?_⟩
        unfold writeTask
        rw [if_pos rfl]
        exact hsettled.grows (grows_foldl_pushContact rows _)
    · have hsame {taskId url : Option String} : writeTask c₀.id taskId url c = c := by
        unfold writeTask
        rw [if_neg he]
      rw [hsame] at hcase
      rcases hcase with ⟨hin, hdone⟩ | ⟨hout, heq⟩
      · exact Or.inl ⟨List.mem_cons_of_mem _ hin, hdone⟩
      · refine Or.inr ⟨fun hin => ?_, heq⟩
        rcases List.mem_cons.mp hin with rfl | hrows
        · exact he rfl
        · exact hout hrows

/-- What `_push_contacts` leaves of each contact. -/
theorem contacts_pushContacts (E : Env) (turn : Turn) (k : ℕ) (hcfg : Relates cfg)
    (hlist : cfg.personListId ≠ "")
    (hkeyed : Table.Keyed (fun c : Contact => c.id) w.tables.contacts)
    (hcompany : w.clickup.find companyTaskId ≠ none) :
    ∀ r ∈ (pushContacts E cfg turn companyTaskId k w).tables.contacts,
      ∃ c ∈ w.tables.contacts, r.id = c.id ∧ r.companyId = c.companyId ∧
        ((c.companyId = k ∧ Settled cfg turn companyTaskId c
            (pushContacts E cfg turn companyTaskId k w).clickup r.clickupTaskId) ∨
          (c.companyId ≠ k ∧ r = c)) := by
  have hrows (c : Contact) :
      c ∈ E.contactOrder.arrange (w.tables.contacts.filter fun c => c.companyId = k) ↔
        c ∈ w.tables.contacts ∧ c.companyId = k := by
    rw [RowOrder.mem_arrange, List.mem_filter, decide_eq_true_eq]
  have hnodup : ((E.contactOrder.arrange (w.tables.contacts.filter fun c =>
      c.companyId = k)).map fun c => c.id).Nodup := by
    rw [((E.contactOrder.perm _).map _).nodup_iff]
    exact hkeyed.sublist (List.filter_sublist.map _)
  unfold pushContacts
  rw [if_neg hlist]
  intro r hr
  obtain ⟨c, hc, hid, hcomp, hcase⟩ := foldl_pushContact hcfg _ w hkeyed hnodup
    (fun c hc => ((hrows c).mp hc).1) hcompany r hr
  refine ⟨c, hc, hid, hcomp, ?_⟩
  rcases hcase with ⟨hin, hdone⟩ | ⟨hout, heq⟩
  · exact Or.inl ⟨((hrows c).mp hin).2, hdone⟩
  · exact Or.inr ⟨fun hk => hout ((hrows c).mpr ⟨hc, hk⟩), heq⟩

end Crm
end LeadPulse
