import LeadPulse.Database
import LeadPulse.Domain.UrlParse
import LeadPulse.Lib.Paging

/-!
# ClickUp as a store

The tasks and comments of ClickUp and what the calls of `services/api/clickup.py` read and
write there. What ClickUp decides itself (ids, urls, the place of a new task in the listing) is
a `Server`. Any call may fail instead of being answered, then it has no effect (`attempt`).
-/

namespace LeadPulse
namespace Crm

/-! ## Tasks -/

/-- A task as ClickUp keeps it; `related` are the entries of its relationship fields. -/
structure StoredTask where
  id : String
  id_ne : id ≠ ""
  name : List Char
  status : Option String
  url : Option String
  listId : String
  fields : List (String × List Char)
  related : List (String × String)
deriving DecidableEq

/-- `_parse_task`. -/
def StoredTask.parse (t : StoredTask) : ClickUpTask :=
  { id := t.id, name := String.ofList t.name, status := t.status, url := t.url }

def StoredTask.setFields (t : StoredTask) (fields : List (String × List Char)) : StoredTask :=
  { t with fields := fields ++ t.fields.filter fun p => p.1 ∉ fields.map (·.1) }

/-- The value `{"add": [taskId], "rem": []}` for a relationship field. -/
def StoredTask.relate (t : StoredTask) (fieldId taskId : String) : StoredTask :=
  { t with related := (fieldId, taskId) :: t.related }

structure ClickUp where
  /-- in the order in which ClickUp lists them -/
  tasks : List StoredTask
  /-- the ids of the tasks that are gone -/
  deleted : List String
  /-- the comments, each with the signal that its text is about -/
  comments : List (String × ℕ)
  nodup : (tasks.map (·.id)).Nodup
deriving DecidableEq

/-- What ClickUp decides when a task is created. -/
structure Server where
  newId : List String → String
  newId_ne : ∀ used, newId used ≠ ""
  newId_fresh : ∀ used, newId used ∉ used
  url : String → Option String
  place : StoredTask → List StoredTask → List StoredTask
  place_perm : ∀ t tasks, (place t tasks).Perm (t :: tasks)

/-- Each id is longer than all before it, and new tasks come last. -/
def Server.counting : Server where
  newId used := String.ofList (List.replicate ((used.map String.length).sum + 1) 't')
  newId_ne used h := by
    have hlen := congrArg String.length h
    rw [String.length_ofList, List.length_replicate] at hlen
    exact absurd hlen (Nat.succ_ne_zero _)
  newId_fresh used h := by
    have hle := List.le_sum_of_mem (List.mem_map_of_mem (f := String.length) h)
    rw [String.length_ofList, List.length_replicate] at hle
    omega
  url taskId := some ("https://app.clickup.com/t/" ++ taskId)
  place t tasks := tasks ++ [t]
  place_perm t tasks := List.perm_append_singleton t tasks

inductive ApiError where
  /-- `ClickUpNotFoundError` -/
  | notFound
  | failed (message : String)
deriving DecidableEq, Repr

namespace ClickUp

variable {s s' : ClickUp} {S : Server} {t : StoredTask} {taskId fieldId : String}

def find (s : ClickUp) (taskId : String) : Option StoredTask :=
  s.tasks.find? fun t => t.id = taskId

def inList (s : ClickUp) (listId : String) : List StoredTask :=
  s.tasks.filter fun t => t.listId = listId

/-- All ids that have ever been given out. -/
def usedIds (s : ClickUp) : List String := s.tasks.map (·.id) ++ s.deleted

/-- A change of one task. -/
def modify (s : ClickUp) (taskId : String) (f : StoredTask → StoredTask)
    (hf : ∀ t, (f t).id = t.id) : ClickUp where
  tasks := s.tasks.map fun t => if t.id = taskId then f t else t
  deleted := s.deleted
  comments := s.comments
  nodup := by
    have hids : ((s.tasks.map fun t => if t.id = taskId then f t else t).map (·.id)) =
        s.tasks.map (·.id) := by
      rw [List.map_map]
      refine List.map_congr_left fun t _ => ?_
      rw [Function.comp_apply]
      split
      · exact hf t
      · rfl
    rw [hids]
    exact s.nodup

/-! ## Calls -/

def getTask (s : ClickUp) (taskId : String) : Except ApiError ClickUpTask :=
  match s.find taskId with
  | none => .error .notFound
  | some t => .ok t.parse

/-- The first task that ClickUp lists with the value. -/
def findTaskByCustomField (s : ClickUp) (listId fieldId : String) (value : List Char) :
    Option ClickUpTask :=
  ((s.inList listId).find? fun t => (fieldId, value) ∈ t.fields).map (·.parse)

/-- At most 50 pages of 100 tasks. -/
def findTaskByName (U : Unicode) (s : ClickUp) (listId : String) (name : List Char) :
    Option ClickUpTask :=
  (Paging.findInPages 100 (fun t => U.lower t.name = U.lower name) (s.inList listId) 50 0).map
    (·.parse)

/-- `_build_task_name_cache`: all pages of `list_tasks`. -/
def buildTaskNameCache (U : Unicode) (s : ClickUp) (listId : String) :
    List (List Char × StoredTask) :=
  Paging.firstByKey (fun t => U.lower t.name) [] (Paging.allPages 100 (s.inList listId))

def createTask (S : Server) (s : ClickUp) (listId : String) (name : List Char) (status : String)
    (fields : List (String × List Char)) : ClickUp × ClickUpTask :=
  let t : StoredTask :=
    { id := S.newId s.usedIds, id_ne := S.newId_ne s.usedIds, name := name, status := some status,
      url := S.url (S.newId s.usedIds), listId := listId, fields := fields, related := [] }
  ({ s with
      tasks := S.place t s.tasks
      nodup := by
        have hfresh : t.id ∉ s.tasks.map (·.id) := fun h =>
          S.newId_fresh s.usedIds (List.mem_append_left _ h)
        have hperm := (S.place_perm t s.tasks).map (·.id)
        rw [hperm.nodup_iff]
        exact List.nodup_cons.mpr ⟨hfresh, s.nodup⟩ }, t.parse)

/-- The answer is the task after the update. -/
def updateTask (s : ClickUp) (taskId : String) (fields : List (String × List Char)) :
    Except ApiError (ClickUp × ClickUpTask) :=
  match s.find taskId with
  | none => .error .notFound
  | some t => .ok (s.modify taskId (·.setFields fields) fun _ => rfl, (t.setFields fields).parse)

def addComment (s : ClickUp) (taskId : String) (signalId : ℕ) : Except ApiError ClickUp :=
  match s.find taskId with
  | none => .error .notFound
  | some _ => .ok { s with comments := (taskId, signalId) :: s.comments }

/-- `set_custom_field_value` for a relationship field. -/
def setCustomFieldValue (s : ClickUp) (taskId fieldId other : String) : Except ApiError ClickUp :=
  match s.find taskId with
  | none => .error .notFound
  | some _ => .ok (s.modify taskId (·.relate fieldId other) fun _ => rfl)

/-! ## What others do in ClickUp -/

def editTask (s : ClickUp) (taskId : String) (name : List Char) (status : Option String)
    (fields : List (String × List Char)) : ClickUp :=
  s.modify taskId (fun t => { t with name := name, status := status, fields := fields })
    fun _ => rfl

def deleteTask (s : ClickUp) (taskId : String) : ClickUp where
  tasks := s.tasks.filter fun t => t.id ≠ taskId
  deleted := taskId :: s.deleted
  comments := s.comments
  nodup := s.nodup.sublist (List.filter_sublist.map _)

end ClickUp

/-! ## Calls that fail -/

/-- The calls in one turn of a company, each of which is made at most once in the turn. -/
inductive Call where
  | findTaskByCustomField
  | getTask
  | findTaskByName
  | createTask
  | updateTask
  | addComment (signalId : ℕ)
  | findPerson (contactId : ℕ)
  | createPerson (contactId : ℕ)
  | updatePerson (contactId : ℕ)
  | linkPerson (contactId : ℕ)
  | linkCompany (contactId : ℕ)
deriving DecidableEq, Repr

/-- The calls of a turn that fail, with their errors. -/
abbrev Faults := Call → Option ApiError

def noFaults : Faults := fun _ => none

/-- A call that fails has no effect. -/
def attempt {α : Type} (faults : Faults) (call : Call) (answer : Except ApiError α) :
    Except ApiError α :=
  match faults call with
  | some e => .error e
  | none => answer

theorem attempt_ok {α : Type} {faults : Faults} {call : Call} {answer : Except ApiError α}
    {a : α} : attempt faults call answer = .ok a ↔ faults call = none ∧ answer = .ok a := by
  unfold attempt
  cases faults call with
  | none => simp
  | some e => simp

/-- A call that ClickUp answers fails only if it is made to. -/
theorem attempt_error {α : Type} {faults : Faults} {call : Call} {a : α} {e : ApiError}
    (h : attempt faults call (.ok a) = .error e) : faults call = some e := by
  unfold attempt at h
  split at h
  · next e' hcall =>
    rw [hcall]
    exact congrArg some (Except.error.inj h)
  · cases h

@[simp] theorem attempt_noFaults {α : Type} (call : Call) (answer : Except ApiError α) :
    attempt noFaults call answer = answer := rfl

/-! ## What the calls do -/

namespace ClickUp

variable {s s' s'' : ClickUp} {S : Server} {t : StoredTask} {taskId fieldId other : String}
  {listId : String} {name : List Char} {status : String} {task : ClickUpTask}
  {fields : List (String × List Char)}

theorem mem_of_find (h : s.find taskId = some t) : t ∈ s.tasks := List.mem_of_find?_eq_some h

theorem id_of_find (h : s.find taskId = some t) : t.id = taskId := by
  have := List.find?_some h
  simpa using this

theorem find_of_mem (h : t ∈ s.tasks) : s.find t.id = some t := by
  cases hfind : s.find t.id with
  | none =>
    have hnone := List.find?_eq_none.mp hfind t h
    simp at hnone
  | some u =>
    have hid := id_of_find hfind
    rw [List.inj_on_of_nodup_map s.nodup (mem_of_find hfind) h hid]

theorem find_ne_none : s.find taskId ≠ none ↔ ∃ t ∈ s.tasks, t.id = taskId := by
  rw [Option.ne_none_iff_exists']
  constructor
  · rintro ⟨t, ht⟩
    exact ⟨t, mem_of_find ht, id_of_find ht⟩
  · rintro ⟨t, ht, rfl⟩
    exact ⟨t, find_of_mem ht⟩

/-- No two tasks have the same id. -/
theorem eq_of_id {u : StoredTask} (ht : t ∈ s.tasks) (hu : u ∈ s.tasks) (h : t.id = u.id) :
    t = u :=
  List.inj_on_of_nodup_map s.nodup ht hu h

/-- The task that a call creates. -/
theorem createTask_spec (h : s.createTask S listId name status fields = (s', task)) :
    ∃ t : StoredTask, task = t.parse ∧ t.id = S.newId s.usedIds ∧ t.related = [] ∧
      (∀ u, u ∈ s'.tasks ↔ u = t ∨ u ∈ s.tasks) ∧ s'.deleted = s.deleted := by
  cases h
  refine ⟨_, rfl, rfl, rfl, fun u => ?_, rfl⟩
  rw [← List.mem_cons]
  exact (S.place_perm _ s.tasks).mem_iff

/-- The task that a call updates. -/
theorem updateTask_spec (h : s.updateTask taskId fields = .ok (s', task)) :
    ∃ t ∈ s.tasks, t.id = taskId ∧ task = t.parse ∧
      s' = s.modify taskId (·.setFields fields) fun _ => rfl := by
  unfold updateTask at h
  split at h
  · cases h
  · next t ht =>
    cases h
    exact ⟨t, mem_of_find ht, id_of_find ht, rfl, rfl⟩

theorem getTask_spec (h : s.getTask taskId = .ok task) : ∃ t ∈ s.tasks, task = t.parse := by
  unfold getTask at h
  split at h
  · cases h
  · next t ht =>
    cases h
    exact ⟨t, mem_of_find ht, rfl⟩

theorem findTaskByCustomField_spec {value : List Char}
    (h : s.findTaskByCustomField listId fieldId value = some task) :
    ∃ t ∈ s.tasks, task = t.parse := by
  obtain ⟨t, ht, rfl⟩ := Option.map_eq_some_iff.mp h
  exact ⟨t, (List.mem_filter.mp (List.mem_of_find?_eq_some ht)).1, rfl⟩

/-- A search for a name is a search in the first 5,000 tasks of the list. -/
theorem findTaskByName_eq (U : Unicode) (s : ClickUp) (listId : String) (name : List Char) :
    s.findTaskByName U listId name = (((s.inList listId).take 5000).find?
      fun t => U.lower t.name = U.lower name).map (·.parse) := by
  unfold findTaskByName
  rw [Paging.findInPages_eq (by decide), Nat.zero_mul, List.drop_zero]

theorem findTaskByName_spec {U : Unicode} (h : s.findTaskByName U listId name = some task) :
    ∃ t ∈ s.tasks, task = t.parse := by
  rw [findTaskByName_eq] at h
  obtain ⟨t, ht, rfl⟩ := Option.map_eq_some_iff.mp h
  have hmem := List.mem_of_mem_take (List.mem_of_find?_eq_some ht)
  exact ⟨t, (List.mem_filter.mp hmem).1, rfl⟩

/-- Looking a name up in the cache is a search in the whole list, as it was. -/
theorem lookup_buildTaskNameCache (U : Unicode) (s : ClickUp) (listId : String)
    (name : List Char) : (s.buildTaskNameCache U listId).lookup (U.lower name) =
      (s.inList listId).find? fun t => U.lower t.name = U.lower name := by
  unfold buildTaskNameCache
  rw [Paging.allPages_eq (by decide), Paging.lookup_firstByKey]

/-- In a list of up to 5,000 tasks a search for a name and a look in the cache find the same
task, the first one of that name. -/
theorem findTaskByName_eq_lookup (U : Unicode) (s : ClickUp) (listId : String)
    (h : (s.inList listId).length ≤ 5000) (name : List Char) :
    s.findTaskByName U listId name =
      ((s.buildTaskNameCache U listId).lookup (U.lower name)).map (·.parse) := by
  rw [findTaskByName_eq, lookup_buildTaskNameCache, List.take_of_length_le h]

/-- A list with two tasks of the same name up to case. -/
def withNamesakes : ClickUp :=
  let create (s : ClickUp) (name : String) :=
    (s.createTask .counting "companies" name.toList "open" []).1
  create (create (create ⟨[], [], [], by decide⟩ "Globex") "Acme") "ACME"

theorem findTaskByName_eq_lookup_namesakes :
    withNamesakes.findTaskByName .ascii "companies" "acme".toList =
        ((withNamesakes.buildTaskNameCache .ascii "companies").lookup "acme".toList).map (·.parse) ∧
      (withNamesakes.findTaskByName .ascii "companies" "acme".toList).map (·.name) =
        some "Acme" :=
  ⟨findTaskByName_eq_lookup .ascii withNamesakes "companies" (by decide +kernel) "acme".toList,
    by decide +kernel⟩

/-! ## ClickUp only grows -/

/-- Every task is still there, the same to the services, with all its relations, and new tasks
have new ids. -/
structure Grows (s s' : ClickUp) : Prop where
  tasks : ∀ t ∈ s.tasks, ∃ t' ∈ s'.tasks, t'.parse = t.parse ∧ t.related ⊆ t'.related
  deleted : s'.deleted = s.deleted
  fresh : ∀ t' ∈ s'.tasks, (∃ t ∈ s.tasks, t.id = t'.id) ∨ t'.id ∉ s.usedIds

theorem id_of_parse {t' : StoredTask} (h : t'.parse = t.parse) : t'.id = t.id :=
  congrArg ClickUpTask.id h

theorem Grows.refl (s : ClickUp) : Grows s s where
  tasks t ht := ⟨t, ht, rfl, List.Subset.refl _⟩
  deleted := rfl
  fresh t ht := Or.inl ⟨t, ht, rfl⟩

theorem Grows.mem_usedIds (h : Grows s s') (hid : taskId ∈ s.usedIds) : taskId ∈ s'.usedIds := by
  unfold usedIds at *
  rw [List.mem_append] at *
  rcases hid with htask | hdeleted
  · left
    obtain ⟨t, ht, rfl⟩ := List.mem_map.mp htask
    obtain ⟨t', ht', hparse, -⟩ := h.tasks t ht
    exact List.mem_map.mpr ⟨t', ht', id_of_parse hparse⟩
  · right
    rw [h.deleted]
    exact hdeleted

theorem Grows.trans (h : Grows s s') (h' : Grows s' s'') : Grows s s'' where
  tasks t ht := by
    obtain ⟨t', ht', hparse, hrel⟩ := h.tasks t ht
    obtain ⟨t'', ht'', hparse', hrel'⟩ := h'.tasks t' ht'
    exact ⟨t'', ht'', hparse'.trans hparse, List.Subset.trans hrel hrel'⟩
  deleted := h'.deleted.trans h.deleted
  fresh t'' ht'' := by
    rcases h'.fresh t'' ht'' with ⟨t', ht', hid⟩ | hnew
    · rw [← hid]
      exact h.fresh t' ht'
    · exact Or.inr fun hold => hnew (h.mem_usedIds hold)

theorem Grows.find (h : Grows s s') (hfind : s.find taskId ≠ none) : s'.find taskId ≠ none := by
  rw [find_ne_none] at hfind ⊢
  obtain ⟨t, ht, rfl⟩ := hfind
  obtain ⟨t', ht', hparse, -⟩ := h.tasks t ht
  exact ⟨t', ht', id_of_parse hparse⟩

theorem grows_modify {f : StoredTask → StoredTask} (hf : ∀ t, (f t).id = t.id)
    (hparse : ∀ t, (f t).parse = t.parse) (hrel : ∀ t, t.related ⊆ (f t).related) :
    Grows s (s.modify taskId f hf) where
  tasks t ht := by
    refine ⟨if t.id = taskId then f t else t, List.mem_map_of_mem ht, ?_, ?_⟩
    · split
      · exact hparse t
      · rfl
    · split
      · exact hrel t
      · exact List.Subset.refl _
  deleted := rfl
  fresh t' ht' := by
    obtain ⟨t, ht, rfl⟩ := List.mem_map.mp ht'
    left
    refine ⟨t, ht, ?_⟩
    split
    · exact (hf t).symm
    · rfl

theorem grows_createTask (h : s.createTask S listId name status fields = (s', task)) :
    Grows s s' := by
  obtain ⟨new, -, hid, -, hmem, hdeleted⟩ := createTask_spec h
  refine ⟨fun t ht => ⟨t, (hmem t).mpr (Or.inr ht), rfl, List.Subset.refl _⟩, hdeleted, ?_⟩
  intro t ht
  rcases (hmem t).mp ht with rfl | hold
  · right
    rw [hid]
    exact S.newId_fresh s.usedIds
  · exact Or.inl ⟨t, hold, rfl⟩

theorem grows_updateTask (h : s.updateTask taskId fields = .ok (s', task)) : Grows s s' := by
  obtain ⟨-, -, -, -, rfl⟩ := updateTask_spec h
  exact grows_modify _ (fun _ => rfl) fun _ => List.Subset.refl _

theorem addComment_spec {signalId : ℕ} (h : s.addComment taskId signalId = .ok s') :
    s'.tasks = s.tasks ∧ s'.deleted = s.deleted := by
  unfold addComment at h
  split at h
  · cases h
  · cases h
    exact ⟨rfl, rfl⟩

theorem grows_setCustomFieldValue (h : s.setCustomFieldValue taskId fieldId other = .ok s') :
    Grows s s' := by
  unfold setCustomFieldValue at h
  split at h
  · cases h
  · cases h
    exact grows_modify _ (fun _ => rfl) fun _ => List.subset_cons_self _ _

end ClickUp

end Crm
end LeadPulse
