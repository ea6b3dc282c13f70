import LeadPulse.Dedup.Conserves
import LeadPulse.Dedup.Scan
import LeadPulse.Lib.Raises

/-!
# What a scan for duplicates returns

* `Grouping` says what the groups of a scan are worth: they are disjoint, their members are
  linked to their anchor, no two companies of one domain are apart, and what is left over are
  companies that `find_similar_companies` does not report to each other.
* A scan calls `normalize_domain` for every company. One stored domain for which it raises, and
  there are no groups at all, `bracketCompany_not_scanned`.
* Phase 1 is described through the sorted buckets of `Lib/Buckets`, phase 2 by what its inner
  loop collects (`similarTo_eq`): the remaining companies that are close to the anchor.
-/

namespace LeadPulse
namespace Dedup

open Domain

variable {U : Unicode} {R : TokenSortRatio} {grouped : List ℕ} {a b c c' : Company}
  {rest companies : List Company} {m : DuplicateGroupMember} {g : DuplicateGroup}

/-- The names of the two are similar enough. -/
def Similar (U : Unicode) (R : TokenSortRatio) (a b : Company) : Prop :=
  nameSimilarityThreshold ≤ companyNameSimilarity U R a.name b.name

instance : Decidable (Similar U R a b) :=
  inferInstanceAs (Decidable (nameSimilarityThreshold ≤ _))

theorem Similar.symm (h : Similar U R a b) : Similar U R b a := by
  unfold Similar companyNameSimilarity at *
  rw [R.symm]
  exact h

/-- The ids of the companies in groups. -/
def memberIds (groups : List DuplicateGroup) : List ℕ := groups.flatten.map (·.companyId)

/-- A grouping of the companies of a database. -/
structure Grouping (U : Unicode) (R : TokenSortRatio) (db : Database)
    (groups : List DuplicateGroup) : Prop where
  /-- No company is in two groups, or twice in one. -/
  disjoint : (memberIds groups).Nodup
  two : ∀ g ∈ groups, 2 ≤ g.length
  members : ∀ g ∈ groups, ∀ m ∈ g, ∃ c ∈ nonArchived db.tables.companies,
    m.companyId = c.id ∧ m.name = c.name ∧ m.domain = c.domain
  linked : ∀ anchor others, anchor :: others ∈ groups → ∀ m ∈ others,
    normalizeDomain U m.domain = normalizeDomain U anchor.domain ∨
      nameSimilarityThreshold ≤ companyNameSimilarity U R anchor.name m.name
  sameDomain : ∀ c ∈ nonArchived db.tables.companies, ∀ c' ∈ nonArchived db.tables.companies,
    c ≠ c' → normalizeDomain U c.domain = normalizeDomain U c'.domain →
      ∃ g ∈ groups, c.id ∈ g.map (·.companyId) ∧ c'.id ∈ g.map (·.companyId)
  complete : ∀ c ∈ nonArchived db.tables.companies, ∀ c' ∈ nonArchived db.tables.companies,
    c ≠ c' → c.id ∉ memberIds groups → c'.id ∉ memberIds groups → ∀ order,
      ∃ ms, findSimilarCompanies U R order db c.name c.domain = .ok ms ∧
        ∀ m ∈ ms, m.companyId ≠ c'.id

/-! ## Groups -/

theorem ids_duplicateGroup (domainMatch : Bool) (a : Company) (others : List Company) :
    (duplicateGroup U R domainMatch a others).map (·.companyId) = (a :: others).map (·.id) := by
  simp only [duplicateGroup, List.map_cons, anchorMember, List.map_map]
  rfl

theorem memberIds_cons (g : DuplicateGroup) (groups : List DuplicateGroup) :
    memberIds (g :: groups) = g.map (·.companyId) ++ memberIds groups := by
  unfold memberIds
  rw [List.flatten_cons, List.map_append]

theorem memberIds_append (groups groups' : List DuplicateGroup) :
    memberIds (groups ++ groups') = memberIds groups ++ memberIds groups' := by
  unfold memberIds
  rw [List.flatten_append, List.map_append]

/-- A group of companies that are linked to the first of them. -/
structure Linked (U : Unicode) (R : TokenSortRatio) (companies : List Company)
    (g : DuplicateGroup) (domainMatch : Bool) (anchor : Company) (others : List Company) :
    Prop where
  eq : g = duplicateGroup U R domainMatch anchor others
  others_ne : others ≠ []
  subset : ∀ c ∈ anchor :: others, c ∈ companies
  link : ∀ c ∈ others, normalizeDomain U c.domain = normalizeDomain U anchor.domain ∨
    Similar U R anchor c

theorem Linked.two {domainMatch : Bool} {others : List Company}
    (h : Linked U R companies g domainMatch a others) : 2 ≤ g.length := by
  have hpos := List.length_pos_iff.mpr h.others_ne
  rw [h.eq, duplicateGroup, List.length_cons, List.length_map]
  omega

theorem Linked.members {domainMatch : Bool} {others : List Company}
    (h : Linked U R companies g domainMatch a others) (hm : m ∈ g) :
    ∃ c ∈ companies, m.companyId = c.id ∧ m.name = c.name ∧ m.domain = c.domain := by
  rw [h.eq, duplicateGroup, List.mem_cons] at hm
  rcases hm with rfl | hm
  · exact ⟨a, h.subset a List.mem_cons_self, rfl, rfl, rfl⟩
  · obtain ⟨c, hc, rfl⟩ := List.mem_map.mp hm
    exact ⟨c, h.subset c (List.mem_cons_of_mem a hc), rfl, rfl, rfl⟩

theorem Linked.linked {domainMatch : Bool} {others : List Company}
    {anchor : DuplicateGroupMember} {ms : List DuplicateGroupMember}
    (h : Linked U R companies (anchor :: ms) domainMatch a others) (hm : m ∈ ms) :
    normalizeDomain U m.domain = normalizeDomain U anchor.domain ∨
      nameSimilarityThreshold ≤ companyNameSimilarity U R anchor.name m.name := by
  obtain ⟨rfl, rfl⟩ := List.cons.inj h.eq
  obtain ⟨c, hc, rfl⟩ := List.mem_map.mp hm
  exact h.link c hc

/-! ## Phase 1 -/

/-- The normal form of a company's domain, for companies that have one. -/
def normOf (U : Unicode) (c : Company) : List Char :=
  (normalizeDomain U c.domain).toOption.getD []

theorem normOf_eq {norm : List Char} (h : normalizeDomain U c.domain = .ok norm) :
    normOf U c = norm := by
  unfold normOf
  rw [h]
  rfl

theorem domainBuckets_sorted {buckets buckets' : List (List Char × List Company)}
    {done : List Company} (hs : Buckets.Sorted (normOf U) done buckets)
    (h : domainBuckets U buckets companies = .ok buckets') :
    Buckets.Sorted (normOf U) (done ++ companies) buckets' ∧
      ∀ c ∈ companies, normalizeDomain U c.domain = .ok (normOf U c) := by
  induction companies generalizing buckets done with
  | nil =>
    cases h
    rw [List.append_nil]
    exact ⟨hs, fun c hc => by cases hc⟩
  | cons c companies ih =>
    rw [domainBuckets] at h
    cases hnorm : normalizeDomain U c.domain with
    | error e =>
      rw [hnorm] at h
      cases h
    | ok norm =>
      rw [hnorm] at h
      have hkey := normOf_eq hnorm
      obtain ⟨hsorted, hall⟩ := ih (Buckets.sorted_put hs hkey) h
      rw [List.append_assoc, List.singleton_append] at hsorted
      refine ⟨hsorted, fun c' hc' => ?_⟩
      rcases List.mem_cons.mp hc' with rfl | hc'
      · rw [hkey]
        exact hnorm
      · exact hall c' hc'

/-- The loop of phase 1 gets to its end if no domain raises. -/
theorem domainBuckets_ok (buckets : List (List Char × List Company))
    (h : ∀ c ∈ companies, ∃ norm, normalizeDomain U c.domain = .ok norm) :
    ∃ buckets', domainBuckets U buckets companies = .ok buckets' := by
  induction companies generalizing buckets with
  | nil => exact ⟨buckets, rfl⟩
  | cons c companies ih =>
    obtain ⟨norm, hnorm⟩ := h c List.mem_cons_self
    rw [domainBuckets, hnorm]
    exact ih _ fun c' hc' => h c' (List.mem_cons_of_mem c hc')

section

variable {buckets : List (List Char × List Company)}

/-- The groups of phase 1 are the buckets with more than one company. -/
theorem mem_groupByDomain : g ∈ (groupByDomain U R buckets).2 ↔
    ∃ k anchor other others, (k, anchor :: other :: others) ∈ buckets ∧
      g = duplicateGroup U R true anchor (other :: others) := by
  induction buckets with
  | nil => simp [groupByDomain]
  | cons p buckets ih =>
    obtain ⟨k, b⟩ := p
    rcases b with _ | ⟨anchor, _ | ⟨other, others⟩⟩
    · simpa [groupByDomain] using ih
    · simpa [groupByDomain] using ih
    · simp only [groupByDomain, List.mem_cons, ih]
      constructor
      · rintro (rfl | ⟨k', x, y, zs, hmem, rfl⟩)
        · exact ⟨k, anchor, other, others, Or.inl rfl, rfl⟩
        · exact ⟨k', x, y, zs, Or.inr hmem, rfl⟩
      · rintro ⟨k', x, y, zs, hmem, rfl⟩
        rcases hmem with heq | hmem
        · cases heq
          exact Or.inl rfl
        · exact Or.inr ⟨k', x, y, zs, hmem, rfl⟩

/-- `grouped` is the set of the members. -/
theorem grouped_groupByDomain :
    (groupByDomain U R buckets).1 = memberIds (groupByDomain U R buckets).2 := by
  induction buckets with
  | nil => rfl
  | cons p buckets ih =>
    obtain ⟨k, b⟩ := p
    rcases b with _ | ⟨anchor, _ | ⟨other, others⟩⟩
    · exact ih
    · exact ih
    · simp only [groupByDomain, memberIds_cons, ids_duplicateGroup, ih]

theorem sublist_groupByDomain : (memberIds (groupByDomain U R buckets).2).Sublist
    ((buckets.flatMap Prod.snd).map (·.id)) := by
  induction buckets with
  | nil => exact List.Sublist.refl []
  | cons p buckets ih =>
    obtain ⟨k, b⟩ := p
    rw [List.flatMap_cons, List.map_append]
    rcases b with _ | ⟨anchor, _ | ⟨other, others⟩⟩
    · exact ih
    · exact ih.trans (List.sublist_append_right _ _)
    · simp only [groupByDomain, memberIds_cons, ids_duplicateGroup]
      exact ih.append_left _

theorem linked_groupByDomain (hs : Buckets.Sorted (normOf U) companies buckets)
    (hnorm : ∀ c ∈ companies, normalizeDomain U c.domain = .ok (normOf U c))
    (hg : g ∈ (groupByDomain U R buckets).2) :
    ∃ domainMatch anchor others, Linked U R companies g domainMatch anchor others := by
  obtain ⟨k, anchor, other, others, hmem, rfl⟩ := mem_groupByDomain.mp hg
  have hsub : ∀ c ∈ anchor :: other :: others, c ∈ companies := fun c hc =>
    hs.perm.mem_iff.mp (List.mem_flatMap.mpr ⟨_, hmem, hc⟩)
  have hkey := hs.key_eq k _ hmem
  refine ⟨true, anchor, other :: others, rfl, List.cons_ne_nil _ _, hsub, fun c hc => Or.inl ?_⟩
  have hc' := List.mem_cons_of_mem anchor hc
  rw [hnorm c (hsub c hc'), hnorm anchor (hsub anchor List.mem_cons_self), hkey c hc',
    hkey anchor List.mem_cons_self]

/-- Companies of one domain are in one group. -/
theorem sameDomain_groupByDomain (hs : Buckets.Sorted (normOf U) companies buckets)
    (hc : c ∈ companies) (hc' : c' ∈ companies) (hne : c ≠ c') (hkey : normOf U c = normOf U c') :
    ∃ g ∈ (groupByDomain U R buckets).2,
      c.id ∈ g.map (·.companyId) ∧ c'.id ∈ g.map (·.companyId) := by
  obtain ⟨b, hb, hcb, hcb'⟩ := hs.same_bucket hc hc' hkey
  -- a bucket with two companies is a group
  rcases b with _ | ⟨anchor, _ | ⟨other, others⟩⟩
  · cases hcb
  · rw [List.mem_singleton] at hcb hcb'
    exact absurd (hcb.trans hcb'.symm) hne
  · refine ⟨_, mem_groupByDomain.mpr ⟨_, anchor, other, others, hb, rfl⟩, ?_⟩
    rw [ids_duplicateGroup]
    exact ⟨List.mem_map_of_mem hcb, List.mem_map_of_mem hcb'⟩

end

/-! ## Phase 2 -/

theorem id_ne_of_nodup (hnodup : ((a :: rest).map (·.id)).Nodup) (hb : b ∈ rest) : b.id ≠ a.id := by
  intro h
  have hmem : b.id ∈ rest.map (·.id) := List.mem_map_of_mem hb
  rw [h] at hmem
  exact (List.nodup_cons.mp hnodup).1 hmem

/-- The inner loop collects the companies that are similar to the anchor and not grouped yet,
and adds them to `grouped`. -/
theorem similarTo_eq (U : Unicode) (R : TokenSortRatio) (a : Company) (grouped : List ℕ)
    (hnodup : (rest.map (·.id)).Nodup) :
    (similarTo U R a grouped rest).2 = rest.filter (fun b => b.id ∉ grouped ∧ Similar U R a b) ∧
      ∀ k, k ∈ (similarTo U R a grouped rest).1 ↔
        k ∈ grouped ∨ k ∈ (similarTo U R a grouped rest).2.map (·.id) := by
  induction rest generalizing grouped with
  | nil => simp [similarTo]
  | cons b rest ih =>
    have hrest := (List.nodup_cons.mp hnodup).2
    by_cases hb : b.id ∈ grouped
    · simp only [similarTo, if_pos hb]
      rw [List.filter_cons_of_neg (by simp [hb])]
      exact ih grouped hrest
    · by_cases hsim : Similar U R a b
      · have hsim' := hsim
        unfold Similar at hsim'
        simp only [similarTo, if_neg hb, if_pos hsim']
        obtain ⟨hmembers, hgrouped⟩ := ih (b.id :: grouped) hrest
        rw [List.filter_cons_of_pos (by simp [hb, hsim])]
        constructor
        · rw [hmembers]
          congr 1
          refine List.filter_congr fun c hc => ?_
          -- the id that has been added is no other company's
          have hne := id_ne_of_nodup hnodup hc
          simp [hne]
        · intro k
          rw [hgrouped, List.map_cons, List.mem_cons, List.mem_cons]
          rw [or_assoc, or_left_comm]
      · have hsim' := hsim
        unfold Similar at hsim'
        simp only [similarTo, if_neg hb, if_neg hsim']
        rw [List.filter_cons_of_neg (by simp [hsim])]
        exact ih grouped hrest

theorem similarTo_nil (U : Unicode) (R : TokenSortRatio) (a : Company) (grouped : List ℕ)
    (rest : List Company) (h : (similarTo U R a grouped rest).2 = []) :
    (similarTo U R a grouped rest).1 = grouped := by
  induction rest with
  | nil => rfl
  | cons b rest ih =>
    rw [similarTo] at h ⊢
    split_ifs at h ⊢
    · exact ih h
    · exact ih h

/-- A turn of the outer loop. -/
theorem groupByName_cons (U : Unicode) (R : TokenSortRatio) (grouped : List ℕ) (a : Company)
    (rest : List Company) (hnodup : (rest.map (·.id)).Nodup) :
    (groupByName U R grouped (a :: rest) = groupByName U R grouped rest ∧
      (a.id ∉ grouped → ∀ b ∈ rest, b.id ∉ grouped → ¬ Similar U R a b)) ∨
    ∃ others grouped', a.id ∉ grouped ∧ others ≠ [] ∧
      others = rest.filter (fun b => b.id ∉ grouped ∧ Similar U R a b) ∧
      (∀ k, k ∈ grouped' ↔ k = a.id ∨ k ∈ grouped ∨ k ∈ others.map (·.id)) ∧
      groupByName U R grouped (a :: rest) =
        duplicateGroup U R false a others :: groupByName U R grouped' rest := by
  obtain ⟨hothers, hgrouped⟩ := similarTo_eq U R a grouped hnodup
  by_cases ha : a.id ∈ grouped
  · left
    rw [groupByName, if_pos ha]
    exact ⟨rfl, fun h => absurd ha h⟩
  · rw [groupByName, if_neg ha]
    have hnil := similarTo_nil U R a grouped rest
    generalize similarTo U R a grouped rest = result at hothers hgrouped hnil ⊢
    obtain ⟨grouped', others⟩ := result
    cases others with
    | nil =>
      left
      obtain rfl : grouped' = grouped := hnil rfl
      refine ⟨rfl, fun _ b hb hbg hsim => ?_⟩
      have hmem : b ∈ rest.filter fun b => b.id ∉ grouped' ∧ Similar U R a b :=
        List.mem_filter.mpr ⟨hb, decide_eq_true ⟨hbg, hsim⟩⟩
      rw [← hothers] at hmem
      cases hmem
    | cons b others =>
      right
      refine ⟨b :: others, a.id :: grouped', ha, List.cons_ne_nil b others, hothers,
        fun k => ?_, rfl⟩
      rw [List.mem_cons, hgrouped]

theorem mem_similar {others : List Company}
    (hothers : others = rest.filter (fun b => b.id ∉ grouped ∧ Similar U R a b)) (hb : b ∈ others) :
    b ∈ rest ∧ b.id ∉ grouped ∧ Similar U R a b := by
  rw [hothers] at hb
  obtain ⟨hmem, hcond⟩ := List.mem_filter.mp hb
  exact ⟨hmem, of_decide_eq_true hcond⟩

/-- The groups of phase 2 are links between companies that were not grouped before. -/
theorem linked_groupByName (hnodup : (companies.map (·.id)).Nodup)
    (hg : g ∈ groupByName U R grouped companies) :
    ∃ anchor others, Linked U R companies g false anchor others ∧
      ∀ c ∈ anchor :: others, c.id ∉ grouped := by
  induction companies generalizing grouped with
  | nil => cases hg
  | cons a rest ih =>
    have hrest := (List.nodup_cons.mp hnodup).2
    have htail {grouped' : List ℕ} (hsub : ∀ k, k ∉ grouped' → k ∉ grouped)
        (h : g ∈ groupByName U R grouped' rest) : ∃ anchor others,
        Linked U R (a :: rest) g false anchor others ∧ ∀ c ∈ anchor :: others, c.id ∉ grouped := by
      obtain ⟨anchor, others, hl, hnew⟩ := ih hrest h
      exact ⟨anchor, others,
        { hl with subset := fun c hc => List.mem_cons_of_mem a (hl.subset c hc) },
        fun c hc => hsub _ (hnew c hc)⟩
    rcases groupByName_cons U R grouped a rest hrest with
      ⟨heq, -⟩ | ⟨others, grouped', ha, hne, hothers, hgrouped, heq⟩
    · rw [heq] at hg
      exact htail (fun k hk => hk) hg
    · rw [heq, List.mem_cons] at hg
      rcases hg with rfl | hg
      · refine ⟨a, others, ⟨rfl, hne, fun c hc => ?_, fun c hc => ?_⟩, fun c hc => ?_⟩
        · rcases List.mem_cons.mp hc with rfl | hc
          · exact List.mem_cons_self
          · exact List.mem_cons_of_mem a (mem_similar hothers hc).1
        · exact Or.inr (mem_similar hothers hc).2.2
        · rcases List.mem_cons.mp hc with rfl | hc
          · exact ha
          · exact (mem_similar hothers hc).2.1
      · exact htail (fun k hk hkg => hk ((hgrouped k).mpr (Or.inr (Or.inl hkg)))) hg

/-- The ids of phase 2 are ids of companies that were not grouped before. -/
theorem mem_memberIds_groupByName (hnodup : (companies.map (·.id)).Nodup) {k : ℕ}
    (hk : k ∈ memberIds (groupByName U R grouped companies)) :
    k ∈ companies.map (·.id) ∧ k ∉ grouped := by
  obtain ⟨m, hm, rfl⟩ := List.mem_map.mp hk
  obtain ⟨g, hg, hmg⟩ := List.mem_flatten.mp hm
  obtain ⟨anchor, others, hl, hnew⟩ := linked_groupByName hnodup hg
  have hmem : m.companyId ∈ (anchor :: others).map (·.id) := by
    rw [← ids_duplicateGroup (U := U) (R := R) false anchor others, ← hl.eq]
    exact List.mem_map_of_mem hmg
  obtain ⟨c, hc, hid⟩ := List.mem_map.mp hmem
  rw [← hid]
  exact ⟨List.mem_map_of_mem (hl.subset c hc), hnew c hc⟩

theorem nodup_groupByName (hnodup : (companies.map (·.id)).Nodup) :
    (memberIds (groupByName U R grouped companies)).Nodup := by
  induction companies generalizing grouped with
  | nil => exact List.nodup_nil
  | cons a rest ih =>
    have hrest := (List.nodup_cons.mp hnodup).2
    rcases groupByName_cons U R grouped a rest hrest with
      ⟨heq, -⟩ | ⟨others, grouped', -, -, hothers, hgrouped, heq⟩
    · rw [heq]
      exact ih hrest
    · rw [heq, memberIds_cons, ids_duplicateGroup, List.nodup_append]
      refine ⟨?_, ih hrest, fun k hk k' hk' => ?_⟩
      · rw [hothers]
        exact hnodup.sublist ((List.filter_sublist.cons_cons a).map _)
      · -- what has been grouped now is not grouped again
        rintro rfl
        refine (mem_memberIds_groupByName hrest hk').2 ((hgrouped k).mpr ?_)
        rw [List.map_cons, List.mem_cons] at hk
        exact hk.imp_right Or.inr

/-- Companies that phase 2 leaves over are not similar. -/
theorem not_similar_of_left (hnodup : (companies.map (·.id)).Nodup) (hc : c ∈ companies)
    (hc' : c' ∈ companies) (hne : c ≠ c') (hcg : c.id ∉ grouped) (hcg' : c'.id ∉ grouped)
    (hleft : c.id ∉ memberIds (groupByName U R grouped companies))
    (hleft' : c'.id ∉ memberIds (groupByName U R grouped companies)) : ¬ Similar U R c c' := by
  induction companies generalizing grouped with
  | nil => cases hc
  | cons a rest ih =>
    have hrest := (List.nodup_cons.mp hnodup).2
    rcases groupByName_cons U R grouped a rest hrest with
      ⟨heq, hnone⟩ | ⟨others, grouped', ha, -, hothers, hgrouped, heq⟩
    · rw [heq] at hleft hleft'
      rcases List.mem_cons.mp hc with rfl | hmem
      · exact hnone hcg c' ((List.mem_cons.mp hc').resolve_left hne.symm) hcg'
      · rcases List.mem_cons.mp hc' with rfl | hmem'
        · exact fun h => hnone hcg' c hmem hcg h.symm
        · exact ih hrest hmem hmem' hcg hcg' hleft hleft'
    · rw [heq, memberIds_cons, ids_duplicateGroup, List.mem_append, not_or] at hleft hleft'
      -- neither is in the group that has been made
      have hnot {b : Company} (hb : b ∈ a :: rest) (hbg : b.id ∉ grouped)
          (hleft : b.id ∉ (a :: others).map (·.id)) : b ∈ rest ∧ b.id ∉ grouped' := by
        rw [List.map_cons, List.mem_cons, not_or] at hleft
        refine ⟨(List.mem_cons.mp hb).resolve_left fun h => hleft.1 (by rw [h]), ?_⟩
        rw [hgrouped, not_or, not_or]
        exact ⟨hleft.1, hbg, hleft.2⟩
      obtain ⟨hmem, hnew⟩ := hnot hc hcg hleft.1
      obtain ⟨hmem', hnew'⟩ := hnot hc' hcg' hleft'.1
      exact ih hrest hmem hmem' hnew hnew' hleft.2 hleft'.2

/-! ## Similar companies -/

/-- What is reported has the domain or a similar name. -/
theorem findSimilarCompanies_ok (R : TokenSortRatio) (order : RowOrder Company) {db : Database}
    {domain normalized : List Char} (name : List Char)
    (hdomain : normalizeDomain U domain = .ok normalized)
    (hnorm : ∀ c ∈ nonArchived db.tables.companies, normalizeDomain U c.domain = .ok (normOf U c)) :
    ∃ ms, findSimilarCompanies U R order db name domain = .ok ms ∧
      ∀ m ∈ ms, ∃ c ∈ nonArchived db.tables.companies, m.companyId = c.id ∧
        (normOf U c = normalized ∨
          nameSimilarityThreshold ≤ companyNameSimilarity U R name c.name) := by
  have hmap : ∀ c ∈ order.arrange (nonArchived db.tables.companies),
      (normalizeDomain U c.domain >>= fun norm =>
        (pure (similarMatch U R name normalized norm c) : Except ValueError _)) =
        .ok (similarMatch U R name normalized (normOf U c) c) := by
    intro c hc
    rw [hnorm c ((order.mem_arrange).mp hc)]
    rfl
  refine ⟨((order.arrange (nonArchived db.tables.companies)).map fun c => similarMatch U R name
    normalized (normOf U c) c).reduceOption.insertionSort fun m m' => m.before m', ?_, ?_⟩
  · unfold findSimilarCompanies
    rw [hdomain]
    show ((List.mapM _ _ : Except ValueError _) >>= _) = _
    rw [Raises.mapM_eq_ok hmap]
    rfl
  · intro m hm
    rw [List.mem_insertionSort, List.reduceOption_mem_iff, List.mem_map] at hm
    obtain ⟨c, hc, hm⟩ := hm
    unfold similarMatch at hm
    dsimp only at hm
    split_ifs at hm with h
    obtain rfl := Option.some.inj hm
    exact ⟨c, (order.mem_arrange).mp hc, rfl, h⟩

/-! ## A scan -/

theorem scannedCompanies_perm (db : Database) :
    (scannedCompanies db).Perm (nonArchived db.tables.companies) := List.perm_insertionSort _ _

theorem nodup_scannedCompanies (db : Database) : ((scannedCompanies db).map (·.id)).Nodup := by
  rw [((scannedCompanies_perm db).map _).nodup_iff]
  exact db.valid.unique.companies.sublist (List.filter_sublist.map _)

section

variable {db : Database} {groups : List DuplicateGroup}
  {buckets : List (List Char × List Company)}

/-- The companies that phase 1 leaves to phase 2. -/
def remaining (U : Unicode) (R : TokenSortRatio) (db : Database)
    (buckets : List (List Char × List Company)) : List Company :=
  (scannedCompanies db).filter fun c => c.id ∉ (groupByDomain U R buckets).1

/-- The two phases of a scan. -/
structure Scanned (U : Unicode) (R : TokenSortRatio) (db : Database)
    (buckets : List (List Char × List Company)) (groups : List DuplicateGroup) : Prop where
  sorted : Buckets.Sorted (normOf U) (scannedCompanies db) buckets
  norm : ∀ c ∈ scannedCompanies db, normalizeDomain U c.domain = .ok (normOf U c)
  groups_eq : groups = (groupByDomain U R buckets).2 ++
    groupByName U R (groupByDomain U R buckets).1 (remaining U R db buckets)

/-- A scan that returns has gone through both. -/
theorem scanDuplicates_scanned (h : scanDuplicates U R db = .ok groups) :
    ∃ buckets, Scanned U R db buckets groups := by
  unfold scanDuplicates at h
  dsimp only at h
  cases hb : domainBuckets U [] (scannedCompanies db) with
  | error e =>
    rw [hb] at h
    cases h
  | ok buckets =>
    rw [hb] at h
    obtain ⟨hsorted, hnorm⟩ := domainBuckets_sorted Buckets.sorted_nil hb
    rw [List.nil_append] at hsorted
    exact ⟨buckets, hsorted, hnorm, (Except.ok.inj h).symm⟩

theorem scanDuplicates_ok (U : Unicode) (R : TokenSortRatio)
    (hnorm : ∀ c ∈ nonArchived db.tables.companies,
      ∃ norm, normalizeDomain U c.domain = .ok norm) :
    ∃ groups, scanDuplicates U R db = .ok groups := by
  have hscanned : ∀ c ∈ scannedCompanies db, ∃ norm, normalizeDomain U c.domain = .ok norm :=
    fun c hc => hnorm c ((scannedCompanies_perm db).mem_iff.mp hc)
  obtain ⟨buckets, hb⟩ := domainBuckets_ok [] hscanned
  unfold scanDuplicates
  dsimp only
  rw [hb]
  exact ⟨_, rfl⟩

theorem nodup_remaining (U : Unicode) (R : TokenSortRatio) (db : Database)
    (buckets : List (List Char × List Company)) :
    ((remaining U R db buckets).map (·.id)).Nodup :=
  (nodup_scannedCompanies db).sublist (List.filter_sublist.map _)

theorem mem_scannedCompanies : c ∈ scannedCompanies db ↔ c ∈ nonArchived db.tables.companies :=
  (scannedCompanies_perm db).mem_iff

namespace Scanned

variable (h : Scanned U R db buckets groups)

include h

theorem norm_nonArchived : ∀ c ∈ nonArchived db.tables.companies,
    normalizeDomain U c.domain = .ok (normOf U c) :=
  fun c hc => h.norm c (mem_scannedCompanies.mpr hc)

/-- Every group is made of links. -/
theorem linked (hg : g ∈ groups) : ∃ domainMatch anchor others,
    Linked U R (scannedCompanies db) g domainMatch anchor others := by
  rw [h.groups_eq] at hg
  rcases List.mem_append.mp hg with hg | hg
  · exact linked_groupByDomain h.sorted h.norm hg
  · obtain ⟨anchor, others, hl, -⟩ := linked_groupByName (nodup_remaining U R db buckets) hg
    exact ⟨false, anchor, others,
      { hl with subset := fun c hc => List.mem_of_mem_filter (hl.subset c hc) }⟩

/-- Phase 2 takes up no company of phase 1. -/
theorem nodup_memberIds : (memberIds groups).Nodup := by
  rw [h.groups_eq, memberIds_append, List.nodup_append]
  refine ⟨?_, nodup_groupByName (nodup_remaining U R db buckets), fun k hk k' hk' => ?_⟩
  · refine List.Nodup.sublist sublist_groupByDomain ?_
    rw [(h.sorted.perm.map _).nodup_iff]
    exact nodup_scannedCompanies db
  · rintro rfl
    rw [← grouped_groupByDomain] at hk
    exact (mem_memberIds_groupByName (nodup_remaining U R db buckets) hk').2 hk

theorem sameDomain (hc : c ∈ scannedCompanies db) (hc' : c' ∈ scannedCompanies db) (hne : c ≠ c')
    (hkey : normOf U c = normOf U c') :
    ∃ g ∈ groups, c.id ∈ g.map (·.companyId) ∧ c'.id ∈ g.map (·.companyId) := by
  obtain ⟨g, hg, hmem⟩ := sameDomain_groupByDomain (U := U) (R := R) h.sorted hc hc' hne hkey
  refine ⟨g, ?_, hmem⟩
  rw [h.groups_eq]
  exact List.mem_append_left _ hg

/-- Companies that are left over have different domains: those of one domain are in a group. -/
theorem normOf_ne_of_left (hc : c ∈ scannedCompanies db) (hc' : c' ∈ scannedCompanies db)
    (hne : c ≠ c') (hleft : c.id ∉ memberIds groups) : normOf U c ≠ normOf U c' := by
  intro hkey
  obtain ⟨g, hg, hmem, -⟩ := h.sameDomain hc hc' hne hkey
  obtain ⟨m, hm, hid⟩ := List.mem_map.mp hmem
  exact hleft (List.mem_map.mpr ⟨m, List.mem_flatten.mpr ⟨g, hg, hm⟩, hid⟩)

/-- Nor are their names similar. -/
theorem not_similar_of_left (hc : c ∈ scannedCompanies db) (hc' : c' ∈ scannedCompanies db)
    (hne : c ≠ c') (hleft : c.id ∉ memberIds groups) (hleft' : c'.id ∉ memberIds groups) :
    ¬ Similar U R c c' := by
  rw [h.groups_eq, memberIds_append, List.mem_append, not_or] at hleft hleft'
  have hgrouped : c.id ∉ (groupByDomain U R buckets).1 := by
    rw [grouped_groupByDomain]
    exact hleft.1
  have hgrouped' : c'.id ∉ (groupByDomain U R buckets).1 := by
    rw [grouped_groupByDomain]
    exact hleft'.1
  exact Dedup.not_similar_of_left (nodup_remaining U R db buckets)
    (List.mem_filter.mpr ⟨hc, decide_eq_true hgrouped⟩)
    (List.mem_filter.mpr ⟨hc', decide_eq_true hgrouped'⟩) hne hgrouped hgrouped'
    hleft.2 hleft'.2

/-- `find_similar_companies` reports none of the companies that are left over to another. -/
theorem complete (hc : c ∈ scannedCompanies db) (hc' : c' ∈ scannedCompanies db) (hne : c ≠ c')
    (hleft : c.id ∉ memberIds groups) (hleft' : c'.id ∉ memberIds groups)
    (order : RowOrder Company) :
    ∃ ms, findSimilarCompanies U R order db c.name c.domain = .ok ms ∧
      ∀ m ∈ ms, m.companyId ≠ c'.id := by
  obtain ⟨ms, hms, hreport⟩ :=
    findSimilarCompanies_ok R order c.name (h.norm c hc) h.norm_nonArchived
  refine ⟨ms, hms, fun m hm hid => ?_⟩
  obtain ⟨c'', hc'', hid', hor⟩ := hreport m hm
  obtain rfl : c'' = c' := List.inj_on_of_nodup_map (nodup_scannedCompanies db)
    (mem_scannedCompanies.mpr hc'') hc' (hid'.symm.trans hid)
  rcases hor with hkey | hsim
  · exact h.normOf_ne_of_left hc hc' hne hleft hkey.symm
  · exact h.not_similar_of_left hc hc' hne hleft hleft' hsim

end Scanned

end

theorem grouping_of_ok {db : Database} {groups : List DuplicateGroup}
    (h : scanDuplicates U R db = .ok groups) : Grouping U R db groups := by
  obtain ⟨buckets, hscan⟩ := scanDuplicates_scanned h
  constructor
  · exact hscan.nodup_memberIds
  · intro g hg
    obtain ⟨_, _, _, hl⟩ := hscan.linked hg
    exact hl.two
  · intro g hg m hm
    obtain ⟨_, _, _, hl⟩ := hscan.linked hg
    obtain ⟨c, hc, hfields⟩ := hl.members hm
    exact ⟨c, mem_scannedCompanies.mp hc, hfields⟩
  · intro anchor others hg m hm
    obtain ⟨_, _, _, hl⟩ := hscan.linked hg
    exact hl.linked hm
  · intro c hc c' hc' hne hdomain
    rw [hscan.norm_nonArchived c hc, hscan.norm_nonArchived c' hc', Except.ok.injEq] at hdomain
    exact hscan.sameDomain (mem_scannedCompanies.mpr hc) (mem_scannedCompanies.mpr hc') hne hdomain
  · intro c hc c' hc' hne hleft hleft' order
    exact hscan.complete (mem_scannedCompanies.mpr hc) (mem_scannedCompanies.mpr hc') hne hleft
      hleft' order

/-- A scan returns the groups of the companies, and they are a grouping, exactly if
`normalize_domain` raises for none of the domains stored. -/
theorem scanDuplicates_grouping_iff (U : Unicode) (R : TokenSortRatio) (db : Database) :
    (∃ groups, scanDuplicates U R db = .ok groups ∧ Grouping U R db groups) ↔
      ∀ c ∈ nonArchived db.tables.companies, ∃ norm, normalizeDomain U c.domain = .ok norm := by
  constructor
  · rintro ⟨groups, hok, _⟩ c hc
    obtain ⟨buckets, hscan⟩ := scanDuplicates_scanned hok
    exact ⟨_, hscan.norm_nonArchived c hc⟩
  · intro hnorm
    obtain ⟨groups, hok⟩ := scanDuplicates_ok U R hnorm
    exact ⟨groups, hok, grouping_of_ok hok⟩

/-- A similarity that only knows equal names. -/
def equalNames : TokenSortRatio where
  ratio a b := if a = b then 100 else 0
  symm a b := by
    simp only [eq_comm]

/-- Two companies of one domain, and one whose domain has an open bracket. -/
def bracketCompany : Database where
  tables :=
    { twoCompanies.tables with
      companies := twoCompanies.tables.companies ++
        [{ id := 3, name := "Beta".toList, domain := "//[://a".toList }] }
  valid := by decide +kernel

/-- One company's domain, stored as `normalize_domain` has returned it, keeps all companies from
being scanned. -/
theorem bracketCompany_not_scanned :
    normalizeDomain .ascii "www.//[://a".toList = .ok "//[://a".toList ∧
      ¬ ∃ groups, scanDuplicates .ascii equalNames bracketCompany = .ok groups ∧
        Grouping .ascii equalNames bracketCompany groups := by
  have hraises : ∀ groups, scanDuplicates .ascii equalNames bracketCompany ≠ .ok groups := by
    have herror : (scanDuplicates .ascii equalNames bracketCompany).toOption = none := by
      decide +kernel
    intro groups hok
    rw [hok] at herror
    cases herror
  refine ⟨by decide +kernel, ?_⟩
  rintro ⟨groups, hok, _⟩
  exact hraises groups hok

end Dedup
end LeadPulse
