import Mathlib.Data.List.Basic
import Mathlib.Tactic.Common

/-!
# Runs of a guarded step function

A system is given by `step : S → A → Option S`: performing the action `a` in the state
`s` leads to `step s a`, and `none` says that `a` is not enabled in `s`. Everything an
environment may choose (an answer, an outcome, which worker moves next) is part of the
action, so a run is a start state and a list of actions.

* `exec` is the state a run ends in, and `last` the one in which it stands when it ends or comes
  to an action that is not enabled; `AllStates P` and `AllSteps C` say that `P` holds in every
  state of the run and that `C` holds of every step it takes;
* `AllStates.of_inv` is the invariant rule, relative to a condition on the steps, and
  `AllPairs.of_inv` its form for what holds between earlier and later states;
* `allStates_iff_allSteps` is the rule for an *exact* condition: a property that an
  invariant carries along every step meeting `C`, and that every other step destroys;
  `allPairs_iff_allSteps` is the same for an order on the states.
-/

namespace LeadPulse
namespace Run

variable {S A : Type*} {step : S → A → Option S}

/-- The state after the actions of a run, `none` if one of them is not enabled. -/
def exec (step : S → A → Option S) (s : S) : List A → Option S
  | [] => some s
  | a :: as => (step s a).bind fun s' => exec step s' as

/-- The state that a run has come to when it ends, or when an action is not enabled. -/
def last (step : S → A → Option S) (s : S) : List A → S
  | [] => s
  | a :: as => match step s a with
    | some s' => last step s' as
    | none => s

/-- `P` holds in every state the run passes through, the first one included. The run
stops at an action that is not enabled. -/
def AllStates (step : S → A → Option S) (P : S → Prop) : S → List A → Prop
  | s, [] => P s
  | s, a :: as => P s ∧ ∀ s', step s a = some s' → AllStates step P s' as

/-- Every step the run takes meets `C`, a condition on the state before the step and on
the action. -/
def AllSteps (step : S → A → Option S) (C : S → A → Prop) : S → List A → Prop
  | _, [] => True
  | s, a :: as => ∀ s', step s a = some s' → C s a ∧ AllSteps step C s' as

/-- `R s t` holds for every state `s` of the run and every state `t` that is not before it. -/
def AllPairs (step : S → A → Option S) (R : S → S → Prop) : S → List A → Prop
  | s, [] => R s s
  | s, a :: as => AllStates step (R s) s (a :: as) ∧
      ∀ s', step s a = some s' → AllPairs step R s' as

/-! ## Executing a run -/

@[simp] theorem exec_nil (s : S) : exec step s [] = some s := rfl

@[simp] theorem exec_cons (s : S) (a : A) (as : List A) :
    exec step s (a :: as) = (step s a).bind fun s' => exec step s' as := rfl

theorem exec_append (s : S) (as bs : List A) :
    exec step s (as ++ bs) = (exec step s as).bind fun s' => exec step s' bs := by
  induction as generalizing s with
  | nil => rfl
  | cons a as ih =>
    rw [List.cons_append, exec_cons, exec_cons, Option.bind_assoc]
    exact congrArg _ (funext ih)

/-- A run does not get to its end exactly if one of its actions is not enabled where it stands. -/
theorem exec_eq_none_iff {s : S} {as : List A} :
    exec step s as = none ↔
      ∃ before a rest s', as = before ++ a :: rest ∧ exec step s before = some s' ∧
        step s' a = none := by
  constructor
  · intro h
    induction as generalizing s with
    | nil => cases h
    | cons a as ih =>
      cases hs : step s a with
      | none => exact ⟨[], a, as, s, rfl, rfl, hs⟩
      | some t =>
        rw [exec_cons, hs] at h
        obtain ⟨before, b, rest, s', rfl, hbefore, hb⟩ := ih h
        refine ⟨a :: before, b, rest, s', rfl, ?_, hb⟩
        rw [exec_cons, hs]
        exact hbefore
  · rintro ⟨before, a, rest, s', rfl, hbefore, ha⟩
    rw [exec_append, hbefore]
    show (step s' a).bind _ = none
    rw [ha]
    rfl

theorem last_of_exec {s s' : S} {as : List A} (h : exec step s as = some s') :
    last step s as = s' := by
  induction as generalizing s with
  | nil => exact Option.some.inj h
  | cons a as ih =>
    rw [exec_cons, Option.bind_eq_some_iff] at h
    obtain ⟨t, ht, hts⟩ := h
    rw [last, ht]
    exact ih hts

/-- A run gets through the actions up to its last state. -/
theorem exists_exec_last (step : S → A → Option S) (s : S) (as : List A) :
    ∃ before rest, as = before ++ rest ∧ exec step s before = some (last step s as) ∧
      ∀ a ∈ rest.head?, step (last step s as) a = none := by
  induction as generalizing s with
  | nil => exact ⟨[], [], rfl, rfl, fun a ha => nomatch ha⟩
  | cons a as ih =>
    cases hs : step s a with
    | none =>
      refine ⟨[], a :: as, rfl, ?_, fun b hb => ?_⟩
      · rw [exec_nil, last, hs]
      · obtain rfl := Option.some.inj hb
        rwa [last, hs]
    | some t =>
      obtain ⟨before, rest, hsplit, hbefore, hrest⟩ := ih t
      rw [last, hs]
      refine ⟨a :: before, rest, congrArg (a :: ·) hsplit, ?_, hrest⟩
      rw [exec_cons, hs]
      exact hbefore

theorem last_total (f : S → A → S) (s : S) (as : List A) :
    last (fun s a => some (f s a)) s as = as.foldl f s := by
  induction as generalizing s with
  | nil => rfl
  | cons a as ih => exact ih (f s a)

/-- Two systems in lockstep: what relates their states is kept by related actions, as long as
both runs meet their conditions, and so the second system follows a run of the first one. -/
theorem exec_lockstep {T B : Type*} {step' : T → B → Option T} {R : S → T → Prop}
    {RA : A → B → Prop} {C : S → A → Prop} {C' : T → B → Prop}
    (hstep : ∀ s t a b s', R s t → RA a b → C s a → (∀ t', step' t b = some t' → C' t b) →
      step s a = some s' → ∃ t', step' t b = some t' ∧ R s' t') {s s' : S} {t : T} {as : List A}
    {bs : List B} (hR : R s t) (hacts : List.Forall₂ RA as bs)
    (hC : AllSteps step C s as) (hC' : AllSteps step' C' t bs)
    (hs : exec step s as = some s') : ∃ t', exec step' t bs = some t' ∧ R s' t' := by
  induction hacts generalizing s t with
  | nil =>
    obtain rfl : s = s' := by simpa using hs
    exact ⟨t, rfl, hR⟩
  | cons hab _ ih =>
    rw [exec_cons, Option.bind_eq_some_iff] at hs
    obtain ⟨u, hu, hus⟩ := hs
    obtain ⟨hCa, hCs⟩ := hC u hu
    obtain ⟨v, hv, hRv⟩ := hstep _ _ _ _ u hR hab hCa (fun t' ht' => (hC' t' ht').1) hu
    rw [exec_cons, hv, Option.bind_some]
    exact ih hRv hCs (hC' v hv).2 hus

/-! ## Invariants -/

theorem AllStates.head {P : S → Prop} {s : S} {as : List A} (h : AllStates step P s as) :
    P s := by
  cases as with
  | nil => exact h
  | cons a as => exact h.1

theorem AllStates.mono {P Q : S → Prop} (hPQ : ∀ s, P s → Q s) {s : S} {as : List A}
    (h : AllStates step P s as) : AllStates step Q s as := by
  induction as generalizing s with
  | nil => exact hPQ s h
  | cons a as ih => exact ⟨hPQ s h.1, fun s' hs' => ih (h.2 s' hs')⟩

/-- A property of all states of a run holds in the state the run ends in. -/
theorem AllStates.exec {P : S → Prop} {s s' : S} {as : List A} (h : AllStates step P s as)
    (hs : exec step s as = some s') : P s' := by
  induction as generalizing s with
  | nil =>
    obtain rfl : s = s' := by simpa using hs
    exact h
  | cons a as ih =>
    rw [exec_cons, Option.bind_eq_some_iff] at hs
    obtain ⟨t, ht, hts⟩ := hs
    exact ih (h.2 t ht) hts

/-- A property of all states of a run holds in its last one. -/
theorem AllStates.last {P : S → Prop} {s : S} {as : List A} (h : AllStates step P s as) :
    P (Run.last step s as) := by
  induction as generalizing s with
  | nil => exact h
  | cons a as ih =>
    rw [Run.last]
    split
    · rename_i t ht
      exact ih (h.2 t ht)
    · exact h.1

/-- The invariant rule: what holds at the start and is kept by every step that meets `C`
holds in every state of a run whose steps all meet `C`. -/
theorem AllStates.of_inv {I : S → Prop} {C : S → A → Prop}
    (hstep : ∀ s a s', I s → C s a → step s a = some s' → I s') {s : S} {as : List A}
    (h₀ : I s) (hC : AllSteps step C s as) : AllStates step I s as := by
  induction as generalizing s with
  | nil => exact h₀
  | cons a as ih =>
    refine ⟨h₀, fun s' hs' => ?_⟩
    obtain ⟨hCa, hCas⟩ := hC s' hs'
    exact ih (hstep s a s' h₀ hCa hs') hCas

/-- What is never regained holds in all states if it holds in the last one. -/
theorem allStates_iff_last {P : S → Prop} (hback : ∀ s a s', step s a = some s' → P s' → P s)
    {s : S} {as : List A} : AllStates step P s as ↔ P (Run.last step s as) := by
  refine ⟨AllStates.last, fun h => ?_⟩
  induction as generalizing s with
  | nil => exact h
  | cons a as ih =>
    rw [Run.last] at h
    split at h
    · rename_i t ht
      have htail : AllStates step P t as := ih h
      refine ⟨hback s a t ht htail.head, fun s' hs' => ?_⟩
      rwa [← Option.some.inj (ht.symm.trans hs')]
    · rename_i hnone
      refine ⟨h, fun s' hs' => ?_⟩
      rw [hnone] at hs'
      cases hs'

/-- The rule for pairs of states: what every step meeting `C` respects, and what is an order
on the states that meet the invariant. -/
theorem AllPairs.of_inv_rel {I : S → Prop} {C : S → A → Prop} {R : S → S → Prop}
    (hrefl : ∀ s, I s → R s s) (htrans : ∀ {s t u}, I s → I t → R s t → R t u → R s u)
    (hstep : ∀ s a s', I s → C s a → step s a = some s' → I s' ∧ R s s') {s : S}
    {as : List A} (h₀ : I s) (hC : AllSteps step C s as) : AllPairs step R s as := by
  induction as generalizing s with
  | nil => exact hrefl s h₀
  | cons a as ih =>
    refine ⟨?_, fun s' hs' => ?_⟩
    · -- being `R`-above `s` is itself an invariant
      have hinv : AllStates step (fun t => I t ∧ R s t) s (a :: as) :=
        AllStates.of_inv (fun t b t' ht hb ht' => ⟨(hstep t b t' ht.1 hb ht').1,
          htrans h₀ ht.1 ht.2 (hstep t b t' ht.1 hb ht').2⟩) ⟨h₀, hrefl s h₀⟩ hC
      exact hinv.mono fun t ht => ht.2
    · obtain ⟨hCa, hCas⟩ := hC s' hs'
      exact ih (hstep s a s' h₀ hCa hs').1 hCas

/-- The rule for an order that every step meeting `C` respects. -/
theorem AllPairs.of_inv {I : S → Prop} {C : S → A → Prop} {R : S → S → Prop}
    (hrefl : ∀ s, R s s) (htrans : ∀ {s t u}, R s t → R t u → R s u)
    (hstep : ∀ s a s', I s → C s a → step s a = some s' → I s' ∧ R s s') {s : S}
    {as : List A} (h₀ : I s) (hC : AllSteps step C s as) : AllPairs step R s as :=
  AllPairs.of_inv_rel (fun s _ => hrefl s) (fun _ _ => htrans) hstep h₀ hC

theorem AllPairs.mono {R R' : S → S → Prop} (hR : ∀ s t, R s t → R' s t) {s : S} {as : List A}
    (h : AllPairs step R s as) : AllPairs step R' s as := by
  induction as generalizing s with
  | nil => exact hR s s h
  | cons a as ih => exact ⟨h.1.mono (hR s), fun s' hs' => ih (h.2 s' hs')⟩

theorem AllSteps.of_forall {C : S → A → Prop} (hC : ∀ s a, C s a) (s : S) (as : List A) :
    AllSteps step C s as := by
  induction as generalizing s with
  | nil => trivial
  | cons a as ih => exact fun s' _ => ⟨hC s a, ih s'⟩

theorem AllSteps.of_append {C : S → A → Prop} {s : S} {as bs : List A}
    (h : AllSteps step C s (as ++ bs)) : AllSteps step C s as := by
  induction as generalizing s with
  | nil => trivial
  | cons a as ih => exact fun s' hs' => ⟨(h s' hs').1, ih (h s' hs').2⟩

/-- A condition follows from another one where an invariant holds. -/
theorem AllSteps.of_inv {I : S → Prop} {C D : S → A → Prop}
    (hstep : ∀ s a s', I s → C s a → step s a = some s' → I s' ∧ D s a) {s : S} {as : List A}
    (h₀ : I s) (hC : AllSteps step C s as) : AllSteps step D s as := by
  induction as generalizing s with
  | nil => trivial
  | cons a as ih =>
    intro s' hs'
    obtain ⟨hc, hrest⟩ := hC s' hs'
    obtain ⟨hI, hD⟩ := hstep s a s' h₀ hc hs'
    exact ⟨hD, ih hI hrest⟩

theorem AllSteps.and {C D : S → A → Prop} {s : S} {as : List A} (hC : AllSteps step C s as)
    (hD : AllSteps step D s as) : AllSteps step (fun s a => C s a ∧ D s a) s as := by
  induction as generalizing s with
  | nil => trivial
  | cons a as ih =>
    intro s' hs'
    exact ⟨⟨(hC s' hs').1, (hD s' hs').1⟩, ih (hC s' hs').2 (hD s' hs').2⟩

/-- An order that every step respects holds between every state of a run and its end. -/
theorem AllSteps.of_exec {R : S → S → Prop} (hrefl : ∀ s, R s s)
    (htrans : ∀ {s t u}, R s t → R t u → R s u)
    (hstep : ∀ s a s', step s a = some s' → R s s') {s e : S} {as : List A}
    (he : exec step s as = some e) :
    AllSteps step (fun t a => ∀ t', step t a = some t' → R t' e) s as := by
  induction as generalizing s with
  | nil => trivial
  | cons a as ih =>
    intro s' hs'
    rw [exec_cons, hs', Option.bind_some] at he
    refine ⟨fun t' ht' => ?_, ih he⟩
    obtain rfl := Option.some.inj (hs'.symm.trans ht')
    exact (AllStates.of_inv (I := fun t => R s' t) (C := fun _ _ => True)
      (fun t b u ht _ hu => htrans ht (hstep t b u hu)) (hrefl s')
      (AllSteps.of_forall (fun _ _ => trivial) s' as)).exec he

/-- In a system whose actions are always enabled. -/
theorem allSteps_total_cons {f : S → A → S} {C : S → A → Prop} {s : S} {a : A} {as : List A} :
    AllSteps (fun s a => some (f s a)) C s (a :: as) ↔
      C s a ∧ AllSteps (fun s a => some (f s a)) C (f s a) as := by
  constructor
  · exact fun h => h (f s a) rfl
  · intro h s' hs'
    rw [← Option.some.inj hs']
    exact h

/-- The invariant rule without a condition. -/
theorem AllStates.of_step {I : S → Prop}
    (hstep : ∀ s a s', I s → step s a = some s' → I s') {s : S} (h₀ : I s) (as : List A) :
    AllStates step I s as :=
  AllStates.of_inv (C := fun _ _ => True) (fun s a s' hs _ hs' => hstep s a s' hs hs') h₀
    (AllSteps.of_forall (fun _ _ => trivial) s as)

/-- The rule for an exact condition. `I` gives `P` and is kept by every step that meets
`C`; a step that does not meet `C` leads to a state without `P`. Then `P` holds all along
a run exactly when all its steps meet `C`. -/
theorem allStates_iff_allSteps {I P : S → Prop} {C : S → A → Prop}
    (hP : ∀ s, I s → P s)
    (hstep : ∀ s a s', I s → C s a → step s a = some s' → I s')
    (hbad : ∀ s a s', I s → ¬ C s a → step s a = some s' → ¬ P s')
    {s : S} (h₀ : I s) (as : List A) :
    AllStates step P s as ↔ AllSteps step C s as := by
  constructor
  · intro h
    induction as generalizing s with
    | nil => trivial
    | cons a as ih =>
      intro s' hs'
      -- a step without `C` would have left `P` behind
      have hCa : C s a := by
        by_contra hn
        exact hbad s a s' h₀ hn hs' (h.2 s' hs').head
      exact ⟨hCa, ih (hstep s a s' h₀ hCa hs') (h.2 s' hs')⟩
  · intro h
    exact (AllStates.of_inv hstep h₀ h).mono hP

/-- The rule for an exact condition on an order: what a step that meets `C` respects, and a step
that does not meet `C` breaks. -/
theorem allPairs_iff_allSteps {I : S → Prop} {C : S → A → Prop} {R : S → S → Prop}
    (hrefl : ∀ s, R s s) (htrans : ∀ {s t u}, R s t → R t u → R s u)
    (hstep : ∀ s a s', I s → step s a = some s' → I s' ∧ (C s a → R s s'))
    (hbad : ∀ s a s', I s → ¬ C s a → step s a = some s' → ¬ R s s')
    {s : S} (h₀ : I s) (as : List A) : AllPairs step R s as ↔ AllSteps step C s as := by
  constructor
  · intro h
    induction as generalizing s with
    | nil => trivial
    | cons a as ih =>
      intro s' hs'
      have hCa : C s a := by
        by_contra hn
        exact hbad s a s' h₀ hn hs' (h.1.2 s' hs').head
      exact ⟨hCa, ih (hstep s a s' h₀ hs').1 (h.2 s' hs')⟩
  · exact AllPairs.of_inv hrefl htrans
      (fun s a s' hs hCa hs' => ⟨(hstep s a s' hs hs').1, (hstep s a s' hs hs').2 hCa⟩) h₀

/-- A run whose last state fails a test that `P` implies. -/
theorem not_allStates {P : S → Prop} {q : S → Bool} (hq : ∀ s, P s → q s = false) {s : S}
    {as : List A} (h : (exec step s as).any q = true) : ¬ AllStates step P s as := by
  intro hP
  cases hs : exec step s as with
  | none => simp [hs] at h
  | some s' =>
    have hq' : q s' = true := by simpa [hs] using h
    rw [hq s' (hP.exec hs)] at hq'
    cases hq'

/-- A test of the steps of a run. -/
def checkSteps (step : S → A → Option S) (c : S → A → Bool) : S → List A → Bool
  | _, [] => true
  | s, a :: as => match step s a with
    | none => true
    | some s' => c s a && checkSteps step c s' as

theorem AllSteps.of_check {C : S → A → Prop} {c : S → A → Bool} (hc : ∀ s a, c s a = true → C s a)
    {s : S} {as : List A} (h : checkSteps step c s as = true) : AllSteps step C s as := by
  induction as generalizing s with
  | nil => trivial
  | cons a as ih =>
    intro s' hs'
    simp only [checkSteps, hs', Bool.and_eq_true] at h
    exact ⟨hc s a h.1, ih h.2⟩

end Run
end LeadPulse
