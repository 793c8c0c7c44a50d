import AesdChar.CodeLib.Mealy

/-!
# Runs that are watched from outside

A machine may fail in a step, and tells with an event what it has done.  An abstract
object watches the events: it takes an event or finds that it cannot have happened.

`run_refines` is the rule for whole runs.  If every step that meets a condition keeps
an invariant between the machine and the object, then a run of such steps does not
fail, its events are events of the object, and the invariant holds at its end.
`run_keeps` adds what else the steps of such a run keep.
-/

namespace CodeLib.Trace

open Mealy

variable {S A E F Q : Type}

/-! ## The object that watches -/

/-- The object after a row of events, if it takes them all. -/
def replay (after : E → Q → Option Q) : Q → List E → Option Q
  | q, [] => some q
  | q, e :: events => (after e q).bind fun q => replay after q events

theorem replay_append (after : E → Q → Option Q) (q : Q) (events events' : List E) :
    replay after q (events ++ events') =
      (replay after q events).bind fun q => replay after q events' := by
  induction events generalizing q with
  | nil => rfl
  | cons e events ih =>
    show (after e q).bind _ = ((after e q).bind _).bind _
    cases after e q with
    | none => rfl
    | some q => exact ih q

/-- The last event of a row. -/
theorem replay_concat {after : E → Q → Option Q} {q q' : Q} {events : List E} {e : E}
    (h : replay after q (events ++ [e]) = some q') :
    ∃ q₁, replay after q events = some q₁ ∧ after e q₁ = some q' := by
  rw [replay_append] at h
  obtain ⟨q₁, hfront, hlast⟩ := Option.bind_eq_some_iff.mp h
  obtain ⟨q₂, hafter, hnil⟩ := Option.bind_eq_some_iff.mp hlast
  obtain rfl : q₂ = q' := Option.some.inj hnil
  exact ⟨q₁, hfront, hafter⟩

/-! ## The runs -/

/-- Every step meets a condition on the state before it. -/
def Along (step : S → A → Except F (E × S)) (P : S → A → Prop) : S → List A → Prop
  | _, [] => True
  | s, act :: acts =>
    P s act ∧
      match step s act with
      | .ok (_, s') => Along step P s' acts
      | .error _ => True

instance decidableAlong (step : S → A → Except F (E × S)) (P : S → A → Prop)
    [∀ s act, Decidable (P s act)] : (s : S) → (acts : List A) → Decidable (Along step P s acts)
  | _, [] => inferInstanceAs (Decidable True)
  | s, act :: acts =>
    @instDecidableAnd _ _ (inferInstanceAs (Decidable (P s act)))
      (match step s act with
      | .ok (_, s') => decidableAlong step P s' acts
      | .error _ => inferInstanceAs (Decidable True))

variable {step : S → A → Except F (E × S)} {after : E → Q → Option Q} {s s' : S} {q : Q}
  {act : A} {acts : List A}

/-- A condition that always holds. -/
theorem Along.all {P : S → A → Prop} (h : ∀ s act, P s act) (s : S) (acts : List A) :
    Along step P s acts := by
  induction acts generalizing s with
  | nil => trivial
  | cons act acts ih =>
    refine ⟨h s act, ?_⟩
    cases hstep : step s act with
    | error f => trivial
    | ok r => exact ih r.2

/-- A condition that an invariant implies, where the invariant is kept. -/
theorem Along.of_inv {P P' : S → A → Prop} {I : S → Prop}
    (hkeep : ∀ {s act e s'}, I s → P s act → step s act = .ok (e, s') → I s')
    (himp : ∀ s act, I s → P s act → P' s act) (hs : I s) (h : Along step P s acts) :
    Along step P' s acts := by
  induction acts generalizing s with
  | nil => trivial
  | cons act acts ih =>
    refine ⟨himp s act hs h.1, ?_⟩
    have hrest := h.2
    cases hstep : step s act with
    | error f => trivial
    | ok r =>
      rw [hstep] at hrest
      exact ih (hkeep hs h.1 hstep) hrest

theorem runExcept_cons_ok {e : E} {events : List E} {s₁ : S} (hstep : step s act = .ok (e, s₁))
    (hrun : runExcept step s₁ acts = .ok (events, s')) :
    runExcept step s (act :: acts) = .ok (e :: events, s') := by
  rw [runExcept, hstep]
  simp only [hrun]

/-- A run that did not fail, taken apart. -/
theorem runExcept_cons_cases {events : List E}
    (h : runExcept step s (act :: acts) = .ok (events, s')) :
    ∃ e s₁ events₁, step s act = .ok (e, s₁) ∧ runExcept step s₁ acts = .ok (events₁, s') ∧
      events = e :: events₁ := by
  rw [runExcept] at h
  cases hstep : step s act with
  | error f =>
    rw [hstep] at h
    cases h
  | ok r =>
    obtain ⟨e, s₁⟩ := r
    rw [hstep] at h
    simp only at h
    cases hrun : runExcept step s₁ acts with
    | error f =>
      rw [hrun] at h
      cases h
    | ok r₁ =>
      obtain ⟨events₁, s₂⟩ := r₁
      rw [hrun] at h
      obtain ⟨rfl, rfl⟩ := Prod.mk.inj (Except.ok.inj h)
      exact ⟨e, s₁, events₁, rfl, hrun, rfl⟩

/-- What every step keeps, a run keeps. -/
theorem runExcept_keeps {I : S → Prop}
    (hkeep : ∀ {s act e s'}, I s → step s act = .ok (e, s') → I s') (hs : I s)
    {events : List E} (hrun : runExcept step s acts = .ok (events, s')) : I s' := by
  induction acts generalizing s events with
  | nil =>
    obtain ⟨-, rfl⟩ := Prod.mk.inj (Except.ok.inj hrun)
    exact hs
  | cons act acts ih =>
    obtain ⟨e, s₁, events₁, hstep, hrun₁, -⟩ := runExcept_cons_cases hrun
    exact ih (hkeep hs hstep) hrun₁

/-- A step that does not fail, that is one of the object, and behind which the
invariant holds. -/
def Refines (after : E → Q → Option Q) (Inv : S → Q → Prop) (q : Q)
    (r : Except F (E × S)) : Prop :=
  ∃ e s' q', r = .ok (e, s') ∧ after e q = some q' ∧ Inv s' q'

variable {Inv : S → Q → Prop} {P : S → A → Prop}

/-- A refinement of every step is a refinement of every run. -/
theorem run_refines (hstep : ∀ {s q act}, Inv s q → P s act → Refines after Inv q (step s act))
    (h : Inv s q) (hP : Along step P s acts) :
    ∃ events s' q', runExcept step s acts = .ok (events, s') ∧
      replay after q events = some q' ∧ Inv s' q' := by
  induction acts generalizing s q with
  | nil => exact ⟨[], s, q, rfl, rfl, h⟩
  | cons act acts ih =>
    obtain ⟨e, s₁, q₁, hstep₁, hafter, h₁⟩ := hstep h hP.1
    have hrest := hP.2
    rw [hstep₁] at hrest
    obtain ⟨events, s₂, q₂, hrun, hreplay, h₂⟩ := ih h₁ hrest
    refine ⟨e :: events, s₂, q₂, runExcept_cons_ok hstep₁ hrun, ?_, h₂⟩
    show (after e q).bind _ = _
    rw [hafter]
    exact hreplay

/-- What the steps keep besides the invariant. -/
theorem run_keeps {K : S → Q → Prop} {P' : S → A → Prop}
    (hstep : ∀ {s q act}, Inv s q → P s act → Refines after Inv q (step s act))
    (hkeep : ∀ {s act e s' q q'}, Inv s q → Inv s' q' → K s q → P' s act →
      step s act = .ok (e, s') → after e q = some q' → K s' q')
    (h : Inv s q) (hK : K s q) (hP : Along step P s acts) (hP' : Along step P' s acts)
    {events : List E} (hrun : runExcept step s acts = .ok (events, s')) :
    ∃ q', Inv s' q' ∧ K s' q' := by
  induction acts generalizing s q events with
  | nil =>
    obtain ⟨-, rfl⟩ := Prod.mk.inj (Except.ok.inj hrun)
    exact ⟨q, h, hK⟩
  | cons act acts ih =>
    obtain ⟨e, s₁, q₁, hstep₁, hafter, h₁⟩ := hstep h hP.1
    have hrest := hP.2
    have hrest' := hP'.2
    rw [hstep₁] at hrest hrest'
    obtain ⟨e', s₂, events₁, hstep₂, hrun₁, -⟩ := runExcept_cons_cases hrun
    rw [hstep₁] at hstep₂
    obtain ⟨-, rfl⟩ := Prod.mk.inj (Except.ok.inj hstep₂)
    exact ih h₁ (hkeep h h₁ hK hP'.1 hstep₁ hafter) hrest hrest' hrun₁

end CodeLib.Trace
