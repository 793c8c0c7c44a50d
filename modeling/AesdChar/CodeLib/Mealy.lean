import Mathlib.Data.List.Basic
import Mathlib.Tactic.Common

/-!
# Machines with outputs

A deterministic machine reads an input, gives an output and changes its state.
Three rules are about whole runs.  `run_keeps` is the rule for invariants.  `run_good`
deletes the inputs whose step left the state alone: the other outputs and the last state
stay what they were.  `simulates` lifts a simulation of one step to runs: an implementation that may
fail inside does not, and gives the outputs of the machine.
-/

namespace CodeLib.Mealy

section Run

variable {S C E : Type*} (step : S → C → E × S)

/-- A run, with its outputs in order. -/
def run : S → List C → List E × S
  | s, [] => ([], s)
  | s, c :: cs =>
    let (e, s) := step s c
    let (es, s) := run s cs
    (e :: es, s)

theorem run_cons (s : S) (c : C) (cs : List C) :
    run step s (c :: cs) =
      ((step s c).1 :: (run step (step s c).2 cs).1, (run step (step s c).2 cs).2) := rfl

/-- What every step keeps, a run keeps. -/
theorem run_keeps {I : S → Prop} (hkeep : ∀ s c, I s → I (step s c).2) {s : S} (hs : I s)
    (cs : List C) : I (run step s cs).2 := by
  induction cs generalizing s with
  | nil => exact hs
  | cons c cs ih =>
    rw [run_cons]
    exact ih (hkeep s c hs)

/-- The inputs behind the good outputs, run alone, give the good outputs and
the same last state, if no other step changes the state. -/
theorem run_good (good : E → Bool) (input : E → C) (hinput : ∀ s c, input (step s c).1 = c)
    (hbad : ∀ s c, good (step s c).1 = false → (step s c).2 = s) (s : S) (cs : List C) :
    run step s (((run step s cs).1.filter good).map input) =
      ((run step s cs).1.filter good, (run step s cs).2) := by
  induction cs generalizing s with
  | nil => rfl
  | cons c cs ih =>
    rw [run_cons]
    cases hgood : good (step s c).1 with
    | true =>
      rw [List.filter_cons_of_pos hgood, List.map_cons, hinput, run_cons, ih]
    | false =>
      have hsame := hbad s c hgood
      rw [List.filter_cons_of_neg (by simp [hgood]), hsame, ih]

end Run

section Simulation

variable {S C E T F : Type} {step : S → C → E × S} {impl : T → C → Except F (E × T)}

/-- A run of the implementation. -/
def runExcept (impl : T → C → Except F (E × T)) : T → List C → Except F (List E × T)
  | t, [] => .ok ([], t)
  | t, c :: cs =>
    match impl t c with
    | .error f => .error f
    | .ok (e, t) =>
      match runExcept impl t cs with
      | .error f => .error f
      | .ok (es, t) => .ok (e :: es, t)

/-- A simulation of every step is a simulation of every run. -/
theorem simulates {R : T → S → Prop}
    (hstep : ∀ t s c, R t s → ∃ t', impl t c = .ok ((step s c).1, t') ∧ R t' (step s c).2)
    {t : T} {s : S} (h : R t s) (cs : List C) :
    ∃ t', runExcept impl t cs = .ok ((run step s cs).1, t') ∧ R t' (run step s cs).2 := by
  induction cs generalizing t s with
  | nil => exact ⟨t, rfl, h⟩
  | cons c cs ih =>
    obtain ⟨t₁, himpl, h₁⟩ := hstep t s c h
    obtain ⟨t₂, hrun, h₂⟩ := ih h₁
    refine ⟨t₂, ?_, h₂⟩
    rw [runExcept, himpl]
    simp only [hrun, run_cons]

end Simulation

end CodeLib.Mealy
