import AesdChar.CodeLib.Trace

/-!
# Registries

A registry hands out a thing for each key: always the same one for a key, and never one
thing for two keys.  It grows when somebody asks with a new key, and it may refuse to.

`Registry.replay_same_iff` says what this means for a row of requests: two of them got the
same thing exactly if they asked with the same key.
-/

namespace CodeLib

/-- The things that were handed out, one for a key. -/
structure Registry (κ δ : Type) where
  find : κ → Option δ
  injective : ∀ {k k' d}, find k = some d → find k' = some d → k = k'

/-- What came of a request. -/
inductive Registry.Request (κ δ : Type)
  | got (k : κ) (d : δ)
  | refused

namespace Registry

open Trace

variable {κ δ E : Type} {k k' : κ} {d d' : δ} {r r' : Registry κ δ} {e : Request κ δ}
  {request : E → Request κ δ} {events : List E}

def empty : Registry κ δ := ⟨fun _ => none, fun h => by cases h⟩

variable [DecidableEq κ]

/-- A new key. -/
def add (r : Registry κ δ) (k : κ) (d : δ) (hnew : ∀ k', r.find k' ≠ some d) : Registry κ δ where
  find := Function.update r.find k (some d)
  injective := by
    intro k₁ k₂ d' h₁ h₂
    by_cases hk₁ : k₁ = k
    · by_cases hk₂ : k₂ = k
      · rw [hk₁, hk₂]
      · rw [hk₁, Function.update_self] at h₁
        rw [Function.update_of_ne hk₂, ← h₁] at h₂
        exact absurd h₂ (hnew k₂)
    · by_cases hk₂ : k₂ = k
      · rw [hk₂, Function.update_self] at h₂
        rw [Function.update_of_ne hk₁, ← h₂] at h₁
        exact absurd h₁ (hnew k₁)
      · rw [Function.update_of_ne hk₁] at h₁
        rw [Function.update_of_ne hk₂] at h₂
        exact r.injective h₁ h₂

open Classical in
/-- What a request does to the registry. -/
noncomputable def after : Request κ δ → Registry κ δ → Option (Registry κ δ)
  | .refused, r => some r
  | .got k d, r =>
    if r.find k = some d then some r
    else if hnew : r.find k = none ∧ ∀ k', r.find k' ≠ some d then some (r.add k d hnew.2)
    else none

theorem after_known (h : r.find k = some d) : after (.got k d) r = some r := if_pos h

theorem after_new (h : r.find k = none) (hnew : ∀ k', r.find k' ≠ some d) :
    after (.got k d) r = some (r.add k d hnew) :=
  (if_neg (hnew k)).trans (dif_pos ⟨h, hnew⟩)

/-- What has been handed out stays, and what is handed out now is there. -/
theorem after_find (h : after e r = some r') :
    (∀ k d, r.find k = some d → r'.find k = some d) ∧
      ∀ k d, e = .got k d → r'.find k = some d := by
  cases e with
  | refused =>
    obtain rfl := Option.some.inj h
    exact ⟨fun _ _ hfind => hfind, fun _ _ hno => by cases hno⟩
  | got k d =>
    by_cases hknown : r.find k = some d
    · rw [after_known hknown] at h
      obtain rfl := Option.some.inj h
      refine ⟨fun _ _ hfind => hfind, fun k' d' heq => ?_⟩
      cases heq
      exact hknown
    · by_cases hnew : r.find k = none ∧ ∀ k', r.find k' ≠ some d
      · rw [after_new hnew.1 hnew.2] at h
        obtain rfl := Option.some.inj h
        refine ⟨fun k' d' hfind => ?_, fun k' d' heq => ?_⟩
        · have hk : k' ≠ k := by
            rintro rfl
            rw [hnew.1] at hfind
            cases hfind
          exact (Function.update_of_ne hk ..).trans hfind
        · cases heq
          exact Function.update_self ..
      · cases ((if_neg hknown).trans (dif_neg hnew)).symm.trans h

theorem replay_find (h : replay (fun e => after (request e)) r events = some r') :
    (∀ k d, r.find k = some d → r'.find k = some d) ∧
      ∀ e ∈ events, ∀ k d, request e = .got k d → r'.find k = some d := by
  induction events generalizing r with
  | nil =>
    obtain rfl := Option.some.inj h
    exact ⟨fun _ _ hfind => hfind, fun _ hno => by cases hno⟩
  | cons e events ih =>
    obtain ⟨r₁, hafter, hrest⟩ := Option.bind_eq_some_iff.mp h
    obtain ⟨hstay, hgot⟩ := after_find hafter
    obtain ⟨hstays, hgots⟩ := ih hrest
    refine ⟨fun k d hfind => hstays k d (hstay k d hfind), fun e' hmem k d heq => ?_⟩
    rcases List.mem_cons.mp hmem with rfl | hmem
    · exact hstays k d (hgot k d heq)
    · exact hgots e' hmem k d heq

/-- Two requests got the same thing exactly if they asked with the same key. -/
theorem replay_same_iff (h : replay (fun e => after (request e)) r events = some r') {e e' : E}
    (hmem : e ∈ events) (he : request e = .got k d) (hmem' : e' ∈ events)
    (he' : request e' = .got k' d') : d = d' ↔ k = k' := by
  have hfind := (replay_find h).2 e hmem k d he
  have hfind' := (replay_find h).2 e' hmem' k' d' he'
  constructor
  · rintro rfl
    exact r'.injective hfind hfind'
  · rintro rfl
    exact Option.some.inj (hfind.symm.trans hfind')

end Registry

end CodeLib
