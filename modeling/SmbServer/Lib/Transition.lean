/-
# Transition systems

A system whose next state is a partial function of a label and the state.  `Reach
C` are the states reached by steps that all meet a condition `C` on the state
before the step and its label; an invariant that holds at the start and is kept by
every such step holds there (`Reach.invariant`).  With the trivial condition these
are the reachable states.

`recording` adds a record of what is observed of the transitions, for properties of
the events of a run and of what comes before them (`Each`, `Reach.each`).
-/

import Mathlib.Logic.Basic
import Mathlib.Data.List.Basic
import Mathlib.Data.Option.Basic

namespace SmbServer
open List Option

/-- Each event of a record, with the events before it, has a property. -/
def Each {ε : Type} (P : List ε → ε → Prop) (log : List ε) : Prop := ∀ older e, older ++ [e] <+: log → P older e

theorem Each.nil {ε : Type} {P : List ε → ε → Prop} : Each P [] :=
  fun older e h => absurd (prefix_nil.1 h) (by simp)

theorem Each.concat {ε : Type} {P : List ε → ε → Prop} {log : List ε} {e : ε} (h : Each P log) (he : P log e) :
    Each P (log ++ [e]) := by
  intro older e' hpre
  rcases prefix_concat_iff.1 hpre with heq | hpre
  · obtain ⟨rfl, hlast⟩ := append_inj' heq rfl
    exact singleton_inj.1 hlast ▸ he
  · exact h older e' hpre

/-- A deterministic labelled transition system. -/
structure Transition (σ ℓ : Type) where
  init : σ
  step : ℓ → σ → Option σ

namespace Transition

variable {σ ℓ : Type} (T : Transition σ ℓ)

/-- The states reached by steps that all meet `C`. -/
inductive Reach (C : σ → ℓ → Prop) : σ → Prop where
  | init : Reach C T.init
  | step {s s' : σ} {l : ℓ} : Reach C s → C s l → T.step l s = some s' → Reach C s'

/-- The state after a list of labels, where all of them are enabled. -/
def run : List ℓ → σ → Option σ
  | [], s => some s
  | l :: ls, s => (T.step l s).bind (run ls)

/-- Every state a run passes through on the way meets `C` with its next label. -/
def Meets (C : σ → ℓ → Prop) : List ℓ → σ → Prop
  | [], _ => True
  | l :: ls, s => C s l ∧ ∀ s' ∈ T.step l s, Meets C ls s'

instance decidableMeets (C : σ → ℓ → Prop) [∀ s l, Decidable (C s l)] :
    ∀ ls s, Decidable (T.Meets C ls s)
  | [], _ => isTrue trivial
  | l :: ls, s =>
    have := decidableMeets C ls
    inferInstanceAs (Decidable (C s l ∧ ∀ s' ∈ T.step l s, T.Meets C ls s'))

/-- The system with a record of what is observed of its transitions. -/
def recording {ε : Type} (observe : σ → ℓ → σ → Option ε) : Transition (σ × List ε) ℓ where
  init := (T.init, [])
  step l p := (T.step l p.1).map fun s => (s, p.2 ++ (observe p.1 l s).toList)

variable {T} {C : σ → ℓ → Prop}

/-- **The invariant rule.** -/
theorem Reach.invariant {I : σ → Prop} (h0 : I T.init)
    (hstep : ∀ s l s', I s → C s l → T.step l s = some s' → I s') {s : σ} (h : T.Reach C s) :
    I s := by
  induction h with
  | init => exact h0
  | step _ hC hs ih => exact hstep _ _ _ ih hC hs

theorem Reach.mono {D : σ → ℓ → Prop} (hCD : ∀ s l, C s l → D s l) {s : σ} (h : T.Reach C s) :
    T.Reach D s := by
  induction h with
  | init => exact .init
  | step _ hC hs ih => exact ih.step (hCD _ _ hC) hs

/-- What holds of every state reached may be added to the condition. -/
theorem Reach.strengthen {J : σ → Prop} (hJ : ∀ s, T.Reach C s → J s) {s : σ} (h : T.Reach C s) :
    T.Reach (fun s l => C s l ∧ J s) s := by
  induction h with
  | init => exact .init
  | step h hC hs ih => exact ih.step ⟨hC, hJ _ h⟩ hs

section

variable {ε : Type} {observe : σ → ℓ → σ → Option ε} {D : σ × List ε → ℓ → Prop} {s : σ} {log : List ε}

theorem Reach.unrecorded (h : (T.recording observe).Reach D (s, log)) : T.Reach (fun _ _ => True) s := by
  refine h.invariant (I := fun p => T.Reach (fun _ _ => True) p.1) .init ?_
  intro p l p' hreach _ hs
  obtain ⟨s', hs', rfl⟩ := map_eq_some_iff.1 hs
  exact hreach.step trivial hs'

/-- The invariant rule of a system with a record. -/
theorem Reach.recorded {I : σ → List ε → Prop} (h0 : I T.init [])
    (hstep : ∀ s log l s', T.Reach (fun _ _ => True) s → I s log → D (s, log) l → T.step l s = some s' →
      I s' (log ++ (observe s l s').toList))
    (h : (T.recording observe).Reach D (s, log)) : I s log := by
  refine (h.strengthen fun p hp => hp.unrecorded).invariant (I := fun p => I p.1 p.2) h0 ?_
  rintro p l p' hI ⟨hD, hreach⟩ hs
  obtain ⟨s', hs', rfl⟩ := map_eq_some_iff.1 hs
  exact hstep _ _ _ _ hreach hI hD hs'

/-- The events of a run have a property that each has when it is recorded. -/
theorem Reach.each {P : List ε → ε → Prop}
    (hstep : ∀ s log l s' e, (T.recording observe).Reach D (s, log) → D (s, log) l → T.step l s = some s' →
      observe s l s' = some e → P log e)
    (h : (T.recording observe).Reach D (s, log)) : Each P log := by
  refine (h.strengthen fun p hp => hp).invariant (I := fun p => Each P p.2) .nil ?_
  rintro p l p' hlog ⟨hD, hreach⟩ hs
  obtain ⟨s', hs', rfl⟩ := map_eq_some_iff.1 hs
  dsimp only
  cases he : observe p.1 l s' with
  | none =>
    rw [toList_none, append_nil]
    exact hlog
  | some e => exact hlog.concat (hstep p.1 p.2 l s' e hreach hD hs' he)

end

/-- The end of a run that meets `C` all along is reached. -/
theorem Reach.run {ls : List ℓ} {s s' : σ} (h : T.Reach C s) (hC : T.Meets C ls s)
    (hs : T.run ls s = some s') : T.Reach C s' := by
  induction ls generalizing s with
  | nil =>
    cases hs
    exact h
  | cons l ls ih =>
    obtain ⟨s1, h1, h2⟩ := bind_eq_some_iff.1 hs
    exact ih (h.step hC.1 h1) (hC.2 s1 h1) h2

/-- A run that meets `C`, and whose end passes a test, reaches a state that does. -/
theorem Reach.of_run {f : σ → Bool} (ls : List ℓ) (hC : T.Meets C ls T.init)
    (hf : (T.run ls T.init).map f = some true) : ∃ s, T.Reach C s ∧ f s = true := by
  obtain ⟨s, hs, hfs⟩ := map_eq_some_iff.1 hf
  exact ⟨s, Reach.run .init hC hs, hfs⟩

end Transition

end SmbServer
