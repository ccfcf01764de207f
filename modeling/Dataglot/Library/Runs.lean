/-
Runs of a system that takes one event after the other, and what holds of every
step along a run.
-/
import Mathlib.Logic.Basic

namespace Runs

variable {σ ε : Type} (step : σ → ε → Option σ)

/-- `Q` holds of every step of the run, which ends at the first event that cannot happen. -/
def Along (Q : σ → ε → σ → Prop) : σ → List ε → Prop
  | _, [] => True
  | s, e :: es => ∀ s', step s e = some s' → Q s e s' ∧ Along Q s' es

/-- Where a run ends, if every event of it can happen. -/
def run : σ → List ε → Option σ
  | s, [] => some s
  | s, e :: es => (step s e).bind fun s' => run s' es

variable {step}

variable {P : σ → Prop} {Q : σ → ε → σ → Prop}

theorem Along.at_end : ∀ {es s s'}, Along step (fun _ _ s' => P s') s es → P s → run step s es = some s' → P s'
  | [], _, _, _, hs, hru => Option.some.inj hru ▸ hs
  | e :: es, s, s', ha, _, hru => by
    obtain ⟨s₁, hstep, hr⟩ := Option.bind_eq_some_iff.mp hru
    obtain ⟨hs₁, ha'⟩ := ha s₁ hstep
    exact ha'.at_end hs₁ hr

theorem Along.mp {Q'} : ∀ {es s}, Along step Q s es →
    Along step (fun s e s' => Q s e s' → Q' s e s') s es → Along step Q' s es
  | [], _, _, _ => trivial
  | _ :: _, _, h, h' => fun s' hs' => ⟨(h' s' hs').1 (h s' hs').1, (h s' hs').2.mp (h' s' hs').2⟩

/-- Some run, along which `Q` holds, leads to where `P` holds. -/
def Leads (step : σ → ε → Option σ) (Q : σ → ε → σ → Prop) (P : σ → Prop) (s : σ) : Prop :=
  ∃ es s', run step s es = some s' ∧ Along step Q s es ∧ P s'

theorem Leads.here {s} (h : P s) : Leads step Q P s :=
  ⟨[], s, rfl, trivial, h⟩

theorem Leads.head {s s₁} (e) (hstep : step s e = some s₁)
    (hQ : Q s e s₁) (h : Leads step Q P s₁) : Leads step Q P s := by
  obtain ⟨es, s', hr, ha, hs'⟩ := h
  refine ⟨e :: es, s', ?_, fun t ht => ?_, hs'⟩
  · rw [run, hstep]
    exact hr
  · cases hstep.symm.trans ht
    exact ⟨hQ, ha⟩

theorem along_of_inv (Inv : σ → Prop) (hstep : ∀ s e s', Inv s → step s e = some s' → Inv s' ∧ Q s e s') :
    ∀ {s} (es : List ε), Inv s → Along step Q s es
  | _, [], _ => trivial
  | s, e :: es, hi => fun s' hs' =>
    have h := hstep s e s' hi hs'
    ⟨h.2, along_of_inv Inv hstep es h.1⟩

/-- Along a run, what holds of a step may be replaced by what is equivalent to it in the states that an
invariant describes. The steps that `Q` holds of keep the invariant. -/
theorem along_congr {Q'} (Inv : σ → Prop) (hk : ∀ s e s', Inv s → step s e = some s' → Q s e s' → Inv s')
    (hi : ∀ s e s', Inv s → step s e = some s' → (Q s e s' ↔ Q' s e s')) :
    ∀ {s} (es : List ε), Inv s → (Along step Q s es ↔ Along step Q' s es)
  | _, [], _ => Iff.rfl
  | s, e :: es, hin => by
    have hstep : ∀ s', step s e = some s' →
        (Q s e s' ∧ Along step Q s' es ↔ Q' s e s' ∧ Along step Q' s' es) := by
      intro s' hs'
      rw [← hi s e s' hin hs']
      exact and_congr_right fun hQ => along_congr Inv hk hi es (hk s e s' hin hs' hQ)
    exact forall_congr' fun s' => imp_congr_right (hstep s')

/-! ## Facts that events set and clear -/

section Cleared

variable {sets clears : ε → Prop} {held held' : Prop} {e : ε} {es : List ε}

/-- The fact, where it held at the start or an event set it, is cleared by a later event. -/
structure Cleared (sets clears : ε → Prop) (held : Prop) (es : List ε) : Prop where
  start : held → ∃ e ∈ es, clears e
  set : ∀ before e after, es = before ++ e :: after → sets e → ∃ e' ∈ after, clears e'

theorem cleared_nil : Cleared sets clears held [] ↔ ¬ held := by
  constructor
  · rintro h hh
    obtain ⟨e, he, -⟩ := h.start hh
    cases he
  · refine fun h => ⟨fun hh => absurd hh h, fun before e after hs => ?_⟩
    cases before <;> cases hs

theorem cleared_cons (hh : held' ↔ sets e ∨ held ∧ ¬ clears e) :
    Cleared sets clears held' es ↔ Cleared sets clears held (e :: es) := by
  constructor
  · intro h
    refine ⟨fun hst => ?_, fun before e' after hs hse => ?_⟩
    · by_cases hc : clears e
      · exact ⟨e, List.mem_cons_self, hc⟩
      · obtain ⟨e', he', hc'⟩ := h.start (hh.mpr (.inr ⟨hst, hc⟩))
        exact ⟨e', List.mem_cons_of_mem e he', hc'⟩
    · cases before with
      | nil =>
        cases hs
        exact h.start (hh.mpr (.inl hse))
      | cons _ before =>
        cases hs
        exact h.set before e' after rfl hse
  · intro h
    refine ⟨fun hh' => ?_, fun before e' after hs => h.set (e :: before) e' after (congrArg (e :: ·) hs)⟩
    obtain hse | ⟨hst, hk⟩ := hh.mp hh'
    · exact h.set [] e es rfl hse
    · obtain ⟨e', he', hc⟩ := h.start hst
      obtain rfl | he' := List.mem_cons.mp he'
      · exact absurd hc hk
      · exact ⟨e', he', hc⟩

/-- A fact that events set and clear does not hold at the end of a run if and only if it has been cleared for good. -/
theorem not_foldl_iff {next} {P : σ → Prop} (hn : ∀ s e, P (next s e) ↔ sets e ∨ P s ∧ ¬ clears e) :
    ∀ s es, ¬ P (es.foldl next s) ↔ Cleared sets clears (P s) es
  | _, [] => cleared_nil.symm
  | s, e :: es => (not_foldl_iff hn (next s e) es).trans (cleared_cons (hn s e))

end Cleared

end Runs
