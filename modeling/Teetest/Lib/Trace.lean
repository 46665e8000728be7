import Mathlib.Tactic

/-! Labelled transition systems: runs, their histories, and the invariant rules. -/

namespace Teetest.Lib

section

variable {σ ι : Type*}

/-- A finite run, with the labels of its steps in the order they were taken. -/
inductive Run (step : σ → ι → σ → Prop) (start : σ) : List ι → σ → Prop
  | refl : Run step start [] start
  | tail {labels : List ι} {s t : σ} {a : ι} :
      Run step start labels s → step s a t → Run step start (labels ++ [a]) t

/-- The steps of a system that are taken in a state and with a label meeting a condition. -/
def Guarded (ok : σ → ι → Prop) (step : σ → ι → σ → Prop) (s : σ) (a : ι) (t : σ) : Prop :=
  ok s a ∧ step s a t

variable {step : σ → ι → σ → Prop} {start s : σ} {labels : List ι}

/-- A property of the history and the state that every step carries on holds after every run. -/
theorem Run.history {P : List ι → σ → Prop} (begins : P [] start)
    (carries : ∀ past s a t, P past s → step s a t → P (past ++ [a]) t)
    (run : Run step start labels s) : P labels s := by
  -- The run grows at its end, so each step extends the history by its own label.
  induction run with
  | refl => exact begins
  | tail _ stepped ih => exact carries _ _ _ _ ih stepped

/-- A property of states that every step preserves holds in every state a run reaches. -/
theorem Run.invariant {P : σ → Prop} (begins : P start)
    (carries : ∀ s a t, P s → step s a t → P t)
    (run : Run step start labels s) : P s := by
  induction run with
  | refl => exact begins
  | tail _ stepped ih => exact carries _ _ _ ih stepped

/-- A run of one system is a run of another that has at least its steps. -/
theorem Run.mono {step' : σ → ι → σ → Prop} (more : ∀ s a t, step s a t → step' s a t)
    (run : Run step start labels s) : Run step' start labels s := by
  induction run with
  | refl => exact .refl
  | tail _ stepped ih => exact .tail ih (more _ _ _ stepped)

/-- A run that meets a condition at every step is in particular a run. -/
theorem Run.of_guarded {ok : σ → ι → Prop} (run : Run (Guarded ok step) start labels s) :
    Run step start labels s :=
  run.mono fun _ _ _ stepped => stepped.2

/-- Runs compose. -/
theorem Run.trans {more : List ι} {t : σ} (first : Run step start labels s)
    (second : Run step s more t) : Run step start (labels ++ more) t := by
  -- The second run is replayed step by step after the first.
  induction second with
  | refl => simpa using first
  | tail _ stepped ih =>
    rw [← List.append_assoc]
    exact .tail ih stepped

/-- A single step is a run. -/
theorem Run.single {a : ι} (stepped : step start a s) : Run step start [a] s :=
  Run.tail .refl stepped

/-- A system whose steps are a function runs through every list of labels. -/
theorem Run.foldl (next : σ → ι → σ) (moves : ∀ s a, step s a (next s a)) (labels : List ι) :
    Run step start labels (labels.foldl next start) := by
  induction labels generalizing start with
  | nil => exact .refl
  | cons a labels ih => exact (Run.single (moves start a)).trans ih

/-- A system whose steps are a partial function runs through every list of labels it accepts. -/
theorem Run.foldlM (next : σ → ι → Option σ) (moves : ∀ s a t, next s a = some t → step s a t)
    {labels : List ι} {t : σ} (accepted : labels.foldlM next start = some t) :
    Run step start labels t := by
  -- The first step leads to a state from which the others are accepted.
  induction labels generalizing start with
  | nil =>
    obtain rfl := Option.some.inj accepted
    exact .refl
  | cons a labels ih =>
    rw [List.foldlM_cons] at accepted
    obtain ⟨s, first, later⟩ := Option.bind_eq_some_iff.mp accepted
    exact (Run.single (moves _ _ _ first)).trans (ih later)

/--
A property holds of every beginning of a list exactly if every element behind one meets its condition.

The condition is what the element needs to carry the property on.
-/
theorem forall_prefix_iff {P : List ι → Prop} {Q : List ι → ι → Prop} (begins : P [])
    (carries : ∀ past a, P past → (P (past ++ [a]) ↔ Q past a)) (labels : List ι) :
    (∀ past, past <+: labels → P past) ↔ ∀ past a, past ++ [a] <+: labels → Q past a := by
  constructor
  · -- The property holds on both sides of an element, so its condition is met.
    intro holds past a upTo
    have before := holds past ((List.prefix_append past [a]).trans upTo)
    exact (carries past a before).mp (holds _ upTo)
  · intro fine past
    -- The past grows at its end, up to the whole list.
    induction past using List.reverseRecOn with
    | nil => exact fun _ => begins
    | append_singleton past a ih =>
      intro upTo
      have before := ih ((List.prefix_append past [a]).trans upTo)
      exact (carries past a before).mpr (fine past a upTo)

/-- A property holds in every state of a run exactly if every step meets the condition to carry it on. -/
theorem foldl_forall_prefix_iff {next : σ → ι → σ} {P : σ → Prop} {Q : σ → ι → Prop} (begins : P start)
    (carries : ∀ s a, P s → (P (next s a) ↔ Q s a)) (labels : List ι) :
    (∀ past, past <+: labels → P (past.foldl next start)) ↔
      ∀ past a, past ++ [a] <+: labels → Q (past.foldl next start) a := by
  refine forall_prefix_iff (P := fun past => P (past.foldl next start)) begins ?_ labels
  intro past a holds
  rw [List.foldl_concat]
  exact carries _ a holds

end

end Teetest.Lib
