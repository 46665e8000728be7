import Mathlib.Data.List.Basic

/-! Machines that follow each other: the labels one passes on to another, and labels that do not show. -/

namespace Teetest.Lib

section

variable {σ τ ι κ α : Type*}

/-- The labels that a machine with states `α` passes on while it reads others. -/
def transduce (next : α → ι → α) (out : α → ι → List κ) : α → List ι → List κ
  | _, [] => []
  | s, a :: labels => out s a ++ transduce next out (next s a) labels

/-- What is passed on over two parts of a list is passed on over each. -/
theorem transduce_append (next : α → ι → α) (out : α → ι → List κ) (s : α) (first later : List ι) :
    transduce next out s (first ++ later) =
      transduce next out s first ++ transduce next out (first.foldl next s) later := by
  induction first generalizing s with
  | nil => rfl
  | cons a first ih =>
    rw [List.cons_append, transduce, transduce, ih, List.append_assoc, List.foldl_cons]

variable {next : σ → ι → σ}

/--
A view of a machine follows a second machine through the labels that a third one passes on.

A step of the first is a step of the third and, in the view, the labels that this step passes on.
-/
theorem foldl_transduce (view : σ → τ) {next' : τ → κ → τ} {counts : α → ι → α} {out : α → ι → List κ}
    {R : σ → α → Prop} (keeps : ∀ s x a, R s x → R (next s a) (counts x a))
    (follows : ∀ s x a, R s x → view (next s a) = (out x a).foldl next' (view s))
    (labels : List ι) {s : σ} {x : α} (related : R s x) :
    view (labels.foldl next s) = (transduce counts out x labels).foldl next' (view s) := by
  induction labels generalizing s x with
  | nil => rfl
  | cons a labels ih =>
    rw [List.foldl_cons, ih (keeps s x a related), transduce, List.foldl_append,
      ← follows s x a related]

variable {P : σ → Prop}

/--
Labels whose steps a view does not show can be taken out of a run.

The other steps have to look alike from states that look alike.
-/
theorem foldl_purge {view : σ → τ} {hidden : ι → Bool} (keeps : ∀ s a, P s → P (next s a))
    (silent : ∀ s a, P s → hidden a = true → view (next s a) = view s)
    (alike : ∀ s t a, P s → P t → view s = view t → view (next s a) = view (next t a))
    (labels : List ι) {s t : σ} (left : P s) (right : P t) (same : view s = view t) :
    view (labels.foldl next s) = view ((labels.filter fun a => !hidden a).foldl next t) := by
  -- The second run lags behind exactly where the first takes a hidden step.
  induction labels generalizing s t with
  | nil => exact same
  | cons a labels ih =>
    rw [List.foldl_cons]
    cases shown : hidden a with
    | true =>
      rw [List.filter_cons_of_neg (by simp [shown])]
      exact ih (keeps s a left) right ((silent s a left shown).trans same)
    | false =>
      rw [List.filter_cons_of_pos (by simp [shown]), List.foldl_cons]
      exact ih (keeps s a left) (keeps t a right) (alike s t a left right same)

end

end Teetest.Lib
