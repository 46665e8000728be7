import Mathlib.Tactic

/-! The search for a word in a text: the first place where it stands. -/

namespace Teetest.Lib

/-- Where `strstr` finds a word in a C string: the characters from there on. -/
def strstr (word : List UInt8) : List UInt8 → Option (List UInt8)
  | [] => if word = [] then some [] else none
  | c :: cs => if word.isPrefixOf (c :: cs) then some (c :: cs) else strstr word cs

/-- A word stands at a place of a text, and at none before. -/
structure FirstAt (word text : List UInt8) (i : Nat) : Prop where
  here : word <+: text.drop i
  first : ∀ j < i, ¬ word <+: text.drop j

/-- `strstr` finds nothing exactly if the word stands nowhere. -/
theorem strstr_eq_none_iff {word : List UInt8} (some_ : word ≠ []) (text : List UInt8) :
    strstr word text = none ↔ ∀ i, ¬ word <+: text.drop i := by
  induction text with
  | nil => simp [strstr, some_]
  | cons c cs ih =>
    unfold strstr
    by_cases here : word.isPrefixOf (c :: cs) = true
    · rw [if_pos here]
      refine iff_of_false (by simp) fun nowhere => nowhere 0 ?_
      exact List.isPrefixOf_iff_prefix.mp here
    · rw [if_neg here, ih]
      have other : ¬ word <+: c :: cs := fun found => here (List.isPrefixOf_iff_prefix.mpr found)
      -- The places behind the first character are those of the rest.
      constructor
      · intro nowhere i
        cases i with
        | zero => exact other
        | succ i => exact nowhere i
      · exact fun nowhere i => nowhere (i + 1)

/-- `strstr` finds the first place where the word stands. -/
theorem strstr_eq_some {word text found : List UInt8} (some_ : word ≠ [])
    (finds : strstr word text = some found) : ∃ i, FirstAt word text i ∧ found = text.drop i := by
  induction text with
  | nil => simp [strstr, some_] at finds
  | cons c cs ih =>
    unfold strstr at finds
    by_cases here : word.isPrefixOf (c :: cs) = true
    · rw [if_pos here] at finds
      refine ⟨0, ⟨List.isPrefixOf_iff_prefix.mp here, fun j low => absurd low (Nat.not_lt_zero j)⟩, ?_⟩
      exact (Option.some.inj finds).symm
    · rw [if_neg here] at finds
      obtain ⟨i, at_, rfl⟩ := ih finds
      refine ⟨i + 1, ⟨at_.here, fun j low => ?_⟩, rfl⟩
      cases j with
      | zero => exact fun found => here (List.isPrefixOf_iff_prefix.mpr found)
      | succ j => exact at_.first j (by omega)

/-- There is one first place. -/
theorem FirstAt.unique {word text : List UInt8} {i j : Nat} (one : FirstAt word text i)
    (other : FirstAt word text j) : i = j := by
  rcases Nat.lt_trichotomy i j with low | same | high
  · exact absurd one.here (other.first i low)
  · exact same
  · exact absurd other.here (one.first j high)

/-- A word that stands first at a place is found there. -/
theorem FirstAt.strstr_eq {word text : List UInt8} {i : Nat} (some_ : word ≠ [])
    (at_ : FirstAt word text i) : strstr word text = some (text.drop i) := by
  cases finds : strstr word text with
  | none => exact absurd at_.here ((strstr_eq_none_iff some_ text).mp finds i)
  | some found =>
    obtain ⟨j, first, rfl⟩ := strstr_eq_some some_ finds
    rw [at_.unique first]

/-- A word stands inside the text it stands in. -/
theorem FirstAt.le {word text : List UInt8} {i : Nat} (at_ : FirstAt word text i) (some_ : word ≠ []) :
    i + word.length ≤ text.length := by
  have fits := at_.here.length_le
  have positive := List.length_pos_iff.mpr some_
  rw [List.length_drop] at fits
  omega

/-- The place of a rest of a text. -/
theorem length_sub_drop {text : List UInt8} {i : Nat} (inside : i ≤ text.length) :
    text.length - (text.drop i).length = i := by
  rw [List.length_drop]
  omega

end Teetest.Lib
