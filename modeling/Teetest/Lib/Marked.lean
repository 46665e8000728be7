import Mathlib.Tactic

/-!
Marked byte streams: bytes that remember the message they were written as.

A stream of bytes carries no message boundaries.
The marks are kept beside the bytes for reasoning only, and no reader may look at them.
-/

namespace Teetest.Lib

/-- A byte, the kind of message it belongs to, and whether it is that message's first byte. -/
structure Marked (τ : Type*) where
  byte : UInt8
  kind : τ
  first : Bool
deriving DecidableEq

section

variable {τ : Type*}

/-- The bytes of a stream, as its reader sees them. -/
def bytes (s : List (Marked τ)) : List UInt8 := s.map Marked.byte

/-- A message as it is put on a stream. -/
def mark (kind : τ) : List UInt8 → List (Marked τ)
  | [] => []
  | b :: bs => ⟨b, kind, true⟩ :: bs.map (⟨·, kind, false⟩)

@[simp] theorem bytes_nil : bytes ([] : List (Marked τ)) = [] := rfl

@[simp] theorem bytes_append (s t : List (Marked τ)) : bytes (s ++ t) = bytes s ++ bytes t := by
  simp [bytes]

@[simp] theorem bytes_length (s : List (Marked τ)) : (bytes s).length = s.length := by
  simp [bytes]

@[simp] theorem bytes_take (s : List (Marked τ)) (n : Nat) :
    bytes (s.take n) = (bytes s).take n := by
  simp [bytes, List.map_take]

@[simp] theorem bytes_drop (s : List (Marked τ)) (n : Nat) :
    bytes (s.drop n) = (bytes s).drop n := by
  simp [bytes, List.map_drop]

@[simp] theorem bytes_mark (kind : τ) (bs : List UInt8) : bytes (mark kind bs) = bs := by
  cases bs with
  | nil => rfl
  | cons b bs => simp [mark, bytes, Function.comp_def]

@[simp] theorem mark_length (kind : τ) (bs : List UInt8) : (mark kind bs).length = bs.length := by
  cases bs <;> simp [mark]

/-- Every byte of a message carries its kind. -/
theorem kind_of_mem_mark {kind : τ} {bs : List UInt8} {m : Marked τ}
    (member : m ∈ mark kind bs) : m.kind = kind := by
  cases bs with
  | nil => simp [mark] at member
  | cons b bs =>
    simp only [mark, List.mem_cons, List.mem_map] at member
    rcases member with rfl | ⟨c, _, rfl⟩ <;> rfl

/-- A message of at least one byte starts with a first byte and has no other. -/
theorem mark_suffix_first {kind : τ} {bs : List UInt8} {m : Marked τ} {rest : List (Marked τ)}
    (suffix : m :: rest <:+ mark kind bs) (first : m.first = true) :
    m :: rest = mark kind bs := by
  cases bs with
  | nil => simp [mark] at suffix
  | cons b bs =>
    rcases List.suffix_cons_iff.mp suffix with whole | later
    · exact whole
    · -- Behind the first byte no byte is a first one.
      have member : m ∈ bs.map (⟨·, kind, false⟩ : UInt8 → Marked τ) :=
        later.subset (by simp)
      obtain ⟨c, _, rfl⟩ := List.mem_map.mp member
      simp at first

/-- A suffix of two joined strings lies in the second, or is a suffix of the first and all of it. -/
theorem suffix_append_cases {α : Type*} {l a b : List α} (suffix : l <:+ a ++ b) :
    l <:+ b ∨ ∃ front, front ≠ [] ∧ front <:+ a ∧ l = front ++ b := by
  obtain ⟨skipped, split⟩ := suffix
  rcases List.append_eq_append_iff.mp split with ⟨front, rfl, rfl⟩ | ⟨more, rfl, rfl⟩
  · cases front with
    | nil => exact .inl (by simp)
    | cons x front => exact .inr ⟨x :: front, by simp, List.suffix_append _ _, rfl⟩
  · exact .inl (List.suffix_append _ _)

/-- What holds at the first byte of every message, of the stream from there on. -/
def Heads (P : τ → List (Marked τ) → Prop) (s : List (Marked τ)) : Prop :=
  ∀ m rest, m :: rest <:+ s → m.first = true → P m.kind (m :: rest)

variable {P : τ → List (Marked τ) → Prop} {s t : List (Marked τ)}

theorem Heads.nil : Heads P [] := by
  intro m rest suffix
  simp at suffix

/-- What holds of any stream behind a kind holds at the messages of that kind. -/
theorem Heads.of_kinds (kinds : ∀ m ∈ s, ∀ u, P m.kind u) : Heads P s :=
  fun m _ suffix _ => kinds m (suffix.subset (by simp)) _

/-- Reading from the front of a stream keeps what holds at the messages behind. -/
theorem Heads.suffix (heads : Heads P s) (suffix : t <:+ s) : Heads P t :=
  fun m rest later first => heads m rest (later.trans suffix) first

/-- Reading a number of bytes keeps what holds at the messages behind. -/
theorem Heads.drop (heads : Heads P s) (n : Nat) : Heads P (s.drop n) :=
  heads.suffix (List.drop_suffix n s)

/-- A weaker property holds where a stronger one does. -/
theorem Heads.imp {Q : τ → List (Marked τ) → Prop} (heads : Heads P s)
    (weaker : ∀ kind u, P kind u → Q kind u) : Heads Q s :=
  fun m rest suffix first => weaker _ _ (heads m rest suffix first)

/-- The property holds on a single message when it holds of its bytes. -/
theorem Heads.mark {kind : τ} {bs : List UInt8} (message : P kind (Lib.mark kind bs)) :
    Heads P (Lib.mark kind bs) := by
  intro m rest suffix first
  -- The only first byte is the one the message starts with.
  rw [mark_suffix_first suffix first]
  have member : m ∈ Lib.mark kind bs := suffix.subset (by simp)
  rw [kind_of_mem_mark member]
  exact message

/-- Joining two streams keeps the property, if more bytes behind a message cannot break it. -/
theorem Heads.append (heads : Heads P s) (later : Heads P t)
    (grows : ∀ kind u more, P kind u → P kind (u ++ more)) : Heads P (s ++ t) := by
  intro m rest suffix first
  rcases suffix_append_cases suffix with inside | ⟨front, nonempty, within, split⟩
  · exact later m rest inside first
  · -- The first byte lies in the first stream.
    obtain ⟨m', front, rfl⟩ := List.exists_cons_of_ne_nil nonempty
    obtain ⟨rfl, rfl⟩ : m = m' ∧ rest = front ++ t := by simpa using split
    rw [← List.cons_append]
    exact grows _ _ _ (heads m front within first)

/-- What holds at the front of a stream that starts with the first byte of a message. -/
theorem Heads.head (heads : Heads P s) {m : Marked τ} (starts : s.head? = some m)
    (first : m.first = true) : P m.kind s := by
  cases s with
  | nil => simp at starts
  | cons m' rest =>
    obtain rfl : m' = m := by simpa using starts
    exact heads _ rest (List.suffix_refl _) first

end

end Teetest.Lib
