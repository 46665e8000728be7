import Teetest.Transfer.Sender

/-!
The stream of requests on its way to the Teensy.

A read may start inside a message, so what counts is where a request head can stand.
The fields of a control message leave room for one at its start only.
-/

namespace Teetest

open Lib

/-- Wherever a request for a block stands, its message is whole and asks for at most block `k`. -/
structure Requests (k : Nat) (u : List UInt8) : Prop where
  whole : ∀ v, v <:+ u → tbwf <+: v → ethHeaderSize ≤ v.length ∧ u32 (v.drop 8) ≤ k
  closed : ∀ v, v <:+ u → v.length ≤ 4 → ∀ b ∈ v, b = 0

theorem Requests.nil (k : Nat) : Requests k [] := by
  constructor <;> intro v suffix <;> rw [List.suffix_nil.mp suffix] <;> simp [tbwf]

/-- What is left after a read is a stream of requests. -/
theorem Requests.drop {k : Nat} {u : List UInt8} (requests : Requests k u) (n : Nat) :
    Requests k (u.drop n) where
  whole v suffix := requests.whole v (suffix.trans (List.drop_suffix n u))
  closed v suffix := requests.closed v (suffix.trans (List.drop_suffix n u))

/-- Requests for earlier blocks are requests for blocks up to a later one. -/
theorem Requests.mono {k k' : Nat} {u : List UInt8} (requests : Requests k u) (more : k ≤ k') :
    Requests k' u where
  whole v suffix head := ⟨(requests.whole v suffix head).1, (requests.whole v suffix head).2.trans more⟩
  closed := requests.closed

/-- Two streams of requests one behind the other are a stream of requests. -/
theorem Requests.append {k : Nat} {u m : List UInt8} (requests : Requests k u)
    (message : Requests k m) (long : 4 < m.length) : Requests k (u ++ m) where
  whole v suffix head := by
    rcases suffix_append_cases suffix with inside | ⟨front, nonempty, within, rfl⟩
    · exact message.whole v inside head
    · by_cases short : front.length ≤ 3
      · -- A head cannot begin in the zeros at the end of a message.
        obtain ⟨b, front, rfl⟩ := List.exists_cons_of_ne_nil nonempty
        have zero := requests.closed _ within (by omega) b (by simp)
        simp [tbwf, zero] at head
      · -- A head that begins in the first stream ends there, and so does its message.
        have ahead : tbwf <+: front :=
          List.prefix_of_prefix_length_le head (List.prefix_append _ _) (by simp [tbwf]; omega)
        obtain ⟨fits, number⟩ := requests.whole front within ahead
        refine ⟨by simp; omega, ?_⟩
        unfold ethHeaderSize at fits
        rw [← u32_take, List.drop_append_of_le_length (by omega),
          List.take_append_of_le_length (by simp; omega), u32_take]
        exact number
  closed v suffix short := by
    rcases suffix_append_cases suffix with inside | ⟨front, _, _, rfl⟩
    · exact message.closed v inside short
    · simp at short
      omega

/-- The highest byte of a number below 2^24 is zero. -/
theorem le32_of_lt {j : Nat} (small : j < 2 ^ 24) :
    le32 j = [UInt8.ofNat j, UInt8.ofNat (j / 2 ^ 8), UInt8.ofNat (j / 2 ^ 16), 0] := by
  have low : ((j : Int) % 2 ^ 32).toNat = j := by omega
  simp only [le32, low]
  rw [Nat.div_eq_of_lt small]
  rfl

/-- The bytes of a control message. -/
theorem control_eq {j : Nat} (small : j < 2 ^ 24) (head : List UInt8) :
    control head j = head ++ [0, 0, 0, 0,
      UInt8.ofNat j, UInt8.ofNat (j / 2 ^ 8), UInt8.ofNat (j / 2 ^ 16), 0, 0, 0, 0, 0] := by
  simp [control, le32_of_lt small]

/-- The number in a control message. -/
theorem u32_control {j : Nat} (small : j < 2 ^ 24) : u32 ((control tbwf j).drop 8) = j := by
  have field : (control tbwf j).drop 8 = le32 j ++ [0, 0, 0, 0] := rfl
  rw [field, u32_le32]
  omega

/-- A control message ends in zeros. -/
theorem control_closed (head : List UInt8) (j : Int) (v : List UInt8)
    (suffix : v <:+ control head j) (short : v.length ≤ 4) : ∀ b ∈ v, b = 0 := by
  intro b member
  have tail : v <:+ [0, 0, 0, 0] :=
    List.suffix_of_suffix_length_le suffix (List.suffix_append _ _) (by simpa using short)
  simpa using tail.subset member

/-- A request for a block in range is a stream of requests. -/
theorem Requests.of_tbwf {k j : Nat} (small : j < 2 ^ 24) (inRange : j ≤ k) :
    Requests k (control tbwf j) where
  whole v suffix head := by
    have number := u32_control small
    -- Only the whole message starts with its head.
    rw [control_eq small] at suffix number
    simp only [tbwf, List.cons_append, List.nil_append, List.suffix_cons_iff,
      List.suffix_nil] at suffix
    rcases suffix with rfl | suffix
    · exact ⟨by simp [ethHeaderSize], le_of_eq_of_le number inRange⟩
    · rcases suffix with rfl | rfl | rfl | rfl | rfl | rfl | rfl | rfl | rfl | rfl | rfl | rfl |
        rfl | rfl | rfl | rfl <;> simp [tbwf] at head
  closed := control_closed _ _

/-- A request to repeat holds no request for a block. -/
theorem Requests.of_tbwn {k j : Nat} (small : j < 2 ^ 24) : Requests k (control tbwn j) where
  whole v suffix head := by
    rw [control_eq small] at suffix
    simp only [tbwn, List.cons_append, List.nil_append, List.suffix_cons_iff,
      List.suffix_nil] at suffix
    rcases suffix with rfl | rfl | rfl | rfl | rfl | rfl | rfl | rfl | rfl | rfl | rfl | rfl | rfl |
      rfl | rfl | rfl | rfl <;> simp [tbwf] at head
  closed := control_closed _ _

end Teetest
