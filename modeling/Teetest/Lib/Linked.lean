import Mathlib.Tactic

/-!
Linked lists in memory: the nodes of a list, and what an insertion or a removal has to write.

A field of the nodes is a function on their addresses. The links to the left of a doubly linked list are
those of its reversed list.
-/

namespace Teetest.Lib

section

variable {ι α : Type*}

/-- Every node of a list points to the next one, and the last to nothing. -/
def Linked (next : ι → Option ι) : List ι → Prop
  | [] => True
  | x :: xs => next x = xs.head? ∧ Linked next xs

/-- The links of a list are those of its nodes. -/
theorem Linked.congr {next next' : ι → Option ι} {xs : List ι} (links : Linked next xs)
    (same : ∀ x ∈ xs, next' x = next x) : Linked next' xs := by
  induction xs with
  | nil => trivial
  | cons x xs ih =>
    exact ⟨(same x List.mem_cons_self).trans links.1,
      ih links.2 fun y member => same y (List.mem_cons_of_mem x member)⟩

/-- The end of a linked list is linked. -/
theorem Linked.right {next : ι → Option ι} {xs ys : List ι} (links : Linked next (xs ++ ys)) :
    Linked next ys := by
  induction xs with
  | nil => exact links
  | cons x xs ih => exact ih links.2

/-- A node of a list points to what follows it. -/
theorem Linked.next_eq {next : ι → Option ι} {xs ys : List ι} {x : ι}
    (links : Linked next (xs ++ x :: ys)) : next x = ys.head? :=
  links.right.1

/-- A doubly linked list, with different nodes. -/
structure DoublyLinked (next prev : ι → Option ι) (xs : List ι) : Prop where
  nodup : xs.Nodup
  next_links : Linked next xs
  prev_links : Linked prev xs.reverse

section

variable {next prev : ι → Option ι} {xs ys : List ι} {x : ι}

/-- The empty list is linked, whatever the nodes hold. -/
theorem DoublyLinked.nil : DoublyLinked next prev [] := ⟨List.nodup_nil, trivial, trivial⟩

/-- The pointer to the right of a node. -/
theorem DoublyLinked.next_eq (list : DoublyLinked next prev (xs ++ x :: ys)) : next x = ys.head? :=
  list.next_links.next_eq

/-- The pointer to the left of a node. -/
theorem DoublyLinked.prev_eq (list : DoublyLinked next prev (xs ++ x :: ys)) : prev x = xs.getLast? := by
  have links := list.prev_links
  rw [List.reverse_append, List.reverse_cons, List.append_assoc, List.singleton_append] at links
  rw [links.next_eq, List.head?_reverse]

/-- The links of a list are those of its nodes. -/
theorem DoublyLinked.congr {next' prev' : ι → Option ι} (list : DoublyLinked next prev xs)
    (sameNext : ∀ x ∈ xs, next' x = next x) (samePrev : ∀ x ∈ xs, prev' x = prev x) :
    DoublyLinked next' prev' xs :=
  ⟨list.nodup, list.next_links.congr sameNext,
    list.prev_links.congr fun x member => samePrev x (List.mem_reverse.mp member)⟩

end

variable [DecidableEq ι]

/-- An assignment to a field of the node behind a pointer, if there is one. -/
def assign (field : ι → α) (p : Option ι) (v : α) : ι → α :=
  p.elim field fun x => Function.update field x v

@[simp] theorem assign_none (field : ι → α) (v : α) : assign field none v = field := rfl

@[simp] theorem assign_some (field : ι → α) (x : ι) (v : α) :
    assign field (some x) v = Function.update field x v := rfl

/-- It leaves the other nodes. -/
theorem assign_of_ne {field : ι → α} {p : Option ι} {v : α} {x : ι} (other : p ≠ some x) :
    assign field p v x = field x := by
  cases p with
  | none => rfl
  | some y => exact Function.update_of_ne (fun same => other (congrArg some same.symm)) v field

/-- A node outside a list can be written. -/
theorem Linked.update_of_notMem {next : ι → Option ι} {xs : List ι} {x : ι} (links : Linked next xs)
    (outside : x ∉ xs) (v : Option ι) : Linked (Function.update next x v) xs :=
  links.congr fun y member =>
    Function.update_of_ne (fun same : y = x => outside (same ▸ member)) v next

/-- So can the node behind a pointer that leads outside. -/
theorem Linked.assign_of_notMem {next : ι → Option ι} {xs : List ι} {p : Option ι}
    (links : Linked next xs) (outside : ∀ x ∈ p, x ∉ xs) (v : Option ι) :
    Linked (assign next p v) xs := by
  cases p with
  | none => exact links
  | some x => exact links.update_of_notMem (outside x rfl) v

/-- A node is inserted: it points to what follows, and what is in front of it points to it. -/
theorem Linked.insert {next : ι → Option ι} {xs ys : List ι} {x : ι} (links : Linked next (xs ++ ys))
    (distinct : (xs ++ x :: ys).Nodup) :
    Linked (assign (Function.update next x ys.head?) xs.getLast? (some x)) (xs ++ x :: ys) := by
  induction xs with
  | nil =>
    -- Nothing is in front of it.
    have outside : x ∉ ys := (List.nodup_cons.mp distinct).1
    exact ⟨Function.update_self x _ next, links.update_of_notMem outside _⟩
  | cons y xs ih =>
    obtain ⟨fresh, later⟩ := List.nodup_cons.mp distinct
    have other : y ≠ x := fun same => fresh (by simp [same])
    cases xs with
    | nil =>
      -- This is the node in front of it.
      have outside : x ∉ ys := (List.nodup_cons.mp later).1
      have apart : y ∉ x :: ys := fresh
      refine ⟨Function.update_self y _ _, ?_⟩
      have inserted : Linked (Function.update next x ys.head?) (x :: ys) :=
        ⟨Function.update_self x _ next, links.2.update_of_notMem outside _⟩
      exact inserted.update_of_notMem apart _
    | cons z xs =>
      -- The writes are further on.
      have same : (y :: z :: xs).getLast? = (z :: xs).getLast? := List.getLast?_cons_cons
      refine ⟨?_, same ▸ ih links.2 later⟩
      have last : (z :: xs).getLast? ≠ some y := fun last =>
        fresh (List.mem_append_left _ (List.mem_of_getLast? last))
      rw [same, assign_of_ne last, Function.update_of_ne other]
      exact links.1

/-- A node is removed: what is in front of it points to what follows it. -/
theorem Linked.remove {next : ι → Option ι} {xs ys : List ι} {x : ι}
    (links : Linked next (xs ++ x :: ys)) (distinct : (xs ++ x :: ys).Nodup) :
    Linked (assign next xs.getLast? ys.head?) (xs ++ ys) := by
  induction xs with
  | nil => exact links.2
  | cons y xs ih =>
    obtain ⟨fresh, later⟩ := List.nodup_cons.mp distinct
    cases xs with
    | nil =>
      -- This is the node in front of it.
      have apart : y ∉ ys := fun member => fresh (List.mem_cons_of_mem x member)
      exact ⟨Function.update_self y _ next, links.2.2.update_of_notMem apart _⟩
    | cons z xs =>
      have same : (y :: z :: xs).getLast? = (z :: xs).getLast? := List.getLast?_cons_cons
      refine ⟨?_, same ▸ ih links.2 later⟩
      have last : (z :: xs).getLast? ≠ some y := fun last =>
        fresh (List.mem_append_left _ (List.mem_of_getLast? last))
      rw [same, assign_of_ne last]
      exact links.1

section

variable {next prev : ι → Option ι} {x : ι}

/-- A node is inserted between two parts of a list, each of which may be empty. -/
theorem DoublyLinked.insert (xs ys : List ι) (list : DoublyLinked next prev (xs ++ ys))
    (fresh : x ∉ xs ++ ys) :
    DoublyLinked (assign (Function.update next x ys.head?) xs.getLast? (some x))
      (assign (Function.update prev x xs.getLast?) ys.head? (some x)) (xs ++ x :: ys) := by
  have distinct : (xs ++ x :: ys).Nodup :=
    List.nodup_middle.mpr (List.nodup_cons.mpr ⟨fresh, list.nodup⟩)
  refine ⟨distinct, list.next_links.insert distinct, ?_⟩
  -- Seen from the right, the parts change places.
  have links := list.prev_links
  have turned : (xs ++ x :: ys).reverse = ys.reverse ++ x :: xs.reverse := by simp
  rw [List.reverse_append] at links
  have reversed := links.insert (x := x) (turned ▸ List.nodup_reverse.mpr distinct)
  rwa [List.head?_reverse, List.getLast?_reverse, ← turned] at reversed

/-- A node is removed from a list. -/
theorem DoublyLinked.remove (xs ys : List ι) (list : DoublyLinked next prev (xs ++ x :: ys)) :
    DoublyLinked (assign next xs.getLast? ys.head?) (assign prev ys.head? xs.getLast?) (xs ++ ys) := by
  have distinct := list.nodup
  refine ⟨(List.nodup_cons.mp (List.nodup_middle.mp distinct)).2, list.next_links.remove distinct, ?_⟩
  have links := list.prev_links
  have turned : (xs ++ x :: ys).reverse = ys.reverse ++ x :: xs.reverse := by simp
  rw [turned] at links
  have reversed := links.remove (turned ▸ List.nodup_reverse.mpr distinct)
  rwa [List.head?_reverse, List.getLast?_reverse, ← List.reverse_append] at reversed

end

end

end Teetest.Lib
