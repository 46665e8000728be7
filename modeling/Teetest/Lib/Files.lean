import Mathlib.Tactic

/-! Named files: a store that keeps them in the order in which they were created. -/

namespace Teetest.Lib

/-- The files of a store, with their contents, oldest first. -/
abbrev Files (ν β : Type*) := List (ν × List β)

section

variable {ν β : Type*}

/-- The number of bytes in all files together. -/
def Files.used (fs : Files ν β) : Nat := (fs.map fun e => e.2.length).sum

/-- The newest files of a store, under names that no other file has. -/
structure Files.Newest (fs recent : Files ν β) : Prop where
  ends : ∃ older, fs = older ++ recent ∧ ∀ e ∈ recent, ∀ o ∈ older, o.1 ≠ e.1
  distinct : (recent.map (·.1)).Nodup

/-- The newest files take no more room than there is in use. -/
theorem Files.Newest.used_le {fs recent : Files ν β} (newest : fs.Newest recent) :
    recent.used ≤ fs.used := by
  obtain ⟨⟨older, rfl, -⟩, -⟩ := newest
  simp [Files.used]

variable [DecidableEq ν]

/-- The contents of a file. -/
def Files.get (fs : Files ν β) (name : ν) : Option (List β) :=
  (fs.find? fun e => e.1 = name).map (·.2)

/-- The store with a new and empty file; an older file of that name is gone. -/
def Files.create (fs : Files ν β) (name : ν) : Files ν β :=
  fs.filter (fun e => e.1 ≠ name) ++ [(name, [])]

/-- The store with the contents of a file changed. -/
def Files.update (fs : Files ν β) (name : ν) (change : List β → List β) : Files ν β :=
  fs.map fun e => if e.1 = name then (e.1, change e.2) else e

variable {fs : Files ν β} {name other : ν}

/-- A new file is empty. -/
theorem Files.get_create_same (fs : Files ν β) (name : ν) :
    (fs.create name).get name = some [] := by
  -- No file of that name is left in front of it.
  have gone : (fs.filter fun e => e.1 ≠ name).find? (fun e => e.1 = name) = none := by
    rw [List.find?_eq_none]
    intro e kept
    simpa using (List.mem_filter.mp kept).2
  rw [create, get, List.find?_append, gone]
  simp

/-- Creating a file leaves the others alone. -/
theorem Files.get_create_ne (fs : Files ν β) (different : other ≠ name) :
    (fs.create name).get other = fs.get other := by
  have kept : (fs.filter fun e => e.1 ≠ name).find? (fun e => e.1 = other) =
      fs.find? fun e => e.1 = other := by
    rw [List.find?_filter]
    congr 1
    funext e
    by_cases same : e.1 = other <;> simp [same, different]
  -- The new file is not the one that is looked for.
  have skip : [(name, ([] : List β))].find? (fun e => e.1 = other) = none := by
    simp [different.symm]
  rw [create, get, get, List.find?_append, kept, skip, Option.or_none]

/-- A change is seen in the file it is made to. -/
theorem Files.get_update_same (fs : Files ν β) (name : ν) (change : List β → List β) :
    (fs.update name change).get name = (fs.get name).map change := by
  induction fs with
  | nil => rfl
  | cons e fs ih =>
    by_cases same : e.1 = name
    · simp [update, get, same]
    · simpa [update, get, same] using ih

/-- A change to one file leaves the others alone. -/
theorem Files.get_update_ne (fs : Files ν β) (different : other ≠ name)
    (change : List β → List β) : (fs.update name change).get other = fs.get other := by
  induction fs with
  | nil => rfl
  | cons e fs ih =>
    by_cases same : e.1 = name
    · -- The changed file is not the one that is looked for.
      have skip : e.1 ≠ other := fun found => different (found.symm.trans same)
      simpa [update, get, same, skip, same ▸ skip] using ih
    · by_cases found : e.1 = other
      · simp [update, get, found, found ▸ same]
      · simpa [update, get, same, found] using ih

variable {recent : Files ν β}

/-- A file that was just created is the newest. -/
theorem Files.Newest.created (fs : Files ν β) (name : ν) :
    (fs.create name).Newest [(name, [])] := by
  refine ⟨⟨fs.filter fun e => e.1 ≠ name, rfl, ?_⟩, by simp⟩
  intro e member o older
  obtain rfl : e = (name, []) := by simpa using member
  simpa using (List.mem_filter.mp older).2

/-- A file of a new name becomes the newest. -/
theorem Files.Newest.create (newest : fs.Newest recent) (fresh : ∀ e ∈ recent, e.1 ≠ name) :
    (fs.create name).Newest (recent ++ [(name, [])]) := by
  obtain ⟨⟨older, rfl, apart⟩, distinct⟩ := newest
  have kept : recent.filter (fun e => e.1 ≠ name) = recent := by
    rw [List.filter_eq_self]
    intro e member
    simpa using fresh e member
  refine ⟨⟨older.filter fun e => e.1 ≠ name, ?_, ?_⟩, ?_⟩
  · simp only [Files.create, List.filter_append, kept, List.append_assoc]
  · -- An older file has neither one of the recent names nor the new one.
    intro e member o older
    obtain ⟨inside, unlike⟩ := List.mem_filter.mp older
    rcases List.mem_append.mp member with old | new
    · exact apart e old o inside
    · obtain rfl : e = (name, []) := by simpa using new
      simpa using unlike
  · simp only [List.map_append, List.map_cons, List.map_nil]
    refine List.Nodup.append distinct (by simp) ?_
    intro n used new
    obtain ⟨e, member, rfl⟩ := List.mem_map.mp used
    exact fresh e member (by simpa using new)

/-- A change to the newest file. -/
theorem Files.Newest.update {contents : List β} (newest : fs.Newest (recent ++ [(name, contents)]))
    (change : List β → List β) :
    (fs.update name change).Newest (recent ++ [(name, change contents)]) := by
  obtain ⟨⟨older, rfl, apart⟩, distinct⟩ := newest
  have before : ∀ e ∈ recent, e.1 ≠ name := by
    intro e member same
    rw [List.map_append, List.nodup_append] at distinct
    exact distinct.2.2 e.1 (List.mem_map_of_mem member) name (by simp) same
  have outside : ∀ o ∈ older, o.1 ≠ name := fun o member => apart (name, contents) (by simp) o member
  -- Files under other names are left as they are.
  have same : ∀ gs : Files ν β, (∀ e ∈ gs, e.1 ≠ name) → gs.update name change = gs := by
    intro gs unlike
    rw [Files.update]
    exact (List.map_congr_left fun e member => if_neg (unlike e member)).trans (List.map_id _)
  have changed : Files.update (older ++ (recent ++ [(name, contents)])) name change =
      older ++ (recent ++ [(name, change contents)]) := by
    have first := same older outside
    have second := same recent before
    simp only [Files.update] at first second
    simp [Files.update, first, second]
  rw [changed]
  refine ⟨⟨older, rfl, ?_⟩, ?_⟩
  · intro e member o inside
    rcases List.mem_append.mp member with old | new
    · exact apart e (List.mem_append_left _ old) o inside
    · obtain rfl : e = (name, change contents) := by simpa using new
      exact outside o inside
  · simpa using distinct

/-- The newest files are found under their names. -/
theorem Files.Newest.get (newest : fs.Newest recent) {contents : List β}
    (member : (name, contents) ∈ recent) : fs.get name = some contents := by
  obtain ⟨⟨older, rfl, apart⟩, distinct⟩ := newest
  have skip : older.find? (fun e => e.1 = name) = none := by
    rw [List.find?_eq_none]
    intro o inside
    simpa using apart _ member o inside
  rw [Files.get, List.find?_append, skip, Option.none_or]
  -- Among the recent files the name stands once.
  induction recent with
  | nil => simp at member
  | cons e recent ih =>
    rw [List.map_cons, List.nodup_cons] at distinct
    rcases List.mem_cons.mp member with rfl | later
    · simp
    · have unlike : e.1 ≠ name := by
        rintro rfl
        exact distinct.1 (List.mem_map_of_mem (f := (·.1)) later)
      rw [List.find?_cons_of_neg (by simpa using unlike)]
      exact ih later distinct.2 fun f inside => apart f (List.mem_cons_of_mem _ inside)

end

end Teetest.Lib
