import Teetest.Lib.Trace
import Teetest.Src.EventResponder

/-!
The lists of event responders are queues, and no event is lost, unless an event is cleared in the moment
between its leaving the queue and the reset of its flag.
-/

namespace Teetest

open Lib

/-- What the lists are for: two queues. -/
def fifoLists {ι : Type} [DecidableEq ι] : ListCode ι (EventList → List ι) where
  append := fun q this xs => some (Function.update xs q (xs q ++ [this]))
  unlink := fun q this xs => some (Function.update xs q ((xs q).erase this))
  pop := fun q xs => some ((xs q).head?, Function.update xs q (xs q).tail)

/-- The members of the responders link two queues. -/
structure EventLinks.Represents {ι : Type} (l : EventLinks ι) (xs : EventList → List ι) : Prop where
  list : ∀ q, DoublyLinked l.next l.prev (xs q)
  apart : ∀ p q, p ≠ q → ∀ t ∈ xs p, t ∉ xs q
  first : ∀ q, l.first q = (xs q).head?
  last : ∀ q, l.last q = (xs q).getLast?

section

variable {ι : Type} [DecidableEq ι] {l : EventLinks ι} {xs : EventList → List ι} {q : EventList} {t : ι}

omit [DecidableEq ι] in
/-- One of the queues changes, and the nodes of the other are left alone. -/
theorem EventLinks.Represents.change (rep : l.Represents xs) {ys : List ι} {k : EventLinks ι}
    (list : DoublyLinked k.next k.prev ys) (first : k.first = Function.update l.first q ys.head?)
    (last : k.last = Function.update l.last q ys.getLast?)
    (frame : ∀ t, t ∉ xs q → t ∉ ys → k.next t = l.next t ∧ k.prev t = l.prev t)
    (apart : ∀ p, p ≠ q → ∀ t ∈ xs p, t ∉ ys) : k.Represents (Function.update xs q ys) := by
  refine ⟨fun p => ?_, fun p r other t member => ?_, fun p => ?_, fun p => ?_⟩
  · by_cases here : p = q
    · subst here
      rwa [Function.update_self]
    · rw [Function.update_of_ne here]
      have same := fun t member => frame t (rep.apart p q here t member) (apart p here t member)
      exact (rep.list p).congr (fun t member => (same t member).1) fun t member => (same t member).2
  · -- One of the two queues may be the new one.
    by_cases here : p = q
    · subst here
      rw [Function.update_self] at member
      rw [Function.update_of_ne (Ne.symm other)]
      exact fun inside => apart r (Ne.symm other) t inside member
    · rw [Function.update_of_ne here] at member
      by_cases there : r = q
      · subst there
        rw [Function.update_self]
        exact apart p here t member
      · rw [Function.update_of_ne there]
        exact rep.apart p r other t member
  · rw [first]
    by_cases here : p = q
    · subst here
      rw [Function.update_self, Function.update_self]
    · rw [Function.update_of_ne here, Function.update_of_ne here, rep.first]
  · rw [last]
    by_cases here : p = q
    · subst here
      rw [Function.update_self, Function.update_self]
    · rw [Function.update_of_ne here, Function.update_of_ne here, rep.last]

/-- A responder comes to the end of its queue. -/
theorem EventLinks.Represents.append (rep : l.Represents xs) (fresh : ∀ p, t ∉ xs p) (q : EventList) :
    ∃ k, l.append q t = some k ∧ k.Represents (Function.update xs q (xs q ++ [t])) := by
  have whole : DoublyLinked l.next l.prev (xs q ++ []) := (List.append_nil (xs q)).symm ▸ rep.list q
  have grown := whole.insert _ _ (x := t) (by simpa using fresh q)
  have apart : ∀ p, p ≠ q → ∀ u ∈ xs p, u ∉ xs q ++ [t] := by
    intro p other u member inside
    rcases List.mem_append.mp inside with old | new
    · exact rep.apart p q other u member old
    · exact fresh p (List.mem_singleton.mp new ▸ member)
  rcases List.eq_nil_or_concat (xs q) with empty | ⟨front, last, split⟩
  · -- It is the only one.
    have none_ : l.first q = none := by rw [rep.first, empty]; rfl
    rw [empty] at grown
    refine ⟨_, by rw [EventLinks.append, none_], rep.change ?_ ?_ ?_ (fun u _ outside => ?_) apart⟩
    · rw [empty]
      exact grown
    · rw [empty]
      rfl
    · rw [empty]
      rfl
    · have other : u ≠ t := fun same => outside (same ▸ by simp)
      exact ⟨Function.update_of_ne other _ _, Function.update_of_ne other _ _⟩
  · have behind : l.last q = some last := by rw [rep.last, split]; simp
    obtain ⟨first, front_⟩ : ∃ first, l.first q = some first := by
      rw [rep.first, split]
      cases front <;> exact ⟨_, rfl⟩
    have inside : last ∈ xs q := by simp [split]
    have same : (xs q).getLast? = some last := by rw [← rep.last, behind]
    refine ⟨_, by rw [EventLinks.append, front_, behind]; rfl, rep.change ?_ ?_ ?_ (fun u old outside => ?_)
      apart⟩
    · rw [same] at grown
      exact grown
    · -- The first one stays.
      have head : (xs q ++ [t]).head? = l.first q := by
        rw [rep.first, split]
        cases front <;> rfl
      rw [head, Function.update_eq_self]
    · rw [List.getLast?_append]
      rfl
    · have other : u ≠ t := fun same => outside (same ▸ by simp)
      have apart : u ≠ last := fun same => old (same ▸ inside)
      exact ⟨(Function.update_of_ne apart _ _).trans (Function.update_of_ne other _ _),
        Function.update_of_ne other _ _⟩

/-- The code of `unlink`, with its branches in the assignments. -/
theorem EventLinks.unlink_eq (other : l.prev t ≠ some t) :
    l.unlink q t =
      { next := assign l.next (l.prev t) (l.next t)
        prev := assign l.prev (l.next t) (l.prev t)
        first := if l.prev t = none then Function.update l.first q (l.next t) else l.first
        last := if l.next t = none then Function.update l.last q (l.prev t) else l.last } := by
  cases left : l.prev t with
  | none => cases right : l.next t <;> simp [unlink, left, right]
  | some prev =>
    have apart : t ≠ prev := fun same => other (same ▸ left)
    cases right : l.next t <;> simp [unlink, left, right, Function.update_of_ne apart]

/-- A responder is taken out of its queue. -/
theorem EventLinks.Represents.unlink (rep : l.Represents xs) (member : t ∈ xs q) :
    (l.unlink q t).Represents (Function.update xs q ((xs q).erase t)) := by
  obtain ⟨front, rest, split⟩ := List.append_of_mem member
  have list := split ▸ rep.list q
  have distinct := List.nodup_cons.mp (List.nodup_middle.mp list.nodup)
  have next : l.next t = rest.head? := list.next_eq
  have prev : l.prev t = front.getLast? := list.prev_eq
  have fresh : t ∉ front := fun member => distinct.1 (List.mem_append_left _ member)
  have other : l.prev t ≠ some t := fun same => fresh (List.mem_of_getLast? (prev ▸ same))
  have removed : (xs q).erase t = front ++ rest := by
    rw [split, List.erase_append_right _ fresh, List.erase_cons_head]
  rw [EventLinks.unlink_eq other, removed]
  refine rep.change ?_ ?_ ?_ (fun u old outside => ?_) fun p apart u inside old => ?_
  · rw [next, prev]
    exact list.remove _ _
  · rw [prev, next]
    cases front with
    | nil => rfl
    | cons x front =>
      have head : (x :: front ++ rest).head? = l.first q := by rw [rep.first, split]; rfl
      rw [head, Function.update_eq_self, if_neg (by simp)]
  · rw [prev, next]
    rcases List.eq_nil_or_concat' rest with rfl | ⟨rest, x, rfl⟩
    · rw [List.append_nil]
      rfl
    · have last : (front ++ (rest ++ [x])).getLast? = l.last q := by
        rw [rep.last, split, ← List.cons_append, ← List.append_assoc, ← List.append_assoc,
          List.getLast?_concat, List.getLast?_concat]
      rw [last, Function.update_eq_self]
      exact if_neg (by cases rest <;> simp)
  · rw [split] at old
    refine ⟨assign_of_ne fun same => old ?_, assign_of_ne fun same => old ?_⟩
    · exact List.mem_append_left _ (List.mem_of_getLast? (prev ▸ same))
    · exact List.mem_append_right _ (List.mem_cons_of_mem _ (List.mem_of_head? (next ▸ same)))
  · exact rep.apart p q apart u inside (List.mem_of_mem_erase (removed ▸ old))

/-- The first responder is taken out of its queue. -/
theorem EventLinks.Represents.pop (rep : l.Represents xs) (q : EventList) :
    (l.pop q).1 = (xs q).head? ∧ (l.pop q).2.Represents (Function.update xs q (xs q).tail) := by
  cases queue : xs q with
  | nil =>
    have none_ : l.first q = none := by rw [rep.first, queue]; rfl
    have same : Function.update xs q [] = xs := by rw [← queue, Function.update_eq_self]
    rw [EventLinks.pop, none_, List.tail_nil, same]
    exact ⟨rfl, rep⟩
  | cons first rest =>
    have head : l.first q = some first := by rw [rep.first, queue]; rfl
    have list := queue ▸ rep.list q
    have next : l.next first = rest.head? := list.next_links.1
    have popped := list.remove [] rest
    have apart : ∀ p, p ≠ q → ∀ u ∈ xs p, u ∉ rest := fun p other u inside old =>
      rep.apart p q other u inside (queue ▸ List.mem_cons_of_mem first old)
    rw [EventLinks.pop, head]
    simp only [Function.update_self, next]
    cases rest with
    | nil =>
      exact ⟨rfl, rep.change .nil rfl rfl (fun u _ _ => ⟨rfl, rfl⟩) apart⟩
    | cons second rest =>
      refine ⟨rfl, rep.change popped rfl ?_ (fun u _ outside => ⟨rfl, ?_⟩) apart⟩
      · have last : (second :: rest).getLast? = l.last q := by
          rw [rep.last, queue, List.getLast?_cons_cons]
        rw [List.tail_cons, last, Function.update_eq_self]
        rfl
      · exact Function.update_of_ne (fun same => outside (by simp [same])) _ _

end

section

variable {ι φ δ σ τ : Type}

/-- The responders, with the lists replaced. -/
def EventResponders.view (s : EventResponders ι φ δ σ) (lists : τ) : EventResponders ι φ δ τ where
  status := s.status
  function := s.function
  data := s.data
  type := s.type
  triggered := s.triggered
  runningFromYield := s.runningFromYield
  lists := lists
  pendSV := s.pendSV
  pc := s.pc
  called := s.called

/--
What the flags of the responders say about the queues; `lost` are responders whose flag is set although they
are in no queue.
-/
structure EventResponders.Sound (lost : ι → Prop) (s : EventResponders ι φ δ σ)
    (xs : EventList → List ι) : Prop where
  member : ∀ q, ∀ t ∈ xs q, s.triggered t = true ∧ s.type t = q.type
  taken : ∀ q t, s.pc q = .taken t → s.triggered t = true ∧ s.type t = q.type ∧ t ∉ xs q
  waits : ∀ q t, s.triggered t = true → s.type t = q.type → t ∈ xs q ∨ s.pc q = .taken t ∨ lost t
  lost : ∀ t, lost t → s.triggered t = true ∧ s.type t ≠ .immediate ∧ (∀ q, t ∉ xs q) ∧
    ∀ q, s.pc q ≠ .taken t ∧ s.pc q ≠ .calling t
  function : ∀ t, s.type t ≠ .detached → s.function t ≠ none
  calling : ∀ q t, s.pc q = .calling t → s.function t ≠ none
  -- a queue that is not empty is going to be emptied
  wake : xs .interrupt ≠ [] → s.pendSV = true ∨ s.pc .interrupt ≠ .idle
  yields : s.runningFromYield = false → s.pc .yield = .idle

/-- A responder is attached and detached only while it is not triggered, and cleared only while it waits. -/
def EventResponders.Careful (lost : ι → Prop) (s : EventResponders ι φ δ σ) :
    ResponderEvent ι φ δ → Prop
  | .attach this _ _ => s.triggered this = false
  | .detach this => s.triggered this = false
  | .clearEvent this => ¬lost this ∧ ∀ q, s.pc q ≠ .taken this
  | _ => True

/-- The type of a responder of a list. -/
theorem EventType.list_eq_some {type : EventType} {q : EventList} : type.list = some q ↔ type = q.type := by
  cases type <;> cases q <;> simp [list, EventList.type]

theorem EventList.type_inj {p q : EventList} (same : p.type = q.type) : p = q := by
  cases p <;> cases q <;> first | rfl | cases same

end

section

variable {ι φ δ : Type} [DecidableEq ι] {lost : ι → Prop} {s : EventResponders ι φ δ (EventLinks ι)}
  {xs : EventList → List ι}

/-- The code of the source does what the queues do. -/
def Follows (lost : ι → Prop) (code : Option (EventResponders ι φ δ (EventLinks ι)))
    (queues : Option (EventResponders ι φ δ (EventList → List ι))) : Prop :=
  ∃ t ys, code = some t ∧ queues = some (t.view ys) ∧ t.lists.Represents ys ∧ t.Sound lost ys

omit [DecidableEq ι] in
/-- A responder that is not triggered is in no queue. -/
theorem EventResponders.Sound.notMem (sound : s.Sound lost xs) {t : ι} (idle : s.triggered t = false)
    (p : EventList) : t ∉ xs p := by
  intro member
  rw [(sound.member p t member).1] at idle
  cases idle

/-- A trigger. -/
theorem EventResponders.Sound.triggerEventNotImmediate (rep : s.lists.Represents xs)
    (sound : s.Sound lost xs) (this : ι) :
    Follows lost (s.triggerEventNotImmediate pointerLists this)
      ((s.view xs).triggerEventNotImmediate fifoLists this) := by
  by_cases set : s.triggered this = true
  · -- It is triggered already.
    simp only [EventResponders.triggerEventNotImmediate, view, set, ↓reduceIte]
    exact ⟨s, xs, rfl, rfl, rep, sound⟩
  have idle : s.triggered this = false := Bool.eq_false_iff.mpr set
  have fresh := sound.notMem idle
  simp only [EventResponders.triggerEventNotImmediate, view, idle, Bool.false_eq_true, ↓reduceIte]
  cases kind : (s.type this).list with
  | some q =>
    obtain ⟨k, appended, rep'⟩ := rep.append fresh q
    have type := EventType.list_eq_some.mp kind
    simp only [pointerLists, appended, fifoLists, Option.map_some]
    refine ⟨_, _, rfl, rfl, rep', ?_, ?_, ?_, ?_, sound.function, sound.calling, ?_, sound.yields⟩
    · have := sound.member
      grind [EventList.type_inj, Function.update_apply]
    · have := sound.taken
      grind [EventList.type_inj, Function.update_apply]
    · have := sound.waits
      grind [EventList.type_inj, Function.update_apply]
    · have := sound.lost
      grind [EventList.type_inj, Function.update_apply]
    · have := sound.wake
      grind [EventList.type_inj, Function.update_apply]
  | none =>
    have other : ∀ q : EventList, s.type this ≠ q.type := by
      intro q same
      rw [EventType.list_eq_some.mpr same] at kind
      cases kind
    refine ⟨_, xs, rfl, rfl, rep, ?_, ?_, ?_, ?_, sound.function, sound.calling, sound.wake, sound.yields⟩
    · have := sound.member
      grind [Function.update_apply]
    · have := sound.taken
      grind [Function.update_apply]
    · have := sound.waits
      grind [Function.update_apply]
    · have := sound.lost
      grind [Function.update_apply]

omit [DecidableEq ι] in
/-- The function of a responder is called, if it has one. -/
theorem EventResponders.Sound.call (rep : s.lists.Represents xs) (sound : s.Sound lost xs) {this : ι}
    (some_ : s.function this ≠ none) : Follows lost (s.call this) ((s.view xs).call this) := by
  obtain ⟨function, is⟩ := Option.ne_none_iff_exists'.mp some_
  simp only [EventResponders.call, view, is, Option.map_some]
  exact ⟨_, xs, rfl, rfl, rep, sound.member, sound.taken, sound.waits, sound.lost, sound.function,
    sound.calling, sound.wake, sound.yields⟩

/-- A trigger, with its status and its data. -/
theorem EventResponders.Sound.triggerEvent (rep : s.lists.Represents xs) (sound : s.Sound lost xs) (this : ι)
    (status : ℤ) (data : Option δ) :
    Follows lost (s.triggerEvent pointerLists this status data)
      ((s.view xs).triggerEvent fifoLists this status data) := by
  set r : EventResponders ι φ δ (EventLinks ι) := { s with
    status := Function.update s.status this status
    data := Function.update s.data this data } with r_eq
  have sound' : r.Sound lost xs := ⟨sound.member, sound.taken, sound.waits, sound.lost, sound.function,
    sound.calling, sound.wake, sound.yields⟩
  have rep' : r.lists.Represents xs := rep
  by_cases now : s.type this = .immediate
  · have some_ : r.function this ≠ none := sound.function this (by rw [now]; decide)
    have calls := sound'.call rep' some_
    simp only [EventResponders.triggerEvent, view, now, ↓reduceIte]
    exact calls
  · simp only [EventResponders.triggerEvent, view, now, ↓reduceIte]
    exact sound'.triggerEventNotImmediate rep' this

/-- An event is cleared while its responder waits. -/
theorem EventResponders.Sound.clearEvent (rep : s.lists.Represents xs) (sound : s.Sound lost xs) {this : ι}
    (found : ¬lost this) (waits : ∀ q, s.pc q ≠ .taken this) :
    Follows lost (s.clearEvent pointerLists this) ((s.view xs).clearEvent fifoLists this) := by
  by_cases set : s.triggered this = true
  · simp only [EventResponders.clearEvent, view, set, ↓reduceIte]
    cases kind : (s.type this).list with
    | some q =>
      have type := EventType.list_eq_some.mp kind
      have inside : this ∈ xs q := by
        rcases sound.waits q this set type with inside | here | gone
        · exact inside
        · exact absurd here (waits q)
        · exact absurd gone found
      have distinct := (rep.list q).nodup
      simp only [pointerLists, fifoLists, Option.map_some]
      refine ⟨_, _, rfl, rfl, rep.unlink inside, ?_, ?_, ?_, ?_, sound.function, sound.calling, ?_,
        sound.yields⟩
      · have := sound.member
        grind [EventList.type_inj, Function.update_apply, List.Nodup.mem_erase_iff]
      · have := sound.taken
        grind [Function.update_apply, List.mem_of_mem_erase]
      · have := sound.waits
        grind [Function.update_apply, List.Nodup.mem_erase_iff]
      · have := sound.lost
        grind [Function.update_apply, List.mem_of_mem_erase]
      · have := sound.wake
        grind [Function.update_apply]
    | none =>
      have other : ∀ q : EventList, s.type this ≠ q.type := by
        intro q same
        rw [EventType.list_eq_some.mpr same] at kind
        cases kind
      refine ⟨_, xs, rfl, rfl, rep, ?_, ?_, ?_, ?_, sound.function, sound.calling, sound.wake, sound.yields⟩
      · have := sound.member
        grind [Function.update_apply]
      · have := sound.taken
        grind [Function.update_apply]
      · have := sound.waits
        grind [Function.update_apply]
      · have := sound.lost
        grind [Function.update_apply]
  · have idle : s.triggered this = false := Bool.eq_false_iff.mpr set
    simp only [EventResponders.clearEvent, view, idle, Bool.false_eq_true, ↓reduceIte]
    exact ⟨s, xs, rfl, rfl, rep, sound⟩

/-- A responder that is not triggered is detached. -/
theorem EventResponders.Sound.detachNoInterrupts (rep : s.lists.Represents xs) (sound : s.Sound lost xs)
    {this : ι} (idle : s.triggered this = false) :
    ∃ t, s.detachNoInterrupts pointerLists this = some t ∧
      (s.view xs).detachNoInterrupts fifoLists this = some (t.view xs) ∧ t.lists.Represents xs ∧
      t.Sound lost xs ∧ t.triggered this = false := by
  have fresh := sound.notMem idle
  simp only [EventResponders.detachNoInterrupts, view]
  cases kind : (s.type this).list with
  | none => exact ⟨s, rfl, rfl, rep, sound, idle⟩
  | some q =>
    simp only [idle, Bool.false_eq_true, ↓reduceIte, Option.map_some]
    refine ⟨_, rfl, rfl, rep, ⟨?_, ?_, ?_, ?_, ?_, sound.calling, sound.wake, sound.yields⟩, idle⟩
    · have := sound.member
      grind [Function.update_apply]
    · have := sound.taken
      grind [Function.update_apply]
    · have := sound.waits
      grind [Function.update_apply]
    · have := sound.lost
      grind [Function.update_apply]
    · have := sound.function
      grind [Function.update_apply]

/-- A responder that is not triggered is attached. -/
theorem EventResponders.Sound.attach (rep : s.lists.Represents xs) (sound : s.Sound lost xs) {this : ι}
    (idle : s.triggered this = false) (type : EventType) (function : φ) :
    Follows lost (s.attach pointerLists this type function)
      ((s.view xs).attach fifoLists this type function) := by
  obtain ⟨t, detached, same, rep', sound', idle'⟩ := sound.detachNoInterrupts rep idle
  have fresh := sound'.notMem idle'
  simp only [EventResponders.attach, detached, same, Option.map_some]
  refine ⟨_, xs, rfl, rfl, rep', ?_, ?_, ?_, ?_, ?_, ?_, sound'.wake, sound'.yields⟩
  · have := sound'.member
    grind [Function.update_apply]
  · have := sound'.taken
    grind [Function.update_apply]
  · have := sound'.waits
    grind [Function.update_apply]
  · have := sound'.lost
    grind [Function.update_apply]
  · have := sound'.function
    grind [Function.update_apply]
  · have := sound'.calling
    grind [Function.update_apply]

/-- A responder that was taken out of its queue is on its way to its function. -/
theorem EventResponders.Sound.deliver (rep : s.lists.Represents xs) (sound : s.Sound lost xs)
    (q : EventList) : Follows lost (s.deliver q) ((s.view xs).deliver q) := by
  simp only [EventResponders.deliver, view]
  cases pc : s.pc q with
  | idle => exact ⟨s, xs, rfl, rfl, rep, sound⟩
  | loop => exact ⟨s, xs, rfl, rfl, rep, sound⟩
  | inside this => exact ⟨s, xs, rfl, rfl, rep, sound⟩
  | taken this =>
    obtain ⟨set, type, gone⟩ := sound.taken q this pc
    have some_ : s.function this ≠ none := sound.function this (by rw [type]; cases q <;> decide)
    -- It is in no queue: its type is that of the queue it was in.
    have fresh : ∀ p, this ∉ xs p := by
      intro p member
      have same := EventList.type_inj ((sound.member p this member).2.symm.trans type)
      exact gone (same ▸ member)
    refine ⟨_, xs, rfl, rfl, rep, ?_, ?_, ?_, ?_, sound.function, ?_, ?_, ?_⟩
    · have := sound.member
      grind [Function.update_apply]
    · have := sound.taken
      grind [EventList.type_inj, Function.update_apply]
    · have := sound.waits
      grind [Function.update_apply]
    · have := sound.lost
      grind [Function.update_apply]
    · have := sound.calling
      grind [Function.update_apply]
    · have := sound.wake
      grind [Function.update_apply]
    · have := sound.yields
      grind [Function.update_apply]
  | calling this =>
    have some_ := sound.calling q this pc
    obtain ⟨function, is⟩ := Option.ne_none_iff_exists'.mp some_
    simp only [EventResponders.call, is, Option.map_some]
    refine ⟨_, xs, rfl, rfl, rep, sound.member, ?_, ?_, ?_, sound.function, ?_, ?_, ?_⟩
    · have := sound.taken
      grind [Function.update_apply]
    · have := sound.waits
      grind [Function.update_apply]
    · have := sound.lost
      grind [Function.update_apply]
    · have := sound.calling
      grind [Function.update_apply]
    · have := sound.wake
      grind [Function.update_apply]
    · have := sound.yields
      grind [Function.update_apply]

omit [DecidableEq ι] in
/-- A responder is taken out of its queue, by a loop that holds no other. -/
theorem EventResponders.Sound.pop (sound : s.Sound lost xs) {q : EventList} {this : ι} {rest : List ι}
    (distinct : (xs q).Nodup) (queue : xs q = this :: rest) (free : ∀ t, s.pc q ≠ .taken t)
    (running : Bool) (set : q = .yield → running = true)
    (same : q ≠ .yield → running = s.runningFromYield) (lists : EventLinks ι) :
    { s with
      lists
      runningFromYield := running
      pc := Function.update s.pc q (.taken this) }.Sound lost (Function.update xs q rest) := by
  have here : this ∈ xs q := queue ▸ List.mem_cons_self
  have apart : this ∉ rest := (List.nodup_cons.mp (queue ▸ distinct)).1
  refine ⟨?_, ?_, ?_, ?_, sound.function, ?_, ?_, ?_⟩
  · have := sound.member
    grind [Function.update_apply]
  · have := sound.taken
    have := sound.member
    grind [EventList.type_inj, Function.update_apply]
  · have := sound.waits
    grind [Function.update_apply]
  · have := sound.lost
    grind [Function.update_apply]
  · have := sound.calling
    grind [Function.update_apply]
  · have := sound.wake
    grind [Function.update_apply]
  · have := sound.yields
    grind [Function.update_apply]

/-- A step of the loop in the PendSV interrupt. -/
theorem EventResponders.Sound.runFromInterrupt (rep : s.lists.Represents xs) (sound : s.Sound lost xs) :
    Follows lost (s.runFromInterrupt pointerLists) ((s.view xs).runFromInterrupt fifoLists) := by
  have deliver := sound.deliver rep .interrupt
  simp only [EventResponders.runFromInterrupt, view]
  simp only [view] at deliver
  cases pc : s.pc .interrupt with
  | idle => exact deliver
  | taken this => exact deliver
  | calling this => exact deliver
  | loop =>
    obtain ⟨first, rep'⟩ := rep.pop .interrupt
    simp only [pointerLists, fifoLists, Option.map_some, first]
    refine ⟨_, _, rfl, rfl, rep', ?_⟩
    cases queue : xs .interrupt with
    | nil =>
      -- The loop ends.
      have same : Function.update xs .interrupt [].tail = xs := by
        rw [List.tail_nil, ← queue, Function.update_eq_self]
      rw [same, List.head?_nil, Option.elim_none]
      refine ⟨sound.member, ?_, ?_, ?_, sound.function, ?_, fun some_ => absurd queue some_, ?_⟩
      · have := sound.taken
        grind [Function.update_apply]
      · have := sound.waits
        grind [Function.update_apply]
      · have := sound.lost
        grind [Function.update_apply]
      · have := sound.calling
        grind [Function.update_apply]
      · have := sound.yields
        grind [Function.update_apply]
    | cons this rest =>
      rw [List.head?_cons, Option.elim_some, List.tail_cons]
      refine sound.pop (rep.list _).nodup queue (fun t => ?_) s.runningFromYield nofun (fun _ => rfl) _
      rw [pc]
      exact nofun
  | inside this =>
    refine ⟨_, xs, rfl, rfl, rep, sound.member, ?_, ?_, ?_, sound.function, ?_, ?_, ?_⟩
    · have := sound.taken
      grind [Function.update_apply]
    · have := sound.waits
      grind [Function.update_apply]
    · have := sound.lost
      grind [Function.update_apply]
    · have := sound.calling
      grind [Function.update_apply]
    · have := sound.wake
      grind [Function.update_apply]
    · have := sound.yields
      grind [Function.update_apply]

/-- A call of `runFromYield`. -/
theorem EventResponders.Sound.runFromYield (rep : s.lists.Represents xs) (sound : s.Sound lost xs)
    (ipsr : Bool) :
    Follows lost (s.runFromYield pointerLists ipsr) ((s.view xs).runFromYield fifoLists ipsr) := by
  by_cases busy : (ipsr || s.runningFromYield) = true
  · simp only [EventResponders.runFromYield, view, busy, ↓reduceIte]
    exact ⟨s, xs, rfl, rfl, rep, sound⟩
  · have free := Bool.eq_false_iff.mpr busy
    have running : s.runningFromYield = false := (Bool.or_eq_false_iff.mp free).2
    obtain ⟨first, rep'⟩ := rep.pop .yield
    have pc := sound.yields running
    simp only [EventResponders.runFromYield, view, free, Bool.false_eq_true, ↓reduceIte, pointerLists,
      fifoLists, Option.map_some, first]
    cases queue : xs .yield with
    | nil => exact ⟨s, xs, rfl, rfl, rep, sound⟩
    | cons this rest =>
      rw [queue] at rep'
      refine ⟨_, _, rfl, rfl, rep', ?_⟩
      refine sound.pop (rep.list _).nodup queue (fun t => ?_) true (fun _ => rfl)
        (fun other => absurd rfl other) _
      rw [pc]
      exact nofun

/-- A later step of it. -/
theorem EventResponders.Sound.yieldStep (rep : s.lists.Represents xs) (sound : s.Sound lost xs) :
    Follows lost s.yieldStep (s.view xs).yieldStep := by
  have deliver := sound.deliver rep .yield
  simp only [EventResponders.yieldStep, view]
  simp only [view] at deliver
  cases pc : s.pc .yield with
  | idle => exact deliver
  | loop => exact deliver
  | taken this => exact deliver
  | calling this => exact deliver
  | inside this =>
    refine ⟨_, xs, rfl, rfl, rep, sound.member, ?_, ?_, ?_, sound.function, ?_, ?_, ?_⟩
    · have := sound.taken
      grind [Function.update_apply]
    · have := sound.waits
      grind [Function.update_apply]
    · have := sound.lost
      grind [Function.update_apply]
    · have := sound.calling
      grind [Function.update_apply]
    · have := sound.wake
      grind [Function.update_apply]
    · have := sound.yields
      grind [Function.update_apply]

/-- A careful event does to the lists of the source what it does to queues. -/
theorem EventResponders.Sound.event (rep : s.lists.Represents xs) (sound : s.Sound lost xs)
    (e : ResponderEvent ι φ δ) (careful : s.Careful lost e) :
    Follows lost (s.event pointerLists e) ((s.view xs).event fifoLists e) := by
  cases e with
  | attach this type function => exact sound.attach rep careful type function
  | detach this =>
    obtain ⟨t, detached, same, rep', sound', -⟩ := sound.detachNoInterrupts rep careful
    exact ⟨t, xs, detached, same, rep', sound'⟩
  | triggerEvent this status data => exact sound.triggerEvent rep this status data
  | clearEvent this => exact sound.clearEvent rep careful.1 careful.2
  | pendablesrvreq_isr =>
    by_cases starts : (s.pendSV && s.pc .interrupt = .idle) = true
    · have starts' : ((s.view xs).pendSV && (s.view xs).pc .interrupt = .idle) = true := starts
      rw [EventResponders.event, EventResponders.event, if_pos starts, if_pos starts']
      refine ⟨_, xs, rfl, rfl, rep, sound.member, ?_, ?_, ?_, sound.function, ?_, ?_, ?_⟩
      · have := sound.taken
        grind [Function.update_apply]
      · have := sound.waits
        grind [Function.update_apply]
      · have := sound.lost
        grind [Function.update_apply]
      · have := sound.calling
        grind [Function.update_apply]
      · have := sound.wake
        grind [Function.update_apply]
      · have := sound.yields
        grind [Function.update_apply]
    · have starts' : ¬((s.view xs).pendSV && (s.view xs).pc .interrupt = .idle) = true := starts
      rw [EventResponders.event, EventResponders.event, if_neg starts, if_neg starts']
      exact ⟨s, xs, rfl, rfl, rep, sound⟩
  | runFromInterrupt => exact sound.runFromInterrupt rep
  | runFromYield ipsr => exact sound.runFromYield rep ipsr
  | yieldStep => exact sound.yieldStep rep

/-- The step relation of the responders. -/
def ResponderStep {σ : Type} (code : ListCode ι σ) (s : EventResponders ι φ δ σ) (e : ResponderEvent ι φ δ)
    (t : EventResponders ι φ δ σ) : Prop :=
  s.event code e = some t

/-- No responder is lost. -/
def noneLost : ι → Prop := fun _ => False

/-- At the start of the program. -/
def respondersStart : EventResponders ι φ δ (EventLinks ι) := .start .start

omit [DecidableEq ι] in
/-- At the start nothing is attached. -/
theorem respondersStart_sound :
    (respondersStart : EventResponders ι φ δ (EventLinks ι)).Sound noneLost fun _ => [] where
  member := fun _ _ member => absurd member List.not_mem_nil
  taken := fun _ _ taken => by cases taken
  waits := fun _ _ set => by cases set
  lost := fun _ lost => absurd lost id
  function := fun _ attached => absurd rfl attached
  calling := fun _ _ calling => by cases calling
  wake := fun some_ => absurd rfl some_
  yields := fun _ => rfl

omit [DecidableEq ι] in
theorem respondersStart_represents :
    (respondersStart : EventResponders ι φ δ (EventLinks ι)).lists.Represents fun _ => [] :=
  ⟨fun _ => .nil, fun _ _ _ _ member => absurd member List.not_mem_nil, fun _ => rfl, fun _ => rfl⟩

/-- A careful run is a run of queues. -/
theorem EventResponders.Sound.run {events : List (ResponderEvent ι φ δ)}
    {t : EventResponders ι φ δ (EventLinks ι)} (rep : s.lists.Represents xs) (sound : s.Sound lost xs)
    (run : Run (Guarded (EventResponders.Careful lost) (ResponderStep pointerLists)) s events t) :
    ∃ ys, Run (ResponderStep fifoLists) (s.view xs) events (t.view ys) ∧ t.lists.Represents ys ∧
      t.Sound lost ys := by
  induction run with
  | refl => exact ⟨xs, .refl, rep, sound⟩
  | tail _ step ih =>
    obtain ⟨ys, before, rep', sound'⟩ := ih
    obtain ⟨careful, moves⟩ := step
    obtain ⟨u, zs, code, queues, rep'', sound''⟩ := sound'.event rep' _ careful
    obtain rfl := Option.some.inj (code.symm.trans moves)
    exact ⟨zs, before.tail queues, rep'', sound''⟩

/--
The linked lists of the responders are queues. In every run that attaches and detaches responders only while
they are not triggered, and that clears none in the moment between its leaving the list and the reset of its
flag, no null pointer is followed, and the functions that are called, with their arguments, are those that
two queues without pointers give.
-/
theorem responders_fifo {events : List (ResponderEvent ι φ δ)}
    (run : Run (Guarded (EventResponders.Careful noneLost) (ResponderStep pointerLists))
      respondersStart events s) :
    (∃ xs, Run (ResponderStep fifoLists) (.start fun _ => []) events (s.view xs) ∧ s.lists.Represents xs) ∧
      ∀ e, s.Careful noneLost e → ∃ t, s.event pointerLists e = some t := by
  obtain ⟨xs, queues, rep, sound⟩ := respondersStart_sound.run respondersStart_represents run
  refine ⟨⟨xs, queues, rep⟩, fun e careful => ?_⟩
  obtain ⟨t, -, code, -⟩ := sound.event rep e careful
  exact ⟨t, code⟩

omit [DecidableEq ι] in
/-- When the PendSV interrupt neither runs nor is requested, no responder waits for it. -/
theorem EventResponders.Sound.quiet (sound : s.Sound noneLost xs) (quiet : s.pendSV = false)
    (idle : s.pc .interrupt = .idle) {t : ι} (type : s.type t = .interrupt) : s.triggered t = false := by
  by_contra set
  rcases sound.waits .interrupt t (Bool.eq_true_of_not_eq_false set) type with inside | taken | lost
  · -- A queue that is not empty is going to be emptied.
    rcases sound.wake (List.ne_nil_of_mem inside) with requested | runs
    · rw [quiet] at requested
      cases requested
    · exact runs idle
  · rw [idle] at taken
    cases taken
  · exact lost

/-- A responder waits for the PendSV interrupt, or is on its way to its function there. -/
def EventResponders.Due (s : EventResponders ι φ δ (EventLinks ι)) (t : ι) : Prop :=
  s.triggered t = true ∧ s.type t = .interrupt ∨ s.pc .interrupt = .calling t

omit [DecidableEq ι] in
/-- A call is noted. -/
theorem EventResponders.call_called {this : ι} {t : EventResponders ι φ δ (EventLinks ι)}
    (moves : s.call this = some t) : ∃ c, t.called = s.called ++ [c] ∧ c.1 = this := by
  obtain ⟨function, -, rfl⟩ := Option.map_eq_some_iff.mp moves
  exact ⟨_, rfl, rfl⟩

/-- What a loop does with a responder that it has taken: it calls the function, or resets the flag. -/
theorem EventResponders.deliver_cases {q : EventList} {s' : EventResponders ι φ δ (EventLinks ι)}
    (moves : s.deliver q = some s') :
    (∃ this c, s.pc q = .calling this ∧ c.1 = this ∧ s'.called = s.called ++ [c] ∧ s'.type = s.type ∧
      s'.triggered = s.triggered ∧ s'.pc = Function.update s.pc q (.inside this)) ∨
    (∃ this, s.pc q = .taken this ∧ s' = { s with
      triggered := Function.update s.triggered this false
      pc := Function.update s.pc q (.calling this) }) ∨ s' = s := by
  unfold EventResponders.deliver at moves
  cases pc : s.pc q with
  | calling this =>
    rw [pc] at moves
    obtain ⟨r, call, rfl⟩ := Option.map_eq_some_iff.mp moves
    obtain ⟨function, -, rfl⟩ := Option.map_eq_some_iff.mp call
    exact .inl ⟨this, _, rfl, rfl, rfl, rfl, rfl, rfl⟩
  | taken this =>
    rw [pc] at moves
    exact .inr (.inl ⟨this, rfl, (Option.some.inj moves).symm⟩)
  | loop | inside _ | idle =>
    -- Nothing was taken.
    rw [pc] at moves
    exact .inr (.inr (Option.some.inj moves).symm)

/-- The functions that are called are not those of lost responders. -/
theorem EventResponders.Sound.called (sound : s.Sound lost xs) {e : ResponderEvent ι φ δ}
    {t : EventResponders ι φ δ (EventLinks ι)} (moves : s.event pointerLists e = some t) :
    ∃ more, t.called = s.called ++ more ∧ ∀ c ∈ more, ¬lost c.1 := by
  have none_ : t.called = s.called → ∃ more, t.called = s.called ++ more ∧ ∀ c ∈ more, ¬lost c.1 :=
    fun same => ⟨[], by rw [same, List.append_nil], fun c member => absurd member List.not_mem_nil⟩
  -- Behind a step that took a responder out of its queue.
  have delivers : ∀ q, s.deliver q = some t →
      ∃ more, t.called = s.called ++ more ∧ ∀ c ∈ more, ¬lost c.1 := by
    intro q moves
    rcases EventResponders.deliver_cases moves with
      ⟨this, c, pc, here, called, -⟩ | ⟨this, -, rfl⟩ | rfl
    · refine ⟨[c], called, fun d member gone => ?_⟩
      obtain rfl := List.mem_singleton.mp member
      exact ((sound.lost _ gone).2.2.2 q).2 (here ▸ pc)
    · exact none_ rfl
    · exact none_ rfl
  cases e with
  | attach this type function =>
    apply none_
    grind [EventResponders.event, EventResponders.attach, EventResponders.detachNoInterrupts,
      Option.map_eq_some_iff]
  | detach this =>
    apply none_
    grind [EventResponders.event, EventResponders.detachNoInterrupts, Option.map_eq_some_iff]
  | triggerEvent this status data =>
    by_cases now : s.type this = .immediate
    · -- The function is called at once.
      simp only [EventResponders.event, EventResponders.triggerEvent, now, ↓reduceIte] at moves
      obtain ⟨c, called, here⟩ := EventResponders.call_called moves
      refine ⟨[c], called, fun d member gone => ?_⟩
      obtain rfl := List.mem_singleton.mp member
      exact (sound.lost _ gone).2.1 (here ▸ now)
    · apply none_
      simp only [EventResponders.event, EventResponders.triggerEvent, now, ↓reduceIte] at moves
      grind [EventResponders.triggerEventNotImmediate, Option.map_eq_some_iff]
  | clearEvent this =>
    apply none_
    grind [EventResponders.event, EventResponders.clearEvent, Option.map_eq_some_iff]
  | pendablesrvreq_isr =>
    apply none_
    grind [EventResponders.event]
  | runFromInterrupt =>
    by_cases delivering : s.runFromInterrupt pointerLists = s.deliver .interrupt
    · exact delivers .interrupt (delivering ▸ moves)
    · apply none_
      grind [EventResponders.event, EventResponders.runFromInterrupt, Option.map_eq_some_iff]
  | runFromYield ipsr =>
    apply none_
    grind [EventResponders.event, EventResponders.runFromYield, Option.map_eq_some_iff]
  | yieldStep =>
    by_cases delivering : s.yieldStep = s.deliver .yield
    · exact delivers .yield (delivering ▸ moves)
    · apply none_
      grind [EventResponders.event, EventResponders.yieldStep]

/-- What `detachNoInterrupts` leaves alone. -/
theorem EventResponders.detach_frame {this : ι} {s' : EventResponders ι φ δ (EventLinks ι)}
    (moves : s.detachNoInterrupts pointerLists this = some s') :
    s'.triggered = s.triggered ∧ s'.pc = s.pc ∧ ∀ t ≠ this, s'.type t = s.type t := by
  unfold EventResponders.detachNoInterrupts at moves
  split at moves
  · obtain ⟨lists, -, rfl⟩ := Option.map_eq_some_iff.mp moves
    exact ⟨rfl, rfl, fun t other => Function.update_of_ne other _ _⟩
  · obtain rfl := Option.some.inj moves
    exact ⟨rfl, rfl, fun t other => rfl⟩

/-- What `clearEvent` leaves alone. -/
theorem EventResponders.clear_frame {this : ι} {s' : EventResponders ι φ δ (EventLinks ι)}
    (moves : s.clearEvent pointerLists this = some s') :
    s'.type = s.type ∧ s'.pc = s.pc ∧ ∀ t ≠ this, s'.triggered t = s.triggered t := by
  unfold EventResponders.clearEvent at moves
  split_ifs at moves
  · obtain ⟨lists, -, rfl⟩ := Option.map_eq_some_iff.mp moves
    exact ⟨rfl, rfl, fun t other => Function.update_of_ne other _ _⟩
  · obtain rfl := Option.some.inj moves
    exact ⟨rfl, rfl, fun t other => rfl⟩

/-- What a trigger leaves alone, and that it raises the flag unless it calls at once. -/
theorem EventResponders.trigger_frame {this : ι} {status : ℤ} {data : Option δ}
    {s' : EventResponders ι φ δ (EventLinks ι)}
    (moves : s.triggerEvent pointerLists this status data = some s') :
    s'.type = s.type ∧ s'.pc = s.pc ∧ (∀ t, s.triggered t = true → s'.triggered t = true) ∧
      (s.type this ≠ .immediate → s'.triggered this = true) := by
  unfold EventResponders.triggerEvent at moves
  dsimp only at moves
  split_ifs at moves with now
  · obtain ⟨function, -, rfl⟩ := Option.map_eq_some_iff.mp moves
    exact ⟨rfl, rfl, fun t set => set, fun other => absurd now other⟩
  have raised : ∀ t, s.triggered t = true → Function.update s.triggered this true t = true := by
    intro t set
    rw [Function.update_apply, set, ite_self]
  unfold EventResponders.triggerEventNotImmediate at moves
  split_ifs at moves with set
  · -- The flag is up already.
    obtain rfl := Option.some.inj moves
    exact ⟨rfl, rfl, fun t set => set, fun _ => set⟩
  split at moves
  · obtain ⟨lists, -, rfl⟩ := Option.map_eq_some_iff.mp moves
    exact ⟨rfl, rfl, raised, fun _ => Function.update_self _ _ _⟩
  · obtain rfl := Option.some.inj moves
    exact ⟨rfl, rfl, raised, fun _ => Function.update_self _ _ _⟩

/-- A trigger makes a responder of the interrupt due. -/
theorem EventResponders.due_of_trigger {t : ι} (attached : s.type t = .interrupt) {status : ℤ}
    {data : Option δ} {s' : EventResponders ι φ δ (EventLinks ι)}
    (moves : s.event pointerLists (.triggerEvent t status data) = some s') : s'.Due t := by
  obtain ⟨type, -, -, raised⟩ := EventResponders.trigger_frame moves
  exact .inl ⟨raised (by rw [attached]; decide), by rw [type, attached]⟩

/-- What a loop has taken out is called if it is due, or stays due. -/
theorem EventResponders.Sound.due_deliver (sound : s.Sound noneLost xs) {t : ι} (due : s.Due t)
    {q : EventList} {s' : EventResponders ι φ δ (EventLinks ι)} (moves : s.deliver q = some s') :
    s'.Due t ∨ ∃ c, s'.called = s.called ++ [c] ∧ c.1 = t := by
  rcases EventResponders.deliver_cases moves with
    ⟨this, c, pc, here, called, type, triggered, pc'⟩ | ⟨this, pc, rfl⟩ | rfl
  · rcases due with ⟨set, kind⟩ | calling
    · exact .inl (.inl ⟨by rw [triggered, set], by rw [type, kind]⟩)
    · by_cases own : q = .interrupt
      · -- The function of what is on its way is called.
        subst own
        rw [pc] at calling
        cases calling
        exact .inr ⟨c, called, here⟩
      · exact .inl (.inr (by rw [pc', Function.update_of_ne (Ne.symm own), calling]))
  · left
    rcases due with ⟨set, kind⟩ | calling
    · by_cases same : t = this
      · -- Its flag is reset, and its function is called next; the loop is that of its type.
        subst same
        obtain rfl : q = .interrupt := EventList.type_inj ((sound.taken q t pc).2.1.symm.trans kind)
        have next : Function.update s.pc .interrupt (.calling t) .interrupt = .calling t :=
          Function.update_self _ _ _
        exact .inr next
      · exact .inl ⟨(Function.update_of_ne same _ _).trans set, kind⟩
    · have other : EventList.interrupt ≠ q := by
        rintro rfl
        rw [pc] at calling
        cases calling
      exact .inr ((Function.update_of_ne other _ _).trans calling)
  · exact .inl due

/-- A step of a loop calls the function that is due, or leaves it due. -/
theorem EventResponders.Sound.due_loops (sound : s.Sound noneLost xs) {t : ι} (due : s.Due t)
    {e : ResponderEvent ι φ δ} (loop : e = .runFromInterrupt ∨ e = .yieldStep)
    {s' : EventResponders ι φ δ (EventLinks ι)} (moves : s.event pointerLists e = some s') :
    s'.Due t ∨ ∃ c, s'.called = s.called ++ [c] ∧ c.1 = t := by
  rcases loop with rfl | rfl
  · simp only [EventResponders.event, EventResponders.runFromInterrupt] at moves
    cases pc : s.pc .interrupt with
    | calling _ | taken _ | idle =>
      rw [pc] at moves
      exact sound.due_deliver due moves
    | loop =>
      rw [pc] at moves
      obtain ⟨r, -, rfl⟩ := Option.map_eq_some_iff.mp moves
      exact .inl (due.imp_right fun calling => by rw [pc] at calling; cases calling)
    | inside _ =>
      rw [pc] at moves
      obtain rfl := Option.some.inj moves
      exact .inl (due.imp_right fun calling => by rw [pc] at calling; cases calling)
  · simp only [EventResponders.event, EventResponders.yieldStep] at moves
    cases pc : s.pc .yield with
    | calling _ | taken _ | loop | idle =>
      rw [pc] at moves
      exact sound.due_deliver due moves
    | inside _ =>
      rw [pc] at moves
      obtain rfl := Option.some.inj moves
      -- The loop of the interrupt is where it was.
      have other : EventList.interrupt ≠ .yield := by decide
      have same : Function.update s.pc .yield .idle .interrupt = s.pc .interrupt :=
        Function.update_of_ne other _ _
      exact .inl (due.imp_right fun calling => same.trans calling)

/-- What is due stays due until its function is called, unless it is cleared. -/
theorem EventResponders.Sound.due_step (sound : s.Sound noneLost xs) {t : ι} (due : s.Due t)
    {e : ResponderEvent ι φ δ} (careful : s.Careful noneLost e) (kept : e ≠ .clearEvent t)
    {s' : EventResponders ι φ δ (EventLinks ι)} (moves : s.event pointerLists e = some s') :
    s'.Due t ∨ ∃ c, s'.called = s.called ++ [c] ∧ c.1 = t := by
  have waiting {this : ι} (idle : s.triggered this = false) (set : s.triggered t = true) : t ≠ this := by
    rintro rfl
    rw [idle] at set
    cases set
  cases e with
  | attach this type function =>
    -- A responder that waits is not attached.
    obtain ⟨r, detached, rfl⟩ := Option.map_eq_some_iff.mp moves
    obtain ⟨triggered, pc, types⟩ := EventResponders.detach_frame detached
    rcases due with ⟨set, kind⟩ | calling
    · have other := waiting careful set
      have type' : Function.update r.type this type t = .interrupt := by
        rw [Function.update_of_ne other, types t other, kind]
      exact .inl (.inl ⟨by rw [triggered]; exact set, type'⟩)
    · exact .inl (.inr (by rw [pc]; exact calling))
  | detach this =>
    obtain ⟨triggered, pc, types⟩ := EventResponders.detach_frame moves
    rcases due with ⟨set, kind⟩ | calling
    · have other := waiting careful set
      exact .inl (.inl ⟨by rw [triggered]; exact set, (types t other).trans kind⟩)
    · exact .inl (.inr (by rw [pc]; exact calling))
  | triggerEvent this status data =>
    obtain ⟨type, pc, raised, -⟩ := EventResponders.trigger_frame moves
    exact .inl (due.imp (fun waits => ⟨raised t waits.1, by rw [type]; exact waits.2⟩)
      fun calling => by rw [pc]; exact calling)
  | clearEvent this =>
    obtain ⟨type, pc, others⟩ := EventResponders.clear_frame moves
    have other : t ≠ this := fun same => kept (by rw [same])
    exact .inl (due.imp (fun waits => ⟨(others t other).trans waits.1, by rw [type]; exact waits.2⟩)
      fun calling => by rw [pc]; exact calling)
  | pendablesrvreq_isr =>
    unfold EventResponders.event at moves
    dsimp only at moves
    split_ifs at moves with starts
    · -- The interrupt starts only where nothing is called.
      obtain rfl := Option.some.inj moves
      refine .inl (due.imp_right fun calling => ?_)
      rw [calling] at starts
      simp at starts
    · obtain rfl := Option.some.inj moves
      exact .inl due
  | runFromInterrupt => exact sound.due_loops due (.inl rfl) moves
  | runFromYield ipsr =>
    unfold EventResponders.event EventResponders.runFromYield at moves
    dsimp only at moves
    split_ifs at moves
    · obtain rfl := Option.some.inj moves
      exact .inl due
    · obtain ⟨⟨first, lists⟩, -, rfl⟩ := Option.map_eq_some_iff.mp moves
      cases first with
      | none => exact .inl due
      | some first =>
        -- The other loop starts.
        have other : EventList.interrupt ≠ .yield := by decide
        have same : Function.update s.pc .yield (.taken first) .interrupt = s.pc .interrupt :=
          Function.update_of_ne other _ _
        exact .inl (due.imp_right fun calling => same.trans calling)
  | yieldStep => exact sound.due_loops due (.inr rfl) moves

/-- Over a run, what is due stays due or its function is called. -/
theorem EventResponders.Sound.due_run (rep : s.lists.Represents xs) (sound : s.Sound noneLost xs) {t : ι}
    (due : s.Due t) {later : List (ResponderEvent ι φ δ)} (kept : .clearEvent t ∉ later)
    {w : EventResponders ι φ δ (EventLinks ι)}
    (run : Run (Guarded (EventResponders.Careful noneLost) (ResponderStep pointerLists)) s later w) :
    ∃ more, w.called = s.called ++ more ∧ (w.Due t ∨ ∃ c ∈ more, c.1 = t) := by
  induction run with
  | refl => exact ⟨[], (List.append_nil _).symm, .inl due⟩
  | tail before step ih =>
    obtain ⟨more, called, ended⟩ := ih fun member => kept (List.mem_append_left _ member)
    obtain ⟨ys, -, -, sound'⟩ := sound.run rep before
    obtain ⟨careful, moves⟩ := step
    obtain ⟨last, now, -⟩ := sound'.called moves
    refine ⟨more ++ last, by rw [now, called, List.append_assoc], ?_⟩
    rcases ended with still | ⟨c, member, here⟩
    · have other := fun same => kept (List.mem_append_right _ (List.mem_singleton.mpr same))
      rcases sound'.due_step still careful (fun same => other same.symm) moves with due' | ⟨c, one, here⟩
      · exact .inl due'
      · have last_eq := List.append_cancel_left (now.symm.trans one)
        exact .inr ⟨c, List.mem_append_right _ (last_eq ▸ List.mem_singleton_self c), here⟩
    · exact .inr ⟨c, List.mem_append_left _ member, here⟩

/--
No event is lost. When the PendSV interrupt neither runs nor is requested in such a run, no responder waits
for it, and the function of every one that was triggered while it was attached to this interrupt has been
called since, unless its event was cleared.
-/
theorem no_event_lost {before after : List (ResponderEvent ι φ δ)}
    {r r' : EventResponders ι φ δ (EventLinks ι)} {t : ι} {status : ℤ} {data : Option δ}
    (run : Run (Guarded (EventResponders.Careful noneLost) (ResponderStep pointerLists))
      respondersStart before r)
    (attached : r.type t = .interrupt)
    (triggered : Guarded (EventResponders.Careful noneLost) (ResponderStep pointerLists) r
      (.triggerEvent t status data) r')
    (later : Run (Guarded (EventResponders.Careful noneLost) (ResponderStep pointerLists)) r' after s)
    (kept : .clearEvent t ∉ after) (quiet : s.pendSV = false) (idle : s.pc .interrupt = .idle) :
    (s.type t = .interrupt → s.triggered t = false) ∧
      ∃ more, s.called = r'.called ++ more ∧ ∃ c ∈ more, c.1 = t := by
  obtain ⟨xs, -, rep, sound⟩ :=
    respondersStart_sound.run respondersStart_represents (run.tail triggered)
  obtain ⟨ys, -, -, sound'⟩ := sound.run rep later
  refine ⟨sound'.quiet quiet idle, ?_⟩
  obtain ⟨more, called, due | call⟩ :=
    sound.due_run rep (EventResponders.due_of_trigger attached triggered.2) kept later
  · -- At rest, nothing is due.
    rcases due with ⟨set, type⟩ | calling
    · rw [sound'.quiet quiet idle type] at set
      cases set
    · rw [idle] at calling
      cases calling
  · exact ⟨more, called, call⟩

/-- A lost responder stays lost, and its function is not called. -/
theorem EventResponders.Sound.lost_run {later : List (ResponderEvent ι φ δ)}
    {w : EventResponders ι φ δ (EventLinks ι)} (rep : s.lists.Represents xs) (sound : s.Sound lost xs)
    (run : Run (Guarded (EventResponders.Careful lost) (ResponderStep pointerLists)) s later w) :
    (∀ u, lost u → w.triggered u = true) ∧
      ∃ more, w.called = s.called ++ more ∧ ∀ c ∈ more, ¬lost c.1 := by
  induction run with
  | refl =>
    exact ⟨fun u gone => (sound.lost u gone).1, [], (List.append_nil _).symm,
      fun c member => absurd member List.not_mem_nil⟩
  | tail before step ih =>
    obtain ⟨-, more, called, others⟩ := ih
    obtain ⟨ys, -, rep', sound'⟩ := sound.run rep before
    obtain ⟨careful, moves⟩ := step
    obtain ⟨w, zs, code, -, -, sound''⟩ := sound'.event rep' _ careful
    obtain rfl := Option.some.inj (code.symm.trans moves)
    obtain ⟨last, now, these⟩ := sound'.called moves
    refine ⟨fun u gone => (sound''.lost u gone).1, more ++ last, ?_, fun c member => ?_⟩
    · rw [now, called, List.append_assoc]
    · rcases List.mem_append.mp member with old | new
      · exact others c old
      · exact these c new

/-- A responder that is left alone in its queue is lost when the queue is emptied behind its back. -/
theorem EventResponders.Sound.orphan (sound : s.Sound noneLost xs) {t u : ι}
    (taken : s.pc .interrupt = .taken t) (queue : xs .interrupt = [u]) (other : u ≠ t)
    (free : s.pc .yield ≠ .calling u) (lists : EventLinks ι) :
    { s with
      lists
      triggered := Function.update s.triggered t false
      pc := Function.update s.pc .interrupt (.calling t) }.Sound (· = u)
        (Function.update xs .interrupt []) := by
  obtain ⟨-, kind, -⟩ := sound.taken .interrupt t taken
  have some_ : s.function t ≠ none := sound.function t (by rw [kind]; decide)
  obtain ⟨set, kind'⟩ := sound.member .interrupt u (queue ▸ List.mem_cons_self)
  have differ : EventList.yield.type ≠ EventList.interrupt.type := by decide
  refine ⟨?_, ?_, ?_, ?_, sound.function, ?_, fun some_ => ?_, ?_⟩
  · have := sound.member
    grind [EventList.type_inj, Function.update_apply]
  · have := sound.taken
    grind [EventList.type_inj, Function.update_apply]
  · have := sound.waits
    grind [EventList.type_inj, Function.update_apply, noneLost]
  · have := sound.taken
    have := sound.member
    have : EventList.interrupt.type ≠ .immediate := by decide
    have : ∀ q, q ≠ .interrupt → s.pc q ≠ .calling u := by
      intro q apart
      cases q with
      | yield => exact free
      | interrupt => exact absurd rfl apart
    grind [EventList.type_inj, Function.update_apply]
  · have := sound.calling
    grind [Function.update_apply]
  · exact absurd (Function.update_self _ _ _) some_
  · have := sound.yields
    grind [Function.update_apply]

omit [DecidableEq ι] in
/-- The one responder of a queue. -/
theorem EventLinks.Represents.alone {l : EventLinks ι} (rep : l.Represents xs) {q : EventList} {t : ι}
    (first : l.first q = some t) (last : l.last q = some t) : xs q = [t] := by
  have head := rep.first q ▸ first
  have back := rep.last q ▸ last
  have distinct := (rep.list q).nodup
  cases queue : xs q with
  | nil =>
    rw [queue] at head
    cases head
  | cons x rest =>
    rw [queue] at head back distinct
    obtain rfl := Option.some.inj head
    cases rest with
    | nil => rfl
    | cons y rest =>
      -- It would be in the list twice.
      rw [List.getLast?_cons_cons] at back
      exact absurd (List.mem_of_getLast? back) (List.nodup_cons.mp distinct).1

/--
The code is not safe in the moment that is left out above. After any careful run, let `runFromInterrupt` take
the only responder `t` out of its list, let another responder `u` be triggered, and let the event of `t` be
cleared before its flag is reset. Then, in every later run that is as careful as the ones above and that
does not clear, detach or attach `u`, the function of `u` is not called again, however often it is triggered.
-/
theorem event_lost_for_ever {events : List (ResponderEvent ι φ δ)} {t u : ι}
    (run : Run (Guarded (EventResponders.Careful noneLost) (ResponderStep pointerLists))
      respondersStart events s)
    (loop : s.pc .interrupt = .loop) (first : s.lists.first .interrupt = some t)
    (last : s.lists.last .interrupt = some t) (other : u ≠ t) (type : s.type u = .interrupt)
    (idle : s.triggered u = false) (free : s.pc .yield ≠ .calling u) (status : ℤ) (data : Option δ) :
    ∃ v, [.runFromInterrupt, .triggerEvent u status data, .clearEvent t, .runFromInterrupt].foldlM
        (EventResponders.event pointerLists) s = some v ∧
      ∀ later w,
        Run (Guarded (EventResponders.Careful (· = u)) (ResponderStep pointerLists)) v later w →
          w.triggered u = true ∧ ∃ more, w.called = v.called ++ more ∧ ∀ c ∈ more, c.1 ≠ u := by
  obtain ⟨xs, -, rep, sound⟩ := respondersStart_sound.run respondersStart_represents run
  have queue := rep.alone first last
  have list := queue ▸ rep.list .interrupt
  have next : s.lists.next t = none := list.next_links.1
  have prev : s.lists.prev t = none := list.prev_links.1
  obtain ⟨set, kind⟩ := sound.member .interrupt t (queue ▸ List.mem_cons_self)
  -- The responder leaves the list, and the other one enters it.
  obtain ⟨s₁, ys₁, code₁, -, rep₁, sound₁⟩ := sound.event rep .runFromInterrupt trivial
  have s₁_eq : s₁ = { s with
      lists := { s.lists with
        first := Function.update s.lists.first .interrupt none
        last := Function.update s.lists.last .interrupt none }
      pc := Function.update s.pc .interrupt (.taken t) } := by
    simp only [EventResponders.event, EventResponders.runFromInterrupt, loop, pointerLists, EventLinks.pop,
      first, next, Function.update_self, Option.map_some, Option.elim_some, Option.some.injEq] at code₁
    exact code₁.symm
  obtain ⟨s₂, ys₂, code₂, -, rep₂, sound₂⟩ := sound₁.event rep₁ (.triggerEvent u status data) trivial
  have s₂_eq : s₂ = { s₁ with
      status := Function.update s.status u status
      data := Function.update s.data u data
      lists := {
        next := Function.update s.lists.next u none
        prev := Function.update s.lists.prev u none
        first := Function.update s₁.lists.first .interrupt (some u)
        last := Function.update s₁.lists.last .interrupt (some u) }
      pendSV := true
      triggered := Function.update s.triggered u true } := by
    simp [s₁_eq, EventResponders.event, EventResponders.triggerEvent, type, idle, pointerLists,
      EventResponders.triggerEventNotImmediate, EventType.list, EventLinks.append] at code₂
    exact (by simpa [s₁_eq] using code₂.symm)
  have queue₂ : ys₂ .interrupt = [u] :=
    rep₂.alone (by simp [s₂_eq]) (by simp [s₂_eq])
  have next₂ : s₂.lists.next t = none := by
    rw [s₂_eq]
    exact (Function.update_of_ne (Ne.symm other) _ _).trans next
  have prev₂ : s₂.lists.prev t = none := by
    rw [s₂_eq]
    exact (Function.update_of_ne (Ne.symm other) _ _).trans prev
  have set₂ : s₂.triggered t = true := by
    rw [s₂_eq]
    exact (Function.update_of_ne (Ne.symm other) _ _).trans set
  have type₂ : s₂.type = s.type := by rw [s₂_eq, s₁_eq]
  have pc₂ : s₂.pc = Function.update s.pc .interrupt (.taken t) := by rw [s₂_eq, s₁_eq]
  have taken : s₂.pc .interrupt = .taken t := by rw [pc₂, Function.update_self]
  -- Both ends of the list are lost with the event that is cleared.
  set v : EventResponders ι φ δ (EventLinks ι) := { s₂ with
    lists := { s₂.lists with
      first := Function.update s₂.lists.first .interrupt none
      last := Function.update s₂.lists.last .interrupt none }
    triggered := Function.update s₂.triggered t false
    pc := Function.update s₂.pc .interrupt (.calling t) } with v_eq
  have code : [.runFromInterrupt, .triggerEvent u status data, .clearEvent t, .runFromInterrupt].foldlM
      (EventResponders.event pointerLists) s = some v := by
    have type₂' : s₂.type t = .interrupt := type₂ ▸ kind
    have cleared : s₂.event pointerLists (.clearEvent t) = some { s₂ with
        lists := { s₂.lists with
          first := Function.update s₂.lists.first .interrupt none
          last := Function.update s₂.lists.last .interrupt none }
        triggered := Function.update s₂.triggered t false } := by
      simp [EventResponders.event, EventResponders.clearEvent, set₂, type₂', EventType.list, pointerLists,
        EventLinks.unlink, prev₂, next₂]
    set r := { s₂ with
      lists := { s₂.lists with
        first := Function.update s₂.lists.first .interrupt none
        last := Function.update s₂.lists.last .interrupt none }
      triggered := Function.update s₂.triggered t false } with r_eq
    have reset : r.event pointerLists .runFromInterrupt = some v := by
      simp [EventResponders.event, EventResponders.runFromInterrupt, EventResponders.deliver, r_eq, taken,
        v_eq]
    simp only [List.foldlM_cons, List.foldlM_nil, code₁, code₂, cleared, reset, Option.bind_eq_bind,
      Option.bind_some]
    rfl
  have empty : v.lists.Represents (Function.update ys₂ .interrupt []) :=
    rep₂.change .nil rfl rfl (fun _ _ _ => ⟨rfl, rfl⟩) fun _ _ _ _ => List.not_mem_nil
  have yields : s₂.pc .yield ≠ .calling u := by
    rw [pc₂, Function.update_of_ne (by decide)]
    exact free
  have sound' := sound₂.orphan taken queue₂ other yields v.lists
  exact ⟨v, code, fun later w run => by
    obtain ⟨still, rest⟩ := sound'.lost_run empty run
    exact ⟨still u rfl, rest⟩⟩

end

/-- Two responders are attached, one is triggered, and the interrupt starts. -/
def respondersBusy : EventResponders Bool Unit Unit (EventLinks Bool) where
  status := Function.update (fun _ => 0) true 0
  function := Function.update (Function.update (fun _ => none) true (some ())) false (some ())
  data := Function.update (fun _ => none) true none
  type := Function.update (Function.update (fun _ => .detached) true .interrupt) false .interrupt
  triggered := Function.update (fun _ => false) true true
  runningFromYield := false
  lists := {
    next := Function.update (fun _ => none) true none
    prev := Function.update (fun _ => none) true none
    first := Function.update (fun _ => none) .interrupt (some true)
    last := Function.update (fun _ => none) .interrupt (some true) }
  pendSV := false
  pc := Function.update (fun _ => .idle) .interrupt .loop
  called := []

theorem respondersBusy_run :
    Run (Guarded (EventResponders.Careful noneLost) (ResponderStep pointerLists)) respondersStart
      [.attach true .interrupt (), .attach false .interrupt (), .triggerEvent true 0 none,
        .pendablesrvreq_isr] respondersBusy := by
  have one : Run (Guarded (EventResponders.Careful noneLost) (ResponderStep pointerLists))
      (respondersStart : EventResponders Bool Unit Unit _) [.attach true .interrupt ()] _ :=
    .single ⟨rfl, rfl⟩
  have two := one.tail (a := ResponderEvent.attach false .interrupt ()) ⟨rfl, rfl⟩
  have three := two.tail (a := ResponderEvent.triggerEvent true 0 none) ⟨trivial, rfl⟩
  exact three.tail (a := ResponderEvent.pendablesrvreq_isr) ⟨trivial, rfl⟩

/-- What the run of two responders calls is what queues call. -/
theorem responders_fifo_busy : ∃ xs, Run (ResponderStep fifoLists) (.start fun _ => [])
    [.attach true .interrupt (), .attach false .interrupt (), .triggerEvent true 0 none,
      .pendablesrvreq_isr] (respondersBusy.view xs) := by
  obtain ⟨⟨xs, run, -⟩, -⟩ := responders_fifo respondersBusy_run
  exact ⟨xs, run⟩

/-- The two responders before one is triggered, and behind the trigger. -/
def respondersAttached : EventResponders Bool Unit Unit (EventLinks Bool) where
  status := fun _ => 0
  function := respondersBusy.function
  data := fun _ => none
  type := respondersBusy.type
  triggered := fun _ => false
  runningFromYield := false
  lists := .start
  pendSV := false
  pc := fun _ => .idle
  called := []
def respondersTriggered : EventResponders Bool Unit Unit (EventLinks Bool) :=
  { respondersBusy with
    pendSV := true
    pc := fun _ => .idle }

/-- The interrupt is at rest again when the function was called. -/
theorem no_event_lost_quiet : ∃ s : EventResponders Bool Unit Unit (EventLinks Bool),
    s.called = [(true, (), 0, none)] ∧ s.triggered true = false := by
  have one : Run (Guarded (EventResponders.Careful noneLost) (ResponderStep pointerLists))
      (respondersStart : EventResponders Bool Unit Unit _) [.attach true .interrupt ()] _ :=
    .single ⟨rfl, rfl⟩
  have before : Run (Guarded (EventResponders.Careful noneLost) (ResponderStep pointerLists))
      respondersStart [.attach true .interrupt (), .attach false .interrupt ()] respondersAttached :=
    one.tail (a := ResponderEvent.attach false .interrupt ()) ⟨rfl, rfl⟩
  -- The interrupt starts, takes the responder, resets its flag, calls its function, and finds no other.
  have starts : Run (Guarded (EventResponders.Careful noneLost) (ResponderStep pointerLists))
      respondersTriggered [.pendablesrvreq_isr] respondersBusy := .single ⟨trivial, rfl⟩
  have two := starts.tail (a := ResponderEvent.runFromInterrupt) ⟨trivial, rfl⟩
  have three := two.tail (a := ResponderEvent.runFromInterrupt) ⟨trivial, rfl⟩
  have four := three.tail (a := ResponderEvent.runFromInterrupt) ⟨trivial, rfl⟩
  have five := four.tail (a := ResponderEvent.runFromInterrupt) ⟨trivial, rfl⟩
  have later := five.tail (a := ResponderEvent.runFromInterrupt) ⟨trivial, rfl⟩
  -- The trigger asked for the interrupt.
  have triggered : Guarded (EventResponders.Careful noneLost) (ResponderStep pointerLists)
      respondersAttached (.triggerEvent true 0 none) respondersTriggered := ⟨trivial, rfl⟩
  obtain ⟨down, -⟩ := no_event_lost before rfl triggered later (by simp) rfl rfl
  exact ⟨_, rfl, down rfl⟩

/-- The two responders after the race, in which the other one is triggered. -/
def respondersLost : EventResponders Bool Unit Unit (EventLinks Bool) :=
  ([.runFromInterrupt, .triggerEvent false 0 none, .clearEvent true, .runFromInterrupt].foldlM
    (EventResponders.event pointerLists) respondersBusy).getD respondersBusy

/--
The other of the two responders is lost: the interrupt ends, and starts again when it is triggered once
more, but only the first function is called.
-/
theorem event_lost_for_ever_busy : ∃ w : EventResponders Bool Unit Unit (EventLinks Bool),
    Run (Guarded (EventResponders.Careful (· = false)) (ResponderStep pointerLists)) respondersLost
      [.runFromInterrupt, .runFromInterrupt, .runFromInterrupt, .triggerEvent false 1 none,
        .pendablesrvreq_isr, .runFromInterrupt] w ∧
      w.pc .interrupt = .idle ∧ w.triggered false = true ∧ ∀ c ∈ w.called, c.1 ≠ false := by
  obtain ⟨v, code, lost⟩ := event_lost_for_ever respondersBusy_run rfl rfl rfl
    (by decide : false ≠ true) rfl rfl nofun 0 none
  obtain rfl : respondersLost = v := by rw [respondersLost, code, Option.getD_some]
  have one : Run (Guarded (EventResponders.Careful (· = false)) (ResponderStep pointerLists))
      respondersLost [.runFromInterrupt] _ := .single ⟨trivial, rfl⟩
  have two := one.tail (a := ResponderEvent.runFromInterrupt) ⟨trivial, rfl⟩
  have three := two.tail (a := ResponderEvent.runFromInterrupt) ⟨trivial, rfl⟩
  have four := three.tail (a := ResponderEvent.triggerEvent false 1 none) ⟨trivial, rfl⟩
  have five := four.tail (a := ResponderEvent.pendablesrvreq_isr) ⟨trivial, rfl⟩
  have later := five.tail (a := ResponderEvent.runFromInterrupt) ⟨trivial, rfl⟩
  obtain ⟨still, more, called, others⟩ := lost _ _ later
  refine ⟨_, later, rfl, still, fun c member => others c ?_⟩
  -- Nothing was called before.
  rw [called] at member
  exact (List.mem_append.mp member).resolve_left List.not_mem_nil

end Teetest
