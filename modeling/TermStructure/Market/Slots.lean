/-!
# Numbered places

Things are kept in places numbered in the order in which they were made. A place that is cleared stays
empty, so that a number never comes to mean something else.
-/

namespace TermStructure

/-- Numbered places. -/
structure Slots (β : Type) where
  places : List (Option β) := []

namespace Slots

variable {β : Type}

/-- How many places there are, the empty ones included. -/
def size (s : Slots β) : Nat := s.places.length

def get? (s : Slots β) (i : Nat) : Option β := s.places[i]?.join

def has (s : Slots β) (i : Nat) : Bool := (s.get? i).isSome

/-- Puts something at a new place, the number of which is the size. -/
def add (s : Slots β) (b : β) : Slots β := ⟨s.places ++ [some b]⟩

def modify (s : Slots β) (i : Nat) (f : β → β) : Slots β := ⟨s.places.modify i (·.map f)⟩

def clear (s : Slots β) (i : Nat) : Slots β := ⟨s.places.set i none⟩

theorem get?_of_size_le {s : Slots β} {i : Nat} (h : s.size ≤ i) : s.get? i = none := by
  simp only [size] at h
  simp [get?, List.getElem?_eq_none h]

theorem get?_add (s : Slots β) (b : β) (i : Nat) :
    (s.add b).get? i = if i = s.size then some b else s.get? i := by
  rcases Nat.lt_trichotomy i s.size with h | h | h
  · rw [if_neg (Nat.ne_of_lt h), get?, add, List.getElem?_append_left h, get?]
  · subst h
    simp [get?, add, size]
  · rw [if_neg (Nat.ne_of_gt h), get?_of_size_le (Nat.le_of_lt h), get?_of_size_le]
    simp only [size, add, List.length_append, List.length_singleton] at h ⊢
    omega

theorem get?_modify (s : Slots β) (i j : Nat) (f : β → β) :
    (s.modify i f).get? j = if i = j then (s.get? j).map f else s.get? j := by
  simp only [get?, modify, List.getElem?_modify]
  split <;> cases s.places[j]? <;> simp

theorem get?_clear (s : Slots β) (i j : Nat) :
    (s.clear i).get? j = if i = j then none else s.get? j := by
  simp only [get?, clear, List.getElem?_set]
  split
  · split <;> rfl
  · rfl

theorem modify_modify (s : Slots β) (i : Nat) (f g : β → β) :
    (s.modify i f).modify i g = s.modify i fun b => g (f b) := by
  simp [modify, List.modify_modify_eq, Function.comp_def]

theorem modify_congr {s : Slots β} {i : Nat} {f g : β → β} (h : ∀ b, s.get? i = some b → f b = g b) :
    s.modify i f = s.modify i g := by
  simp only [modify, mk.injEq]
  refine List.ext_getElem? fun j => ?_
  rw [List.getElem?_modify, List.getElem?_modify]
  split
  · rename_i hij
    subst hij
    simp only [get?] at h
    rcases hi : s.places[i]? with _ | _ | b
    · rfl
    · rfl
    · simp [h b (by simp [hi])]
  · rfl

theorem modify_eq_self {s : Slots β} {i : Nat} {f : β → β} (h : ∀ b, s.get? i = some b → f b = b) :
    s.modify i f = s := by
  have hplaces : s.places.modify i (Option.map id) = s.places := by rw [Option.map_id, List.modify_id]
  rw [modify_congr (g := id) h]
  exact congrArg mk hplaces

theorem modify_of_none {s : Slots β} {i : Nat} (h : s.get? i = none) (f : β → β) :
    s.modify i f = s :=
  modify_eq_self fun b hb => by simp [h] at hb

@[simp] theorem size_add (s : Slots β) (b : β) : (s.add b).size = s.size + 1 := by simp [add, size]

@[simp] theorem size_modify (s : Slots β) (i : Nat) (f : β → β) : (s.modify i f).size = s.size := by
  simp [modify, size]

@[simp] theorem size_clear (s : Slots β) (i : Nat) : (s.clear i).size = s.size := by simp [clear, size]

theorem lt_size_of_get? {s : Slots β} {i : Nat} {b : β} (h : s.get? i = some b) : i < s.size := by
  rcases Nat.lt_or_ge i s.size with hi | hi
  · exact hi
  · rw [get?_of_size_le hi] at h
    cases h

end Slots

end TermStructure
