import Mathlib.Data.List.Basic

/-!
# Pages of a list that grows

A reader takes a list in pages, from an offset into the list as it then is, until a page
comes out empty or reaches the end. Between two reads the list may grow, at its end or
anywhere else. The offset never passes an item that was there at the first read and was not
read: what is inserted before the offset moves items towards the reader, not past it.
-/

namespace Offsets

variable {α : Type*}

structure Reader (α : Type*) where
  received : List α
  offset : Nat
  done : Bool

/-- A reader that has read nothing. -/
def Reader.start : Reader α := ⟨[], 0, false⟩

def page (items : List α) (offset size : Nat) : List α := (items.drop offset).take size

/-- One read: a page, and whether there is more to come. -/
def Reader.read (c : Reader α) (items : List α) (size : Nat) : Reader α :=
  if c.done then c
  else {
    received := c.received ++ page items c.offset size
    offset := c.offset + (page items c.offset size).length
    done := !decide (c.offset + (page items c.offset size).length < items.length ∧
      page items c.offset size ≠ []) }

/-- The reader after `n` reads. -/
def reads (items : Nat → List α) (size : Nat → Nat) : Nat → Reader α
  | 0 => .start
  | n + 1 => (reads items size n).read (items n) (size n)

theorem drop_page (items : List α) (offset size : Nat) :
    items.drop (offset + (page items offset size).length) = (items.drop offset).drop size := by
  rw [page, List.length_take, List.length_drop, List.drop_drop]
  by_cases h : size ≤ items.length - offset
  · rw [Nat.min_eq_left h]
  · rw [Nat.min_eq_right (Nat.le_of_not_le h), List.drop_eq_nil_of_le (by omega),
      List.drop_eq_nil_of_le (by omega)]

/-- A page and what comes after it. -/
theorem page_append (items : List α) (offset size : Nat) :
    page items offset size ++ items.drop (offset + (page items offset size).length) =
      items.drop offset := by
  rw [drop_page, page, List.take_append_drop]

theorem page_eq_nil {items : List α} {offset size : Nat} (hsize : 0 < size) :
    page items offset size = [] ↔ items.length ≤ offset := by
  rw [page, List.take_eq_nil_iff, List.drop_eq_nil_iff]
  constructor
  · rintro (h | h)
    · exact absurd h (Nat.pos_iff_ne_zero.mp hsize)
    · exact h
  · exact .inr

/-- A read of a reader that goes on. -/
theorem read_of_open {c : Reader α} (h : c.done = false) (items : List α) (size : Nat) :
    c.read items size = {
      received := c.received ++ page items c.offset size
      offset := c.offset + (page items c.offset size).length
      done := !decide (c.offset + (page items c.offset size).length < items.length ∧
        page items c.offset size ≠ []) } := by
  rw [Reader.read, h]
  rfl

theorem read_of_done {c : Reader α} (h : c.done = true) (items : List α) (size : Nat) :
    c.read items size = c := by
  rw [Reader.read, if_pos h]

/-- A reader that is done has left nothing after its offset. -/
theorem rest_of_done {items : List α} {offset size : Nat} (hsize : 0 < size)
    (h : (!decide (offset + (page items offset size).length < items.length ∧
      page items offset size ≠ [])) = true) :
    items.drop (offset + (page items offset size).length) = [] := by
  rw [Bool.not_eq_true', decide_eq_false_iff_not, not_and_or] at h
  rw [List.drop_eq_nil_iff]
  rcases h with h | h
  · exact Nat.le_of_not_lt h
  · rw [not_not, page_eq_nil hsize] at h
    exact Nat.le_trans h (Nat.le_add_right _ _)

section Growing

variable {items : Nat → List α} {size : Nat → Nat}

/-- What was there at the first read has been read, or is still to come. -/
theorem reads_keep (hgrow : ∀ n, (items n).Sublist (items (n + 1))) (hsize : ∀ n, 0 < size n)
    {x : α} (hx : x ∈ items 0) (n : Nat) :
    x ∈ (reads items size n).received ∨
      (reads items size n).done = false ∧ x ∈ (items n).drop (reads items size n).offset := by
  induction n with
  | zero => exact .inr ⟨rfl, hx⟩
  | succ n ih =>
    rw [reads]
    rcases ih with hread | ⟨hopen, hrest⟩
    · left
      by_cases hdone : (reads items size n).done = true
      · rwa [read_of_done hdone]
      · rw [read_of_open (Bool.not_eq_true _ ▸ hdone)]
        exact List.mem_append_left _ hread
    · rw [read_of_open hopen]
      rw [← page_append (items n) (reads items size n).offset (size n)] at hrest
      rcases List.mem_append.mp hrest with hpage | hlater
      · exact .inl (List.mem_append_right _ hpage)
      · refine .inr ⟨?_, ((hgrow n).drop _).subset hlater⟩
        by_contra hdone
        rw [rest_of_done (hsize n) (Bool.not_eq_false _ ▸ hdone)] at hlater
        cases hlater

/-- Where the list stays as it was, what was read is the front of it, up to the offset. -/
theorem reads_front (hsame : ∀ n, items n = items 0) (hsize : ∀ n, 0 < size n) (n : Nat) :
    (reads items size n).received ++ (items 0).drop (reads items size n).offset = items 0 ∧
      ((reads items size n).done = true →
        (items 0).drop (reads items size n).offset = []) := by
  induction n with
  | zero => exact ⟨rfl, nofun⟩
  | succ n ih =>
    obtain ⟨hfront, hend⟩ := ih
    rw [reads]
    by_cases hdone : (reads items size n).done = true
    · rw [read_of_done hdone]
      exact ⟨hfront, hend⟩
    · rw [read_of_open (Bool.not_eq_true _ ▸ hdone), hsame n]
      refine ⟨?_, rest_of_done (hsize n)⟩
      rw [List.append_assoc, page_append]
      exact hfront

/-- While it goes on, the reader's offset grows; it does not go on past the end. -/
theorem read_offset {c : Reader α} {xs : List α} {k : Nat} (h : (c.read xs k).done = false) :
    c.done = false ∧ c.offset < (c.read xs k).offset ∧ (c.read xs k).offset < xs.length := by
  by_cases hdone : c.done = true
  · rw [read_of_done hdone, hdone] at h
    cases h
  · have hopen : c.done = false := Bool.not_eq_true _ ▸ hdone
    rw [read_of_open hopen] at h ⊢
    rw [Bool.not_eq_false', decide_eq_true_eq] at h
    exact ⟨hopen, Nat.lt_add_of_pos_right (List.length_pos_iff.mpr h.2), h.1⟩

/-- A reader of a list that stops growing comes to its end. -/
theorem reads_done (size : Nat → Nat) {N : Nat} (hstill : ∀ n, N ≤ n → items n = items N) :
    ∃ n, (reads items size n).done = true := by
  by_contra hnever
  have hopen : ∀ n, (reads items size n).done = false := by
    intro n
    by_contra hdone
    exact hnever ⟨n, Bool.not_eq_false _ ▸ hdone⟩
  -- each read of the last list moves the offset on, and it stays inside the list
  have hfar : ∀ k, k ≤ (reads items size (N + k)).offset := by
    intro k
    induction k with
    | zero => exact Nat.zero_le _
    | succ k ih =>
      obtain ⟨-, hlt, -⟩ := read_offset (hopen (N + k + 1))
      exact Nat.lt_of_le_of_lt ih hlt
  have hinside : (reads items size (N + ((items N).length + 1))).offset <
      (items (N + (items N).length)).length :=
    (read_offset (hopen (N + (items N).length + 1))).2.2
  rw [hstill (N + (items N).length) (Nat.le_add_right _ _)] at hinside
  have hreached := hfar ((items N).length + 1)
  exact absurd (Nat.lt_of_le_of_lt hreached hinside) (Nat.not_lt.mpr (Nat.le_succ _))

end Growing

end Offsets
