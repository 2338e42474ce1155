import Mathlib.Order.Bounds.Basic
import Mathlib.Order.MinMax

/-!
# Bounds and tilings of a list

A running minimum that starts at the top of its type is the least element of
what it ran over, and a running maximum the greatest. `Tiles a spans b` says
that spans of an offset and a size follow one another from `a` to `b`, each of
them nonempty and none of them overlapping or leaving a gap.
-/

namespace Bounds

variable {α : Type*} [LinearOrder α]

theorem foldr_min_le_top (top : α) (l : List α) : l.foldr min top ≤ top := by
  induction l with
  | nil => exact le_refl top
  | cons a l ih => exact (min_le_right _ _).trans ih

theorem foldr_min_le (top : α) {l : List α} {a : α} (ha : a ∈ l) : l.foldr min top ≤ a := by
  induction l with
  | nil => exact absurd ha List.not_mem_nil
  | cons b l ih =>
    rcases List.mem_cons.mp ha with rfl | ha
    · exact min_le_left _ _
    · exact (min_le_right _ _).trans (ih ha)

theorem le_foldr_max (bot : α) {l : List α} {a : α} (ha : a ∈ l) : a ≤ l.foldr max bot := by
  induction l with
  | nil => exact absurd ha List.not_mem_nil
  | cons b l ih =>
    rcases List.mem_cons.mp ha with rfl | ha
    · exact le_max_left _ _
    · exact (ih ha).trans (le_max_right _ _)

theorem foldr_min_append (top : α) (l m : List α) :
    (l ++ m).foldr min top = min (l.foldr min top) (m.foldr min top) := by
  induction l with
  | nil => exact (min_eq_right (foldr_min_le_top top m)).symm
  | cons a l ih =>
    rw [List.cons_append, List.foldr_cons, List.foldr_cons, ih, min_assoc]

/-- One more element at the end, as a running minimum takes it. -/
theorem foldr_min_concat (top : α) (l : List α) (a : α) :
    (l ++ [a]).foldr min top = min (l.foldr min top) a := by
  have hlast : [a].foldr min top = min top a := min_comm a top
  rw [foldr_min_append, hlast, ← min_assoc, min_eq_left (foldr_min_le_top top l)]

/-- Over a nonempty list within the bound, the fold is the least element. -/
theorem foldr_min_isLeast {top : α} {l : List α} (hne : l ≠ []) (htop : ∀ a ∈ l, a ≤ top) :
    IsLeast {a | a ∈ l} (l.foldr min top) := by
  induction l with
  | nil => exact absurd rfl hne
  | cons a l ih =>
    by_cases hl : l = []
    · subst hl
      have ha : min a top = a := min_eq_left (htop a List.mem_cons_self)
      refine ⟨?_, ?_⟩
      · show min a top ∈ [a]
        rw [ha]
        exact List.mem_cons_self
      · intro b hb
        obtain rfl := List.mem_singleton.mp hb
        exact min_le_left _ _
    · obtain ⟨hmem, hleast⟩ := ih hl fun b hb => htop b (List.mem_cons_of_mem _ hb)
      refine ⟨?_, ?_⟩
      · show min a (l.foldr min top) ∈ a :: l
        rcases min_choice a (l.foldr min top) with h | h
        · rw [h]
          exact List.mem_cons_self
        · rw [h]
          exact List.mem_cons_of_mem _ hmem
      · intro b hb
        rcases List.mem_cons.mp hb with rfl | hb
        · exact min_le_left _ _
        · exact (min_le_right _ _).trans (hleast hb)

/-- The dual of `foldr_min_append`. -/
theorem foldr_max_append (bot : α) (l m : List α) :
    (l ++ m).foldr max bot = max (l.foldr max bot) (m.foldr max bot) :=
  foldr_min_append (α := αᵒᵈ) bot l m

/-- The dual of `foldr_min_concat`. -/
theorem foldr_max_concat (bot : α) (l : List α) (a : α) :
    (l ++ [a]).foldr max bot = max (l.foldr max bot) a :=
  foldr_min_concat (α := αᵒᵈ) bot l a

/-- The dual of `foldr_min_isLeast`. -/
theorem foldr_max_isGreatest {bot : α} {l : List α} (hne : l ≠ []) (hbot : ∀ a ∈ l, bot ≤ a) :
    IsGreatest {a | a ∈ l} (l.foldr max bot) :=
  foldr_min_isLeast (α := αᵒᵈ) hne hbot

/-! ## Tilings -/

/-- Nonempty spans that follow one another from the first offset to the last. -/
def Tiles : Nat → List (Nat × Nat) → Nat → Prop
  | start, [], stop => start = stop
  | start, (offset, size) :: spans, stop =>
    offset = start ∧ 0 < size ∧ Tiles (start + size) spans stop

end Bounds
