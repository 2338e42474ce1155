import Mathlib.Data.List.Basic
import Mathlib.Logic.Function.Basic

/-!
# Digests

A digest takes symbols in, one after the other, and keeps a state. Where a step can be told
back from its result, from either side, sequences that differ in one place end in different
states: the symbols there set the states apart, and what follows keeps them apart.
-/

universe u v

/-- Two sequences of one length that differ in exactly one place. -/
structure DifferOnce {α : Type u} (l l' : List α) : Prop where
  length : l.length = l'.length
  place : ∃! i : Nat, l[i]? ≠ l'[i]?

section

variable {α : Type u} {l l' : List α}

/-- What stands before the place and after it is the same. -/
theorem DifferOnce.split (h : DifferOnce l l') : ∃ before a b after,
    l = before ++ a :: after ∧ l' = before ++ b :: after ∧ a ≠ b := by
  obtain ⟨hlength, i, hplace, honly⟩ := h
  have hsame : ∀ j, j ≠ i → l[j]? = l'[j]? := fun j hj => by
    by_contra hne
    exact hj (honly j hne)
  have hin : i < l.length := by
    by_contra hout
    apply hplace
    rw [List.getElem?_eq_none (Nat.le_of_not_lt hout),
      List.getElem?_eq_none (hlength ▸ Nat.le_of_not_lt hout)]
  have hin' : i < l'.length := hlength ▸ hin
  have hbefore : l.take i = l'.take i := by
    apply List.ext_getElem?
    intro j
    rw [List.getElem?_take, List.getElem?_take]
    split
    next hj => exact hsame j (Nat.ne_of_lt hj)
    next => rfl
  have hafter : l.drop (i + 1) = l'.drop (i + 1) := by
    apply List.ext_getElem?
    intro j
    rw [List.getElem?_drop, List.getElem?_drop]
    exact hsame _ (by omega)
  refine ⟨l.take i, l[i], l'[i], l.drop (i + 1), ?_, ?_, fun heq => hplace ?_⟩
  · rw [← List.drop_eq_getElem_cons hin, List.take_append_drop]
  · rw [hbefore, hafter, ← List.drop_eq_getElem_cons hin', List.take_append_drop]
  · rw [List.getElem?_eq_getElem hin, List.getElem?_eq_getElem hin', heq]

/-- The same before both changes nothing. -/
theorem DifferOnce.append_left (h : DifferOnce l l') (before : List α) :
    DifferOnce (before ++ l) (before ++ l') := by
  obtain ⟨hlength, i, hplace, honly⟩ := h
  refine ⟨by rw [List.length_append, List.length_append, hlength], before.length + i, ?_, ?_⟩
  · show (before ++ l)[before.length + i]? ≠ (before ++ l')[before.length + i]?
    rwa [List.getElem?_append_right (by omega), List.getElem?_append_right (by omega),
      Nat.add_sub_cancel_left]
  · intro j hj
    have hlow : before.length ≤ j := by
      by_contra hlt
      apply hj
      rw [List.getElem?_append_left (by omega), List.getElem?_append_left (by omega)]
    rw [List.getElem?_append_right hlow, List.getElem?_append_right hlow] at hj
    have hi := honly _ hj
    omega

end

variable {σ : Type u} {α : Type v} {absorb : σ → α → σ}

/-- A step that loses nothing: the state before is known by the symbol and the state after,
and the symbol by both states. -/
structure Lossless (absorb : σ → α → σ) : Prop where
  state : ∀ a, Function.Injective fun s => absorb s a
  symbol : ∀ s, Function.Injective (absorb s)

namespace Lossless

/-- What is taken in keeps different states apart. -/
theorem foldl_injective (h : Lossless absorb) (l : List α) :
    Function.Injective fun s => l.foldl absorb s := by
  induction l with
  | nil => exact fun _ _ heq => heq
  | cons a l ih =>
    intro s t heq
    apply h.state a
    exact ih heq

/-- Sequences that differ in one place end in different states. -/
theorem foldl_ne (h : Lossless absorb) {l l' : List α} (hdiffer : DifferOnce l l') (s : σ) :
    l.foldl absorb s ≠ l'.foldl absorb s := by
  obtain ⟨before, a, b, after, rfl, rfl, hne⟩ := hdiffer.split
  rw [List.foldl_append, List.foldl_append, List.foldl_cons, List.foldl_cons]
  intro heq
  exact hne (h.symbol _ (h.foldl_injective after heq))

end Lossless
