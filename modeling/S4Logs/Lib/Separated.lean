import Mathlib.Data.List.Basic

/-!
# Separated parts

Parts of a list, one after the other, are separated by a relation where every member of a
part stands in it to every member of a later part. A part is unsplit where no two separated
parts make it up. Unsplit clusters are the finest separation: no separated parts of the same
members are more.
-/

namespace Separated

variable {α : Type} {R : α → α → Prop}

/-- Each part stands in the relation to those after it. -/
def Parts (R : α → α → Prop) (parts : List (List α)) : Prop :=
  parts.Pairwise fun p q => ∀ a ∈ p, ∀ b ∈ q, R a b

/-- No two separated parts make up the list. -/
def Unsplit (R : α → α → Prop) (cluster : List α) : Prop :=
  ∀ left right : List α, (left ++ right).Perm cluster → (∀ a ∈ left, ∀ b ∈ right, R a b) →
    left = [] ∨ right = []

/-- An unsplit cluster that meets the first of separated parts lies in it. -/
theorem Unsplit.mem_first {cluster first rest : List α} (h : Unsplit R cluster)
    (hcover : ∀ x ∈ cluster, x ∈ first ∨ x ∈ rest) (hsep : ∀ a ∈ first, ∀ b ∈ rest, R a b)
    {x : α} (hx : x ∈ cluster) (hfirst : x ∈ first) : ∀ y ∈ cluster, y ∈ first := by
  classical
  have hsplit := h (cluster.filter fun y => decide (y ∈ first))
    (cluster.filter fun y => !decide (y ∈ first)) (List.filter_append_perm _ _) (by
      intro a ha b hb
      obtain ⟨-, ha⟩ := List.mem_filter.mp ha
      obtain ⟨hmem, hb⟩ := List.mem_filter.mp hb
      rw [decide_eq_true_eq] at ha
      rw [Bool.not_eq_true', decide_eq_false_iff_not] at hb
      exact hsep a ha b ((hcover b hmem).resolve_left hb))
  rcases hsplit with hleft | hright
  · have hin : x ∈ cluster.filter fun y => decide (y ∈ first) :=
      List.mem_filter.mpr ⟨hx, decide_eq_true hfirst⟩
    rw [hleft] at hin
    exact absurd hin List.not_mem_nil
  · intro y hy
    by_contra hout
    have hin : y ∈ cluster.filter fun y => !decide (y ∈ first) :=
      List.mem_filter.mpr ⟨hy, by rw [decide_eq_false hout]; rfl⟩
    rw [hright] at hin
    exact absurd hin List.not_mem_nil

/-- Unsplit clusters are at least as many as separated parts of the same members: the
clusters that meet the first part lie in it, and there is one. -/
theorem length_le_of_unsplit {parts clusters : List (List α)} (hfilled : ∀ p ∈ parts, p ≠ [])
    (hsep : Parts R parts) (hmem : ∀ x, x ∈ parts.flatten ↔ x ∈ clusters.flatten)
    (hirrefl : ∀ x ∈ parts.flatten, ¬ R x x) (hunsplit : ∀ c ∈ clusters, Unsplit R c) :
    parts.length ≤ clusters.length := by
  classical
  induction parts generalizing clusters with
  | nil => exact Nat.zero_le _
  | cons first rest ih =>
    obtain ⟨hfirst, hrest⟩ := List.pairwise_cons.mp hsep
    have hafter : ∀ a ∈ first, ∀ b ∈ rest.flatten, R a b := by
      intro a ha b hb
      obtain ⟨q, hq, hb⟩ := List.mem_flatten.mp hb
      exact hfirst q hq a ha b hb
    have hinside : ∀ c ∈ clusters, ∀ x ∈ c, x ∈ first → ∀ y ∈ c, y ∈ first := by
      intro c hc x hx hxfirst
      refine (hunsplit c hc).mem_first (fun y hy => ?_) hafter hx hxfirst
      have hy : y ∈ (first :: rest).flatten := (hmem y).mpr (List.mem_flatten.mpr ⟨c, hc, hy⟩)
      rwa [List.flatten_cons, List.mem_append] at hy
    -- the clusters that do not meet the first part have the members of the others
    have hothers : ∀ x, x ∈ rest.flatten ↔
        x ∈ (clusters.filter fun c => decide (∀ y ∈ c, y ∉ first)).flatten := by
      intro x
      constructor
      · intro hx
        have hparts : x ∈ (first :: rest).flatten := by
          rw [List.flatten_cons]
          exact List.mem_append_right _ hx
        obtain ⟨c, hc, hxc⟩ := List.mem_flatten.mp ((hmem x).mp hparts)
        refine List.mem_flatten.mpr ⟨c, List.mem_filter.mpr ⟨hc, decide_eq_true ?_⟩, hxc⟩
        intro y hy hyfirst
        exact hirrefl x hparts (hafter x (hinside c hc y hy hyfirst x hxc) x hx)
      · intro hx
        obtain ⟨c, hc, hxc⟩ := List.mem_flatten.mp hx
        obtain ⟨hc, hout⟩ := List.mem_filter.mp hc
        have hparts := (hmem x).mpr (List.mem_flatten.mpr ⟨c, hc, hxc⟩)
        rw [List.flatten_cons, List.mem_append] at hparts
        exact hparts.resolve_left (of_decide_eq_true hout x hxc)
    have hle := ih (fun p hp => hfilled p (List.mem_cons_of_mem _ hp)) hrest hothers
      (fun x hx => hirrefl x (by
        rw [List.flatten_cons]
        exact List.mem_append_right _ hx))
      fun c hc => hunsplit c (List.mem_filter.mp hc).1
    obtain ⟨x, hx⟩ := List.exists_mem_of_ne_nil first (hfilled first List.mem_cons_self)
    have hparts : x ∈ (first :: rest).flatten := by
      rw [List.flatten_cons]
      exact List.mem_append_left _ hx
    obtain ⟨c, hc, hxc⟩ := List.mem_flatten.mp ((hmem x).mp hparts)
    have hlt : (clusters.filter fun c => decide (∀ y ∈ c, y ∉ first)).length < clusters.length := by
      apply List.length_filter_lt_length_iff_exists.mpr
      refine ⟨c, hc, ?_⟩
      rw [decide_eq_true_eq]
      exact fun hout => hout x hxc hx
    rw [List.length_cons]
    omega

end Separated
