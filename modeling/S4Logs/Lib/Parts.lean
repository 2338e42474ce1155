import Mathlib.Data.List.Basic
import Mathlib.Data.List.Perm.Basic

/-!
# Lists put together

What parts make up, when some of the parts are empty, and a list whose elements carry the
number of the part they come from.
-/

namespace Parts

universe u v

variable {α : Type u} {β : Type v}

/-- Elements that contribute nothing may be left out. -/
theorem flatMap_filter {p : α → Bool} {f : α → List β} {l : List α}
    (h : ∀ a ∈ l, p a = false → f a = []) : (l.filter p).flatMap f = l.flatMap f := by
  induction l with
  | nil => rfl
  | cons a l ih =>
    have hrest := ih fun b hb => h b (List.mem_cons_of_mem _ hb)
    rw [List.filter_cons, List.flatMap_cons]
    cases hp : p a with
    | true => rw [if_pos rfl, List.flatMap_cons, hrest]
    | false => rw [if_neg Bool.false_ne_true, hrest, h a List.mem_cons_self hp, List.nil_append]

/-- Elements that are all mapped contribute what their images do. -/
theorem flatMap_filterMap {γ : Type*} {g : α → Option γ} {f : γ → List β} {f' : α → List β}
    {l : List α} (h : ∀ a ∈ l, ∃ c, g a = some c ∧ f c = f' a) :
    (l.filterMap g).flatMap f = l.flatMap f' := by
  induction l with
  | nil => rfl
  | cons a l ih =>
    obtain ⟨c, hc, hf⟩ := h a List.mem_cons_self
    rw [List.filterMap_cons_some hc, List.flatMap_cons, List.flatMap_cons, hf,
      ih fun b hb => h b (List.mem_cons_of_mem _ hb)]

/-- The elements of one number, in their order. -/
def ofTag (s : Nat) (l : List (α × Nat)) : List α := (l.filter fun x => x.2 = s).map Prod.fst

theorem map_ofTag (s : Nat) (l : List (α × Nat)) :
    (ofTag s l).map (fun a => (a, s)) = l.filter fun x => x.2 = s := by
  rw [ofTag, List.map_map]
  refine (List.map_congr_left fun x hx => ?_).trans (List.map_id _)
  have hs : x.2 = s := of_decide_eq_true (List.mem_filter.mp hx).2
  rw [Function.comp_apply, ← hs]
  rfl

/-- A list is known, up to its order, by the parts that its elements come from. -/
theorem perm_of_tags {parts : List (List α)} {k : Nat} {l : List (α × Nat)}
    (hparts : ∀ s part, parts[s]? = some part → ofTag (k + s) l = part)
    (hbound : ∀ x ∈ l, k ≤ x.2 ∧ x.2 < k + parts.length) :
    l.Perm ((parts.zipIdx k).flatMap fun x => x.1.map fun a => (a, x.2)) := by
  induction parts generalizing k l with
  | nil =>
    have hnil : l = [] := by
      refine List.eq_nil_iff_forall_not_mem.mpr fun x hx => ?_
      have hx := hbound x hx
      rw [List.length_nil] at hx
      omega
    rw [hnil]
    exact .refl _
  | cons part parts ih =>
    have hfirst : ofTag k l = part := hparts 0 part rfl
    have hrest : (l.filter fun x => !decide (x.2 = k)).Perm
        ((parts.zipIdx (k + 1)).flatMap fun x => x.1.map fun a => (a, x.2)) := by
      refine ih (fun s part' hpart => ?_) fun x hx => ?_
      · have hwhole := hparts (s + 1) part' hpart
        have hne : k + 1 + s ≠ k := by omega
        have htag : k + (s + 1) = k + 1 + s := by omega
        rw [← hwhole, htag, ofTag, List.filter_filter]
        refine congrArg (List.map Prod.fst) (List.filter_congr fun x _ => ?_)
        by_cases hx : x.2 = k + 1 + s
        · rw [decide_eq_true hx, decide_eq_false (hx ▸ hne)]
          rfl
        · rw [decide_eq_false hx]
          rfl
      · obtain ⟨hmem, hother⟩ := List.mem_filter.mp hx
        have hx := hbound x hmem
        have hne : x.2 ≠ k := of_decide_eq_false (Bool.not_eq_true' _ ▸ hother)
        rw [List.length_cons] at hx
        omega
    rw [List.zipIdx_cons, List.flatMap_cons]
    refine (List.filter_append_perm (fun x => decide (x.2 = k)) l).symm.trans (.append ?_ hrest)
    rw [← hfirst, map_ofTag]

end Parts
