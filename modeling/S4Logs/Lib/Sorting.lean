import Mathlib.Data.List.Destutter
import Mathlib.Data.List.Sort
import Mathlib.Data.Prod.Lex
import Mathlib.Data.String.Basic

/-!
# Stable sorting by a key

A stable sort keeps the order of what ties. So its result is known by two facts that
do not mention the algorithm: it ascends, and the elements of each key are in it in
their order. `eq_of_ties` says that these two leave no choice. Two lists have one
sorted form where their ties agree (`sortBy_eq_iff`), and parts that lie one above
the other may be sorted one by one (`sortBy_flatten`).
-/

namespace Sorting

variable {α κ : Type*} [LinearOrder κ] (key : α → κ)

/-- Sort by a key. What ties stays in its order. -/
def sortBy (l : List α) : List α := l.insertionSort fun a b => key a ≤ key b

/-- The list ascends. -/
def Ascending (l : List α) : Prop := l.Pairwise fun a b => key a ≤ key b

/-- The elements of one key, in their order. -/
def ties (k : κ) (l : List α) : List α := l.filter fun a => key a = k

variable {key} {l l' : List α}

theorem sortBy_perm (l : List α) : (sortBy key l).Perm l := List.perm_insertionSort _ l

theorem mem_sortBy {a : α} : a ∈ sortBy key l ↔ a ∈ l := (sortBy_perm l).mem_iff

theorem sortBy_ascending (l : List α) : Ascending key (sortBy key l) := by
  have htotal : Std.Total fun a b : α => key a ≤ key b := ⟨fun a b => le_total (key a) (key b)⟩
  have htrans : IsTrans α fun a b : α => key a ≤ key b := ⟨fun _ _ _ => le_trans⟩
  exact List.pairwise_insertionSort _ l

theorem ties_flatten (k : κ) (parts : List (List α)) :
    ties key k parts.flatten = (parts.map (ties key k)).flatten := List.filter_flatten ..

theorem mem_ties {k : κ} {a : α} : a ∈ ties key k l ↔ a ∈ l ∧ key a = k := by
  rw [ties, List.mem_filter, decide_eq_true_iff]

/-- What ties stays in its order. -/
theorem ties_sortBy (k : κ) (l : List α) : ties key k (sortBy key l) = ties key k l := by
  have htotal : Std.Total fun a b : α => key a ≤ key b := ⟨fun a b => le_total (key a) (key b)⟩
  have htrans : IsTrans α fun a b : α => key a ≤ key b := ⟨fun _ _ _ => le_trans⟩
  have hsub : (ties key k l).Sublist (sortBy key l) := by
    refine List.sublist_insertionSort (List.pairwise_of_forall_mem_list fun a ha b hb => ?_)
      List.filter_sublist
    exact ((mem_ties.mp ha).2.trans (mem_ties.mp hb).2.symm).le
  have hlen : (ties key k l).length = (ties key k (sortBy key l)).length :=
    ((sortBy_perm l).filter _).length_eq.symm
  have htwice : ties key k (ties key k l) = ties key k l := by
    rw [ties, ties, List.filter_filter]
    simp only [Bool.and_self]
  have hsub' := hsub.filter fun a => decide (key a = k)
  change (ties key k (ties key k l)).Sublist (ties key k (sortBy key l)) at hsub'
  rw [htwice] at hsub'
  exact (hsub'.eq_of_length hlen).symm

/-- Lists that ascend and have the same ties are the same. -/
theorem eq_of_ties : ∀ {l l' : List α}, Ascending key l → Ascending key l' →
    (∀ k, ties key k l = ties key k l') → l = l'
  | [], [], _, _, _ => rfl
  | [], b :: l', _, _, h => by
    have hb : b ∈ ties key (key b) (b :: l') := mem_ties.mpr ⟨List.mem_cons_self, rfl⟩
    rw [← h (key b)] at hb
    exact absurd hb List.not_mem_nil
  | a :: l, [], _, _, h => by
    have ha : a ∈ ties key (key a) (a :: l) := mem_ties.mpr ⟨List.mem_cons_self, rfl⟩
    rw [h (key a)] at ha
    exact absurd ha List.not_mem_nil
  | a :: l, b :: l', hl, hl', h => by
    obtain ⟨hle, htail⟩ := List.pairwise_cons.mp hl
    obtain ⟨hle', htail'⟩ := List.pairwise_cons.mp hl'
    -- each head has its key in the other list, which begins with its least one
    have ha : a ∈ ties key (key a) (b :: l') := h (key a) ▸ mem_ties.mpr ⟨List.mem_cons_self, rfl⟩
    have hb : b ∈ ties key (key b) (a :: l) := h (key b) ▸ mem_ties.mpr ⟨List.mem_cons_self, rfl⟩
    have hba : key b ≤ key a := by
      rcases List.mem_cons.mp (mem_ties.mp ha).1 with rfl | hmem
      · exact le_rfl
      · exact hle' a hmem
    have hab : key a ≤ key b := by
      rcases List.mem_cons.mp (mem_ties.mp hb).1 with rfl | hmem
      · exact le_rfl
      · exact hle b hmem
    have hkey : key a = key b := le_antisymm hab hba
    have hfirst := h (key a)
    simp only [ties, List.filter_cons, hkey, decide_true, if_true] at hfirst
    obtain ⟨rfl, -⟩ := List.cons.inj hfirst
    refine congrArg (a :: ·) (eq_of_ties htail htail' fun k => ?_)
    have hk := h k
    simp only [ties, List.filter_cons] at hk ⊢
    split at hk
    · exact (List.cons.inj hk).2
    · exact hk

/-- Two lists have one sorted form where their ties agree. -/
theorem sortBy_eq_iff : sortBy key l = sortBy key l' ↔ ∀ k, ties key k l = ties key k l' := by
  constructor
  · intro h k
    rw [← ties_sortBy k l, h, ties_sortBy]
  · intro h
    refine eq_of_ties (sortBy_ascending l) (sortBy_ascending l') fun k => ?_
    rw [ties_sortBy, ties_sortBy, h]

/-- What ascends and keeps the ties is the sorted form. -/
theorem eq_sortBy (h : Ascending key l') (hties : ∀ k, ties key k l' = ties key k l) :
    l' = sortBy key l := by
  refine eq_of_ties h (sortBy_ascending l) fun k => ?_
  rw [hties, ties_sortBy]

/-- Parts that ascend, each above the ones before it, ascend together. -/
theorem ascending_flatten {parts : List (List α)} (hasc : ∀ p ∈ parts, Ascending key p)
    (happ : parts.Pairwise fun p q => ∀ a ∈ p, ∀ b ∈ q, key a ≤ key b) :
    Ascending key parts.flatten :=
  List.pairwise_flatten.mpr ⟨hasc, happ⟩

/-- Parts that lie one above the other may be sorted one by one. -/
theorem sortBy_flatten {parts : List (List α)}
    (happ : parts.Pairwise fun p q => ∀ a ∈ p, ∀ b ∈ q, key a ≤ key b) :
    (parts.map (sortBy key)).flatten = sortBy key parts.flatten := by
  refine eq_sortBy (ascending_flatten ?_ ?_) fun k => ?_
  · intro p hp
    obtain ⟨q, -, rfl⟩ := List.mem_map.mp hp
    exact sortBy_ascending q
  · refine List.pairwise_map.mpr (happ.imp fun h a ha b hb => ?_)
    exact h a (mem_sortBy.mp ha) b (mem_sortBy.mp hb)
  · rw [ties_flatten, ties_flatten, List.map_map]
    exact congrArg List.flatten (List.map_congr_left fun p _ => ties_sortBy k p)

/-! ## Maps, filters and a second key -/

theorem ties_map {β : Type*} (f : β → α) (k : κ) (l : List β) :
    ties key k (l.map f) = (ties (key ∘ f) k l).map f := by
  rw [ties, List.filter_map]
  rfl

theorem ties_filter (k : κ) (p : α → Bool) (l : List α) :
    ties key k (l.filter p) = (ties key k l).filter p := by
  rw [ties, ties, List.filter_filter, List.filter_filter]
  exact List.filter_congr fun a _ => Bool.and_comm ..

theorem Ascending.sublist {l l' : List α} (h : Ascending key l) (hsub : l'.Sublist l) :
    Ascending key l' :=
  List.Pairwise.sublist hsub h

/-- To sort what a function makes is to sort by what it makes. -/
theorem sortBy_map {β : Type*} (f : β → α) (l : List β) :
    sortBy key (l.map f) = (sortBy (key ∘ f) l).map f := by
  refine (eq_sortBy ?_ fun k => ?_).symm
  · have hasc : Ascending (key ∘ f) (sortBy (key ∘ f) l) := sortBy_ascending l
    exact List.pairwise_map.mpr hasc
  · rw [ties_map, ties_map, ties_sortBy]

/-- A filter may be taken before or after. -/
theorem sortBy_filter (p : α → Bool) (l : List α) :
    sortBy key (l.filter p) = (sortBy key l).filter p := by
  refine (eq_sortBy ((sortBy_ascending l).sublist List.filter_sublist) fun k => ?_).symm
  rw [ties_filter, ties_filter, ties_sortBy]

/-- A second key that ascends already adds nothing to a stable sort. -/
theorem sortBy_lex {κ' : Type*} [LinearOrder κ'] {second : α → κ'} (h : Ascending second l) :
    sortBy (fun a => toLex (key a, second a)) l = sortBy key l := by
  have hasc : Ascending (fun a => toLex (key a, second a))
      (sortBy (fun a => toLex (key a, second a)) l) := sortBy_ascending l
  refine eq_sortBy ?_ fun k => ?_
  · refine hasc.imp fun hab => ?_
    rcases Prod.Lex.toLex_le_toLex.mp hab with hlt | ⟨heq, -⟩
    · exact hlt.le
    · exact heq.le
  · -- of one key, both lists ascend by the second one, and have the ties of `l`
    refine eq_of_ties (hasc.sublist List.filter_sublist) ?_ fun k' => ?_
    · refine List.Pairwise.imp_of_mem (fun {a b} ha hb hab => ?_) (h.sublist List.filter_sublist)
      refine Prod.Lex.toLex_le_toLex.mpr (.inr ⟨?_, hab⟩)
      exact (mem_ties.mp ha).2.trans (mem_ties.mp hb).2.symm
    · have hcomm : ∀ m : List α, ties (fun a => toLex (key a, second a)) k' (ties key k m) =
          (ties (fun a => toLex (key a, second a)) k' m).filter fun a => key a = k :=
        fun m => ties_filter k' _ m
      rw [hcomm, hcomm, ties_sortBy]

/-! ## Each key once -/

variable (key) in
/-- Sort, and keep the first of what ties. -/
def sortOnce (l : List α) : List α := (sortBy key l).destutter fun a b => key a ≠ key b

theorem sortOnce_sublist (l : List α) : (sortOnce key l).Sublist (sortBy key l) :=
  List.destutter_sublist _ _

theorem ascending_strict : ∀ {l : List α}, Ascending key l →
    (l.IsChain fun a b => key a ≠ key b) → l.IsChain fun a b => key a < key b
  | [], _, _ => .nil
  | [a], _, _ => .singleton a
  | a :: b :: l, hasc, hne => by
    obtain ⟨hle, hasc⟩ := List.pairwise_cons.mp hasc
    obtain ⟨hab, hne⟩ := List.isChain_cons_cons.mp hne
    exact List.isChain_cons_cons.mpr
      ⟨lt_of_le_of_ne (hle b List.mem_cons_self) hab, ascending_strict hasc hne⟩

/-- Neighbours differ in an ascending list, so the list ascends strictly. -/
theorem sortOnce_pairwise (l : List α) : (sortOnce key l).Pairwise fun a b => key a < key b := by
  have htrans : IsTrans α fun a b : α => key a < key b := ⟨fun _ _ _ => lt_trans⟩
  have hasc : Ascending key (sortOnce key l) := (sortBy_ascending l).sublist (sortOnce_sublist l)
  exact (ascending_strict hasc (List.isChain_destutter _ _)).pairwise

end Sorting
