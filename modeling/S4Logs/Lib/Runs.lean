import Mathlib.Data.List.SplitBy
import Mathlib.Data.List.Nodup

/-!
# Runs of a list

`splitBy` cuts a list between neighbours that a relation does not join. Two members are in
one run exactly where all neighbours from one to the other are joined.
-/

namespace Runs

variable {α : Type} {r : α → α → Bool}

/-- The runs of a list, each cut off from the next. -/
structure Cut (r : α → α → Bool) (runs : List (List α)) (l : List α) : Prop where
  flat : runs.flatten = l
  filled : [] ∉ runs
  joined : ∀ run ∈ runs, run.IsChain fun a b => r a b
  apart : runs.IsChain fun p q => ∃ hp hq, r (p.getLast hp) (q.head hq) = false

theorem Cut.eq_splitBy {runs : List (List α)} {l : List α} (h : Cut r runs l) :
    l.splitBy r = runs := by
  rw [← h.flat]
  exact List.splitBy_flatten h.filled h.joined h.apart

theorem cut_splitBy (r : α → α → Bool) (l : List α) : Cut r (l.splitBy r) l where
  flat := List.flatten_splitBy r l
  filled := List.nil_notMem_splitBy r l
  joined _ hrun := List.isChain_of_mem_splitBy hrun
  apart := List.isChain_getLast_head_splitBy r l

/-- A list goes on: its last run takes what is joined to it, and otherwise a run begins. -/
theorem Cut.concat {runs : List (List α)} {last l : List α} {a : α}
    (h : Cut r (runs ++ [last]) l) (hne : last ≠ []) :
    (r (last.getLast hne) a = true → Cut r (runs ++ [last ++ [a]]) (l ++ [a])) ∧
      (r (last.getLast hne) a = false → Cut r (runs ++ [last] ++ [[a]]) (l ++ [a])) := by
  have hflat := h.flat
  rw [List.flatten_append, List.flatten_singleton] at hflat
  obtain ⟨hruns, -, hend⟩ := List.isChain_append.mp h.apart
  constructor
  · intro hjoin
    refine ⟨?_, ?_, ?_, ?_⟩
    · rw [List.flatten_append, List.flatten_singleton, ← List.append_assoc, hflat]
    · intro hmem
      rcases List.mem_append.mp hmem with hmem | hmem
      · exact h.filled (List.mem_append_left _ hmem)
      · exact List.append_ne_nil_of_right_ne_nil _ (List.cons_ne_nil _ _)
          (List.mem_singleton.mp hmem).symm
    · intro run hrun
      rcases List.mem_append.mp hrun with hrun | hrun
      · exact h.joined run (List.mem_append_left _ hrun)
      · rw [List.mem_singleton.mp hrun]
        refine List.isChain_append.mpr ⟨h.joined last (List.mem_append_right _ List.mem_cons_self),
          List.IsChain.singleton _, fun x hx y hy => ?_⟩
        rw [List.getLast?_eq_some_getLast hne] at hx
        obtain rfl := Option.some.inj hx
        obtain rfl := Option.some.inj hy
        exact hjoin
    · refine List.isChain_append.mpr ⟨hruns, List.IsChain.singleton _, fun p hp q hq => ?_⟩
      obtain rfl := Option.some.inj hq
      obtain ⟨hp', hlast, hcut⟩ := hend p hp last rfl
      refine ⟨hp', List.append_ne_nil_of_left_ne_nil hlast _, ?_⟩
      rw [List.head_append_of_ne_nil hlast]
      exact hcut
  · intro hcut
    refine ⟨?_, ?_, ?_, ?_⟩
    · rw [List.flatten_append, List.flatten_singleton, h.flat]
    · intro hmem
      rcases List.mem_append.mp hmem with hmem | hmem
      · exact h.filled hmem
      · exact List.cons_ne_nil _ _ (List.mem_singleton.mp hmem).symm
    · intro run hrun
      rcases List.mem_append.mp hrun with hrun | hrun
      · exact h.joined run hrun
      · rw [List.mem_singleton.mp hrun]
        exact List.IsChain.singleton _
    · refine List.isChain_append.mpr ⟨h.apart, List.IsChain.singleton _, fun p hp q hq => ?_⟩
      rw [List.getLast?_concat] at hp
      obtain rfl := Option.some.inj hp
      obtain rfl := Option.some.inj hq
      exact ⟨hne, List.cons_ne_nil _ _, hcut⟩

theorem Cut.tail {run l : List α} {runs : List (List α)} (h : Cut r (run :: runs) l) :
    Cut r runs runs.flatten where
  flat := rfl
  filled := fun hmem => h.filled (List.mem_cons_of_mem _ hmem)
  joined := fun q hq => h.joined q (List.mem_cons_of_mem _ hq)
  apart := h.apart.tail

/-- A part whose neighbours are joined lies within one run. -/
theorem Cut.infix_run {runs : List (List α)} {l before part after : List α} (h : Cut r runs l)
    (hl : l = before ++ (part ++ after)) (hne : part ≠ []) (hpart : part.IsChain fun a b => r a b) :
    ∃ run ∈ runs, part <:+: run := by
  induction runs generalizing l before with
  | nil =>
    have hnil : before ++ (part ++ after) = [] := hl ▸ h.flat.symm
    exact absurd (List.append_eq_nil_iff.mp (List.append_eq_nil_iff.mp hnil).2).1 hne
  | cons run runs ih =>
    have hflat : run ++ runs.flatten = before ++ (part ++ after) := by
      rw [← hl, ← h.flat, List.flatten_cons]
    rcases List.append_eq_append_iff.mp hflat with ⟨c, -, hrest⟩ | ⟨c, hrun, hc⟩
    · obtain ⟨q, hq, hin⟩ := ih h.tail hrest
      exact ⟨q, List.mem_cons_of_mem _ hq, hin⟩
    · by_cases hempty : c = []
      · subst hempty
        have hrest : runs.flatten = [] ++ (part ++ after) := hc.symm
        obtain ⟨q, hq, hin⟩ := ih h.tail hrest
        exact ⟨q, List.mem_cons_of_mem _ hq, hin⟩
      · rcases List.append_eq_append_iff.mp hc with ⟨d, hd, -⟩ | ⟨d, rfl, hd⟩
        · refine ⟨run, List.mem_cons_self, before, d, ?_⟩
          rw [hrun, hd, List.append_assoc]
        · cases d with
          | nil =>
            refine ⟨run, List.mem_cons_self, before, [], ?_⟩
            rw [hrun, List.append_nil, List.append_nil]
          | cons y d =>
            -- the part would go on into the next run, which is cut off
            exfalso
            cases runs with
            | nil => cases hd
            | cons next runs =>
              obtain ⟨hlast, hnext, hcut⟩ := (List.isChain_cons_cons.mp h.apart).1
              obtain ⟨z, next, rfl⟩ := List.exists_cons_of_ne_nil hnext
              obtain ⟨rfl, -⟩ := List.cons.inj hd
              have hjoin := (List.isChain_append.mp hpart).2.2 _
                (List.getLast?_eq_some_getLast hempty) z rfl
              have hsame : run.getLast hlast = c.getLast hempty := by
                simp only [hrun, List.getLast_append_of_right_ne_nil _ _ hempty]
              rw [hsame, List.head_cons] at hcut
              rw [hcut] at hjoin
              cases hjoin

/-- A member of a list without repetitions stands in one place. -/
theorem place_unique {x₁ z₁ x₂ z₂ : List α} {a : α} (hnodup : (x₂ ++ a :: z₂).Nodup)
    (h : x₁ ++ a :: z₁ = x₂ ++ a :: z₂) : x₁ = x₂ ∧ z₁ = z₂ := by
  rw [← h] at hnodup
  obtain ⟨-, hrest, hapart⟩ := List.nodup_append.mp hnodup
  have hleft : a ∉ x₁ := fun hmem => hapart a hmem a List.mem_cons_self rfl
  have hright : a ∉ z₁ := (List.nodup_cons.mp hrest).1
  obtain ⟨hx, -, hz⟩ := (List.append_cons_inj_of_notMem hleft hright).mp h
  exact ⟨hx, hz⟩

/-- A run is a part of its list. -/
theorem run_infix {l run : List α} (hrun : run ∈ l.splitBy r) : run <:+: l := by
  obtain ⟨earlier, later, hruns⟩ := List.append_of_mem hrun
  refine ⟨earlier.flatten, later.flatten, ?_⟩
  have hflat := List.flatten_splitBy r l
  rwa [hruns, List.flatten_append, List.flatten_cons, ← List.append_assoc] at hflat

/-- Two members are in one run exactly where all neighbours from one to the other are
joined. -/
theorem same_run_iff {l before mid after : List α} {a b : α} (hnodup : l.Nodup)
    (hl : l = before ++ a :: (mid ++ b :: after)) :
    (∃ run ∈ l.splitBy r, a ∈ run ∧ b ∈ run) ↔
      (a :: (mid ++ [b])).IsChain fun x y => r x y := by
  have hcut := cut_splitBy r l
  constructor
  · rintro ⟨run, hrun, ha, hb⟩
    obtain ⟨p, q, hpart⟩ := run_infix hrun
    obtain ⟨p₁, p₂, rfl⟩ := List.append_of_mem ha
    have hplace : (p ++ p₁) ++ a :: (p₂ ++ q) = before ++ a :: (mid ++ b :: after) := by
      rw [← hl, ← hpart]
      simp only [List.append_assoc, List.cons_append]
    have hnodup' : (before ++ a :: (mid ++ b :: after)).Nodup := hl ▸ hnodup
    obtain ⟨hbefore, hrest⟩ := place_unique hnodup' hplace
    obtain ⟨-, hfrom, hfront⟩ := List.nodup_append.mp hnodup'
    obtain ⟨hfresh, hafter⟩ := List.nodup_cons.mp hfrom
    have hlater : b ∈ mid ++ b :: after := List.mem_append_right _ List.mem_cons_self
    have hb₂ : b ∈ p₂ := by
      rcases List.mem_append.mp hb with hmem | hmem
      · have hmem' : b ∈ before := hbefore ▸ List.mem_append_right _ hmem
        exact absurd rfl (hfront b hmem' b (List.mem_cons_of_mem _ hlater))
      · rcases List.mem_cons.mp hmem with rfl | hmem
        · exact absurd hlater hfresh
        · exact hmem
    obtain ⟨m₁, m₂, rfl⟩ := List.append_of_mem hb₂
    rw [List.append_assoc, List.cons_append] at hrest
    obtain ⟨rfl, -⟩ := place_unique hafter hrest
    refine List.IsChain.infix (hcut.joined _ hrun) ⟨p₁, m₂, ?_⟩
    simp only [List.append_assoc, List.cons_append, List.nil_append]
  · intro hchain
    have hwhere : l = before ++ ((a :: (mid ++ [b])) ++ after) := by
      rw [hl, List.cons_append, List.append_assoc, List.singleton_append]
    obtain ⟨run, hrun, hpart⟩ := hcut.infix_run hwhere (List.cons_ne_nil _ _) hchain
    exact ⟨run, hrun, hpart.subset List.mem_cons_self, hpart.subset
      (List.mem_cons_of_mem _ (List.mem_append_right _ (List.mem_singleton.mpr rfl)))⟩

end Runs
