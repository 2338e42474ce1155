import S4Logs.Lib.Run

/-!
# Erasing hidden steps

Two systems with the same labels, and a function `f` from the states of the first to those
of the second. Some labels are hidden: the first takes them and `f` does not see them. Every
other step of the first is one of the second, and every step of the second is one of the
first after some hidden ones. Then the second does just what is left of the runs of the first
where the hidden labels are taken out (`Erases.exec_filter`, `Erases.exec_lift`).

`shown` are the labels a run of the second may have and `ok` those of the first; `I` is an
invariant of the first.
-/

namespace LTS

universe u v w

variable {σ : Type u} {τ : Type w} {ℓ : Type v}
variable {step : σ → ℓ → Option σ} {small : τ → ℓ → Option τ}

structure Erases (step : σ → ℓ → Option σ) (small : τ → ℓ → Option τ) (hidden : ℓ → Bool)
    (ok shown : ℓ → Prop) (I : σ → Prop) (f : σ → τ) : Prop where
  keep : ∀ {s t l}, I s → ok l → step s l = some t → I t
  stutter : ∀ {s t l}, I s → ok l → hidden l = true → step s l = some t → f t = f s
  forth : ∀ {s t l}, I s → ok l → hidden l = false → step s l = some t →
    small (f s) l = some (f t)
  back : ∀ {s u l}, I s → shown l → small (f s) l = some u → hidden l = false ∧ ok l ∧
    ∃ ls t, (∀ l' ∈ ls, hidden l' = true ∧ ok l') ∧ exec step s (ls ++ [l]) = some t ∧ f t = u

namespace Erases

variable {hidden : ℓ → Bool} {ok shown : ℓ → Prop} {I : σ → Prop} {f : σ → τ}

/-- A run keeps the invariant. -/
theorem keeps (h : Erases step small hidden ok shown I f) : ∀ {ls : List ℓ} {s t : σ}, I s →
    (∀ l ∈ ls, ok l) → exec step s ls = some t → I t
  | [], _, _, hI, _, hrun => by
    cases hrun
    exact hI
  | _ :: _, _, _, hI, hok, hrun => by
    obtain ⟨mid, hmid, hrest⟩ := Option.bind_eq_some_iff.mp hrun
    exact h.keeps (h.keep hI (hok _ List.mem_cons_self) hmid)
      (fun l hl => hok l (List.mem_cons_of_mem _ hl)) hrest

/-- A run without its hidden labels is a run of the second system. -/
theorem exec_filter (h : Erases step small hidden ok shown I f) : ∀ {ls : List ℓ} {s t : σ},
    I s → (∀ l ∈ ls, ok l) → exec step s ls = some t →
    exec small (f s) (ls.filter fun l => !hidden l) = some (f t)
  | [], _, _, _, _, hrun => by
    cases hrun
    rfl
  | l :: ls, s, t, hI, hok, hrun => by
    obtain ⟨mid, hmid, hrest⟩ := Option.bind_eq_some_iff.mp hrun
    have hl := hok l List.mem_cons_self
    have ih := h.exec_filter (h.keep hI hl hmid)
      (fun l' hl' => hok l' (List.mem_cons_of_mem _ hl')) hrest
    cases hhidden : hidden l with
    | true =>
      rw [List.filter_cons_of_neg (by rw [hhidden]; exact Bool.false_ne_true),
        ← h.stutter hI hl hhidden hmid]
      exact ih
    | false =>
      rw [List.filter_cons_of_pos (by rw [hhidden]; rfl), exec,
        h.forth hI hl hhidden hmid, Option.bind_some]
      exact ih

/-- A run of the second system is a run of the first without its hidden labels. -/
theorem exec_lift (h : Erases step small hidden ok shown I f) : ∀ {ls : List ℓ} {s : σ} {u : τ},
    I s → (∀ l ∈ ls, shown l) → exec small (f s) ls = some u →
    ∃ ls' t, (ls'.filter fun l => !hidden l) = ls ∧ (∀ l ∈ ls', ok l) ∧
      exec step s ls' = some t ∧ f t = u
  | [], s, _, _, _, hrun => by
    cases hrun
    exact ⟨[], s, rfl, fun _ hl => absurd hl List.not_mem_nil, rfl, rfl⟩
  | l :: ls, s, u, hI, hshown, hrun => by
    obtain ⟨mid, hmid, hrest⟩ := Option.bind_eq_some_iff.mp hrun
    obtain ⟨hvisible, hl, before, t, hbefore, hexec, rfl⟩ :=
      h.back hI (hshown l List.mem_cons_self) hmid
    have hok : ∀ l' ∈ before ++ [l], ok l' := by
      intro l' hl'
      rcases List.mem_append.mp hl' with hl' | hl'
      · exact (hbefore l' hl').2
      · rw [List.mem_singleton.mp hl']
        exact hl
    obtain ⟨ls', t', hfilter, hok', hexec', rfl⟩ := h.exec_lift (h.keeps hI hok hexec)
      (fun l' hl' => hshown l' (List.mem_cons_of_mem _ hl')) hrest
    refine ⟨before ++ [l] ++ ls', t', ?_, ?_, exec_append hexec hexec', rfl⟩
    · have hhidden : (before.filter fun l => !hidden l) = [] := by
        refine List.filter_eq_nil_iff.mpr fun l' hl' => ?_
        rw [(hbefore l' hl').1]
        exact Bool.false_ne_true
      have hlast : ([l].filter fun l => !hidden l) = [l] :=
        List.filter_cons_of_pos (by rw [hvisible]; rfl)
      rw [List.filter_append, List.filter_append, hhidden, hlast, hfilter]
      rfl
    · intro l' hl'
      rcases List.mem_append.mp hl' with hl' | hl'
      · exact hok l' hl'
      · exact hok' l' hl'

end Erases

end LTS
