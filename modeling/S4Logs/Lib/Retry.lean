import Mathlib.Data.List.Basic

/-!
# Trying again

A call either settles or fails in a way that may pass. It is then made again after a
wait, a bounded number of times. `try_spec` says all there is to know of the loop: which
calls were made, what each of them but the last answered, how long it slept after each, and
what it returns.
-/

namespace Retry

variable {ρ ε : Type*}

/-- What one call comes to. -/
inductive Answer (ρ ε : Type*) where
  | settled (result : ρ)
  | again (e : ε)
deriving DecidableEq

/-- The number of the last call, the sleeps in between, and what is returned. -/
structure Outcome (ρ : Type*) where
  calls : Nat
  slept : List Nat
  result : ρ
deriving DecidableEq

variable (call : Nat → Answer ρ ε) (wait : Nat → Nat) (giveUp : Nat → ε → ρ)

/-- Call number `attempt`, with as many more to follow at most. -/
def tryFrom : (more attempt : Nat) → Outcome ρ
  | more, attempt =>
    match call attempt with
    | .settled result => ⟨attempt, [], result⟩
    | .again e =>
      match more with
      | 0 => ⟨attempt, [], giveUp attempt e⟩
      | more + 1 =>
        let rest := tryFrom more (attempt + 1)
        { rest with slept := wait attempt :: rest.slept }

variable {call wait giveUp}

/-- The last call settles, or it is the last one there may be. All calls before it
failed, and each was followed by its wait. -/
structure Tried (call : Nat → Answer ρ ε) (wait : Nat → Nat) (giveUp : Nat → ε → ρ)
    (more attempt : Nat) (out : Outcome ρ) : Prop where
  first : attempt ≤ out.calls
  last : out.calls ≤ attempt + more
  failed : ∀ k, attempt ≤ k → k < out.calls → ∃ e, call k = .again e
  slept : out.slept = (List.range' attempt (out.calls - attempt)).map wait
  result : call out.calls = .settled out.result ∨
    out.calls = attempt + more ∧
      ∃ e, call out.calls = .again e ∧ out.result = giveUp out.calls e

theorem try_spec : ∀ more attempt,
    Tried call wait giveUp more attempt (tryFrom call wait giveUp more attempt)
  | more, attempt => by
    unfold tryFrom
    cases hcall : call attempt with
    | settled result =>
      exact {
        first := Nat.le_refl _
        last := Nat.le_add_right _ _
        failed := fun k hk hk' => absurd hk (Nat.not_le_of_lt hk')
        slept := by simp only [Nat.sub_self, List.range'_zero, List.map_nil]
        result := .inl hcall }
    | again e =>
      cases more with
      | zero => exact {
          first := Nat.le_refl _
          last := Nat.le_refl _
          failed := fun k hk hk' => absurd hk (Nat.not_le_of_lt hk')
          slept := by simp only [Nat.sub_self, List.range'_zero, List.map_nil]
          result := .inr ⟨rfl, e, hcall, rfl⟩ }
      | succ more =>
        have h := try_spec more (attempt + 1)
        have hlast := h.last
        have hfirst := h.first
        refine {
          first := Nat.le_of_succ_le hfirst
          last := by simpa only [Nat.add_right_comm, Nat.add_assoc] using hlast
          failed := fun k hk hk' => ?_
          slept := ?_
          result := h.result.imp_right fun ⟨hcalls, he⟩ => 
            ⟨hcalls.trans (Nat.add_right_comm attempt 1 more), he⟩ }
        · rcases Nat.eq_or_lt_of_le hk with rfl | hlt
          · exact ⟨e, hcall⟩
          · exact h.failed k hlt hk'
        · dsimp only
          rw [h.slept, show (tryFrom call wait giveUp more (attempt + 1)).calls - attempt =
            (tryFrom call wait giveUp more (attempt + 1)).calls - (attempt + 1) + 1 by omega,
            List.range'_succ, List.map_cons]

/-- A sleep is the wait after its call. -/
theorem Tried.slept_eq {more attempt k d : Nat} {out : Outcome ρ}
    (h : Tried call wait giveUp more attempt out) (hd : out.slept[k]? = some d) :
    d = wait (attempt + k) := by
  rw [h.slept, List.getElem?_map] at hd
  obtain ⟨j, hj, rfl⟩ := Option.map_eq_some_iff.mp hd
  obtain ⟨hk, rfl⟩ := List.getElem?_eq_some_iff.mp hj
  rw [List.getElem_range', Nat.one_mul]

/-- One sleep for each call but the last. -/
theorem Tried.length_slept {more attempt : Nat} {out : Outcome ρ}
    (h : Tried call wait giveUp more attempt out) : out.slept.length = out.calls - attempt := by
  rw [h.slept, List.length_map, List.length_range']

/-- Where a call settles within the bound and none before it does, it is the last. -/
theorem Tried.settles {more attempt k : Nat} {out : Outcome ρ} {result : ρ}
    (h : Tried call wait giveUp more attempt out) (hle : attempt ≤ k)
    (hmore : k ≤ attempt + more) (hcall : call k = .settled result)
    (hfailed : ∀ j, attempt ≤ j → j < k → ∃ e, call j = .again e) :
    out.calls = k ∧ out.result = result := by
  have hcalls : out.calls = k := by
    rcases Nat.lt_trichotomy out.calls k with hlt | heq | hgt
    · obtain ⟨e, he⟩ := hfailed _ h.first hlt
      rcases h.result with hs | ⟨hend, -⟩
      · rw [he] at hs
        cases hs
      · omega
    · exact heq
    · obtain ⟨e, he⟩ := h.failed k hle hgt
      rw [hcall] at he
      cases he
  refine ⟨hcalls, ?_⟩
  rcases h.result with hs | ⟨-, e, he, -⟩
  · rw [hcalls, hcall] at hs
    cases hs
    rfl
  · rw [hcalls, hcall] at he
    cases he

end Retry
