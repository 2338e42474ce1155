/-!
# Runs of a labelled system

A system is a partial step function: a state and a label give the next state,
or nothing when the label is not enabled there. Everything the system does not
decide by itself (a scheduler's choice, an answer of the network, a crash) is
carried by the label, so the step stays a function and a run can be replayed
by evaluation.

`Reaches step ok s t` says that some run leads from `s` to `t` and that every
step of it met `ok` at the state it was taken from. `ok` is how an assumption
about the environment is stated: a property of the label and of the state
before the step, never of what comes out.

The one rule a safety proof uses is `Reaches.invariant`: an invariant that
holds at the start and survives each permitted step holds at every state
reached.
-/

namespace LTS

universe u v w

variable {σ : Type u} {ℓ : Type v} {step : σ → ℓ → Option σ} {ok ok' : σ → ℓ → Prop}

/-- Some run whose every step meets `ok` leads from `s` to the state named. -/
inductive Reaches (step : σ → ℓ → Option σ) (ok : σ → ℓ → Prop) (s : σ) : σ → Prop
  | refl : Reaches step ok s s
  | tail {t u : σ} {l : ℓ} : Reaches step ok s t → ok t l → step t l = some u →
      Reaches step ok s u

/-- The invariant rule: what the start has and each permitted step keeps, every
state reached has. -/
theorem Reaches.invariant {I : σ → Prop} {s t : σ} (start : I s)
    (keep : ∀ t l u, I t → ok t l → step t l = some u → I u)
    (run : Reaches step ok s t) : I t := by
  induction run with
  | refl => exact start
  | tail _ hok hstep ih => exact keep _ _ _ ih hok hstep

/-- A run under one assumption is a run under every weaker one. -/
theorem Reaches.mono {s t : σ} (weaker : ∀ s l, ok s l → ok' s l)
    (run : Reaches step ok s t) : Reaches step ok' s t := by
  induction run with
  | refl => exact .refl
  | tail _ hok hstep ih => exact .tail ih (weaker _ _ hok) hstep

/-- Runs compose. -/
theorem Reaches.trans {s t u : σ} (first : Reaches step ok s t)
    (second : Reaches step ok t u) : Reaches step ok s u := by
  induction second with
  | refl => exact first
  | tail _ hok hstep ih => exact .tail ih hok hstep

/-- Replay a list of labels. -/
def exec (step : σ → ℓ → Option σ) : σ → List ℓ → Option σ
  | s, [] => some s
  | s, l :: ls => (step s l).bind fun t => exec step t ls

/-- Every label of the list meets `ok` at the state it is replayed from. -/
def Along (step : σ → ℓ → Option σ) (ok : σ → ℓ → Prop) : σ → List ℓ → Prop
  | _, [] => True
  | s, l :: ls => ok s l ∧ ∀ t, step s l = some t → Along step ok t ls

/-- Where every step and every assumption can be evaluated, so can a whole replay. -/
instance Along.decidable [permitted : ∀ s l, Decidable (ok s l)] :
    ∀ (s : σ) (ls : List ℓ), Decidable (Along step ok s ls)
  | _, [] => .isTrue trivial
  | s, l :: ls =>
    match permitted s l with
    | .isFalse h => .isFalse fun along => h along.1
    | .isTrue h =>
      match hstep : step s l with
      | none => .isTrue ⟨h, fun t ht => by
          rw [hstep] at ht
          cases ht⟩
      | some t =>
        match Along.decidable t ls with
        | .isFalse h' => .isFalse fun along => h' (along.2 t hstep)
        | .isTrue h' => .isTrue ⟨h, fun t' ht => by
            rw [hstep] at ht
            cases ht
            exact h'⟩

/-- A replayed list of permitted labels is a run. -/
theorem Reaches.of_exec : ∀ {ls : List ℓ} {s t : σ}, Along step ok s ls →
    exec step s ls = some t → Reaches step ok s t
  | [], s, t, _, h => by
    cases h
    exact .refl
  | l :: ls, s, t, along, h => by
    obtain ⟨mid, hmid, hrest⟩ := Option.bind_eq_some_iff.mp h
    have first : Reaches step ok s mid := .tail .refl along.1 hmid
    exact first.trans (Reaches.of_exec (along.2 mid hmid) hrest)

/-- The invariant rule for replays: an invariant of the labels taken so far, all of them
permitted, and of the state they lead to. -/
theorem Along.invariant {I : List ℓ → σ → Prop} {s t : σ} {ls : List ℓ} (start : I [] s)
    (keep : ∀ past l t u, I past t → ok t l → step t l = some u → I (past ++ [l]) u)
    (along : Along step ok s ls) (h : exec step s ls = some t) : I ls t := by
  have hrun : ∀ (ls past : List ℓ) (s : σ), I past s → Along step ok s ls →
      exec step s ls = some t → I (past ++ ls) t := by
    intro ls
    induction ls with
    | nil =>
      intro past s hs _ h
      cases h
      rwa [List.append_nil]
    | cons l ls ih =>
      intro past s hs along h
      obtain ⟨mid, hmid, hrest⟩ := Option.bind_eq_some_iff.mp h
      have := ih (past ++ [l]) mid (keep past l s mid hs along.1 hmid) (along.2 mid hmid) hrest
      rwa [List.append_assoc] at this
  exact hrun ls [] s start along h

/-- Every replay is permitted where everything is. -/
theorem Along.any : ∀ (s : σ) (ls : List ℓ), Along step (fun _ _ => True) s ls
  | _, [] => trivial
  | _, _ :: ls => ⟨trivial, fun t _ => Along.any t ls⟩

/-- The invariant rule for replays without an assumption. -/
theorem exec_invariant {I : List ℓ → σ → Prop} {s t : σ} {ls : List ℓ} (start : I [] s)
    (keep : ∀ past l t u, I past t → step t l = some u → I (past ++ [l]) u)
    (h : exec step s ls = some t) : I ls t :=
  (Along.any s ls).invariant start (fun past l t u hI _ => keep past l t u hI) h

/-- What a replay shows: each label something of the state it is replayed from. -/
def seen {α : Type w} (step : σ → ℓ → Option σ) (shows : σ → ℓ → List α) : σ → List ℓ → List α
  | _, [] => []
  | s, l :: ls => shows s l ++ (step s l).elim [] fun t => seen step shows t ls

/-- The invariant rule for what permitted replays show. -/
theorem Along.seen_invariant {α : Type w} {shows : σ → ℓ → List α} {I : List α → σ → Prop}
    {s t : σ} {ls : List ℓ} (start : I [] s)
    (keep : ∀ past l t u, I past t → ok t l → step t l = some u → I (past ++ shows t l) u)
    (along : Along step ok s ls) (h : exec step s ls = some t) :
    I (seen step shows s ls) t := by
  have hrun : ∀ (ls : List ℓ) (past : List α) (s : σ), I past s → Along step ok s ls →
      exec step s ls = some t → I (past ++ seen step shows s ls) t := by
    intro ls
    induction ls with
    | nil =>
      intro past s hs _ h
      cases h
      rwa [seen, List.append_nil]
    | cons l ls ih =>
      intro past s hs along h
      obtain ⟨mid, hmid, hrest⟩ := Option.bind_eq_some_iff.mp h
      have := ih (past ++ shows s l) mid (keep past l s mid hs along.1 hmid) (along.2 mid hmid) hrest
      rwa [seen, hmid, Option.elim_some, ← List.append_assoc]
  exact hrun ls [] s start along h

/-- The invariant rule for what replays show. -/
theorem exec_seen {α : Type w} {shows : σ → ℓ → List α} {I : List α → σ → Prop} {s t : σ}
    {ls : List ℓ} (start : I [] s)
    (keep : ∀ past l t u, I past t → step t l = some u → I (past ++ shows t l) u)
    (h : exec step s ls = some t) : I (seen step shows s ls) t :=
  (Along.any s ls).seen_invariant start (fun past l t u hI _ => keep past l t u hI) h

/-- Replays compose. -/
theorem exec_append {s t u : σ} {ls ls' : List ℓ} (h : exec step s ls = some t)
    (h' : exec step t ls' = some u) : exec step s (ls ++ ls') = some u := by
  induction ls generalizing s with
  | nil =>
    cases h
    exact h'
  | cons l ls ih =>
    obtain ⟨mid, hmid, hrest⟩ := Option.bind_eq_some_iff.mp h
    exact Option.bind_eq_some_iff.mpr ⟨mid, hmid, ih hrest⟩

/-- Where a step keeps a property just when it meets `ok`, the states of a replay have it
just when all its steps do. -/
theorem along_iff {I J : σ → Prop} (keep : ∀ s l t, I s → step s l = some t → I t)
    (exact : ∀ s l t, I s → J s → step s l = some t → (J t ↔ ok s l)) :
    ∀ {ls : List ℓ} {s t : σ}, I s → J s → exec step s ls = some t →
      ((∀ n u, exec step s (ls.take n) = some u → J u) ↔ Along step ok s ls)
  | [], s, t, _, hJ, _ => by
    refine ⟨fun _ => trivial, fun _ n u hu => ?_⟩
    rw [List.take_nil] at hu
    cases hu
    exact hJ
  | l :: ls, s, t, hI, hJ, h => by
    obtain ⟨mid, hmid, hrest⟩ := Option.bind_eq_some_iff.mp h
    have hI' : I mid := keep s l mid hI hmid
    have hstep := exact s l mid hI hJ hmid
    have htake : ∀ n, exec step s ((l :: ls).take (n + 1)) = exec step mid (ls.take n) := by
      intro n
      rw [List.take_succ_cons, exec, hmid]
      rfl
    constructor
    · intro hall
      have hJ' : J mid := hall 1 mid (by rw [htake, List.take_zero]; rfl)
      refine ⟨hstep.mp hJ', fun t' ht' => ?_⟩
      obtain rfl := Option.some.inj (hmid.symm.trans ht')
      refine (along_iff keep exact hI' hJ' hrest).mp fun n u hu => ?_
      exact hall (n + 1) u (by rwa [htake])
    · rintro ⟨hok, halong⟩ n u hu
      have hJ' : J mid := hstep.mpr hok
      cases n with
      | zero =>
        rw [List.take_zero] at hu
        cases hu
        exact hJ
      | succ n =>
        rw [htake] at hu
        exact (along_iff keep exact hI' hJ' hrest).mpr (halong mid hmid) n u hu

/-- Replay a list of labels, see that each is permitted, and check where it leads. -/
def replay (step : σ → ℓ → Option σ) (ok : σ → ℓ → Prop) [∀ s l, Decidable (ok s l)] (s : σ)
    (ls : List ℓ) (check : σ → Bool) : Bool :=
  decide (Along step ok s ls) && (exec step s ls).elim false check

/-- A replay that passes is a run to a state that does. -/
theorem replay_spec [∀ s l, Decidable (ok s l)] {s : σ} {ls : List ℓ} {check : σ → Bool}
    (h : replay step ok s ls check = true) : ∃ t, Reaches step ok s t ∧ check t = true := by
  obtain ⟨halong, hcheck⟩ := Bool.and_eq_true_iff.mp h
  cases ht : exec step s ls with
  | none =>
    rw [ht] at hcheck
    cases hcheck
  | some t =>
    rw [ht] at hcheck
    exact ⟨t, .of_exec (of_decide_eq_true halong) ht, hcheck⟩

end LTS
