import S4Logs.Lib.Run

/-!
# Runs seen from a part

A large system is often many copies of a small one that share something. A part of it
then moves as the small system does, or stands still while another part moves. `Projects`
says so of one step: which labels of the part the label of the system comes to, none or
one as a rule. `Projects.exec` carries it to runs, so that a run of the system, seen from the
part, is a run of the small system, and what holds of every run of the one holds in every
run of the other.
-/

namespace LTS

universe u v w x

variable {σ : Type u} {ℓ : Type v} {τ : Type w} {κ : Type x}
variable {step : σ → ℓ → Option σ} {ok : σ → ℓ → Prop}
variable {part : τ → κ → Option τ} {okPart : τ → κ → Prop}

/-- What every state of a run has may be assumed of each of its steps. -/
theorem Reaches.keeping {I : σ → Prop} {s t : σ} (start : I s)
    (keep : ∀ s l t, I s → ok s l → step s l = some t → I t) (run : Reaches step ok s t) :
    Reaches step (fun s l => I s ∧ ok s l) s t := by
  have hrun : I t ∧ Reaches step (fun s l => I s ∧ ok s l) s t := by
    induction run with
    | refl => exact ⟨start, .refl⟩
    | tail _ hok hstep ih => exact ⟨keep _ _ _ ih.1 hok hstep, .tail ih.2 ⟨ih.1, hok⟩ hstep⟩
  exact hrun.2

/-- Where each label of a replay is permitted whatever the state. -/
theorem Along.of_mem : ∀ {ls : List ℓ} {s : σ}, (∀ s, ∀ l ∈ ls, ok s l) → Along step ok s ls
  | [], _, _ => trivial
  | l :: _, _, h => ⟨h _ l List.mem_cons_self, fun _ _ =>
      Along.of_mem fun s l' hl' => h s l' (List.mem_cons_of_mem _ hl')⟩

/-- A replay under one assumption is a replay under every weaker one. -/
theorem Along.mono {ok' : σ → ℓ → Prop} (weaker : ∀ s l, ok s l → ok' s l) : ∀ {ls : List ℓ} {s : σ},
    Along step ok s ls → Along step ok' s ls
  | [], _, _ => trivial
  | _ :: _, _, along => ⟨weaker _ _ along.1, fun t ht => Along.mono weaker (along.2 t ht)⟩

theorem Along.append {ls ls' : List κ} : ∀ {t t' : τ}, Along part okPart t ls →
    exec part t ls = some t' → Along part okPart t' ls' → Along part okPart t (ls ++ ls') := by
  induction ls with
  | nil =>
    intro t t' _ h h'
    cases h
    exact h'
  | cons l ls ih =>
    intro t t' along h h'
    obtain ⟨mid, hmid, hrest⟩ := Option.bind_eq_some_iff.mp h
    refine ⟨along.1, fun u hu => ?_⟩
    obtain rfl := Option.some.inj (hmid.symm.trans hu)
    exact ih (along.2 mid hmid) hrest h'

/-- A permitted step of the system, seen from a state of the part that shows it: the part
takes the permitted steps it comes to, and shows the state after it. -/
def Projects (step : σ → ℓ → Option σ) (ok : σ → ℓ → Prop) (part : τ → κ → Option τ)
    (okPart : τ → κ → Prop) (project : σ → ℓ → List κ) (shows : σ → τ → Prop) : Prop :=
  ∀ s l s' t, shows s t → ok s l → step s l = some s' →
    ∃ t', Along part okPart t (project s l) ∧ exec part t (project s l) = some t' ∧ shows s' t'

/-- The part stands still. -/
theorem Along.still {shown : τ → Prop} {t : τ} {ls : List κ} (hls : ls = []) (h : shown t) :
    ∃ t', Along part okPart t ls ∧ exec part t ls = some t' ∧ shown t' := by
  subst hls
  exact ⟨t, trivial, rfl, h⟩

/-- The part takes one step. -/
theorem Along.one {shown : τ → Prop} {t u : τ} {l : κ} {ls : List κ} (hls : ls = [l])
    (hok : okPart t l) (hstep : part t l = some u) (h : shown u) :
    ∃ t', Along part okPart t ls ∧ exec part t ls = some t' ∧ shown t' := by
  subst hls
  refine ⟨u, ⟨hok, fun _ _ => trivial⟩, ?_, h⟩
  rw [exec, hstep]
  rfl

namespace Projects

variable {project : σ → ℓ → List κ} {shows : σ → τ → Prop}

/-- A replay of the system, seen from the part, is a replay of the part. -/
theorem exec (proj : Projects step ok part okPart project shows) : ∀ {ls : List ℓ} {s s' : σ}
    {t : τ}, shows s t → Along step ok s ls → LTS.exec step s ls = some s' →
      ∃ t', Along part okPart t (seen step project s ls) ∧
        LTS.exec part t (seen step project s ls) = some t' ∧ shows s' t'
  | [], s, s', t, start, _, h => by
    cases h
    exact ⟨t, trivial, rfl, start⟩
  | l :: ls, s, s', t, start, along, h => by
    obtain ⟨mid, hmid, hrest⟩ := Option.bind_eq_some_iff.mp h
    obtain ⟨u, halong, hexec, hshows⟩ := proj s l mid t start along.1 hmid
    obtain ⟨t', halong', hexec', hshows'⟩ := proj.exec hshows (along.2 mid hmid) hrest
    rw [seen, hmid, Option.elim_some]
    exact ⟨t', halong.append hexec halong', exec_append hexec hexec', hshows'⟩

/-- A run of the system is, seen from the part, a run of the part. -/
theorem reaches {s s' : σ} {t : τ} (proj : Projects step ok part okPart project shows)
    (start : shows s t) (run : Reaches step ok s s') :
    ∃ t', Reaches part okPart t t' ∧ shows s' t' := by
  induction run with
  | refl => exact ⟨t, .refl, start⟩
  | tail _ hok hstep ih =>
    obtain ⟨mid, hmid, hshows⟩ := ih
    obtain ⟨t', halong, hexec, hshows'⟩ := proj _ _ _ _ hshows hok hstep
    exact ⟨t', hmid.trans (.of_exec halong hexec), hshows'⟩

end Projects

end LTS
