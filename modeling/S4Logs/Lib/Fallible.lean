import Mathlib.Init

/-!
# Computations that may fail

A computation that comes to a value came to one at every step.
-/

namespace Fallible

variable {ε α β : Type}

/-- What a computation that goes on comes from. -/
theorem bind_eq_ok {x : Except ε α} {f : α → Except ε β} {b : β} :
    x >>= f = .ok b ↔ ∃ a, x = .ok a ∧ f a = .ok b := by
  cases x with
  | error e => exact ⟨nofun, fun ⟨_, h, _⟩ => by cases h⟩
  | ok a => exact ⟨fun h => ⟨a, rfl, h⟩, fun ⟨_, h, hf⟩ => by cases h; exact hf⟩

theorem map_eq_ok {x : Except ε α} {f : α → β} {b : β} :
    x.map f = .ok b ↔ ∃ a, x = .ok a ∧ f a = b := by
  cases x with
  | error e => exact ⟨nofun, fun ⟨_, h, _⟩ => by cases h⟩
  | ok a => exact ⟨fun h => ⟨a, rfl, Except.ok.inj h⟩, fun ⟨_, h, hf⟩ => by cases h; cases hf; rfl⟩

theorem toOption_eq_some {x : Except ε α} {a : α} : x.toOption = some a ↔ x = .ok a := by
  cases x with
  | error e => exact ⟨nofun, nofun⟩
  | ok b => exact ⟨fun h => congrArg _ (Option.some.inj h), fun h => congrArg _ (Except.ok.inj h)⟩

/-- What is made of a list in turn is made of its members. -/
theorem mem_of_mapM_ok {f : α → Except ε β} : ∀ {as : List α} {bs : List β},
    as.mapM f = .ok bs → ∀ b ∈ bs, ∃ a ∈ as, f a = .ok b
  | [], _, h, b, hb => by
    cases h
    exact absurd hb List.not_mem_nil
  | a :: as, _, h, b, hb => by
    rw [List.mapM_cons] at h
    obtain ⟨b₁, hb₁, h⟩ := bind_eq_ok.mp h
    obtain ⟨bs, hbs, h⟩ := bind_eq_ok.mp h
    cases h
    rcases List.mem_cons.mp hb with rfl | hb
    · exact ⟨a, List.mem_cons_self, hb₁⟩
    · obtain ⟨a', ha', hfa'⟩ := mem_of_mapM_ok hbs b hb
      exact ⟨a', List.mem_cons_of_mem _ ha', hfa'⟩

/-- A fold of steps that fail where something does not fit is the fold of the total steps
where all fits. `inv` is what the steps need of the state. -/
theorem foldlM_eq_some (inv : β → Prop) (allFit : β → List α → Prop)
    {step : β → α → Option β} {total : β → α → β} {fits : β → α → Prop}
    (hstep : ∀ {b b' : β} {a : α}, inv b → (step b a = some b' ↔ b' = total b a ∧ fits b a))
    (hinv : ∀ {b : β} {a : α}, inv b → fits b a → inv (total b a))
    (hnil : ∀ b, allFit b [])
    (hcons : ∀ b a as, allFit b (a :: as) ↔ fits b a ∧ allFit (total b a) as)
    {as : List α} {b b' : β} (h : inv b) :
    as.foldlM step b = some b' ↔ b' = as.foldl total b ∧ allFit b as := by
  induction as generalizing b with
  | nil => exact ⟨fun heq => ⟨(Option.some.inj heq).symm, hnil b⟩, fun heq => heq.1 ▸ rfl⟩
  | cons a as ih =>
    rw [List.foldlM_cons, Option.bind_eq_bind, Option.bind_eq_some_iff, hcons]
    constructor
    · rintro ⟨b₁, hfirst, hrest⟩
      obtain ⟨rfl, hfits⟩ := (hstep h).mp hfirst
      obtain ⟨heq, hall⟩ := (ih (hinv h hfits)).mp hrest
      exact ⟨heq, hfits, hall⟩
    · rintro ⟨heq, hfits, hall⟩
      exact ⟨total b a, (hstep h).mpr ⟨rfl, hfits⟩, (ih (hinv h hfits)).mpr ⟨heq, hall⟩⟩

end Fallible
