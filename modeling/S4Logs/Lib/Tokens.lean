import Mathlib.Data.List.Basic

/-!
# Following tokens

A server gives a listing out in pages. A page has the token of the next one, until one
has none. A reader asks with the token it has, folds the page it gets into what it has so
far, and goes on until the fold has what it looks for, until there is no token or until the
server refuses.

The pages of a server from a token on are a chain. Where the chain ends, so does the reader
(`follow_chain`): with what a fold over the chain gives, or with what the server refused
with. What lies between a request and its page (a retry, a wait) does not matter.
-/

namespace Tokens

variable {τ π ε α β γ : Type*}

/-- What a page comes to: the reader returns, or has read this much. -/
inductive Visit (α β : Type*) where
  | found (b : β)
  | more (a : α)

/-- The reader, which numbers its requests. Nothing where `fuel` pages were not enough. -/
def follow (ask : Nat → Option τ → Nat × Except ε π) (visit : α → π → Visit α (Except ε β))
    (next : π → Option τ) (finish : α → Except ε β) :
    Nat → Nat → Option τ → α → Option (Nat × Except ε β)
  | 0, _, _, _ => none
  | fuel + 1, n, token, a =>
    match ask n token with
    | (n, .error e) => some (n, .error e)
    | (n, .ok page) =>
      match visit a page with
      | .found r => some (n, r)
      | .more a =>
        match next page with
        | none => some (n, finish a)
        | some token => follow ask visit next finish fuel n (some token) a

/-- The pages of a server from a token on. -/
inductive Chain (page : Option τ → π) (next : π → Option τ) : Option τ → List π → Prop
  | last {token : Option τ} : next (page token) = none → Chain page next token [page token]
  | more {token : Option τ} {token' : τ} {pages : List π} : next (page token) = some token' →
      Chain page next (some token') pages → Chain page next token (page token :: pages)

/-- What the reader makes of some pages. -/
def fold (visit : α → π → Visit α (Except ε β)) (finish : α → Except ε β) :
    α → List π → Except ε β
  | a, [] => finish a
  | a, page :: pages =>
    match visit a page with
    | .found r => r
    | .more a => fold visit finish a pages

variable {ask : Nat → Option τ → Nat × Except ε π} {visit : α → π → Visit α (Except ε β)}
variable {next : π → Option τ} {finish : α → Except ε β} {page : Option τ → π}

/-- The reader of a chain returns: what the fold gives, or what a request was refused with. -/
theorem follow_chain (server : ∀ n token m p, ask n token = (m, .ok p) → p = page token)
    {token : Option τ} {pages : List π} (chain : Chain page next token pages) :
    ∀ (fuel n : Nat) (a : α), pages.length ≤ fuel →
      ∃ m r, follow ask visit next finish fuel n token a = some (m, r) ∧
        (r = fold visit finish a pages ∨
          ∃ n' token' e, ask n' token' = (m, .error e) ∧ r = .error e) := by
  induction chain with
  | @last token hnone =>
    intro fuel n a hfuel
    obtain ⟨fuel, rfl⟩ := Nat.exists_eq_succ_of_ne_zero (Nat.ne_of_gt hfuel)
    simp only [follow, fold]
    cases hask : ask n token with
    | mk m answer =>
      cases answer with
      | error e => exact ⟨m, _, rfl, .inr ⟨n, token, e, hask, rfl⟩⟩
      | ok p =>
        obtain rfl := server n token m p hask
        dsimp only
        cases hvisit : visit a (page token) with
        | found r => exact ⟨m, r, rfl, .inl rfl⟩
        | more a' =>
          simp only [hnone]
          exact ⟨m, _, rfl, .inl rfl⟩
  | @more token token' pages hsome _ ih =>
    intro fuel n a hfuel
    obtain ⟨fuel, rfl⟩ := Nat.exists_eq_succ_of_ne_zero (Nat.ne_of_gt (Nat.zero_lt_of_lt hfuel))
    simp only [follow, fold]
    cases hask : ask n token with
    | mk m answer =>
      cases answer with
      | error e => exact ⟨m, _, rfl, .inr ⟨n, token, e, hask, rfl⟩⟩
      | ok p =>
        obtain rfl := server n token m p hask
        dsimp only
        cases hvisit : visit a (page token) with
        | found r => exact ⟨m, r, rfl, .inl rfl⟩
        | more a' =>
          simp only [hsome]
          exact ih fuel m a' (Nat.le_of_succ_le_succ hfuel)

/-- A reader that collects. -/
theorem fold_collect {items : π → List β} {a : List β} (pages : List π) :
    fold (fun a p => Visit.more (a ++ items p)) (fun a => (.ok a : Except ε (List β))) a pages =
      .ok (a ++ pages.flatMap items) := by
  induction pages generalizing a with
  | nil => simp only [fold, List.flatMap_nil, List.append_nil]
  | cons p pages ih => simp only [fold, ih, List.flatMap_cons, List.append_assoc]

end Tokens
