import Mathlib.Data.List.Perm.Basic
import Mathlib.Order.MinMax

/-!
# Ordered maps

The entries of an ordered map come by strictly ascending keys, which the map carries. So a
map is known by what it has at each key, and an update of one key keeps the others and
their order.
-/

/-- A map in the order of its keys. -/
structure OrdMap (κ β : Type) [LinearOrder κ] where
  entries : List (κ × β)
  ascending : entries.Pairwise fun a b => a.1 < b.1

namespace OrdMap

variable {κ β : Type} [LinearOrder κ]

def empty : OrdMap κ β := ⟨[], List.Pairwise.nil⟩

/-- What entries have at a key. -/
def lookup (k : κ) : List (κ × β) → Option β
  | [] => none
  | (k', v) :: es => if k' = k then some v else lookup k es

/-- What the map has at a key. -/
def get? (m : OrdMap κ β) (k : κ) : Option β := lookup k m.entries

/-- Entries with another value at one key, which is made of the value before. -/
def alterEntries (k : κ) (f : Option β → β) : List (κ × β) → List (κ × β)
  | [] => [(k, f none)]
  | (k', v) :: es =>
    if k < k' then (k, f none) :: (k', v) :: es
    else if k' = k then (k, f (some v)) :: es
    else (k', v) :: alterEntries k f es

theorem mem_alterEntries {k : κ} {f : Option β → β} {e : κ × β} : ∀ {es : List (κ × β)},
    e ∈ alterEntries k f es → e.1 = k ∨ e ∈ es
  | [], h => .inl (by rw [List.mem_singleton.mp h])
  | (k', v) :: es, h => by
    unfold alterEntries at h
    split at h
    · rcases List.mem_cons.mp h with rfl | h
      · exact .inl rfl
      · exact .inr h
    · split at h
      · rcases List.mem_cons.mp h with rfl | h
        · exact .inl rfl
        · exact .inr (List.mem_cons_of_mem _ h)
      · rcases List.mem_cons.mp h with rfl | h
        · exact .inr List.mem_cons_self
        · exact (mem_alterEntries h).imp_right (List.mem_cons_of_mem _)

theorem alterEntries_ascending (k : κ) (f : Option β → β) : ∀ {es : List (κ × β)},
    (es.Pairwise fun a b => a.1 < b.1) → (alterEntries k f es).Pairwise fun a b => a.1 < b.1
  | [], _ => List.pairwise_singleton _ _
  | (k', v) :: es, h => by
    obtain ⟨hhead, htail⟩ := List.pairwise_cons.mp h
    unfold alterEntries
    split
    next hlt =>
      refine List.pairwise_cons.mpr ⟨fun e he => ?_, h⟩
      rcases List.mem_cons.mp he with rfl | he
      · exact hlt
      · exact hlt.trans (hhead e he)
    next hnlt =>
      split
      next heq => exact List.pairwise_cons.mpr ⟨fun e he => heq ▸ hhead e he, htail⟩
      next hne =>
        refine List.pairwise_cons.mpr ⟨fun e he => ?_, alterEntries_ascending k f htail⟩
        rcases mem_alterEntries he with rfl | he
        · exact lt_of_le_of_ne (not_lt.mp hnlt) hne
        · exact hhead e he

/-- Put at a key what is made of the value before. -/
def alter (m : OrdMap κ β) (k : κ) (f : Option β → β) : OrdMap κ β :=
  ⟨alterEntries k f m.entries, alterEntries_ascending k f m.ascending⟩

/-! ## Look-ups -/

theorem lookup_eq_none {k : κ} : ∀ {es : List (κ × β)}, (∀ e ∈ es, e.1 ≠ k) → lookup k es = none
  | [], _ => rfl
  | (k', v) :: es, h => by
    unfold lookup
    rw [if_neg (h (k', v) List.mem_cons_self)]
    exact lookup_eq_none fun e he => h e (List.mem_cons_of_mem _ he)

theorem lookup_eq_some {k : κ} {v : β} : ∀ {es : List (κ × β)},
    (es.Pairwise fun a b => a.1 < b.1) → (lookup k es = some v ↔ (k, v) ∈ es)
  | [], _ => ⟨nofun, fun h => absurd h List.not_mem_nil⟩
  | (k', v') :: es, h => by
    obtain ⟨hhead, htail⟩ := List.pairwise_cons.mp h
    unfold lookup
    split
    next heq =>
      constructor
      · intro hv
        rw [← heq, Option.some.inj hv]
        exact List.mem_cons_self
      · intro hmem
        rcases List.mem_cons.mp hmem with hmem | hmem
        · rw [(Prod.mk.inj hmem).2]
        · exact absurd (hhead _ hmem) (by rw [heq]; exact lt_irrefl k)
    next hne =>
      rw [lookup_eq_some htail]
      refine ⟨List.mem_cons_of_mem _, fun hmem => ?_⟩
      rcases List.mem_cons.mp hmem with hmem | hmem
      · exact absurd (Prod.mk.inj hmem).1.symm hne
      · exact hmem

theorem get?_eq_some {m : OrdMap κ β} {k : κ} {v : β} : m.get? k = some v ↔ (k, v) ∈ m.entries :=
  lookup_eq_some m.ascending

theorem lookup_alterEntries (k k₁ : κ) (f : Option β → β) : ∀ {es : List (κ × β)},
    (es.Pairwise fun a b => a.1 < b.1) →
    lookup k₁ (alterEntries k f es) = if k₁ = k then some (f (lookup k es)) else lookup k₁ es
  | [], _ => by
    unfold alterEntries lookup lookup
    by_cases h : k₁ = k
    · rw [if_pos h.symm, if_pos h]
    · rw [if_neg (Ne.symm h), if_neg h]
  | (k', v) :: es, hasc => by
    obtain ⟨hhead, htail⟩ := List.pairwise_cons.mp hasc
    unfold alterEntries
    split
    next hlt =>
      have hnone : lookup k ((k', v) :: es) = none := by
        apply lookup_eq_none
        intro e he
        rcases List.mem_cons.mp he with rfl | he
        · exact hlt.ne'
        · exact (hlt.trans (hhead e he)).ne'
      rw [hnone]
      by_cases h : k₁ = k
      · rw [lookup, if_pos h.symm, if_pos h]
      · rw [lookup, if_neg (Ne.symm h), if_neg h]
    next hnlt =>
      split
      next heq =>
        subst heq
        have hsame : lookup k' ((k', v) :: es) = some v := by rw [lookup, if_pos rfl]
        rw [hsame]
        by_cases h : k₁ = k'
        · rw [lookup, if_pos h.symm, if_pos h]
        · rw [lookup, if_neg (Ne.symm h), if_neg h, lookup, if_neg (Ne.symm h)]
      next hne =>
        have hlater : lookup k ((k', v) :: es) = lookup k es := by rw [lookup, if_neg hne]
        rw [hlater, lookup, lookup_alterEntries k k₁ f htail]
        by_cases h : k₁ = k
        · rw [if_neg (fun heq => hne (heq.trans h)), if_pos h, if_pos h]
        · rw [if_neg h, if_neg h, lookup]

/-- An update is seen at its key and nowhere else. -/
theorem get?_alter (m : OrdMap κ β) (k k₁ : κ) (f : Option β → β) :
    (m.alter k f).get? k₁ = if k₁ = k then some (f (m.get? k)) else m.get? k₁ :=
  lookup_alterEntries k k₁ f m.ascending

/-- A map is known by what it has at each key. -/
theorem ext_get? {m m' : OrdMap κ β} (h : ∀ k, m.get? k = m'.get? k) : m = m' := by
  have hentries : m.entries = m'.entries := by
    have hnodup : ∀ n : OrdMap κ β, n.entries.Nodup := fun n =>
      n.ascending.imp fun hlt heq => absurd hlt (by rw [heq]; exact lt_irrefl _)
    have hperm : m.entries.Perm m'.entries := by
      refine (List.perm_ext_iff_of_nodup (hnodup m) (hnodup m')).mpr fun e => ?_
      rw [← get?_eq_some (k := e.1) (v := e.2), ← get?_eq_some, h]
    exact hperm.eq_of_pairwise (fun a b _ _ hab hba => absurd hab hba.asymm) m.ascending
      m'.ascending
  cases m
  cases m'
  rw [mk.injEq]
  exact hentries

/-- An update by what the map has at the key. -/
theorem alter_get? (m : OrdMap κ β) (k : κ) (f : Option β → β) :
    (m.alter k fun _ => f (m.get? k)) = m.alter k f := by
  apply ext_get?
  intro k₁
  rw [get?_alter, get?_alter]

/-- A list made of the entries under some keys only grows where an update of a key leaves what
is listed of it. -/
theorem alterEntries_listing {γ : Type} {g : κ × β → γ} {p : κ → Bool} {k : κ}
    {f : Option β → β} : ∀ {es : List (κ × β)},
    (∀ v, lookup k es = some v → g (k, f (some v)) = g (k, v)) →
    ((es.filter fun e => p e.1).map g).Sublist
      (((alterEntries k f es).filter fun e => p e.1).map g)
  | [], _ => List.nil_sublist _
  | (k', v) :: es, h => by
    unfold alterEntries
    split
    next => exact ((List.sublist_cons_self _ _).filter _).map g
    next =>
      split
      next heq =>
        subst heq
        have hkeep : g (k', f (some v)) = g (k', v) := h v (by rw [lookup, if_pos rfl])
        rw [List.filter_cons, List.filter_cons]
        dsimp only
        split
        · rw [List.map_cons, List.map_cons, hkeep]
        · exact List.Sublist.refl _
      next hne =>
        have hrest := alterEntries_listing (g := g) (p := p) (f := f) fun v' hv' =>
          h v' (by rwa [lookup, if_neg hne])
        rw [List.filter_cons, List.filter_cons]
        dsimp only
        split
        · exact hrest.cons_cons _
        · exact hrest

/-- Updates that commute at each key commute. -/
theorem alter_comm (m : OrdMap κ β) {k k' : κ} {f g : Option β → β}
    (h : k = k' → ∀ v, g (some (f v)) = f (some (g v))) :
    (m.alter k f).alter k' g = (m.alter k' g).alter k f := by
  apply ext_get?
  intro k₁
  rw [get?_alter, get?_alter, get?_alter, get?_alter, get?_alter, get?_alter]
  by_cases hk : k = k'
  · subst hk
    by_cases h₁ : k₁ = k
    · rw [if_pos h₁, if_pos rfl, if_pos h₁, if_pos rfl, h rfl]
    · rw [if_neg h₁, if_neg h₁, if_neg h₁, if_neg h₁]
  · by_cases h₁ : k₁ = k
    · subst h₁
      rw [if_neg hk, if_pos rfl, if_pos rfl, if_neg hk]
    · rw [if_neg h₁, if_neg (Ne.symm hk), if_neg h₁]

end OrdMap
