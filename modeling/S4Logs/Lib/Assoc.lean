import Mathlib.Algebra.BigOperators.Group.List.Basic
import Mathlib.Algebra.Order.Group.Multiset
import Mathlib.Algebra.Order.Ring.Nat
import Mathlib.Data.List.Perm.Basic
import Mathlib.Tactic.Abel

/-!
# Association lists and what they hold

A hash map is read here as a list of its entries: the order of the list stands
for the iteration order, which no caller may rely on. `remove` takes one entry
out, and since a map is changed by taking an entry out and putting another
back, one lemma (`remove_perm`) accounts for every update: the entries before
are the removed one and the rest, in some order.

`valuesOf` reads a list whose keys need not be distinct, such as a record of what came in.

`total` adds up the multisets the entries hold. Every conservation argument is
an equation between totals, and `total_remove` is the only rule it needs for a
map that changed.
-/

namespace Assoc

variable {κ β α : Type*}

/-- The keys of the map, in iteration order. -/
def keys (m : List (κ × β)) : List κ := m.map Prod.fst

@[simp] theorem keys_nil : keys ([] : List (κ × β)) = [] := rfl

@[simp] theorem keys_cons (e : κ × β) (m : List (κ × β)) : keys (e :: m) = e.1 :: keys m := rfl

section Lookup

variable [DecidableEq κ]

/-- Take the entry of `k` out of the map. -/
def remove (k : κ) : List (κ × β) → Option (β × List (κ × β))
  | [] => none
  | (k', v) :: m =>
    if k' = k then some (v, m)
    else (remove k m).map fun r => (r.1, (k', v) :: r.2)

/-- The value of `k`, if the map has one. -/
def get? (k : κ) (m : List (κ × β)) : Option β := (remove k m).map Prod.fst

/-- Removing an entry splits the map into that entry and the rest. -/
theorem remove_perm {k : κ} {v : β} : ∀ {m m' : List (κ × β)},
    remove k m = some (v, m') → m.Perm ((k, v) :: m')
  | [], _, h => by cases h
  | (k', v') :: m, m', h => by
    unfold remove at h
    split at h
    next hk =>
      cases h
      rw [hk]
    next =>
      obtain ⟨r, hr, heq⟩ := Option.map_eq_some_iff.mp h
      cases heq
      exact ((remove_perm hr).cons (k', v')).trans (List.Perm.swap _ _ _)

/-- Only a key the map does not have cannot be removed. -/
theorem remove_eq_none {k : κ} : ∀ {m : List (κ × β)}, remove k m = none ↔ k ∉ keys m
  | [] => by simp [remove]
  | (k', v) :: m => by
    unfold remove
    by_cases hk : k' = k
    · simp [hk]
    · simp only [if_neg hk, Option.map_eq_none_iff, keys_cons, List.mem_cons, not_or,
        remove_eq_none]
      exact ⟨fun h => ⟨fun e => hk e.symm, h⟩, fun h => h.2⟩

/-- A map of one entry has no other to remove. -/
theorem of_remove_singleton {k k' : κ} {v v' : β} {m : List (κ × β)}
    (h : remove k [(k', v')] = some (v, m)) : k = k' ∧ v = v' ∧ m = [] := by
  unfold remove at h
  split at h
  next hk =>
    cases h
    exact ⟨hk.symm, rfl, rfl⟩
  next => cases h

/-- Put a value at `k`, in place where the map has one. -/
def insert (k : κ) (v : β) : List (κ × β) → List (κ × β)
  | [] => [(k, v)]
  | (k', v') :: m => if k' = k then (k, v) :: m else (k', v') :: insert k v m

/-- A value put at a key the map has takes the place of the one removed. -/
theorem insert_perm {k : κ} {v : β} (v' : β) : ∀ {m m' : List (κ × β)},
    remove k m = some (v, m') → (insert k v' m).Perm ((k, v') :: m')
  | [], _, h => by cases h
  | (k₁, v₁) :: m, m', h => by
    unfold remove at h
    unfold insert
    split at h
    next hk =>
      cases h
      rw [if_pos hk]
    next hk =>
      obtain ⟨r, hr, heq⟩ := Option.map_eq_some_iff.mp h
      cases heq
      rw [if_neg hk]
      exact ((insert_perm v' hr).cons (k₁, v₁)).trans (List.Perm.swap _ _ _)

/-- A value put at a new key comes last. -/
theorem insert_of_notMem {k : κ} {v : β} {m : List (κ × β)} (h : k ∉ keys m) :
    insert k v m = m ++ [(k, v)] := by
  induction m with
  | nil => rfl
  | cons e m ih =>
    obtain ⟨k', v'⟩ := e
    rw [keys_cons, List.mem_cons, not_or] at h
    unfold insert
    rw [if_neg (Ne.symm h.1), ih h.2, List.cons_append]

/-- A key that is found can be removed. -/
theorem get?_eq_some {k : κ} {v : β} {m : List (κ × β)} :
    get? k m = some v ↔ ∃ m', remove k m = some (v, m') := by
  unfold get?
  constructor
  · intro h
    obtain ⟨⟨v', m'⟩, hr, rfl⟩ := Option.map_eq_some_iff.mp h
    exact ⟨m', hr⟩
  · rintro ⟨m', hr⟩
    rw [hr]
    rfl

theorem get?_eq_none {k : κ} {m : List (κ × β)} : get? k m = none ↔ k ∉ keys m := by
  rw [get?, Option.map_eq_none_iff, remove_eq_none]

theorem mem_of_get? {k : κ} {v : β} {m : List (κ × β)} (h : get? k m = some v) : (k, v) ∈ m := by
  obtain ⟨m', hr⟩ := get?_eq_some.mp h
  exact (remove_perm hr).mem_iff.mpr List.mem_cons_self

/-- Where no key is twice, an entry is what its key finds. -/
theorem get?_of_mem {k : κ} {v : β} {m : List (κ × β)} (hnodup : (keys m).Nodup)
    (h : (k, v) ∈ m) : get? k m = some v := by
  have hkey : k ∈ keys m := List.mem_map_of_mem h
  obtain ⟨v', hv'⟩ := Option.ne_none_iff_exists'.mp (mt get?_eq_none.mp (not_not_intro hkey))
  have heq := List.inj_on_of_nodup_map hnodup h (mem_of_get? hv') rfl
  rw [hv', (Prod.mk.inj heq).2]

/-- A value that was put is found. -/
theorem get?_insert (k : κ) (v : β) (m : List (κ × β)) : get? k (insert k v m) = some v := by
  have hfirst : ∀ (m' : List (κ × β)), remove k ((k, v) :: m') = some (v, m') := fun m' => by
    rw [remove, if_pos rfl]
  rw [get?_eq_some]
  induction m with
  | nil => exact ⟨[], hfirst []⟩
  | cons e m ih =>
    obtain ⟨k', v'⟩ := e
    unfold insert
    by_cases hk : k' = k
    · rw [if_pos hk]
      exact ⟨m, hfirst m⟩
    · obtain ⟨m', hm'⟩ := ih
      rw [if_neg hk]
      exact ⟨(k', v') :: m', by rw [remove, if_neg hk, hm']; rfl⟩

/-- What a map has after a value was put is that value, or was there before. -/
theorem mem_insert {k : κ} {v : β} {m : List (κ × β)} {e : κ × β} (h : e ∈ insert k v m) :
    e = (k, v) ∨ e ∈ m := by
  cases hr : remove k m with
  | none =>
    rw [insert_of_notMem (remove_eq_none.mp hr), List.mem_append, List.mem_singleton] at h
    exact h.symm
  | some r =>
    rcases List.mem_cons.mp ((insert_perm v hr).mem_iff.mp h) with h | h
    · exact .inl h
    · exact .inr ((remove_perm hr).mem_iff.mpr (List.mem_cons_of_mem _ h))

/-- The first entry decides where it is the key's. -/
theorem get?_cons (k k' : κ) (v : β) (m : List (κ × β)) :
    get? k ((k', v) :: m) = if k' = k then some v else get? k m := by
  unfold get?
  rw [remove]
  split
  next => rfl
  next =>
    rw [Option.map_map]
    rfl

/-- Another key keeps its value. -/
theorem get?_insert_of_ne {k k' : κ} (hne : k' ≠ k) (v : β) (m : List (κ × β)) :
    get? k (insert k' v m) = get? k m := by
  induction m with
  | nil => rw [insert, get?_cons, if_neg hne]
  | cons e m ih =>
    obtain ⟨k₁, v₁⟩ := e
    unfold insert
    by_cases hk : k₁ = k'
    · rw [if_pos hk, get?_cons, get?_cons, if_neg hne, if_neg (hk ▸ hne)]
    · rw [if_neg hk, get?_cons, get?_cons, ih]

/-- The keys after a value was put. -/
theorem mem_keys_insert {k k' : κ} {v : β} {m : List (κ × β)} :
    k ∈ keys (insert k' v m) ↔ k = k' ∨ k ∈ keys m := by
  induction m with
  | nil => simp [insert]
  | cons e m ih =>
    obtain ⟨k₁, v₁⟩ := e
    unfold insert
    by_cases hk : k₁ = k'
    · rw [if_pos hk, keys_cons, keys_cons, List.mem_cons, List.mem_cons, hk]
      exact (or_iff_right_of_imp .inl).symm
    · rw [if_neg hk, keys_cons, keys_cons, List.mem_cons, List.mem_cons, ih]
      exact or_left_comm

/-- Keys stay distinct. -/
theorem nodup_insert {k : κ} {v : β} : ∀ {m : List (κ × β)}, (keys m).Nodup →
    (keys (insert k v m)).Nodup
  | [], _ => List.nodup_singleton k
  | (k₁, v₁) :: m, h => by
    obtain ⟨hnew, hrest⟩ := List.nodup_cons.mp h
    unfold insert
    by_cases hk : k₁ = k
    · rw [if_pos hk, keys_cons, ← hk]
      exact h
    · rw [if_neg hk, keys_cons]
      refine List.nodup_cons.mpr ⟨fun hmem => ?_, nodup_insert hrest⟩
      exact (mem_keys_insert.mp hmem).elim hk hnew

/-- A value put again is put once. -/
theorem insert_insert (k : κ) (v v' : β) (m : List (κ × β)) :
    insert k v' (insert k v m) = insert k v' m := by
  induction m with
  | nil => simp only [insert, if_true]
  | cons e m ih =>
    obtain ⟨k₁, v₁⟩ := e
    by_cases hk : k₁ = k
    · simp only [insert, if_pos hk, if_true]
    · simp only [insert, if_neg hk, ih]

/-- A value that is there already may be put. -/
theorem insert_get? {k : κ} {v : β} {m : List (κ × β)} (h : get? k m = some v) :
    insert k v m = m := by
  induction m with
  | nil => cases h
  | cons e m ih =>
    obtain ⟨k₁, v₁⟩ := e
    rw [get?_cons] at h
    unfold insert
    by_cases hk : k₁ = k
    · rw [if_pos hk] at h
      rw [if_pos hk, ← Option.some.inj h, hk]
    · rw [if_neg hk] at h
      rw [if_neg hk, ih h]

/-- Where keys are distinct, a map is any entry of it and the entries of the other keys. -/
theorem perm_filter_ne {k : κ} {v : β} {m : List (κ × β)} (hnodup : (keys m).Nodup)
    (h : (k, v) ∈ m) : m.Perm ((k, v) :: m.filter fun e => e.1 ≠ k) := by
  obtain ⟨m₁, m₂, rfl⟩ := List.append_of_mem h
  have hperm : (m₁ ++ (k, v) :: m₂).Perm ((k, v) :: (m₁ ++ m₂)) := List.perm_middle
  have hkeys : (k :: keys (m₁ ++ m₂)).Nodup := (hperm.map Prod.fst).nodup_iff.mp hnodup
  refine hperm.trans (List.Perm.cons _ ?_)
  have hrest : (m₁ ++ m₂).filter (fun e => decide (e.1 ≠ k)) = m₁ ++ m₂ := by
    rw [List.filter_eq_self]
    intro e he
    exact decide_eq_true fun heq => (List.nodup_cons.mp hkeys).1 (heq ▸ List.mem_map_of_mem he)
  rw [List.filter_append, List.filter_cons, if_neg (by simp), ← List.filter_append, hrest]

/-- The values that go by a key, in a list where a key may be many times. -/
def valuesOf (k : κ) (m : List (κ × β)) : List β :=
  (m.filter fun e => e.1 = k).map Prod.snd

@[simp] theorem valuesOf_nil (k : κ) : valuesOf k ([] : List (κ × β)) = [] := rfl

@[simp] theorem valuesOf_append (k : κ) (m n : List (κ × β)) :
    valuesOf k (m ++ n) = valuesOf k m ++ valuesOf k n := by
  simp only [valuesOf, List.filter_append, List.map_append]

@[simp] theorem valuesOf_self (k : κ) (v : β) : valuesOf k [(k, v)] = [v] := by
  simp [valuesOf]

theorem valuesOf_ne {k k' : κ} (h : k' ≠ k) (v : β) : valuesOf k [(k', v)] = [] := by
  simp [valuesOf, h]

theorem valuesOf_cons (k : κ) (e : κ × β) (m : List (κ × β)) :
    valuesOf k (e :: m) = valuesOf k [e] ++ valuesOf k m := valuesOf_append k [e] m

@[simp] theorem mem_valuesOf {k : κ} {v : β} {m : List (κ × β)} :
    v ∈ valuesOf k m ↔ (k, v) ∈ m := by
  simp [valuesOf]

theorem valuesOf_eq_nil {k : κ} {m : List (κ × β)} : valuesOf k m = [] ↔ k ∉ keys m := by
  rw [List.eq_nil_iff_forall_not_mem]
  constructor
  · intro h hmem
    obtain ⟨e, he, rfl⟩ := List.mem_map.mp hmem
    exact h e.2 (mem_valuesOf.mpr he)
  · exact fun h v hv => h (List.mem_map_of_mem (mem_valuesOf.mp hv))

/-- Where no key has more than one value, no key is twice. -/
theorem nodup_of_valuesOf {m : List (κ × β)} (h : ∀ k, (valuesOf k m).length ≤ 1) :
    (keys m).Nodup := by
  refine List.nodup_iff_count_le_one.mpr fun k => ?_
  have hcount : (keys m).count k = (valuesOf k m).length := by
    rw [keys, List.count, List.countP_map, valuesOf, List.length_map, ← List.countP_eq_length_filter]
    refine List.countP_congr fun e _ => ?_
    simp
  rw [hcount]
  exact h k

/-- What is taken out was the first value of its key, and the other keys keep theirs. -/
theorem valuesOf_remove {k : κ} {v : β} : ∀ {m m' : List (κ × β)},
    remove k m = some (v, m') → ∀ k', valuesOf k' m = valuesOf k' [(k, v)] ++ valuesOf k' m'
  | [], _, h, _ => by cases h
  | (k₁, v₁) :: m, m', h, k' => by
    unfold remove at h
    split at h
    next hk =>
      cases h
      rw [valuesOf_cons, hk]
    next hk =>
      obtain ⟨r, hr, heq⟩ := Option.map_eq_some_iff.mp h
      cases heq
      rw [valuesOf_cons, valuesOf_cons k' (k₁, v₁) r.2, valuesOf_remove hr k']
      by_cases hk' : k' = k
      · rw [valuesOf_ne (hk' ▸ hk), List.nil_append, List.nil_append]
      · rw [valuesOf_ne (Ne.symm hk'), List.nil_append, List.nil_append]

/-- A value put in place of one that looks the same changes no look. -/
theorem valuesOf_insert {γ : Type*} (look : β → γ) {k : κ} {v v' : β} (k' : κ)
    (hlook : look v' = look v) : ∀ {m : List (κ × β)}, get? k m = some v →
    (valuesOf k' (insert k v' m)).map look = (valuesOf k' m).map look
  | [], h => by cases h
  | (k₁, v₁) :: m, h => by
    rw [get?_cons] at h
    unfold insert
    by_cases hk : k₁ = k
    · rw [if_pos hk, Option.some_inj] at h
      rw [if_pos hk, valuesOf_cons, valuesOf_cons k' (k₁, v₁), List.map_append, List.map_append,
        hk, h]
      by_cases hk' : k = k'
      · rw [hk', valuesOf_self, valuesOf_self, List.map_singleton, List.map_singleton, hlook]
      · rw [valuesOf_ne hk', valuesOf_ne hk']
    · rw [if_neg hk] at h
      rw [if_neg hk, valuesOf_cons, valuesOf_cons k' (k₁, v₁) m, List.map_append, List.map_append,
        valuesOf_insert look k' hlook h]

end Lookup

/-- What the entries of a map hold, together. -/
def total (f : κ × β → Multiset α) (m : List (κ × β)) : Multiset α := (m.map f).sum

variable {f g : κ × β → Multiset α}

@[simp] theorem total_nil : total f [] = 0 := rfl

@[simp] theorem total_cons (e : κ × β) (m : List (κ × β)) :
    total f (e :: m) = f e + total f m := rfl

@[simp] theorem total_append (m n : List (κ × β)) :
    total f (m ++ n) = total f m + total f n := by
  simp only [total, List.map_append, List.sum_append]

/-- The iteration order does not matter to what is held. -/
theorem total_perm {m n : List (κ × β)} (h : m.Perm n) : total f m = total f n :=
  (h.map f).sum_eq

/-- The conservation rule of a removal. -/
theorem total_remove [DecidableEq κ] {k : κ} {v : β} {m m' : List (κ × β)}
    (h : remove k m = some (v, m')) : total f m = f (k, v) + total f m' := by
  rw [total_perm (remove_perm h), total_cons]

/-- The conservation rule of a value put in place of another. -/
theorem total_insert [DecidableEq κ] {k : κ} {v : β} (v' : β) {m : List (κ × β)}
    (h : get? k m = some v) :
    total f (insert k v' m) + f (k, v) = total f m + f (k, v') := by
  obtain ⟨m', hr⟩ := get?_eq_some.mp h
  rw [total_perm (insert_perm v' hr), total_cons, total_remove hr]
  abel

/-- The conservation rule of a new value. -/
theorem total_insert_new [DecidableEq κ] {k : κ} {v : β} {m : List (κ × β)}
    (h : get? k m = none) : total f (insert k v m) = total f m + f (k, v) := by
  rw [insert_of_notMem (get?_eq_none.mp h), total_append, total_cons, total_nil, add_zero]

/-- Splitting a map by a test loses nothing. -/
theorem total_filter_add (p : κ × β → Bool) (m : List (κ × β)) :
    total f (m.filter p) + total f (m.filter (fun e => !p e)) = total f m := by
  induction m with
  | nil => rfl
  | cons e m ih =>
    cases hp : p e with
    | true =>
      simp only [List.filter_cons, hp, if_true, Bool.not_true, Bool.false_eq_true, if_false,
        total_cons, ← ih, add_assoc]
    | false =>
      simp only [List.filter_cons, hp, Bool.false_eq_true, if_false, Bool.not_false, if_true,
        total_cons, ← ih, add_left_comm]

/-- Entries that hold no more each hold no more together. -/
theorem total_le {m : List (κ × β)} (h : ∀ e ∈ m, f e ≤ g e) : total f m ≤ total g m := by
  induction m with
  | nil => exact le_rfl
  | cons e m ih =>
    rw [total_cons, total_cons]
    exact add_le_add (h e List.mem_cons_self) (ih fun e' he => h e' (List.mem_cons_of_mem _ he))

/-- What all entries hold together, some entry holds. -/
theorem mem_total {a : α} {m : List (κ × β)} : a ∈ total f m ↔ ∃ e ∈ m, a ∈ f e := by
  induction m with
  | nil => simp
  | cons e m ih => rw [total_cons, Multiset.mem_add, ih, List.exists_mem_cons_iff]

/-- One entry holds no more than all. -/
theorem le_total {m : List (κ × β)} {e : κ × β} (he : e ∈ m) : f e ≤ total f m := by
  induction m with
  | nil => cases he
  | cons e' m ih =>
    rw [total_cons]
    rcases List.mem_cons.mp he with rfl | he
    · exact Multiset.le_add_right _ _
    · exact (ih he).trans (Multiset.le_add_left _ _)

/-- Where each entry holds nothing, or no more than the entry of its key in another map,
the other map holds no less. -/
theorem total_le_of_keys {γ : Type*} {h : κ × γ → Multiset α} {m : List (κ × β)} :
    ∀ {n : List (κ × γ)}, (keys m).Nodup →
    (∀ k v, (k, v) ∈ m → f (k, v) = 0 ∨ ∃ v', (k, v') ∈ n ∧ f (k, v) ≤ h (k, v')) →
    total f m ≤ total h n := by
  induction m with
  | nil => exact fun _ _ => Multiset.zero_le _
  | cons e m ih =>
    intro n hnodup hkeys
    obtain ⟨k, v⟩ := e
    obtain ⟨hnew, hnodup⟩ := List.nodup_cons.mp hnodup
    have htail : ∀ k' v', (k', v') ∈ m →
        f (k', v') = 0 ∨ ∃ v'', (k', v'') ∈ n ∧ f (k', v') ≤ h (k', v'') :=
      fun k' v' hmem => hkeys k' v' (List.mem_cons_of_mem _ hmem)
    rw [total_cons]
    rcases hkeys k v List.mem_cons_self with hzero | ⟨v', hmem, hle⟩
    · rw [hzero, zero_add]
      exact ih hnodup htail
    · -- the entry of the other map that the first one is matched with is taken by no other
      obtain ⟨n₁, n₂, rfl⟩ := List.append_of_mem hmem
      have hperm : (n₁ ++ (k, v') :: n₂).Perm ((k, v') :: (n₁ ++ n₂)) := List.perm_middle
      rw [total_perm hperm, total_cons]
      refine add_le_add hle (ih hnodup fun k' v' hmem' => ?_)
      refine (htail k' v' hmem').imp_right fun ⟨v'', hv'', hle'⟩ => ⟨v'', ?_, hle'⟩
      refine (List.mem_cons.mp (hperm.mem_iff.mp hv'')).resolve_left fun heq => hnew ?_
      have hkey : k' ∈ keys m := List.mem_map_of_mem hmem'
      rwa [(Prod.mk.inj heq).1] at hkey

end Assoc
