import S4Logs.Core.Deps

/-!
# Lines that were cut

A write that fails leaves the beginning of a line, the next write goes on behind it, and a
crash takes the end of a file. Whatever of this befalls a text of lines, it stays a join of
lines that were cut somewhere (`Joined`). An encoding that is `Sealed` is not read where it
was not written, so what is read back of such a text is among what was put in it.
-/

namespace S4Logs

namespace SerdeLine

variable {α : Type} {S : SerdeLine α} {R R' : α → Prop} {b b' : Bytes}

/-- The beginning of a line. -/
def cut (S : SerdeLine α) (c : α × Nat) : Bytes := (S.toVec c.1 ++ [Bytes.newline]).take c.2

/-- The beginnings of some encodings, one after the other. -/
def pieces (S : SerdeLine α) (cuts : List (α × Nat)) : Bytes :=
  cuts.flatMap fun c => (S.toVec c.1).take c.2

/-- Joined beginnings decode to nothing but one of the values they are of. -/
def Sealed (S : SerdeLine α) : Prop :=
  ∀ (cuts : List (α × Nat)) (a : α), S.fromSlice (S.pieces cuts) = some a → a ∈ cuts.map Prod.fst

/-- The octets are lines and beginnings of lines of values that have the property. -/
def Joined (S : SerdeLine α) (R : α → Prop) (b : Bytes) : Prop :=
  ∃ cuts : List (α × Nat), b = cuts.flatMap S.cut ∧ ∀ c ∈ cuts, R c.1

theorem Joined.nil : S.Joined R [] := ⟨[], rfl, fun _ hc => absurd hc List.not_mem_nil⟩

theorem Joined.of_cut {a : α} (h : R a) (n : Nat) : S.Joined R (S.cut (a, n)) := by
  refine ⟨[(a, n)], ?_, fun c hc => ?_⟩
  · rw [List.flatMap_singleton]
  · rw [List.mem_singleton.mp hc]
    exact h

theorem Joined.append (h : S.Joined R b) (h' : S.Joined R b') : S.Joined R (b ++ b') := by
  obtain ⟨cuts, rfl, hcuts⟩ := h
  obtain ⟨cuts', rfl, hcuts'⟩ := h'
  refine ⟨cuts ++ cuts', ?_, fun c hc => ?_⟩
  · rw [List.flatMap_append]
  · exact (List.mem_append.mp hc).elim (hcuts c) (hcuts' c)

theorem Joined.mono (h : S.Joined R b) (hsub : ∀ a, R a → R' a) : S.Joined R' b := by
  obtain ⟨cuts, rfl, hcuts⟩ := h
  exact ⟨cuts, rfl, fun c hc => hsub _ (hcuts c hc)⟩

/-- What is cut off a join leaves a join. -/
theorem Joined.beginning (h : S.Joined R b) (hpre : b' <+: b) : S.Joined R b' := by
  obtain ⟨cuts, rfl, hcuts⟩ := h
  induction cuts generalizing b' with
  | nil =>
    rw [List.flatMap_nil, List.prefix_nil] at hpre
    rw [hpre]
    exact .nil
  | cons c cuts ih =>
    have hc := hcuts c List.mem_cons_self
    have hrest : ∀ {b'}, b' <+: cuts.flatMap S.cut → S.Joined R b' :=
      ih fun c hc => hcuts c (List.mem_cons_of_mem _ hc)
    rw [List.flatMap_cons] at hpre
    rcases List.prefix_or_prefix_of_prefix hpre (List.prefix_append _ _) with hshort | ⟨tail, rfl⟩
    · have htake := List.prefix_iff_eq_take.mp hshort
      rw [cut, List.take_take] at htake
      rw [htake]
      exact .of_cut hc _
    · exact (Joined.of_cut hc c.2).append (hrest ((List.prefix_append_right_inj _).mp hpre))

/-! ## Reading back -/

theorem newline_notMem_pieces (cuts : List (α × Nat)) : Bytes.newline ∉ S.pieces cuts := by
  intro hmem
  obtain ⟨c, -, hin⟩ := List.mem_flatMap.mp hmem
  exact S.newline_notMem c.1 (List.mem_of_mem_take hin)

/-- What is read of one joined line. -/
theorem Sealed.intact_pieces (hs : S.Sealed) {cuts : List (α × Nat)} (h : ∀ c ∈ cuts, R c.1) :
    ∀ a ∈ S.intact (S.pieces cuts), R a := by
  intro a ha
  by_cases hnil : S.pieces cuts = []
  · rw [hnil, intact, Bytes.lines_nil] at ha
    cases ha
  · rw [intact, Bytes.lines_eq_singleton (newline_notMem_pieces cuts) hnil] at ha
    obtain ⟨l, hl, hread⟩ := List.mem_filterMap.mp ha
    rw [List.mem_singleton.mp hl] at hread
    obtain ⟨c, hc, rfl⟩ := List.mem_map.mp (hs cuts a hread)
    exact h c hc

/-- What is read of a join, behind the beginning of a line. -/
theorem Sealed.intact_cuts (hs : S.Sealed) {cuts : List (α × Nat)} : ∀ (begun : List (α × Nat)),
    (∀ c ∈ begun, R c.1) → (∀ c ∈ cuts, R c.1) →
      ∀ a ∈ S.intact (S.pieces begun ++ cuts.flatMap S.cut), R a := by
  induction cuts with
  | nil =>
    intro begun hbegun _
    rw [List.flatMap_nil, List.append_nil]
    exact hs.intact_pieces hbegun
  | cons c cuts ih =>
    intro begun hbegun hcuts
    have hrest : ∀ c ∈ cuts, R c.1 := fun c hc => hcuts c (List.mem_cons_of_mem _ hc)
    have hjoined : ∀ n, ∀ c' ∈ begun ++ [(c.1, n)], R c'.1 := by
      intro n c' hc'
      rcases List.mem_append.mp hc' with hc' | hc'
      · exact hbegun c' hc'
      · rw [List.mem_singleton.mp hc']
        exact hcuts c List.mem_cons_self
    have hpieces : ∀ n, S.pieces (begun ++ [(c.1, n)]) = S.pieces begun ++ (S.toVec c.1).take n := by
      intro n
      rw [pieces, List.flatMap_append, List.flatMap_singleton]
      rfl
    rw [List.flatMap_cons, ← List.append_assoc]
    by_cases hn : c.2 ≤ (S.toVec c.1).length
    -- the line is not ended
    · rw [cut, List.take_append_of_le_length hn, ← hpieces]
      exact ih _ (hjoined _) hrest
    -- the line is whole, and ends what was begun
    · have hcut : S.cut c = S.toVec c.1 ++ [Bytes.newline] := by
        rw [cut, List.take_of_length_le]
        rw [List.length_append, List.length_singleton]
        omega
      have hline := hpieces (S.toVec c.1).length
      rw [List.take_length] at hline
      intro a ha
      rw [hcut, ← List.append_assoc, ← hline, List.append_assoc, List.singleton_append, intact,
        Bytes.lines_append, List.filterMap_append] at ha
      rcases List.mem_append.mp ha with ha | ha
      · exact hs.intact_pieces (hjoined _) a ha
      · exact ih [] (fun _ hc => absurd hc List.not_mem_nil) hrest a ha

/-- What is read of a join is among what it is joined of. -/
theorem Joined.intact (h : S.Joined R b) (hs : S.Sealed) : ∀ a ∈ S.intact b, R a := by
  obtain ⟨cuts, rfl, hcuts⟩ := h
  exact hs.intact_cuts [] (fun _ hc => absurd hc List.not_mem_nil) hcuts

end SerdeLine

end S4Logs
