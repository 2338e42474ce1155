import S4Logs.Drain.Window
import Mathlib.Tactic.Linarith

/-!
# The window grid

`Tiles lo ws hi` says that `ws` are grid windows laid end to end from `lo` to
`hi`. Both loops produce tilings; what the gate and the jobs need of them
follows from that alone: every window is of the grid, the windows are told
apart by their starts, and no instant of the range is left out.
-/

namespace S4Logs

theorem alignDown_spec {ts windowMs : Int} (hts : 0 ≤ ts) (hw : 0 < windowMs) :
    ∃ day k, 0 ≤ day ∧ 0 ≤ k ∧ alignDown ts windowMs = day * dayMs + k * windowMs ∧
      ts.tdiv dayMs = day ∧ day * dayMs ≤ ts ∧ ts < day * dayMs + dayMs ∧
      day * dayMs + k * windowMs ≤ ts ∧ ts < day * dayMs + k * windowMs + windowMs := by
  have hday : ts.tdiv dayMs = ts / dayMs := Int.tdiv_eq_ediv_of_nonneg hts
  have hd₁ : ts / dayMs * dayMs ≤ ts := Int.ediv_mul_le _ (by decide)
  have hd₂ : ts < (ts / dayMs + 1) * dayMs := Int.lt_ediv_add_one_mul_self _ (by decide)
  have hoff : 0 ≤ ts - ts / dayMs * dayMs := by omega
  have hk : (ts - ts / dayMs * dayMs).tdiv windowMs = (ts - ts / dayMs * dayMs) / windowMs :=
    Int.tdiv_eq_ediv_of_nonneg hoff
  have hk₁ := Int.ediv_mul_le (ts - ts / dayMs * dayMs) (Int.ne_of_gt hw)
  have hk₂ := Int.lt_ediv_add_one_mul_self (ts - ts / dayMs * dayMs) hw
  rw [Int.add_mul] at hd₂ hk₂
  refine ⟨ts / dayMs, (ts - ts / dayMs * dayMs) / windowMs, Int.ediv_nonneg hts (by decide),
    Int.ediv_nonneg hoff hw.le, ?_, hday, hd₁, by omega, by omega, by omega⟩
  simp only [alignDown, hday, hk]

/-- A boundary inside a day is aligned. -/
theorem alignDown_boundary (day k : Int) {windowMs : Int} (hday : 0 ≤ day) (hk : 0 ≤ k)
    (hw : 0 < windowMs) (hin : k * windowMs < dayMs) :
    alignDown (day * dayMs + k * windowMs) windowMs = day * dayMs + k * windowMs := by
  have hkw : 0 ≤ k * windowMs := Int.mul_nonneg hk hw.le
  have hdd : 0 ≤ day * dayMs := Int.mul_nonneg hday (by decide)
  have hdiv : (day * dayMs + k * windowMs).tdiv dayMs = day := by
    rw [Int.tdiv_eq_ediv_of_nonneg (by omega), Int.add_comm,
      Int.add_mul_ediv_right _ _ (by decide), Int.ediv_eq_zero_of_lt hkw hin, Int.zero_add]
  have hoff : day * dayMs + k * windowMs - day * dayMs = k * windowMs := by omega
  simp only [alignDown, hdiv, hoff]
  rw [Int.tdiv_eq_ediv_of_nonneg hkw, Int.mul_ediv_cancel _ (Int.ne_of_gt hw)]

/-- The boundary before an instant is aligned. -/
theorem alignDown_aligned {ts windowMs : Int} (hts : 0 ≤ ts) (hw : 0 < windowMs) :
    alignDown (alignDown ts windowMs) windowMs = alignDown ts windowMs := by
  obtain ⟨day, k, hday, hk, heq, -, hd₁, hd₂, hk₁, hk₂⟩ := alignDown_spec hts hw
  rw [heq]
  exact alignDown_boundary _ _ hday hk hw (by omega)

theorem alignDown_le {ts windowMs : Int} (hts : 0 ≤ ts) (hw : 0 < windowMs) :
    0 ≤ alignDown ts windowMs ∧ alignDown ts windowMs ≤ ts := by
  obtain ⟨day, k, hday, hk, heq, -, -, -, hk₁, -⟩ := alignDown_spec hts hw
  have hdd : 0 ≤ day * dayMs := Int.mul_nonneg hday (by decide)
  have hkw : 0 ≤ k * windowMs := Int.mul_nonneg hk hw.le
  rw [heq]
  omega

/-- The next boundary is later, aligned and at most a window and a day away. -/
theorem nextBoundary_spec {b stop windowMs : Int} (hb : 0 ≤ b) (hw : 0 < windowMs)
    (halign : alignDown b windowMs = b) (h : nextBoundary b windowMs = some stop) :
    b < stop ∧ alignDown stop windowMs = stop := by
  obtain ⟨day, k, hday, hk, heq, hdiv, hd₁, hd₂, -, -⟩ := alignDown_spec hb hw
  rw [halign] at heq
  unfold nextBoundary at h
  rw [hdiv] at h
  dsimp only at h
  split at h
  next => cases h
  next hmax =>
    obtain rfl := Option.some.inj h
    have hday' : alignDown (day * dayMs + dayMs) windowMs = day * dayMs + dayMs := by
      have hnext := alignDown_boundary (day + 1) 0 (by omega) (le_refl 0) hw
        (by rw [Int.zero_mul]; decide)
      rwa [Int.add_mul, Int.one_mul, Int.zero_mul, Int.add_zero] at hnext
    by_cases hin : b + windowMs < day * dayMs + dayMs
    · have hsat : saturatingAdd b windowMs = b + windowMs := by
        simp only [saturatingAdd, i64Min, i64Max] at hmax ⊢
        omega
      rw [hsat, min_eq_left hin.le]
      have hstep := alignDown_boundary day (k + 1) hday (by omega) hw
        (by rw [Int.add_mul, Int.one_mul]; omega)
      rw [Int.add_mul, Int.one_mul, ← Int.add_assoc, ← heq] at hstep
      exact ⟨by omega, hstep⟩
    · have hsat : day * dayMs + dayMs ≤ saturatingAdd b windowMs := by
        simp only [saturatingAdd, i64Min, i64Max] at hmax ⊢
        omega
      rw [min_eq_right hsat]
      exact ⟨hd₂, hday'⟩

theorem GridWindow.lt {windowMs : Int} {w : Window} (h : GridWindow windowMs w) :
    w.startMs < w.endMs :=
  (nextBoundary_spec h.2.1 h.1 h.2.2.1 h.2.2.2).1

/-- A grid window ends by the end of the day it starts in, which `i64` has room for. -/
theorem GridWindow.end_le_day {windowMs : Int} {w : Window} (h : GridWindow windowMs w) :
    w.endMs ≤ w.startMs.tdiv dayMs * dayMs + dayMs ∧
      w.startMs.tdiv dayMs * dayMs + dayMs ≤ i64Max := by
  have hstop := h.2.2.2
  unfold nextBoundary at hstop
  dsimp only at hstop
  split at hstop
  next => cases hstop
  next hmax =>
    obtain hend := Option.some.inj hstop
    exact ⟨hend ▸ min_le_right _ _, Int.not_lt.mp hmax⟩

theorem GridWindow.end_le {windowMs : Int} {w : Window} (h : GridWindow windowMs w) :
    w.endMs ≤ i64Max := Int.le_trans h.end_le_day.1 h.end_le_day.2

/-- The start of a grid window tells it apart. -/
theorem GridWindow.ext {windowMs : Int} {w w' : Window} (h : GridWindow windowMs w)
    (h' : GridWindow windowMs w') (hstart : w.startMs = w'.startMs) : w = w' := by
  have hend : some w.endMs = some w'.endMs := by
    rw [← h.2.2.2, ← h'.2.2.2, hstart]
  cases w
  cases w'
  cases hstart
  cases hend
  rfl

/-- Every instant of a grid window is aligned down to its start. -/
theorem GridWindow.alignDown_eq {windowMs ts : Int} {w : Window} (h : GridWindow windowMs w)
    (hlo : w.startMs ≤ ts) (hhi : ts < w.endMs) : alignDown ts windowMs = w.startMs := by
  obtain ⟨hw, hstart, halign, hnext⟩ := h
  obtain ⟨day, k, -, -, heq, hday, hd₁, hd₂, -, -⟩ := alignDown_spec hstart hw
  obtain ⟨day', k', -, -, heq', hday', hd₁', hd₂', hk₁', hk₂'⟩ :=
    alignDown_spec (Int.le_trans hstart hlo) hw
  rw [halign] at heq
  have hend : w.endMs ≤ day * dayMs + dayMs ∧ w.endMs ≤ w.startMs + windowMs := by
    unfold nextBoundary at hnext
    rw [hday] at hnext
    dsimp only at hnext
    split at hnext
    next => cases hnext
    next hmax =>
      obtain hend := Option.some.inj hnext
      have hsat : saturatingAdd w.startMs windowMs ≤ w.startMs + windowMs := by
        simp only [saturatingAdd, i64Min, i64Max]
        omega
      exact ⟨hend ▸ min_le_right _ _, hend ▸ (min_le_left _ _).trans hsat⟩
  obtain rfl : day' = day := by
    simp only [dayMs] at hd₁ hd₂ hd₁' hd₂' hend
    omega
  -- both boundaries are at most a window before the instant
  have hk : k' = k := by
    have hle : k' * windowMs < (k + 1) * windowMs := by
      rw [Int.add_mul, Int.one_mul]
      omega
    have hge : k * windowMs < (k' + 1) * windowMs := by
      rw [Int.add_mul, Int.one_mul]
      omega
    have h₁ := Int.lt_of_mul_lt_mul_right hle hw.le
    have h₂ := Int.lt_of_mul_lt_mul_right hge hw.le
    omega
  rw [heq', heq, hk]

theorem alignDown_mono {ts ts' windowMs : Int} (hts : 0 ≤ ts) (hle : ts ≤ ts') (hw : 0 < windowMs) :
    alignDown ts windowMs ≤ alignDown ts' windowMs := by
  obtain ⟨day, k, -, hk, heq, -, hd₁, hd₂, hk₁, hk₂⟩ := alignDown_spec hts hw
  obtain ⟨day', k', -, hk', heq', -, hd₁', hd₂', hk₁', hk₂'⟩ := alignDown_spec (Int.le_trans hts hle) hw
  rw [heq, heq']
  have hkw' : 0 ≤ k' * windowMs := Int.mul_nonneg hk' hw.le
  by_cases hday : day = day'
  · subst hday
    have hlt : k * windowMs < (k' + 1) * windowMs := by
      rw [Int.add_mul, Int.one_mul]
      omega
    have hkk := Int.lt_of_mul_lt_mul_right hlt hw.le
    have := Int.mul_le_mul_of_nonneg_right (Int.le_of_lt_add_one hkk) hw.le
    omega
  · have hlt : day + 1 ≤ day' := by
      simp only [dayMs] at hd₁ hd₂ hd₁' hd₂'
      omega
    have := Int.mul_le_mul_of_nonneg_right hlt (show (0 : Int) ≤ dayMs by decide)
    rw [Int.add_mul, Int.one_mul] at this
    omega

/-- Grid windows laid end to end. -/
inductive Tiles (windowMs : Int) : Int → List Window → Int → Prop
  | nil {lo : Int} : Tiles windowMs lo [] lo
  | cons {w : Window} {ws : List Window} {hi : Int} : GridWindow windowMs w →
      Tiles windowMs w.endMs ws hi → Tiles windowMs w.startMs (w :: ws) hi

namespace Tiles

variable {windowMs lo hi : Int} {ws : List Window}

theorem grid (h : Tiles windowMs lo ws hi) : ∀ w ∈ ws, GridWindow windowMs w := by
  induction h with
  | nil => exact fun w hw => absurd hw List.not_mem_nil
  | cons hgrid _ ih =>
    intro w hw
    rcases List.mem_cons.mp hw with rfl | hw
    · exact hgrid
    · exact ih w hw

theorem start_le (h : Tiles windowMs lo ws hi) : ∀ w ∈ ws, lo ≤ w.startMs := by
  induction h with
  | nil => exact fun w hw => absurd hw List.not_mem_nil
  | cons hgrid _ ih =>
    intro w hw
    rcases List.mem_cons.mp hw with rfl | hw
    · exact le_refl _
    · exact hgrid.lt.le.trans (ih w hw)

/-- The windows are told apart by their starts. -/
theorem nodup (h : Tiles windowMs lo ws hi) : (ws.map Window.startMs).Nodup := by
  induction h with
  | nil => exact List.nodup_nil
  | cons hgrid htail ih =>
    refine List.nodup_cons.mpr ⟨fun hmem => ?_, ih⟩
    obtain ⟨w, hw, heq⟩ := List.mem_map.mp hmem
    have hle := htail.start_le w hw
    have hlt := hgrid.lt
    omega

/-- No instant of the range is left out. -/
theorem covers (h : Tiles windowMs lo ws hi) {t : Int} (hlo : lo ≤ t) (hhi : t < hi) :
    ∃ w ∈ ws, w.startMs ≤ t ∧ t < w.endMs := by
  induction h with
  | nil => omega
  | @cons w ws hi _ _ ih =>
    by_cases hend : t < w.endMs
    · exact ⟨w, List.mem_cons_self, hlo, hend⟩
    · obtain ⟨w', hw', hin⟩ := ih (by omega) hhi
      exact ⟨w', List.mem_cons_of_mem _ hw', hin⟩

end Tiles

/-- The loop of `windows` stops where the next window would end after the range. -/
theorem windowsFrom_stop {toMs windowMs : Int} (hw : 0 < windowMs) {fuel : Nat} :
    ∀ {start : Int} {ws : List Window}, 0 ≤ start → alignDown start windowMs = start →
      windowsFrom toMs windowMs fuel start = some ws →
      ∃ hi stop, Tiles windowMs start ws hi ∧ (∀ w ∈ ws, w.endMs ≤ toMs) ∧
        GridWindow windowMs ⟨hi, stop⟩ ∧ toMs < stop := by
  induction fuel with
  | zero => exact fun _ _ h => nomatch h
  | succ fuel ih =>
    intro start ws hstart halign h
    unfold windowsFrom at h
    cases hnext : nextBoundary start windowMs with
    | none => simp only [hnext, reduceCtorEq] at h
    | some stop =>
      simp only [hnext] at h
      obtain ⟨hlt, halign'⟩ := nextBoundary_spec hstart hw halign hnext
      have hgrid : GridWindow windowMs ⟨start, stop⟩ := ⟨hw, hstart, halign, hnext⟩
      split at h
      next hafter =>
        cases h
        exact ⟨start, stop, .nil, fun w hmem => absurd hmem List.not_mem_nil, hgrid, hafter⟩
      next hin =>
        obtain ⟨ws', hws', rfl⟩ := Option.map_eq_some_iff.mp h
        obtain ⟨hi, stop', htail, hends, hlast, hafter⟩ := ih (by omega) halign' hws'
        refine ⟨hi, stop', .cons (w := ⟨start, stop⟩) hgrid htail, ?_, hlast, hafter⟩
        intro w hmem
        rcases List.mem_cons.mp hmem with rfl | hmem
        · exact Int.not_lt.mp hin
        · exact hends w hmem

theorem windowsCoveringFrom_tiles {untilMs windowMs : Int} (hw : 0 < windowMs) {fuel : Nat} :
    ∀ {start : Int} {ws : List Window}, 0 ≤ start → alignDown start windowMs = start →
      windowsCoveringFrom untilMs windowMs fuel start = some ws →
      ∃ hi, untilMs ≤ hi ∧ Tiles windowMs start ws hi := by
  induction fuel with
  | zero => exact fun _ _ h => nomatch h
  | succ fuel ih =>
    intro start ws hstart halign h
    unfold windowsCoveringFrom at h
    split at h
    next =>
      cases hnext : nextBoundary start windowMs with
      | none => simp only [hnext, reduceCtorEq] at h
      | some stop =>
        simp only [hnext] at h
        obtain ⟨hlt, halign'⟩ := nextBoundary_spec hstart hw halign hnext
        obtain ⟨ws', hws', rfl⟩ := Option.map_eq_some_iff.mp h
        obtain ⟨hi, hle, htail⟩ := ih (by omega) halign' hws'
        exact ⟨hi, hle, .cons (w := ⟨start, stop⟩) ⟨hw, hstart, halign, hnext⟩ htail⟩
    next hge =>
      cases h
      exact ⟨start, not_lt.mp hge, .nil⟩

theorem validate_ok {fromMs toMs windowMs : Int} (h : validate fromMs toMs windowMs = .ok ()) :
    0 < windowMs ∧ 0 ≤ fromMs ∧ 0 ≤ toMs := by
  unfold validate at h
  split at h
  next => cases h
  next hw =>
    split at h
    next => cases h
    next hr => omega

/-- `windows` tiles from the boundary before `fromMs`. -/
theorem windows_tiles {fromMs toMs windowMs : Int} {ws : List Window}
    (h : windows fromMs toMs windowMs = .ok ws) :
    ∃ hi, Tiles windowMs (alignDown fromMs windowMs) ws hi := by
  unfold windows at h
  cases hv : validate fromMs toMs windowMs with
  | error e => simp only [hv, reduceCtorEq] at h
  | ok u =>
    obtain ⟨hw, hfrom, hto⟩ := validate_ok hv
    simp only [hv] at h
    split at h
    next => cases h
    next ws' hws' =>
      cases h
      obtain ⟨hi, -, htiles, -⟩ :=
        windowsFrom_stop hw (alignDown_le hfrom hw).1 (alignDown_aligned hfrom hw) hws'
      exact ⟨hi, htiles⟩

/-- The windows of a range are the grid windows that start at its first boundary or
later and end in it. -/
theorem mem_windows_iff {fromMs toMs windowMs : Int} {ws : List Window}
    (h : windows fromMs toMs windowMs = .ok ws) {w : Window} :
    w ∈ ws ↔ GridWindow windowMs w ∧ alignDown fromMs windowMs ≤ w.startMs ∧ w.endMs ≤ toMs := by
  unfold windows at h
  cases hv : validate fromMs toMs windowMs with
  | error e => simp only [hv, reduceCtorEq] at h
  | ok u =>
    obtain ⟨hw, hfrom, hto⟩ := validate_ok hv
    simp only [hv] at h
    split at h
    next => cases h
    next ws' hws' =>
      cases h
      obtain ⟨hi, stop, htiles, hends, hlast, hafter⟩ :=
        windowsFrom_stop hw (alignDown_le hfrom hw).1 (alignDown_aligned hfrom hw) hws'
      constructor
      · exact fun hmem => ⟨htiles.grid w hmem, htiles.start_le w hmem, hends w hmem⟩
      · rintro ⟨hgrid, hlo, hend⟩
        have hbefore : w.startMs < hi := by
          by_contra hge
          have hge := Int.not_lt.mp hge
          have hlt := hgrid.lt
          have hin : w.startMs < stop := by omega
          have halign := hlast.alignDown_eq hge hin
          rw [hgrid.2.2.1] at halign
          have heq := hgrid.ext hlast halign
          rw [heq] at hend
          exact absurd hend (Int.not_le.mpr hafter)
        obtain ⟨w', hmem', hin, hin'⟩ := htiles.covers hlo hbefore
        have halign := (htiles.grid w' hmem').alignDown_eq hin hin'
        rw [hgrid.2.2.1] at halign
        rwa [hgrid.ext (htiles.grid w' hmem') halign]

/-- A range inside another has no other windows. -/
theorem windows_subset {fromMs toMs fromMs' toMs' windowMs : Int} {ws ws' : List Window}
    (h : windows fromMs toMs windowMs = .ok ws) (h' : windows fromMs' toMs' windowMs = .ok ws')
    (hfrom : fromMs ≤ fromMs') (hto : toMs' ≤ toMs) : ∀ w ∈ ws', w ∈ ws := by
  intro w hmem
  obtain ⟨hgrid, hlo, hhi⟩ := (mem_windows_iff h').mp hmem
  have hpos : 0 ≤ fromMs := by
    unfold windows at h
    cases hv : validate fromMs toMs windowMs with
    | error e => simp only [hv, reduceCtorEq] at h
    | ok u => exact (validate_ok hv).2.1
  have hmono := alignDown_mono hpos hfrom hgrid.1
  exact (mem_windows_iff h).mpr ⟨hgrid, Int.le_trans hmono hlo, Int.le_trans hhi hto⟩

/-- `windows_covering` tiles from the boundary before `fromMs` to `untilMs` or later. -/
theorem windowsCovering_tiles {fromMs untilMs windowMs : Int} {ws : List Window}
    (h : windowsCovering fromMs untilMs windowMs = .ok ws) :
    0 ≤ fromMs ∧ alignDown fromMs windowMs ≤ fromMs ∧
      ∃ hi, untilMs ≤ hi ∧ Tiles windowMs (alignDown fromMs windowMs) ws hi := by
  unfold windowsCovering at h
  cases hv : validate fromMs untilMs windowMs with
  | error e => simp only [hv, reduceCtorEq] at h
  | ok u =>
    obtain ⟨hw, hfrom, huntil⟩ := validate_ok hv
    simp only [hv] at h
    split at h
    next => cases h
    next ws' hws' =>
      cases h
      exact ⟨hfrom, (alignDown_le hfrom hw).2,
        windowsCoveringFrom_tiles hw (alignDown_le hfrom hw).1 (alignDown_aligned hfrom hw) hws'⟩

end S4Logs
