import S4Logs.Laws.Drain.Window

/-!
# The windows of a range

The grid is what `Cell` says, and depends on the window length alone. Both loops
walk it from the boundary before the range, as long as `i64` has room for the end of
the day they are in: up to the start of its last, partial day (`lastDay`). There they
list the cells of the range (`window_grid`); beyond it the end of the day overflows
(`enumeration_total`).
-/

namespace S4Logs

variable {windowMs fromMs toMs : Int} {w w' : Window} {ws ws' : List Window}

/-- The start of the last day of `i64`, which has no room for its end. -/
def lastDay : Int := 9223372036828800000

/-- A cell of the grid: a stretch of the window length from a day's start on, cut at the
day's end. -/
def Cell (windowMs : Int) (w : Window) : Prop :=
  ∃ day k : Int, 0 ≤ k ∧ w.startMs = day * dayMs + k * windowMs ∧
    w.startMs < day * dayMs + dayMs ∧
    w.endMs = min (day * dayMs + (k + 1) * windowMs) (day * dayMs + dayMs)

/-! ## Boundaries -/

/-- There is a next boundary before the last day, and none in it. -/
theorem nextBoundary_eq {b : Int} (hb : 0 ≤ b) (hw : 0 < windowMs) :
    nextBoundary b windowMs = if b < lastDay then
      some (min (b + windowMs) (b.tdiv dayMs * dayMs + dayMs)) else none := by
  have hdiv : b.tdiv dayMs = b / dayMs := Int.tdiv_eq_ediv_of_nonneg hb
  unfold nextBoundary
  dsimp only
  rw [hdiv]
  by_cases hlast : b < lastDay
  · have hroom : ¬ i64Max < b / dayMs * dayMs + dayMs := by
      simp only [dayMs, i64Max, lastDay] at hlast ⊢
      omega
    rw [if_neg hroom, if_pos hlast]
    refine congrArg some ?_
    simp only [saturatingAdd, dayMs, i64Max, i64Min] at hroom ⊢
    omega
  · have hroom : i64Max < b / dayMs * dayMs + dayMs := by
      simp only [dayMs, i64Max, lastDay] at hlast ⊢
      omega
    rw [if_pos hroom, if_neg hlast]

/-- The next boundary is no later than the start of the last day. -/
theorem nextBoundary_le {b stop : Int} (hb : 0 ≤ b) (hw : 0 < windowMs)
    (h : nextBoundary b windowMs = some stop) : b < lastDay ∧ stop ≤ lastDay := by
  rw [nextBoundary_eq hb hw] at h
  split at h
  next hlt =>
    obtain rfl := Option.some.inj h
    have hdiv : b.tdiv dayMs = b / dayMs := Int.tdiv_eq_ediv_of_nonneg hb
    rw [hdiv]
    simp only [dayMs, lastDay] at hlt ⊢
    omega
  next => cases h

theorem GridWindow.start_lt_lastDay (h : GridWindow windowMs w) : w.startMs < lastDay :=
  (nextBoundary_le h.2.1 h.1 h.2.2.2).1

/-- The windows of the grid are the cells that start before the last day. -/
theorem gridWindow_iff (hw : 0 < windowMs) :
    GridWindow windowMs w ↔ Cell windowMs w ∧ 0 ≤ w.startMs ∧ w.startMs < lastDay := by
  constructor
  · intro h
    obtain ⟨day, k, -, hk, heq, hday, hd₁, hd₂, -, -⟩ := alignDown_spec h.2.1 hw
    have hstart := h.start_lt_lastDay
    have hend := h.2.2.2
    rw [h.2.2.1] at heq
    rw [nextBoundary_eq h.2.1 hw, if_pos hstart, hday] at hend
    refine ⟨⟨day, k, hk, heq, hd₂, ?_⟩, h.2.1, hstart⟩
    rw [← Option.some.inj hend, heq, Int.add_mul, Int.one_mul, Int.add_assoc]
  · rintro ⟨⟨day, k, hk, heq, hin, hend⟩, hstart, hlast⟩
    have hkw : 0 ≤ k * windowMs := Int.mul_nonneg hk hw.le
    have hday : 0 ≤ day := by
      simp only [dayMs] at hin
      omega
    have halign := alignDown_boundary day k hday hk hw (by omega)
    rw [← heq] at halign
    have hdiv : w.startMs.tdiv dayMs = day := by
      rw [Int.tdiv_eq_ediv_of_nonneg hstart]
      simp only [dayMs] at hin heq ⊢
      omega
    refine ⟨hw, hstart, halign, ?_⟩
    rw [nextBoundary_eq hstart hw, if_pos hlast, hdiv, hend, heq, Int.add_mul, Int.one_mul,
      Int.add_assoc]

/-- A grid window starts at the boundary before an instant or later where it ends after
the instant. -/
theorem GridWindow.alignDown_le_iff {ts : Int} (h : GridWindow windowMs w) (hts : 0 ≤ ts) :
    alignDown ts windowMs ≤ w.startMs ↔ ts < w.endMs := by
  obtain ⟨hw, hstart, halign, hnext⟩ := h
  constructor
  · intro hle
    by_contra hlate
    obtain ⟨hlt, hstop⟩ := nextBoundary_spec hstart hw halign hnext
    have hmono := alignDown_mono (Int.le_trans hstart hlt.le) (Int.not_lt.mp hlate) hw
    rw [hstop] at hmono
    omega
  · intro hlt
    by_cases hin : w.startMs ≤ ts
    · rw [GridWindow.alignDown_eq ⟨hw, hstart, halign, hnext⟩ hin hlt]
    · exact (alignDown_le hts hw).2.trans (Int.not_le.mp hin).le

/-- A cell that ends after an instant and starts before the last day is of the grid. -/
theorem cell_iff_gridWindow {ts : Int} (hw : 0 < windowMs) (hts : 0 ≤ ts) (hend : ts < w.endMs)
    (hlast : w.startMs < lastDay) : Cell windowMs w ↔ GridWindow windowMs w := by
  rw [gridWindow_iff hw]
  refine ⟨fun hcell => ⟨hcell, ?_, hlast⟩, And.left⟩
  obtain ⟨day, k, hk, hstart, hin, hstop⟩ := hcell
  have hkw : 0 ≤ k * windowMs := Int.mul_nonneg hk hw.le
  simp only [dayMs] at hstart hin hstop
  omega

/-- Two windows of the grid are one, or apart. -/
theorem GridWindow.eq_or_apart (h : GridWindow windowMs w) (h' : GridWindow windowMs w') :
    w = w' ∨ w.endMs ≤ w'.startMs ∨ w'.endMs ≤ w.startMs := by
  by_contra hne
  rw [not_or, not_or] at hne
  obtain ⟨hne, hlt, hlt'⟩ := hne
  -- the later of the two starts lies in both, so both start there
  by_cases hle : w.startMs ≤ w'.startMs
  · have halign := h.alignDown_eq hle (Int.not_le.mp hlt)
    rw [h'.2.2.1] at halign
    exact hne (h.ext h' halign.symm)
  · have halign := h'.alignDown_eq (Int.not_le.mp hle).le (Int.not_le.mp hlt')
    rw [h.2.2.1] at halign
    exact hne (h.ext h' halign)

/-! ## The loops -/

/-- The loop of `windows` ends before the last day. -/
theorem windowsFrom_isSome (hw : 0 < windowMs) (hto : toMs < lastDay) {fuel : Nat} :
    ∀ {start : Int}, 0 ≤ start → alignDown start windowMs = start → start < lastDay →
      (toMs - start).toNat < fuel → ∃ ws, windowsFrom toMs windowMs fuel start = some ws := by
  induction fuel with
  | zero => exact fun _ _ _ h => absurd h (Nat.not_lt_zero _)
  | succ fuel ih =>
    intro start hstart halign hlast hfuel
    rw [windowsFrom]
    cases hnext : nextBoundary start windowMs with
    | none =>
      rw [nextBoundary_eq hstart hw, if_pos hlast] at hnext
      cases hnext
    | some stop =>
      obtain ⟨hlt, halign'⟩ := nextBoundary_spec hstart hw halign hnext
      dsimp only
      split
      next => exact ⟨_, rfl⟩
      next hin =>
        obtain ⟨ws, hws⟩ := ih (Int.le_trans hstart hlt.le) halign' (by omega) (by omega)
        rw [hws]
        exact ⟨_, rfl⟩

/-- It finds no end from the last day on, or in a range that reaches it, however many
rounds it has. -/
theorem windowsFrom_none (hw : 0 < windowMs) {fuel : Nat} :
    ∀ {start : Int}, 0 ≤ start → alignDown start windowMs = start →
      lastDay ≤ start ∨ lastDay ≤ toMs → windowsFrom toMs windowMs fuel start = none := by
  induction fuel with
  | zero => exact fun _ _ _ => rfl
  | succ fuel ih =>
    intro start hstart halign hbeyond
    rw [windowsFrom]
    cases hnext : nextBoundary start windowMs with
    | none => rfl
    | some stop =>
      obtain ⟨hlt, halign'⟩ := nextBoundary_spec hstart hw halign hnext
      obtain ⟨hlast, hstop⟩ := nextBoundary_le hstart hw hnext
      have hto : lastDay ≤ toMs := hbeyond.resolve_left (Int.not_le.mpr hlast)
      dsimp only
      rw [if_neg (by omega), ih (Int.le_trans hstart hlt.le) halign' (.inr hto)]
      rfl

/-- The loop of `windows_covering` ends before the last day. -/
theorem windowsCoveringFrom_isSome (hw : 0 < windowMs) (hto : toMs ≤ lastDay) {fuel : Nat} :
    ∀ {start : Int}, 0 ≤ start → alignDown start windowMs = start →
      (toMs - start).toNat < fuel → ∃ ws, windowsCoveringFrom toMs windowMs fuel start = some ws := by
  induction fuel with
  | zero => exact fun _ _ h => absurd h (Nat.not_lt_zero _)
  | succ fuel ih =>
    intro start hstart halign hfuel
    rw [windowsCoveringFrom]
    split
    next hin =>
      cases hnext : nextBoundary start windowMs with
      | none =>
        rw [nextBoundary_eq hstart hw, if_pos (Int.lt_of_lt_of_le hin hto)] at hnext
        cases hnext
      | some stop =>
        obtain ⟨hlt, halign'⟩ := nextBoundary_spec hstart hw halign hnext
        obtain ⟨ws, hws⟩ := ih (Int.le_trans hstart hlt.le) halign' (by omega)
        dsimp only
        rw [hws]
        exact ⟨_, rfl⟩
    next => exact ⟨_, rfl⟩

/-- It finds no end where the range goes on into the last day. -/
theorem windowsCoveringFrom_none (hw : 0 < windowMs) (hto : lastDay < toMs) {fuel : Nat} :
    ∀ {start : Int}, 0 ≤ start → alignDown start windowMs = start → start < toMs →
      windowsCoveringFrom toMs windowMs fuel start = none := by
  induction fuel with
  | zero => exact fun _ _ _ => rfl
  | succ fuel ih =>
    intro start hstart halign hin
    rw [windowsCoveringFrom, if_pos hin]
    cases hnext : nextBoundary start windowMs with
    | none => rfl
    | some stop =>
      obtain ⟨hlt, halign'⟩ := nextBoundary_spec hstart hw halign hnext
      obtain ⟨-, hstop⟩ := nextBoundary_le hstart hw hnext
      dsimp only
      rw [ih (Int.le_trans hstart hlt.le) halign' (by omega)]
      rfl

theorem validate_eq (hw : 0 < windowMs) (hfrom : 0 ≤ fromMs) (hto : 0 ≤ toMs) :
    validate fromMs toMs windowMs = .ok () := by
  unfold validate
  rw [if_neg (by omega), if_neg (by omega)]

/-- `windows` has a list just where both bounds lie before the last day. -/
theorem windows_ok_iff (hw : 0 < windowMs) (hfrom : 0 ≤ fromMs) (hto : 0 ≤ toMs) :
    (∃ ws, windows fromMs toMs windowMs = .ok ws) ↔ fromMs < lastDay ∧ toMs < lastDay := by
  obtain ⟨hstart, hle⟩ := alignDown_le hfrom hw
  have halign := alignDown_aligned hfrom hw
  unfold windows
  rw [validate_eq hw hfrom hto]
  dsimp only
  constructor
  · rintro ⟨ws, hws⟩
    by_contra hbeyond
    have hreach : lastDay ≤ alignDown fromMs windowMs ∨ lastDay ≤ toMs := by
      by_cases hlast : fromMs < lastDay
      · exact .inr (Int.not_lt.mp fun hlt => hbeyond ⟨hlast, hlt⟩)
      · have hmono := alignDown_mono (by decide : 0 ≤ lastDay) (Int.not_lt.mp hlast) hw
        have hday := alignDown_boundary 106751991167 0 (by decide) (le_refl 0) hw
          (by rw [Int.zero_mul]; decide)
        rw [Int.zero_mul, Int.add_zero, show 106751991167 * dayMs = lastDay from rfl] at hday
        exact .inl (hday ▸ hmono)
    rw [windowsFrom_none hw hstart halign hreach] at hws
    cases hws
  · rintro ⟨hfrom', hto'⟩
    obtain ⟨ws, hws⟩ := windowsFrom_isSome hw hto' hstart halign (by omega)
      (Nat.lt_succ_of_lt (Nat.lt_succ_self _))
    rw [loopFuel, hws]
    exact ⟨ws, rfl⟩

/-- `windows_covering` has a list just where the range ends by the start of the last day,
or before it begins. -/
theorem windowsCovering_ok_iff (hw : 0 < windowMs) (hfrom : 0 ≤ fromMs) (hto : 0 ≤ toMs) :
    (∃ ws, windowsCovering fromMs toMs windowMs = .ok ws) ↔
      toMs ≤ lastDay ∨ toMs ≤ alignDown fromMs windowMs := by
  obtain ⟨hstart, hle⟩ := alignDown_le hfrom hw
  have halign := alignDown_aligned hfrom hw
  unfold windowsCovering
  rw [validate_eq hw hfrom hto]
  dsimp only
  constructor
  · rintro ⟨ws, hws⟩
    by_contra hbeyond
    rw [not_or, Int.not_le, Int.not_le] at hbeyond
    rw [windowsCoveringFrom_none hw hbeyond.1 hstart halign hbeyond.2] at hws
    cases hws
  · rintro (hlast | hempty)
    · obtain ⟨ws, hws⟩ := windowsCoveringFrom_isSome hw hlast hstart halign
        (Nat.lt_succ_of_lt (Nat.lt_succ_self _))
      rw [loopFuel, hws]
      exact ⟨ws, rfl⟩
    · rw [loopFuel, windowsCoveringFrom, if_neg (Int.not_lt.mpr hempty)]
      exact ⟨[], rfl⟩

/-! ## What the loops list -/

/-- A list that a loop returned: its bounds and the tiling it made. -/
theorem windows_walk (h : windows fromMs toMs windowMs = .ok ws) : 0 < windowMs ∧ 0 ≤ fromMs ∧
    ∃ hi, Tiles windowMs (alignDown fromMs windowMs) ws hi ∧ ∀ w ∈ ws, w.endMs ≤ toMs := by
  have hmem := fun w => mem_windows_iff h (w := w)
  obtain ⟨hi, htiles⟩ := windows_tiles h
  unfold windows at h
  cases hv : validate fromMs toMs windowMs with
  | error e => simp only [hv, reduceCtorEq] at h
  | ok u =>
    obtain ⟨hw, hfrom, -⟩ := validate_ok hv
    exact ⟨hw, hfrom, hi, htiles, fun w hw => ((hmem w).mp hw).2.2⟩

theorem windowsCoveringFrom_start {fuel : Nat} :
    ∀ {start : Int} {ws : List Window}, windowsCoveringFrom toMs windowMs fuel start = some ws →
      ∀ w ∈ ws, w.startMs < toMs := by
  induction fuel with
  | zero => exact fun h => nomatch h
  | succ fuel ih =>
    intro start ws h w hmem
    unfold windowsCoveringFrom at h
    split at h
    next hin =>
      cases hnext : nextBoundary start windowMs with
      | none => simp only [hnext, reduceCtorEq] at h
      | some stop =>
        simp only [hnext] at h
        obtain ⟨ws', hws', rfl⟩ := Option.map_eq_some_iff.mp h
        rcases List.mem_cons.mp hmem with rfl | hmem
        · exact hin
        · exact ih hws' w hmem
    next =>
      cases h
      exact absurd hmem List.not_mem_nil

theorem windowsCovering_walk (h : windowsCovering fromMs toMs windowMs = .ok ws) :
    0 < windowMs ∧ 0 ≤ fromMs ∧ ∃ hi, Tiles windowMs (alignDown fromMs windowMs) ws hi ∧
      toMs ≤ hi ∧ ∀ w ∈ ws, w.startMs < toMs := by
  obtain ⟨hfrom, -, hi, hle, htiles⟩ := windowsCovering_tiles h
  unfold windowsCovering at h
  cases hv : validate fromMs toMs windowMs with
  | error e => simp only [hv, reduceCtorEq] at h
  | ok u =>
    obtain ⟨hw, -, -⟩ := validate_ok hv
    simp only [hv] at h
    split at h
    next => cases h
    next ws' hws' =>
      cases h
      exact ⟨hw, hfrom, hi, htiles, hle, windowsCoveringFrom_start hws'⟩

/-- `windows_covering` lists the windows of the grid from the one of `fromMs` on that
start before the end. -/
theorem mem_windowsCovering_iff (h : windowsCovering fromMs toMs windowMs = .ok ws) :
    w ∈ ws ↔ GridWindow windowMs w ∧ alignDown fromMs windowMs ≤ w.startMs ∧ w.startMs < toMs := by
  obtain ⟨-, -, hi, htiles, hle, hstarts⟩ := windowsCovering_walk h
  constructor
  · exact fun hmem => ⟨htiles.grid w hmem, htiles.start_le w hmem, hstarts w hmem⟩
  · rintro ⟨hgrid, hlo, hin⟩
    obtain ⟨w', hmem', hin, hin'⟩ := htiles.covers hlo (Int.lt_of_lt_of_le hin hle)
    have halign := (htiles.grid w' hmem').alignDown_eq hin hin'
    rw [hgrid.2.2.1] at halign
    rwa [hgrid.ext (htiles.grid w' hmem') halign]

/-- In a range that ends by the last day these are the cells that end after its start and
start before its end. -/
theorem mem_windowsCovering_iff_cell (h : windowsCovering fromMs toMs windowMs = .ok ws)
    (hlast : toMs ≤ lastDay) :
    w ∈ ws ↔ Cell windowMs w ∧ fromMs < w.endMs ∧ w.startMs < toMs := by
  obtain ⟨hw, hfrom, -⟩ := windowsCovering_walk h
  rw [mem_windowsCovering_iff h]
  constructor
  · rintro ⟨hgrid, hlo, hin⟩
    have hafter := (hgrid.alignDown_le_iff hfrom).mp hlo
    exact ⟨((gridWindow_iff hw).mp hgrid).1, hafter, hin⟩
  · rintro ⟨hcell, hafter, hin⟩
    have hgrid := (cell_iff_gridWindow hw hfrom hafter (Int.lt_of_lt_of_le hin hlast)).mp hcell
    exact ⟨hgrid, (hgrid.alignDown_le_iff hfrom).mpr hafter, hin⟩

namespace Tiles

variable {lo hi hi' : Int}

/-- The windows come in ascending order. -/
theorem ascending (h : Tiles windowMs lo ws hi) : ws.Pairwise fun w w' => w.startMs < w'.startMs := by
  induction h with
  | nil => exact .nil
  | cons hgrid htail ih =>
    refine .cons (fun w hw => ?_) ih
    exact Int.lt_of_lt_of_le hgrid.lt (htail.start_le w hw)

theorem head_start (h : Tiles windowMs lo (w :: ws) hi) : lo = w.startMs := by
  cases h
  rfl

/-- Each window begins where the one before it ends. -/
theorem touch (h : Tiles windowMs lo ws hi) : ws.IsChain fun w w' => w.endMs = w'.startMs := by
  induction h with
  | nil => exact .nil
  | @cons w ws hi hgrid htail ih =>
    cases ws with
    | nil => exact .singleton _
    | cons w' ws => exact .cons_cons htail.head_start ih

theorem le (h : Tiles windowMs lo ws hi) : lo ≤ hi := by
  induction h with
  | nil => exact Int.le_refl _
  | cons hgrid _ ih => exact Int.le_trans hgrid.lt.le ih

/-- A tiling that goes further has the same windows first. -/
theorem prefix_of_le (h : Tiles windowMs lo ws hi) (h' : Tiles windowMs lo ws' hi') (hle : hi ≤ hi') :
    ws <+: ws' := by
  induction h generalizing ws' with
  | nil => exact List.nil_prefix
  | @cons w ws hi hgrid htail ih =>
    generalize hlo : w.startMs = lo at h'
    cases h' with
    | nil =>
      have hlt := hgrid.lt
      have hle' := htail.le
      omega
    | @cons w' ws' _ hgrid' htail' =>
      obtain rfl := hgrid.ext hgrid' hlo
      exact List.prefix_cons_inj _ |>.mpr (ih htail' hle)

/-- It ends where it began, or with one of its windows. -/
theorem end_le {bound : Int} (h : Tiles windowMs lo ws hi) (hends : ∀ w ∈ ws, w.endMs ≤ bound) :
    hi = lo ∨ hi ≤ bound := by
  induction h with
  | nil => exact .inl rfl
  | @cons w ws hi hgrid _ ih =>
    have hw := hends w List.mem_cons_self
    rcases ih fun w' hw' => hends w' (List.mem_cons_of_mem _ hw') with rfl | hle
    · exact .inr hw
    · exact .inr hle

end Tiles

/-- What one of the two loops returned for some range. -/
def Enumerated (windowMs : Int) (ws : List Window) : Prop :=
  ∃ fromMs toMs, windows fromMs toMs windowMs = .ok ws ∨ windowsCovering fromMs toMs windowMs = .ok ws

theorem Enumerated.grid (h : Enumerated windowMs ws) : ∀ w ∈ ws, GridWindow windowMs w := by
  obtain ⟨fromMs, toMs, h | h⟩ := h
  · exact fun w hw => ((mem_windows_iff h).mp hw).1
  · exact fun w hw => ((mem_windowsCovering_iff h).mp hw).1

theorem Enumerated.touch (h : Enumerated windowMs ws) :
    ws.IsChain fun w w' => w.endMs = w'.startMs := by
  obtain ⟨fromMs, toMs, h | h⟩ := h
  · obtain ⟨-, -, hi, htiles, -⟩ := windows_walk h
    exact htiles.touch
  · obtain ⟨-, -, hi, htiles, -⟩ := windowsCovering_walk h
    exact htiles.touch

/-- The two loops list the cells of a range that ends before the last day, in ascending
order: those that end in it, and those that start in it. So all lists of one window
length are of one grid. -/
theorem window_grid (windowMs fromMs toMs : Int) (hw : 0 < windowMs) (hfrom : 0 ≤ fromMs)
    (hto : 0 ≤ toMs) (hfrom' : fromMs < lastDay) (hto' : toMs < lastDay) :
    ∃ ws cs, windows fromMs toMs windowMs = .ok ws ∧ windowsCovering fromMs toMs windowMs = .ok cs ∧
      ws.Pairwise (fun w w' => w.startMs < w'.startMs) ∧
      (∀ w, w ∈ ws ↔ Cell windowMs w ∧ fromMs < w.endMs ∧ w.endMs ≤ toMs) ∧
      cs.Pairwise (fun w w' => w.startMs < w'.startMs) ∧
      (∀ w, w ∈ cs ↔ Cell windowMs w ∧ fromMs < w.endMs ∧ w.startMs < toMs) ∧
      ws <+: cs ∧
      (∀ vs, Enumerated windowMs vs → vs.IsChain (fun w w' => w.endMs = w'.startMs) ∧
        ∀ v ∈ vs, v.endMs ≤ v.startMs / dayMs * dayMs + dayMs ∧
          ∀ us, Enumerated windowMs us → ∀ u ∈ us,
            u = v ∨ u.endMs ≤ v.startMs ∨ v.endMs ≤ u.startMs) ∧
      ∀ from₂ to₂, fromMs ≤ from₂ → to₂ ≤ toMs →
        (∀ vs, windows from₂ to₂ windowMs = .ok vs → ∀ v ∈ vs, v ∈ ws) ∧
        ∀ vs, windowsCovering from₂ to₂ windowMs = .ok vs → ∀ v ∈ vs, v ∈ cs := by
  obtain ⟨ws, hws⟩ := (windows_ok_iff hw hfrom hto).mpr ⟨hfrom', hto'⟩
  obtain ⟨cs, hcs⟩ := (windowsCovering_ok_iff hw hfrom hto).mpr (.inl hto'.le)
  obtain ⟨-, -, hi, htiles, hends⟩ := windows_walk hws
  obtain ⟨-, -, hi', htiles', hle', -⟩ := windowsCovering_walk hcs
  refine ⟨ws, cs, hws, hcs, htiles.ascending, fun w => ?_, htiles'.ascending, fun w => ?_, ?_,
    fun vs hvs => ⟨hvs.touch, fun v hv => ⟨?_, fun us hus u hu => ?_⟩⟩,
    fun from₂ to₂ hfrom₂ hto₂ => ⟨fun vs hvs v hv => ?_, fun vs hvs v hv => ?_⟩⟩
  · rw [mem_windows_iff hws]
    constructor
    · rintro ⟨hgrid, hlo, hend⟩
      have hafter := (hgrid.alignDown_le_iff hfrom).mp hlo
      exact ⟨((gridWindow_iff hw).mp hgrid).1, hafter, hend⟩
    · rintro ⟨hcellw, hafter, hend⟩
      have hlt : w.startMs < lastDay := by
        obtain ⟨day, k, -, hstart, hin, hstop⟩ := hcellw
        rw [Int.add_mul, Int.one_mul] at hstop
        omega
      have hgrid := (cell_iff_gridWindow hw hfrom hafter hlt).mp hcellw
      exact ⟨hgrid, (hgrid.alignDown_le_iff hfrom).mpr hafter, hend⟩
  · exact mem_windowsCovering_iff_cell hcs hto'.le
  · refine htiles.prefix_of_le htiles' ?_
    rcases htiles.end_le hends with rfl | hle
    · exact htiles'.le
    · exact Int.le_trans hle hle'
  · have hgrid := hvs.grid v hv
    rw [← Int.tdiv_eq_ediv_of_nonneg hgrid.2.1]
    exact hgrid.end_le_day.1
  · exact (hus.grid u hu).eq_or_apart (hvs.grid v hv)
  · exact windows_subset hws hvs hfrom₂ hto₂ v hv
  · obtain ⟨hgrid, hlo, hin⟩ := (mem_windowsCovering_iff hvs).mp hv
    refine (mem_windowsCovering_iff hcs).mpr ⟨hgrid, ?_, Int.lt_of_lt_of_le hin hto₂⟩
    exact Int.le_trans (alignDown_mono hfrom hfrom₂ hw) hlo

/-- Seven hours do not divide a day: its last window is cut short. -/
theorem window_grid_seven_hours : ∃ ws cs,
    windows 1000 86400000 25200000 = .ok ws ∧ windowsCovering 1000 86400000 25200000 = .ok cs ∧
      ws <+: cs := by
  obtain ⟨ws, cs, hws, hcs, -, -, -, -, hpre, -⟩ := window_grid 25200000 1000 86400000
    (by decide) (by decide) (by decide) (by decide) (by decide)
  exact ⟨ws, cs, hws, hcs, hpre⟩

/-- Both loops come to an end, with windows that are no empty range, just where no round
needs the end of the last day. -/
theorem enumeration_total (windowMs fromMs toMs : Int) (hw : 0 < windowMs) (hfrom : 0 ≤ fromMs)
    (hto : 0 ≤ toMs) :
    ((∃ ws, windows fromMs toMs windowMs = .ok ws ∧
        ∀ w ∈ ws, 0 ≤ w.startMs ∧ w.startMs < w.endMs) ↔ fromMs < lastDay ∧ toMs < lastDay) ∧
      ((∃ ws, windowsCovering fromMs toMs windowMs = .ok ws ∧
        ∀ w ∈ ws, 0 ≤ w.startMs ∧ w.startMs < w.endMs) ↔
        toMs ≤ lastDay ∨ toMs ≤ alignDown fromMs windowMs) := by
  have hgrid : ∀ ws, Enumerated windowMs ws → ∀ w ∈ ws, 0 ≤ w.startMs ∧ w.startMs < w.endMs :=
    fun ws h w hmem => ⟨(h.grid w hmem).2.1, (h.grid w hmem).lt⟩
  constructor
  · rw [← windows_ok_iff hw hfrom hto]
    constructor
    · rintro ⟨ws, hws, -⟩
      exact ⟨ws, hws⟩
    · rintro ⟨ws, hws⟩
      exact ⟨ws, hws, hgrid ws ⟨fromMs, toMs, .inl hws⟩⟩
  · rw [← windowsCovering_ok_iff hw hfrom hto]
    constructor
    · rintro ⟨ws, hws, -⟩
      exact ⟨ws, hws⟩
    · rintro ⟨ws, hws⟩
      exact ⟨ws, hws, hgrid ws ⟨fromMs, toMs, .inr hws⟩⟩

/-- The hours of a day. -/
theorem enumeration_total_hours : ∃ ws, windows 0 86400000 3600000 = .ok ws ∧
    ∀ w ∈ ws, 0 ≤ w.startMs ∧ w.startMs < w.endMs :=
  (enumeration_total 3600000 0 86400000 (by decide) (by decide) (by decide)).1.mpr (by decide)

/-- In the last day the end of the day is beyond `i64`. -/
theorem last_day_overflows :
    nextBoundary lastDay 3600000 = none ∧
      ¬ ∀ windowMs fromMs toMs : Int, 0 < windowMs → windowMs ≤ i64Max → 0 ≤ fromMs →
        fromMs ≤ i64Max → 0 ≤ toMs → toMs ≤ i64Max →
        (∃ ws, windows fromMs toMs windowMs = .ok ws ∧
          ∀ w ∈ ws, 0 ≤ w.startMs ∧ w.startMs < w.endMs) ∧
        ∃ ws, windowsCovering fromMs toMs windowMs = .ok ws ∧
          ∀ w ∈ ws, 0 ≤ w.startMs ∧ w.startMs < w.endMs := by
  refine ⟨by decide, fun h => ?_⟩
  obtain ⟨⟨ws, hws, -⟩, -⟩ := h 3600000 lastDay i64Max (by decide) (by decide) (by decide)
    (by decide) (by decide) (by decide)
  have hlast := (windows_ok_iff (by decide) (by decide) (by decide)).mp ⟨ws, hws⟩
  exact absurd hlast.1 (by decide)

end S4Logs
