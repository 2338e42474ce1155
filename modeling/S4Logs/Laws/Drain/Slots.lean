import S4Logs.Laws.Core.Keys
import S4Logs.Laws.Drain.Task
import S4Logs.Laws.Drain.Window

/-!
# The slots of the archive

A slot is a place for one data object and its sidecars: an account, a window, a
naming and a number. Under one prefix and one log group the three keys of a slot
are apart from each other and from those of every other slot, as long as the
windows of one account that share a start are the same (`Apart`). Windows of one
grid are apart; windows of two grids need not be, since a name has the start of
its window and not the end.
-/

namespace S4Logs

/-- Windows that an object name tells apart. -/
structure Apart (W : String → Window → Prop) : Prop where
  nonneg : ∀ {account w}, W account w → 0 ≤ w.startMs ∧ 0 ≤ w.endMs
  bounded : ∀ {account w}, W account w → w.endMs ≤ i64Max
  eq_of_start : ∀ {account w w'}, W account w → W account w' → w.startMs = w'.startMs → w = w'

theorem GridWindow.nonneg {windowMs : Int} {w : Window} (h : GridWindow windowMs w) :
    0 ≤ w.startMs ∧ 0 ≤ w.endMs :=
  ⟨h.2.1, Int.le_trans h.2.1 (Int.le_of_lt h.lt)⟩

/-- The windows of one grid, in any account. -/
theorem GridWindow.apart (windowMs : Int) : Apart fun _ w => GridWindow windowMs w where
  nonneg h := h.nonneg
  bounded h := h.end_le
  eq_of_start h h' heq := h.ext h' heq

/-- A place for one data object and its sidecars. -/
@[ext]
structure Slot where
  account : String
  window : Window
  naming : ObjectNaming
  seq : Nat
deriving DecidableEq

/-- Where the slot is. -/
def Slot.location (logGroup : String) (slot : Slot) : ChunkLocation :=
  objectLocation slot.account logGroup slot.window slot.naming slot.seq

/-- A slot of these windows, whose number can be read back. -/
structure Slot.In (W : String → Window → Prop) (slot : Slot) : Prop where
  window : W slot.account slot.window
  fits : slot.naming.Fits

variable {logGroup : String} {slot slot' : Slot} {W : String → Window → Prop}

/-! ## The keys of a slot -/

/-- Slots of windows that are apart lie at different places. -/
theorem Slot.eq_of_dataKey {keyPrefix : String} (apart : Apart W) (h : slot.In W)
    (h' : slot'.In W) (heq : (slot.location logGroup).dataKey keyPrefix =
      (slot'.location logGroup).dataKey keyPrefix) : slot = slot' := by
  have hs := (apart.nonneg h.window).1
  have hs' := (apart.nonneg h'.window).1
  have hname : slot.naming.name slot.window.startMs slot.seq =
      slot'.naming.name slot'.window.startMs slot'.seq :=
    dataKey_name (ObjectNaming.slash_notMem_name slot.naming _ slot.seq)
      (ObjectNaming.slash_notMem_name slot'.naming _ slot'.seq) heq
  obtain ⟨hstart, hsuffix⟩ := ObjectNaming.name_injective hs hs' hname
  obtain ⟨hnaming, hseq⟩ := ObjectNaming.suffix_injective h.fits h'.fits hsuffix
  -- the account is what stands before the group, the date and the name
  have haccount : slot.account = slot'.account := by
    have hlist := congrArg String.toList (dataKey_inj heq)
    rw [toList_tail, toList_tail] at hlist
    simp only [Slot.location, objectLocation, hstart, hnaming, hseq, List.append_cancel_left_eq,
      List.append_cancel_right_eq] at hlist
    exact String.toList_inj.mp hlist
  have hwindow : slot.window = slot'.window :=
    apart.eq_of_start h.window (haccount ▸ h'.window) hstart
  exact Slot.ext haccount hwindow hnaming hseq

/-- The keys of different slots are apart. -/
theorem Slot.keys_apart {keyPrefix key : String} (apart : Apart W) (h : slot.In W)
    (h' : slot'.In W) (hne : slot ≠ slot') (hkey : key ∈ (slot.location logGroup).keys keyPrefix) :
    key ∉ (slot'.location logGroup).keys keyPrefix :=
  S4Logs.keys_apart (fun heq => hne (Slot.eq_of_dataKey apart h h' (dataKey_congr keyPrefix heq))) hkey

/-! ## Manifest keys -/

/-- The manifest keys of different accounts and windows are apart. -/
theorem windowKey_injective {keyPrefix account account' : String} {w w' : Window}
    (hw : 0 ≤ w.startMs ∧ 0 ≤ w.endMs) (hw' : 0 ≤ w'.startMs ∧ 0 ≤ w'.endMs)
    (h : windowKey keyPrefix account logGroup w = windowKey keyPrefix account' logGroup w') :
    account = account' ∧ w = w' := by
  obtain ⟨hacc, -, hs, he⟩ := manifestKey_inj hw.1 hw.2 hw'.1 hw'.2 h
  obtain ⟨s, e⟩ := w
  obtain ⟨s', e'⟩ := w'
  exact ⟨hacc, by rw [show s = s' from hs, show e = e' from he]⟩

end S4Logs
