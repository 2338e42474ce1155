import S4Logs.Lib.Bytes

/-!
# What the crates rest on

The program calls crates that are not part of it: `serde_json`, `zstd`,
`crc32c`, `s4_codec` and `globset`. Each is a parameter here, together with the laws the
program relies on. A law is what the crate documents: reading back what was
written gives the value, and concatenated frames decode as one stream. Nothing
is assumed of octets that no writer made, except that reading them gives some
fixed answer.

Machine integers are integers; an arithmetic step that can leave the range of
`i64` says so where it is taken.
-/

namespace S4Logs

/-- The least `i64`. -/
def i64Min : Int := -9223372036854775808

/-- The greatest `i64`. -/
def i64Max : Int := 9223372036854775807

/-- `i64` addition that stops at the ends of the range. -/
def saturatingAdd (a b : Int) : Int := max i64Min (min i64Max (a + b))

/-- `i64` subtraction that stops at the ends of the range. -/
def saturatingSub (a b : Int) : Int := max i64Min (min i64Max (a - b))

/-- `i64` multiplication that stops at the ends of the range. -/
def saturatingMul (a b : Int) : Int := max i64Min (min i64Max (a * b))

/-- `serde_json` at one type: `to_vec` and `from_slice`, where the error of a
text that does not decode is left out. -/
structure Serde (α : Type) where
  toVec : α → Bytes
  fromSlice : Bytes → Option α
  fromSlice_toVec : ∀ a, fromSlice (toVec a) = some a

/-- A type whose encoding is framed in lines: compact JSON escapes a newline
inside a text, and is never empty. -/
structure SerdeLine (α : Type) extends Serde α where
  newline_notMem : ∀ a, Bytes.newline ∉ toVec a
  toVec_ne_nil : ∀ a, toVec a ≠ []

/-- The encodings of a list are lines of a text. -/
theorem SerdeLine.lines_ok {α : Type} (S : SerdeLine α) (as : List α) :
    ∀ l ∈ as.map S.toVec, Bytes.newline ∉ l ∧ l ≠ [] := by
  intro l hl
  obtain ⟨a, -, rfl⟩ := List.mem_map.mp hl
  exact ⟨S.newline_notMem a, S.toVec_ne_nil a⟩

/-- The records on the intact lines of a text. -/
def SerdeLine.intact {α : Type} (S : SerdeLine α) (text : Bytes) : List α :=
  (Bytes.lines text).filterMap S.fromSlice

/-- The text that frames a list, one line each. -/
def SerdeLine.text {α : Type} (S : SerdeLine α) (as : List α) : Bytes :=
  Bytes.unlines (as.map S.toVec)

@[simp] theorem SerdeLine.text_nil {α : Type} (S : SerdeLine α) : S.text [] = [] := rfl

@[simp] theorem SerdeLine.text_append {α : Type} (S : SerdeLine α) (as bs : List α) :
    S.text (as ++ bs) = S.text as ++ S.text bs := by
  simp only [SerdeLine.text, List.map_append, Bytes.unlines_append]

theorem SerdeLine.text_singleton {α : Type} (S : SerdeLine α) (a : α) :
    S.text [a] = S.toVec a ++ [Bytes.newline] := by
  simp only [SerdeLine.text, List.map_cons, List.map_nil, Bytes.unlines_cons, Bytes.unlines_nil]

theorem SerdeLine.filterMap_toVec {α : Type} (S : SerdeLine α) (as : List α) :
    (as.map S.toVec).filterMap S.fromSlice = as := by
  have hread : S.fromSlice ∘ S.toVec = some := funext S.fromSlice_toVec
  rw [List.filterMap_map, hread, List.filterMap_some]

/-- What was framed is read back, whatever follows it. -/
theorem SerdeLine.intact_text_append {α : Type} (S : SerdeLine α) (as : List α) (b : Bytes) :
    S.intact (S.text as ++ b) = as ++ S.intact b := by
  unfold SerdeLine.intact SerdeLine.text
  rw [Bytes.lines_unlines_append (S.lines_ok as), List.filterMap_append, S.filterMap_toVec]

/-- What was framed is read back. -/
theorem SerdeLine.intact_text {α : Type} (S : SerdeLine α) (as : List α) :
    S.intact (S.text as) = as := by
  unfold SerdeLine.intact SerdeLine.text
  rw [Bytes.lines_unlines (S.lines_ok as), S.filterMap_toVec]

/-- `zstd`: compress one frame at a level, and decode a stream of frames.
`decode` gives what comes out before the stream ends or breaks, and whether it
ends where a frame does. -/
structure Zstd where
  compressFrame : Bytes → Int → Option Bytes
  decode : Bytes → Bytes × Bool
  frame_ne_nil : ∀ {input level frame}, compressFrame input level = some frame → frame ≠ []
  decode_frame : ∀ {input level frame}, compressFrame input level = some frame →
    decode frame = (input, true)
  decode_append : ∀ {input level frame rest}, compressFrame input level = some frame →
    rest ≠ [] → decode (frame ++ rest) = (input ++ (decode rest).1, (decode rest).2)

/-- Compression of memory never fails. -/
def Zstd.Total (Z : Zstd) : Prop := ∀ input level, ∃ frame, Z.compressFrame input level = some frame

/-- `body` is a concatenation of frames, and `text` of what they hold. -/
def Zstd.Frames (Z : Zstd) (body text : Bytes) : Prop :=
  ∃ parts : List (Bytes × Bytes), (∀ p ∈ parts, ∃ level, Z.compressFrame p.1 level = some p.2) ∧
    body = parts.flatMap Prod.snd ∧ text = parts.flatMap Prod.fst

theorem Zstd.Frames.nil (Z : Zstd) : Z.Frames [] [] := ⟨[], (fun p hp => by cases hp), rfl, rfl⟩

theorem Zstd.Frames.snoc {Z : Zstd} {body text input frame : Bytes} {level : Int}
    (h : Z.Frames body text) (hframe : Z.compressFrame input level = some frame) :
    Z.Frames (body ++ frame) (text ++ input) := by
  obtain ⟨parts, hparts, rfl, rfl⟩ := h
  refine ⟨parts ++ [(input, frame)], ?_, ?_, ?_⟩
  · intro p hp
    rcases List.mem_append.mp hp with hp | hp
    · exact hparts p hp
    · cases List.mem_singleton.mp hp
      exact ⟨level, hframe⟩
  · simp only [List.flatMap_append, List.flatMap_cons, List.flatMap_nil, List.append_nil]
  · simp only [List.flatMap_append, List.flatMap_cons, List.flatMap_nil, List.append_nil]

/-- Only of no frames is nothing made. -/
theorem Zstd.Frames.text_nil {Z : Zstd} {text : Bytes} (h : Z.Frames [] text) : text = [] := by
  obtain ⟨parts, hparts, hbody, rfl⟩ := h
  cases parts with
  | nil => rfl
  | cons p parts =>
    obtain ⟨level, hp⟩ := hparts p List.mem_cons_self
    rw [List.flatMap_cons] at hbody
    exact absurd (List.append_eq_nil_iff.mp hbody.symm).1 (Z.frame_ne_nil hp)

/-- A nonempty concatenation of frames decodes as one stream. -/
theorem Zstd.Frames.decode {Z : Zstd} {body text : Bytes} (h : Z.Frames body text)
    (hne : body ≠ []) : Z.decode body = (text, true) := by
  obtain ⟨parts, hparts, rfl, rfl⟩ := h
  induction parts with
  | nil => exact absurd rfl hne
  | cons p parts ih =>
    obtain ⟨level, hp⟩ := hparts p List.mem_cons_self
    have htail := ih fun q hq => hparts q (List.mem_cons_of_mem _ hq)
    simp only [List.flatMap_cons] at hne ⊢
    by_cases hrest : parts.flatMap Prod.snd = []
    · have hnil : parts = [] := by
        cases parts with
        | nil => rfl
        | cons q parts =>
          obtain ⟨level', hq⟩ := hparts q (List.mem_cons_of_mem _ List.mem_cons_self)
          exact absurd (List.append_eq_nil_iff.mp hrest).1 (Z.frame_ne_nil hq)
      subst hnil
      simp only [List.flatMap_nil, List.append_nil]
      exact Z.decode_frame hp
    · rw [Z.decode_append hp hrest, htail hrest]

/-- `globset`: a pattern compiles to a matcher, or it is malformed. -/
structure Globset where
  compile : String → Option (String → Bool)

end S4Logs
