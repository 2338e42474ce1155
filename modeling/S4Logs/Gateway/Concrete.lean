import S4Logs.Core.Concrete
import S4Logs.Gateway.Machine

/-!
# A gateway that can be run

Entries as compact JSON in the field order of the format. A brace inside a text is
written as an escape, so that a brace begins an entry wherever it stands, and a text
is read only if it is written just as the entry it spells would be.
-/

namespace S4Logs.Concrete

/-- The opening brace is escaped in texts. -/
def braceExtra : UInt8 → Bool := fun b => b == 123

def entryFields (e : WalEntry) : List (String × Json) :=
  [("log_group", .str e.logGroup), ("timestamp", .num e.timestamp), ("stream", .str e.stream),
    ("message", .str e.message)] ++ Json.skipNone "ingestion_time" (e.ingestionTime.map .num)

def entryOfFields (fs : List (String × Json)) : Option WalEntry := do
  some {
    logGroup := ← Json.required "log_group" Json.asStr? fs
    timestamp := ← Json.required "timestamp" Json.asInt? fs
    stream := ← Json.required "stream" Json.asStr? fs
    message := ← Json.required "message" Json.asStr? fs
    ingestionTime := ← Json.optional "ingestion_time" Json.asInt? fs }

theorem entryOfFields_entryFields (e : WalEntry) : entryOfFields (entryFields e) = some e := by
  obtain ⟨logGroup, timestamp, stream, message, ingestionTime⟩ := e
  cases ingestionTime <;>
    simp [entryOfFields, entryFields, Json.required, Json.optional, Json.skipNone, Json.get?,
      Json.asInt?, Json.asStr?]

def entryToVec (e : WalEntry) : Bytes := Json.compact braceExtra (.obj (entryFields e))

def entryFromSlice (bs : Bytes) : Option WalEntry :=
  ((Json.parse bs).bind Json.asObj? |>.bind entryOfFields).filter fun e => entryToVec e == bs

def entries : SerdeLine WalEntry where
  toVec := entryToVec
  fromSlice := entryFromSlice
  fromSlice_toVec e := by
    simp only [entryFromSlice, entryToVec, Json.parse_compact, Option.bind_some, Json.asObj?,
      entryOfFields_entryFields, Option.filter_some, beq_self_eq_true, if_true]
  newline_notMem e := Json.newline_notMem_compact braceExtra _
  toVec_ne_nil e := Json.compact_ne_nil braceExtra _

/-! ## A brace begins an entry -/

/-- Texts and numbers. -/
def Scalar : Json → Prop
  | .num _ => True
  | .str _ => True
  | _ => False

theorem scalar_brace {j : Json} (h : Scalar j) : 123 ∉ Json.compact braceExtra j := by
  cases j with
  | num n => exact fun hmem => (Json.writeInt_range n _ hmem).2 rfl
  | str s => exact fun hmem => (Json.writeString_range braceExtra s _ hmem).2 rfl rfl
  | null => exact absurd h not_false
  | arr xs => exact absurd h not_false
  | obj fs => exact absurd h not_false

theorem fields_brace {fs : List (String × Json)} (h : ∀ f ∈ fs, Scalar f.2) :
    123 ∉ Json.compactFields braceExtra fs := by
  induction fs with
  | nil => decide
  | cons f fs ih =>
    obtain ⟨k, x⟩ := f
    intro hmem
    simp only [Json.compactFields, List.mem_cons, List.mem_append] at hmem
    rcases hmem with hmem | hmem | hmem | hmem | hmem
    · exact absurd hmem (by decide)
    · exact (Json.writeString_range braceExtra k _ hmem).2 rfl rfl
    · exact absurd hmem (by decide)
    · exact scalar_brace (h _ List.mem_cons_self) hmem
    · exact ih (fun f hf => h f (List.mem_cons_of_mem _ hf)) hmem

/-- Only the first octet of an entry is an opening brace. -/
theorem entryToVec_brace (e : WalEntry) : ∃ rest, entryToVec e = 123 :: rest ∧ 123 ∉ rest := by
  refine ⟨_, rfl, fun hmem => ?_⟩
  have hscalars : ∀ f ∈ entryFields e, Scalar f.2 := by
    intro f hf
    obtain ⟨logGroup, timestamp, stream, message, ingestionTime⟩ := e
    cases ingestionTime <;> simp [entryFields, Json.skipNone] at hf
    · rcases hf with rfl | rfl | rfl | rfl <;> trivial
    · rcases hf with rfl | rfl | rfl | rfl | rfl <;> trivial
  rcases List.mem_append.mp hmem with hmem | hmem
  · exact (Json.writeString_range braceExtra _ _ hmem).2 rfl rfl
  · rcases List.mem_cons.mp hmem with hmem | hmem
    · exact absurd hmem (by decide)
    · rcases List.mem_append.mp hmem with hmem | hmem
      · exact scalar_brace (j := .str e.logGroup) trivial hmem
      · exact fields_brace (fun f hf => hscalars f (List.mem_cons_of_mem _ hf)) hmem

/-- Whatever stands before an entry, the two together are no entry. -/
theorem entryFromSlice_begun {b : Bytes} (hb : b ≠ []) (e : WalEntry) :
    entryFromSlice (b ++ entryToVec e) = none := by
  obtain ⟨rest, hrest, -⟩ := entryToVec_brace e
  refine Option.eq_none_iff_forall_ne_some.mpr fun e' h => ?_
  have hsame := eq_of_beq (Option.filter_eq_some_iff.mp h).2
  obtain ⟨rest', hrest', hbrace⟩ := entryToVec_brace e'
  obtain ⟨c, b', rfl⟩ := List.exists_cons_of_ne_nil hb
  rw [hrest', hrest, List.cons_append] at hsame
  refine hbrace ?_
  rw [(List.cons.inj hsame).2]
  exact List.mem_append_right _ List.mem_cons_self

/-- No entry begins another. -/
theorem entryToVec_begins {e e' : WalEntry} (h : entryToVec e <+: entryToVec e') : e = e' := by
  have hfields := congrArg entryOfFields (Json.compact_obj_begins braceExtra h)
  rw [entryOfFields_entryFields, entryOfFields_entryFields] at hfields
  exact Option.some.inj hfields

/-! ## The gateway -/

/-- A gateway that flushes on demand. -/
def gateway (walDir : Option String) : BufferManager where
  cfg := {
    account := "000000000000"
    flushBytes := 8388608
    flushIntervalMs := 60000
    chunk := { frameTargetBytes := 100, zstdLevel := 3 }
    walDir := walDir
    maxBufferedBytes := 268435456 }
  sink := { keyPrefix := "s4logs", storageClass := none }
  lib := lib
  entries := entries

/-- An operating system where nothing fails. -/
def io (uuid : String) : EventIo where
  uuid := uuid
  nowMs := 0
  opened := true
  dirSynced := true
  torn := none

def deleted : DeleteIo where
  removed := true
  dirSynced := true

/-- An event of the first day, or of the second. -/
def input (day : Int) (message : String) : InputLogEvent where
  timestamp := day * 86400000 + 5
  message := message

/-- A process that has started on an empty log. -/
def started : List GatewayLabel := [.boot, .act 0 (.replay [] [] none []), .reply 0]

/-- A push of a batch, up to its reply. -/
def pushed (id : Nat) (events : List InputLogEvent) (ios : List EventIo) : List GatewayLabel :=
  [.call id (.push "/g" "s" events), .act id (.reserve []), .act id (.append [] ios none),
    .act id .flushed, .reply id]

/-- A PUT of each object of a chunk. -/
def stored (id : Nat) (uuid : String) : List GatewayLabel :=
  [.act id (.flushNext uuid deleted), .act id (.put (some none) deleted),
    .act id (.put (some none) deleted), .act id (.put (some none) deleted)]

end S4Logs.Concrete
