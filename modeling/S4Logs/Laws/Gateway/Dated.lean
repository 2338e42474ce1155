import S4Logs.Laws.Gateway.Rule

/-!
# Buffers and partitions

A buffer holds events of its own log group and date only, in every run: a push picks the
buffer by them, and a merge and a replay keep to it. So does every chunk made of a buffer.
-/

namespace S4Logs

variable {m : BufferManager} {s t : Gateway} {bufs : Buffers}

/-- The buffer an event belongs to. -/
def eventKey (ev : LogEvent) : BufKey := (ev.logGroup, dateFromTsMs ev.record.timestamp)

/-- The buffer holds events of its own key only. -/
def Dated (lib : CodecLib) (key : BufKey) (buf : Buf) : Prop :=
  ∀ ev ∈ bufEvents lib (key, buf), eventKey ev = key

theorem dated_rule (m : BufferManager) : BufRule m (Dated m.lib) where
  fresh key tsMs nowMs wal _ ev hev := by
    rw [bufEvents_new] at hev
    exact absurd hev (Multiset.notMem_zero _)
  push key buf rec hsound hdate h ev hev := by
    rw [(Buf.push_spec key hsound rec _ rfl).2, Multiset.mem_add, Multiset.mem_singleton] at hev
    rcases hev with hev | rfl
    · exact h ev hev
    · exact Prod.ext rfl hdate.symm
  segment _ _ _ _ _ h := h
  merge key dst buf recs openedAt tsMs hdst hbuf h h' ev hev := by
    obtain ⟨rs, hrs⟩ := hdst
    have hholds : bufEvents m.lib (key, dst) = _ := bufEvents_holds hrs
    have hmerged : bufEvents m.lib (key, { dst with
        openedAt := openedAt
        firstEventTsMs := tsMs
        writer := m.pushRecords dst.writer recs }) = _ :=
      bufEvents_holds (pushRecords_holds recs hrs)
    rw [hmerged, List.map_append, ← Multiset.coe_add, ← hholds, ← bufEvents_holds hbuf,
      Multiset.mem_add] at hev
    exact hev.elim (h ev) (h' ev)
  clock _ _ _ _ h := h

/-- The chunk of a location holds events of its log group and date only. -/
def DatedChunk (lib : CodecLib) (c : ChunkLocation × EncodedChunk) : Prop :=
  ∀ ev ∈ chunkEvents lib c, eventKey ev = (c.1.logGroup, c.1.date)

end S4Logs
