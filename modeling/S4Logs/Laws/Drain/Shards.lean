import Mathlib.Data.List.Basic
import S4Logs.Drain.Shard

/-!
# The partition of a listing

Streams are dealt out in rounds. After `i` of them shard `j` has had a turn for each number
below `i` that leaves `j` modulo the shards (`Dealt`), so shards are at most one stream
apart, and no shard has more than its share rounded up.
-/

namespace S4Logs

variable {n i : Nat} {streams : List String} {shards : List (List String)}

/-! ## Turns -/

/-- Dealing adds the streams to what the shards hold. -/
theorem dealStreams_perm (hlen : shards.length = n) (hpos : 0 < n) :
    (dealStreams n i streams shards).flatten.Perm (shards.flatten ++ streams) := by
  induction streams generalizing i shards with
  | nil =>
    rw [List.append_nil]
    exact .refl _
  | cons x streams ih =>
    refine (ih (by rw [List.length_modify, hlen])).trans ?_
    obtain ⟨before, shard, after, rfl, -, hmodify⟩ := List.exists_of_modify (· ++ [x])
      (i := i % n) (l := shards) (by rw [hlen]; exact Nat.mod_lt i hpos)
    rw [hmodify]
    simp only [List.flatten_append, List.flatten_cons, List.append_assoc, List.cons_append,
      List.nil_append]
    refine .append_left _ (.append_left _ ?_)
    exact List.perm_middle.symm

/-- The shards after `i` turns: shard `j` has as many streams as there were turns of it. -/
structure Dealt (n i : Nat) (shards : List (List String)) : Prop where
  length : shards.length = n
  turns : ∀ (j : Nat) (shard : List String), shards[j]? = some shard →
    n * shard.length + j < i + n ∧ i ≤ n * shard.length + j

namespace Dealt

theorem none (n : Nat) : Dealt n 0 (List.replicate n []) where
  length := List.length_replicate
  turns j shard hshard := by
    obtain ⟨hj, rfl⟩ := List.getElem?_eq_some_iff.mp hshard
    rw [List.length_replicate] at hj
    rw [List.getElem_replicate, List.length_nil]
    omega

/-- One turn. -/
theorem turn (h : Dealt n i shards) (x : String) :
    Dealt n (i + 1) (shards.modify (i % n) (· ++ [x])) where
  length := by rw [List.length_modify, h.length]
  turns j dealt hdealt := by
    rw [List.getElem?_modify] at hdealt
    obtain ⟨shard, hshard, rfl⟩ := Option.map_eq_some_iff.mp hdealt
    obtain ⟨hbelow, habove⟩ := h.turns j shard hshard
    have hj : j < n := h.length ▸ (List.getElem?_eq_some_iff.mp hshard).1
    split
    next hturn =>
      -- the shard whose turn it is has as many streams as there were whole rounds
      subst hturn
      have hdiv := Nat.div_add_mod i n
      have hrounds : n * shard.length < n * (i / n + 1) := by
        rw [Nat.mul_add, Nat.mul_one]
        omega
      have hlt := Nat.lt_of_mul_lt_mul_left hrounds
      have hle : n * shard.length ≤ n * (i / n) := Nat.mul_le_mul_left n (Nat.le_of_lt_succ hlt)
      rw [List.length_append, List.length_singleton, Nat.mul_add, Nat.mul_one]
      omega
    next hturn =>
      have hne : i ≠ n * shard.length + j := by
        rintro rfl
        apply hturn
        rw [Nat.mul_add_mod, Nat.mod_eq_of_lt hj]
      omega

theorem run (h : Dealt n i shards) (streams : List String) :
    Dealt n (i + streams.length) (dealStreams n i streams shards) := by
  induction streams generalizing i shards with
  | nil => exact h
  | cons x streams ih =>
    rw [List.length_cons, Nat.add_comm streams.length, ← Nat.add_assoc]
    exact ih (h.turn x)

variable {a b : List String}

theorem turns_mem (h : Dealt n i shards) (ha : a ∈ shards) :
    ∃ j < n, n * a.length + j < i + n ∧ i ≤ n * a.length + j := by
  obtain ⟨j, hj⟩ := List.getElem?_of_mem ha
  exact ⟨j, h.length ▸ (List.getElem?_eq_some_iff.mp hj).1, h.turns j a hj⟩

/-- No shard has more than one stream on another. -/
theorem balanced (h : Dealt n i shards) (ha : a ∈ shards) (hb : b ∈ shards) :
    a.length ≤ b.length + 1 := by
  obtain ⟨j, -, hbelow, -⟩ := h.turns_mem ha
  obtain ⟨k, hk, -, habove⟩ := h.turns_mem hb
  have hmul : n * a.length < n * (b.length + 2) := by
    rw [Nat.mul_add, Nat.mul_two]
    omega
  exact Nat.le_of_lt_succ (Nat.lt_of_mul_lt_mul_left hmul)

/-- Each shard has had a turn, once there were as many turns as shards. -/
theorem filled (h : Dealt n i shards) (hi : n ≤ i) (ha : a ∈ shards) : a ≠ [] := by
  rintro rfl
  obtain ⟨j, hj, -, habove⟩ := h.turns_mem ha
  rw [List.length_nil, Nat.mul_zero] at habove
  omega

/-- Shards with room for all streams have room each. -/
theorem within (h : Dealt n i shards) {limit : Nat} (hi : i ≤ n * limit) (ha : a ∈ shards) :
    a.length ≤ limit := by
  obtain ⟨j, -, hbelow, -⟩ := h.turns_mem ha
  have hmul : n * a.length < n * (limit + 1) := by
    rw [Nat.mul_add, Nat.mul_one]
    omega
  exact Nat.le_of_lt_succ (Nat.lt_of_mul_lt_mul_left hmul)

end Dealt

/-! ## The partition -/

/-- The shards of a listing that is not empty: as many as are asked for, but no fewer than
the limit takes and no more than streams. -/
theorem partitionStreams_cons (hne : streams ≠ []) (requested maxPerShard : Nat) :
    ∃ n, n = min (max (max requested 1)
        ((streams.length + max maxPerShard 1 - 1) / max maxPerShard 1)) streams.length ∧
      0 < n ∧ streams.length ≤ n * max maxPerShard 1 ∧
      partitionStreams streams requested maxPerShard =
        dealStreams n 0 streams (List.replicate n []) := by
  refine ⟨_, rfl, ?_, ?_, if_neg hne⟩
  · have hlen := List.length_pos_iff.mpr hne
    omega
  · have hper : 0 < max maxPerShard 1 := by omega
    generalize max maxPerShard 1 = per at hper ⊢
    have hround : streams.length ≤ per * ((streams.length + per - 1) / per) := by
      have hdiv := Nat.div_add_mod (streams.length + per - 1) per
      have hmod := Nat.mod_lt (streams.length + per - 1) hper
      omega
    generalize (streams.length + per - 1) / per = rounds at hround ⊢
    rcases Nat.le_total streams.length (max (max requested 1) rounds) with hle | hle
    · rw [Nat.min_eq_right hle]
      exact Nat.le_mul_of_pos_right _ hper
    · rw [Nat.min_eq_left hle, Nat.mul_comm]
      exact hround.trans (Nat.mul_le_mul_left per (Nat.le_max_right _ _))

/-- A listing is dealt out whole, in shards of at most so many names. -/
theorem partitionStreams_perm (streams : List String) (requested maxPerShard : Nat) :
    (partitionStreams streams requested maxPerShard).flatten.Perm streams ∧
      ∀ shard ∈ partitionStreams streams requested maxPerShard,
        shard.length ≤ max maxPerShard 1 := by
  by_cases hne : streams = []
  · subst hne
    exact ⟨.refl _, fun shard h => absurd h List.not_mem_nil⟩
  · obtain ⟨n, -, hpos, hfits, heq⟩ := partitionStreams_cons hne requested maxPerShard
    rw [heq]
    constructor
    · refine (dealStreams_perm List.length_replicate hpos).trans ?_
      rw [List.flatten_replicate_nil, List.nil_append]
    · intro shard hshard
      exact ((Dealt.none n).run streams).within (by rwa [Nat.zero_add]) hshard

/-- A listing is partitioned: every stream is in some shard, and nothing else is. Two
streams or more make two shards or more, where so many are asked for. -/
theorem partitionStreams_spec (streams : List String) (requested maxPerShard : Nat) :
    (2 ≤ streams.length → 2 ≤ requested →
      2 ≤ (partitionStreams streams requested maxPerShard).length) ∧
      ∀ s, (∃ shard ∈ partitionStreams streams requested maxPerShard, s ∈ shard) ↔
        s ∈ streams := by
  constructor
  · intro hstreams hrequested
    have hne : streams ≠ [] := List.length_pos_iff.mp (Nat.lt_of_lt_of_le Nat.two_pos hstreams)
    obtain ⟨n, hn, -, -, heq⟩ := partitionStreams_cons hne requested maxPerShard
    rw [heq, ((Dealt.none n).run streams).length]
    omega
  · intro s
    rw [← List.mem_flatten]
    exact (partitionStreams_perm streams requested maxPerShard).1.mem_iff

/-- The shards hold the listing, each name as often as it is listed. None is empty, none
has more names than the limit, no two are more than one name apart, and there are as many as
are asked for, or as the limit takes where these are more, but no more than names. -/
theorem stream_partition (streams : List String) (requestedShards : Nat) {maxPerShard : Nat}
    (hmax : 1 ≤ maxPerShard) :
    (partitionStreams streams requestedShards maxPerShard).flatten.Perm streams ∧
    (∀ shard ∈ partitionStreams streams requestedShards maxPerShard,
      shard ≠ [] ∧ shard.length ≤ maxPerShard) ∧
    (∀ shard ∈ partitionStreams streams requestedShards maxPerShard,
      ∀ shard' ∈ partitionStreams streams requestedShards maxPerShard,
        shard.length ≤ shard'.length + 1) ∧
    (partitionStreams streams requestedShards maxPerShard).length =
      min streams.length
        (max 1 (max requestedShards ((streams.length + maxPerShard - 1) / maxPerShard))) := by
  obtain ⟨hperm, hsize⟩ := partitionStreams_perm streams requestedShards maxPerShard
  rw [Nat.max_eq_left hmax] at hsize
  by_cases hnil : streams = []
  · subst hnil
    refine ⟨hperm, fun shard h => absurd h List.not_mem_nil, fun shard h => absurd h List.not_mem_nil,
      ?_⟩
    rw [List.length_nil, Nat.zero_min]
    rfl
  · obtain ⟨n, hn, -, -, heq⟩ := partitionStreams_cons hnil requestedShards maxPerShard
    have hdealt : Dealt n streams.length (partitionStreams streams requestedShards maxPerShard) := by
      rw [heq, ← Nat.zero_add streams.length]
      exact (Dealt.none n).run streams
    rw [Nat.max_eq_left hmax] at hn
    refine ⟨hperm, fun shard h => ⟨hdealt.filled (by omega) h, hsize shard h⟩,
      fun shard h shard' h' => hdealt.balanced h h', ?_⟩
    rw [hdealt.length]
    omega

/-- Five names of which two are one, with room for two in a shard. -/
theorem stream_partition_five :
    (partitionStreams ["a", "b", "a", "c", "d"] 1 2).length = 3 :=
  (stream_partition ["a", "b", "a", "c", "d"] 1 (by decide)).2.2.2

end S4Logs
