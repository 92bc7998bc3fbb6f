import MicewriterEngine.Model.FlushEngine

/-!
# Jitter windows

The size limit of a column family and the time between two cycles are drawn around a
configured value. What is drawn stays in its window for every configuration. The products
`jitter * 2` and the first estimate of the unflushed bytes are not checked for overflow.
-/

namespace MicewriterEngine.Proofs
open RocksStore

/-- The sizes and times that `Config::from_env` reads. Every `u64` is admitted. -/
structure JitterConfig where
  flushIntervalSecs : ℕ
  flushJitterSecs : ℕ
  flushSizeBytes : ℕ
  flushSizeJitterBytes : ℕ
  flushIntervalSecs_lt : flushIntervalSecs < 2 ^ 64
  flushJitterSecs_lt : flushJitterSecs < 2 ^ 64
  flushSizeBytes_lt : flushSizeBytes < 2 ^ 64
  flushSizeJitterBytes_lt : flushSizeJitterBytes < 2 ^ 64

/-- At most `j` below or above `b`, cut off at both ends of `u64`, and not below the floor. -/
def jitterWindow (floor b j : ℕ) : Set ℕ :=
  Set.Icc (max floor (b - j)) (max floor (min (b + j) (2 ^ 64 - 1)))

/-- No product overflows, and every draw gives a value in its window. The database lists the column
families `cfs`. -/
structure WithinWindows (c : JitterConfig) (cfs : List String) : Prop where
  sizeProduct : c.flushSizeJitterBytes * 2 < 2 ^ 64
  intervalProduct : c.flushJitterSecs * 2 < 2 ^ 64
  totalProduct : (chooseOrphans cfs).length * c.flushSizeBytes < 2 ^ 64
  sizeLimit : ∀ (s : RocksStore) (draw : ℕ), s.flushSizeBytes = c.flushSizeBytes →
    s.flushSizeJitterBytes = c.flushSizeJitterBytes → draw ≤ jitterRange c.flushSizeJitterBytes →
    (s.resetSizeLimit draw).activeCfSizeLimit ∈
      jitterWindow (1024 * 1024) c.flushSizeBytes c.flushSizeJitterBytes
  interval : ∀ draw ≤ jitterRange c.flushJitterSecs,
    jitteredInterval c.flushIntervalSecs c.flushJitterSecs draw ∈
      jitterWindow 60 c.flushIntervalSecs c.flushJitterSecs

/-- Both jitters are in the lower half of `u64`, and so many estimates of an orphan fit. -/
structure FitsU64 (c : JitterConfig) (cfs : List String) : Prop where
  sizeJitter : c.flushSizeJitterBytes < 2 ^ 63
  intervalJitter : c.flushJitterSecs < 2 ^ 63
  orphans : chooseOrphans cfs = [] ∨ c.flushSizeBytes ≤ (2 ^ 64 - 1) / (chooseOrphans cfs).length

lemma jitterRange_le (j : ℕ) : jitterRange j ≤ j * 2 := Nat.mod_le _ _

/-- Adding before subtracting loses nothing: only the sum is cut off above, and it is at least `b`. -/
lemma mem_jitterWindow {floor b j draw : ℕ} (hb : b < 2 ^ 64) (hdraw : draw ≤ jitterRange j) :
    max (min (b + draw) (2 ^ 64 - 1) - j) floor ∈ jitterWindow floor b j := by
  have hrange := jitterRange_le j
  have hlow : b - j ≤ min (b + draw) (2 ^ 64 - 1) - j := by omega
  have hhigh : min (b + draw) (2 ^ 64 - 1) - j ≤ min (b + j) (2 ^ 64 - 1) := by omega
  rw [max_comm]
  exact ⟨max_le_max_left floor hlow, max_le_max_left floor hhigh⟩

lemma resetSizeLimit_mem_jitterWindow (s : RocksStore) {draw : ℕ} (hsize : s.flushSizeBytes < 2 ^ 64)
    (hdraw : draw ≤ jitterRange s.flushSizeJitterBytes) :
    (s.resetSizeLimit draw).activeCfSizeLimit ∈
      jitterWindow (1024 * 1024) s.flushSizeBytes s.flushSizeJitterBytes :=
  mem_jitterWindow hsize hdraw

lemma jitteredInterval_mem_jitterWindow {secs jitter draw : ℕ} (hsecs : secs < 2 ^ 64)
    (hdraw : draw ≤ jitterRange jitter) : jitteredInterval secs jitter draw ∈ jitterWindow 60 secs jitter :=
  mem_jitterWindow hsecs hdraw

lemma mul_lt_two_pow_iff {n size : ℕ} : n * size < 2 ^ 64 ↔ n = 0 ∨ size ≤ (2 ^ 64 - 1) / n := by
  rcases Nat.eq_zero_or_pos n with rfl | hn
  · simp
  · rw [Nat.le_div_iff_mul_le hn, mul_comm]
    omega

/-- The arithmetic stays in range exactly for jitters in the lower half of `u64` and orphans
whose estimates fit. -/
theorem within_windows_iff (c : JitterConfig) (cfs : List String) :
    WithinWindows c cfs ↔ FitsU64 c cfs := by
  constructor
  · intro h
    have hsize := h.sizeProduct
    have hinterval := h.intervalProduct
    have htotal := mul_lt_two_pow_iff.mp h.totalProduct
    exact ⟨by omega, by omega, htotal.imp_left List.eq_nil_of_length_eq_zero⟩
  · intro h
    have hsize := h.sizeJitter
    have hinterval := h.intervalJitter
    refine ⟨by omega, by omega, ?_, ?_, ?_⟩
    · exact mul_lt_two_pow_iff.mpr (h.orphans.imp_left List.length_eq_zero_iff.mpr)
    · intro s draw hbytes hjitter hdraw
      rw [← hbytes, ← hjitter]
      refine resetSizeLimit_mem_jitterWindow s ?_ ?_
      · exact hbytes ▸ c.flushSizeBytes_lt
      · exact hjitter ▸ hdraw
    · intro draw hdraw
      exact jitteredInterval_mem_jitterWindow c.flushIntervalSecs_lt hdraw

/-- A configured size jitter of `2 ^ 63` doubles to `2 ^ 64`. -/
theorem large_jitter_overflows :
    ¬WithinWindows ⟨300, 60, 134217728, 2 ^ 63, by decide, by decide, by decide, by decide⟩ ["active"] := by
  intro h
  exact absurd h.sizeProduct (by decide)

end MicewriterEngine.Proofs
