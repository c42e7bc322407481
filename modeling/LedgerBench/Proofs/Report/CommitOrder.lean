import Mathlib.Data.List.Basic
import LedgerBench.Report.Throughput

/-!
# The order of commit

Blocks are in order of commit by time, and by height at the same time. It is a total order
(`notAfter_trans`, `notAfter_total`), and two blocks that come not after each other have the same
height (`height_eq_of_notAfter`). So the blocks of a span are sorted (`pairwise_commitOrder`), its
ends are the times of two of them, and no time of commit is outside (`CommitSpan.exists_ends`).

Times and heights are compared only. If all times and heights of some blocks are changed in a way
that keeps their order, the span has the same blocks, and its ends are changed like all times
(`CommitSpan.ofBlocks?_map`).
-/

namespace LedgerBench

namespace CommittedBlock

variable {a b c : CommittedBlock}

/-- The committed ones among blocks come from entries, each with its height. -/
theorem mem_ofBlocks {blocks : List (Height × Block)} :
    c ∈ ofBlocks blocks ↔
      ∃ b, (c.height, b) ∈ blocks ∧ b.commitTime = some c.time ∧ b.txIds.length = c.size := by
  unfold ofBlocks
  rw [List.mem_filterMap]
  constructor
  · rintro ⟨⟨height, b⟩, hmem, hsome⟩
    obtain ⟨time, htime, rfl⟩ := Option.map_eq_some_iff.mp hsome
    exact ⟨b, hmem, htime, rfl⟩
  · rintro ⟨b, hmem, htime, hsize⟩
    refine ⟨(c.height, b), hmem, ?_⟩
    simp only [htime, hsize, Option.map_some]

/-- The order of commit, spelt out. -/
theorem notAfter_iff : a.notAfter b = true ↔
    a.time < b.time ∨ (a.time = b.time ∧ a.height ≤ b.height) := by
  simp only [notAfter, Bool.or_eq_true, Bool.and_eq_true, decide_eq_true_eq]

/-- A block that comes not after another was not committed later. -/
theorem le_of_notAfter (h : a.notAfter b = true) : a.time ≤ b.time := by
  rw [notAfter_iff, Instant.lt_iff] at h
  rw [Instant.le_iff_not_lt, Instant.lt_iff]
  rcases h with h | ⟨htime, -⟩
  · omega
  · rw [htime]
    omega

/-- Two blocks that are committed not after each other are at the same height. -/
theorem height_eq_of_notAfter (hab : a.notAfter b = true) (hba : b.notAfter a = true) :
    a.height = b.height := by
  have htime : a.time = b.time := Instant.le_antisymm (le_of_notAfter hab) (le_of_notAfter hba)
  have hirrefl : ¬ b.time < b.time := by
    rw [Instant.lt_iff]
    omega
  rw [notAfter_iff, htime] at hab hba
  exact Nat.le_antisymm (hab.resolve_left hirrefl).2 (hba.resolve_left hirrefl).2

/-- The order of commit is transitive. -/
theorem notAfter_trans (a b c : CommittedBlock) (hab : a.notAfter b = true)
    (hbc : b.notAfter c = true) : a.notAfter c = true := by
  rw [notAfter_iff, Instant.lt_iff] at *
  rcases hab with hab | ⟨hab, hab'⟩ <;> rcases hbc with hbc | ⟨hbc, hbc'⟩
  · exact .inl (by omega)
  · exact .inl (by rw [← hbc]; exact hab)
  · exact .inl (by rw [hab]; exact hbc)
  · exact .inr ⟨hab.trans hbc, Nat.le_trans hab' hbc'⟩

/-- Of two blocks one comes not after the other. -/
theorem notAfter_total (a b : CommittedBlock) : a.notAfter b = true ∨ b.notAfter a = true := by
  rw [notAfter_iff, notAfter_iff]
  by_cases hab : a.time < b.time
  · exact .inl (.inl hab)
  · by_cases hba : b.time < a.time
    · exact .inr (.inl hba)
    · have htime : a.time = b.time := Instant.le_antisymm hba hab
      rcases Nat.le_total a.height b.height with hheight | hheight
      · exact .inl (.inr ⟨htime, hheight⟩)
      · exact .inr (.inr ⟨htime.symm, hheight⟩)

end CommittedBlock

/-- Blocks are listed in the order of commit. -/
theorem pairwise_commitOrder (blocks : List (Height × Block)) :
    (commitOrder blocks).Pairwise fun a b => a.notAfter b = true := by
  have htotal : ∀ a b : CommittedBlock, (a.notAfter b || b.notAfter a) = true :=
    fun a b => Bool.or_eq_true_iff.mpr (CommittedBlock.notAfter_total a b)
  exact List.pairwise_mergeSort CommittedBlock.notAfter_trans htotal _

/-- A span begins and ends with two committed blocks, in this order. -/
theorem CommitSpan.exists_ends {blocks : List (Height × Block)} {span : CommitSpan}
    (h : ofBlocks? blocks = some span) : ∃ first ∈ CommittedBlock.ofBlocks blocks,
      ∃ last ∈ CommittedBlock.ofBlocks blocks, first.notAfter last = true ∧
        span.start = first.time ∧ span.stop = last.time := by
  have hmem : ∀ c, c ∈ commitOrder blocks → c ∈ CommittedBlock.ofBlocks blocks :=
    fun _ => List.mem_mergeSort.mp
  have hsorted := pairwise_commitOrder blocks
  unfold ofBlocks? at h
  split at h
  · rename_i first second rest hlist
    cases h
    rw [hlist] at hmem hsorted
    -- the last block is one of those behind the first
    have hlast : rest.getLastD second ∈ second :: rest := List.getLastD_mem_cons
    exact ⟨first, hmem _ List.mem_cons_self, rest.getLastD second,
      hmem _ (List.mem_cons_of_mem _ hlast), List.rel_of_pairwise_cons hsorted hlast, rfl, rfl⟩
  · cases h

/-! ## Other times and heights -/

/-- The block with another time and at another height. -/
def CommittedBlock.moved (time : Instant → Instant) (height : Height → Height)
    (c : CommittedBlock) : CommittedBlock := ⟨time c.time, height c.height, c.size⟩

/-- The span with other times. -/
def CommitSpan.moved (time : Instant → Instant) (span : CommitSpan) : CommitSpan :=
  ⟨time span.start, time span.stop, span.counted⟩

section Moved

variable {blocks : List (Height × Block)} {time : Instant → Instant} {height : Height → Height}
  {block : Block → Block}

/-- Blocks with other times and heights are committed with these. -/
theorem CommittedBlock.ofBlocks_map (htime : ∀ b, (block b).commitTime = b.commitTime.map time)
    (hsize : ∀ b, (block b).txIds.length = b.txIds.length) :
    ofBlocks (blocks.map fun e => (height e.1, block e.2)) =
      (ofBlocks blocks).map (moved time height) := by
  unfold ofBlocks
  rw [List.filterMap_map, List.map_filterMap]
  refine List.filterMap_congr fun e _ => ?_
  simp only [Function.comp_def, htime, hsize, Option.map_map]
  rfl

/-- Blocks with other times and heights have the span with these times, if their order is kept. -/
theorem CommitSpan.ofBlocks?_map (htime : ∀ b, (block b).commitTime = b.commitTime.map time)
    (hsize : ∀ b, (block b).txIds.length = b.txIds.length)
    (horder : ∀ a ∈ CommittedBlock.ofBlocks blocks, ∀ b ∈ CommittedBlock.ofBlocks blocks,
      (a.moved time height).notAfter (b.moved time height) = a.notAfter b) :
    ofBlocks? (blocks.map fun e => (height e.1, block e.2)) =
      (ofBlocks? blocks).map (moved time) := by
  have hcommits : commitOrder (blocks.map fun e => (height e.1, block e.2)) =
      (commitOrder blocks).map (CommittedBlock.moved time height) := by
    unfold commitOrder
    rw [CommittedBlock.ofBlocks_map htime hsize]
    exact (List.map_mergeSort fun a ha b hb => (horder a ha b hb).symm).symm
  unfold ofBlocks?
  rw [hcommits]
  match commitOrder blocks with
  | [] | [_] => rfl
  | first :: second :: rest =>
    have hlast : (rest.map (CommittedBlock.moved time height)).getLastD
        (second.moved time height) = (rest.getLastD second).moved time height := by
      rw [List.getLastD_eq_getLast?, List.getLastD_eq_getLast?, List.getLast?_map]
      cases rest.getLast? <;> rfl
    simp only [CommittedBlock.countTxs, List.map_cons, List.foldl_cons, List.foldl_map, hlast]
    rfl

/-- Blocks with other times and heights have the same throughput, if their order is kept and the
ends of their span are as far apart. -/
theorem throughput_map (time : Instant → Instant) (height : Height → Height)
    (block : Block → Block) (htime : ∀ b, (block b).commitTime = b.commitTime.map time)
    (hsize : ∀ b, (block b).txIds.length = b.txIds.length)
    (horder : ∀ a ∈ CommittedBlock.ofBlocks blocks, ∀ b ∈ CommittedBlock.ofBlocks blocks,
      (a.moved time height).notAfter (b.moved time height) = a.notAfter b)
    (helapsed : ∀ span, CommitSpan.ofBlocks? blocks = some span →
      (time span.start).elapsed (time span.stop) = span.start.elapsed span.stop) :
    throughput (blocks.map fun e => (height e.1, block e.2)) = throughput blocks := by
  unfold throughput
  rw [CommitSpan.ofBlocks?_map htime hsize horder]
  cases hspan : CommitSpan.ofBlocks? blocks with
  | none => rfl
  | some span =>
    unfold CommitSpan.moved
    simp only [Option.map_some, helapsed span hspan]

end Moved

end LedgerBench
