import Mathlib.Algebra.BigOperators.Group.Finset.Basic
import LedgerBench.Proofs.Ledger.Times
import LedgerBench.Proofs.Report.Listing
import LedgerBench.Proofs.Time.Range

/-!
# The throughput of a session

The throughput is computed from a sorted list, but it depends on the commits of a session only: at
which heights a block is committed, when, and with how many transactions. In these terms the commits
begin with the least block by time and height and end at the latest time (`Session.CommitEnds`), and
the rate is the number of transactions in all committed blocks but the first, by the seconds between
the ends (`Session.IsThroughput`).

The list is compared with the commits first. It has every height of theirs once (`mem_commitOrder`,
`nodup_heights_commitOrder`), so its length and its transactions are those of the set of heights
(`length_commitOrder`, `countTxs_commitOrder`); and since it is sorted, its ends are those of the
commits (`commitEnds`). Sessions with the same commits have the same list
(`Session.SameCommits.commitOrder_eq`).

It takes the range of timestamps to see that the rate is a number unless one of the two guards
applies. In that range the time between two instants is finite, and if it is positive it is at least
a microsecond, so that a count is divided by a positive number of seconds (`nonneg_rate`). The count
may be of any size.
-/

namespace LedgerBench

/-! ## Commits -/

namespace Session

/-- The heights at which a block is committed. -/
def committedHeights (s : Session) : Finset Height :=
  s.blocks.keys.toFinset.filter fun height => (s.block height).commitTime.isSome

/-- The number of transactions in the block at a height. -/
def blockSize (s : Session) (height : Height) : ℕ := (s.block height).txIds.length

/-- The commits of a session begin with the block at a height, and end at a later time or the
same. -/
structure CommitEnds (s : Session) (height : Height) (start stop : Instant) : Prop where
  /-- This block is committed at the beginning. -/
  commitTime_first : (s.block height).commitTime = some start
  /-- It is the least committed one by time and height. -/
  first_le : ∀ {h time}, (s.block h).commitTime = some time →
    start < time ∨ (start = time ∧ height ≤ h)
  /-- Some block is committed at the end. -/
  exists_last : ∃ h, (s.block h).commitTime = some stop
  /-- None is committed later. -/
  le_stop : ∀ {h time}, (s.block h).commitTime = some time → time ≤ stop

/-- Two sessions have the same commits: at each height both blocks are committed at the same time
and have as many transactions, or neither is committed. -/
structure SameCommits (s s' : Session) : Prop where
  /-- The times of commit are the same. -/
  commitTime : ∀ height, (s.block height).commitTime = (s'.block height).commitTime
  /-- Committed blocks have as many transactions. -/
  blockSize : ∀ {height time}, (s.block height).commitTime = some time →
    s.blockSize height = s'.blockSize height

variable {s s' : Session} {height height' : Height} {start start' stop stop' : Instant}

/-- A block that does not exist is not committed. -/
theorem mem_blocks_of_commitTime (h : (s.block height).commitTime = some start) :
    height ∈ s.blocks := by
  by_contra hmem
  unfold block at h
  rw [Registry.find_of_not_mem hmem] at h
  cases h

/-- A block is committed at a height if it has a time of commit. -/
theorem mem_committedHeights :
    height ∈ s.committedHeights ↔ ∃ time, (s.block height).commitTime = some time := by
  unfold committedHeights
  rw [Finset.mem_filter, List.mem_toFinset, Std.ExtTreeMap.mem_keys, Option.isSome_iff_exists]
  constructor
  · exact fun h => h.2
  · rintro ⟨time, htime⟩
    exact ⟨mem_blocks_of_commitTime htime, time, htime⟩

/-- The commits of a session have only one beginning and one end. -/
theorem CommitEnds.unique (h : s.CommitEnds height start stop)
    (h' : s.CommitEnds height' start' stop') :
    height = height' ∧ start = start' ∧ stop = stop' := by
  obtain ⟨last, hlast⟩ := h.exists_last
  obtain ⟨last', hlast'⟩ := h'.exists_last
  have hstop : stop = stop' := Instant.le_antisymm (h'.le_stop hlast) (h.le_stop hlast')
  -- neither block comes after the other in the order of commit
  have hab : (⟨start, height, 0⟩ : CommittedBlock).notAfter ⟨start', height', 0⟩ = true :=
    CommittedBlock.notAfter_iff.mpr (h.first_le h'.commitTime_first)
  have hba : (⟨start', height', 0⟩ : CommittedBlock).notAfter ⟨start, height, 0⟩ = true :=
    CommittedBlock.notAfter_iff.mpr (h'.first_le h.commitTime_first)
  have hstart : start = start' := Instant.le_antisymm (CommittedBlock.le_of_notAfter hab)
    (CommittedBlock.le_of_notAfter hba)
  exact ⟨CommittedBlock.height_eq_of_notAfter hab hba, hstart, hstop⟩

/-! ## The list of commits -/

namespace Listing

variable (l : s.Listing) {c first second : CommittedBlock} {rest : List CommittedBlock}

/-- The list has the committed blocks of the session. -/
theorem mem_commitOrder : c ∈ commitOrder l.blocks ↔
    (s.block c.height).commitTime = some c.time ∧ s.blockSize c.height = c.size := by
  unfold commitOrder
  rw [List.mem_mergeSort, CommittedBlock.mem_ofBlocks]
  simp only [l.blocks_perm.mem_iff, Registry.mem_toList_iff]
  constructor
  · rintro ⟨b, ⟨-, hfind⟩, htime, hsize⟩
    have hblock : s.block c.height = b := hfind
    unfold blockSize
    rw [hblock]
    exact ⟨htime, hsize⟩
  · rintro ⟨htime, hsize⟩
    exact ⟨s.block c.height, ⟨mem_blocks_of_commitTime htime, rfl⟩, htime, hsize⟩

/-- The list has no height twice. -/
theorem nodup_heights_commitOrder : ((commitOrder l.blocks).map (·.height)).Nodup := by
  have hperm : (commitOrder l.blocks).Perm (CommittedBlock.ofBlocks l.blocks) :=
    List.mergeSort_perm _ _
  have hdistinct := l.nodup_heights
  rw [(hperm.map _).nodup_iff]
  unfold CommittedBlock.ofBlocks
  unfold List.Nodup at hdistinct ⊢
  rw [List.pairwise_map] at hdistinct ⊢
  rw [List.pairwise_filterMap]
  refine hdistinct.imp fun {e e'} hne c hc c' hc' => ?_
  obtain ⟨_, -, rfl⟩ := Option.map_eq_some_iff.mp hc
  obtain ⟨_, -, rfl⟩ := Option.map_eq_some_iff.mp hc'
  exact hne

/-- The heights of the list are those at which a block is committed. -/
theorem toFinset_heights_commitOrder :
    ((commitOrder l.blocks).map (·.height)).toFinset = s.committedHeights := by
  ext height
  rw [List.mem_toFinset, List.mem_map, mem_committedHeights]
  constructor
  · rintro ⟨c, hc, rfl⟩
    exact ⟨c.time, (l.mem_commitOrder.mp hc).1⟩
  · rintro ⟨time, htime⟩
    exact ⟨⟨time, height, s.blockSize height⟩, l.mem_commitOrder.mpr ⟨htime, rfl⟩, rfl⟩

/-- The list is as long as there are committed blocks. -/
theorem length_commitOrder : (commitOrder l.blocks).length = s.committedHeights.card := by
  rw [← l.toFinset_heights_commitOrder, List.toFinset_card_of_nodup l.nodup_heights_commitOrder,
    List.length_map]

/-- The transactions in the list are those of all committed blocks. -/
theorem countTxs_commitOrder : CommittedBlock.countTxs (commitOrder l.blocks) =
    ∑ height ∈ s.committedHeights, s.blockSize height := by
  have hsizes : (commitOrder l.blocks).map (·.size) =
      ((commitOrder l.blocks).map (·.height)).map s.blockSize := by
    rw [List.map_map]
    exact List.map_congr_left fun c hc => (l.mem_commitOrder.mp hc).2.symm
  unfold CommittedBlock.countTxs
  rw [← List.foldl_map, ← List.sum_eq_foldl, hsizes, ← l.toFinset_heights_commitOrder,
    List.sum_toFinset _ l.nodup_heights_commitOrder]

/-- No block has more transactions than all blocks of the list. -/
theorem size_le_countTxs (hc : c ∈ commitOrder l.blocks) :
    c.size ≤ CommittedBlock.countTxs (commitOrder l.blocks) := by
  obtain ⟨htime, hsize⟩ := l.mem_commitOrder.mp hc
  rw [l.countTxs_commitOrder, ← hsize]
  exact Finset.single_le_sum (fun _ _ => Nat.zero_le _) (mem_committedHeights.mpr ⟨_, htime⟩)

/-- The transactions in the list without those of one block are those of the other blocks. -/
theorem countTxs_sub_size (hc : c ∈ commitOrder l.blocks) :
    CommittedBlock.countTxs (commitOrder l.blocks) - c.size =
      ∑ height ∈ s.committedHeights.erase c.height, s.blockSize height := by
  obtain ⟨htime, hsize⟩ := l.mem_commitOrder.mp hc
  have hmem : c.height ∈ s.committedHeights := mem_committedHeights.mpr ⟨_, htime⟩
  rw [l.countTxs_commitOrder, ← Finset.add_sum_erase _ _ hmem, hsize, Nat.add_sub_cancel_left]

/-- The list begins and ends with the ends of the commits. -/
theorem commitEnds (h : commitOrder l.blocks = first :: second :: rest) :
    s.CommitEnds first.height first.time (rest.getLastD second).time := by
  have hsorted := pairwise_commitOrder l.blocks
  have hmem : ∀ c ∈ first :: second :: rest, (s.block c.height).commitTime = some c.time :=
    fun c hc => (l.mem_commitOrder.mp (h ▸ hc)).1
  have hlisted : ∀ {height time}, (s.block height).commitTime = some time →
      (⟨time, height, s.blockSize height⟩ : CommittedBlock) ∈ first :: second :: rest :=
    fun htime => h ▸ l.mem_commitOrder.mpr ⟨htime, rfl⟩
  have hrefl : Std.Refl fun a b : CommittedBlock => a.notAfter b = true :=
    ⟨fun a => (CommittedBlock.notAfter_total a a).elim id id⟩
  have hlast : (first :: second :: rest).getLast (List.cons_ne_nil _ _) = rest.getLastD second := by
    rw [List.getLast_cons_cons, List.getLast_eq_getLastD]
  rw [h] at hsorted
  constructor
  · exact hmem first List.mem_cons_self
  · intro height time htime
    have hc := hlisted htime
    -- the first block is not after itself, nor after any behind it
    rcases List.mem_cons.mp hc with heq | hbehind
    · rw [← heq]
      exact .inr ⟨rfl, le_rfl⟩
    · exact CommittedBlock.notAfter_iff.mp (List.rel_of_pairwise_cons hsorted hbehind)
  · exact ⟨(rest.getLastD second).height, hmem _ (hlast ▸ List.getLast_mem _)⟩
  · intro height time htime
    have hle := hsorted.rel_getLast (hlisted htime)
    rw [hlast] at hle
    exact CommittedBlock.le_of_notAfter hle

end Listing

/-- Sessions with the same commits have the same list of them, in whichever order their blocks are
listed before they are sorted. -/
theorem SameCommits.commitOrder_eq (h : s.SameCommits s') (l : s.Listing) (l' : s'.Listing) :
    commitOrder l.blocks = commitOrder l'.blocks := by
  have hmem : ∀ c, c ∈ commitOrder l.blocks ↔ c ∈ commitOrder l'.blocks := by
    intro c
    rw [l.mem_commitOrder, l'.mem_commitOrder, ← h.commitTime]
    exact and_congr_right fun htime => by rw [h.blockSize htime]
  have hperm : (commitOrder l.blocks).Perm (commitOrder l'.blocks) :=
    (List.perm_ext_iff_of_nodup l.nodup_heights_commitOrder.of_map
      l'.nodup_heights_commitOrder.of_map).mpr hmem
  -- blocks that are not after each other are at the same height, where there is only one
  have hantisymm : ∀ a b : CommittedBlock, a ∈ commitOrder l.blocks → b ∈ commitOrder l'.blocks →
      a.notAfter b = true → b.notAfter a = true → a = b := by
    intro a b ha hb hab hba
    exact List.inj_on_of_nodup_map l.nodup_heights_commitOrder ha ((hmem b).mpr hb)
      (CommittedBlock.height_eq_of_notAfter hab hba)
  exact hperm.eq_of_pairwise hantisymm (pairwise_commitOrder _) (pairwise_commitOrder _)

end Session

/-! ## The rate -/

/-- No value is not-a-number. -/
theorem isNaN_noValue : noValue.isNaN = true := by decide +kernel

/-- A count by as many seconds as one microsecond or more makes is not negative. -/
theorem nonneg_rate {micros : Float} (h : IsBounded micros) (hone : 1 ≤ toRat micros) (n : ℕ) :
    0.0 ≤ Float.ofNat n / (micros / microsPerSecond) := by
  have hmillion : toRat microsPerSecond = 1000000 := toRat_million
  have hne : toRat microsPerSecond ≠ 0 := by
    rw [hmillion]
    norm_num
  have hle : |toRat micros / toRat microsPerSecond| ≤ 2 ^ 1023 := by
    have hlarge : (2 : ℚ) ^ 65 ≤ 2 ^ 1023 := pow_le_pow_right₀ one_le_two (by norm_num)
    rw [hmillion, abs_div, abs_of_pos (by norm_num : (0 : ℚ) < 1000000)]
    exact (div_le_self (abs_nonneg _) (by norm_num)).trans (h.abs_le.trans hlarge)
  have hrounds := RoundsTo.div h.isFinite (y := microsPerSecond) rfl hne hle
  -- a millionth is above a power of two, so it is not rounded to zero
  have hlow : (2 : ℚ) ^ (-20 : ℤ) ≤ toRat micros / toRat microsPerSecond := by
    rw [hmillion, le_div_iff₀ (by norm_num)]
    calc (2 : ℚ) ^ (-20 : ℤ) * 1000000 ≤ 1 := by norm_num
      _ ≤ toRat micros := hone
  have hseconds := hrounds.nearest.ge_of_ge (.two_zpow (by norm_num)) hlow
  have hpos : (0 : ℚ) < 2 ^ (-20 : ℤ) := by positivity
  exact nonneg_div (nonneg_ofNat n) hrounds.isFinite (hpos.trans_le hseconds)

namespace Session

/-- A session has no throughput: fewer than two blocks are committed, or no positive time passes
from the first commit to the last one. -/
def LacksThroughput (s : Session) : Prop :=
  s.committedHeights.card < 2 ∨
    ∃ height start stop, s.CommitEnds height start stop ∧ start.elapsed stop ≤ 0.0

/-- The double is the throughput of a session. -/
structure IsThroughput (s : Session) (x : Float) : Prop where
  /-- It is not-a-number exactly if the session has none. -/
  isNaN_iff : x.isNaN = true ↔ s.LacksThroughput
  /-- Otherwise it is the number of transactions in all committed blocks but the first, by the
  seconds from the first commit to the last one. -/
  eq_rate : x.isNaN = false → ∃ height start stop, s.CommitEnds height start stop ∧
    x = Float.ofNat (∑ h ∈ s.committedHeights.erase height, s.blockSize h) /
      (start.elapsed stop / microsPerSecond)
  /-- Then it is not negative. -/
  nonneg : x.isNaN = false → 0.0 ≤ x
  /-- Less than a microsecond is no positive time, even if it passes between distinct times. -/
  elapsed_iff : ∀ {height start stop}, s.CommitEnds height start stop →
    (start.elapsed stop ≤ 0.0 ↔ start.nanosBetween stop < 1000)

variable {s : Session} {height : Height} {start stop : Instant}

/-- Commits of two blocks whose ends are some time apart have a throughput. -/
theorem CommitEnds.not_lacksThroughput (h : s.CommitEnds height start stop)
    (htwo : 2 ≤ s.committedHeights.card) (hpos : ¬ start.elapsed stop ≤ 0.0) :
    ¬ s.LacksThroughput := by
  rintro (hfew | ⟨_, _, _, hother, hnone⟩)
  · omega
  · obtain ⟨-, rfl, rfl⟩ := hother.unique h
    exact hpos hnone

/-- It can only be the rate between these ends. -/
theorem IsThroughput.eq_of_ends {x : Float} (h : s.IsThroughput x)
    (hends : s.CommitEnds height start stop) (htwo : 2 ≤ s.committedHeights.card)
    (hpos : ¬ start.elapsed stop ≤ 0.0) :
    x = Float.ofNat (∑ h ∈ s.committedHeights.erase height, s.blockSize h) /
      (start.elapsed stop / microsPerSecond) := by
  have hnumber : x.isNaN = false := by
    rw [← Bool.not_eq_true, h.isNaN_iff]
    exact hends.not_lacksThroughput htwo hpos
  obtain ⟨_, _, _, hother, hrate⟩ := h.eq_rate hnumber
  obtain ⟨rfl, rfl, rfl⟩ := hother.unique hends
  exact hrate

/-! ## The rate between the ends -/

/-- The times of commit lie in the range of timestamps, as all do that can be read. -/
def CommitsInRange (s : Session) : Prop :=
  ∀ height time, (s.block height).commitTime = some time → time.InRange

/-- They do if all times of a session lie in the range. -/
theorem EveryTime.commitsInRange (h : s.EveryTime Instant.InRange) : s.CommitsInRange :=
  fun height time htime => h.blocks height time (by simp [Block.times, htime])

/-- They do in a session of records, also after it is pruned to a window. -/
theorem commitsInRange_of_told {run : List StreamRecord} {effects : List Effect}
    (h : Told run effects) : (empty.applyAll effects).CommitsInRange ∧
      ∀ w, ((empty.applyAll effects).prune w).CommitsInRange :=
  ⟨(EveryTime.of_told h).commitsInRange, fun w => ((EveryTime.of_told h).prune w).commitsInRange⟩

/-- The ends of the commits lie in the range with them. -/
theorem CommitsInRange.ends (hrange : s.CommitsInRange) (h : s.CommitEnds height start stop) :
    start.InRange ∧ stop.InRange := by
  obtain ⟨last, hlast⟩ := h.exists_last
  exact ⟨hrange height start h.commitTime_first, hrange last stop hlast⟩

/-- Between the ends there is a positive time if a microsecond passes. -/
theorem CommitsInRange.elapsed_iff (hrange : s.CommitsInRange)
    (h : s.CommitEnds height start stop) :
    start.elapsed stop ≤ 0.0 ↔ start.nanosBetween stop < 1000 :=
  Instant.elapsed_le_zero_iff (hrange.ends h).1 (hrange.ends h).2

/-- The throughput that a session lacks is not-a-number. -/
theorem isThroughput_noValue (hrange : s.CommitsInRange) (h : s.LacksThroughput) :
    s.IsThroughput noValue where
  isNaN_iff := iff_of_true isNaN_noValue h
  eq_rate hnumber := by cases isNaN_noValue.symm.trans hnumber
  nonneg hnumber := by cases isNaN_noValue.symm.trans hnumber
  elapsed_iff := hrange.elapsed_iff

/-- Otherwise the throughput is the rate between the ends. -/
theorem isThroughput_rate (hrange : s.CommitsInRange) (htwo : 2 ≤ s.committedHeights.card)
    (hends : s.CommitEnds height start stop) (hpos : ¬ start.elapsed stop ≤ 0.0) :
    s.IsThroughput (Float.ofNat (∑ h ∈ s.committedHeights.erase height, s.blockSize h) /
      (start.elapsed stop / microsPerSecond)) := by
  obtain ⟨hstart, hstop⟩ := hrange.ends hends
  have hmicro : 1000 ≤ start.nanosBetween stop := not_lt.mp (mt (hrange.elapsed_iff hends).mpr hpos)
  have hnonneg := nonneg_rate (Instant.elapsed_isBounded hstart hstop)
    (Instant.one_le_toRat_elapsed hstart hstop hmicro)
    (∑ h ∈ s.committedHeights.erase height, s.blockSize h)
  refine ⟨?_, fun _ => ⟨height, start, stop, hends, rfl⟩, fun _ => hnonneg, hrange.elapsed_iff⟩
  rw [isNaN_of_nonneg hnonneg]
  exact iff_of_false Bool.false_ne_true (hends.not_lacksThroughput htwo hpos)

/-- The throughput is computed as it is defined. -/
theorem Listing.isThroughput (l : s.Listing) (hrange : s.CommitsInRange) :
    s.IsThroughput (throughput l.blocks) := by
  have hlength := l.length_commitOrder
  unfold throughput CommitSpan.ofBlocks?
  match hlist : commitOrder l.blocks with
  | [] | [_] =>
    have hfew : s.committedHeights.card < 2 := by
      rw [← hlength, hlist]
      simp
    exact isThroughput_noValue hrange (.inl hfew)
  | first :: second :: rest =>
    have hends := l.commitEnds hlist
    have hcounted := l.countTxs_sub_size (hlist ▸ List.mem_cons_self (a := first))
    have htwo : 2 ≤ s.committedHeights.card := by
      rw [← hlength, hlist, List.length_cons, List.length_cons]
      omega
    rw [hlist] at hcounted
    dsimp only
    rw [hcounted]
    split
    · rename_i hnone
      exact isThroughput_noValue hrange (.inr ⟨_, _, _, hends, hnone⟩)
    · rename_i hpos
      exact isThroughput_rate hrange htwo hends hpos

/-- In whichever order the blocks of a session are listed, the throughput is computed as it is
defined; the transactions of the first block, which are taken off, are among those of all blocks;
and other sessions with the same commits have the same throughput, in any order of theirs. -/
theorem throughput_isThroughput (hrange : s.CommitsInRange) (l : s.Listing) :
    s.IsThroughput (throughput l.blocks) ∧
      (∀ first ∈ (commitOrder l.blocks).head?,
        first.size ≤ CommittedBlock.countTxs (commitOrder l.blocks)) ∧
        ∀ (s' : Session) (l' : s'.Listing), s.SameCommits s' →
          throughput l'.blocks = throughput l.blocks := by
  refine ⟨l.isThroughput hrange, fun first hfirst => ?_, fun s' l' hsame => ?_⟩
  · exact l.size_le_countTxs (List.mem_of_mem_head? hfirst)
  · unfold throughput CommitSpan.ofBlocks?
    rw [hsame.commitOrder_eq l l']

/-- Commits of which two are the first by time and two are the last, and a block that is proposed
only. -/
def tiedEffects : List Effect :=
  [.commit 5 ⟨10, 0⟩ ["a", "b"], .commit 3 ⟨10, 0⟩ ["c"], .commit 8 ⟨12, 0⟩ ["d", "e", "f"],
    .endProposal 9 ⟨14, 0⟩, .commit 7 ⟨12, 0⟩ ["g"]]

/-- The session with these commits. -/
def tied : Session := empty.applyAll tiedEffects

/-- The block at height 3 is the first of them. -/
theorem commitEnds_tied : tied.CommitEnds 3 ⟨10, 0⟩ ⟨12, 0⟩ := by
  have hall : ∀ h ∈ tied.committedHeights, ∀ time ∈ (tied.block h).commitTime,
      ((⟨10, 0⟩ : Instant) < time ∨ (⟨10, 0⟩ = time ∧ 3 ≤ h)) ∧ time ≤ ⟨12, 0⟩ := by
    decide +kernel
  have hcommit : ∀ {h time}, (tied.block h).commitTime = some time → h ∈ tied.committedHeights :=
    fun htime => mem_committedHeights.mpr ⟨_, htime⟩
  exact ⟨by decide +kernel, fun htime => (hall _ (hcommit htime) _ htime).1,
    ⟨7, by decide +kernel⟩, fun htime => (hall _ (hcommit htime) _ htime).2⟩

/-- Six transactions are counted in two seconds, and it does not matter in which order the blocks
are listed. -/
theorem throughput_isThroughput_tied : tied.CommitsInRange ∧
    throughput tied.blocks.toList.reverse = 3.0 ∧ throughput tied.blocks.toList = 3.0 := by
  have hrange : ∀ e ∈ tiedEffects, ∀ time ∈ e.time?, time.InRange := by
    intro e he time htime
    simp only [tiedEffects, List.mem_cons, List.not_mem_nil, or_false] at he
    rcases he with rfl | rfl | rfl | rfl | rfl <;> cases htime <;> exact ⟨by norm_num, by norm_num⟩
  have hcommits : tied.CommitsInRange := (EveryTime.empty.applyAll hrange).commitsInRange
  obtain ⟨hthroughput, -, hsame⟩ := throughput_isThroughput hcommits
    ⟨tied.txs.toList, tied.blocks.toList.reverse, .refl _, List.reverse_perm _⟩
  have hrate := hthroughput.eq_of_ends commitEnds_tied (by decide +kernel) (by decide +kernel)
  have hvalue : throughput tied.blocks.toList.reverse = 3.0 := hrate.trans (by decide +kernel)
  have hascending := hsame tied (.ascending tied) ⟨fun _ => rfl, fun _ => rfl⟩
  exact ⟨hcommits, hvalue, hascending.trans hvalue⟩

end Session

end LedgerBench
