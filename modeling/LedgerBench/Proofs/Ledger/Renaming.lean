import Mathlib.Data.List.Nodup
import Mathlib.Data.Set.Function
import LedgerBench.Proofs.Event.Renaming
import LedgerBench.Proofs.Ledger.Absorbed
import LedgerBench.Proofs.Ledger.LastWrite

/-!
# Sessions under a renaming

To rename a session is to give its entities other keys. This is harmless only if no two of them get
the same key, so a renaming is compared with the names that a run uses: `Renaming.Renames` says that
a session is another one renamed, and that all names of the first are among some given ones. Told
apart by the renaming, these leave no choice for the second session (`Renames.eq_session`).

One effect leads from renamed sessions to renamed sessions (`Renames.apply`): it finds the renamed
entity where it found the entity before, and writes the same to it. So does a stream, with the same
outcome and the same notices, and so do many streams (`Renames.replayAll`).
-/

namespace LedgerBench

/-! ## Registries -/

namespace Registry

variable {κ α : Type} [Ord κ] [Std.TransOrd κ] [Std.LawfulEqOrd κ] [Inhabited α]

omit [Std.LawfulEqOrd κ] [Inhabited α] in
/-- The registry with other keys and other entities. -/
def relabel (r : Registry κ α) (key : κ → κ) (entity : α → α) : Registry κ α :=
  .ofList (r.toList.map fun e => (key e.1, entity e.2))

/-- The second registry has the entities of the first one, each changed and under the new key. The
keys are among some that do not get the same new key. -/
structure Relabelled (key : κ → κ) (entity : α → α) (among : Set κ) (r r' : Registry κ α) :
    Prop where
  /-- Different keys get different new keys. -/
  injOn : Set.InjOn key among
  /-- The keys are among these. -/
  subset : ∀ k ∈ r, k ∈ among
  /-- The second registry has the new keys. -/
  mem_iff : ∀ k', k' ∈ r' ↔ ∃ k ∈ r, key k = k'
  /-- Under a new key it has the changed entity. -/
  find_eq : ∀ k ∈ among, r'.find (key k) = entity (r.find k)

variable {key : κ → κ} {entity : α → α} {among : Set κ} {r r' : Registry κ α}

omit [Std.LawfulEqOrd κ] [Inhabited α] in
/-- The entries with new keys and changed entities have the new keys. -/
theorem map_fst_map_toList (r : Registry κ α) (key : κ → κ) (entity : α → α) :
    (r.toList.map fun e => (key e.1, entity e.2)).map (·.1) = r.keys.map key := by
  rw [← Std.ExtTreeMap.map_fst_toList_eq_keys, List.map_map, List.map_map]
  rfl

omit [Inhabited α] in
/-- The new keys of different entries are different. -/
theorem nodup_map_keys (entity : α → α) (hkey : Set.InjOn key among)
    (hsubset : ∀ k ∈ r, k ∈ among) :
    ((r.toList.map fun e => (key e.1, entity e.2)).map (·.1)).Nodup := by
  rw [map_fst_map_toList]
  refine Std.ExtTreeMap.nodup_keys.map_on fun k hk k' hk' heq => ?_
  exact hkey (hsubset k (Std.ExtTreeMap.mem_keys.mp hk))
    (hsubset k' (Std.ExtTreeMap.mem_keys.mp hk')) heq

/-- The entries of a relabelled registry are the changed ones in some order. -/
theorem Relabelled.toList_perm (h : Relabelled key entity among r r') :
    r'.toList.Perm (r.toList.map fun e => (key e.1, entity e.2)) := by
  have hnodup' : (r'.toList.map (·.1)).Nodup := by
    rw [Std.ExtTreeMap.map_fst_toList_eq_keys]
    exact Std.ExtTreeMap.nodup_keys
  have hnodup := nodup_map_keys entity h.injOn h.subset
  refine (List.perm_ext_iff_of_nodup hnodup'.of_map hnodup.of_map).mpr fun e' => ?_
  obtain ⟨k', a'⟩ := e'
  rw [mem_toList_iff, h.mem_iff, List.mem_map]
  constructor
  · rintro ⟨⟨k, hk, rfl⟩, rfl⟩
    exact ⟨(k, r.find k), mem_toList_iff.mpr ⟨hk, rfl⟩, by rw [h.find_eq k (h.subset k hk)]⟩
  · rintro ⟨⟨k, a⟩, hmem, heq⟩
    obtain ⟨rfl, rfl⟩ := Prod.mk.inj heq
    obtain ⟨hk, rfl⟩ := mem_toList_iff.mp hmem
    exact ⟨⟨k, hk, rfl⟩, h.find_eq k (h.subset k hk)⟩

omit [Std.LawfulEqOrd κ] in
/-- Under a new key stands the changed entity, if there is one. -/
theorem Relabelled.getElem?_eq (h : Relabelled key entity among r r') {k : κ}
    (hk : k ∈ among) : r'[key k]? = r[k]?.map entity := by
  have hmem : key k ∈ r' ↔ k ∈ r := by
    rw [h.mem_iff]
    constructor
    · rintro ⟨k₀, hk₀, heq⟩
      exact h.injOn (h.subset k₀ hk₀) hk heq ▸ hk₀
    · exact fun hkr => ⟨k, hkr, rfl⟩
  rw [getElem?_eq_find, getElem?_eq_find, h.find_eq k hk]
  by_cases hkr : k ∈ r <;> simp [hmem, hkr]

omit [Std.LawfulEqOrd κ] in
/-- A registry without entities has none under other keys. -/
theorem relabelled_empty (hkey : Set.InjOn key among) (hdefault : entity default = default) :
    Relabelled key entity among (∅ : Registry κ α) ∅ := by
  have hnone : ∀ k, k ∉ (∅ : Registry κ α) := fun _ => Std.ExtTreeMap.not_mem_empty
  refine ⟨hkey, fun k hk => absurd hk (hnone k), fun k' => ?_, fun k _ => ?_⟩
  · exact iff_of_false (hnone k') fun ⟨k, hk, _⟩ => hnone k hk
  · rw [find_of_not_mem (hnone _), find_of_not_mem (hnone k), hdefault]

/-- To be relabelled determines a registry. -/
theorem Relabelled.unique {r'' : Registry κ α} (h : Relabelled key entity among r r')
    (h' : Relabelled key entity among r r'') : r' = r'' := by
  apply ext_find
  · intro k'
    rw [h.mem_iff, h'.mem_iff]
  · intro k'
    by_cases hk' : k' ∈ r'
    · obtain ⟨k, hk, rfl⟩ := (h.mem_iff k').mp hk'
      rw [h.find_eq k (h.subset k hk), h'.find_eq k (h.subset k hk)]
    · have hk'' : k' ∉ r'' := by rwa [h'.mem_iff, ← h.mem_iff]
      rw [find_of_not_mem hk', find_of_not_mem hk'']

/-- A registry that is given other keys and entities is relabelled. -/
theorem relabelled_relabel (hkey : Set.InjOn key among) (hsubset : ∀ k ∈ r, k ∈ among)
    (hdefault : entity default = default) :
    Relabelled key entity among r (r.relabel key entity) := by
  classical
  have hmem : ∀ k', k' ∈ r.relabel key entity ↔ ∃ k ∈ r, key k = k' := by
    intro k'
    unfold relabel
    rw [Std.ExtTreeMap.mem_ofList, map_fst_map_toList, List.contains_iff_mem, List.mem_map]
    simp only [Std.ExtTreeMap.mem_keys]
  refine ⟨hkey, hsubset, hmem, fun k hk => ?_⟩
  by_cases hkr : k ∈ r
  · have hentry : (key k, entity (r.find k)) ∈ r.toList.map fun e => (key e.1, entity e.2) :=
      List.mem_map_of_mem (mem_toList_iff.mpr ⟨hkr, rfl⟩)
    -- no other entry has the same new key, so this one is found under it
    have hdistinct := nodup_map_keys entity hkey hsubset
    rw [List.Nodup, List.pairwise_map] at hdistinct
    have hsome : (r.relabel key entity)[key k]? = some (entity (r.find k)) :=
      Std.ExtTreeMap.getElem?_ofList_of_mem Std.ReflCmp.compare_self
        (hdistinct.imp fun hne heq => hne (Std.LawfulEqCmp.eq_of_compare heq)) hentry
    unfold find at hsome ⊢
    rw [hsome]
    rfl
  · have hnot : key k ∉ r.relabel key entity := by
      rw [hmem]
      rintro ⟨k₀, hk₀, heq⟩
      exact hkr (hkey (hsubset k₀ hk₀) hk heq ▸ hk₀)
    rw [find_of_not_mem hnot, find_of_not_mem hkr, hdefault]

omit [Std.LawfulEqOrd κ] in
/-- A test that reads nothing of what is changed keeps relabelled entities. -/
theorem Relabelled.keep {test : α → Bool} (h : Relabelled key entity among r r')
    (htest : ∀ a, test (entity a) = test a) (hempty : test default = false)
    (hdefault : entity default = default) :
    Relabelled key entity among (r.keep test) (r'.keep test) := by
  have hexists : ∀ {r : Registry κ α} {k : κ}, test (r.find k) = true → k ∈ r := by
    intro r k hpass
    by_contra hk
    rw [find_of_not_mem hk, hempty] at hpass
    cases hpass
  have hsame : ∀ k ∈ among, test (r'.find (key k)) = test (r.find k) := by
    intro k hk
    rw [h.find_eq k hk, htest]
  refine ⟨h.injOn, fun k hk => ?_, fun k' => ?_, fun k hk => ?_⟩
  · exact h.subset k (hexists ((r.mem_keep hempty k).mp hk))
  · simp only [mem_keep _ hempty]
    constructor
    · intro hpass
      obtain ⟨k, hk, rfl⟩ := (h.mem_iff k').mp (hexists hpass)
      exact ⟨k, (hsame k (h.subset k hk)).symm.trans hpass, rfl⟩
    · rintro ⟨k, hpass, rfl⟩
      exact (hsame k (h.subset k (hexists hpass))).trans hpass
  · rw [find_keep r' hempty, find_keep r hempty, hsame k hk]
    split
    · exact h.find_eq k hk
    · exact hdefault.symm

end Registry

/-! ## Sessions -/

namespace Renaming

variable (ρ : Renaming)

/-- A transaction whose block is at the new height. -/
def transaction (t : Transaction) : Transaction := { t with height := t.height.map ρ.height }

/-- A block that lists the new names. -/
def block (b : Block) : Block := { b with txIds := b.txIds.map ρ.tx }

/-- A session with the new names and heights. -/
def session (s : Session) : Session where
  blocks := s.blocks.relabel ρ.height ρ.block
  txs := s.txs.relabel ρ.tx ρ.transaction
  window := s.window

/-- The second session is the first one with the new names and heights, where all transactions and
blocks of the first one are among some that the renaming tells apart. -/
structure Renames (ids : Set TxId) (heights : Set Height) (s s' : Session) : Prop where
  /-- The transactions have the new names and heights. -/
  txs : Registry.Relabelled ρ.tx ρ.transaction ids s.txs s'.txs
  /-- The blocks have the new heights and names. -/
  blocks : Registry.Relabelled ρ.height ρ.block heights s.blocks s'.blocks
  /-- The blocks in which transactions were committed are among these. -/
  committedIn : ∀ id height, (s.tx id).height = some height → height ∈ heights
  /-- The window is the same. -/
  window : s'.window = s.window

variable {ρ} {ids : Set TxId} {heights : Set Height} {s s' : Session}

/-- A renamed session is the session with the new names and heights. -/
theorem Renames.eq_session (h : ρ.Renames ids heights s s') : s' = ρ.session s := by
  obtain ⟨blocks, txs, window⟩ := s'
  have htxs : txs = s.txs.relabel ρ.tx ρ.transaction :=
    h.txs.unique (Registry.relabelled_relabel h.txs.injOn h.txs.subset rfl)
  have hblocks : blocks = s.blocks.relabel ρ.height ρ.block :=
    h.blocks.unique (Registry.relabelled_relabel h.blocks.injOn h.blocks.subset rfl)
  have hwindow : window = s.window := h.window
  rw [htxs, hblocks, hwindow]
  rfl

/-- Nothing is recorded before, under whatever names. -/
theorem renames_empty (hids : Set.InjOn ρ.tx ids) (hheights : Set.InjOn ρ.height heights) :
    ρ.Renames ids heights Session.empty Session.empty := by
  refine ⟨Registry.relabelled_empty hids rfl, Registry.relabelled_empty hheights rfl,
    fun id height hheight => ?_, rfl⟩
  rw [Session.tx_empty] at hheight
  cases hheight

/-! ## One effect -/

/-- A renamed effect makes of a renamed transaction what the effect makes of the transaction. -/
theorem onTx_effect {e : Effect} (hids : Set.InjOn ρ.tx ids) (he : ∀ i ∈ e.txIds, i ∈ ids)
    {id : TxId} (hid : id ∈ ids) (t : Transaction) :
    (ρ.effect e).onTx (ρ.tx id) (ρ.transaction t) = ρ.transaction (e.onTx id t) := by
  have hsame : ∀ i, i ∈ e.txIds → (ρ.tx i = ρ.tx id ↔ i = id) :=
    fun i hi => hids.eq_iff (he i hi) hid
  cases e with
  | commit height time committed =>
    have hmem : ρ.tx id ∈ committed.map ρ.tx ↔ id ∈ committed := by
      rw [List.mem_map]
      constructor
      · rintro ⟨i, hi, heq⟩
        exact (hsame i hi).mp heq ▸ hi
      · exact fun hi => ⟨id, hi, rfl⟩
    simp only [effect, Effect.onTx, hmem]
    split <;> rfl
  | send i time | outdate i | conflict i | receive i time | execute i us node =>
    simp only [effect, Effect.onTx, hsame i (.head _)]
    split <;> rfl
  | _ => rfl

/-- A renamed effect makes of a renamed block what the effect makes of the block. -/
theorem onBlock_effect {e : Effect} (hheights : Set.InjOn ρ.height heights)
    (he : ∀ h ∈ e.heights, h ∈ heights) {height : Height} (hheight : height ∈ heights) (b : Block) :
    (ρ.effect e).onBlock (ρ.height height) (ρ.block b) = ρ.block (e.onBlock height b) := by
  have hsame : ∀ h, h ∈ e.heights → (ρ.height h = ρ.height height ↔ h = height) :=
    fun h hh => hheights.eq_iff (he h hh) hheight
  cases e with
  | commit h time committed | endProposal h time | verify h us | mine h us =>
    simp only [effect, Effect.onBlock, hsame h (.head _)]
    split <;> rfl
  | _ => rfl

/-- A renamed effect names the transactions by their new names. -/
theorem txIds_effect (e : Effect) : (ρ.effect e).txIds = e.txIds.map ρ.tx := by
  cases e <;> rfl

/-- A renamed effect names the blocks by their new heights. -/
theorem heights_effect (e : Effect) : (ρ.effect e).heights = e.heights.map ρ.height := by
  cases e <;> rfl

/-- An effect that commits a transaction names the block. -/
theorem mem_heights_of_committed? {e : Effect} {id : TxId} {c : Height × Instant}
    (h : e.committed? id = some c) : c.1 ∈ e.heights := by
  cases e with
  | commit height time committed =>
    obtain ⟨-, heq⟩ := Option.ite_none_right_eq_some.mp h
    cases heq
    exact .head _
  | _ => cases h

/-- A renamed effect makes a renamed session of a renamed one. -/
theorem Renames.apply (h : ρ.Renames ids heights s s') {e : Effect}
    (hetx : ∀ id ∈ e.txIds, id ∈ ids) (heblock : ∀ height ∈ e.heights, height ∈ heights) :
    ρ.Renames ids heights (s.apply e) (s'.apply (ρ.effect e)) := by
  refine ⟨⟨h.txs.injOn, fun id hid => ?_, fun id' => ?_, fun id hid => ?_⟩,
    ⟨h.blocks.injOn, fun height hh => ?_, fun height' => ?_, fun height hh => ?_⟩,
    fun id height hheight => ?_, ?_⟩
  · exact ((s.mem_txs_apply e id).mp hid).elim (h.txs.subset id) (hetx id)
  · rw [s'.mem_txs_apply, h.txs.mem_iff, txIds_effect, List.mem_map]
    simp only [s.mem_txs_apply, or_and_right, exists_or]
  · exact ((s'.tx_apply _ _).trans (congrArg _ (h.txs.find_eq id hid))).trans
      ((onTx_effect h.txs.injOn hetx hid _).trans (congrArg _ (s.tx_apply e id).symm))
  · exact ((s.mem_blocks_apply e height).mp hh).elim (h.blocks.subset height) (heblock height)
  · rw [s'.mem_blocks_apply, h.blocks.mem_iff, heights_effect, List.mem_map]
    simp only [s.mem_blocks_apply, or_and_right, exists_or]
  · exact ((s'.block_apply _ _).trans (congrArg _ (h.blocks.find_eq height hh))).trans
      ((onBlock_effect h.blocks.injOn heblock hh _).trans
        (congrArg _ (s.block_apply e height).symm))
  · -- the height is the one of a commit that the effect makes, or was there before
    obtain ⟨hcommit, -⟩ := Prod.mk.inj (e.onTx_commit (s.tx id) id)
    rw [s.tx_apply, hcommit] at hheight
    cases hc : e.committed? id with
    | none =>
      rw [hc] at hheight
      exact h.committedIn id height hheight
    | some c =>
      rw [hc] at hheight
      cases hheight
      exact heblock _ (mem_heights_of_committed? hc)
  · rw [s'.window_apply, s.window_apply, h.window]
    cases e <;> rfl

/-- Renamed effects make a renamed session of a renamed one. -/
theorem Renames.applyAll (h : ρ.Renames ids heights s s') {effects : List Effect}
    (hetx : ∀ e ∈ effects, ∀ id ∈ e.txIds, id ∈ ids)
    (heblock : ∀ e ∈ effects, ∀ height ∈ e.heights, height ∈ heights) :
    ρ.Renames ids heights (s.applyAll effects) (s'.applyAll (effects.map ρ.effect)) := by
  induction effects generalizing s s' with
  | nil => exact h
  | cons e effects ih =>
    exact ih (h.apply (hetx e (.head _)) (heblock e (.head _)))
      (fun e' he' => hetx e' (.tail _ he')) fun e' he' => heblock e' (.tail _ he')

end Renaming

/-! ## Streams -/

/-- The transactions that the records of a run name. -/
def namedTxs (run : List StreamRecord) : Set TxId :=
  {id | ∃ r ∈ run, r.record.txId = .ok id ∨ ∃ ids, r.record.txIds = .ok ids ∧ id ∈ ids}

/-- The heights of blocks that the records of a run name. -/
def namedHeights (run : List StreamRecord) : Set Height :=
  {height | ∃ r ∈ run, r.record.height = .ok height}

/-- An effect names transactions and blocks that its record names. -/
theorem named_of_tells {run : List StreamRecord} {r : StreamRecord} {e : Effect} (hr : r ∈ run)
    (h : r.Tells e) :
    (∀ id ∈ e.txIds, id ∈ namedTxs run) ∧ ∀ height ∈ e.heights, height ∈ namedHeights run := by
  constructor
  · intro id hid
    cases h with
    | commit names believed ts block txs => exact ⟨r, hr, .inr ⟨_, txs, hid⟩⟩
    | send _ _ _ tx | outdate _ _ tx | conflict _ _ tx | receive _ _ tx | execute _ _ _ tx =>
      cases List.mem_singleton.mp hid
      exact ⟨r, hr, .inl tx⟩
    | _ => cases hid
  · intro height hheight
    cases h with
    | commit _ _ _ block _ | endProposal _ _ block | verify _ _ block | mine _ _ block =>
      cases List.mem_singleton.mp hheight
      exact ⟨r, hr, block⟩
    | _ => cases hheight

/-- The effects of a stream are told by its records. -/
theorem exists_tells_of_mem_effects {stream : Stream} {e : Effect}
    (h : e ∈ (Judged.ofStream stream).effects) : ∃ r ∈ stream.records, r.Tells e := by
  have hjudges : Judges (stream.records.takeWhile StreamRecord.usable)
      ((Judged.ofStream stream).passed.map (·.2)) := Judged.judges_passed
  rw [Judged.effects_eq] at h
  obtain ⟨r, hr, htells⟩ := hjudges.told.exists_tells h
  exact ⟨r, List.takeWhile_subset _ hr, htells⟩

namespace Renaming

variable {ρ : Renaming} {ids : Set TxId} {heights : Set Height} {s s' : Session}

/-- Replaying a renamed stream has the same outcome and the same notices, and leaves the renamed
session. -/
theorem Renames.replay (h : ρ.Renames ids heights s s') {stream : Stream}
    (htxs : namedTxs stream.records ⊆ ids) (hblocks : namedHeights stream.records ⊆ heights) :
    (s'.replay (ρ.stream stream)).outcome = (s.replay stream).outcome ∧
      (s'.replay (ρ.stream stream)).notices = (s.replay stream).notices ∧
        ρ.Renames ids heights (s.replay stream).session (s'.replay (ρ.stream stream)).session := by
  have hjudged : Judged.ofStream (ρ.stream stream) = ρ.judged (Judged.ofStream stream) :=
    ρ.ofEntries_map stream.source.role stream.entries
  unfold Session.replay
  rw [hjudged]
  dsimp only
  rw [effects_judged, tally_judged, notices_judged]
  refine ⟨rfl, rfl, h.applyAll (fun e he id hid => ?_) fun e he height hh => ?_⟩
  · obtain ⟨r, hr, htells⟩ := exists_tells_of_mem_effects he
    exact htxs ((named_of_tells hr htells).1 id hid)
  · obtain ⟨r, hr, htells⟩ := exists_tells_of_mem_effects he
    exact hblocks ((named_of_tells hr htells).2 height hh)

/-- So it is with streams that are replayed one after the other. -/
theorem Renames.replayAll (h : ρ.Renames ids heights s s') {streams : List Stream}
    (htxs : ∀ stream ∈ streams, namedTxs stream.records ⊆ ids)
    (hblocks : ∀ stream ∈ streams, namedHeights stream.records ⊆ heights) :
    (s'.replayAll (streams.map ρ.stream)).outcome = (s.replayAll streams).outcome ∧
      (s'.replayAll (streams.map ρ.stream)).notices = (s.replayAll streams).notices ∧
        ρ.Renames ids heights (s.replayAll streams).session
          (s'.replayAll (streams.map ρ.stream)).session := by
  induction streams generalizing s s' with
  | nil => exact ⟨rfl, rfl, h⟩
  | cons stream rest ih =>
    obtain ⟨hout, hnotices, hone⟩ := h.replay (htxs stream (.head _)) (hblocks stream (.head _))
    rw [List.map_cons]
    unfold Session.replayAll
    dsimp only
    rw [hout, hnotices]
    cases (s.replay stream).outcome with
    | error fault => exact ⟨rfl, rfl, hone⟩
    | ok tally =>
      obtain ⟨hrest, hmore, hall⟩ := ih hone (fun other hother => htxs other (.tail _ hother))
        fun other hother => hblocks other (.tail _ hother)
      dsimp only
      rw [hmore]
      exact ⟨hrest, rfl, hall⟩

end Renaming

end LedgerBench
