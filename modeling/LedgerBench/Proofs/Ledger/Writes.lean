import LedgerBench.Ledger.Session
import LedgerBench.Proofs.Ledger.Registry

/-!
# What an effect writes

One effect changes a session in three places: the transactions that it names, the block that it
names, and the send window. `Session.tx` and `Session.block` read an entity that does not exist as
one about which nothing is recorded, so that each place has one equation for every effect:
`tx_apply`, `block_apply`, and `window_apply` say what becomes of it, `mem_txs_apply` and
`mem_blocks_apply` which entities come into being. A commit writes to many transactions at once;
`tx_commitTxs` sums up its loop, which may meet a transaction more than once.

Nothing else about a session is ever used: two sessions with the same entities, the same data, and
the same window are equal (`Session.ext_of_views`).
-/

namespace LedgerBench

namespace Effect

/-- The transactions that an effect names. -/
def txIds : Effect → List TxId
  | .send id _ | .outdate id | .conflict id | .receive id _ | .execute id _ _ => [id]
  | .commit _ _ ids => ids
  | _ => []

/-- The blocks that an effect names: one or none. -/
def heights : Effect → List Height
  | .commit height _ _ | .endProposal height _ | .verify height _ | .mine height _ => [height]
  | _ => []

/-- What an effect makes of the transaction `id`. -/
def onTx (id : TxId) (e : Effect) (t : Transaction) : Transaction :=
  match e with
  | .send i time => if i = id then { t with sendTime := some time } else t
  | .commit height time ids =>
    if id ∈ ids then { t with height := some height, commitTime := some time } else t
  | .outdate i => if i = id then { t with outdated := true } else t
  | .conflict i => if i = id then { t with conflicted := true } else t
  | .receive i time => if i = id then { t with receiveTime := some time } else t
  | .execute i us node =>
    if i = id then { t with execTime := some us, execNode := some node } else t
  | _ => t

/-- What an effect makes of the block at `height`. -/
def onBlock (height : Height) (e : Effect) (b : Block) : Block :=
  match e with
  | .commit h time ids => if h = height then { b with commitTime := some time, txIds := ids } else b
  | .endProposal h time => if h = height then { b with proposeEnd := some time } else b
  | .verify h us => if h = height then { b with verifyTime := some us } else b
  | .mine h us => if h = height then { b with miningTime := some us } else b
  | _ => b

/-- What an effect makes of the send window. -/
def onWindow (e : Effect) (w : SendWindow) : SendWindow :=
  match e with
  | .openWindow time => { w with start := some time }
  | .closeWindow time rate => { w with stop := some time, reportedRate := rate }
  | _ => w

end Effect

namespace Session

/-- What is recorded about a transaction; nothing if it does not exist. -/
def tx (s : Session) (id : TxId) : Transaction := s.txs.find id

/-- What is recorded about a block; nothing if it does not exist. -/
def block (s : Session) (height : Height) : Block := s.blocks.find height

/-- Nothing is recorded about a transaction before the first record. -/
theorem tx_empty (id : TxId) : empty.tx id = {} :=
  Registry.find_of_not_mem Std.ExtTreeMap.not_mem_empty

/-- Nothing is recorded about a block before the first record. -/
theorem block_empty (height : Height) : empty.block height = {} :=
  Registry.find_of_not_mem Std.ExtTreeMap.not_mem_empty

/-! ## Committing the transactions of a block -/

/-- Committing transactions writes to exactly those in the list, however often they occur. -/
theorem tx_commitTxs (s : Session) (height : Height) (time : Instant) (ids : List TxId)
    (id : TxId) :
    (s.commitTxs height time ids).tx id =
      if id ∈ ids then { s.tx id with height := some height, commitTime := some time }
      else s.tx id := by
  induction ids generalizing s with
  | nil => rfl
  | cons i ids ih =>
    unfold commitTxs at ih ⊢
    rw [List.foldl_cons, ih, updateTx, tx, Registry.find_update, ← tx]
    by_cases hi : i = id
    · -- a later occurrence writes the same again
      subst hi
      simp
    · simp [hi, Ne.symm hi]

/-- Committing transactions brings exactly those in the list into being. -/
theorem mem_txs_commitTxs (s : Session) (height : Height) (time : Instant) (ids : List TxId)
    (id : TxId) : id ∈ (s.commitTxs height time ids).txs ↔ id ∈ s.txs ∨ id ∈ ids := by
  induction ids generalizing s with
  | nil => simp [commitTxs]
  | cons i ids ih =>
    unfold commitTxs at ih ⊢
    rw [List.foldl_cons, ih, updateTx, Registry.mem_update, List.mem_cons, or_assoc]

/-- Committing transactions changes neither a block nor the send window. -/
theorem commitTxs_frame (s : Session) (height : Height) (time : Instant) (ids : List TxId) :
    (s.commitTxs height time ids).blocks = s.blocks ∧
      (s.commitTxs height time ids).window = s.window := by
  induction ids generalizing s with
  | nil => exact ⟨rfl, rfl⟩
  | cons i ids ih =>
    unfold commitTxs at ih ⊢
    rw [List.foldl_cons]
    obtain ⟨hblocks, hwindow⟩ := ih (s.updateTx i _)
    exact ⟨hblocks, hwindow⟩

/-! ## One effect -/

/-- What an effect makes of a transaction. -/
theorem tx_apply (s : Session) (e : Effect) (id : TxId) :
    (s.apply e).tx id = e.onTx id (s.tx id) := by
  cases e with
  | commit height time ids => exact tx_commitTxs s height time ids id
  | openWindow time | closeWindow time rate => rfl
  | send i time | outdate i | conflict i | receive i time | execute i us node =>
    exact Registry.find_update s.txs i id _
  | endProposal h time | verify h us | mine h us => rfl

/-- What an effect makes of a block. -/
theorem block_apply (s : Session) (e : Effect) (height : Height) :
    (s.apply e).block height = e.onBlock height (s.block height) := by
  cases e with
  | commit h time ids =>
    unfold apply updateBlock block
    dsimp only
    rw [(s.commitTxs_frame h time ids).1, Registry.find_update]
    rfl
  | openWindow time | closeWindow time rate => rfl
  | send i time | outdate i | conflict i | receive i time | execute i us node => rfl
  | endProposal h time | verify h us | mine h us => exact Registry.find_update s.blocks h height _

/-- What an effect makes of the send window. -/
theorem window_apply (s : Session) (e : Effect) : (s.apply e).window = e.onWindow s.window := by
  cases e with
  | commit h time ids => exact (s.commitTxs_frame h time ids).2
  | _ => rfl

/-- An effect brings the transactions that it names into being. -/
theorem mem_txs_apply (s : Session) (e : Effect) (id : TxId) :
    id ∈ (s.apply e).txs ↔ id ∈ s.txs ∨ id ∈ e.txIds := by
  cases e with
  | commit h time ids => exact mem_txs_commitTxs s h time ids id
  | openWindow time | closeWindow time rate => simp [apply, Effect.txIds]
  | send i time | outdate i | conflict i | receive i time | execute i us node =>
    simp only [apply, Effect.txIds, updateTx, Registry.mem_update, List.mem_singleton]
  | endProposal h time | verify h us | mine h us => simp [apply, updateBlock, Effect.txIds]

/-- An effect brings the block that it names into being. -/
theorem mem_blocks_apply (s : Session) (e : Effect) (height : Height) :
    height ∈ (s.apply e).blocks ↔ height ∈ s.blocks ∨ height ∈ e.heights := by
  cases e with
  | commit h time ids =>
    simp only [apply, Effect.heights, updateBlock, Registry.mem_update,
      (s.commitTxs_frame h time ids).1, List.mem_singleton]
  | openWindow time | closeWindow time rate => simp [apply, Effect.heights]
  | send i time | outdate i | conflict i | receive i time | execute i us node =>
    simp [apply, updateTx, Effect.heights]
  | endProposal h time | verify h us | mine h us =>
    simp only [apply, Effect.heights, updateBlock, Registry.mem_update, List.mem_singleton]

/-! ## Equal sessions -/

/-- Two sessions are equal if they have the same entities, record the same about each, and have the
same send window. -/
theorem ext_of_views {s s' : Session} (htxs : ∀ id, id ∈ s.txs ↔ id ∈ s'.txs)
    (htx : ∀ id, s.tx id = s'.tx id) (hblocks : ∀ height, height ∈ s.blocks ↔ height ∈ s'.blocks)
    (hblock : ∀ height, s.block height = s'.block height) (hwindow : s.window = s'.window) :
    s = s' := by
  have ht : s.txs = s'.txs := Registry.ext_find htxs htx
  have hb : s.blocks = s'.blocks := Registry.ext_find hblocks hblock
  cases s
  cases s'
  simp_all only

end Session

end LedgerBench
