import LedgerBench.Proofs.Ledger.Records
import LedgerBench.Proofs.Ledger.Writes

/-!
# The last write wins

Each of the questions that a session answers (when was this transaction sent, in which block and
when was it committed, how long did the mining of this block take, ...) is answered by effects of
one kind, and every such effect overwrites the answer. `lastTold` is the answer of the last effect
of a list that has one. `LastWrites s effects s'` says, field by field, that `s'` is what `s`
becomes when every question takes its last answer, and that the entities of `s'` are those of `s`
and those that some effect names.

`applyAll_lastWrites` shows this of carrying out effects one after the other. It follows from one
equation for each question, which says what a single effect does to the answer, and one induction
over the effects (`view_applyAll`). `LastWrites.unique` says that nothing is left open: the last
writes determine the session. `applyRecords_lastWrites` puts both together for runs of records.
-/

namespace LedgerBench

/-- The last answer that a list of effects gives to a question. -/
def lastTold {β : Type} (question : Effect → Option β) (effects : List Effect) : Option β :=
  (effects.filterMap question).getLast?

namespace Effect

/-- When did the client begin to send? -/
def opened? : Effect → Option Instant
  | .openWindow time => some time
  | _ => none

/-- When had the client sent everything, and which rate did it report with that? -/
def closed? : Effect → Option (Instant × Option Float)
  | .closeWindow time rate => some (time, rate)
  | _ => none

/-- When was the transaction sent? -/
def sent? (id : TxId) : Effect → Option Instant
  | .send i time => if i = id then some time else none
  | _ => none

/-- When did the proposer receive the transaction? -/
def received? (id : TxId) : Effect → Option Instant
  | .receive i time => if i = id then some time else none
  | _ => none

/-- In which block and when was the transaction committed? -/
def committed? (id : TxId) : Effect → Option (Height × Instant)
  | .commit height time ids => if id ∈ ids then some (height, time) else none
  | _ => none

/-- How long did the execution of the transaction take, and on which storage node? -/
def executed? (id : TxId) : Effect → Option (Float × Nat)
  | .execute i us node => if i = id then some (us, node) else none
  | _ => none

/-- When was the block committed, and with which transactions? -/
def blockCommitted? (height : Height) : Effect → Option (Instant × List TxId)
  | .commit h time ids => if h = height then some (time, ids) else none
  | _ => none

/-- When did the proposal of the block end? -/
def proposed? (height : Height) : Effect → Option Instant
  | .endProposal h time => if h = height then some time else none
  | _ => none

/-- How long did the verification of the block take? -/
def verified? (height : Height) : Effect → Option Float
  | .verify h us => if h = height then some us else none
  | _ => none

/-- How long did the mining of the block take? -/
def mined? (height : Height) : Effect → Option Float
  | .mine h us => if h = height then some us else none
  | _ => none

end Effect

/-- The session `s'` is what `s` becomes by the last writes of some effects. -/
structure LastWrites (s : Session) (effects : List Effect) (s' : Session) : Prop where
  /-- A transaction exists if it did before or an effect names it. -/
  mem_txs : ∀ id, id ∈ s'.txs ↔ id ∈ s.txs ∨ ∃ e ∈ effects, id ∈ e.txIds
  /-- A block exists if it did before or an effect names it. -/
  mem_blocks : ∀ height, height ∈ s'.blocks ↔ height ∈ s.blocks ∨ ∃ e ∈ effects, height ∈ e.heights
  /-- The send time is that of the last sending. -/
  sendTime : ∀ id, (s'.tx id).sendTime =
    (lastTold (Effect.sent? id) effects).or (s.tx id).sendTime
  /-- The reception is the last one. -/
  receiveTime : ∀ id, (s'.tx id).receiveTime =
    (lastTold (Effect.received? id) effects).or (s.tx id).receiveTime
  /-- Height and commit time are both those of the last commit that lists the transaction. -/
  commit : ∀ id, ((s'.tx id).height, (s'.tx id).commitTime) =
    ((lastTold (Effect.committed? id) effects).map fun c => (some c.1, some c.2)).getD
      ((s.tx id).height, (s.tx id).commitTime)
  /-- Execution time and node are both those of the last execution. -/
  exec : ∀ id, ((s'.tx id).execTime, (s'.tx id).execNode) =
    ((lastTold (Effect.executed? id) effects).map fun x => (some x.1, some x.2)).getD
      ((s.tx id).execTime, (s.tx id).execNode)
  /-- A transaction is outdated if it was before or an effect says so. -/
  outdated : ∀ id, (s'.tx id).outdated = true ↔
    (s.tx id).outdated = true ∨ Effect.outdate id ∈ effects
  /-- A transaction is in conflict if it was before or an effect says so. -/
  conflicted : ∀ id, (s'.tx id).conflicted = true ↔
    (s.tx id).conflicted = true ∨ Effect.conflict id ∈ effects
  /-- Commit time and list of transactions are both those of the last commit of the block. -/
  blockCommit : ∀ height, ((s'.block height).commitTime, (s'.block height).txIds) =
    ((lastTold (Effect.blockCommitted? height) effects).map fun c => (some c.1, c.2)).getD
      ((s.block height).commitTime, (s.block height).txIds)
  /-- The end of the proposal is the last one. -/
  proposeEnd : ∀ height, (s'.block height).proposeEnd =
    (lastTold (Effect.proposed? height) effects).or (s.block height).proposeEnd
  /-- The verification time is the last one. -/
  verifyTime : ∀ height, (s'.block height).verifyTime =
    (lastTold (Effect.verified? height) effects).or (s.block height).verifyTime
  /-- The mining time is the last one. -/
  miningTime : ∀ height, (s'.block height).miningTime =
    (lastTold (Effect.mined? height) effects).or (s.block height).miningTime
  /-- The window begins where it was last opened. -/
  start : s'.window.start = (lastTold Effect.opened? effects).or s.window.start
  /-- End and reported rate are both those of the last closing, which may report no rate. -/
  stop : (s'.window.stop, s'.window.reportedRate) =
    ((lastTold Effect.closed? effects).map fun c => (some c.1, c.2)).getD
      (s.window.stop, s.window.reportedRate)
  /-- Effects do not count what was sent. -/
  sentCount : s'.window.sentCount = s.window.sentCount

/-! ## One effect -/

namespace Effect

variable (e : Effect) (t : Transaction) (b : Block) (w : SendWindow)

/-- An effect sets the send time exactly if it sends the transaction. -/
theorem onTx_sendTime (id : TxId) :
    (e.onTx id t).sendTime = (e.sent? id).or t.sendTime := by
  cases e <;> grind [onTx, sent?]

/-- An effect sets the time of reception exactly if the proposer receives the transaction. -/
theorem onTx_receiveTime (id : TxId) :
    (e.onTx id t).receiveTime = (e.received? id).or t.receiveTime := by
  cases e <;> grind [onTx, received?]

/-- An effect sets height and commit time exactly if it commits the transaction. -/
theorem onTx_commit (id : TxId) : ((e.onTx id t).height, (e.onTx id t).commitTime) =
    ((e.committed? id).map fun c => (some c.1, some c.2)).getD (t.height, t.commitTime) := by
  cases e <;> grind [onTx, committed?]

/-- An effect sets execution time and node exactly if it executes the transaction. -/
theorem onTx_exec (id : TxId) : ((e.onTx id t).execTime, (e.onTx id t).execNode) =
    ((e.executed? id).map fun x => (some x.1, some x.2)).getD (t.execTime, t.execNode) := by
  cases e <;> grind [onTx, executed?]

/-- An effect makes a transaction outdated exactly if it says so. -/
theorem onTx_outdated (id : TxId) :
    (e.onTx id t).outdated = true ↔ t.outdated = true ∨ outdate id = e := by
  cases e <;> grind [onTx]

/-- An effect puts a transaction in conflict exactly if it says so. -/
theorem onTx_conflicted (id : TxId) :
    (e.onTx id t).conflicted = true ↔ t.conflicted = true ∨ conflict id = e := by
  cases e <;> grind [onTx]

/-- An effect sets commit time and transactions exactly if it commits the block. -/
theorem onBlock_commit (height : Height) :
    ((e.onBlock height b).commitTime, (e.onBlock height b).txIds) =
      ((e.blockCommitted? height).map fun c => (some c.1, c.2)).getD (b.commitTime, b.txIds) := by
  cases e <;> grind [onBlock, blockCommitted?]

/-- An effect sets the end of the proposal exactly if it ends the proposal of the block. -/
theorem onBlock_proposeEnd (height : Height) :
    (e.onBlock height b).proposeEnd = (e.proposed? height).or b.proposeEnd := by
  cases e <;> grind [onBlock, proposed?]

/-- An effect sets the verification time exactly if it verifies the block. -/
theorem onBlock_verifyTime (height : Height) :
    (e.onBlock height b).verifyTime = (e.verified? height).or b.verifyTime := by
  cases e <;> grind [onBlock, verified?]

/-- An effect sets the mining time exactly if it mines the block. -/
theorem onBlock_miningTime (height : Height) :
    (e.onBlock height b).miningTime = (e.mined? height).or b.miningTime := by
  cases e <;> grind [onBlock, mined?]

/-- An effect sets the beginning of the window exactly if it opens it. -/
theorem onWindow_start : (e.onWindow w).start = e.opened?.or w.start := by
  cases e <;> rfl

/-- An effect sets the end of the window and the reported rate exactly if it closes it. -/
theorem onWindow_stop : ((e.onWindow w).stop, (e.onWindow w).reportedRate) =
    (e.closed?.map fun c => (some c.1, c.2)).getD (w.stop, w.reportedRate) := by
  cases e <;> rfl

/-- No effect counts what was sent. -/
theorem onWindow_sentCount : (e.onWindow w).sentCount = w.sentCount := by
  cases e <;> rfl

end Effect

/-! ## Many effects -/

section Many

variable {β γ : Type} {question : Effect → Option β}

/-- A later answer takes the place of the first one. -/
theorem lastTold_cons (e : Effect) (effects : List Effect) :
    lastTold question (e :: effects) = (lastTold question effects).or (question e) := by
  unfold lastTold
  cases he : question e with
  | none => rw [List.filterMap_cons_none he, Option.or_none]
  | some answer =>
    rw [List.filterMap_cons_some he, List.getLast?_cons]
    cases (effects.filterMap question).getLast? <;> rfl

/-- What one effect does to a view of a session by its answer to a question, many effects do by
their last answer. -/
theorem view_applyAll {put : β → γ} (view : Session → γ)
    (step : ∀ s e, view (s.apply e) = ((question e).map put).getD (view s)) (s : Session)
    (effects : List Effect) :
    view (s.applyAll effects) = ((lastTold question effects).map put).getD (view s) := by
  induction effects generalizing s with
  | nil => rfl
  | cons e effects ih =>
    have hrest := ih (s.apply e)
    rw [step] at hrest
    rw [lastTold_cons]
    -- the first answer stands only if no later effect has one
    cases hlast : lastTold question effects with
    | none =>
      rw [hlast] at hrest
      exact hrest
    | some answer =>
      rw [hlast] at hrest
      exact hrest

/-- What one effect does to an optional view of a session by answering a question, many effects do
by their last answer. -/
theorem answer_applyAll (view : Session → Option β)
    (step : ∀ s e, view (s.apply e) = (question e).or (view s)) (s : Session)
    (effects : List Effect) :
    view (s.applyAll effects) = (lastTold question effects).or (view s) := by
  have hmap : ∀ o o' : Option β, (o.map some).getD o' = o.or o' := by
    intro o o'
    cases o <;> rfl
  rw [← hmap]
  refine view_applyAll view (fun s e => ?_) s effects
  rw [step, hmap]

/-- What one effect makes true of a session and none makes false is true in the end if it was so in
the beginning or an effect has made it true. -/
theorem flag_applyAll (flag : Session → Prop) {raises : Effect → Prop}
    (step : ∀ s e, flag (s.apply e) ↔ flag s ∨ raises e) (s : Session) (effects : List Effect) :
    flag (s.applyAll effects) ↔ flag s ∨ ∃ e ∈ effects, raises e := by
  induction effects generalizing s with
  | nil => simp [Session.applyAll]
  | cons e effects ih =>
    have hrest := ih (s.apply e)
    rw [step] at hrest
    simp only [List.mem_cons, exists_eq_or_imp, ← or_assoc]
    exact hrest

end Many

/-- Effects that are carried out one after the other write as their last ones do. -/
theorem applyAll_lastWrites (s : Session) (effects : List Effect) :
    LastWrites s effects (s.applyAll effects) where
  mem_txs id := flag_applyAll (fun s => id ∈ s.txs) (fun s e => s.mem_txs_apply e id) s effects
  mem_blocks height := flag_applyAll (fun s => height ∈ s.blocks)
    (fun s e => s.mem_blocks_apply e height) s effects
  sendTime id := answer_applyAll (fun s => (s.tx id).sendTime)
    (fun s e => by rw [s.tx_apply, e.onTx_sendTime]) s effects
  receiveTime id := answer_applyAll (fun s => (s.tx id).receiveTime)
    (fun s e => by rw [s.tx_apply, e.onTx_receiveTime]) s effects
  commit id := view_applyAll (fun s => ((s.tx id).height, (s.tx id).commitTime))
    (fun s e => by rw [s.tx_apply, e.onTx_commit]) s effects
  exec id := view_applyAll (fun s => ((s.tx id).execTime, (s.tx id).execNode))
    (fun s e => by rw [s.tx_apply, e.onTx_exec]) s effects
  outdated id := by
    have h := flag_applyAll (fun s => (s.tx id).outdated = true)
      (fun s e => by rw [s.tx_apply, e.onTx_outdated]) s effects
    rwa [exists_eq_right'] at h
  conflicted id := by
    have h := flag_applyAll (fun s => (s.tx id).conflicted = true)
      (fun s e => by rw [s.tx_apply, e.onTx_conflicted]) s effects
    rwa [exists_eq_right'] at h
  blockCommit height := view_applyAll
    (fun s => ((s.block height).commitTime, (s.block height).txIds))
    (fun s e => by rw [s.block_apply, e.onBlock_commit]) s effects
  proposeEnd height := answer_applyAll (fun s => (s.block height).proposeEnd)
    (fun s e => by rw [s.block_apply, e.onBlock_proposeEnd]) s effects
  verifyTime height := answer_applyAll (fun s => (s.block height).verifyTime)
    (fun s e => by rw [s.block_apply, e.onBlock_verifyTime]) s effects
  miningTime height := answer_applyAll (fun s => (s.block height).miningTime)
    (fun s e => by rw [s.block_apply, e.onBlock_miningTime]) s effects
  start := answer_applyAll (fun s => s.window.start)
    (fun s e => by rw [s.window_apply, e.onWindow_start]) s effects
  stop := view_applyAll (fun s => (s.window.stop, s.window.reportedRate))
    (fun s e => by rw [s.window_apply, e.onWindow_stop]) s effects
  sentCount := by
    induction effects generalizing s with
    | nil => rfl
    | cons e effects ih =>
      refine (ih (s.apply e)).trans ?_
      rw [s.window_apply, e.onWindow_sentCount]

attribute [ext] Transaction Block SendWindow

/-- The last writes determine the session. -/
theorem LastWrites.unique {s s₁ s₂ : Session} {effects : List Effect}
    (h₁ : LastWrites s effects s₁) (h₂ : LastWrites s effects s₂) : s₁ = s₂ := by
  apply Session.ext_of_views
  · intro id
    rw [h₁.mem_txs, h₂.mem_txs]
  · -- every field of a transaction has its last write; some share one
    intro id
    obtain ⟨hheight, hcommit⟩ := Prod.mk.inj ((h₁.commit id).trans (h₂.commit id).symm)
    obtain ⟨htime, hnode⟩ := Prod.mk.inj ((h₁.exec id).trans (h₂.exec id).symm)
    refine Transaction.ext hheight ?_ ?_ hcommit htime hnode ?_ ?_
    · rw [h₁.sendTime, h₂.sendTime]
    · rw [h₁.receiveTime, h₂.receiveTime]
    · rw [Bool.eq_iff_iff, h₁.outdated, h₂.outdated]
    · rw [Bool.eq_iff_iff, h₁.conflicted, h₂.conflicted]
  · intro height
    rw [h₁.mem_blocks, h₂.mem_blocks]
  · -- and so has every field of a block
    intro height
    obtain ⟨hcommit, hids⟩ :=
      Prod.mk.inj ((h₁.blockCommit height).trans (h₂.blockCommit height).symm)
    refine Block.ext hcommit hids ?_ ?_ ?_
    · rw [h₁.miningTime, h₂.miningTime]
    · rw [h₁.verifyTime, h₂.verifyTime]
    · rw [h₁.proposeEnd, h₂.proposeEnd]
  · obtain ⟨hstop, hrate⟩ := Prod.mk.inj (h₁.stop.trans h₂.stop.symm)
    refine SendWindow.ext ?_ hstop hrate ?_
    · rw [h₁.start, h₂.start]
    · rw [h₁.sentCount, h₂.sentCount]

/-! ## Runs of records -/

/-- A run of records that can all be used leaves behind the session that the last writes of its
accepted records make of the first one, and no other session agrees with these. -/
theorem applyRecords_lastWrites {s s' : Session} {run : List StreamRecord} {vs : List Verdict}
    (h : s.applyRecords run = .ok (vs, s')) :
    ∃ effects, Told run effects ∧ LastWrites s effects s' ∧
      ∀ s'', LastWrites s effects s'' → s'' = s' := by
  obtain ⟨effects, htold, rfl⟩ := Session.told_of_applyRecords h
  have hlast := applyAll_lastWrites s effects
  exact ⟨effects, htold, hlast, fun s'' h'' => h''.unique hlast⟩

/-- A transaction is executed on two nodes and committed in two blocks, in one of them twice; the
client also logs an execution, which is passed over. -/
def contestedRun : List StreamRecord :=
  [⟨.client, .event "tx_begin" "2021-01-01T00:00:00Z" [("tx_id", .text "a")]⟩,
    ⟨.storage 2, .measured "exec_time" 30 [("tx_id", .text "a")]⟩,
    ⟨.client, .event "tx_commit" "2021-01-01T00:00:01Z"
      [("height", .number (.integer 7)), ("tx_ids", .array [.text "a", .text "b", .text "a"])]⟩,
    ⟨.storage 1, .measured "exec_time" 20 [("tx_id", .text "a")]⟩,
    ⟨.client, .measured "exec_time" 10 [("tx_id", .text "a")]⟩,
    ⟨.client, .event "tx_commit" "2021-01-01T00:00:02Z"
      [("height", .number (.integer 8)), ("tx_ids", .array [.text "a"])]⟩]

/-- In the contested run the second execution and the second commit win. -/
theorem applyRecords_lastWrites_contested :
    ∃ vs s', Session.empty.applyRecords contestedRun = .ok (vs, s') ∧
      (s'.tx "a").execNode = some 1 ∧ (s'.tx "a").height = some 8 ∧ (s'.tx "b").height = some 7 ∧
      ∃ effects, Told contestedRun effects ∧ LastWrites Session.empty effects s' ∧
        ∀ s'', LastWrites Session.empty effects s'' → s'' = s' :=
  ⟨_, _, rfl, rfl, rfl, rfl, applyRecords_lastWrites rfl⟩

end LedgerBench
