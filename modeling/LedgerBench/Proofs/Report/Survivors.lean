import LedgerBench.Proofs.Ledger.Absorbed
import LedgerBench.Proofs.Ledger.Coherence
import LedgerBench.Proofs.Ledger.Window
import LedgerBench.Proofs.Report.ClientMetrics
import LedgerBench.Report.Samples

/-!
# A surviving transaction keeps its block

Transactions and blocks are dropped by two different tests, and the series over transactions take
some of their samples from the blocks. `applyWindow_keepsBlock` shows that no such sample is lost:
if no height is committed twice, then the block of every surviving transaction that was committed
after it was sent survives as well, and the samples are what the records told last.

The two tests read different times, the send time of the transaction and the commit time of the
block. What ties them is an invariant of the session (`Matched`): the block at the height of a
transaction was committed at the same time and lists the transaction. An effect keeps it as long as
it commits no block again, because a block that lists a transaction has been committed already
(`Coherent.block`).
-/

namespace LedgerBench

/-- The height at which an effect commits a block. -/
def Effect.committedHeight? : Effect → Option Height
  | .commit height _ _ => some height
  | _ => none

/-- An effect that does not commit a block leaves its commit time as it is. -/
theorem Effect.commitTime_onBlock_of_ne {e : Effect} {height : Height} (b : Block)
    (h : e.committedHeight? ≠ some height) : (e.onBlock height b).commitTime = b.commitTime := by
  obtain ⟨htime, -⟩ := Prod.mk.inj (e.onBlock_commit b height)
  rw [htime]
  cases hc : e.blockCommitted? height with
  | none => rfl
  | some c =>
    rw [Effect.blockCommitted?_eq_some_iff.mp hc] at h
    exact absurd rfl h

/-! ## Transactions and their blocks -/

/-- Every transaction with a height was committed together with the block there, which lists it. -/
def Matched (s : Session) : Prop :=
  ∀ id height, (s.tx id).height = some height →
    (s.block height).commitTime = (s.tx id).commitTime ∧ id ∈ (s.block height).txIds

namespace Matched

variable {s : Session}

/-- In a session without records no transaction has a height. -/
theorem empty : Matched Session.empty := by
  intro id height hat
  rw [Session.tx_empty] at hat
  cases hat

/-- An effect that commits no block again keeps transactions and blocks matched. -/
theorem apply (h : Matched s) (hcoherent : Coherent s) (e : Effect)
    (hfresh : ∀ height, e.committedHeight? = some height → (s.block height).commitTime = none) :
    Matched (s.apply e) := by
  intro id height hat
  obtain ⟨hheight, htime⟩ := Prod.mk.inj (e.onTx_commit (s.tx id) id)
  obtain ⟨hblock, hids⟩ := Prod.mk.inj (e.onBlock_commit (s.block height) height)
  rw [s.tx_apply, hheight] at hat
  rw [s.tx_apply, s.block_apply, htime, hblock, hids]
  cases hc : e.committed? id with
  | some c =>
    -- the transaction has just been committed, and with it the block
    rw [hc] at hat
    cases hat
    obtain ⟨ids, rfl, hid⟩ := Effect.committed?_eq_some_iff.mp hc
    have hb : (Effect.commit c.1 c.2 ids).blockCommitted? c.1 = some (c.2, ids) := if_pos rfl
    rw [hb]
    exact ⟨rfl, hid⟩
  | none =>
    rw [hc] at hat
    cases hb : e.blockCommitted? height with
    | none => exact h id height hat
    | some c =>
      -- the block would be committed again
      have hcommit := Effect.blockCommitted?_eq_some_iff.mp hb
      have hnone := hfresh height (by rw [hcommit]; rfl)
      have hsome := (hcoherent.block id height hat).2
      rw [hnone] at hsome
      cases hsome

/-- Effects that commit every block at most once keep transactions and blocks matched. -/
theorem applyAll (h : Matched s) (hcoherent : Coherent s) {effects : List Effect}
    (honce : (effects.filterMap Effect.committedHeight?).Nodup)
    (hfresh : ∀ e ∈ effects, ∀ height, e.committedHeight? = some height →
      (s.block height).commitTime = none) : Matched (s.applyAll effects) := by
  induction effects generalizing s with
  | nil => exact h
  | cons e effects ih =>
    unfold List.Nodup at honce ih
    rw [List.pairwise_filterMap] at honce ih
    obtain ⟨hlater, honce⟩ := List.pairwise_cons.mp honce
    refine ih (h.apply hcoherent e (hfresh e List.mem_cons_self)) (hcoherent.apply e) honce ?_
    intro e' he' height hheight
    -- the first effect does not commit the block of a later one
    have hne : e.committedHeight? ≠ some height :=
      fun heq => hlater e' he' height heq height hheight rfl
    rw [s.block_apply, Effect.commitTime_onBlock_of_ne _ hne]
    exact hfresh e' (List.mem_cons_of_mem _ he') height hheight

end Matched

/-! ## Samples -/

namespace TxSamples

/-- The samples of some transactions and then those of others. -/
def append (a b : TxSamples) : TxSamples where
  latency := a.latency ++ b.latency
  execTime := a.execTime ++ b.execTime
  proposeTime := a.proposeTime ++ b.proposeTime
  miningTime := a.miningTime ++ b.miningTime
  verifyTime := a.verifyTime ++ b.verifyTime

instance : Append TxSamples := ⟨append⟩

/-- Samples are collected from one transaction after the other. -/
theorem collect_append (blockAt : Height → Option Block) (a b : List Transaction) :
    collect blockAt (a ++ b) = collect blockAt a ++ collect blockAt b := by
  change collect blockAt (a ++ b) = (collect blockAt a).append (collect blockAt b)
  unfold collect append
  simp only [List.filter_append, List.filterMap_append, List.map_append]

/-- The samples of one committed transaction, read off what was told last: of its sending and
commit, of its execution and reception, and of the mining, the verification and the proposal of the
block at its height. Execution and mining count as zero if nothing was told of them; a verification
and a proposal give a sample only if they were told of. -/
def told (effects : List Effect) (id : TxId) (height : Height) (sent committed : Instant) :
    TxSamples where
  latency := [sent.elapsed committed]
  execTime := [((lastTold (Effect.executed? id) effects).map (·.1)).getD 0.0]
  proposeTime := ((lastTold (Effect.received? id) effects).bind fun received =>
    (lastTold (Effect.proposed? height) effects).map received.elapsed).toList
  miningTime := [(lastTold (Effect.mined? height) effects).getD 0.0]
  verifyTime := (lastTold (Effect.verified? height) effects).toList

end TxSamples

/-- A question that is answered by the effects of one form has a last answer exactly when one of
these is told. -/
theorem isSome_lastTold_iff {β : Type} {question : Effect → Option β} {form : β → Effect}
    (h : ∀ e b, question e = some b ↔ e = form b) (effects : List Effect) :
    (lastTold question effects).isSome ↔ ∃ b, form b ∈ effects := by
  unfold lastTold
  rw [Option.isSome_iff_ne_none, ne_eq, List.getLast?_eq_none_iff, List.filterMap_eq_nil_iff]
  constructor
  · intro hsome
    push Not at hsome
    obtain ⟨e, he, hne⟩ := hsome
    obtain ⟨b, hb⟩ := Option.ne_none_iff_exists'.mp hne
    exact ⟨b, (h e b).mp hb ▸ he⟩
  · rintro ⟨b, hb⟩ hnone
    have hanswer := hnone _ hb
    rw [(h _ b).mpr rfl] at hanswer
    cases hanswer

/-- A verification time is sampled if and only if the verification of the block was told of. -/
theorem TxSamples.told_verifyTime_ne_nil_iff (effects : List Effect) (id : TxId) (height : Height)
    (sent committed : Instant) :
    (told effects id height sent committed).verifyTime ≠ [] ↔
      ∃ us, Effect.verify height us ∈ effects := by
  have hform : ∀ e us, Effect.verified? height e = some us ↔ e = .verify height us := by
    intro e us
    cases e <;> grind [Effect.verified?]
  rw [← isSome_lastTold_iff hform, told]
  cases lastTold (Effect.verified? height) effects <;> simp

/-- A proposal time is sampled if and only if both its beginning, the reception of the transaction,
and its end were told of. -/
theorem TxSamples.told_proposeTime_ne_nil_iff (effects : List Effect) (id : TxId) (height : Height)
    (sent committed : Instant) :
    (told effects id height sent committed).proposeTime ≠ [] ↔
      (∃ time, Effect.receive id time ∈ effects) ∧
        ∃ time, Effect.endProposal height time ∈ effects := by
  have hreceive : ∀ e time, Effect.received? id e = some time ↔ e = .receive id time := by
    intro e time
    cases e <;> grind [Effect.received?]
  have hpropose : ∀ e time,
      Effect.proposed? height e = some time ↔ e = .endProposal height time := by
    intro e time
    cases e <;> grind [Effect.proposed?]
  rw [← isSome_lastTold_iff hreceive, ← isSome_lastTold_iff hpropose, told]
  cases lastTold (Effect.received? id) effects <;>
    cases lastTold (Effect.proposed? height) effects <;> simp

/-- The samples of a committed transaction, taken from a session without earlier records, are those
that were told last. -/
theorem TxSamples.collect_singleton {s : Session} {effects : List Effect}
    {blockAt : Height → Option Block} {id : TxId} {height : Height} {sent committed : Instant}
    (hlast : LastWrites Session.empty effects s) (hsent : (s.tx id).sendTime = some sent)
    (hcommitted : (s.tx id).commitTime = some committed)
    (hheight : (s.tx id).height = some height) (hblock : blockAt height = some (s.block height)) :
    collect blockAt [s.tx id] = told effects id height sent committed := by
  -- what is recorded is what was told last
  have hexec : (s.tx id).execTime = (lastTold (Effect.executed? id) effects).map (·.1) := by
    refine (Prod.mk.inj (hlast.exec id)).1.trans ?_
    rw [Session.tx_empty]
    cases lastTold (Effect.executed? id) effects <;> rfl
  have hreceive : (s.tx id).receiveTime = lastTold (Effect.received? id) effects := by
    rw [hlast.receiveTime, Session.tx_empty, Option.or_none]
  have hend : (s.block height).proposeEnd = lastTold (Effect.proposed? height) effects := by
    rw [hlast.proposeEnd, Session.block_empty, Option.or_none]
  have hmine : (s.block height).miningTime = lastTold (Effect.mined? height) effects := by
    rw [hlast.miningTime, Session.block_empty, Option.or_none]
  have hverify : (s.block height).verifyTime = lastTold (Effect.verified? height) effects := by
    rw [hlast.verifyTime, Session.block_empty, Option.or_none]
  -- and the times of the transaction follow from it
  have hlatency : (s.tx id).latency? = some (sent.elapsed committed) := by
    simp [Transaction.latency?, hsent, hcommitted]
  have hat : (s.tx id).block? blockAt = some (s.block height) := by
    rw [Transaction.block?, hheight, Option.bind_some, hblock]
  have hpropose : (s.tx id).proposeTime? blockAt =
      (lastTold (Effect.received? id) effects).bind fun received =>
        (lastTold (Effect.proposed? height) effects).map received.elapsed := by
    rw [Transaction.proposeTime?, hat, hreceive]
    cases lastTold (Effect.received? id) effects with
    | none => rfl
    | some received =>
      simp only [Option.bind_some, Option.bind_eq_bind, hend]
      cases lastTold (Effect.proposed? height) effects <;> rfl
  have hmining : (s.tx id).miningTime? blockAt = lastTold (Effect.mined? height) effects := by
    rw [Transaction.miningTime?, hat, Option.bind_some, hmine]
  have hverifying : (s.tx id).verifyTime? blockAt = lastTold (Effect.verified? height) effects := by
    rw [Transaction.verifyTime?, hat, Option.bind_some, hverify]
  have hkept : [s.tx id].filter Transaction.isCommitted = [s.tx id] := by
    simp [Transaction.isCommitted, hcommitted]
  have hone : ∀ sample? : Transaction → Option Float,
      [s.tx id].filterMap sample? = (sample? (s.tx id)).toList := by
    intro sample?
    cases h : sample? (s.tx id) <;> simp [h]
  unfold collect told
  dsimp only
  rw [hkept, hone, hone, hone, hlatency, hpropose, hverifying]
  simp only [List.map_cons, List.map_nil, hexec, hmining, Option.toList_some]

/-! ## What survives -/

/-- A surviving entity stands among those that are listed. -/
theorem Registry.exists_values_eq_append {κ α : Type} [Ord κ] [Std.TransOrd κ]
    [Std.LawfulEqOrd κ] {r : Registry κ α} {key : κ} {entity : α} (h : r[key]? = some entity) :
    ∃ before after, r.values = before ++ entity :: after := by
  apply List.append_of_mem
  rw [values_eq_map_toList]
  exact List.mem_map.mpr ⟨(key, entity), Std.ExtTreeMap.mem_toList_iff_getElem?_eq_some.mpr h, rfl⟩

/-- The entities that are kept by a test that no empty one passes are those that pass it. -/
theorem Registry.getElem?_keep_eq_some_iff {κ α : Type} [Ord κ] [Std.TransOrd κ] [Inhabited α]
    {r : Registry κ α} {test : α → Bool} (h : test default = false) {key : κ} {entity : α} :
    (r.keep test)[key]? = some entity ↔ test entity ∧ r.find key = entity := by
  rw [r.getElem?_keep_eq_find h, Option.ite_none_right_eq_some, Option.some.injEq]
  constructor
  · rintro ⟨hpass, rfl⟩
    exact ⟨hpass, rfl⟩
  · rintro ⟨hpass, rfl⟩
    exact ⟨hpass, rfl⟩

/-- What is left of a session in its send window is the session pruned to the window. -/
theorem Session.applyWindow_eq_ok_iff {s : Session} {kept : Windowed} :
    s.applyWindow = .ok kept ↔ s.sendWindow = .ok kept.window ∧
      kept.session = s.prune kept.window ∧
        kept.notice = pruneNotice s (s.prune kept.window) := by
  obtain ⟨w, left, notice⟩ := kept
  unfold applyWindow
  cases s.sendWindow with
  | error fault => simp
  | ok w' =>
    simp only [Except.ok.injEq, Windowed.mk.injEq]
    constructor
    · rintro ⟨rfl, rfl, rfl⟩
      exact ⟨rfl, rfl, rfl⟩
    · rintro ⟨rfl, rfl, rfl⟩
      exact ⟨rfl, rfl, rfl⟩

/-- The block of a transaction that is kept is kept as well, if it was committed at the same time as
the transaction, and this not before the transaction was sent. -/
theorem Window.keepsBlock_of_keepsTx {w : Window} {t : Transaction} {b : Block}
    {sent committed : Instant} (h : w.keepsTx t) (hsent : t.sendTime = some sent)
    (hcommitted : t.commitTime = some committed) (hle : sent ≤ committed)
    (hsame : b.commitTime = t.commitTime) : w.keepsBlock b := by
  obtain ⟨hinside, hintime, -⟩ := keepsTx_iff.mp h
  obtain ⟨_, hsent', hstart, -⟩ := sentInside_iff.mp hinside
  cases hsent.symm.trans hsent'
  exact keepsBlock_iff.mpr ⟨committed, hsame.trans hcommitted, Instant.lt_of_lt_of_le hstart hle,
    committedInTime_iff.mp hintime committed hcommitted⟩

/-- The block of a surviving transaction survives, and no sample of the transaction is lost. Let
logs be absorbed, to their end or to the first fault, and suppose that no two of the applied records
commit a block at the same height. Then every transaction that is left in the send window, and was
not committed before it was sent, has its block left as well; the block was committed at the same
time and lists the transaction. The samples that the series take from the transaction are those told
last, and there is one of the verification (of the proposal) exactly if a verification of the block
(a reception of the transaction and the end of the block's proposal) was told of. -/
theorem applyWindow_keepsBlock {inputs : List Input} {effects : List Effect}
    {kept : Session.Windowed} {id : TxId} {t : Transaction} {sent committed : Instant}
    (htold : Told (absorbedRecords inputs) effects)
    (honce : (effects.filterMap Effect.committedHeight?).Nodup)
    (hkept : (Session.empty.absorb inputs).session.applyWindow = .ok kept)
    (ht : kept.session.txs[id]? = some t) (hsent : t.sendTime = some sent)
    (hcommitted : t.commitTime = some committed) (hle : sent ≤ committed) :
    ∃ height b, t.height = some height ∧ kept.session.blocks[height]? = some b ∧
      b.commitTime = some committed ∧ id ∈ b.txIds ∧
      (∃ before after, kept.session.txs.values = before ++ [t] ++ after ∧
        TxSamples.collect kept.session.blockAt kept.session.txs.values =
          TxSamples.collect kept.session.blockAt before ++
            TxSamples.told effects id height sent committed ++
              TxSamples.collect kept.session.blockAt after) ∧
      ((TxSamples.told effects id height sent committed).verifyTime ≠ [] ↔
        ∃ us, Effect.verify height us ∈ effects) ∧
      ((TxSamples.told effects id height sent committed).proposeTime ≠ [] ↔
        (∃ time, Effect.receive id time ∈ effects) ∧
          ∃ time, Effect.endProposal height time ∈ effects) := by
  obtain ⟨vs, happly⟩ := Session.empty.applyRecords_absorbedRecords inputs
  obtain ⟨effects', htold', hs⟩ := Session.told_of_applyRecords happly
  cases htold.unique htold'
  have hlast := applyAll_lastWrites Session.empty effects
  have hcoherent := Coherent.empty.applyAll effects
  have hmatched : Matched (Session.empty.applyAll effects) := by
    refine Matched.empty.applyAll .empty honce fun e _ height _ => ?_
    have hempty : Session.empty.block height = {} :=
      Registry.find_of_not_mem Std.ExtTreeMap.not_mem_empty
    rw [hempty]
  obtain ⟨-, hprune, -⟩ := Session.applyWindow_eq_ok_iff.mp hkept
  rw [← hs] at hlast hcoherent hmatched
  rw [hprune] at ht ⊢
  generalize (Session.empty.absorb inputs).session = s at *
  obtain ⟨hpass, rfl⟩ : kept.window.keepsTx t ∧ s.tx id = t :=
    (Registry.getElem?_keep_eq_some_iff rfl).mp ht
  have hsome : (s.tx id).height.isSome := by
    rw [← hcoherent.commit, hcommitted]
    rfl
  obtain ⟨height, hheight⟩ := Option.isSome_iff_exists.mp hsome
  obtain ⟨hsame, hlisted⟩ := hmatched id height hheight
  have hblock : (s.prune kept.window).blocks[height]? = some (s.block height) :=
    (Registry.getElem?_keep_eq_some_iff rfl).mpr
      ⟨Window.keepsBlock_of_keepsTx hpass hsent hcommitted hle hsame, rfl⟩
  refine ⟨height, s.block height, hheight, hblock, hsame.trans hcommitted, hlisted, ?_, ?_, ?_⟩
  · obtain ⟨before, after, hvalues⟩ := Registry.exists_values_eq_append ht
    rw [List.append_cons] at hvalues
    refine ⟨before, after, hvalues, ?_⟩
    have hat : (s.prune kept.window).blockAt height = some (s.block height) := hblock
    rw [hvalues, TxSamples.collect_append, TxSamples.collect_append,
      TxSamples.collect_singleton hlast hsent hcommitted hheight hat]
  · exact TxSamples.told_verifyTime_ne_nil_iff effects id height sent committed
  · exact TxSamples.told_proposeTime_ne_nil_iff effects id height sent committed

/-- A peer receives the transaction, ends the proposal of its block and verifies it; its last record
has no height and ends the replay. -/
def proposingLog : List Char :=
  Log.eventLine "blk_recv_tx" "2021-01-01T00:00:01Z" "\"tx_id\":\"a\"" ++
    Log.eventLine "propose_end" "2021-01-01T00:00:02Z" "\"height\":7" ++
    Log.measuredLine "verify_block" "30" "\"height\":7" ++
    Log.eventLine "propose_end" "2021-01-01T00:00:03Z" ""

/-- The entries of its log. -/
def proposingEntries : List Entry :=
  [⟨1, .event "blk_recv_tx" "2021-01-01T00:00:01Z" [("tx_id", .text "a")]⟩,
    ⟨2, .event "propose_end" "2021-01-01T00:00:02Z" [("height", .number (.integer 7))]⟩,
    ⟨3, .measured "verify_block" 30 [("height", .number (.integer 7))]⟩,
    ⟨4, .event "propose_end" "2021-01-01T00:00:03Z" []⟩]

/-- The client's log and that of the peer. -/
def proposingInputs : List Input :=
  [⟨⟨"client.log", .client⟩, .ok (.ofList committedLog)⟩,
    ⟨⟨"peer.log", .peer⟩, .ok (.ofList proposingLog)⟩]

set_option maxRecDepth 10000 in
/-- Both logs are read. -/
theorem load_proposingInputs : proposingInputs.mapM Input.load =
    .ok [⟨⟨"client.log", .client⟩, committedEntries⟩, ⟨⟨"peer.log", .peer⟩, proposingEntries⟩] :=
  mapM_eq_ok.mpr (.cons load_committedLog
    (.cons (Input.load_eq_ok.mpr ⟨_, _, rfl, (Log.read_ofList _).trans rfl, rfl⟩) .nil))

/-- The records of both that are applied. -/
def proposingRun : List StreamRecord :=
  committedEntries.map (fun entry => ⟨.client, entry.record⟩) ++
    (proposingEntries.take 3).map (fun entry => ⟨.peer, entry.record⟩)

/-- What these records tell. -/
def proposingEffects : List Effect :=
  [.openWindow ⟨1609459200, 0⟩, .send "a" ⟨1609459201, 0⟩, .commit 7 ⟨1609459202, 0⟩ ["a"],
    .closeWindow ⟨1609459209, 0⟩ none, .receive "a" ⟨1609459201, 0⟩, .endProposal 7 ⟨1609459202, 0⟩,
    .verify 7 (JsonNumber.integer 30).toFloat]

/-- They are applied before the faulty one. -/
theorem told_proposingEffects : Told (absorbedRecords proposingInputs) proposingEffects := by
  have hjudge : Judges proposingRun (proposingEffects.map .applied) :=
    .cons rfl (.cons rfl (.cons rfl (.cons rfl (.cons rfl (.cons rfl (.cons rfl .nil))))))
  have hall : [(⟨⟨"client.log", .client⟩, committedEntries⟩ : Stream),
      ⟨⟨"peer.log", .peer⟩, proposingEntries⟩].flatMap Stream.records =
        proposingRun ++ [⟨.peer, .event "propose_end" "2021-01-01T00:00:03Z" []⟩] := rfl
  rw [absorbedRecords_eq_takeWhile load_proposingInputs, hall, hjudge.takeWhile_append,
    List.takeWhile_cons_of_neg Bool.false_ne_true, List.append_nil]
  exact hjudge.told

/-- Between its sending and the end of the window the client sees its transaction committed, and the
peer's records up to the faulty one give it both a verification and a proposal. -/
theorem applyWindow_keepsBlock_proposing :
    ∃ kept t sent committed, Told (absorbedRecords proposingInputs) proposingEffects ∧
      (proposingEffects.filterMap Effect.committedHeight?).Nodup ∧
      (Session.empty.absorb proposingInputs).session.applyWindow = .ok kept ∧
      kept.session.txs["a"]? = some t ∧ t.sendTime = some sent ∧ t.commitTime = some committed ∧
      sent ≤ committed ∧ ∃ height b, t.height = some height ∧
        kept.session.blocks[height]? = some b ∧ "a" ∈ b.txIds ∧
        (TxSamples.told proposingEffects "a" height sent committed).verifyTime ≠ [] ∧
        (TxSamples.told proposingEffects "a" height sent committed).proposeTime ≠ [] := by
  have htold := told_proposingEffects
  have honce : (proposingEffects.filterMap Effect.committedHeight?).Nodup :=
    List.pairwise_singleton _ 7
  have hsurvives : ∃ kept t sent committed,
      (Session.empty.absorb proposingInputs).session.applyWindow = .ok kept ∧
        kept.session.txs["a"]? = some t ∧ t.sendTime = some sent ∧
        t.commitTime = some committed ∧ t.height = some 7 ∧ sent ≤ committed := by
    rw [absorb_eq_replayAll load_proposingInputs]
    exact ⟨_, _, _, _, rfl, (Registry.getElem?_keep_eq_some_iff rfl).mpr ⟨rfl, rfl⟩, rfl, rfl, rfl,
      by decide⟩
  obtain ⟨kept, t, sent, committed, hkept, ht, hsent, hcommitted, hseven, hle⟩ := hsurvives
  obtain ⟨height, b, hheight, hb, -, hid, -, hverify, hpropose⟩ :=
    applyWindow_keepsBlock htold honce hkept ht hsent hcommitted hle
  cases hseven.symm.trans hheight
  have hverified : .verify 7 (JsonNumber.integer 30).toFloat ∈ proposingEffects := by
    simp [proposingEffects]
  have hreceived : .receive "a" ⟨1609459201, 0⟩ ∈ proposingEffects := by simp [proposingEffects]
  have hproposed : .endProposal 7 ⟨1609459202, 0⟩ ∈ proposingEffects := by simp [proposingEffects]
  exact ⟨kept, t, sent, committed, htold, honce, hkept, ht, hsent, hcommitted, hle, 7, b, hheight,
    hb, hid, hverify.mpr ⟨_, hverified⟩, hpropose.mpr ⟨⟨_, hreceived⟩, ⟨_, hproposed⟩⟩⟩

end LedgerBench
