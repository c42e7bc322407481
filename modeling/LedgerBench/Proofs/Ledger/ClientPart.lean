import LedgerBench.Proofs.Ledger.Records
import LedgerBench.Proofs.Ledger.Writes

/-!
# What only the client can tell

Six of the eleven effects are the client's own: no record of a node has one
(`Record.Tells.role_eq_client`). The client's part of a transaction and of a block is what these six
write; what any role is believed about is blanked out. Nodes do change a session: they measure
times, and they bring transactions and blocks into being. But what they tell leaves the client's
part of every entity and the send window as they are, where an entity that does not exist counts as
an empty one (`SameClientPart.apply_left`). So a session agrees in the client's part with one that
has the client's own effects only (`SameClientPart.applyAll_filter`).

`exists_told_of_absorb` finds these effects for the logs of a benchmark: the client's log comes
first, and whatever the other logs tell is not the client's own.
-/

namespace LedgerBench

/-- The effect is one of the client's own. -/
def Effect.isClients : Effect → Bool
  | .openWindow _ | .closeWindow _ _ | .send _ _ | .commit _ _ _ | .outdate _ | .conflict _ => true
  | .receive _ _ | .endProposal _ _ | .verify _ _ | .mine _ _ | .execute _ _ _ => false

/-- Only the client tells the client's own effects. -/
theorem Record.Tells.role_eq_client {role : Role} {r : Record} {e : Effect} (h : r.Tells role e)
    (he : e.isClients = true) : role = .client := by
  cases h with
  | openWindow _ believed | closeWindow _ believed | send _ believed | commit _ believed
  | outdate _ believed | conflict _ believed => exact believed
  | receive | endProposal | verify | mine | execute => cases he

/-- The client's part of a transaction. -/
def Transaction.clientPart (t : Transaction) : Transaction :=
  { t with receiveTime := none, execTime := none, execNode := none }

/-- The client's part of a block. -/
def Block.clientPart (b : Block) : Block :=
  { b with proposeEnd := none, verifyTime := none, miningTime := none }

/-- Two sessions agree in what only the client can tell. -/
structure SameClientPart (s s' : Session) : Prop where
  /-- The transactions have the same client's part. -/
  tx : ∀ id, (s.tx id).clientPart = (s'.tx id).clientPart
  /-- The blocks have the same client's part. -/
  block : ∀ height, (s.block height).clientPart = (s'.block height).clientPart
  /-- The send windows are the same. -/
  window : s.window = s'.window

/-! ## One effect -/

namespace Effect

variable {e : Effect}

/-- A client's effect does to the client's part of a transaction what it does to the transaction. -/
theorem clientPart_onTx (he : e.isClients = true) (id : TxId) (t : Transaction) :
    (e.onTx id t).clientPart = e.onTx id t.clientPart := by
  cases e with
  | openWindow time | closeWindow time rate => rfl
  | send i time | outdate i | conflict i | commit height time ids =>
    unfold onTx
    dsimp only
    split <;> rfl
  | receive | endProposal | verify | mine | execute => cases he

/-- Any other effect leaves the client's part of a transaction as it is. -/
theorem clientPart_onTx_of_not (he : e.isClients = false) (id : TxId) (t : Transaction) :
    (e.onTx id t).clientPart = t.clientPart := by
  cases e with
  | receive i time | execute i us node =>
    unfold onTx
    dsimp only
    split <;> rfl
  | endProposal | verify | mine => rfl
  | openWindow | closeWindow | send | outdate | conflict | commit => cases he

/-- A client's effect does to the client's part of a block what it does to the block. -/
theorem clientPart_onBlock (he : e.isClients = true) (height : Height) (b : Block) :
    (e.onBlock height b).clientPart = e.onBlock height b.clientPart := by
  cases e with
  | commit h time ids =>
    unfold onBlock
    dsimp only
    split <;> rfl
  | openWindow | closeWindow | send | outdate | conflict => rfl
  | receive | endProposal | verify | mine | execute => cases he

/-- Any other effect leaves the client's part of a block as it is. -/
theorem clientPart_onBlock_of_not (he : e.isClients = false) (height : Height) (b : Block) :
    (e.onBlock height b).clientPart = b.clientPart := by
  cases e with
  | endProposal h time | verify h us | mine h us =>
    unfold onBlock
    dsimp only
    split <;> rfl
  | receive | execute => rfl
  | openWindow | closeWindow | send | outdate | conflict | commit => cases he

/-- Any other effect leaves the send window as it is. -/
theorem onWindow_of_not (he : e.isClients = false) (w : SendWindow) : e.onWindow w = w := by
  cases e with
  | receive | endProposal | verify | mine | execute => rfl
  | openWindow | closeWindow | send | outdate | conflict | commit => cases he

end Effect

namespace SameClientPart

variable {s s' s'' : Session} {e : Effect}

/-- A session agrees with itself. -/
theorem refl (s : Session) : SameClientPart s s := ⟨fun _ => rfl, fun _ => rfl, rfl⟩

/-- Agreeing goes both ways. -/
theorem symm (h : SameClientPart s s') : SameClientPart s' s :=
  ⟨fun id => (h.tx id).symm, fun height => (h.block height).symm, h.window.symm⟩

/-- Sessions that agree with one another agree. -/
theorem trans (h : SameClientPart s s') (h' : SameClientPart s' s'') : SameClientPart s s'' :=
  ⟨fun id => (h.tx id).trans (h'.tx id), fun height => (h.block height).trans (h'.block height),
    h.window.trans h'.window⟩

/-- Sessions that agree still do after an effect of the client. -/
theorem apply (h : SameClientPart s s') (he : e.isClients = true) :
    SameClientPart (s.apply e) (s'.apply e) where
  tx id := by
    rw [s.tx_apply, s'.tx_apply, Effect.clientPart_onTx he, Effect.clientPart_onTx he, h.tx id]
  block height := by
    rw [s.block_apply, s'.block_apply, Effect.clientPart_onBlock he, Effect.clientPart_onBlock he,
      h.block height]
  window := by rw [s.window_apply, s'.window_apply, h.window]

/-- Sessions that agree still do after any other effect on one of them. -/
theorem apply_left (h : SameClientPart s s') (he : e.isClients = false) :
    SameClientPart (s.apply e) s' where
  tx id := by rw [s.tx_apply, Effect.clientPart_onTx_of_not he, h.tx id]
  block height := by rw [s.block_apply, Effect.clientPart_onBlock_of_not he, h.block height]
  window := by rw [s.window_apply, Effect.onWindow_of_not he, h.window]

/-- Sessions that agree still do when one carries out effects and the other one only those of the
client among them. -/
theorem applyAll_filter (h : SameClientPart s s') (effects : List Effect) :
    SameClientPart (s.applyAll effects) (s'.applyAll (effects.filter Effect.isClients)) := by
  induction effects generalizing s s' with
  | nil => exact h
  | cons e effects ih =>
    by_cases he : e.isClients = true
    · rw [List.filter_cons_of_pos he]
      exact ih (h.apply he)
    · rw [List.filter_cons_of_neg he]
      exact ih (h.apply_left (eq_false_of_ne_true he))

/-- Effects with the same ones of the client lead to sessions that agree. -/
theorem of_filter_eq {es es' : List Effect}
    (h : es.filter Effect.isClients = es'.filter Effect.isClients) (s : Session) :
    SameClientPart (s.applyAll es) (s.applyAll es') := by
  have hleft := (refl s).applyAll_filter es
  rw [h] at hleft
  exact hleft.trans ((refl s).applyAll_filter es').symm

/-- Effects that are not the client's own can be left out. -/
theorem applyAll_append {others : List Effect} (hothers : ∀ e ∈ others, e.isClients = false)
    (s : Session) (effects : List Effect) :
    SameClientPart (s.applyAll (effects ++ others)) (s.applyAll effects) := by
  have hnone : others.filter Effect.isClients = [] :=
    List.filter_eq_nil_iff.mpr fun e he => ne_true_of_eq_false (hothers e he)
  apply of_filter_eq
  rw [List.filter_append, hnone, List.append_nil]

end SameClientPart

/-! ## The logs of a benchmark -/

/-- The logs of a benchmark among files: the client's, then those of the peers and of the storage
nodes. -/
def benchmarkLogs (files : String → Except FileFault String) (client : String)
    (peers storages : List String) : List Input :=
  (Source.collect client peers storages).map (Source.fetch files)

/-- The logs of peers among files. -/
def peerLogs (files : String → Except FileFault String) (peers : List String) : List Input :=
  peers.map fun path => Source.fetch files ⟨path, .peer⟩

/-- The logs of storage nodes among files, where the first node has the number after `n`. -/
def storageLogs (files : String → Except FileFault String) (n : Nat) (storages : List String) :
    List Input :=
  (storages.zipIdx n).map fun (path, i) => Source.fetch files ⟨path, .storage (i + 1)⟩

/-- The logs of a benchmark are those of its three parts. -/
theorem benchmarkLogs_eq (files : String → Except FileFault String) (client : String)
    (peers storages : List String) :
    benchmarkLogs files client peers storages =
      Source.fetch files ⟨client, .client⟩ :: peerLogs files peers ++
        storageLogs files 0 storages := by
  unfold benchmarkLogs Source.collect peerLogs storageLogs
  rw [List.map_append, List.map_cons, List.map_map, List.map_map]
  rfl

/-- The peers and the storage nodes are not the client. -/
theorem role_ne_client_of_mem_nodes {peers storages : List String} {source : Source}
    (h : source ∈ peers.map (⟨·, .peer⟩) ++
      storages.zipIdx.map fun (path, i) => ⟨path, .storage (i + 1)⟩) : source.role ≠ .client := by
  rcases List.mem_append.mp h with h | h
  · obtain ⟨path, -, rfl⟩ := List.mem_map.mp h
    exact Role.noConfusion
  · obtain ⟨⟨path, i⟩, -, rfl⟩ := List.mem_map.mp h
    exact Role.noConfusion

/-- The records of streams that are not the client's tell nothing of the client's own. -/
theorem Told.isClients_eq_false {run : List StreamRecord} {effects : List Effect}
    (h : Told run effects) (hrole : ∀ r ∈ run, r.role ≠ .client) :
    ∀ e ∈ effects, e.isClients = false := by
  intro e he
  obtain ⟨r, hr, htells⟩ := h.exists_tells he
  by_contra hclient
  exact hrole r hr (htells.role_eq_client (eq_true_of_ne_false hclient))

/-- What the logs of a benchmark tell is what the client's log tells, and then effects that are not
the client's own. -/
theorem exists_told_of_absorb {s : Session} {files : String → Except FileFault String}
    {client : String} {peers storages : List String}
    (h : (s.absorb (benchmarkLogs files client peers storages)).outcome = .ok ()) :
    ∃ text entries effects others, files client = .ok text ∧ Log.read text = .ok entries ∧
      Told (entries.map fun entry => ⟨.client, entry.record⟩) effects ∧
        (∀ e ∈ others, e.isClients = false) ∧
          (s.absorb (benchmarkLogs files client peers storages)).session =
            s.applyAll (effects ++ others) := by
  obtain ⟨streams, vs, hload, happly⟩ := Session.applyRecords_of_absorb h
  obtain ⟨effects, htold, hs⟩ := Session.told_of_applyRecords happly
  have hall := mapM_eq_ok.mp hload
  unfold benchmarkLogs Source.collect at hall
  rw [List.cons_append, List.map_cons, List.forall₂_cons_left_iff] at hall
  obtain ⟨stream, nodeStreams, hclient, hnodes, rfl⟩ := hall
  obtain ⟨text, entries, htext, hread, rfl⟩ := Input.load_eq_ok.mp hclient
  rw [List.flatMap_cons] at htold
  obtain ⟨es, others, hes, hothers, rfl⟩ := htold.exists_append
  refine ⟨text, entries, es, others, htext, hread, hes, ?_, hs⟩
  refine hothers.isClients_eq_false fun r hr => ?_
  -- a record of the others comes from the log of a peer or of a storage node
  obtain ⟨stream, hstream, hr⟩ := List.mem_flatMap.mp hr
  obtain ⟨input, hinput, hload⟩ := exists_of_mem_results hnodes hstream
  obtain ⟨source, hsource, rfl⟩ := List.mem_map.mp hinput
  obtain ⟨_, entries', -, -, rfl⟩ := Input.load_eq_ok.mp hload
  obtain ⟨entry, -, rfl⟩ := List.mem_map.mp hr
  exact role_ne_client_of_mem_nodes hsource

end LedgerBench
