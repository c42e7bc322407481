import Mathlib.Data.Fin.VecNotation
import Mathlib.Data.Fintype.Basic
import Mathlib.Data.List.Sort
import Mathlib.Tactic.FinCases
import LedgerBench.Proofs.Ledger.LastWrite

/-!
# Records in another order

`Effect.writes` lists the fields that an effect writes, and two records are in conflict if their
effects write a common one. `applyRecords_reorder` shows that the order of a run matters for
conflicts only: a run that keeps every two records in conflict in their order leaves behind the same
session with the same verdicts, and streams that are not in conflict with each other may be
interleaved at will.

No two records are ever swapped in the proof. A session is determined by the last writes to its
fields (`LastWrites.unique`), and what is last written to a field depends only on the effects that
write it (`lastTold_congr`). So it is enough that the records that write a field are the same list
in both runs (`SameWriters`). Any two of them are in conflict: a reordering keeps their places in
ascending order (`Reordering.filter_eq`), and an interleaving takes all of them from one stream
(`Interleaves.filter_eq`).
-/

namespace LedgerBench

/-- The fields of a transaction. -/
inductive TxField where
  /-- The height of its block. -/
  | height
  /-- When it was sent. -/
  | sendTime
  /-- When the proposer received it. -/
  | receiveTime
  /-- When it was committed. -/
  | commitTime
  /-- How long its execution took. -/
  | execTime
  /-- The node that executed it. -/
  | execNode
  /-- Whether it came too late. -/
  | outdated
  /-- Whether it was in conflict. -/
  | conflicted
deriving DecidableEq

/-- The fields of a block. -/
inductive BlockField where
  /-- When it was committed. -/
  | commitTime
  /-- Its transactions. -/
  | txIds
  /-- How long its mining took. -/
  | miningTime
  /-- How long its verification took. -/
  | verifyTime
  /-- When its proposal ended. -/
  | proposeEnd
deriving DecidableEq

/-- The fields of the send window. -/
inductive WindowField where
  /-- When it began. -/
  | start
  /-- When it ended. -/
  | stop
  /-- The reported rate. -/
  | reportedRate
deriving DecidableEq

/-- A field of a session. -/
inductive Field where
  /-- A field of a transaction. -/
  | tx (id : TxId) (field : TxField)
  /-- A field of a block. -/
  | block (height : Height) (field : BlockField)
  /-- A field of the send window. -/
  | window (field : WindowField)
deriving DecidableEq

/-- The fields that an effect writes. -/
def Effect.writes : Effect → List Field
  | .openWindow _ => [.window .start]
  | .closeWindow _ _ => [.window .stop, .window .reportedRate]
  | .send id _ => [.tx id .sendTime]
  | .commit height _ ids =>
    .block height .commitTime :: .block height .txIds ::
      ids.flatMap fun id => [.tx id .height, .tx id .commitTime]
  | .outdate id => [.tx id .outdated]
  | .conflict id => [.tx id .conflicted]
  | .receive id _ => [.tx id .receiveTime]
  | .endProposal height _ => [.block height .proposeEnd]
  | .verify height _ => [.block height .verifyTime]
  | .mine height _ => [.block height .miningTime]
  | .execute id _ _ => [.tx id .execTime, .tx id .execNode]

/-- Two records are in conflict: their effects write a common field. -/
def StreamRecord.Conflicts (r r' : StreamRecord) : Prop :=
  ∃ e e' field, r.Tells e ∧ r'.Tells e' ∧ field ∈ e.writes ∧ field ∈ e'.writes

/-- A run with the records of another one, in an order that keeps every two in conflict as they
are. -/
structure Reordering (run run' : List StreamRecord) where
  /-- The place in `run` of the record at a place of `run'`. -/
  place : Fin run'.length ≃ Fin run.length
  /-- It is the same record. -/
  same : ∀ i, run'[i] = run[place i]
  /-- Of two records in conflict the first stays the first. -/
  keeps : ∀ i j, i < j → run'[i].Conflicts run'[j] → place i < place j

/-- A run that takes the records of several streams, each stream in its own order. -/
inductive Interleaves : List (List StreamRecord) → List StreamRecord → Prop where
  /-- No records are left. -/
  | done {streams : List (List StreamRecord)} (empty : ∀ stream ∈ streams, stream = []) :
    Interleaves streams []
  /-- The first record of any stream is taken. -/
  | take (before : List (List StreamRecord)) {after : List (List StreamRecord)} {r : StreamRecord}
    {stream run : List StreamRecord} (rest : Interleaves (before ++ stream :: after) run) :
    Interleaves (before ++ (r :: stream) :: after) (r :: run)

/-! ## Effects that write the same -/

/-- Two lists of effects have the same writers, in the same order, for every field. -/
def SameWriters (effects effects' : List Effect) : Prop :=
  ∀ field : Field, (effects.filter fun e => field ∈ e.writes) =
    effects'.filter fun e => field ∈ e.writes

namespace SameWriters

variable {es es' : List Effect}

/-- Having the same writers goes both ways. -/
theorem symm (h : SameWriters es es') : SameWriters es' es := fun field => (h field).symm

/-- An effect that writes a field is in both lists. -/
theorem mem (h : SameWriters es es') {e : Effect} {field : Field} (hf : field ∈ e.writes)
    (he : e ∈ es) : e ∈ es' := by
  have hmem : e ∈ es.filter fun e => field ∈ e.writes := by simp [he, hf]
  rw [h field] at hmem
  exact (List.mem_filter.mp hmem).1

/-- Whether some effect has a property that only effects with a field have is the same for both. -/
theorem exists_mem_congr {named : Effect → Prop} (h : SameWriters es es')
    (hnamed : ∀ e, named e → ∃ field, field ∈ e.writes) :
    (∃ e ∈ es, named e) ↔ ∃ e ∈ es', named e := by
  constructor
  · rintro ⟨e, he, hn⟩
    obtain ⟨field, hf⟩ := hnamed e hn
    exact ⟨e, h.mem hf he, hn⟩
  · rintro ⟨e, he, hn⟩
    obtain ⟨field, hf⟩ := hnamed e hn
    exact ⟨e, h.symm.mem hf he, hn⟩

/-- A question that only the writers of one field answer has the same last answer. -/
theorem lastTold_congr {β : Type} {question : Effect → Option β} (h : SameWriters es es')
    (field : Field) (hq : ∀ e, (question e).isSome → field ∈ e.writes) :
    lastTold question es = lastTold question es' := by
  have hfilter : ∀ l : List Effect,
      l.filterMap question = (l.filter fun e => field ∈ e.writes).filterMap question := by
    intro l
    rw [List.filterMap_filter]
    congr 1
    funext e
    cases he : question e with
    | none => simp
    | some answer => simp [hq e (by rw [he]; rfl)]
  unfold lastTold
  rw [hfilter es, hfilter es', h field]

end SameWriters

namespace Effect

variable {e : Effect}

/-- An effect writes to the transactions that it names. -/
theorem exists_writes_of_mem_txIds {id : TxId} (h : id ∈ e.txIds) :
    ∃ field, field ∈ e.writes := by
  cases e with
  | commit height time ids => exact ⟨.tx id .height, by simpa [writes, txIds] using h⟩
  | send i time => exact ⟨.tx id .sendTime, by simpa [writes, txIds] using h⟩
  | outdate i => exact ⟨.tx id .outdated, by simpa [writes, txIds] using h⟩
  | conflict i => exact ⟨.tx id .conflicted, by simpa [writes, txIds] using h⟩
  | receive i time => exact ⟨.tx id .receiveTime, by simpa [writes, txIds] using h⟩
  | execute i us node => exact ⟨.tx id .execTime, by simpa [writes, txIds] using h⟩
  | _ => cases h

/-- An effect writes to the block that it names. -/
theorem exists_writes_of_mem_heights {height : Height} (h : height ∈ e.heights) :
    ∃ field, field ∈ e.writes := by
  cases e with
  | commit i time ids => exact ⟨.block height .commitTime, by simpa [writes, heights] using h⟩
  | endProposal i time => exact ⟨.block height .proposeEnd, by simpa [writes, heights] using h⟩
  | verify i us => exact ⟨.block height .verifyTime, by simpa [writes, heights] using h⟩
  | mine i us => exact ⟨.block height .miningTime, by simpa [writes, heights] using h⟩
  | _ => cases h

end Effect

namespace SameWriters

variable {s s' : Session} {es es' : List Effect}

/-- The last writes depend only on the writers of each field. -/
theorem lastWrites (h : SameWriters es es') (hlast : LastWrites s es s') :
    LastWrites s es' s' where
  mem_txs id := by
    rw [hlast.mem_txs, h.exists_mem_congr fun e => Effect.exists_writes_of_mem_txIds]
  mem_blocks height := by
    rw [hlast.mem_blocks, h.exists_mem_congr fun e => Effect.exists_writes_of_mem_heights]
  sendTime id := by
    rw [hlast.sendTime, h.lastTold_congr (.tx id .sendTime)]
    intro e he
    cases e <;> grind [Effect.sent?, Effect.writes]
  receiveTime id := by
    rw [hlast.receiveTime, h.lastTold_congr (.tx id .receiveTime)]
    intro e he
    cases e <;> grind [Effect.received?, Effect.writes]
  commit id := by
    rw [hlast.commit, h.lastTold_congr (.tx id .commitTime)]
    intro e he
    cases e <;> grind [Effect.committed?, Effect.writes]
  exec id := by
    rw [hlast.exec, h.lastTold_congr (.tx id .execTime)]
    intro e he
    cases e <;> grind [Effect.executed?, Effect.writes]
  outdated id := by
    have hsame : Effect.outdate id ∈ es ↔ Effect.outdate id ∈ es' :=
      ⟨h.mem (List.mem_singleton_self _), h.symm.mem (List.mem_singleton_self _)⟩
    rw [hlast.outdated, hsame]
  conflicted id := by
    have hsame : Effect.conflict id ∈ es ↔ Effect.conflict id ∈ es' :=
      ⟨h.mem (List.mem_singleton_self _), h.symm.mem (List.mem_singleton_self _)⟩
    rw [hlast.conflicted, hsame]
  blockCommit height := by
    rw [hlast.blockCommit, h.lastTold_congr (.block height .commitTime)]
    intro e he
    cases e <;> grind [Effect.blockCommitted?, Effect.writes]
  proposeEnd height := by
    rw [hlast.proposeEnd, h.lastTold_congr (.block height .proposeEnd)]
    intro e he
    cases e <;> grind [Effect.proposed?, Effect.writes]
  verifyTime height := by
    rw [hlast.verifyTime, h.lastTold_congr (.block height .verifyTime)]
    intro e he
    cases e <;> grind [Effect.verified?, Effect.writes]
  miningTime height := by
    rw [hlast.miningTime, h.lastTold_congr (.block height .miningTime)]
    intro e he
    cases e <;> grind [Effect.mined?, Effect.writes]
  start := by
    rw [hlast.start, h.lastTold_congr (.window .start)]
    intro e he
    cases e <;> grind [Effect.opened?, Effect.writes]
  stop := by
    rw [hlast.stop, h.lastTold_congr (.window .stop)]
    intro e he
    cases e <;> grind [Effect.closed?, Effect.writes]
  sentCount := hlast.sentCount

/-- Effects with the same writers lead to the same session. -/
theorem applyAll_eq (h : SameWriters es es') (s : Session) : s.applyAll es = s.applyAll es' :=
  (h.lastWrites (applyAll_lastWrites s es)).unique (applyAll_lastWrites s es')

end SameWriters

/-! ## Records that write a field -/

namespace StreamRecord

variable {r r' : StreamRecord} {field : Field}

/-- The effect of the record, if it is accepted with one. -/
def effect? (r : StreamRecord) : Option Effect :=
  match r.verdict with
  | .ok v => v.effect?
  | .error _ => none

/-- The record writes the field. -/
def writes (field : Field) (r : StreamRecord) : Bool := r.effect?.any fun e => field ∈ e.writes

/-- The effect of a record is what it tells. -/
theorem effect?_eq_some_iff {e : Effect} : r.effect? = some e ↔ r.Tells e := by
  unfold effect?
  cases hv : r.verdict with
  | ok v => exact (tells_iff hv).symm
  | error fault =>
    unfold verdict at hv
    unfold StreamRecord.Tells
    rw [← Record.judge_eq_applied_iff, hv]
    simp

/-- A record writes a field if the effect that it tells does. -/
theorem writes_iff : r.writes field ↔ ∃ e, r.Tells e ∧ field ∈ e.writes := by
  unfold writes
  simp only [Option.any_eq_true, effect?_eq_some_iff, decide_eq_true_eq]

/-- Whether two records are in conflict can be decided on the fields that they write. -/
instance : Decidable (r.Conflicts r') :=
  decidable_of_iff (∃ e ∈ r.effect?, ∃ e' ∈ r'.effect?, ∃ field ∈ e.writes, field ∈ e'.writes) <| by
    simp only [Option.mem_def, effect?_eq_some_iff]
    constructor
    · rintro ⟨e, he, e', he', field, hf, hf'⟩
      exact ⟨e, e', field, he, he', hf, hf'⟩
    · rintro ⟨e, e', field, he, he', hf, hf'⟩
      exact ⟨e, he, e', he', field, hf, hf'⟩

/-- Two records that write one field are in conflict. -/
theorem conflicts_of_writes (h : r.writes field) (h' : r'.writes field) : r.Conflicts r' := by
  obtain ⟨e, he, hf⟩ := writes_iff.mp h
  obtain ⟨e', he', hf'⟩ := writes_iff.mp h'
  exact ⟨e, e', field, he, he', hf, hf'⟩

/-- The effects that write a field are those of the records that write it. -/
theorem filter_filterMap_effect? (field : Field) (run : List StreamRecord) :
    ((run.filterMap effect?).filter fun e => field ∈ e.writes) =
      (run.filter (writes field)).filterMap effect? := by
  rw [List.filter_filterMap, List.filterMap_filter]
  congr 1
  funext r
  unfold writes
  cases r.effect? with
  | none => rfl
  | some e => by_cases hf : field ∈ e.writes <;> simp [hf]

end StreamRecord

/-- The effects of the verdicts on a run are the effects of its records. -/
theorem Judges.filterMap_effect? {run : List StreamRecord} {vs : List Verdict}
    (h : Judges run vs) :
    vs.filterMap Verdict.effect? = run.filterMap StreamRecord.effect? := by
  induction h with
  | nil => rfl
  | @cons r v run vs hv _ ih =>
    have hr : r.effect? = v.effect? := by
      unfold StreamRecord.effect?
      rw [hv]
    rw [List.filterMap_cons, List.filterMap_cons, hr, ih]

/-- A run whose records can all be used has verdicts. -/
theorem exists_judges {run : List StreamRecord} (h : ∀ r ∈ run, ∃ v, r.verdict = .ok v) :
    ∃ vs, Judges run vs := by
  induction run with
  | nil => exact ⟨[], .nil⟩
  | cons r run ih =>
    obtain ⟨v, hv⟩ := h r List.mem_cons_self
    obtain ⟨vs, hvs⟩ := ih fun r' hr' => h r' (List.mem_cons_of_mem _ hr')
    exact ⟨v :: vs, .cons hv hvs⟩

/-- The record at a place of a run has the verdict at that place. -/
theorem Judges.verdict_getElem {run : List StreamRecord} {vs : List Verdict} (h : Judges run vs)
    (i : Fin run.length) : ∃ v, run[i].verdict = .ok v ∧ vs[i.val]? = some v := by
  have hlen : i.val < vs.length := h.length_eq ▸ i.isLt
  exact ⟨vs[i.val], h.get i.isLt hlen, List.getElem?_eq_getElem hlen⟩

/-- A record of a run that has verdicts can be used. -/
theorem Judges.exists_verdict {run : List StreamRecord} {vs : List Verdict} (h : Judges run vs)
    {r : StreamRecord} (hr : r ∈ run) : ∃ v, r.verdict = .ok v := by
  obtain ⟨i, hi, rfl⟩ := List.getElem_of_mem hr
  obtain ⟨v, hv, -⟩ := h.verdict_getElem ⟨i, hi⟩
  exact ⟨v, hv⟩

/-- Two runs that can be used, with the same records for every field, lead to the same session. -/
theorem Judges.applyAll_eq {run run' : List StreamRecord} {vs vs' : List Verdict}
    (h : Judges run vs) (h' : Judges run' vs')
    (hsame : ∀ field, run.filter (StreamRecord.writes field) =
      run'.filter (StreamRecord.writes field)) (s : Session) :
    s.applyAll (vs.filterMap Verdict.effect?) = s.applyAll (vs'.filterMap Verdict.effect?) := by
  refine SameWriters.applyAll_eq (fun field => ?_) s
  rw [h.filterMap_effect?, h'.filterMap_effect?, StreamRecord.filter_filterMap_effect?,
    StreamRecord.filter_filterMap_effect?, hsame field]

/-! ## Reorderings -/

namespace Reordering

variable {run run' : List StreamRecord}

/-- The records with a property at which any two of them are in conflict stay in their order. -/
theorem filter_eq (o : Reordering run run') {p : StreamRecord → Bool}
    (hp : ∀ r r', p r → p r' → r.Conflicts r') : run.filter p = run'.filter p := by
  -- the property picks places in ascending order
  have hrun : ∀ l : List StreamRecord,
      l.filter p = ((List.finRange l.length).filter fun i => p l[i]).map (fun i => l[i]) := by
    intro l
    conv_lhs => rw [← List.map_get_finRange l]
    rw [List.filter_map]
    rfl
  -- and the reordering keeps those places ascending, since their records are in conflict
  have hsorted : (((List.finRange run'.length).filter fun i => p run'[i]).map o.place).Pairwise
      (· < ·) := by
    rw [List.pairwise_map, List.pairwise_filter]
    refine (List.pairwise_lt_finRange _).imp fun {i j} hij hi hj => ?_
    exact o.keeps i j hij (hp _ _ hi hj)
  have hplaces : ((List.finRange run.length).filter fun i => p run[i]) =
      ((List.finRange run'.length).filter fun i => p run'[i]).map o.place := by
    refine ((List.pairwise_lt_finRange _).filter _).eq_of_mem_iff hsorted fun i => ?_
    simp only [List.mem_filter, List.mem_finRange, true_and, List.mem_map]
    constructor
    · intro hi
      obtain ⟨j, rfl⟩ := o.place.surjective i
      refine ⟨j, ?_, rfl⟩
      rw [o.same]
      exact hi
    · rintro ⟨j, hj, rfl⟩
      rw [← o.same]
      exact hj
  rw [hrun run, hrun run', hplaces, List.map_map]
  refine List.map_congr_left fun i _ => ?_
  exact (o.same i).symm

/-- The records of a reordering can be used if those of the run can. -/
theorem exists_judges (o : Reordering run run') {vs : List Verdict} (h : Judges run vs) :
    ∃ vs', Judges run' vs' := by
  refine LedgerBench.exists_judges fun r hr => ?_
  obtain ⟨i, hi, rfl⟩ := List.getElem_of_mem hr
  have hsame : run'[i] = run[o.place ⟨i, hi⟩] := o.same ⟨i, hi⟩
  rw [hsame]
  exact h.exists_verdict (List.getElem_mem _)

end Reordering

/-! ## Interleavings -/

namespace Interleaves

variable {streams : List (List StreamRecord)} {run : List StreamRecord}

/-- The records of an interleaving are those of the streams. -/
theorem mem (h : Interleaves streams run) {r : StreamRecord} (hr : r ∈ run) :
    ∃ stream ∈ streams, r ∈ stream := by
  induction h with
  | done => cases hr
  | @take before after r' stream run _ ih =>
    rcases List.mem_cons.mp hr with rfl | hr
    · exact ⟨r :: stream, by simp, List.mem_cons_self⟩
    · obtain ⟨stream', hmem, hr'⟩ := ih hr
      rcases List.mem_append.mp hmem with hbefore | hmem
      · exact ⟨stream', by simp [hbefore], hr'⟩
      rcases List.mem_cons.mp hmem with rfl | hafter
      · exact ⟨r' :: stream', by simp, List.mem_cons_of_mem _ hr'⟩
      · exact ⟨stream', by simp [hafter], hr'⟩

/-- The records with a property that is found in one stream only stay in their order. -/
theorem filter_eq (h : Interleaves streams run) {p : StreamRecord → Bool}
    (hp : streams.Pairwise fun a b => ∀ r ∈ a, ∀ r' ∈ b, p r → ¬ p r') :
    run.filter p = streams.flatten.filter p := by
  induction h with
  | done empty => rw [List.flatten_eq_nil_iff.mpr empty]
  | @take before after r stream run _ ih =>
    obtain ⟨hbefore, hrest, hacross⟩ := List.pairwise_append.mp hp
    obtain ⟨hstream, hafter⟩ := List.pairwise_cons.mp hrest
    -- without its first record the stream is still the only one with the property
    have hih := ih (List.pairwise_append.mpr ⟨hbefore, List.pairwise_cons.mpr
      ⟨fun b hb r' hr' => hstream b hb r' (List.mem_cons_of_mem _ hr'), hafter⟩, by
        intro a ha b hb
        rcases List.mem_cons.mp hb with rfl | hb
        · intro r₁ hr₁ r₂ hr₂
          exact hacross a ha _ List.mem_cons_self r₁ hr₁ r₂ (List.mem_cons_of_mem _ hr₂)
        · exact hacross a ha b (List.mem_cons_of_mem _ hb)⟩)
    rw [List.flatten_append, List.flatten_cons, List.filter_append, List.filter_append] at hih ⊢
    by_cases hr : p r
    · -- the property is found in the stream of this record, so not in those before it
      have hnil : before.flatten.filter p = [] := by
        rw [List.filter_eq_nil_iff]
        intro r' hr' hpr'
        obtain ⟨a, ha, hra⟩ := List.mem_flatten.mp hr'
        exact hacross a ha _ List.mem_cons_self r' hra r List.mem_cons_self hpr' hr
      rw [hnil, List.nil_append] at hih ⊢
      rw [List.filter_cons_of_pos hr, List.filter_cons_of_pos hr, hih, List.cons_append]
    · rw [List.filter_cons_of_neg hr, List.filter_cons_of_neg hr, hih]

end Interleaves

/-! ## The order of a run -/

/-- The order of a run matters for records in conflict only. A run in another order that keeps every
two records in conflict as they are can be applied like the first, to the same session, and each
record has the verdict that it had. Streams of which no two are in conflict may be interleaved in
any way: the session is that of absorbing them one after the other. -/
theorem applyRecords_reorder (s : Session) :
    (∀ (run run' : List StreamRecord) (o : Reordering run run') (vs : List Verdict) (s' : Session),
      s.applyRecords run = .ok (vs, s') →
        ∃ vs', s.applyRecords run' = .ok (vs', s') ∧
          ∀ i : Fin run'.length, vs'[i.val]? = vs[(o.place i).val]?) ∧
    ∀ (inputs : List Input) (streams : List Stream) (run : List StreamRecord),
      inputs.mapM Input.load = .ok streams →
        (s.absorb inputs).outcome = .ok () →
          streams.Pairwise (fun a b => ∀ r ∈ a.records, ∀ r' ∈ b.records, ¬ r.Conflicts r') →
            Interleaves (streams.map Stream.records) run →
              ∃ vs, s.applyRecords run = .ok (vs, (s.absorb inputs).session) := by
  constructor
  · intro run run' o vs s' happly
    obtain ⟨hjudge, rfl⟩ := Session.applyRecords_eq_ok_iff.mp happly
    obtain ⟨vs', hjudge'⟩ := o.exists_judges hjudge
    -- any two records that write one field are in conflict, so they stay in their order
    have hsame := hjudge.applyAll_eq hjudge'
      (fun field => o.filter_eq fun _ _ => StreamRecord.conflicts_of_writes) s
    refine ⟨vs', Session.applyRecords_eq_ok_iff.mpr ⟨hjudge', hsame⟩, fun i => ?_⟩
    obtain ⟨v', hv', hat'⟩ := hjudge'.verdict_getElem i
    obtain ⟨v, hv, hat⟩ := hjudge.verdict_getElem (o.place i)
    rw [o.same, hv] at hv'
    cases hv'
    rw [hat, hat']
  · intro inputs streams run hload hout hfree hinter
    obtain ⟨streams', vs, hload', happly⟩ := Session.applyRecords_of_absorb hout
    rw [hload] at hload'
    cases hload'
    obtain ⟨hjudge, hs⟩ := Session.applyRecords_eq_ok_iff.mp happly
    have hflat : (streams.map Stream.records).flatten = streams.flatMap Stream.records :=
      List.flatMap_def.symm
    obtain ⟨vs', hjudge'⟩ : ∃ vs', Judges run vs' := by
      refine exists_judges fun r hr => ?_
      obtain ⟨stream, hstream, hr⟩ := hinter.mem hr
      refine hjudge.exists_verdict ?_
      rw [← hflat]
      exact List.mem_flatten.mpr ⟨stream, hstream, hr⟩
    refine ⟨vs', Session.applyRecords_eq_ok_iff.mpr ⟨hjudge', ?_⟩⟩
    rw [hs]
    refine hjudge.applyAll_eq hjudge' (fun field => ?_) s
    rw [← hflat]
    -- the records that write one field all come from one stream
    have hone : (streams.map Stream.records).Pairwise fun a b =>
        ∀ r ∈ a, ∀ r' ∈ b, r.writes field → ¬ r'.writes field := by
      refine List.pairwise_map.mpr (hfree.imp fun hab r hr r' hr' h h' => ?_)
      exact hab r hr r' hr' (StreamRecord.conflicts_of_writes h h')
    exact (hinter.filter_eq hone).symm

/-- The contested run in another order: the executions come first, and the first commit comes before
the transaction is sent. -/
def recontestedRun : List StreamRecord :=
  [contestedRun[1], contestedRun[3], contestedRun[2], contestedRun[0], contestedRun[5],
    contestedRun[4]]

/-- The places of its records in the contested run. -/
def recontestedPlace : Fin 6 ≃ Fin 6 :=
  ⟨![1, 3, 2, 0, 5, 4], ![3, 0, 2, 1, 5, 4], by decide +revert, by decide +revert⟩

/-- The executions are in conflict with each other, and so are the commits; both pairs stand as
before. -/
def recontested : Reordering contestedRun recontestedRun where
  place := recontestedPlace
  same i := by
    change Fin 6 at i
    fin_cases i <;> rfl
  keeps := by decide +kernel

/-- The client sends two transactions. -/
def sendingStream : Stream :=
  ⟨⟨"client.log", .client⟩,
    [⟨1, .event "tx_begin" "2021-01-01T00:00:01Z" [("tx_id", .text "a")]⟩,
      ⟨2, .event "tx_begin" "2021-01-01T00:00:03Z" [("tx_id", .text "b")]⟩]⟩

/-- A peer receives the first of them. -/
def receivingStream : Stream :=
  ⟨⟨"peer.log", .peer⟩,
    [⟨1, .event "blk_recv_tx" "2021-01-01T00:00:02Z" [("tx_id", .text "a")]⟩]⟩

/-- The log of the client. -/
def sendingLog : Input :=
  ⟨sendingStream.source,
    .ok (.ofList (Log.eventLine "tx_begin" "2021-01-01T00:00:01Z" "\"tx_id\":\"a\"" ++
      Log.eventLine "tx_begin" "2021-01-01T00:00:03Z" "\"tx_id\":\"b\""))⟩

/-- The log of the peer. -/
def receivingLog : Input :=
  ⟨receivingStream.source,
    .ok (.ofList (Log.eventLine "blk_recv_tx" "2021-01-01T00:00:02Z" "\"tx_id\":\"a\""))⟩

set_option maxRecDepth 10000 in
/-- The contested run leads to the same session in the other order, and so do the two streams when
their records are taken by time. -/
theorem applyRecords_reorder_contested :
    (∃ vs vs' s', Session.empty.applyRecords contestedRun = .ok (vs, s') ∧
      Session.empty.applyRecords recontestedRun = .ok (vs', s') ∧
        ∀ i : Fin 6, vs'[i.val]? = vs[(recontestedPlace i).val]?) ∧
    ∃ sent₁ sent₂ received vs, sendingStream.records = [sent₁, sent₂] ∧
      receivingStream.records = [received] ∧ Session.empty.applyRecords [sent₁, received, sent₂] =
        .ok (vs, (Session.empty.absorb [sendingLog, receivingLog]).session) := by
  obtain ⟨hreorder, hinterleave⟩ := applyRecords_reorder Session.empty
  constructor
  · obtain ⟨vs', h', hsame⟩ := hreorder _ _ recontested _ _ rfl
    exact ⟨_, vs', _, rfl, h', hsame⟩
  · have hload : [sendingLog, receivingLog].mapM Input.load =
        .ok [sendingStream, receivingStream] := by
      rw [mapM_eq_ok]
      have hsending : sendingLog.load = .ok sendingStream :=
        Input.load_eq_ok.mpr ⟨_, _, rfl, (Log.read_ofList _).trans rfl, rfl⟩
      have hreceiving : receivingLog.load = .ok receivingStream :=
        Input.load_eq_ok.mpr ⟨_, _, rfl, (Log.read_ofList _).trans rfl, rfl⟩
      exact .cons hsending (.cons hreceiving .nil)
    have hout : (Session.empty.absorb [sendingLog, receivingLog]).outcome = .ok () := by
      rw [absorb_eq_replayAll hload]
      rfl
    obtain ⟨vs, h⟩ := hinterleave _ _ [_, _, _] hload hout (by decide +kernel)
      (.take [] (.take [_] (.take [] (.done (by simp)))))
    exact ⟨_, _, _, vs, rfl, rfl, h⟩

end LedgerBench
