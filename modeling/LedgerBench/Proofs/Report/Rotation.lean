import LedgerBench.Proofs.Ledger.LastWrite
import LedgerBench.Proofs.Ledger.LogText
import LedgerBench.Proofs.Report.ClientMetrics

/-!
# Logs in parts and logs given twice

A peer's log may be rotated: it is cut between two lines, and both parts are given in its place. The
lines of the parts are the lines of the whole (`Text.EndsLine.lines_append`), so they tell the same
effects, and these are carried out one part after the other.

A log may also be given twice in a row. After the effects of a log every question about the session
has its last answer, and to carry out the effects once more gives each question that answer again
(`LastWrites.again`). So nothing changes the second time, although records of the log may have
overwritten one another.

Both are facts about sessions first, where `Session.Absorbs` puts logs together; and about single
streams, where the counts of verdicts add up (`replay_append`).
-/

namespace LedgerBench

/-! ## Carrying out effects again -/

/-- The last answers are the last answers again if the effects are carried out once more. -/
theorem LastWrites.again {s s' : Session} {effects : List Effect} (h : LastWrites s effects s') :
    LastWrites s' effects s' := by
  have hor : ∀ {β : Type} {a l b : Option β}, a = l.or b → a = l.or a := by
    rintro β a (_ | l) b rfl
    · rfl
    · rfl
  have hgetD : ∀ {β : Type} {a b : β} {l : Option β}, a = l.getD b → a = l.getD a := by
    rintro β a b (_ | l) rfl
    · rfl
    · rfl
  have hflag : ∀ {p q r : Prop}, (p ↔ q ∨ r) → (p ↔ p ∨ r) :=
    fun hp => ⟨.inl, fun hpr => hpr.elim id fun hr => hp.mpr (.inr hr)⟩
  exact
    { mem_txs := fun id => hflag (h.mem_txs id)
      mem_blocks := fun height => hflag (h.mem_blocks height)
      sendTime := fun id => hor (h.sendTime id)
      receiveTime := fun id => hor (h.receiveTime id)
      commit := fun id => hgetD (h.commit id)
      exec := fun id => hgetD (h.exec id)
      outdated := fun id => hflag (h.outdated id)
      conflicted := fun id => hflag (h.conflicted id)
      blockCommit := fun height => hgetD (h.blockCommit height)
      proposeEnd := fun height => hor (h.proposeEnd height)
      verifyTime := fun height => hor (h.verifyTime height)
      miningTime := fun height => hor (h.miningTime height)
      start := hor h.start
      stop := hgetD h.stop
      sentCount := rfl }

namespace Session

/-- Effects that are carried out twice in a row change nothing the second time. -/
theorem applyAll_again (s : Session) (effects : List Effect) :
    (s.applyAll effects).applyAll effects = s.applyAll effects :=
  (applyAll_lastWrites _ effects).unique (applyAll_lastWrites s effects).again

end Session

/-! ## Streams -/

/-- The counts of two parts of a stream together. -/
def Tally.plus (t t' : Tally) : Tally where
  applied := t.applied + t'.applied
  ignored := t.ignored + t'.ignored
  unrecognized := t.unrecognized + t'.unrecognized
  missingNode := t.missingNode + t'.missingNode

/-- Verdicts are counted on top of what has been counted before. -/
theorem Tally.foldl_add {α : Type} (verdict : α → Verdict) (items : List α) (t : Tally) :
    items.foldl (fun t x => t.add (verdict x)) t =
      t.plus (items.foldl (fun t x => t.add (verdict x)) {}) := by
  induction items generalizing t with
  | nil => rfl
  | cons x items ih =>
    -- a single verdict is counted by adding the count of it alone
    have hadd : t.add (verdict x) = t.plus (Tally.add {} (verdict x)) := by
      cases verdict x <;> rfl
    have hassoc : ∀ t₁ t₂ t₃ : Tally, (t₁.plus t₂).plus t₃ = t₁.plus (t₂.plus t₃) := by
      intro t₁ t₂ t₃
      simp only [plus, Nat.add_assoc]
    rw [List.foldl_cons, List.foldl_cons, ih (t.add _), ih (Tally.add {} _), hadd, hassoc]

namespace Session

/-- A stream without a fault is replayed as its two parts one after the other, and their counts add
up. -/
theorem replay_append (s : Session) {source : Source} {entries entries' : List Entry}
    (h : ∀ entry ∈ entries ++ entries', StreamRecord.usable ⟨source.role, entry.record⟩) :
    ∃ t t', (s.replay ⟨source, entries⟩).outcome = .ok t ∧
      ((s.replay ⟨source, entries⟩).session.replay ⟨source, entries'⟩).outcome = .ok t' ∧
        (s.replay ⟨source, entries ++ entries'⟩).outcome = .ok (t.plus t') ∧
          (s.replay ⟨source, entries ++ entries'⟩).session =
            ((s.replay ⟨source, entries⟩).session.replay ⟨source, entries'⟩).session := by
  have hstop : ∀ es : List Entry, (∀ entry ∈ es, entry ∈ entries ++ entries') →
      (Judged.ofEntries source.role es).stop = none := by
    intro es hsub
    rw [← Option.isNone_iff_eq_none, Judged.isNone_stop, List.all_map, List.all_eq_true]
    exact fun entry hentry => h entry (hsub entry hentry)
  have hfirst := hstop entries fun _ => List.mem_append_left _
  have hsecond := hstop entries' fun _ => List.mem_append_right _
  refine ⟨(Judged.ofEntries source.role entries).tally,
    (Judged.ofEntries source.role entries').tally, ?_, ?_, ?_, ?_⟩
  · simp only [replay, Judged.ofStream, hfirst]
  · simp only [replay, Judged.ofStream, hsecond]
  · simp only [replay, Judged.ofStream, Judged.ofEntries_append hfirst, hsecond, Judged.tally,
      List.foldl_append]
    rw [Tally.foldl_add]
  · simp only [replay, Judged.ofStream, Judged.ofEntries_append hfirst, Judged.effects,
      List.filterMap_append, applyAll_append]

/-- A stream that is replayed twice in a row changes nothing the second time. -/
theorem replay_again (s : Session) (stream : Stream) :
    ((s.replay stream).session.replay stream).session = (s.replay stream).session :=
  applyAll_again s _

end Session

/-! ## Logs -/

/-- The log at `path` has been rotated: cut at the end of a line, and its parts are now at `first`
and `second`. The logs at `others` are as before. -/
structure Rotated (files files' : String → Except FileFault String) (path first second : String)
    (others : List String) : Prop where
  /-- The parts of the log. -/
  parts : ∃ a b, files path = .ok (a ++ b) ∧ Text.EndsLine a.toList ∧
    files' first = .ok a ∧ files' second = .ok b
  /-- The other logs. -/
  same : ∀ other ∈ others, files' other = files other

namespace Session

/-- A rotated log is absorbed in its parts as it was before. -/
theorem absorbs_rotated {files files' : String → Except FileFault String}
    {path first second : String} {others : List String}
    (h : Rotated files files' path first second others) (role : Role) (s s' : Session) :
    s.Absorbs [Source.fetch files ⟨path, role⟩] s' ↔
      s.Absorbs [Source.fetch files' ⟨first, role⟩, Source.fetch files' ⟨second, role⟩] s' := by
  obtain ⟨a, b, hpath, hends, hfirst, hsecond⟩ := h.parts
  have hone : ∀ (i : Input) es, AllTell Input.Tells [i] es ↔ i.Tells es := by
    intro i es
    simp [allTell_cons, allTell_nil]
  -- the lines of the two parts are those of the whole
  have htell : ∀ es, AllTell Input.Tells [Source.fetch files ⟨path, role⟩] es ↔
      AllTell Input.Tells [Source.fetch files' ⟨first, role⟩, Source.fetch files' ⟨second, role⟩]
        es := by
    intro es
    rw [hone, allTell_cons]
    simp only [hone]
    unfold Input.Tells Source.fetch
    dsimp only
    rw [hpath, hfirst, hsecond]
    simp only [Except.ok.injEq, exists_eq_left', String.toList_append, hends.lines_append,
      allTell_append]
  simp only [absorbs_iff, htell]

/-- Logs that are absorbed twice in a row change nothing the second time. -/
theorem absorbs_again {s s' : Session} {inputs : List Input} :
    s.Absorbs (inputs ++ inputs) s' ↔ s.Absorbs inputs s' := by
  have hagain : ∀ {s₁}, s.Absorbs inputs s₁ → s₁.Absorbs inputs s₁ := by
    intro s₁ h
    obtain ⟨es, htell, rfl⟩ := absorbs_iff.mp h
    exact absorbs_iff.mpr ⟨es, htell, (applyAll_again s es).symm⟩
  rw [absorbs_append]
  constructor
  · rintro ⟨s₁, hfirst, hsecond⟩
    obtain rfl : s₁ = s' := (hagain hfirst).2.symm.trans hsecond.2
    exact hfirst
  · intro h
    exact ⟨s', h, hagain h⟩

end Session

/-! ## Benchmarks -/

/-- If the logs of some peers are replaced by others that are absorbed alike, and all other logs
stay as they are, the report is the same. -/
theorem analyze_replace_peers {files files' : String → Except FileFault String} {client : String}
    {before middle middle' after storages : List String}
    (hsame : ∀ path ∈ client :: (before ++ after ++ storages), files' path = files path)
    (hmiddle : ∀ s s' : Session,
      s.Absorbs (peerLogs files middle) s' ↔ s.Absorbs (peerLogs files' middle') s')
    (report : Report) :
    (analyze (benchmarkLogs files client (before ++ middle ++ after) storages)).outcome =
        .ok report ↔
      (analyze (benchmarkLogs files' client (before ++ middle' ++ after) storages)).outcome =
        .ok report := by
  have hfetch : ∀ path ∈ client :: (before ++ after ++ storages), ∀ role,
      Source.fetch files ⟨path, role⟩ = Source.fetch files' ⟨path, role⟩ := by
    intro path hpath role
    unfold Source.fetch
    rw [hsame path hpath]
  have hclient := hfetch client (.head _) .client
  have hpeers : ∀ paths : List String, (∀ path ∈ paths, path ∈ before ++ after ++ storages) →
      peerLogs files paths = peerLogs files' paths := fun paths hpaths =>
    List.map_congr_left fun path hpath => hfetch path (.tail _ (hpaths path hpath)) .peer
  have hbefore := hpeers before fun path hpath =>
    List.mem_append_left _ (List.mem_append_left _ hpath)
  have hafter := hpeers after fun path hpath =>
    List.mem_append_left _ (List.mem_append_right _ hpath)
  have hstorages : storageLogs files 0 storages = storageLogs files' 0 storages :=
    List.map_congr_left fun entry hentry => hfetch entry.1
      (.tail _ (List.mem_append_right _ (List.fst_mem_of_mem_zipIdx hentry))) _
  -- the logs before and after those of the peers in question are absorbed in the same way
  have hparts : ∀ (files : String → Except FileFault String) (middle : List String),
      benchmarkLogs files client (before ++ middle ++ after) storages =
        Source.fetch files ⟨client, .client⟩ :: peerLogs files before ++
          (peerLogs files middle ++ (peerLogs files after ++ storageLogs files 0 storages)) := by
    intro files middle
    rw [benchmarkLogs_eq]
    simp only [peerLogs, List.map_append, List.cons_append, List.append_assoc]
  refine analyze_congr (fun s => ?_) report
  simp only [hparts, hclient, hbefore, hafter, hstorages, Session.absorbs_append,
    hmiddle]

/-- Rotation and repetition do no harm. A benchmark in which the log of a peer has been rotated, so
that its two parts stand in its place, succeeds as before and with the same report; and so does one
in which the log of a peer is given twice in a row. Of any session and any stream the same is true:
a stream without a fault leaves what its two parts leave one after the other, and the counts of its
verdicts are the sums of theirs; and a stream that is replayed again changes nothing. -/
theorem rotation_and_repetition (files : String → Except FileFault String) (client : String)
    (before after storages : List String) :
    (∀ files' path first second,
      Rotated files files' path first second (client :: (before ++ after ++ storages)) → ∀ report,
        (analyze (benchmarkLogs files client (before ++ [path] ++ after) storages)).outcome =
            .ok report ↔
          (analyze (benchmarkLogs files' client (before ++ [first, second] ++ after)
            storages)).outcome = .ok report) ∧
      (∀ path report,
        (analyze (benchmarkLogs files client (before ++ [path, path] ++ after) storages)).outcome =
            .ok report ↔
          (analyze (benchmarkLogs files client (before ++ [path] ++ after) storages)).outcome =
            .ok report) ∧
      (∀ (s : Session) (source : Source) (entries entries' : List Entry),
        (∀ entry ∈ entries ++ entries', StreamRecord.usable ⟨source.role, entry.record⟩) →
          ∃ t t', (s.replay ⟨source, entries⟩).outcome = .ok t ∧
            ((s.replay ⟨source, entries⟩).session.replay ⟨source, entries'⟩).outcome = .ok t' ∧
              (s.replay ⟨source, entries ++ entries'⟩).outcome = .ok (t.plus t') ∧
                (s.replay ⟨source, entries ++ entries'⟩).session =
                  ((s.replay ⟨source, entries⟩).session.replay ⟨source, entries'⟩).session) ∧
      ∀ (s : Session) (stream : Stream),
        ((s.replay stream).session.replay stream).session = (s.replay stream).session := by
  refine ⟨fun files' path first second h report => ?_, fun path report => ?_,
    fun s source entries entries' h => s.replay_append h, Session.replay_again⟩
  · have hparts : ∀ s s' : Session, s.Absorbs (peerLogs files [path]) s' ↔
        s.Absorbs (peerLogs files' [first, second]) s' := Session.absorbs_rotated h .peer
    exact analyze_replace_peers h.same hparts report
  · have htwice : peerLogs files [path, path] = peerLogs files [path] ++ peerLogs files [path] :=
      rfl
    refine analyze_replace_peers (fun _ _ => rfl) (fun s s' => ?_) report
    rw [htwice, Session.absorbs_again]

/-- The logs of the meddled benchmark, with the node's log in two parts. -/
def rotatedFiles (path : String) : Except FileFault String :=
  if path = "peer.log.1" then
    .ok (.ofList (Log.eventLine "blk_recv_tx" "2021-01-01T00:00:02Z" "\"tx_id\":\"b\""))
  else if path = "peer.log" then
    .ok (.ofList (Log.eventLine "tx_commit" "2021-01-01T00:00:03Z"
      "\"height\":8,\"tx_ids\":[\"b\"]"))
  else meddledFiles path

/-- The meddled benchmark has the same report if the peer's log has been rotated or is given twice,
and the peer's stream is replayed in its parts. -/
theorem rotation_and_repetition_meddled :
    ∃ report, (analyze (benchmarkLogs meddledFiles "client.log" ["peer.log"]
        ["storage.log"])).outcome = .ok report ∧
      (analyze (benchmarkLogs rotatedFiles "client.log" ["peer.log.1", "peer.log"]
        ["storage.log"])).outcome = .ok report ∧
      (analyze (benchmarkLogs meddledFiles "client.log" ["peer.log", "peer.log"]
        ["storage.log"])).outcome = .ok report ∧
      ∃ t t', (Session.empty.replay ⟨⟨"peer.log", .peer⟩, meddlingEntries.take 1⟩).outcome = .ok t ∧
        (Session.empty.replay ⟨⟨"peer.log", .peer⟩, meddlingEntries⟩).outcome =
          .ok (t.plus t') := by
  have hrotated : Rotated meddledFiles rotatedFiles "peer.log" "peer.log.1" "peer.log"
      ["client.log", "storage.log"] :=
    { parts := ⟨_, _, by
        rw [meddledFiles, if_neg (by decide), meddlingLog, String.ofList_append], .inr (by
        rw [String.toList_ofList]; decide), by simp [rotatedFiles], by simp [rotatedFiles]⟩
      same := List.forall_mem_cons.mpr ⟨by simp [rotatedFiles],
        List.forall_mem_singleton.mpr (by simp [rotatedFiles])⟩ }
  obtain ⟨hrotation, hrepetition, hparts, -⟩ :=
    rotation_and_repetition meddledFiles "client.log" [] [] ["storage.log"]
  obtain ⟨s, w, h, -⟩ := exists_report_meddled
  obtain ⟨t, t', hfirst, -, hwhole, -⟩ := hparts Session.empty ⟨"peer.log", .peer⟩
    (meddlingEntries.take 1) (meddlingEntries.drop 1) (by decide)
  exact ⟨_, h, (hrotation _ _ _ _ hrotated _).mp h, (hrepetition _ _).mpr h, t, t', hfirst, hwhole⟩

end LedgerBench
