import LedgerBench.Proofs.Ledger.LogText
import LedgerBench.Proofs.Report.ClientMetrics

/-!
# Lines that change nothing

A blank line tells nothing, and neither does a record that is passed over: one that is unknown, that
only the client is believed about and a node has written, or that tells of an execution outside a
storage node. Such a line is noise to the stream, whatever its time, its duration and its payload
are.

Effects are all that an analysis sees of its logs, so it does not see noise. The proof has one step
for each way in which a list grows by such lines (`allTell_inserted`); `analyze_noise` carries this
over to texts, in which the lines are put, and to analyses.
-/

namespace LedgerBench

/-- The second list is the first one with extra items inserted anywhere. -/
inductive Inserted {α : Type} (extra : α → Prop) : List α → List α → Prop where
  /-- Nothing is inserted. -/
  | nil : Inserted extra [] []
  /-- The first item is in both lists. -/
  | keep (x : α) {xs ys : List α} (rest : Inserted extra xs ys) : Inserted extra (x :: xs) (x :: ys)
  /-- The first item is an extra one. -/
  | insert {x : α} {xs ys : List α} (new : extra x) (rest : Inserted extra xs ys) :
    Inserted extra xs (x :: ys)

namespace Inserted

variable {α : Type} {extra : α → Prop}

/-- Nothing needs to be inserted. -/
theorem refl (xs : List α) : Inserted extra xs xs := by
  induction xs with
  | nil => exact .nil
  | cons x xs ih => exact .keep x ih

/-- Extra items are inserted behind some others. -/
theorem middle (front rest : List α) {new : List α} (h : ∀ x ∈ new, extra x) :
    Inserted extra (front ++ rest) (front ++ (new ++ rest)) := by
  induction front with
  | cons x front ih => exact .keep x ih
  | nil =>
    induction new with
    | nil => exact refl rest
    | cons x new ih => exact .insert (h x (.head _)) (ih fun y hy => h y (.tail _ hy))

end Inserted

/-- Items that tell nothing do not change what a list tells. -/
theorem allTell_inserted {α : Type} {extra : α → Prop} {tells : α → List Effect → Prop}
    {xs ys : List α} (h : Inserted extra xs ys)
    (hextra : ∀ x, extra x → ∀ es, tells x es ↔ es = []) {es : List Effect} :
    AllTell tells ys es ↔ AllTell tells xs es := by
  induction h generalizing es with
  | nil => exact Iff.rfl
  | keep x _ ih => simp only [allTell_cons, ih]
  | insert new _ ih => simp [allTell_cons, ih, hextra _ new]

/-- A line that changes nothing in a stream with the given role: it is white space, or its record is
passed over. -/
def Log.IsNoise (role : Role) (line : List Char) : Prop :=
  Log.isBlankLine line = true ∨ ∃ r v, Record.read line = .ok r ∧ r.judge role = .ok v ∧
    (v = .ignored ∨ v = .unrecognized ∨ v = .missingNode)

/-- Such a line tells nothing. -/
theorem Log.IsNoise.lineTells_iff {role : Role} {line : List Char} (h : Log.IsNoise role line)
    {es : List Effect} : LineTells role line es ↔ es = [] := by
  cases hblank : Log.isBlankLine line with
  | true => exact lineTells_of_blank hblank
  | false =>
    rcases h with hblank' | ⟨r, v, hread, hjudge, hv⟩
    · cases hblank.symm.trans hblank'
    · have hnone : v.effect?.toList = [] := by
        rcases hv with rfl | rfl | rfl <;> rfl
      rw [lineTells_of_not_blank hblank]
      constructor
      · rintro ⟨r', v', hread', hjudge', rfl⟩
        cases hread.symm.trans hread'
        cases hjudge.symm.trans hjudge'
        exact hnone
      · rintro rfl
        exact ⟨r, v, hread, hjudge, hnone.symm⟩

/-- The second text consists of the lines of the first one and of lines that change nothing, which
are inserted anywhere between them. -/
def Log.NoiseAdded (role : Role) (text text' : List Char) : Prop :=
  ∃ ls ls', Text.HasLines text ls ∧ Text.HasLines text' ls' ∧ Inserted (Log.IsNoise role) ls ls'

/-- A text with more lines behind its first ones. -/
def Text.inserted (n : Nat) (new : List (List Char)) (text : List Char) : List Char :=
  terminated ((text.splitOn '\n').take n ++ (new ++ (text.splitOn '\n').drop n))

/-- Lines that change nothing may be put behind any number of lines of a text. -/
theorem Log.NoiseAdded.inserted {role : Role} (n : Nat) {noise : List (List Char)}
    (h : ∀ line ∈ noise, '\n' ∉ line ∧ Log.IsNoise role line) (text : List Char) :
    Log.NoiseAdded role text (Text.inserted n noise text) := by
  have hlines := Text.hasLines_splitOn text
  refine ⟨_, _, hlines, ⟨fun line hline => ?_, .inl rfl⟩, ?_⟩
  · rcases List.mem_append.mp hline with hfront | hline
    · exact hlines.unbroken line (List.mem_of_mem_take hfront)
    · rcases List.mem_append.mp hline with hnew | hrest
      · exact (h line hnew).1
      · exact hlines.unbroken line (List.mem_of_mem_drop hrest)
  · have hinserted := Inserted.middle ((text.splitOn '\n').take n) ((text.splitOn '\n').drop n)
      fun line hline => (h line hline).2
    rwa [List.take_append_drop] at hinserted

/-- A log with noise tells what it tells without. -/
theorem Log.NoiseAdded.allTell_iff {role : Role} {text text' : List Char}
    (h : Log.NoiseAdded role text text') {es : List Effect} :
    AllTell (LineTells role) (Text.lines text') es ↔
      AllTell (LineTells role) (Text.lines text) es := by
  obtain ⟨ls, ls', hlines, hlines', hinserted⟩ := h
  rw [allTell_lines_of_hasLines hlines, allTell_lines_of_hasLines hlines']
  exact allTell_inserted hinserted fun line hnoise es => hnoise.lineTells_iff

/-- Noise does not change the report. If each log of an analysis is left as it is, or gets lines
that change nothing in its stream, the analysis succeeds as before and with the same report. -/
theorem analyze_noise {files files' : String → Except FileFault String} {sources : List Source}
    (h : ∀ source ∈ sources, files' source.path = files source.path ∨
      ∃ text text', files source.path = .ok text ∧ files' source.path = .ok text' ∧
        Log.NoiseAdded source.role text.toList text'.toList) (report : Report) :
    (analyze (sources.map (Source.fetch files'))).outcome = .ok report ↔
      (analyze (sources.map (Source.fetch files))).outcome = .ok report := by
  have htell : ∀ es, AllTell Input.Tells (sources.map (Source.fetch files')) es ↔
      AllTell Input.Tells (sources.map (Source.fetch files)) es := by
    refine fun es => allTell_congr ?_
    rw [List.forall₂_map_left_iff, List.forall₂_map_right_iff]
    refine List.forall₂_same.mpr fun source hsource es => ?_
    unfold Input.Tells Source.fetch
    dsimp only
    rcases h source hsource with hsame | ⟨text, text', htext, htext', hnoise⟩
    · rw [hsame]
    · rw [htext, htext']
      simp [hnoise.allTell_iff]
  refine analyze_congr (fun s => ?_) report
  simp only [Session.absorbs_iff, htell]

/-- Noise in the client's log: white space with a carriage return, an unknown event at a time that
is none, and an execution that took no time that can be read. -/
def clientNoise : List (List Char) :=
  [" \t\r".toList, "\x7b\"k\":\"event\",\"l\":\"gossip\",\"ts\":42\x7d".toList,
    "\x7b\"k\":\"time\",\"l\":\"exec_time\",\"t_in_us\":\"long\",\"v\":[]\x7d".toList]

/-- Noise in a peer's log: a commit, about which the peer is not believed, without a height. -/
def peerNoise : List (List Char) :=
  ["\x7b\"k\":\"event\",\"l\":\"tx_commit\",\"ts\":null,\"v\":0\x7d".toList]

/-- The logs with the meddling nodes, and with noise inside the client's and before the peer's. -/
def noisyFiles (path : String) : Except FileFault String :=
  if path = "client.log" then .ok (.ofList (Text.inserted 2 clientNoise committedLog))
  else if path = "peer.log" then .ok (.ofList (Text.inserted 0 peerNoise meddlingLog))
  else meddledFiles path

/-- The benchmark has the same report with the noise. -/
theorem analyze_noise_meddled :
    ∃ report, (analyze (benchmarkLogs meddledFiles "client.log" ["peer.log"]
        ["storage.log"])).outcome = .ok report ∧
      (analyze (benchmarkLogs noisyFiles "client.log" ["peer.log"] ["storage.log"])).outcome =
        .ok report := by
  obtain ⟨s, w, h, -⟩ := exists_report_meddled
  have hclient : ∀ line ∈ clientNoise, '\n' ∉ line ∧ Log.IsNoise .client line :=
    List.forall_mem_cons.mpr ⟨⟨by decide, .inl (by decide)⟩,
      List.forall_mem_cons.mpr ⟨⟨by decide, .inr ⟨_, _, rfl, rfl, .inr (.inl rfl)⟩⟩,
        List.forall_mem_singleton.mpr ⟨by decide, .inr ⟨_, _, rfl, rfl, .inr (.inr rfl)⟩⟩⟩⟩
  have hpeer : ∀ line ∈ peerNoise, '\n' ∉ line ∧ Log.IsNoise .peer line :=
    List.forall_mem_singleton.mpr ⟨by decide, .inr ⟨_, _, rfl, rfl, .inl rfl⟩⟩
  refine ⟨_, h, (analyze_noise (List.forall_mem_cons.mpr ⟨.inr ⟨.ofList committedLog,
      .ofList (Text.inserted 2 clientNoise committedLog), by simp [meddledFiles],
      by simp [noisyFiles], ?_⟩,
    List.forall_mem_cons.mpr ⟨.inr ⟨.ofList meddlingLog,
      .ofList (Text.inserted 0 peerNoise meddlingLog), by simp [meddledFiles],
      by simp [noisyFiles], ?_⟩,
    List.forall_mem_singleton.mpr (.inl (by simp [noisyFiles]))⟩⟩) _).mpr h⟩
  · rw [String.toList_ofList, String.toList_ofList]
    exact .inserted 2 hclient committedLog
  · rw [String.toList_ofList, String.toList_ofList]
    exact .inserted 0 hpeer meddlingLog

end LedgerBench
