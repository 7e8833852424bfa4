import Foregone.Command
import Foregone.Proofs.GuardReports
import Foregone.Proofs.JsonReading

/-! # What a check prints

The same findings are printed in either format, one line or one record for each, and the
exit status tells whether there are any. A path that cannot be opened leaves no trace but
its own log lines. This is about the check itself, of whatever paths it is given: the command
line gives it none that do not exist or must not be read, and ends the run instead. -/

namespace Foregone

/-! ## Lines -/

/-- Where the finding is and what it says. -/
def Finding.lineText (f : Finding) : String :=
  f.path ++ ":" ++ toString f.diagnostic.location.line ++ ":" ++
    toString f.diagnostic.location.column ++ ": " ++ f.diagnostic.message

theorem Finding.line_eq (f : Finding) : f.line = f.lineText ++ "\n" := by
  simp [line, lineText, Diagnostic.text, Location.text, String.append_assoc]

theorem render_text (fs : List Finding) :
    ReportFormat.text.render fs = String.join (fs.map fun f => f.lineText ++ "\n") := by
  rw [← String.toList_inj, ReportFormat.render, Text.toList_intercalate_empty, String.toList_join]
  exact congrArg (List.flatMap String.toList) (List.map_congr_left fun f _ => f.line_eq)

/-- Lines that are ended one by one are found again. -/
theorem splitOn_lines {lines : List (List Char)} (h : ∀ l ∈ lines, '\n' ∉ l) :
    (lines.flatMap fun l => l ++ ['\n']).splitOn '\n' = lines ++ [[]] := by
  have hjoined : (lines.flatMap fun l => l ++ ['\n']) = ['\n'].intercalate (lines ++ [[]]) := by
    clear h
    induction lines with
    | nil => rfl
    | cons l lines ih =>
      have hne : lines ++ [[]] ≠ [] := by simp
      rw [List.flatMap_cons, ih, List.cons_append, List.intercalate_cons_of_ne_nil hne]
  rw [hjoined]
  refine List.splitOn_intercalate '\n' ?_ (by simp)
  intro l hl
  obtain hl | hl := List.mem_append.mp hl
  · exact h l hl
  · simp [List.mem_singleton.mp hl]

/-- A message is one line. -/
theorem not_mem_lineText {f : Finding} (hpath : '\n' ∉ f.path.toList)
    (hmessage : f.diagnostic.message = Diagnostic.messageOf f.diagnostic.verdict) :
    '\n' ∉ f.lineText.toList := by
  have hdigits (n : Nat) : '\n' ∉ Nat.toDigits 10 n := by
    intro hmem
    exact absurd (Literal.isDigit_of_mem_toDigits _ hmem) (by decide)
  have hverdict (b : Bool) : '\n' ∉ (Diagnostic.messageOf b).toList := by
    cases b <;> decide
  simp [Finding.lineText, hmessage, hpath, hdigits, hverdict]

/-! ## Files that cannot be opened -/

/-- What stands there can be named, but not opened. -/
inductive FileTree.Unopened (reason : String) : FileTree → Prop
  | file : Unopened reason (.file (.error reason))
  | other : Unopened reason (.other reason)

theorem SourceFile.ofPaths_insert {reason bad : String} {tree : FileTree}
    (h : tree.Unopened reason) (front behind : List (String × FileTree)) :
    ofPaths (front ++ (bad, tree) :: behind) =
      ofPaths front ++ ⟨Path.text (Path.parts bad), .error reason⟩ :: ofPaths behind := by
  have hbad : ofPath bad tree = [⟨Path.text (Path.parts bad), .error reason⟩] := by
    cases h <;> rfl
  rw [ofPaths, List.flatMap_append, List.flatMap_cons, hbad]
  rfl

namespace Report

variable {host : Host}

theorem findingsIn_eq (path : String) (source : List UInt8) : findingsIn path source host =
    (IfStatement.diagnostics (IfStatement.ofSource source host) host).map fun d => ⟨path, d⟩ := by
  simp only [findingsIn, checkSource, IfStatement.checkAll_eq]
  rfl

theorem message_of_mem_findings {files : List SourceFile} {f : Finding}
    (h : f ∈ findings files host) :
    f.diagnostic.message = Diagnostic.messageOf f.diagnostic.verdict := by
  obtain ⟨file, -, hmem⟩ := List.mem_flatMap.mp h
  rw [findingsOf] at hmem
  cases hcontent : file.content with
  | error reason => simp [hcontent] at hmem
  | ok source =>
    simp only [hcontent, findingsIn_eq] at hmem
    obtain ⟨d, hd, rfl⟩ := List.mem_map.mp hmem
    obtain ⟨s, -, hs⟩ := List.mem_flatMap.mp hd
    obtain ⟨g, -, hg⟩ := List.mem_filterMap.mp hs
    obtain ⟨b, -, rfl⟩ := Option.map_eq_some_iff.mp hg
    rfl

variable (front behind : List SourceFile) (path reason : String)

theorem findings_insert :
    findings (front ++ ⟨path, .error reason⟩ :: behind) host = findings (front ++ behind) host := by
  simp [findings, findingsOf]

theorem summary_insert :
    summary (front ++ ⟨path, .error reason⟩ :: behind) host = summary (front ++ behind) host := by
  simp [summary, findings_insert, isReadable]

theorem log_append (least : Severity) :
    log least (front ++ behind) host =
      front.flatMap (fileLog least · host) ++
        (behind.flatMap (fileLog least · host) ++ [summary (front ++ behind) host]) := by
  rw [log, List.flatMap_append, List.append_assoc]

theorem log_insert (least : Severity) :
    log least (front ++ ⟨path, .error reason⟩ :: behind) host =
      front.flatMap (fileLog least · host) ++ (fileLog least ⟨path, .error reason⟩ host ++
        (behind.flatMap (fileLog least · host) ++ [summary (front ++ behind) host])) := by
  rw [log, summary_insert, List.flatMap_append, List.flatMap_cons, List.append_assoc,
    List.append_assoc]

/-- What is told about a file that cannot be read names it. -/
theorem infix_of_mem_fileLog {least : Severity} {l : LogLine}
    (h : l ∈ fileLog least ⟨path, .error reason⟩ host) : path.toList <:+: l.message.toList := by
  obtain rfl | h := List.mem_cons.mp h
  · exact ⟨"Checking ".toList, [], by simp⟩
  · refine ⟨"Could not read ".toList, (": " ++ reason ++ ": " ++ Text.quoted path).toList, ?_⟩
    simp [List.mem_singleton.mp h]

end Report

/-! ## Runs -/

/-- The line about the whole run is shown however little is asked for. -/
theorem Severity.shown_success (v : Nat) : (threshold v).shown .success = true := by
  rcases v with _ | _ | _ | v <;> rfl

theorem Severity.shown_warning (least : Severity) : least.shown .warning = true := by
  cases least <;> rfl

namespace Outcome

/-- Nothing was wrong with the call; the exit status tells whether there are findings, and
the last line of the log how many there are and in how many files. -/
structure Reports (o : Outcome) (files : List SourceFile) (found : List Finding) : Prop where
  usageError : o.usageError = none
  exit : o.exit = if found = [] then 0 else 1
  counts : o.log.getLast? = some ⟨.success,
    "Checked " ++ toString (files.filter Report.isReadable).length ++ " file(s), found " ++
      toString found.length ++ " constant condition(s)"⟩

/-- The second outcome differs only by log lines about a path, one of them a warning. -/
structure Gains (o : Outcome) (path : String) (o' : Outcome) : Prop where
  output : o'.output = o.output
  exit : o'.exit = o.exit
  usageError : o'.usageError = o.usageError
  counts : o'.log.getLast? = o.log.getLast?
  log : ∃ before added behind, o.log = before ++ behind ∧ o'.log = before ++ added ++ behind ∧
    (∀ l ∈ added, path.toList <:+: l.message.toList) ∧
    added.countP (fun l => l.severity = .warning) = 1

variable {host : Host} {format : ReportFormat}

theorem shownLog_append (least : Severity) (lines more : List LogLine) :
    shownLog least (lines ++ more) = shownLog least lines ++ shownLog least more :=
  List.filter_append ..

section Check

variable {least : Severity} (hleast : least.shown .success = true)

include hleast

theorem ofCheck_reports (files : List SourceFile) :
    (ofCheck least format files host).Reports files (Report.findings files host) where
  usageError := rfl
  exit := by simp [ofCheck]
  counts := by
    have hlast : shownLog least [Report.summary files host] = [Report.summary files host] := by
      simp [shownLog, Report.summary, hleast]
    rw [ofCheck, Report.log, shownLog_append, hlast, List.getLast?_concat]
    rfl

theorem ofCheck_gains (front behind : List SourceFile) (path reason : String) :
    (ofCheck least format (front ++ behind) host).Gains path
      (ofCheck least format (front ++ ⟨path, .error reason⟩ :: behind) host) where
  output := by rw [ofCheck, ofCheck, Report.findings_insert]
  exit := by rw [ofCheck, ofCheck, Report.findings_insert]
  usageError := rfl
  counts := by
    rw [(ofCheck_reports hleast _).counts, (ofCheck_reports hleast _).counts,
      Report.findings_insert]
    simp [Report.isReadable]
  log := by
    refine ⟨shownLog least (front.flatMap (Report.fileLog least · host)),
      shownLog least (Report.fileLog least ⟨path, .error reason⟩ host),
      shownLog least (behind.flatMap (Report.fileLog least · host) ++
        [Report.summary (front ++ behind) host]), ?_, ?_, ?_, ?_⟩
    · rw [ofCheck, Report.log_append, shownLog_append]
    · rw [ofCheck, Report.log_insert, shownLog_append, shownLog_append, List.append_assoc]
    · intro l hl
      exact Report.infix_of_mem_fileLog path reason (List.mem_filter.mp hl).1
    · cases hinfo : least.shown .info <;>
        simp [shownLog, Report.fileLog, hinfo, Severity.shown_warning]

end Check

/-- Both formats tell the same: what is found in the files that can be read, in order. It is
a line each in the one and a record each in the other, and decides the exit status. A path
that cannot be opened adds log lines about itself, one of them a warning, and changes nothing
else, wherever it stands among the paths that are checked or among the files found there. -/
theorem ofCheck_exact (host : Host) (trees : List (String × FileTree)) (v w : Nat) :
    let files := SourceFile.ofPaths trees
    let found := files.flatMap (Report.findingsOf · host)
    let text := ofCheck (.threshold v) .text files host
    let json := ofCheck (.threshold w) .json files host
    text.output = String.join (found.map fun f => f.lineText ++ "\n") ∧
    ((∀ f ∈ found, '\n' ∉ f.path.toList) →
      text.output.toList.splitOn '\n' = (found.map fun f => f.lineText.toList) ++ [[]]) ∧
    Json.read json.output = some (found.map Finding.values) ∧
    text.Reports files found ∧ json.Reports files found ∧
    (∀ front behind bad tree reason u format, trees = front ++ behind → tree.Unopened reason →
      (ofCheck (.threshold u) format files host).Gains (Path.text (Path.parts bad))
        (ofCheck (.threshold u) format
          (SourceFile.ofPaths (front ++ (bad, tree) :: behind)) host)) ∧
    ∀ front behind path reason u format, files = front ++ behind →
      (ofCheck (.threshold u) format files host).Gains path
        (ofCheck (.threshold u) format (front ++ ⟨path, .error reason⟩ :: behind) host) := by
  intro files found text json
  have houtput : text.output = String.join (found.map fun f => f.lineText ++ "\n") :=
    render_text found
  refine ⟨houtput, ?_, Json.read_render found, ofCheck_reports (Severity.shown_success v) files,
    ofCheck_reports (Severity.shown_success w) files, ?_, ?_⟩
  · intro hpaths
    rw [houtput, String.toList_join, ← splitOn_lines]
    · simp [List.flatMap_map]
    · simp only [List.forall_mem_map]
      intro f hf
      exact not_mem_lineText (hpaths f hf) (Report.message_of_mem_findings hf)
  · rintro front behind bad tree reason u format rfl hunopened
    have hfiles : files = SourceFile.ofPaths front ++ SourceFile.ofPaths behind :=
      List.flatMap_append
    rw [hfiles, SourceFile.ofPaths_insert hunopened]
    exact ofCheck_gains (Severity.shown_success u) _ _ _ _
  · rintro front behind path reason u format hfiles
    rw [hfiles]
    exact ofCheck_gains (Severity.shown_success u) _ _ _ _

/-- A thing that cannot be opened stands in front of a file with a single guard. -/
theorem ofCheck_exact_unopened :
    let source := Utf8.encode "if 1:\n  pass\n"
    let paths : List (String × FileTree) := [("a", .file (.ok source))]
    let shown := Path.text (Path.parts "a")
    let found : Finding := ⟨shown, ⟨1, 4, 1, 5⟩, "The condition is always true", true⟩
    let check (format : ReportFormat) (paths : List (String × FileTree)) :=
      ofCheck (.threshold 0) format (SourceFile.ofPaths paths) .usual
    (check .text paths).output = found.lineText ++ "\n" ∧ (check .text paths).exit = 1 ∧
      Json.read (check .json paths).output = some [found.values] ∧
      (check .json paths).exit = 1 ∧
      (check .text paths).Gains (Path.text (Path.parts "s"))
        (check .text (("s", .other "closed") :: paths)) := by
  intro source paths shown found check
  have hsource : source = "if 1:\n  pass\n".toList.flatMap String.utf8EncodeChar :=
    Utf8.encode_eq _
  have hread : (Node.ofSource? source).map (fun tree => IfStatement.diagnostics
      (tree.ifStatements.filterMap (IfStatement.ofNode? source · .usual)) .usual) =
        some [found.diagnostic] := by
    rw [hsource]
    decide +kernel
  obtain ⟨tree, htree, hdiagnostics⟩ := Option.map_eq_some_iff.mp hread
  have hfound : (SourceFile.ofPaths paths).flatMap (Report.findingsOf · .usual) = [found] := by
    have hin : Report.findingsIn shown source .usual = [found] := by
      rw [Report.findingsIn_eq, IfStatement.ofSource, Host.parse_eq htree, IfStatement.ofTree,
        (Node.isModule_ofSource? htree).nodesOf_eq, hdiagnostics]
      rfl
    simpa [paths, SourceFile.ofPaths, SourceFile.ofPath, Report.findingsOf] using hin
  obtain ⟨houtput, -, hjson, htextReports, hjsonReports, hgains, -⟩ :=
    ofCheck_exact .usual paths 0 0
  rw [hfound] at houtput hjson htextReports hjsonReports
  refine ⟨houtput.trans (by simp), htextReports.exit, hjson, hjsonReports.exit, ?_⟩
  exact hgains [] paths "s" (.other "closed") "closed" 0 .text rfl .other

/-! ## From the arguments to the check -/

variable {find : String → Option FileTree} {mayRead : String → Bool}

theorem lookUp_cons_eq_ok_iff {path : String} {paths : List String}
    {trees : List (String × FileTree)} :
    lookUp find mayRead (path :: paths) = .ok trees ↔
      ∃ tree rest, find path = some tree ∧ mayRead path = true ∧
        lookUp find mayRead paths = .ok rest ∧ trees = (path, tree) :: rest := by
  rw [lookUp]
  cases find path with
  | none => simp
  | some tree =>
    cases mayRead path with
    | false => simp
    | true => cases lookUp find mayRead paths <;> simp [Except.map, eq_comm]

/-- Paths are taken all together: each has to exist, and it has to be allowed to read each. -/
theorem lookUp_eq_ok_iff {paths : List String} {trees : List (String × FileTree)} :
    lookUp find mayRead paths = .ok trees ↔
      trees.map Prod.fst = paths ∧ ∀ t ∈ trees, find t.1 = some t.2 ∧ mayRead t.1 = true := by
  induction paths generalizing trees with
  | nil => cases trees <;> simp [lookUp]
  | cons path paths ih =>
    simp only [lookUp_cons_eq_ok_iff, ih]
    constructor
    · rintro ⟨tree, rest, hfound, hallowed, ⟨rfl, hrest⟩, rfl⟩
      exact ⟨rfl, List.forall_mem_cons.mpr ⟨⟨hfound, hallowed⟩, hrest⟩⟩
    · rintro ⟨hpaths, htrees⟩
      obtain ⟨⟨_, tree⟩, rest, rfl, rfl, hrest⟩ := List.map_eq_cons_iff.mp hpaths
      obtain ⟨⟨hfound, hallowed⟩, htrees⟩ := List.forall_mem_cons.mp htrees
      exact ⟨tree, rest, hfound, hallowed, ⟨hrest, htrees⟩, rfl⟩

section Arguments

variable {args : List String} {v : Nat} {paths : List String}
  (hargs : Request.ofArgs args = .ok (.check v format paths))

include hargs

theorem args_ne_nil : args ≠ [] := by
  rintro rfl
  exact absurd hargs nofun

/-- A run on paths that exist and may be read is the check of what stands there. -/
theorem run_of_check {trees : List (String × FileTree)} (hpaths : trees.map Prod.fst = paths)
    (htrees : ∀ t ∈ trees, find t.1 = some t.2 ∧ mayRead t.1 = true) :
    run find args mayRead host =
      ofCheck (.threshold v) format (SourceFile.ofPaths trees) host := by
  have hfound := lookUp_eq_ok_iff.mpr ⟨hpaths, htrees⟩
  rw [run, if_neg (args_ne_nil hargs), hargs]
  simp only [hfound]

/-- A run on other paths checks nothing. -/
theorem run_of_refused {path : String} (hpath : path ∈ paths)
    (hrefused : find path = none ∨ mayRead path = false) :
    ∃ e, run find args mayRead host = ofUsageError e := by
  cases hfound : lookUp find mayRead paths with
  | error e =>
    refine ⟨e, ?_⟩
    rw [run, if_neg (args_ne_nil hargs), hargs]
    simp only [hfound]
  | ok trees =>
    obtain ⟨rfl, hall⟩ := lookUp_eq_ok_iff.mp hfound
    obtain ⟨t, ht, rfl⟩ := List.mem_map.mp hpath
    obtain ⟨htree, hallowed⟩ := hall t ht
    simp [htree, hallowed] at hrefused

end Arguments

end Outcome
end Foregone
