import LogosPluginQt.GeneratorOutput

namespace LogosPluginQt
set_option autoImplicit true

/-- `argValue`: what follows the first occurrence of a flag, wherever that is. -/
def argValue (args : List String) (flag : String) : String :=
  match args.idxOf? flag with
  | some i => args.getD (i + 1) ""
  | none => ""

/-- What the generator is told on its command line; no output directory is the empty one. -/
structure GeneratorOptions where
  lidlPath : String
  multi : Bool
  maxWorkers : Int
  outputDir : String

structure ParseError where
  line : Nat
  column : Nat
  text : String

/-- What the generator calls: the file system, Qt's numbers, the frontend and the two emitters.
Reading a file as text and decoding it belong to `parse`. -/
structure GeneratorHost (P D : Type) where
  fs : FileSystem P
  currentPath : String
  toInt : String → Option Int
  q : QtText
  parse : List UInt8 → Except ParseError D
  validateBuiltins : D → Option String
  serialize : D → String
  name : D → String
  header : D → Bool → Int → String
  source : D → String → Bool → Int → String

structure Refused where
  status : Nat
  text : String
  failure : status ≠ 0

def usage : String :=
  "Usage: logos-qt-host-generator --lidl <contract.lidl>\n" ++
  "         [--concurrency multi] [--max-workers <n>]\n" ++
  "         [--output-dir <dir>]\n"

section
variable {P D : Type} [DecidableEq P] (g : GeneratorHost P D)

namespace GeneratorHost

def readMaxWorkers (args : List String) (multi : Bool) : Except Refused Int :=
  if args.contains "--max-workers" then
    match g.toInt (argValue args "--max-workers") with
    | some n =>
      if n ≤ 0 then
        .error ⟨2, "Error: --max-workers must be a positive integer.\n", by decide⟩
      else if !multi then
        .error ⟨2, "Error: --max-workers requires --concurrency multi.\n", by decide⟩
      else .ok n
    | none => .error ⟨2, "Error: --max-workers must be a positive integer.\n", by decide⟩
  else .ok 0

def readOptions (args : List String) : Except Refused GeneratorOptions := do
  let lidlPath := argValue args "--lidl"
  let multi := argValue args "--concurrency" == "multi"
  let maxWorkers ← g.readMaxWorkers args multi
  if lidlPath = "" then .error ⟨1, usage, by decide⟩
  else
    let backend := argValue args "--backend"
    if backend ≠ "" ∧ backend ≠ "cdylib" then
      .error ⟨2, "Error: logos-qt-host-generator only emits the cdylib backend, " ++
        "but --backend " ++ backend ++ " was requested.\n", by decide⟩
    else .ok ⟨lidlPath, multi, maxWorkers, argValue args "--output-dir"⟩

def outputDir (o : GeneratorOptions) : String :=
  if o.outputDir = "" then g.fs.filePath g.currentPath "generated" else o.outputDir

def readContract (lidlPath : String) (bytes : List UInt8) : Except Refused D :=
  match g.parse bytes with
  | .error e =>
    .error ⟨4, lidlPath ++ ":" ++ toString e.line ++ ":" ++ toString e.column ++ ": " ++ e.text ++
      "\n", by decide⟩
  | .ok d =>
    match g.validateBuiltins d with
    | some error => .error ⟨4, lidlPath ++ ": " ++ error ++ "\n", by decide⟩
    | none => .ok d

def outputs (o : GeneratorOptions) (d : D) : List Out :=
  glueOutputs g.q (g.name d) (g.header d o.multi o.maxWorkers)
    (g.source d (g.serialize d) o.multi o.maxWorkers)

structure Result (P : Type) where
  status : Nat
  disk : Disk P
  made : List String

def refuse (r : Refused) (d : Disk P) (made : List String) : Result P :=
  ⟨r.status, { d with err := d.err ++ r.text }, made⟩

/-- The generator's `main`, with what comes of each of its outputs. -/
def main (args : List String) (header source : Outcome) (disk : Disk P) : Result P :=
  match g.readOptions args with
  | .error r => refuse r disk []
  | .ok o =>
    let dir := g.outputDir o
    match disk.file (g.fs.locate o.lidlPath) with
    | none =>
      refuse ⟨3, "Failed to open LIDL file: " ++ o.lidlPath ++ "\n", by decide⟩ disk [dir]
    | some bytes =>
      match g.readContract o.lidlPath bytes with
      | .error r => refuse r disk [dir]
      | .ok d =>
        let (rc, disk) := writeAll g.fs dir ((g.outputs o d).zip [header, source]) disk
        ⟨rc, disk, [dir]⟩

end GeneratorHost
end

section
variable {args rest : List String} {a flag value : String} {opts opts' : List (String × String)}

/-! Command lines. -/

theorem argValue_cons_self : argValue (flag :: rest) flag = rest.headD "" := by
  rw [argValue, List.idxOf?_cons, beq_self_eq_true]
  cases rest <;> rfl

theorem argValue_cons_of_ne (h : a ≠ flag) : argValue (a :: rest) flag = argValue rest flag := by
  rw [argValue, argValue, List.idxOf?_cons, beq_false_of_ne h]
  cases rest.idxOf? flag <;> rfl

def commandLine (opts : List (String × String)) : List String :=
  opts.flatMap fun opt => [opt.1, opt.2]

def generatorFlags : List String :=
  ["--lidl", "--concurrency", "--max-workers", "--output-dir", "--backend"]

structure WellFormedOptions (opts : List (String × String)) : Prop where
  flags : (opts.map Prod.fst).Nodup
  values : ∀ opt ∈ opts, opt.2 ∉ generatorFlags

theorem WellFormedOptions.tail {opt : String × String} (h : WellFormedOptions (opt :: opts)) :
    WellFormedOptions opts :=
  ⟨(List.nodup_cons.1 h.flags).2, fun o ho => h.values o (List.mem_cons_of_mem _ ho)⟩

theorem WellFormedOptions.perm (h : WellFormedOptions opts) (hp : opts.Perm opts') :
    WellFormedOptions opts' :=
  ⟨(hp.map Prod.fst).nodup_iff.1 h.flags, fun opt ho => h.values opt (hp.mem_iff.2 ho)⟩

theorem argValue_given (h : WellFormedOptions opts) (hflag : flag ∈ generatorFlags)
    (hopt : (flag, value) ∈ opts) : argValue (commandLine opts) flag = value := by
  induction opts with
  | nil => cases hopt
  | cons opt opts ih =>
    have hline : commandLine (opt :: opts) = opt.1 :: opt.2 :: commandLine opts := rfl
    obtain rfl | hopt := List.mem_cons.1 hopt
    · rw [hline, argValue_cons_self]
      rfl
    · have hne : opt.1 ≠ flag := by
        rintro rfl
        exact (List.nodup_cons.1 h.flags).1 (List.mem_map.2 ⟨(opt.1, value), hopt, rfl⟩)
      have hvalue : opt.2 ≠ flag := by
        rintro rfl
        exact h.values opt (List.mem_cons_self ..) hflag
      rw [hline, argValue_cons_of_ne hne, argValue_cons_of_ne hvalue]
      exact ih h.tail hopt

theorem mem_commandLine (h : WellFormedOptions opts) (hflag : flag ∈ generatorFlags) :
    flag ∈ commandLine opts ↔ ∃ value, (flag, value) ∈ opts := by
  constructor
  · intro hmem
    obtain ⟨opt, hopt, hmem⟩ := List.mem_flatMap.1 hmem
    obtain rfl | hmem := List.mem_cons.1 hmem
    · exact ⟨opt.2, hopt⟩
    · obtain rfl := List.mem_singleton.1 hmem
      exact absurd hflag (h.values opt hopt)
  · rintro ⟨value, hopt⟩
    exact List.mem_flatMap.2 ⟨(flag, value), hopt, List.mem_cons_self ..⟩

theorem argValue_absent (h : flag ∉ args) : argValue args flag = "" := by
  rw [argValue, List.idxOf?_eq_none_iff.2 h]

theorem argValue_perm (h : WellFormedOptions opts) (hp : opts.Perm opts')
    (hflag : flag ∈ generatorFlags) :
    argValue (commandLine opts) flag = argValue (commandLine opts') flag := by
  by_cases hgiven : ∃ value, (flag, value) ∈ opts
  · obtain ⟨value, hopt⟩ := hgiven
    rw [argValue_given h hflag hopt, argValue_given (h.perm hp) hflag (hp.mem_iff.1 hopt)]
  · have hgiven' : ¬ ∃ value, (flag, value) ∈ opts' :=
      fun ⟨value, hopt⟩ => hgiven ⟨value, hp.mem_iff.2 hopt⟩
    rw [argValue_absent (mt (mem_commandLine h hflag).1 hgiven),
      argValue_absent (mt (mem_commandLine (h.perm hp) hflag).1 hgiven')]

theorem given_perm (h : WellFormedOptions opts) (hp : opts.Perm opts')
    (hflag : flag ∈ generatorFlags) :
    (commandLine opts).contains flag = (commandLine opts').contains flag := by
  rw [Bool.eq_iff_iff, List.contains_iff_mem, List.contains_iff_mem, mem_commandLine h hflag,
    mem_commandLine (h.perm hp) hflag]
  exact ⟨fun ⟨value, hopt⟩ => ⟨value, hp.mem_iff.1 hopt⟩,
    fun ⟨value, hopt⟩ => ⟨value, hp.mem_iff.2 hopt⟩⟩

end

section
variable {P D : Type} [DecidableEq P] {g : GeneratorHost P D} {args : List String}
  {o : GeneratorOptions} {d : D}

omit [DecidableEq P] in
theorem readOptions_congr {args' : List String}
    (hvalue : ∀ flag ∈ generatorFlags, argValue args flag = argValue args' flag)
    (hgiven : args.contains "--max-workers" = args'.contains "--max-workers") :
    g.readOptions args = g.readOptions args' := by
  have hlidl := hvalue "--lidl" (by decide)
  have hconcurrency := hvalue "--concurrency" (by decide)
  have hworkers := hvalue "--max-workers" (by decide)
  have hdir := hvalue "--output-dir" (by decide)
  have hbackend := hvalue "--backend" (by decide)
  unfold GeneratorHost.readOptions GeneratorHost.readMaxWorkers
  rw [hlidl, hconcurrency, hworkers, hdir, hbackend, hgiven]

/-- The options of a command line may come in any order. -/
theorem generator_options_commute (g : GeneratorHost P D) {program : String}
    {opts opts' : List (String × String)} (hprogram : program ∉ generatorFlags)
    (h : WellFormedOptions opts) (hp : opts.Perm opts') (header source : Outcome)
    (disk : Disk P) :
    g.main (program :: commandLine opts) header source disk =
      g.main (program :: commandLine opts') header source disk := by
  have hne {flag : String} (hflag : flag ∈ generatorFlags) : program ≠ flag := by
    rintro rfl
    exact hprogram hflag
  have hoptions : g.readOptions (program :: commandLine opts) =
      g.readOptions (program :: commandLine opts') := by
    apply readOptions_congr
    · intro flag hflag
      rw [argValue_cons_of_ne (hne hflag), argValue_cons_of_ne (hne hflag)]
      exact argValue_perm h hp hflag
    · rw [List.contains_cons, List.contains_cons, given_perm h hp (by decide)]
  rw [GeneratorHost.main, GeneratorHost.main, hoptions]

structure CommandLine (g : GeneratorHost P D) (args : List String) (o : GeneratorOptions) :
    Prop where
  lidl : o.lidlPath = argValue args "--lidl" ∧ o.lidlPath ≠ ""
  concurrency : o.multi = (argValue args "--concurrency" == "multi")
  workers : ("--max-workers" ∉ args ∧ o.maxWorkers = 0) ∨ ("--max-workers" ∈ args ∧
    g.toInt (argValue args "--max-workers") = some o.maxWorkers ∧ 0 < o.maxWorkers ∧
    o.multi = true)
  backend : argValue args "--backend" = "" ∨ argValue args "--backend" = "cdylib"
  outputDir : o.outputDir = argValue args "--output-dir"

omit [DecidableEq P] in
theorem readMaxWorkers_iff {multi : Bool} {n : Int} : g.readMaxWorkers args multi = .ok n ↔
    ("--max-workers" ∉ args ∧ n = 0) ∨ ("--max-workers" ∈ args ∧
      g.toInt (argValue args "--max-workers") = some n ∧ 0 < n ∧ multi = true) := by
  unfold GeneratorHost.readMaxWorkers
  by_cases hgiven : "--max-workers" ∈ args
  · rw [if_pos (List.contains_iff_mem.2 hgiven)]
    cases hn : g.toInt (argValue args "--max-workers") with
    | none =>
      refine iff_of_false nofun ?_
      rintro (⟨habsent, _⟩ | ⟨_, ⟨⟩, _⟩)
      exact habsent hgiven
    | some k =>
      by_cases hk : k ≤ 0
      · simp only [if_pos hk]
        refine iff_of_false nofun ?_
        rintro (⟨habsent, _⟩ | ⟨_, ⟨⟩, hpos, _⟩)
        · exact habsent hgiven
        · omega
      · simp only [if_neg hk]
        cases multi with
        | false =>
          refine iff_of_false nofun ?_
          rintro (⟨habsent, _⟩ | ⟨_, _, _, ⟨⟩⟩)
          exact habsent hgiven
        | true =>
          constructor
          · rintro ⟨⟩
            exact .inr ⟨hgiven, rfl, by omega, rfl⟩
          · rintro (⟨habsent, _⟩ | ⟨_, ⟨⟩, _⟩)
            · exact absurd hgiven habsent
            · rfl
  · rw [if_neg (mt List.contains_iff_mem.1 hgiven)]
    constructor
    · rintro ⟨⟩
      exact .inl ⟨hgiven, rfl⟩
    · rintro (⟨_, rfl⟩ | ⟨hmem, _⟩)
      · rfl
      · exact absurd hmem hgiven

omit [DecidableEq P] in
theorem readOptions_iff : g.readOptions args = .ok o ↔ CommandLine g args o := by
  unfold GeneratorHost.readOptions
  dsimp only
  cases hn : g.readMaxWorkers args (argValue args "--concurrency" == "multi") with
  | error r =>
    refine iff_of_false (fun h => nomatch h) fun h => ?_
    have hok := readMaxWorkers_iff.2 h.workers
    rw [h.concurrency, hn] at hok
    cases hok
  | ok n =>
    have hworkers := readMaxWorkers_iff.1 hn
    rw [show (Except.ok n : Except Refused Int) = pure n from rfl, pure_bind]
    by_cases hlidl : argValue args "--lidl" = ""
    · rw [if_pos hlidl]
      exact iff_of_false nofun fun h => h.lidl.2 (h.lidl.1.trans hlidl)
    · rw [if_neg hlidl]
      by_cases hbackend : argValue args "--backend" ≠ "" ∧ argValue args "--backend" ≠ "cdylib"
      · rw [if_pos hbackend]
        exact iff_of_false nofun fun h => h.backend.elim hbackend.1 hbackend.2
      · rw [if_neg hbackend]
        constructor
        · rintro ⟨⟩
          exact ⟨⟨rfl, hlidl⟩, rfl, hworkers, by tauto, rfl⟩
        · intro h
          have hmulti := h.concurrency
          have hok := readMaxWorkers_iff.2 h.workers
          rw [hmulti, hn] at hok
          obtain ⟨lidlPath, multi, maxWorkers, dir⟩ := o
          obtain ⟨⟨rfl, _⟩, rfl, _, _, rfl⟩ := h
          cases hok
          rfl

/-- All the generator checks before it writes: its command line, and the contract it names. -/
structure Reads (g : GeneratorHost P D) (args : List String) (files : P → Option (List UInt8))
    (o : GeneratorOptions) (d : D) : Prop where
  accepted : CommandLine g args o
  contract : ∃ bytes, files (g.fs.locate o.lidlPath) = some bytes ∧ g.parse bytes = .ok d
  valid : g.validateBuiltins d = none

/-- How the generator comes out: refused, with all files as they were, or with its outputs. -/
inductive MainOutcome (g : GeneratorHost P D) (args : List String) (header source : Outcome)
    (disk : Disk P) : Prop where
  | refused : (∀ o d, ¬ Reads g args disk.file o d) →
      (g.main args header source disk).status ≠ 0 →
      (g.main args header source disk).disk.file = disk.file →
      (g.main args header source disk).disk.opened = disk.opened →
      MainOutcome g args header source disk
  | wrote {o : GeneratorOptions} {d : D} : Reads g args disk.file o d →
      g.main args header source disk =
        ⟨(writeAll g.fs (g.outputDir o) ((g.outputs o d).zip [header, source]) disk).1,
          (writeAll g.fs (g.outputDir o) ((g.outputs o d).zip [header, source]) disk).2,
          [g.outputDir o]⟩ → MainOutcome g args header source disk

omit [DecidableEq P] in
theorem readContract_ok {lidlPath : String} {bytes : List UInt8} :
    g.readContract lidlPath bytes = .ok d ↔
      g.parse bytes = .ok d ∧ g.validateBuiltins d = none := by
  unfold GeneratorHost.readContract
  cases hparse : g.parse bytes with
  | error e => exact iff_of_false nofun fun h => nomatch h.1
  | ok d' =>
    dsimp only
    cases hvalid : g.validateBuiltins d' with
    | none =>
      constructor
      · rintro ⟨⟩
        exact ⟨rfl, hvalid⟩
      · rintro ⟨⟨⟩, _⟩
        rfl
    | some error =>
      refine iff_of_false nofun ?_
      rintro ⟨⟨⟩, hnone⟩
      rw [hvalid] at hnone
      cases hnone

theorem main_outcome (g : GeneratorHost P D) (args : List String) (header source : Outcome)
    (disk : Disk P) : MainOutcome g args header source disk := by
  have hmain : g.main args header source disk = g.main args header source disk := rfl
  conv at hmain => rhs; unfold GeneratorHost.main
  cases ho : g.readOptions args with
  | error r =>
    rw [ho] at hmain
    refine .refused (fun o d h => ?_) ?_ ?_ ?_
    · have hok := readOptions_iff.2 h.accepted
      rw [ho] at hok
      cases hok
    · rw [hmain]
      exact r.failure
    · rw [hmain]
      rfl
    · rw [hmain]
      rfl
  | ok o =>
    rw [ho] at hmain
    have haccepted := readOptions_iff.1 ho
    have hsame {o' : GeneratorOptions} {d : D} (h : Reads g args disk.file o' d) : o' = o := by
      have hok := readOptions_iff.2 h.accepted
      rw [ho] at hok
      exact (Except.ok.inj hok).symm
    cases hfile : disk.file (g.fs.locate o.lidlPath) with
    | none =>
      simp only [hfile] at hmain
      refine .refused (fun o' d h => ?_) ?_ ?_ ?_
      · obtain rfl := hsame h
        obtain ⟨bytes, hbytes, _⟩ := h.contract
        rw [hfile] at hbytes
        cases hbytes
      all_goals
        rw [hmain]
        first | rfl | exact nofun
    | some bytes =>
      simp only [hfile] at hmain
      cases hd : g.readContract o.lidlPath bytes with
      | error r =>
        simp only [hd] at hmain
        refine .refused (fun o' d h => ?_) ?_ ?_ ?_
        · obtain rfl := hsame h
          obtain ⟨bytes', hbytes, hparse⟩ := h.contract
          rw [hfile] at hbytes
          cases hbytes
          rw [readContract_ok.2 ⟨hparse, h.valid⟩] at hd
          cases hd
        · rw [hmain]
          exact r.failure
        · rw [hmain]
          rfl
        · rw [hmain]
          rfl
      | ok d =>
        simp only [hd] at hmain
        obtain ⟨hparse, hvalid⟩ := readContract_ok.1 hd
        exact .wrote ⟨haccepted, ⟨bytes, hfile, hparse⟩, hvalid⟩ hmain

theorem writeAll_file {fs : FileSystem P} {dir : String} (outs : List (Out × Outcome))
    (disk : Disk P) (p : P) : (writeAll fs dir outs disk).2.file p = disk.file p ∨
      ∃ a ∈ outs, target fs dir a.1 = p ∧
        (writeAll fs dir outs disk).2.file p = some ((toUtf8 a.1.content).take a.2.written) := by
  induction outs generalizing disk with
  | nil => exact .inl rfl
  | cons a outs ih =>
    cases ha : a.2.opens with
    | false => exact .inl (congrFun (writeAll_fails ha).2.2 p)
    | true =>
      rw [writeAll_opens ha]
      obtain hkept | ⟨b, hb, htarget, hfile⟩ := ih (landed fs dir a disk)
      · by_cases hp : target fs dir a.1 = p
        · refine .inr ⟨a, List.mem_cons_self .., hp, ?_⟩
          rw [hkept, ← hp]
          exact landed_file_self
        · rw [hkept]
          exact .inl (landed_file_of_ne hp)
      · exact .inr ⟨b, List.mem_cons_of_mem _ hb, htarget, hfile⟩

/-- The generator succeeds exactly where its command line is in order, the contract it names can
be opened, parses and leaves the built-in names alone, and both outputs open. -/
theorem generator_succeeds_iff (g : GeneratorHost P D) (args : List String)
    (header source : Outcome) (disk : Disk P) :
    (g.main args header source disk).status = 0 ↔
      (∃ o d, Reads g args disk.file o d) ∧ header.opens = true ∧ source.opens = true := by
  cases main_outcome g args header source disk with
  | refused hnone hstatus _ _ =>
    refine iff_of_false hstatus ?_
    rintro ⟨⟨o, d, h⟩, _⟩
    exact hnone o d h
  | @wrote o d h hmain =>
    rw [hmain, writeAll_status]
    constructor
    · intro hopens
      exact ⟨⟨o, d, h⟩, hopens _ (List.mem_cons_self ..),
        hopens _ (List.mem_cons_of_mem _ (List.mem_cons_self ..))⟩
    · rintro ⟨_, hheader, hsource⟩ a ha
      obtain rfl | ha := List.mem_cons.1 ha
      · exact hheader
      · obtain rfl := List.mem_singleton.1 ha
        exact hsource

/-- However the generator ends, a file that is not what it was is an output for a contract that
passed every check, and holds what reached it of the text that was emitted for that contract: with
a bound on the workers only for a multi provider. -/
theorem generator_outputs (g : GeneratorHost P D) (args : List String) (header source : Outcome)
    (disk : Disk P) (p : P)
    (hchanged : (g.main args header source disk).disk.file p ≠ disk.file p) :
    ∃ o d, Reads g args disk.file o d ∧ (o.maxWorkers ≠ 0 → o.multi = true) ∧
      ∃ a ∈ (g.outputs o d).zip [header, source], target g.fs (g.outputDir o) a.1 = p ∧
        (g.main args header source disk).disk.file p =
          some ((toUtf8 a.1.content).take a.2.written) := by
  cases main_outcome g args header source disk with
  | refused _ _ hfile _ => exact absurd (congrFun hfile p) hchanged
  | @wrote o d h hmain =>
    refine ⟨o, d, h, fun hworkers => ?_, ?_⟩
    · obtain ⟨_, hzero⟩ | ⟨_, _, _, hmulti⟩ := h.accepted.workers
      · exact absurd hzero hworkers
      · exact hmulti
    · rw [hmain] at hchanged ⊢
      obtain hkept | hwritten := writeAll_file ((g.outputs o d).zip [header, source]) disk p
      · exact absurd hkept hchanged
      · exact hwritten

end

/-- A frontend that takes every file for a contract, and emitters that write one line. -/
def GeneratorHost.plain : GeneratorHost String String where
  fs := .plain
  currentPath := "/work"
  toInt s := s.toInt?
  q := .decoded
  parse _ := .ok "demo"
  validateBuiltins _ := none
  serialize d := "module " ++ d
  name d := d
  header _ _ _ := "//"
  source _ _ _ _ := "//"

def contractDisk : Disk String where
  file p := if p = "demo.lidl" then some [] else none
  opened := []
  out := ""
  err := ""

theorem generator_options_commute_plain :
    GeneratorHost.plain.main ["gen", "--lidl", "demo.lidl", "--backend", "cdylib"] ⟨true, 2⟩
        ⟨true, 2⟩ contractDisk =
      GeneratorHost.plain.main ["gen", "--backend", "cdylib", "--lidl", "demo.lidl"] ⟨true, 2⟩
        ⟨true, 2⟩ contractDisk := by
  have h : WellFormedOptions [("--lidl", "demo.lidl"), ("--backend", "cdylib")] :=
    ⟨by decide, by decide⟩
  exact generator_options_commute .plain (by decide) h (.swap _ _ []) ⟨true, 2⟩ ⟨true, 2⟩
    contractDisk

theorem generator_outputs_plain : ∃ o d,
    Reads GeneratorHost.plain ["gen", "--lidl", "demo.lidl"] contractDisk.file o d ∧
    (o.maxWorkers ≠ 0 → o.multi = true) ∧
    ∃ a ∈ (GeneratorHost.plain.outputs o d).zip [(⟨true, 2⟩ : Outcome), ⟨true, 2⟩],
      target GeneratorHost.plain.fs (GeneratorHost.plain.outputDir o) a.1 =
        "/work/generated/demo_cdylib_glue.h" ∧
      (GeneratorHost.plain.main ["gen", "--lidl", "demo.lidl"] ⟨true, 2⟩ ⟨true, 2⟩
        contractDisk).disk.file "/work/generated/demo_cdylib_glue.h" =
          some ((toUtf8 a.1.content).take a.2.written) :=
  generator_outputs .plain ["gen", "--lidl", "demo.lidl"] ⟨true, 2⟩ ⟨true, 2⟩ contractDisk
    "/work/generated/demo_cdylib_glue.h" (by decide +kernel)

end LogosPluginQt
