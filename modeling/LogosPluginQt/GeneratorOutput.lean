import Mathlib.Logic.Function.Basic
import LogosPluginQt.GlueHeader

namespace LogosPluginQt
open CppLiterals
set_option autoImplicit true

structure Out where
  file : String
  content : String

/-- What comes of opening an output, and how many bytes of it reach the file, if it opens. -/
structure Outcome where
  opens : Bool
  written : Nat

/-- The file system the generator runs on: which file a path names. Its text mode leaves
newlines as they are. -/
structure FileSystem (P : Type) where
  filePath : String → String → String
  locate : String → P

/-- The files, those that were opened and so created or truncated, and the two streams. -/
structure Disk (P : Type) where
  file : P → Option (List UInt8)
  opened : List P
  out : String
  err : String

def toUtf8 (content : String) : List UInt8 := utf8.units content.toList

section
variable {P : Type} [DecidableEq P]

/-- `open` with `WriteOnly | Truncate`, where it succeeds. -/
def Disk.truncate (d : Disk P) (p : P) : Disk P :=
  { d with file := Function.update d.file p (some []), opened := d.opened ++ [p] }

/-- `write` into a file that was just truncated, of which so many bytes get there. -/
def Disk.write (d : Disk P) (p : P) (bytes : List UInt8) (written : Nat) : Disk P :=
  { d with file := Function.update d.file p (some (bytes.take written)) }

variable (fs : FileSystem P) (dir : String)

/-- The outputs, each with what comes of it; the outcome of an output that is not reached does not
matter. -/
def writeAll : List (Out × Outcome) → Disk P → Nat × Disk P
  | [], d => (0, d)
  | (o, outcome) :: rest, d =>
    let abs := fs.filePath dir o.file
    if outcome.opens = false then
      (1, { d with err := d.err ++ "Failed to write: " ++ abs ++ "\n" })
    else
      let d := (d.truncate (fs.locate abs)).write (fs.locate abs) (toUtf8 o.content) outcome.written
      writeAll rest { d with out := d.out ++ "Generated: " ++ abs ++ "\n" }

def target (o : Out) : P := fs.locate (fs.filePath dir o.file)

/-- The exit status tells the truth about the outputs: with status 0 each file holds its text, with
any other one none was touched. -/
structure TruthfulExit (outs : List (Out × Outcome)) (files : P → Option (List UInt8)) :
    Prop where
  success : (writeAll fs dir outs ⟨files, [], "", ""⟩).1 = 0 → ∀ a ∈ outs,
    (writeAll fs dir outs ⟨files, [], "", ""⟩).2.file (target fs dir a.1) =
      some (toUtf8 a.1.content)
  failure : (writeAll fs dir outs ⟨files, [], "", ""⟩).1 ≠ 0 →
    (writeAll fs dir outs ⟨files, [], "", ""⟩).2.opened = [] ∧
      (writeAll fs dir outs ⟨files, [], "", ""⟩).2.file = files

/-- The last output to each file is written in full, and no other one has another text for it. -/
structure WrittenInFull (outs : List (Out × Outcome)) : Prop where
  last : ∀ before a after, outs = before ++ a :: after →
    (∀ b ∈ after, target fs dir b.1 ≠ target fs dir a.1) →
    (toUtf8 a.1.content).length ≤ a.2.written
  same : ∀ a ∈ outs, ∀ b ∈ outs, target fs dir a.1 = target fs dir b.1 →
    a.1.content = b.1.content

end

section
variable {P : Type} [DecidableEq P] {fs : FileSystem P} {dir : String}
  {outs : List (Out × Outcome)} {a : Out × Outcome} {d : Disk P} {p : P}

theorem toUtf8_injective : Function.Injective toUtf8 := by
  intro s t h
  have hread (text : String) :
      (toUtf8 text).toByteArray.utf8Decode? = some text.toList.toArray :=
    List.utf8Decode?_utf8Encode
  have hsame := hread s
  rw [h, hread t] at hsame
  have hlist := congrArg Array.toList (Option.some.inj hsame)
  exact (String.toList_inj.1 hlist).symm

def landed (fs : FileSystem P) (dir : String) (a : Out × Outcome) (d : Disk P) : Disk P :=
  let abs := fs.filePath dir a.1.file
  let d := (d.truncate (target fs dir a.1)).write (target fs dir a.1) (toUtf8 a.1.content)
    a.2.written
  { d with out := d.out ++ "Generated: " ++ abs ++ "\n" }

theorem writeAll_opens (ha : a.2.opens = true) :
    writeAll fs dir (a :: outs) d = writeAll fs dir outs (landed fs dir a d) := by
  have hopens : ¬ a.2.opens = false := by rw [ha]; decide
  rw [writeAll, if_neg hopens]
  rfl

theorem writeAll_fails (ha : a.2.opens = false) :
    (writeAll fs dir (a :: outs) d).1 = 1 ∧ (writeAll fs dir (a :: outs) d).2.opened = d.opened ∧
      (writeAll fs dir (a :: outs) d).2.file = d.file := by
  rw [writeAll, if_pos ha]
  exact ⟨rfl, rfl, rfl⟩

theorem landed_opened : (landed fs dir a d).opened = d.opened ++ [target fs dir a.1] := rfl

theorem landed_file_self : (landed fs dir a d).file (target fs dir a.1) =
    some ((toUtf8 a.1.content).take a.2.written) := Function.update_self ..

theorem landed_file_of_ne (hp : target fs dir a.1 ≠ p) :
    (landed fs dir a d).file p = d.file p := by
  have htruncate : (landed fs dir a d).file p = (d.truncate (target fs dir a.1)).file p :=
    Function.update_of_ne hp.symm ..
  rw [htruncate]
  exact Function.update_of_ne hp.symm ..

theorem writeAll_status : (writeAll fs dir outs d).1 = 0 ↔ ∀ a ∈ outs, a.2.opens = true := by
  induction outs generalizing d with
  | nil => exact iff_of_true rfl nofun
  | cons a outs ih =>
    cases ha : a.2.opens with
    | false =>
      rw [(writeAll_fails ha).1]
      apply iff_of_false (by decide)
      intro hall
      have hopens := hall a (List.mem_cons_self ..)
      rw [ha] at hopens
      cases hopens
    | true =>
      rw [writeAll_opens ha, ih, List.forall_mem_cons]
      exact ⟨fun h => ⟨ha, h⟩, fun h => h.2⟩

theorem writeAll_opened (h : p ∈ d.opened) : p ∈ (writeAll fs dir outs d).2.opened := by
  induction outs generalizing d with
  | nil => exact h
  | cons a outs ih =>
    cases ha : a.2.opens with
    | false =>
      rw [(writeAll_fails ha).2.1]
      exact h
    | true =>
      rw [writeAll_opens ha]
      apply ih
      rw [landed_opened]
      exact List.mem_append_left _ h

theorem writeAll_frame (h : ∀ a ∈ outs, target fs dir a.1 ≠ p) :
    (writeAll fs dir outs d).2.file p = d.file p := by
  induction outs generalizing d with
  | nil => rfl
  | cons a outs ih =>
    cases ha : a.2.opens with
    | false => rw [(writeAll_fails ha).2.2]
    | true =>
      rw [writeAll_opens ha, ih fun b hb => h b (List.mem_cons_of_mem _ hb)]
      exact landed_file_of_ne (h a (List.mem_cons_self ..))

theorem writeAll_last {before after : List (Out × Outcome)}
    (hopens : ∀ b ∈ before ++ a :: after, b.2.opens = true)
    (hlast : ∀ b ∈ after, target fs dir b.1 ≠ target fs dir a.1) :
    (writeAll fs dir (before ++ a :: after) d).2.file (target fs dir a.1) =
      some ((toUtf8 a.1.content).take a.2.written) := by
  induction before generalizing d with
  | nil =>
    rw [List.nil_append, writeAll_opens (hopens a (List.mem_cons_self ..)), writeAll_frame hlast]
    exact landed_file_self
  | cons b before ih =>
    rw [List.cons_append] at hopens ⊢
    rw [writeAll_opens (hopens b (List.mem_cons_self ..))]
    exact ih fun c hc => hopens c (List.mem_cons_of_mem _ hc)

theorem exists_last (h : ∃ a ∈ outs, target fs dir a.1 = p) :
    ∃ before a after, outs = before ++ a :: after ∧ target fs dir a.1 = p ∧
      ∀ b ∈ after, target fs dir b.1 ≠ target fs dir a.1 := by
  induction outs with
  | nil =>
    obtain ⟨_, ha, _⟩ := h
    cases ha
  | cons a outs ih =>
    by_cases hlater : ∃ b ∈ outs, target fs dir b.1 = p
    · obtain ⟨before, b, after, rfl, hb, hlast⟩ := ih hlater
      exact ⟨a :: before, b, after, rfl, hb, hlast⟩
    · have ha : target fs dir a.1 = p := by
        obtain ⟨b, hb, hbp⟩ := h
        rcases List.mem_cons.1 hb with rfl | hb
        · exact hbp
        · exact absurd ⟨b, hb, hbp⟩ hlater
      refine ⟨[], a, outs, rfl, ha, fun b hb hsame => hlater ⟨b, hb, hsame.trans ha⟩⟩

/-- Where every output opens, the files hold their texts exactly where the last output to each is
written in full and no other has another text for it. -/
theorem files_iff (hopens : ∀ a ∈ outs, a.2.opens = true) :
    (∀ a ∈ outs, (writeAll fs dir outs d).2.file (target fs dir a.1) = some (toUtf8 a.1.content)) ↔
      WrittenInFull fs dir outs := by
  constructor
  · intro h
    refine ⟨fun before a after houts hlast => ?_, fun a ha b hb hsame => ?_⟩
    · have hmem : a ∈ outs := houts ▸ List.mem_append_right _ (List.mem_cons_self ..)
      have hfile := h a hmem
      rw [houts] at hopens hfile
      rw [writeAll_last hopens hlast] at hfile
      have htaken := congrArg List.length (Option.some.inj hfile)
      rw [List.length_take] at htaken
      omega
    · have hfile := h a ha
      rw [hsame, h b hb] at hfile
      exact (toUtf8_injective (Option.some.inj hfile)).symm
  · intro h a ha
    have hsome : ∃ b ∈ outs, target fs dir b.1 = target fs dir a.1 := ⟨a, ha, rfl⟩
    obtain ⟨before, b, after, houts, hsame, hlast⟩ := exists_last hsome
    have hb : b ∈ outs := houts ▸ List.mem_append_right _ (List.mem_cons_self ..)
    have hfull := h.last before b after houts hlast
    rw [← h.same b hb a ha hsame, ← hsame]
    rw [houts] at hopens ⊢
    rw [writeAll_last hopens hlast, List.take_of_length_le hfull]

/-- An exit with another status than 0 leaves everything alone exactly where nothing opened before
the output that failed. -/
theorem unopened_iff {files : P → Option (List UInt8)} {out err : String}
    (hfails : ∃ a ∈ outs, a.2.opens = false) :
    ((writeAll fs dir outs ⟨files, [], out, err⟩).2.opened = [] ∧
        (writeAll fs dir outs ⟨files, [], out, err⟩).2.file = files) ↔
      ∃ a ∈ outs.head?, a.2.opens = false := by
  cases outs with
  | nil =>
    obtain ⟨_, ha, _⟩ := hfails
    cases ha
  | cons a outs =>
    cases ha : a.2.opens with
    | false =>
      apply iff_of_true
      · exact (writeAll_fails ha).2
      · exact ⟨a, rfl, ha⟩
    | true =>
      apply iff_of_false
      · intro h
        have hmem : target fs dir a.1 ∈
            (writeAll fs dir (a :: outs) ⟨files, [], out, err⟩).2.opened := by
          rw [writeAll_opens ha]
          exact writeAll_opened (List.mem_singleton_self _)
        rw [h.1] at hmem
        cases hmem
      · rintro ⟨b, hb, hfalse⟩
        cases hb
        rw [ha] at hfalse
        cases hfalse

end

/-- The exit status tells the truth exactly where an output that does not open is the first one,
or all of them open and each file gets its text in full. -/
theorem truthful_exit_iff {P : Type} [DecidableEq P] (fs : FileSystem P) (dir : String)
    (outs : List (Out × Outcome)) (files : P → Option (List UInt8)) :
    TruthfulExit fs dir outs files ↔
      (∃ a ∈ outs.head?, a.2.opens = false) ∨
        ((∀ a ∈ outs, a.2.opens = true) ∧ WrittenInFull fs dir outs) := by
  by_cases hopens : ∀ a ∈ outs, a.2.opens = true
  · have hstatus : (writeAll fs dir outs ⟨files, [], "", ""⟩).1 = 0 := writeAll_status.2 hopens
    constructor
    · exact fun h => .inr ⟨hopens, (files_iff hopens).1 (h.success hstatus)⟩
    · rintro (⟨a, ha, hfalse⟩ | ⟨_, hfull⟩)
      · rw [hopens a (List.mem_of_head? ha)] at hfalse
        cases hfalse
      · exact ⟨fun _ => (files_iff hopens).2 hfull, fun h => absurd hstatus h⟩
  · have hstatus : (writeAll fs dir outs ⟨files, [], "", ""⟩).1 ≠ 0 := mt writeAll_status.1 hopens
    have hfails : ∃ a ∈ outs, a.2.opens = false := by
      by_contra hnone
      exact hopens fun a ha => Bool.eq_true_of_not_eq_false fun hfalse => hnone ⟨a, ha, hfalse⟩
    constructor
    · exact fun h => .inl ((unopened_iff hfails).1 (h.failure hstatus))
    · rintro (hfirst | ⟨hall, _⟩)
      · exact ⟨fun h => absurd h hstatus, fun _ => (unopened_iff hfails).2 hfirst⟩
      · exact absurd hall hopens

def glueOutputs (q : QtText) (name header source : String) : List Out :=
  [⟨qs q name ++ "_cdylib_glue.h", header⟩, ⟨qs q name ++ "_cdylib_glue.cpp", source⟩]

def FileSystem.plain : FileSystem String where
  filePath dir file := dir ++ "/" ++ file
  locate abs := abs

def probeOutputs (header source : Outcome) : List (Out × Outcome) :=
  (glueOutputs .decoded "glue_probe" "#pragma once\n" "int glue;\n").zip [header, source]

/-- A source that is cut short leaves status 0, and one that does not open leaves a new header. -/
theorem exit_lies :
    ¬ TruthfulExit .plain "generated" (probeOutputs ⟨true, 13⟩ ⟨true, 4⟩) (fun _ => none) ∧
      ¬ TruthfulExit .plain "generated" (probeOutputs ⟨true, 13⟩ ⟨false, 0⟩) (fun _ => none) := by
  constructor
  · intro h
    have hopens : ∀ a ∈ probeOutputs ⟨true, 13⟩ ⟨true, 4⟩, a.2.opens = true := by
      rintro a (_ | ⟨_, _ | ⟨_, ⟨⟩⟩⟩)
      all_goals rfl
    have hfull := (files_iff hopens).1 (h.success (writeAll_status.2 hopens))
    have hcut : 10 ≤ 4 := hfull.last [_] _ [] rfl nofun
    exact absurd hcut (by decide)
  · intro h
    have hfails : ∃ a ∈ probeOutputs ⟨true, 13⟩ ⟨false, 0⟩, a.2.opens = false :=
      ⟨_, .tail _ (.head _), rfl⟩
    have hstatus : (writeAll .plain "generated" (probeOutputs ⟨true, 13⟩ ⟨false, 0⟩)
        ⟨fun _ => none, [], "", ""⟩).1 ≠ 0 := by
      intro hzero
      obtain ⟨a, ha, hfalse⟩ := hfails
      rw [writeAll_status.1 hzero a ha] at hfalse
      cases hfalse
    obtain ⟨a, ha, hfalse⟩ := (unopened_iff hfails).1 (h.failure hstatus)
    cases ha
    cases hfalse

end LogosPluginQt
