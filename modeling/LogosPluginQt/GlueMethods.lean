import LogosPluginQt.GlueReply

namespace LogosPluginQt
open Interleaving Glue
set_option autoImplicit true

/-- Qt's JSON reader, as the glue uses it: `fromJson`, and the array of the document where it
has one. A text that nlohmann reads as well has the same names for both. -/
structure QtJsonReader (codec : JsonCodec) where
  array : List UInt8 → Option (List Json)
  sameNames : ∀ text entries j, array text = some entries → codec.parse text = some j →
    ∃ entries', j = .array entries' ∧ entries'.map Json.name? = entries.map Json.name?

namespace Glue

def builtInEntry : Json :=
  .object [("description", .string "The module's canonical LIDL interface document."),
    ("isInvokable", .bool true), ("name", .string "lidl"), ("parameters", .array []),
    ("returnType", .string "QString"), ("signature", .string "lidl()")]

/-- `toObject().value("name").toString()`: empty where any of it is missing. -/
def entryName (value : Json) : String := value.name?.getD ""

section
variable {codec : JsonCodec} (qt : QtJsonReader codec)

def moduleEntries : Option (List UInt8) → List Json
  | some text => (qt.array text).getD []
  | none => []

def getMethods (p : Nat) : GlueProg (List Json) := do
  let json ← perform (.getMethods p)
  let methods := moduleEntries qt json
  if methods.any fun value => entryName value = "lidl" then return methods
  else return methods ++ [builtInEntry]

end

end Glue

section
variable (h : GlueHost) (p : Nat)

def MethodList (text : Option (List UInt8)) :
    Unit → (a : GlueAction) → a.Ans → Unit → Prop
  | _, .getMethods _, r, _ => r = text
  | _, _, _, _ => False

def Unlisted (methodName : String) (text : Option (List UInt8)) : Prop :=
  ∃ bytes entries, text = some bytes ∧ h.codec.parse bytes = some (.array entries) ∧
    entries ≠ [] ∧ ∀ entry ∈ entries, entry.name? ≠ some methodName

/-- What a dispatch that answered NULL is answered with. -/
def NullReply (methodName : String) (args : List QVariant) (text : Option (List UInt8))
    (reply : Except ReplyError QVariant) : Prop :=
  (Unlisted h methodName text ∧ ¬ BareMetadata methodName args ∧
    reply = .ok (h.codec.nlohmannToQVariant (unknownMethod h p methodName))) ∨
  (¬ (Unlisted h methodName text ∧ ¬ BareMetadata methodName args) ∧ reply = .ok .invalid)

variable {h p} {methodName : String} {args : List QVariant} {text : Option (List UInt8)}

theorem lists_iff {entry : Json} :
    lists methodName entry = true ↔ entry.name? = some methodName := by
  unfold lists Json.name?
  cases entry.find? "name" with
  | none => exact iff_of_false nofun nofun
  | some value =>
    cases value with
    | string name => exact decide_eq_true_iff.trans (Option.some_inj.symm)
    | _ => exact iff_of_false nofun nofun

theorem entryName_eq_lidl {value : Json} :
    entryName value = "lidl" ↔ value.name? = some "lidl" := by
  unfold entryName
  cases value.name? with
  | none => exact iff_of_false (by decide) nofun
  | some name => exact Option.some_inj.symm

/-- Only a non-empty list that lacks the name refuses it. -/
theorem unlisted_some {bytes : List UInt8} :
    Unlisted h methodName (some bytes) ↔ ∃ entry entries,
      h.codec.parse bytes = some (.array (entry :: entries)) ∧
        (entry :: entries).any (lists methodName) = false := by
  simp only [Unlisted, Option.some.injEq, List.any_eq_false, lists_iff]
  constructor
  · rintro ⟨_, entries, rfl, hparse, hne, hnone⟩
    cases entries with
    | nil => exact absurd rfl hne
    | cons entry entries => exact ⟨entry, entries, hparse, hnone⟩
  · rintro ⟨entry, entries, hparse, hnone⟩
    exact ⟨bytes, entry :: entries, rfl, hparse, List.cons_ne_nil _ _, hnone⟩

theorem not_unlisted {bytes : List UInt8} (hlist : ∀ entry entries,
    h.codec.parse bytes ≠ some (.array (entry :: entries))) :
    ¬ Unlisted h methodName (some bytes) := by
  intro hunlisted
  obtain ⟨entry, entries, hparse, _⟩ := unlisted_some.1 hunlisted
  exact hlist entry entries hparse

theorem lidlNullReply_act (hbare : ¬ BareMetadata methodName args) :
    ∃ next, lidlNullReply h p methodName args.isEmpty = .act (.getMethods p) next ∧
      ∀ text, (Unlisted h methodName text ∧
          next text = .ret (h.codec.nlohmannToQVariant (unknownMethod h p methodName))) ∨
        (¬ Unlisted h methodName text ∧ next text = .ret .invalid) := by
  rw [lidlNullReply, if_neg (mt bareMetadata_iff.1 hbare)]
  refine ⟨_, rfl, fun text => ?_⟩
  cases text with
  | none =>
    refine .inr ⟨?_, rfl⟩
    rintro ⟨bytes, entries, he, _⟩
    cases he
  | some bytes =>
    dsimp only [Prog.bind, Prog.pure_eq]
    cases hparse : h.codec.parse bytes with
    | none => exact .inr ⟨not_unlisted (by simp only [hparse]; nofun), rfl⟩
    | some j =>
      cases j with
      | array items =>
        cases items with
        | nil => exact .inr ⟨not_unlisted (by simp only [hparse]; nofun), rfl⟩
        | cons entry entries =>
          cases hany : (entry :: entries).any (lists methodName) with
          | true =>
            refine .inr ⟨?_, if_pos hany⟩
            rw [unlisted_some]
            rintro ⟨entry', entries', hparse', hnone⟩
            rw [hparse] at hparse'
            cases hparse'
            rw [hany] at hnone
            cases hnone
          | false =>
            exact .inl ⟨unlisted_some.2 ⟨entry, entries, hparse, hany⟩,
              if_neg (Bool.eq_false_iff.1 hany)⟩
      | _ => exact .inr ⟨not_unlisted (by simp only [hparse]; nofun), rfl⟩

theorem nullReply_runs {reply : Except ReplyError QVariant} :
    Runs (MethodList text) () (replyOf h p methodName args.isEmpty none) reply () ↔
      NullReply h p methodName args text reply := by
  rw [replyOf, NullReply]
  by_cases hbare : BareMetadata methodName args
  · rw [lidlNullReply, if_pos (bareMetadata_iff.2 hbare)]
    simp only [Prog.pure_eq, Prog.ret_bind, runs_ret, hbare, not_true_eq_false, false_and,
      and_false, false_or, not_false_eq_true, true_and, and_true]
  · obtain ⟨next, hnext, hanswer⟩ := lidlNullReply_act (h := h) (p := p) hbare
    rw [hnext, Prog.act_bind, runs_act]
    simp only [hbare, not_false_eq_true, true_and, and_true]
    constructor
    · rintro ⟨answer, _, he, hrun⟩
      rw [show answer = text from he] at hrun
      rcases hanswer text with ⟨hunlisted, hvalue⟩ | ⟨hlisted, hvalue⟩
      · rw [hvalue] at hrun
        exact .inl ⟨hunlisted, (runs_ret.1 hrun).1⟩
      · rw [hvalue] at hrun
        exact .inr ⟨hlisted, (runs_ret.1 hrun).1⟩
    · intro hreply
      refine ⟨text, (), rfl, ?_⟩
      rcases hanswer text with ⟨hunlisted, hvalue⟩ | ⟨hlisted, hvalue⟩
      · rcases hreply with ⟨_, rfl⟩ | ⟨hnot, _⟩
        · rw [hvalue]
          exact .ret _ _
        · exact absurd hunlisted hnot
      · rcases hreply with ⟨hunlisted, _⟩ | ⟨_, rfl⟩
        · exact absurd hunlisted hlisted
        · rw [hvalue]
          exact .ret _ _

theorem unknownMethod_ne_invalid :
    h.codec.nlohmannToQVariant (unknownMethod h p methodName) ≠ .invalid := by
  rw [unknownMethod, h.codec.toQVariant_object _ (not_bytesObject (v := .string _) rfl)]
  exact nofun

theorem getMethods_runs (p : Nat) (text : Option (List UInt8)) (qt : QtJsonReader h.codec) :
    ∃ methods, (∀ out, Runs (MethodList text) () (Glue.getMethods qt p) out () ↔
        out = methods) ∧
      moduleEntries qt text <+: methods ∧ (∃ entry ∈ methods, entry.name? = some "lidl") ∧
      ∀ entry ∈ methods, entry ∈ moduleEntries qt text ∨ entry.name? = some "lidl" := by
  have hruns (next : Option (List UInt8) → GlueProg (List Json)) (methods : List Json)
      (hnext : next text = .ret methods) (out : List Json) :
      Runs (MethodList text) () (.act (.getMethods p) next) out () ↔ out = methods := by
    rw [runs_act]
    constructor
    · rintro ⟨answer, _, he, hrun⟩
      rw [show answer = text from he, hnext] at hrun
      exact (runs_ret.1 hrun).1
    · rintro rfl
      exact ⟨text, (), rfl, hnext ▸ .ret _ _⟩
  by_cases hlidl : ∃ entry ∈ moduleEntries qt text, entry.name? = some "lidl"
  · refine ⟨moduleEntries qt text, hruns _ _ (if_pos ?_), List.prefix_rfl, hlidl,
      fun entry hentry => .inl hentry⟩
    simpa only [List.any_eq_true, decide_eq_true_eq, entryName_eq_lidl] using hlidl
  · refine ⟨moduleEntries qt text ++ [builtInEntry], hruns _ _ (if_neg ?_),
      List.prefix_append _ _, ⟨builtInEntry, ?_, rfl⟩, ?_⟩
    · simpa only [List.any_eq_true, decide_eq_true_eq, entryName_eq_lidl] using hlidl
    · exact List.mem_append_right _ (List.mem_singleton_self _)
    · intro entry hentry
      rcases List.mem_append.1 hentry with hmem | hmem
      · exact .inl hmem
      · rw [List.mem_singleton.1 hmem]
        exact .inr rfl

/-- A name on the module's list is not refused: the two readers find the same names. -/
theorem not_unlisted_of_entry (qt : QtJsonReader h.codec) {entry : Json}
    (hmem : entry ∈ moduleEntries qt text) (hname : entry.name? = some methodName) :
    ¬ Unlisted h methodName text := by
  rintro ⟨bytes, entries, rfl, hparse, _, hnone⟩
  cases harray : qt.array bytes with
  | none =>
    simp only [moduleEntries, harray, Option.getD_none, List.not_mem_nil] at hmem
  | some listed =>
    simp only [moduleEntries, harray, Option.getD_some] at hmem
    obtain ⟨entries', hj, hnames⟩ := qt.sameNames _ _ _ harray hparse
    obtain rfl := Json.array.inj hj
    have hlisted : some methodName ∈ listed.map Json.name? := List.mem_map.2 ⟨entry, hmem, hname⟩
    rw [← hnames] at hlisted
    obtain ⟨entry', hmem', hname'⟩ := List.mem_map.1 hlisted
    exact hnone entry' hmem' hname'

/-- In both branches a NULL dispatch is refused as unknown exactly where the module's list
lacks the method, and is answered with nothing otherwise; and what `getMethods` makes of the
same list is never refused. -/
theorem null_dispatch_classified (h : GlueHost) (p : Nat) (qt : QtJsonReader h.codec)
    (methodName : String) (args : List QVariant) (text : Option (List UInt8)) :
    (∀ reply, Runs (MethodList text) () (singleReply h p methodName args none) reply () ↔
      NullReply h p methodName args text reply) ∧
    (∀ call callId eventCb callerJson reply, Runs (MethodList text) ()
        (workerReply h p (makeTask h p call methodName args callId eventCb callerJson) none)
        reply () ↔ NullReply h p methodName args text reply) ∧
    h.codec.nlohmannToQVariant (unknownMethod h p methodName) ≠ .invalid ∧
    ∃ methods, (∀ out, Runs (MethodList text) () (Glue.getMethods qt p) out () ↔
        out = methods) ∧
      moduleEntries qt text <+: methods ∧ (∃ entry ∈ methods, entry.name? = some "lidl") ∧
      (methodName ≠ "lidl" → (∃ entry ∈ methods, entry.name? = some methodName) →
        ∀ reply, NullReply h p methodName args text reply → reply = .ok .invalid) := by
  refine ⟨fun reply => ?_, fun call callId eventCb callerJson reply => ?_,
    unknownMethod_ne_invalid, ?_⟩
  · rw [singleReply_eq, nullReply_runs]
  · rw [workerReply_eq, nullReply_runs]
  · obtain ⟨methods, hruns, hprefix, hlidl, hentries⟩ := getMethods_runs p text qt
    refine ⟨methods, hruns, hprefix, hlidl, ?_⟩
    rintro hname ⟨entry, hentry, hlisted⟩ reply (⟨hunlisted, _⟩ | ⟨_, hreply⟩)
    · rcases hentries entry hentry with hmem | hbuiltIn
      · exact absurd hunlisted (not_unlisted_of_entry qt hmem hlisted)
      · exact absurd (Option.some.inj (hlisted.symm.trans hbuiltIn)) hname
    · exact hreply

end

def QtJsonReader.same (codec : JsonCodec) : QtJsonReader codec where
  array text :=
    match codec.parse text with
    | some (.array entries) => some entries
    | _ => none
  sameNames text entries j harray hparse := by
    rw [hparse] at harray
    cases j with
    | array entries' =>
      obtain rfl := Option.some.inj harray
      exact ⟨entries', rfl, rfl⟩
    | _ => cases harray

def listText : List UInt8 := "[\x7b\"name\":\"run\"\x7d]".toUTF8.toList

def listHost : GlueHost :=
  { plainHost false with
    codec := .plain [(listText, .array [.object [("name", .string "run")]])] }

theorem null_dispatch_classified_unknown :
    Runs (MethodList (some listText)) () (singleReply listHost 0 "go" [] none)
      (.ok (listHost.codec.nlohmannToQVariant (unknownMethod listHost 0 "go"))) () := by
  have hparse : listHost.codec.parse listText =
      some (.array [.object [("name", .string "run")]]) := by
    simp only [listHost, JsonCodec.plain, List.find?_cons, decide_true, Option.map_some]
  refine ((null_dispatch_classified listHost 0 (.same _) "go" [] (some listText)).1 _).2 ?_
  refine .inl ⟨⟨listText, _, rfl, hparse, List.cons_ne_nil _ _, ?_⟩, ?_, rfl⟩
  · simp [Json.name?, Json.find?]
  · simp [BareMetadata]

end LogosPluginQt
