import Mathlib.Data.List.TakeWhile
import LogosPluginQt.CppLiterals
import LogosPluginQt.GlueReply
import LogosPluginQt.GlueSource

namespace LogosPluginQt
open CppLiterals Interleaving Glue
set_option autoImplicit true

def byteOrderMark : Char := Char.ofNat 0xFEFF

def withoutMark : List Char → List Char
  | c :: rest => if c = byteOrderMark then rest else c :: rest
  | [] => []

/-- `QString::fromUtf8`: it reads UTF-8 back, less a byte order mark at its start. -/
structure QtText where
  fromUtf8 : List UInt8 → String
  reads : ∀ text, fromUtf8 (utf8.units text) = String.ofList (withoutMark text)

def cString (bytes : List UInt8) : List UInt8 := bytes.takeWhile (· ≠ 0)

def compiledDocument (q : QtText) (crEndsLine : Bool) (lidlDocument : String) : Option String :=
  match literal utf8 crEndsLine (cppStringLiteral lidlDocument).toList with
  | some (bytes, []) => some (q.fromUtf8 (cString bytes))
  | _ => none

def escapedChar (ch : Char) : List Char :=
  if ch = '\\' then ['\\', '\\']
  else if ch = '"' then ['\\', '"']
  else if ch = '\n' then ['\\', 'n']
  else if ch = '\r' then ['\\', 'r']
  else if ch = '\t' then ['\\', 't']
  else [ch]

theorem cppStringLiteral_toList (value : String) :
    (cppStringLiteral value).toList = '"' :: (value.toList.flatMap escapedChar ++ ['"']) := by
  have hchar (ch : Char) : String.toList (if ch = '\\' then "\\\\" else if ch = '"' then "\\\""
      else if ch = '\n' then "\\n" else if ch = '\r' then "\\r" else if ch = '\t' then "\\t"
      else ch.toString) = escapedChar ch := by
    unfold escapedChar
    split_ifs
    all_goals simp
  rw [cppStringLiteral, String.toList_append, String.toList_append, String.toList_join,
    List.flatMap_map, funext hchar]
  rfl

theorem escapedChar_escapes (e : Encoding α) : Escapes e escapedChar := by
  intro c text
  unfold escapedChar
  split_ifs with hbackslash hquote hnewline hreturn htab
  case neg => exact lex_plain_cons ⟨hquote, hbackslash, hnewline⟩ text
  all_goals
    subst c
    exact lex_escape_cons rfl text

theorem escapedChar_one_line (c : Char) : '\r' ∉ escapedChar c ∧ '\n' ∉ escapedChar c := by
  unfold escapedChar
  split_ifs with hbackslash hquote hnewline hreturn htab
  all_goals simp
  exact ⟨Ne.symm hreturn, Ne.symm hnewline⟩

theorem cppStringLiteral_literal (e : Encoding α) (crEndsLine : Bool) (value : String)
    (after : List Char) : literal e crEndsLine ((cppStringLiteral value).toList ++ after) =
      some (e.units value.toList, logicalLines crEndsLine after) := by
  rw [cppStringLiteral_toList, List.cons_append, List.append_assoc]
  exact literal_escaped (escapedChar_escapes e) escapedChar_one_line value.toList after

theorem cppStringLiteral_one_line (value : String) :
    '\r' ∉ (cppStringLiteral value).toList ∧ '\n' ∉ (cppStringLiteral value).toList := by
  have habsent {lineEnd : Char} (hquote : lineEnd ≠ '"') (hend : ∀ c, lineEnd ∉ escapedChar c) :
      lineEnd ∉ (cppStringLiteral value).toList := by
    rw [cppStringLiteral_toList]
    simp only [List.mem_cons, List.mem_append, List.mem_flatMap, List.not_mem_nil, or_false]
    rintro (h | ⟨c, _, hc⟩ | h)
    · exact hquote h
    · exact hend c hc
    · exact hquote h
  exact ⟨habsent (by decide) fun c => (escapedChar_one_line c).1,
    habsent (by decide) fun c => (escapedChar_one_line c).2⟩

theorem cString_utf8 {text : List Char} (hnul : '\x00' ∉ text) :
    cString (utf8.units text) = utf8.units text := by
  apply List.takeWhile_eq_self_iff.2
  intro byte hbyte
  rw [decide_eq_true_eq]
  rintro rfl
  obtain ⟨c, hc, hzero⟩ := List.mem_flatMap.1 hbyte
  exact hnul (zero_mem_utf8 hzero ▸ hc)

/-- A compiled provider holds the document it was generated for, as `fromUtf8` reads it. -/
theorem compiledDocument_eq (q : QtText) (crEndsLine : Bool) {lidlDocument : String}
    (hnul : '\x00' ∉ lidlDocument.toList) : compiledDocument q crEndsLine lidlDocument =
      some (String.ofList (withoutMark lidlDocument.toList)) := by
  have hliteral := cppStringLiteral_literal utf8 crEndsLine lidlDocument []
  rw [List.append_nil] at hliteral
  have hlines : logicalLines crEndsLine [] = [] := rfl
  rw [compiledDocument, hliteral, hlines]
  simp only [cString_utf8 hnul, q.reads]

/-- What is promised of `lidl()`: the literal holds the document, and a provider compiled from
it answers `answer`, or refuses the arguments, and does nothing else. -/
structure LidlAnswers (q : QtText) (crEndsLine : Bool) (lidlDocument answer : String) : Prop where
  oneLine : '\r' ∉ (cppStringLiteral lidlDocument).toList ∧
    '\n' ∉ (cppStringLiteral lidlDocument).toList
  value : ∀ after, literal utf8 crEndsLine ((cppStringLiteral lidlDocument).toList ++ after) =
    some (utf8.units lidlDocument.toList, logicalLines crEndsLine after)
  compiles : (compiledDocument q crEndsLine lidlDocument).isSome = true
  answers : ∀ (h : GlueHost) (p call : Nat),
    compiledDocument q crEndsLine lidlDocument = some (h.provider p).lidlDocument →
    callMethod h p call "lidl" [] = .ret (.ok (.string answer))
  refuses : ∀ (h : GlueHost) (p call : Nat) (args : List QVariant), args ≠ [] →
    callMethod h p call "lidl" args = .ret (.ok (h.codec.nlohmannToQVariant (.object
      [("code", .string "invalid_args"),
        ("message", .string ("expected 0 arguments, got " ++ toString args.length)),
        ("origin", .string (h.provider p).module.name)])))
  undispatched : ∀ (h : GlueHost) (p call : Nat) (args : List QVariant) (action : GlueAction),
    ¬ (callMethod h p call "lidl" args).Performs action

theorem callMethod_lidl (h : GlueHost) (p call : Nat) (args : List QVariant) :
    callMethod h p call "lidl" args = .ret (.ok (builtInLidl h p args)) := by
  unfold callMethod
  cases (h.provider p).multi <;> rfl

/-- `lidl()` answers the document, less a byte order mark that it begins with. -/
theorem lidl_answers (q : QtText) (crEndsLine : Bool) (lidlDocument : String)
    (hnul : '\x00' ∉ lidlDocument.toList) : LidlAnswers q crEndsLine lidlDocument
      (String.ofList (withoutMark lidlDocument.toList)) := by
  have hcompiled := compiledDocument_eq q crEndsLine hnul
  refine ⟨cppStringLiteral_one_line lidlDocument,
    cppStringLiteral_literal utf8 crEndsLine lidlDocument, ?_, ?_, ?_, ?_⟩
  · rw [hcompiled]
    rfl
  · intro h p call hp
    rw [hcompiled] at hp
    rw [callMethod_lidl, builtInLidl, ← Option.some.inj hp]
    rfl
  · intro h p call args hargs
    rw [callMethod_lidl, builtInLidl, if_neg (mt List.isEmpty_iff.1 hargs)]
  · intro h p call args action
    rw [callMethod_lidl]
    exact Prog.not_performs_ret

def QtText.decoded : QtText where
  fromUtf8 bytes :=
    match bytes.toByteArray.utf8Decode? with
    | some text => String.ofList (withoutMark text.toList)
    | none => ""
  reads text := by
    have hdecode : (utf8.units text).toByteArray.utf8Decode? = some text.toArray :=
      List.utf8Decode?_utf8Encode
    rw [hdecode]

theorem lidl_answers_probe : LidlAnswers .decoded false "module glue_probe \x7b \x7d\n"
    "module glue_probe \x7b \x7d\n" :=
  lidl_answers .decoded false "module glue_probe \x7b \x7d\n" (by decide)

def unmarkedHost : GlueHost :=
  { plainHost false with
    provider := fun p => { (plainHost false).provider p with lidlDocument := "" } }

/-- A document that is a byte order mark is answered with the empty one. -/
theorem lidl_loses_mark : '\x00' ∉ (String.ofList [byteOrderMark]).toList ∧
    ¬ LidlAnswers .decoded false (String.ofList [byteOrderMark])
      (String.ofList [byteOrderMark]) := by
  have hnul : '\x00' ∉ (String.ofList [byteOrderMark]).toList := by
    rw [String.toList_ofList]
    decide
  refine ⟨hnul, fun h => ?_⟩
  have hcompiled := compiledDocument_eq .decoded false hnul
  rw [String.toList_ofList, withoutMark, if_pos rfl] at hcompiled
  have hanswer := h.answers unmarkedHost 0 0 hcompiled
  rw [callMethod_lidl] at hanswer
  have hdocument : "" = String.ofList [byteOrderMark] :=
    QVariant.string.inj (Except.ok.inj (Prog.ret.inj hanswer))
  have hlist := congrArg String.toList hdocument
  rw [String.toList_ofList] at hlist
  cases hlist

end LogosPluginQt
