import Mathlib.Data.List.Basic

namespace CppLiterals
set_option autoImplicit true

/-- How a string literal stores a character, in units of `α`, and which numbers an escape
sequence may give for a unit. -/
structure Encoding (α : Type) where
  encode : Char → List α
  unit : Nat → Option α
  length_pos : ∀ c, 1 ≤ (encode c).length
  length_le : ∀ c, (encode c).length ≤ 4
  length_ascii : ∀ c, c.toNat < 128 → (encode c).length = 1

def Encoding.units (e : Encoding α) (text : List Char) : List α := text.flatMap e.encode

/-- The ends of physical lines become newlines. Whether a lone carriage return ends a line is
the compiler's choice. -/
def lineEnds (crEndsLine : Bool) : List Char → List Char
  | '\r' :: '\n' :: rest => '\n' :: lineEnds crEndsLine rest
  | '\r' :: rest => (if crEndsLine then '\n' else '\r') :: lineEnds crEndsLine rest
  | c :: rest => c :: lineEnds crEndsLine rest
  | [] => []

def splice : List Char → List Char
  | '\\' :: '\n' :: rest => splice rest
  | c :: rest => c :: splice rest
  | [] => []

def logicalLines (crEndsLine : Bool) (source : List Char) : List Char :=
  splice (lineEnds crEndsLine source)

def simpleEscapes : List (Char × Char) :=
  [(Char.ofNat 39, Char.ofNat 39), ('"', '"'), ('?', '?'), ('\\', '\\'), ('a', Char.ofNat 7),
    ('b', Char.ofNat 8), ('f', Char.ofNat 12), ('n', '\n'), ('r', '\r'), ('t', '\t'),
    ('v', Char.ofNat 11)]

def octalDigit? (c : Char) : Option Nat :=
  if '0' ≤ c ∧ c ≤ '7' then some (c.toNat - '0'.toNat) else none

def hexDigit? (c : Char) : Option Nat :=
  if '0' ≤ c ∧ c ≤ '9' then some (c.toNat - '0'.toNat)
  else if 'a' ≤ c ∧ c ≤ 'f' then some (c.toNat - 'a'.toNat + 10)
  else if 'A' ≤ c ∧ c ≤ 'F' then some (c.toNat - 'A'.toNat + 10)
  else none

def scalarValue? (n : Nat) : Option Char :=
  if h : n.isValidChar then some (Char.ofNatAux n h) else none

inductive LexState where
  | text
  | backslash
  | octal (digits value : Nat)
  | hex (value : Option Nat)
  | universal (left value : Nat)
deriving DecidableEq

section
variable (e : Encoding α)

/-- A numeric escape sequence ends before the first character that is none of its digits. -/
def flush : LexState → Char → Option (List α × LexState)
  | .octal digits value, c =>
    if digits < 3 ∧ (octalDigit? c).isSome then some ([], .octal digits value)
    else (e.unit value).map fun u => ([u], .text)
  | .hex (some value), c =>
    if (hexDigit? c).isSome then some ([], .hex (some value))
    else (e.unit value).map fun u => ([u], .text)
  | s, _ => some ([], s)

/-- What a character adds to the value of the literal; the closing quote leaves no state. -/
def advance : LexState → Char → Option (List α × Option LexState)
  | .text, c =>
    if c = '"' then some ([], none)
    else if c = '\n' then none
    else if c = '\\' then some ([], some .backslash)
    else some (e.encode c, some .text)
  | .backslash, c =>
    match simpleEscapes.lookup c, octalDigit? c with
    | some c', _ => some (e.encode c', some .text)
    | none, some d => some ([], some (.octal 1 d))
    | none, none =>
      if c = 'x' then some ([], some (.hex none))
      else if c = 'u' then some ([], some (.universal 4 0))
      else if c = 'U' then some ([], some (.universal 8 0))
      else none
  | .octal digits value, c =>
    (octalDigit? c).map fun d => ([], some (.octal (digits + 1) (8 * value + d)))
  | .hex value, c => (hexDigit? c).map fun d => ([], some (.hex (some (16 * value.getD 0 + d))))
  | .universal left value, c =>
    match hexDigit? c with
    | none => none
    | some d =>
      if left = 1 then (scalarValue? (16 * value + d)).map fun c' => (e.encode c', some .text)
      else some ([], some (.universal (left - 1) (16 * value + d)))

def read (s : LexState) (c : Char) : Option (List α × Option LexState) :=
  match flush e s c with
  | none => none
  | some (pending, s') => (advance e s' c).map fun (out, next) => (pending ++ out, next)

/-- The value of the literal whose opening quote has been read, and what follows it. -/
def lex : LexState → List Char → Option (List α × List Char)
  | _, [] => none
  | s, c :: rest =>
    match read e s c with
    | none => none
    | some (out, none) => some (out, rest)
    | some (out, some s') => (lex s' rest).map fun (value, after) => (out ++ value, after)

/-- The string literal a source text begins with: its value, and the logical lines after it. -/
def literal (crEndsLine : Bool) (source : List Char) : Option (List α × List Char) :=
  match logicalLines crEndsLine source with
  | '"' :: body => lex e .text body
  | _ => none

end

/-- A character that stands for itself in a string literal. -/
def PlainChar (c : Char) : Prop := c ≠ '"' ∧ c ≠ '\\' ∧ c ≠ '\n'

instance (c : Char) : Decidable (PlainChar c) := inferInstanceAs (Decidable (_ ∧ _ ∧ _))

section
variable {crEndsLine : Bool} {c : Char} {rest : List Char}

theorem lineEnds_cons (hc : c ≠ '\r') :
    lineEnds crEndsLine (c :: rest) = c :: lineEnds crEndsLine rest := by
  rw [lineEnds]
  · exact fun _ hcr => absurd hcr hc
  · exact hc

theorem lineEnds_cr (hrest : ∀ after, rest ≠ '\n' :: after) : lineEnds crEndsLine ('\r' :: rest) =
    (if crEndsLine then '\n' else '\r') :: lineEnds crEndsLine rest := by
  rw [lineEnds]
  exact hrest

theorem splice_cons (h : c = '\\' → ∀ after, rest ≠ '\n' :: after) :
    splice (c :: rest) = c :: splice rest := by
  rw [splice]
  exact fun after hc hafter => h hc after hafter

theorem ne_newline_of_not_mem {text : List Char} (h : '\n' ∉ text) (after : List Char) :
    text ≠ '\n' :: after := by
  rintro rfl
  exact h (List.mem_cons_self ..)

theorem append_quote_ne_newline {text : List Char} (h : ∀ after, text ≠ '\n' :: after)
    (after rest : List Char) : text ++ '"' :: after ≠ '\n' :: rest := by
  intro hrest
  cases text with
  | nil => cases hrest
  | cons c text =>
    obtain ⟨rfl, _⟩ := List.cons.inj hrest
    exact h text rfl

theorem lineEnds_append_quote (text after : List Char) :
    lineEnds crEndsLine (text ++ '"' :: after) =
      lineEnds crEndsLine text ++ '"' :: lineEnds crEndsLine after := by
  induction text using lineEnds.induct with
  | case1 text ih => exact congrArg (List.cons '\n') ih
  | case2 text hne ih =>
    have hnext := append_quote_ne_newline hne after
    rw [List.cons_append, lineEnds_cr hne, lineEnds_cr hnext, ih, List.cons_append]
  | case3 c text _ hc ih =>
    rw [List.cons_append, lineEnds_cons hc, lineEnds_cons hc, ih, List.cons_append]
  | case4 => exact lineEnds_cons (by decide)

theorem splice_append_quote (text after : List Char) :
    splice (text ++ '"' :: after) = splice text ++ '"' :: splice after := by
  induction text using splice.induct with
  | case1 text ih => exact ih
  | case2 c text hne ih =>
    have hnext (hc : c = '\\') := append_quote_ne_newline (fun r => hne r hc) after
    rw [List.cons_append, splice_cons fun hc r => hne r hc, splice_cons hnext, ih,
      List.cons_append]
  | case3 => exact splice_cons fun hc => absurd hc (by decide)

theorem logicalLines_append_quote (text after : List Char) :
    logicalLines crEndsLine (text ++ '"' :: after) =
      logicalLines crEndsLine text ++ '"' :: logicalLines crEndsLine after := by
  rw [logicalLines, lineEnds_append_quote, splice_append_quote]
  rfl

theorem lineEnds_eq_self {text : List Char} (hcr : crEndsLine = true → '\r' ∉ text)
    (hnl : '\n' ∉ text) : lineEnds crEndsLine text = text := by
  induction text with
  | nil => rfl
  | cons c text ih =>
    obtain ⟨_, hrest⟩ := not_or.1 (mt List.mem_cons.2 hnl)
    have hsame := ih (fun h hmem => hcr h (List.mem_cons_of_mem _ hmem)) hrest
    by_cases hc : c = '\r'
    · subst c
      rw [lineEnds_cr (ne_newline_of_not_mem hrest), hsame,
        if_neg fun h => hcr h (List.mem_cons_self ..)]
    · rw [lineEnds_cons hc, hsame]

theorem splice_eq_self {text : List Char} (hnl : '\n' ∉ text) : splice text = text := by
  induction text with
  | nil => rfl
  | cons c text ih =>
    obtain ⟨_, hrest⟩ := not_or.1 (mt List.mem_cons.2 hnl)
    rw [splice_cons fun _ => ne_newline_of_not_mem hrest, ih hrest]

theorem lineEnds_of_no_newline {text : List Char} (h : '\n' ∉ lineEnds crEndsLine text) :
    lineEnds crEndsLine text = text ∧ (crEndsLine = true → '\r' ∉ text) := by
  induction text using lineEnds.induct with
  | case1 text ih => exact absurd (List.mem_cons_self ..) h
  | case2 text hne ih =>
    rw [lineEnds_cr hne] at h ⊢
    obtain ⟨hc, hrest⟩ := not_or.1 (mt List.mem_cons.2 h)
    cases crEndsLine with
    | true => exact absurd rfl hc
    | false => exact ⟨congrArg (List.cons '\r') (ih hrest).1, nofun⟩
  | case3 c text _ hc ih =>
    rw [lineEnds_cons hc] at h ⊢
    obtain ⟨_, hrest⟩ := not_or.1 (mt List.mem_cons.2 h)
    refine ⟨congrArg (List.cons c) (ih hrest).1, fun hcr hmem => ?_⟩
    obtain rfl | hmem := List.mem_cons.1 hmem
    · exact hc rfl
    · exact (ih hrest).2 hcr hmem
  | case4 => exact ⟨rfl, fun _ => nofun⟩

variable (e : Encoding α)

theorem length_lineEnds (text : List Char) :
    (e.units (lineEnds crEndsLine text)).length ≤ (e.units text).length := by
  have hcr := e.length_ascii '\r' (by decide)
  have hnl := e.length_ascii '\n' (by decide)
  induction text using lineEnds.induct with
  | case1 text ih =>
    simp only [lineEnds, Encoding.units, List.flatMap_cons, List.length_append] at ih ⊢
    omega
  | case2 text hne ih =>
    rw [lineEnds_cr hne]
    simp only [Encoding.units, List.flatMap_cons, List.length_append] at ih ⊢
    split
    all_goals omega
  | case3 c text _ hc ih =>
    rw [lineEnds_cons hc]
    simp only [Encoding.units, List.flatMap_cons, List.length_append] at ih ⊢
    omega
  | case4 => exact Nat.le_refl _

theorem length_splice (text : List Char) : (e.units (splice text)).length ≤ (e.units text).length ∧
    ((e.units text).length ≤ (e.units (splice text)).length → splice text = text) := by
  induction text using splice.induct with
  | case1 text ih =>
    have hbackslash := e.length_ascii '\\' (by decide)
    have hnewline := e.length_ascii '\n' (by decide)
    simp only [splice, Encoding.units, List.flatMap_cons, List.length_append] at ih ⊢
    exact ⟨by omega, fun h => by omega⟩
  | case2 c text hne ih =>
    rw [splice_cons fun hc r => hne r hc]
    simp only [Encoding.units, List.flatMap_cons, List.length_append] at ih ⊢
    refine ⟨by omega, fun h => congrArg (List.cons c) (ih.2 ?_)⟩
    omega
  | case3 => exact ⟨Nat.le_refl _, fun _ => rfl⟩

end

section
variable {e : Encoding α} {c : Char} {s s' : LexState} {out value : List α}
  {text after : List Char}

theorem read_text (c : Char) : read e .text c = advance e .text c := by
  have hflush : flush e .text c = some ([], .text) := rfl
  simp only [read, hflush, List.nil_append]
  exact Option.map_id'

theorem lex_quote (after : List Char) : lex e .text ('"' :: after) = some ([], after) := by
  rw [lex, read_text]
  rfl

theorem lex_plain_cons (hc : PlainChar c) (text : List Char) : lex e .text (c :: text) =
    (lex e .text text).map fun (value, after) => (e.encode c ++ value, after) := by
  rw [lex, read_text, advance, if_neg hc.1, if_neg hc.2.2, if_neg hc.2.1]

theorem lex_escape_cons {letter c : Char} (h : simpleEscapes.lookup letter = some c)
    (text : List Char) : lex e .text ('\\' :: letter :: text) =
      (lex e .text text).map fun (value, after) => (e.encode c ++ value, after) := by
  have hbackslash : read e .text '\\' = some ([], some .backslash) := by
    rw [read_text]
    rfl
  have hletter : read e .backslash letter = some (e.encode c, some .text) := by
    simp only [read, flush, advance, h, Option.map_some, List.nil_append]
  rw [lex, hbackslash]
  simp only [lex, hletter, Option.map_map]
  rfl

/-- An escaping writes each character so that it is read as that character. -/
def Escapes (e : Encoding α) (escape : Char → List Char) : Prop :=
  ∀ c text, lex e .text (escape c ++ text) =
    (lex e .text text).map fun (value, after) => (e.encode c ++ value, after)

/-- What an escaping writes is read back, as far as the quote after it. -/
theorem lex_escaped {escape : Char → List Char} (h : Escapes e escape)
    (text after : List Char) :
    lex e .text (text.flatMap escape ++ '"' :: after) = some (e.units text, after) := by
  induction text with
  | nil => exact lex_quote after
  | cons c text ih =>
    rw [List.flatMap_cons, List.append_assoc, h, ih]
    rfl

theorem lex_plain (h : ∀ c ∈ text, PlainChar c) (after : List Char) :
    lex e .text (text ++ '"' :: after) = some (e.units text, after) := by
  induction text with
  | nil => exact lex_quote after
  | cons c text ih =>
    rw [List.cons_append, lex_plain_cons (h c (List.mem_cons_self ..)),
      ih fun c' hc' => h c' (List.mem_cons_of_mem _ hc')]
    rfl

end

/-- At least so many units of the source has an escape sequence taken up so far. -/
def LexState.taken : LexState → Nat
  | .text => 0
  | .backslash => 1
  | .octal _ _ | .hex _ => 2
  | .universal left _ => 6 - left

theorem taken_text : LexState.text.taken = 0 := rfl

section
variable {e : Encoding α} {c c' : Char} {s s' : LexState} {out value : List α}
  {text after : List Char}

/-- A character that is read adds no more to the value than it is long, and less where it
belongs to an escape sequence. -/
structure Shrinks (e : Encoding α) (s : LexState) (c : Char) (out : List α) (s' : LexState) :
    Prop where
  bound : out.length + s'.taken ≤ s.taken + (e.encode c).length
  plain : s' = .text → s.taken + (e.encode c).length ≤ out.length →
    s = .text ∧ PlainChar c

theorem Shrinks.silent (htaken : s'.taken ≤ s.taken + 1) (hs' : s' ≠ .text) :
    Shrinks e s c [] s' where
  bound := by
    have hc := e.length_pos c
    rw [List.length_nil]
    omega
  plain h := absurd h hs'

theorem simpleEscapes_ascii (h : simpleEscapes.lookup c = some c') : c'.toNat < 128 := by
  obtain ⟨before, rest, hmem, _⟩ := List.lookup_eq_some_iff.1 h
  have hall : ∀ entry ∈ simpleEscapes, entry.2.toNat < 128 := by decide
  exact hall (c, c') (hmem ▸ List.mem_append_right _ (List.mem_cons_self ..))

theorem advance_shrinks (h : advance e s c = some (out, some s')) : Shrinks e s c out s' := by
  cases s with
  | text =>
    simp only [advance] at h
    split_ifs at h with hquote hnewline hbackslash
    · cases h
    · cases h
      exact .silent (Nat.le_refl _) nofun
    · cases h
      exact ⟨by simp [LexState.taken], fun _ _ => ⟨rfl, hquote, hbackslash, hnewline⟩⟩
  | backslash =>
    simp only [advance] at h
    split at h
    next c' hsimple =>
      cases h
      have hc := e.length_pos c
      have hlen := e.length_ascii c' (simpleEscapes_ascii hsimple)
      refine ⟨?_, fun _ hle => ?_⟩
      · simp only [hlen, LexState.taken]
        omega
      · simp only [hlen, LexState.taken] at hle
        omega
    next =>
      cases h
      exact .silent (Nat.le_refl _) nofun
    next =>
      split_ifs at h
      all_goals
        cases h
        exact .silent (by decide) nofun
  | octal digits value =>
    obtain ⟨d, _, hd⟩ := Option.map_eq_some_iff.1 h
    cases hd
    exact .silent (Nat.le_succ _) nofun
  | hex value =>
    obtain ⟨d, _, hd⟩ := Option.map_eq_some_iff.1 h
    cases hd
    exact .silent (Nat.le_succ _) nofun
  | universal left value =>
    simp only [advance] at h
    split at h
    next => cases h
    next d _ =>
      by_cases hleft : left = 1
      · rw [if_pos hleft] at h
        obtain ⟨c', _, hd⟩ := Option.map_eq_some_iff.1 h
        cases hd
        have hlen := e.length_le c'
        refine ⟨?_, fun _ hle => ?_⟩
        · simp only [LexState.taken, hleft]
          omega
        · simp only [LexState.taken, hleft] at hle
          omega
      · rw [if_neg hleft] at h
        cases h
        refine .silent ?_ nofun
        simp only [LexState.taken]
        omega

/-- A numeric escape that ends gives one unit, and is longer than that. -/
theorem flush_cases (h : flush e s c = some (out, s')) :
    (out = [] ∧ s' = s) ∨ (out.length = 1 ∧ s.taken = 2 ∧ s' = .text) := by
  have hnumeric {kept : Prop} [Decidable kept] {numeric : LexState} {value : Nat}
      (hf : (if kept then some ([], numeric) else (e.unit value).map fun u => ([u], .text)) =
        some (out, s')) : (out = [] ∧ s' = numeric) ∨ (out.length = 1 ∧ s' = .text) := by
    split_ifs at hf
    · cases hf
      exact .inl ⟨rfl, rfl⟩
    · obtain ⟨u, _, hu⟩ := Option.map_eq_some_iff.1 hf
      cases hu
      exact .inr ⟨rfl, rfl⟩
  cases s with
  | octal digits value => exact (hnumeric h).imp_right fun hu => ⟨hu.1, rfl, hu.2⟩
  | hex value =>
    cases value with
    | none =>
      cases h
      exact .inl ⟨rfl, rfl⟩
    | some value => exact (hnumeric h).imp_right fun hu => ⟨hu.1, rfl, hu.2⟩
  | text | backslash | universal =>
    cases h
    exact .inl ⟨rfl, rfl⟩

theorem read_inv {next : Option LexState} (h : read e s c = some (out, next)) :
    ∃ pending s₁ out', flush e s c = some (pending, s₁) ∧
      advance e s₁ c = some (out', next) ∧ out = pending ++ out' := by
  unfold read at h
  split at h
  next => cases h
  next pending s₁ hflush =>
    obtain ⟨⟨out', next'⟩, hadvance, hpair⟩ := Option.map_eq_some_iff.1 h
    cases hpair
    exact ⟨pending, s₁, out', hflush, hadvance, rfl⟩

theorem read_shrinks (h : read e s c = some (out, some s')) : Shrinks e s c out s' := by
  obtain ⟨pending, s₁, out', hflush, hadvance, rfl⟩ := read_inv h
  have hs := advance_shrinks hadvance
  rcases flush_cases hflush with ⟨rfl, rfl⟩ | ⟨hone, htaken, rfl⟩
  · exact hs
  · have hbound := hs.bound
    rw [taken_text] at hbound
    refine ⟨?_, fun _ hle => ?_⟩
    · rw [List.length_append, hone, htaken]
      omega
    · rw [List.length_append, hone, htaken] at hle
      omega

theorem advance_closes (h : advance e s c = some (out, none)) :
    s = .text ∧ c = '"' ∧ out = [] := by
  cases s with
  | text =>
    simp only [advance] at h
    split_ifs at h with hquote
    all_goals cases h
    exact ⟨rfl, hquote, rfl⟩
  | backslash =>
    simp only [advance] at h
    split at h
    next => cases h
    next => cases h
    next =>
      split_ifs at h
      all_goals cases h
  | octal | hex =>
    obtain ⟨_, _, hd⟩ := Option.map_eq_some_iff.1 h
    cases hd
  | universal left value =>
    simp only [advance] at h
    split at h
    next => cases h
    next =>
      split_ifs at h
      · obtain ⟨_, _, hd⟩ := Option.map_eq_some_iff.1 h
        cases hd
      · cases h

theorem read_closes (h : read e s c = some (out, none)) :
    c = '"' ∧ out.length ≤ s.taken ∧ (s.taken ≤ out.length → s = .text) := by
  obtain ⟨pending, s₁, out', hflush, hadvance, rfl⟩ := read_inv h
  obtain ⟨rfl, rfl, rfl⟩ := advance_closes hadvance
  rw [List.append_nil]
  rcases flush_cases hflush with ⟨rfl, rfl⟩ | ⟨hone, htaken, _⟩
  · exact ⟨rfl, Nat.zero_le _, fun _ => rfl⟩
  · rw [hone, htaken]
    exact ⟨rfl, by decide, fun hle => absurd hle (by decide)⟩

theorem lex_length (h : lex e s text = some (value, after)) :
    ∃ body, text = body ++ '"' :: after ∧ value.length ≤ s.taken + (e.units body).length ∧
      (s.taken + (e.units body).length ≤ value.length →
        s = .text ∧ ∀ c ∈ body, PlainChar c) := by
  induction text generalizing s value with
  | nil => cases h
  | cons c text ih =>
    unfold lex at h
    split at h
    next => cases h
    next out hread =>
      obtain ⟨rfl, rfl⟩ := Prod.mk.inj (Option.some.inj h)
      obtain ⟨rfl, hle, hplain⟩ := read_closes hread
      refine ⟨[], rfl, hle, fun hge => ⟨hplain hge, nofun⟩⟩
    next out s' hread =>
      obtain ⟨⟨value', after'⟩, hlex, hpair⟩ := Option.map_eq_some_iff.1 h
      obtain ⟨rfl, rfl⟩ := Prod.mk.inj hpair
      obtain ⟨body, rfl, hle, hplain⟩ := ih hlex
      have hs := read_shrinks hread
      have hbound := hs.bound
      have hunits : (e.units (c :: body)).length = (e.encode c).length + (e.units body).length := by
        simp only [Encoding.units, List.flatMap_cons, List.length_append]
      refine ⟨c :: body, rfl, ?_, fun hge => ?_⟩
      · rw [hunits, List.length_append]
        omega
      · rw [hunits, List.length_append] at hge
        obtain ⟨rfl, hbody⟩ := hplain (by omega)
        rw [taken_text] at hbound hle
        obtain ⟨rfl, hc⟩ := hs.plain rfl (by omega)
        refine ⟨rfl, fun c' hc' => ?_⟩
        obtain rfl | hmem := List.mem_cons.1 hc'
        · exact hc
        · exact hbody c' hmem

def PlainText (crEndsLine : Bool) (text : List Char) : Prop :=
  (∀ c ∈ text, PlainChar c) ∧ (crEndsLine = true → '\r' ∉ text)

instance (crEndsLine : Bool) (text : List Char) : Decidable (PlainText crEndsLine text) :=
  @instDecidableAnd _ _ (List.decidableBAll _ _) inferInstance

variable {crEndsLine : Bool}

theorem literal_quoted (text after : List Char) :
    literal e crEndsLine ('"' :: (text ++ '"' :: after)) =
      lex e .text (logicalLines crEndsLine text ++ '"' :: logicalLines crEndsLine after) := by
  have hlines : logicalLines crEndsLine ('"' :: (text ++ '"' :: after)) =
      '"' :: (logicalLines crEndsLine text ++ '"' :: logicalLines crEndsLine after) := by
    rw [← logicalLines_append_quote]
    exact logicalLines_append_quote [] _
  simp only [literal, hlines]

theorem logicalLines_eq_self (hcr : crEndsLine = true → '\r' ∉ text) (hnl : '\n' ∉ text) :
    logicalLines crEndsLine text = text := by
  rw [logicalLines, lineEnds_eq_self hcr hnl, splice_eq_self hnl]

/-- A literal written by an escaping that leaves no line end has the text for its value. -/
theorem literal_escaped {escape : Char → List Char} (h : Escapes e escape)
    (hone : ∀ c, '\r' ∉ escape c ∧ '\n' ∉ escape c) (text after : List Char) :
    literal e crEndsLine ('"' :: (text.flatMap escape ++ '"' :: after)) =
      some (e.units text, logicalLines crEndsLine after) := by
  have hline {lineEnd : Char} (hend : ∀ c, lineEnd ∉ escape c) : lineEnd ∉ text.flatMap escape := by
    intro hmem
    obtain ⟨c, _, hc⟩ := List.mem_flatMap.1 hmem
    exact hend c hc
  have hcr := hline fun c => (hone c).1
  have hnl := hline fun c => (hone c).2
  rw [literal_quoted, logicalLines_eq_self (fun _ => hcr) hnl]
  exact lex_escaped h text _

/-- A text between quotes that is one literal has a value no longer than it is, and as long only
where it stands for itself. -/
theorem literal_bound (h : literal e crEndsLine ('"' :: (text ++ '"' :: after)) =
      some (value, logicalLines crEndsLine after)) :
    value.length ≤ (e.units text).length ∧
      ((e.units text).length ≤ value.length → PlainText crEndsLine text) := by
  rw [literal_quoted] at h
  obtain ⟨body, hbody, hle, hplain⟩ := lex_length h
  obtain rfl := List.append_cancel_right hbody
  rw [taken_text, Nat.zero_add] at hle hplain
  have hsplice := length_splice e (lineEnds crEndsLine text)
  have hends : (e.units (lineEnds crEndsLine text)).length ≤ (e.units text).length :=
    length_lineEnds e text
  refine ⟨Nat.le_trans hle (Nat.le_trans hsplice.1 hends), fun hge => ?_⟩
  obtain ⟨_, hchars⟩ := hplain (Nat.le_trans hsplice.1 (Nat.le_trans hends hge))
  have hspliced := hsplice.2 (Nat.le_trans hends (Nat.le_trans hge hle))
  rw [logicalLines, hspliced] at hchars
  obtain ⟨hsame, hcr⟩ := lineEnds_of_no_newline fun hmem => (hchars '\n' hmem).2.2 rfl
  rw [hsame] at hchars
  exact ⟨hchars, hcr⟩

/-- A text put between quotes as it is reads as itself exactly where it is plain. -/
theorem literal_raw_iff (text after : List Char) :
    literal e crEndsLine ('"' :: (text ++ '"' :: after)) =
        some (e.units text, logicalLines crEndsLine after) ↔ PlainText crEndsLine text := by
  constructor
  · exact fun h => (literal_bound h).2 (Nat.le_refl _)
  · intro h
    have hnl : '\n' ∉ text := fun hmem => (h.1 '\n' hmem).2.2 rfl
    rw [literal_quoted, logicalLines_eq_self h.2 hnl]
    exact lex_plain h.1 _

end

def utf8 : Encoding UInt8 where
  encode := String.utf8EncodeChar
  unit n := if n < 256 then some (UInt8.ofNat n) else none
  length_pos c := by
    rw [String.length_utf8EncodeChar]
    exact c.utf8Size_pos
  length_le c := by
    rw [String.length_utf8EncodeChar]
    exact c.utf8Size_le_four
  length_ascii c hc := by
    rw [String.length_utf8EncodeChar, Char.utf8Size_eq_one_iff, UInt32.le_iff_toNat_le]
    exact Nat.le_of_lt_succ hc

/-- A `u` literal is stored in UTF-16. -/
def utf16 : Encoding UInt16 where
  encode c :=
    if c.toNat < 0x10000 then [UInt16.ofNat c.toNat]
    else [UInt16.ofNat (0xD800 + (c.toNat - 0x10000) / 0x400),
      UInt16.ofNat (0xDC00 + (c.toNat - 0x10000) % 0x400)]
  unit n := if n < 0x10000 then some (UInt16.ofNat n) else none
  length_pos c := by split <;> simp
  length_le c := by split <;> simp
  length_ascii c hc := by
    rw [if_pos (Nat.lt_trans hc (by decide))]
    rfl

theorem zero_mem_utf8 {c : Char} (h : 0 ∈ utf8.encode c) : c = Char.ofNat 0 := by
  have hbyte {n : Nat} (hn : (0 : UInt8) = UInt8.ofNat n) : n % 256 = 0 := by
    have hnat := congrArg UInt8.toNat hn
    rw [UInt8.toNat_ofNat'] at hnat
    exact hnat.symm
  simp only [utf8, String.utf8EncodeChar] at h
  split_ifs at h with hone htwo hthree
  · have hzero := hbyte (List.mem_singleton.1 h)
    apply Char.ext
    apply UInt32.toNat_inj.1
    have hval : c.val.toNat = 0 := by omega
    exact hval
  all_goals
    simp only [List.mem_cons, List.not_mem_nil, or_false] at h
    exfalso
  · rcases h with h | h
    all_goals
      have hzero := hbyte h
      omega
  · rcases h with h | h | h
    all_goals
      have hzero := hbyte h
      omega
  · rcases h with h | h | h | h
    all_goals
      have hzero := hbyte h
      omega

end CppLiterals
