import Mathlib.Data.List.AList
import Mathlib.Data.List.Sort

namespace Directories
set_option autoImplicit true

/-- What a name stands for, where it is no symbolic link; of a file, whether it can be written, and
nothing of what a directory has in it. -/
inductive Entry (F : Type) where
  | dir
  | file (writable : Bool) (content : F)
deriving DecidableEq

/-- A directory, by the names in it. -/
abbrev Dir (N F : Type) := AList fun _ : N => Entry F

section
variable {N F : Type}

namespace Entry

def isFile : Entry F → Bool
  | .dir => false
  | .file _ _ => true

def content : Entry F → Option F
  | .dir => none
  | .file _ content => some content

def Writable : Entry F → Prop
  | .dir => True
  | .file writable _ => writable = true

/-- `chmod u+w`. -/
def chmod : Entry F → Entry F
  | .dir => .dir
  | .file _ content => .file true content

/-- What `cp` makes of a name that stands for `old`, where it does not fail: a file that can be
written keeps its mode, and one that cannot is replaced by force alone. -/
def cp (force : Bool) (source : Entry F) (old : Option (Entry F)) : Option (Entry F) :=
  match old, source with
  | none, source => some source
  | some .dir, .dir => some .dir
  | some (.file true _), .file _ content => some (.file true content)
  | some (.file false _), .file mode content => if force then some (.file mode content) else none
  | _, _ => none

end Entry

section
variable {source e : Entry F} {old : Option (Entry F)} {force writable : Bool} {content : F}

theorem Entry.content_eq_some :
    e.content = some content ↔ ∃ writable, e = .file writable content := by
  cases e with
  | dir => exact iff_of_false nofun nofun
  | file writable c =>
    constructor
    · rintro ⟨⟩
      exact ⟨writable, rfl⟩
    · rintro ⟨_, ⟨⟩⟩
      rfl

theorem Entry.chmod_writable (e : Entry F) : e.chmod.Writable := by
  cases e with
  | dir => trivial
  | file => rfl

theorem Entry.chmod_content (e : Entry F) : e.chmod.content = e.content := by
  cases e <;> rfl

theorem Entry.cp_content (h : source.cp force old = some e) : e.content = source.content := by
  unfold Entry.cp at h
  split at h
  · cases h
    rfl
  · cases h
    rfl
  · cases h
    rfl
  · split at h
    · cases h
      rfl
    · cases h
  · cases h

theorem Entry.cp_isSome (h : ∀ e ∈ old, e.isFile = true ∧ e.Writable) :
    ((Entry.file writable content).cp force old).isSome = true := by
  match old with
  | none => rfl
  | some .dir => exact absurd (h .dir rfl).1 Bool.false_ne_true
  | some (.file mode c) =>
    obtain rfl : mode = true := (h _ rfl).2
    rfl

theorem Entry.cp_isSome_iff (hfile : source.isFile = true) :
    (source.cp false old).isSome = true ↔ ∀ e ∈ old, e.isFile = true ∧ e.Writable := by
  cases source with
  | dir => cases hfile
  | file writable content =>
    refine ⟨fun h e he => ?_, Entry.cp_isSome⟩
    obtain rfl := Option.mem_def.1 he
    match e with
    | .dir => cases h
    | .file true _ => exact ⟨rfl, rfl⟩
    | .file false _ => cases h

theorem Entry.cp_writable {old : Entry F} (h : source.cp false (some old) = some e) :
    e.Writable := by
  match old, source with
  | .dir, .dir =>
    obtain rfl := Option.some.inj h
    trivial
  | .dir, .file _ _ => cases h
  | .file true _, .file _ _ =>
    obtain rfl := Option.some.inj h
    rfl
  | .file true _, .dir => cases h
  | .file false _, .file _ _ => cases h
  | .file false _, .dir => cases h

theorem Entry.cp_none : source.cp force none = some source := by
  cases source <;> rfl

theorem Entry.isFile_eq : e.isFile = true ↔ ∃ writable content, e = .file writable content := by
  cases e with
  | dir => exact iff_of_false nofun nofun
  | file writable content => exact iff_of_true rfl ⟨writable, content, rfl⟩

theorem Entry.isFile_iff : e.isFile = true ↔ e.content.isSome = true := by
  cases e <;> exact Iff.rfl

theorem Entry.cp_isFile (h : source.cp force old = some e) (hfile : source.isFile = true) :
    e.isFile = true := by
  rw [Entry.isFile_iff, Entry.cp_content h]
  exact Entry.isFile_iff.1 hfile

end

variable [DecidableEq N]

namespace Dir

/-- Makes of each name in turn what `f` says, or fails. -/
def each (names : List N) (f : N → Option (Entry F) → Option (Entry F)) (d : Dir N F) :
    Option (Dir N F) :=
  names.foldlM (fun d n => (f n (d.lookup n)).map fun e => d.insert n e) d

def attempt (names : List N) (f : N → Option (Entry F) → Option (Entry F)) (d : Dir N F) :
    Dir N F :=
  names.foldl (fun d n => ((f n (d.lookup n)).map fun e => d.insert n e).getD d) d

/-- `chmod -R u+w`. -/
def chmod (d : Dir N F) : Dir N F := d.attempt d.keys fun _ old => old.map Entry.chmod

end Dir

section
variable {names : List N} {f : N → Option (Entry F) → Option (Entry F)} {d d' : Dir N F} {n : N}

/-- Every name is done with once, so each is as it was when its turn comes. -/
theorem Dir.lookup_each (hnodup : names.Nodup) (h : d.each names f = some d') :
    (∀ n ∈ names, ∃ e, f n (d.lookup n) = some e ∧ d'.lookup n = some e) ∧
      ∀ n ∉ names, d'.lookup n = d.lookup n := by
  induction names generalizing d with
  | nil =>
    obtain rfl := Option.some.inj h
    exact ⟨fun _ hn => absurd hn List.not_mem_nil, fun _ _ => rfl⟩
  | cons m names ih =>
    rw [Dir.each, List.foldlM_cons, Option.bind_eq_bind, Option.bind_eq_some_iff] at h
    obtain ⟨d₁, hd₁, hrest⟩ := h
    obtain ⟨e, he, rfl⟩ := Option.map_eq_some_iff.1 hd₁
    obtain ⟨hm, hnames⟩ := List.nodup_cons.1 hnodup
    obtain ⟨hin, hout⟩ := ih hnames hrest
    have hkept {n : N} (hn : n ≠ m) : (d.insert m e).lookup n = d.lookup n :=
      AList.lookup_insert_ne hn
    constructor
    · intro n hn
      obtain rfl | hn := List.mem_cons.1 hn
      · refine ⟨e, he, (hout n hm).trans ?_⟩
        exact AList.lookup_insert d
      · have hne : n ≠ m := fun hnm => hm (hnm ▸ hn)
        rw [← hkept hne]
        exact hin n hn
    · intro n hn
      rw [List.mem_cons, not_or] at hn
      rw [hout n hn.2, hkept hn.1]

theorem Dir.each_isSome_iff (hnodup : names.Nodup) :
    (d.each names f).isSome = true ↔ ∀ n ∈ names, (f n (d.lookup n)).isSome = true := by
  induction names generalizing d with
  | nil => exact iff_of_true rfl fun _ hn => absurd hn List.not_mem_nil
  | cons m names ih =>
    obtain ⟨hm, hnames⟩ := List.nodup_cons.1 hnodup
    rw [Dir.each, List.foldlM_cons, List.forall_mem_cons]
    cases hf : f m (d.lookup m) with
    | none => exact iff_of_false nofun fun h => absurd h.1 nofun
    | some e =>
      have hkept : ∀ n ∈ names, (d.insert m e).lookup n = d.lookup n := fun n hn =>
        AList.lookup_insert_ne fun hnm => hm (hnm ▸ hn)
      have hrest := ih (d := d.insert m e) hnames
      refine hrest.trans ⟨fun h => ⟨rfl, fun n hn => ?_⟩, fun h n hn => ?_⟩
      · rw [← hkept n hn]
        exact h n hn
      · rw [hkept n hn]
        exact h.2 n hn

theorem Dir.lookup_attempt (hnodup : names.Nodup) (n : N) :
    (d.attempt names f).lookup n =
      if n ∈ names then (f n (d.lookup n)).or (d.lookup n) else d.lookup n := by
  induction names generalizing d with
  | nil => rw [if_neg List.not_mem_nil]; rfl
  | cons m names ih =>
    obtain ⟨hm, hnames⟩ := List.nodup_cons.1 hnodup
    rw [Dir.attempt, List.foldl_cons]
    refine (ih hnames).trans ?_
    by_cases hnm : n = m
    · subst hnm
      rw [if_neg hm, if_pos (List.mem_cons_self ..)]
      cases hf : f n (d.lookup n) with
      | none => rfl
      | some e => exact AList.lookup_insert d
    · have hkept : (((f m (d.lookup m)).map fun e => d.insert m e).getD d).lookup n =
          d.lookup n := by
        cases hf : f m (d.lookup m) with
        | none => rfl
        | some e => exact AList.lookup_insert_ne hnm
      simp only [hkept, List.mem_cons, hnm, false_or]

theorem Dir.lookup_chmod (d : Dir N F) (n : N) :
    d.chmod.lookup n = (d.lookup n).map Entry.chmod := by
  rw [Dir.chmod, Dir.lookup_attempt d.keys_nodup]
  cases hn : d.lookup n with
  | none => split <;> rfl
  | some e =>
    have hmem : n ∈ d := AList.lookup_isSome.1 (by rw [hn]; rfl)
    rw [if_pos (AList.mem_keys.1 hmem)]
    rfl

end

end

end Directories
