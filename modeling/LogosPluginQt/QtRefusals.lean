import LogosPluginQt.QtAdvertised

namespace LogosPluginQt
open Interleaving QtProviderObject
set_option autoImplicit true

/-- The call passes the guards of `callMethod`, as far as the lookup. -/
def ReachesLookup (object : WrappedObject) (methodName : String) (args : List QVariant) :
    Prop :=
  methodName ≠ "" ∧ (args = [] → methodName ∉ frameworkNames) ∧
    ∃ pluginInterface, object.pluginInterface = some pluginInterface ∧
      pluginInterface.hasLogosAPI = true

def FirstOverload (object : WrappedObject) (methodName : String) (args : List QVariant)
    (m : MetaMethod) : Prop :=
  ∃ before after, object.methods = before ++ m :: after ∧ m.name = methodName ∧
    m.parameterCount = args.length ∧
    ∀ m' ∈ before, m'.name = methodName → m'.parameterCount ≠ args.length

def Refuses (q : QtLib) (object : WrappedObject) (methodName : String) (args : List QVariant)
    (code message : String) : Prop :=
  callMethod q (some object) methodName args =
    .ret (rejectionVariant code (providerName object) message)

/-- The text for a method whose every declaration takes `arity` arguments. -/
def expectedMessage (arity got : Nat) : String :=
  "expected " ++ toString arity ++ " arguments, got " ++ toString got

/-- `reason` is the diagnostic of the first argument that `qtArgDecode` rejects, where the
arguments are counted from `start` on. -/
def FirstRejection (q : QtLib) (start : Nat) (args : List QVariant)
    (paramTypes : List MetaType) (reason : String) : Prop :=
  ∃ (i : Nat) (arg : QVariant) (paramType : MetaType),
    args[i]? = some arg ∧ paramTypes[i]? = some paramType ∧
    qtArgDecode q arg paramType ("arg" ++ toString (start + i)) = .rejected reason ∧
    ∀ j < i, ∀ arg' paramType', args[j]? = some arg' → paramTypes[j]? = some paramType' →
      ∀ reason',
        qtArgDecode q arg' paramType' ("arg" ++ toString (start + j)) ≠ .rejected reason'

def Rejects (q : QtLib) (args : List QVariant) (paramTypes : List MetaType) : Prop :=
  ∃ (i : Nat) (arg : QVariant) (paramType : MetaType) (reason : String),
    args[i]? = some arg ∧ paramTypes[i]? = some paramType ∧
    qtArgDecode q arg paramType ("arg" ++ toString i) = .rejected reason

/-- A method of the name takes as many arguments and accepts every one of them. -/
def AcceptableOverload (q : QtLib) (object : WrappedObject) (methodName : String)
    (args : List QVariant) : Prop :=
  ∃ m ∈ object.methods, m.name = methodName ∧ m.parameterCount = args.length ∧
    ∃ decoded, Accepted q 0 args m.parameterMetaTypes decoded

theorem eraseDups_eq_nil {α : Type} [BEq α] [LawfulBEq α] {l : List α} :
    l.eraseDups = [] ↔ l = [] := by
  cases l with
  | nil => simp only [List.eraseDups_nil]
  | cons a l => simp only [List.eraseDups_cons, reduceCtorEq]

theorem eraseDups_eq_singleton {α : Type} [BEq α] [LawfulBEq α] {l : List α} {a : α} :
    l.eraseDups = [a] ↔ l ≠ [] ∧ ∀ x ∈ l, x = a := by
  cases l with
  | nil => simp only [List.eraseDups_nil, List.nil_eq, reduceCtorEq, ne_eq, not_true_eq_false,
      false_and]
  | cons b l =>
    rw [List.eraseDups_cons, List.cons.injEq, eraseDups_eq_nil, List.filter_eq_nil_iff]
    simp only [ne_eq, reduceCtorEq, not_false_eq_true, true_and, List.forall_mem_cons]
    refine and_congr_right fun hb => ?_
    subst hb
    simp only [Bool.not_eq_true', beq_eq_false_iff_ne, ne_eq, not_not]

theorem toString_nat_inj {m n : Nat} (h : toString m = toString n) : m = n := by
  have hdigits : Nat.toDigits 10 m = Nat.toDigits 10 n := by
    rw [← Nat.toList_repr, ← Nat.toList_repr]
    exact congrArg String.toList h
  rw [← Nat.ofDigitChars_ten_toDigits (n := m), hdigits, Nat.ofDigitChars_ten_toDigits]

theorem expectedMessage_inj {arity arity' got : Nat}
    (h : expectedMessage arity got = expectedMessage arity' got) : arity = arity' := by
  unfold expectedMessage at h
  rw [String.append_left_inj, String.append_left_inj, String.append_right_inj] at h
  exact toString_nat_inj h

theorem rejectionVariant_inj {code code' origin origin' message message' : String}
    (h : rejectionVariant code origin message = rejectionVariant code' origin' message') :
    code = code' ∧ message = message' := by
  simp only [rejectionVariant, QVariant.map.injEq, List.cons.injEq, Prod.mk.injEq,
    QVariant.string.injEq, true_and, and_true] at h
  exact ⟨h.1, h.2.1⟩

section
variable {q : QtLib} {object : WrappedObject} {methodName : String} {args : List QVariant}

theorem methodIndex_eq_none :
    methodIndex object methodName args = none ↔
      ∀ m ∈ object.methods, m.name = methodName → m.parameterCount ≠ args.length := by
  rw [methodIndex, List.findIdx?_eq_none_iff]
  simp only [Bool.and_eq_false_iff, decide_eq_false_iff_not, ne_eq, imp_iff_not_or]

theorem arities_eq_nil :
    ((object.methods.filter fun m => m.name = methodName).map
        MetaMethod.parameterCount).eraseDups = [] ↔
      ∀ m ∈ object.methods, m.name ≠ methodName := by
  rw [eraseDups_eq_nil, List.map_eq_nil_iff, List.filter_eq_nil_iff]
  simp only [decide_eq_true_eq, ne_eq]

theorem arities_eq_singleton {arity : Nat} :
    ((object.methods.filter fun m => m.name = methodName).map
        MetaMethod.parameterCount).eraseDups = [arity] ↔
      (∃ m ∈ object.methods, m.name = methodName) ∧
        ∀ m ∈ object.methods, m.name = methodName → m.parameterCount = arity := by
  rw [eraseDups_eq_singleton, ne_eq, List.map_eq_nil_iff, List.filter_eq_nil_iff]
  simp only [List.forall_mem_map, List.mem_filter, decide_eq_true_eq, and_imp, not_forall,
    not_not, exists_prop]

/-- What the adapter answers where no method of the name takes as many arguments. -/
theorem methodNotFound_cases (object : WrappedObject) (hbare : ¬ BareMetadata methodName args) :
    ((∀ m ∈ object.methods, m.name ≠ methodName) ∧
      methodNotFound object methodName args =
        rejectionVariant "unknown_method" (providerName object)
          ("unknown method '" ++ methodName ++ "'")) ∨
    (∃ arity, ((∃ m ∈ object.methods, m.name = methodName) ∧
        ∀ m ∈ object.methods, m.name = methodName → m.parameterCount = arity) ∧
      methodNotFound object methodName args =
        rejectionVariant "invalid_args" (providerName object)
          (expectedMessage arity args.length)) ∨
    ((∃ m ∈ object.methods, m.name = methodName) ∧
      (∀ arity, ∃ m ∈ object.methods, m.name = methodName ∧ m.parameterCount ≠ arity) ∧
      methodNotFound object methodName args =
        rejectionVariant "invalid_args" (providerName object)
          ("no overload of '" ++ methodName ++ "' takes " ++ toString args.length ++
            " arguments")) := by
  rw [methodNotFound, if_neg (mt bareMetadata_iff.1 hbare)]
  dsimp only
  cases harities : ((object.methods.filter fun m => m.name = methodName).map
      MetaMethod.parameterCount).eraseDups with
  | nil => exact .inl ⟨arities_eq_nil.1 harities, rfl⟩
  | cons arity rest =>
    have hnamed : ∃ m ∈ object.methods, m.name = methodName := by
      have hsome := mt arities_eq_nil.2 (harities ▸ List.cons_ne_nil arity rest)
      simpa only [not_forall, not_not, exists_prop] using hsome
    cases rest with
    | nil => exact .inr (.inl ⟨arity, arities_eq_singleton.1 harities, rfl⟩)
    | cons arity' rest =>
      refine .inr (.inr ⟨hnamed, ?_, rfl⟩)
      intro arity''
      by_contra hall
      have hsame : ∀ m ∈ object.methods, m.name = methodName → m.parameterCount = arity'' := by
        intro m hm hname
        by_contra hne
        exact hall ⟨m, hm, hname, hne⟩
      rw [arities_eq_singleton.2 ⟨hnamed, hsame⟩] at harities
      cases harities

theorem firstRejection_cons {start : Nat} {arg : QVariant} {paramType : MetaType}
    {paramTypes : List MetaType} {reason : String} :
    FirstRejection q start (arg :: args) (paramType :: paramTypes) reason ↔
      qtArgDecode q arg paramType ("arg" ++ toString start) = .rejected reason ∨
      (∀ reason', qtArgDecode q arg paramType ("arg" ++ toString start) ≠ .rejected reason') ∧
        FirstRejection q (start + 1) args paramTypes reason := by
  constructor
  · rintro ⟨i, arg', paramType', harg, hparam, hrejected, hbefore⟩
    cases i with
    | zero =>
      obtain rfl := Option.some.inj harg
      obtain rfl := Option.some.inj hparam
      exact .inl hrejected
    | succ i =>
      refine .inr ⟨hbefore 0 (Nat.succ_pos i) arg paramType rfl rfl, i, arg', paramType',
        harg, hparam, ?_, ?_⟩
      · rwa [Nat.add_right_comm]
      · intro j hj arg'' paramType'' harg' hparam' reason'
        rw [Nat.add_right_comm]
        exact hbefore (j + 1) (Nat.succ_lt_succ hj) arg'' paramType'' harg' hparam' reason'
  · rintro (hrejected | ⟨hfirst, i, arg', paramType', harg, hparam, hrejected, hbefore⟩)
    · exact ⟨0, arg, paramType, rfl, rfl, hrejected, fun j hj => absurd hj (Nat.not_lt_zero j)⟩
    · refine ⟨i + 1, arg', paramType', harg, hparam, ?_, ?_⟩
      · rwa [Nat.add_right_comm] at hrejected
      · intro j hj arg'' paramType'' harg' hparam' reason'
        cases j with
        | zero =>
          obtain rfl := Option.some.inj harg'
          obtain rfl := Option.some.inj hparam'
          exact hfirst reason'
        | succ j =>
          rw [← Nat.add_assoc, Nat.add_right_comm]
          exact hbefore j (Nat.lt_of_succ_lt_succ hj) arg'' paramType'' harg' hparam' reason'

theorem coerceArgs_error {start : Nat} {paramTypes : List MetaType} {reason : String} :
    coerceArgs q start args paramTypes = .error reason ↔
      FirstRejection q start args paramTypes reason := by
  induction args generalizing start paramTypes with
  | nil =>
    apply iff_of_false
    · intro h
      cases h
    · rintro ⟨i, arg, paramType, harg, _⟩
      cases harg
  | cons arg args ih =>
    cases paramTypes with
    | nil =>
      apply iff_of_false
      · intro h
        cases h
      · rintro ⟨i, arg', paramType, _, hparam, _⟩
        cases hparam
    | cons paramType paramTypes =>
      rw [firstRejection_cons, ← ih]
      cases hdecode : qtArgDecode q arg paramType ("arg" ++ toString start) with
      | rejected reason' =>
        simp only [coerceArgs, hdecode, QtArgVerdict.rejected.injEq]
        constructor
        · intro h
          exact .inl (Except.error.inj h)
        · rintro (rfl | ⟨hnone, _⟩)
          · rfl
          · exact absurd rfl (hnone reason')
      | ok | unchecked =>
        simp only [coerceArgs, hdecode, reduceCtorEq, false_or, ne_eq, not_false_eq_true,
          implies_true, true_and]
        cases coerceArgs q (start + 1) args paramTypes with
        | error reason' => rfl
        | ok rest =>
          apply iff_of_false
          · intro h
            cases h
          · intro h
            cases h

theorem callByReturnType_ne {returnType : MetaType} {code origin message : String} :
    callByReturnType q object methodName args returnType ≠
      .ret (rejectionVariant code origin message) := by
  intro he
  by_cases hgets : args.length ≤ 5 ∧
    (returnType = .void ∨ (returnTypeName returnType).isSome = true)
  · rw [callByReturnType_invokes hgets.1 hgets.2, invokeMethod] at he
    cases hresolve : q.resolve object.methods methodName
        ((args.map (toScopedQArg q)).map QVariant.metaType) (returnTypeArg returnType) with
    | none =>
      rw [hresolve] at he
      simp only [Prog.ret_bind, Prog.ret.injEq, Option.isSome_none, Option.getD_none,
        Bool.false_eq_true, ↓reduceIte, ite_self] at he
      cases he
    | some index =>
      rw [hresolve] at he
      cases he
  · rw [callByReturnType_stops hgets] at he
    cases he

theorem looksUp_iff {m : MetaMethod} :
    LooksUp object methodName args m ↔
      ReachesLookup object methodName args ∧ FirstOverload object methodName args m := by
  have hfind : (∃ index, methodIndex object methodName args = some index ∧
      object.methods[index]? = some m) ↔ FirstOverload object methodName args m := by
    rw [← Option.bind_eq_some_iff, methodIndex, ← List.find?_eq_bind_findIdx?_getElem?,
      List.find?_eq_some_iff_append, FirstOverload]
    simp only [Bool.and_eq_true, decide_eq_true_eq, Bool.not_eq_true', Bool.and_eq_false_imp,
      decide_eq_false_iff_not, ne_eq]
    constructor
    · rintro ⟨⟨hname, hcount⟩, before, after, hmethods, hbefore⟩
      exact ⟨before, after, hmethods, hname, hcount, hbefore⟩
    · rintro ⟨before, after, hmethods, hname, hcount, hbefore⟩
      exact ⟨⟨hname, hcount⟩, before, after, hmethods, hbefore⟩
  constructor
  · rintro ⟨hplugin, hfree, hindex⟩
    have hfirst := hfind.1 hindex
    obtain ⟨before, after, hmethods, hname, _⟩ := id hfirst
    exact ⟨⟨hname ▸ m.name_ne, hfree, hplugin⟩, hfirst⟩
  · rintro ⟨⟨_, hfree, hplugin⟩, hfirst⟩
    exact ⟨hplugin, hfree, hfind.2 hfirst⟩

theorem ReachesLookup.notFound (h : ReachesLookup object methodName args)
    (hindex : methodIndex object methodName args = none) :
    callMethod q (some object) methodName args =
      .ret (methodNotFound object methodName args) := by
  obtain ⟨hname, hfree, pluginInterface, hplugin, hapi⟩ := h
  have h₁ := framework_guard hfree "getPluginMethods" (by simp [frameworkNames])
  have h₂ := framework_guard hfree "getPluginEvents" (by simp [frameworkNames])
  have h₃ := framework_guard hfree "getPluginInterface" (by simp [frameworkNames])
  simp only [callMethod, hname, h₁, h₂, h₃, hplugin, hapi, hindex, ↓reduceIte,
    Bool.false_eq_true, Bool.not_true]
  rfl

theorem ReachesLookup.looksUp (h : ReachesLookup object methodName args) {index : Nat}
    (hindex : methodIndex object methodName args = some index) :
    ∃ m, LooksUp object methodName args m ∧ m ∈ object.methods ∧ m.name = methodName ∧
      m.parameterCount = args.length := by
  obtain ⟨m, hm, hname, hcount⟩ := methodIndex_spec hindex
  exact ⟨m, ⟨h.2.2, h.2.1, index, hindex, hm⟩, List.mem_of_getElem? hm, hname, hcount⟩

theorem LooksUp.refuses_iff {m : MetaMethod} (h : LooksUp object methodName args m)
    {code message : String} :
    Refuses q object methodName args code message ↔
      code = "dispatch_failed" ∧ FirstRejection q 0 args m.parameterMetaTypes message := by
  rw [Refuses, h.callMethod, ← coerceArgs_error]
  cases QtProviderObject.coerceArgs q 0 args m.parameterMetaTypes with
  | error reason =>
    dsimp only
    rw [Prog.ret.injEq, Except.error.injEq, dispatchFailedVariant]
    constructor
    · intro he
      obtain ⟨hcode, hmessage⟩ := rejectionVariant_inj he
      exact ⟨hcode.symm, hmessage⟩
    · rintro ⟨rfl, rfl⟩
      rfl
  | ok decoded => exact iff_of_false callByReturnType_ne fun h => nomatch h.2

theorem methodNotFound_bare (h : BareMetadata methodName args) :
    methodNotFound object methodName args = .invalid := by
  rw [methodNotFound, if_pos (bareMetadata_iff.2 h)]

theorem ReachesLookup.refuses_notFound (h : ReachesLookup object methodName args)
    (hindex : methodIndex object methodName args = none) {code message : String} :
    Refuses q object methodName args code message ↔
      methodNotFound object methodName args =
        rejectionVariant code (providerName object) message := by
  rw [Refuses, h.notFound hindex, Prog.ret.injEq]

theorem ReachesLookup.refuses_iff (h : ReachesLookup object methodName args)
    {code message : String} (hcode : code ≠ "dispatch_failed") :
    Refuses q object methodName args code message ↔
      (∀ m ∈ object.methods, m.name = methodName → m.parameterCount ≠ args.length) ∧
        ¬ BareMetadata methodName args ∧
        methodNotFound object methodName args =
          rejectionVariant code (providerName object) message := by
  cases hindex : methodIndex object methodName args with
  | none =>
    rw [h.refuses_notFound hindex, and_iff_right (methodIndex_eq_none.1 hindex)]
    refine (and_iff_right_of_imp ?_).symm
    intro he hbare
    rw [methodNotFound_bare hbare] at he
    cases he
  | some index =>
    obtain ⟨m, hlooks, hm, hname, hcount⟩ := h.looksUp hindex
    rw [hlooks.refuses_iff]
    exact iff_of_false (fun hr => hcode hr.1) fun hr => hr.1 m hm hname hcount

theorem ReachesLookup.unknown_iff (h : ReachesLookup object methodName args)
    {message : String} :
    Refuses q object methodName args "unknown_method" message ↔
      (∀ m ∈ object.methods, m.name ≠ methodName) ∧ ¬ BareMetadata methodName args ∧
        message = "unknown method '" ++ methodName ++ "'" := by
  rw [h.refuses_iff (by decide)]
  constructor
  · rintro ⟨_, hbare, he⟩
    rcases methodNotFound_cases object hbare with
      ⟨hunnamed, hnot⟩ | ⟨arity, _, hnot⟩ | ⟨_, _, hnot⟩
    · exact ⟨hunnamed, hbare, (rejectionVariant_inj (he.symm.trans hnot)).2⟩
    · exact absurd (rejectionVariant_inj (he.symm.trans hnot)).1 (by decide)
    · exact absurd (rejectionVariant_inj (he.symm.trans hnot)).1 (by decide)
  · rintro ⟨hunnamed, hbare, rfl⟩
    refine ⟨fun m hm hname => absurd hname (hunnamed m hm), hbare, ?_⟩
    rcases methodNotFound_cases object hbare with
      ⟨_, hnot⟩ | ⟨_, ⟨⟨m, hm, hname⟩, _⟩, _⟩ | ⟨⟨m, hm, hname⟩, _, _⟩
    · exact hnot
    · exact absurd hname (hunnamed m hm)
    · exact absurd hname (hunnamed m hm)

theorem ReachesLookup.invalid_iff (h : ReachesLookup object methodName args) :
    (∃ message, Refuses q object methodName args "invalid_args" message) ↔
      (∃ m ∈ object.methods, m.name = methodName) ∧
        (∀ m ∈ object.methods, m.name = methodName → m.parameterCount ≠ args.length) ∧
        ¬ BareMetadata methodName args := by
  have hcode : "invalid_args" ≠ "dispatch_failed" := by decide
  simp only [h.refuses_iff hcode]
  constructor
  · rintro ⟨message, harity, hbare, he⟩
    rcases methodNotFound_cases object hbare with
      ⟨_, hnot⟩ | ⟨arity, hnamed, _⟩ | ⟨hnamed, _, _⟩
    · exact absurd (rejectionVariant_inj (he.symm.trans hnot)).1 (by decide)
    · exact ⟨hnamed.1, harity, hbare⟩
    · exact ⟨hnamed, harity, hbare⟩
  · rintro ⟨⟨m, hm, hname⟩, harity, hbare⟩
    rcases methodNotFound_cases object hbare with
      ⟨hunnamed, _⟩ | ⟨arity, _, hnot⟩ | ⟨_, _, hnot⟩
    · exact absurd hname (hunnamed m hm)
    · exact ⟨_, harity, hbare, hnot⟩
    · exact ⟨_, harity, hbare, hnot⟩

/-- The two texts for a wrong number of arguments differ in their first letter. -/
theorem expectedMessage_ne {arity got : Nat} {rest : String} :
    expectedMessage arity got ≠ "no overload of '" ++ rest := by
  intro h
  have hfirst := congrArg (fun s => s.toList.head?) h
  simp [expectedMessage] at hfirst

theorem ReachesLookup.expected_iff (h : ReachesLookup object methodName args) {arity : Nat} :
    Refuses q object methodName args "invalid_args" (expectedMessage arity args.length) ↔
      (∃ m ∈ object.methods, m.name = methodName) ∧
        (∀ m ∈ object.methods, m.name = methodName → m.parameterCount = arity) ∧
        arity ≠ args.length ∧ ¬ BareMetadata methodName args := by
  rw [h.refuses_iff (by decide)]
  constructor
  · rintro ⟨harity, hbare, he⟩
    rcases methodNotFound_cases object hbare with
      ⟨_, hnot⟩ | ⟨arity', ⟨⟨m, hm, hname⟩, hall⟩, hnot⟩ | ⟨_, _, hnot⟩
    · exact absurd (rejectionVariant_inj (he.symm.trans hnot)).1 (by decide)
    · obtain rfl := expectedMessage_inj (rejectionVariant_inj (he.symm.trans hnot)).2
      exact ⟨⟨m, hm, hname⟩, hall, hall m hm hname ▸ harity m hm hname, hbare⟩
    · have hmessage := (rejectionVariant_inj (he.symm.trans hnot)).2
      rw [String.append_assoc, String.append_assoc, String.append_assoc] at hmessage
      exact absurd hmessage expectedMessage_ne
  · rintro ⟨⟨m, hm, hname⟩, hall, hne, hbare⟩
    refine ⟨fun m hm hname => hall m hm hname ▸ hne, hbare, ?_⟩
    rcases methodNotFound_cases object hbare with
      ⟨hunnamed, _⟩ | ⟨arity', ⟨_, hall'⟩, hnot⟩ | ⟨_, hdiffer, _⟩
    · exact absurd hname (hunnamed m hm)
    · rw [← (hall' m hm hname).symm.trans (hall m hm hname)]
      exact hnot
    · obtain ⟨m', hm', hname', hcount⟩ := hdiffer arity
      exact absurd (hall m' hm' hname') hcount

theorem ReachesLookup.failed_iff (h : ReachesLookup object methodName args)
    {reason : String} :
    Refuses q object methodName args "dispatch_failed" reason ↔
      ∃ m, FirstOverload object methodName args m ∧
        FirstRejection q 0 args m.parameterMetaTypes reason := by
  have hlookup {m : MetaMethod} (hm : FirstOverload object methodName args m) :
      LooksUp object methodName args m := looksUp_iff.2 ⟨h, hm⟩
  cases hindex : methodIndex object methodName args with
  | none =>
    refine iff_of_false ?_ ?_
    · rw [h.refuses_notFound hindex]
      intro he
      by_cases hbare : BareMetadata methodName args
      · rw [methodNotFound_bare hbare] at he
        cases he
      · rcases methodNotFound_cases object hbare with
          ⟨_, hnot⟩ | ⟨_, _, hnot⟩ | ⟨_, _, hnot⟩ <;>
          exact absurd (rejectionVariant_inj (he.symm.trans hnot)).1 (by decide)
    · rintro ⟨m, hm, _⟩
      obtain ⟨_, _, index, hsome, _⟩ := hlookup hm
      rw [hindex] at hsome
      cases hsome
  | some index =>
    obtain ⟨m, hlooks, _⟩ := h.looksUp hindex
    constructor
    · intro hr
      exact ⟨m, (looksUp_iff.1 hlooks).2, (hlooks.refuses_iff.1 hr).2⟩
    · rintro ⟨m', hm', hreason⟩
      exact (hlookup hm').refuses_iff.2 ⟨rfl, hreason⟩

/-- The adapter's refusals are exact, and where it refuses a call, or leaves it to the host,
nothing of the module is run. -/
theorem refusals_exact (h : ReachesLookup object methodName args) :
    (∀ message, Refuses q object methodName args "unknown_method" message ↔
      (∀ m ∈ object.methods, m.name ≠ methodName) ∧ ¬ BareMetadata methodName args ∧
        message = "unknown method '" ++ methodName ++ "'") ∧
    ((∃ message, Refuses q object methodName args "invalid_args" message) ↔
      (∃ m ∈ object.methods, m.name = methodName) ∧
        (∀ m ∈ object.methods, m.name = methodName → m.parameterCount ≠ args.length) ∧
        ¬ BareMetadata methodName args) ∧
    (∀ arity,
      Refuses q object methodName args "invalid_args" (expectedMessage arity args.length) ↔
        (∃ m ∈ object.methods, m.name = methodName) ∧
          (∀ m ∈ object.methods, m.name = methodName → m.parameterCount = arity) ∧
          arity ≠ args.length ∧ ¬ BareMetadata methodName args) ∧
    (∀ reason, Refuses q object methodName args "dispatch_failed" reason ↔
      ∃ m, FirstOverload object methodName args m ∧
        FirstRejection q 0 args m.parameterMetaTypes reason) ∧
    (BareMetadata methodName args →
      (∀ m ∈ object.methods, m.name = methodName → m.parameterCount ≠ 0) →
      callMethod q (some object) methodName args = .ret .invalid) ∧
    ((∃ code message, Refuses q object methodName args code message) ∨
        callMethod q (some object) methodName args = .ret .invalid →
      ∀ action, ¬ (callMethod q (some object) methodName args).Performs action) := by
  refine ⟨fun message => h.unknown_iff, h.invalid_iff, fun arity => h.expected_iff,
    fun reason => h.failed_iff, ?_, ?_⟩
  · intro hbare hnone
    have hindex : methodIndex object methodName args = none := by
      rw [methodIndex_eq_none, hbare.1]
      exact hnone
    rw [h.notFound hindex, methodNotFound_bare hbare]
  · rintro (⟨code, message, hr⟩ | hr) action
    · rw [hr]
      exact Prog.not_performs_ret
    · rw [hr]
      exact Prog.not_performs_ret

theorem firstRejection_iff {paramTypes : List MetaType} :
    (∃ reason, FirstRejection q 0 args paramTypes reason) ↔ Rejects q args paramTypes := by
  constructor
  · rintro ⟨reason, i, arg, paramType, harg, hparam, hrejected, _⟩
    rw [Nat.zero_add] at hrejected
    exact ⟨i, arg, paramType, reason, harg, hparam, hrejected⟩
  · rintro ⟨i, arg, paramType, reason, harg, hparam, hrejected⟩
    -- an earlier position that is rejected takes the place of this one
    induction i using Nat.strongRecOn generalizing arg paramType reason with
    | ind i ih =>
      by_cases hearlier : ∃ j < i, ∃ arg' paramType' reason', args[j]? = some arg' ∧
        paramTypes[j]? = some paramType' ∧
        qtArgDecode q arg' paramType' ("arg" ++ toString j) = .rejected reason'
      · obtain ⟨j, hj, arg', paramType', reason', harg', hparam', hrejected'⟩ := hearlier
        exact ih j hj arg' paramType' reason' harg' hparam' hrejected'
      · refine ⟨reason, i, arg, paramType, harg, hparam, ?_, ?_⟩
        · rwa [Nat.zero_add]
        · intro j hj arg' paramType' harg' hparam' reason' hrejected'
          rw [Nat.zero_add] at hrejected'
          exact hearlier ⟨j, hj, arg', paramType', reason', harg', hparam', hrejected'⟩

theorem not_refuses (h : ¬ ReachesLookup object methodName args) {code message : String} :
    ¬ Refuses q object methodName args code message := by
  intro hr
  unfold Refuses callMethod at hr
  dsimp only at hr
  split_ifs at hr with hempty hmethods hevents hinterface
  · cases hr
  · cases hr
  · cases hr
  · cases hr
  · have hfree : args = [] → methodName ∉ frameworkNames := by
      rintro rfl
      simp_all [frameworkNames]
    cases hplugin : object.pluginInterface with
    | none =>
      rw [hplugin] at hr
      cases hr
    | some pluginInterface =>
      cases hapi : pluginInterface.hasLogosAPI with
      | true => exact h ⟨hempty, hfree, pluginInterface, hplugin, hapi⟩
      | false =>
        simp only [hplugin, hapi, Bool.not_false, ↓reduceIte, Prog.pure_eq] at hr
        cases hr

/-- A call that no guard stops is refused for its arguments exactly when the overload
declared first rejects one of them. -/
theorem failed_iff_rejects :
    (∃ reason, Refuses q object methodName args "dispatch_failed" reason) ↔
      ReachesLookup object methodName args ∧
        ∃ m, FirstOverload object methodName args m ∧ Rejects q args m.parameterMetaTypes := by
  constructor
  · rintro ⟨reason, hr⟩
    by_cases hreaches : ReachesLookup object methodName args
    · obtain ⟨m, hm, hreason⟩ := hreaches.failed_iff.1 hr
      exact ⟨hreaches, m, hm, firstRejection_iff.1 ⟨reason, hreason⟩⟩
    · exact absurd hr (not_refuses hreaches)
  · rintro ⟨hreaches, m, hm, hrejects⟩
    obtain ⟨reason, hreason⟩ := firstRejection_iff.2 hrejects
    exact ⟨reason, hreaches.failed_iff.2 ⟨m, hm, hreason⟩⟩

/-- A call some overload accepts is never refused for its arguments, exactly where the
overload declared first rejects none of them. -/
theorem acceptable_overload_iff :
    (AcceptableOverload q object methodName args →
        ¬ ∃ reason, Refuses q object methodName args "dispatch_failed" reason) ↔
      (AcceptableOverload q object methodName args → ReachesLookup object methodName args →
        ∀ m, FirstOverload object methodName args m →
          ¬ Rejects q args m.parameterMetaTypes) := by
  rw [failed_iff_rejects]
  simp only [not_and, not_exists]

end

/-- `echo(true)` is decoded for the overload that takes a number, and refused for it. -/
theorem refusals_exact_echo :
    Refuses .plain echoModule "echo" [.bool true] "dispatch_failed" "expected integer at arg0" :=
  have hreaches : ReachesLookup echoModule "echo" [.bool true] :=
    ⟨by decide, fun h => (List.cons_ne_nil _ _ h).elim, _, rfl, rfl⟩
  ((refusals_exact hreaches).2.2.2.1 _).2
    ⟨_, ⟨[], _, rfl, rfl, rfl, by simp⟩, 0, _, _, rfl, rfl, rfl, by simp⟩

/-- The module has an overload that accepts the call. -/
theorem acceptable_overload_refused :
    AcceptableOverload .plain echoModule "echo" [.bool true] ∧
      Refuses .plain echoModule "echo" [.bool true] "dispatch_failed"
        "expected integer at arg0" :=
  ⟨⟨echoMethod .bool .bool "bool" "bool", by simp [echoModule], rfl, rfl, [.bool true], rfl,
    trivial⟩, rfl⟩

end LogosPluginQt
