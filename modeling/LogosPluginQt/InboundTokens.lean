import LogosPluginQt.Glue
import LogosPluginQt.TokenManager
import Mathlib.Data.List.TakeWhile

namespace LogosPluginQt
set_option autoImplicit true

/-- A text as it crosses the C ABI: it ends at its first NUL. -/
structure CString where
  text : String
  noNul : '\x00' ∉ text.toList
deriving DecidableEq

theorem noNul_takeWhile (chars : List Char) : '\x00' ∉ chars.takeWhile (· != '\x00') := by
  intro h
  have hne := List.mem_takeWhile_imp h
  exact absurd hne (by decide)

/-- `toUtf8().constData()`. -/
def constData (s : String) : CString where
  text := String.ofList (s.toList.takeWhile (· != '\x00'))
  noNul := by
    rw [String.toList_ofList]
    exact noNul_takeWhile s.toList

/-- A text without a NUL crosses the C ABI as it is. -/
theorem constData_text_iff {s : String} : (constData s).text = s ↔ '\x00' ∉ s.toList := by
  constructor
  · intro h
    rw [← h]
    exact (constData s).noNul
  · intro h
    have hall : s.toList.takeWhile (· != '\x00') = s.toList := by
      rw [List.takeWhile_eq_self_iff]
      intro c hc
      rw [bne_iff_ne]
      rintro rfl
      exact h hc
    exact (congrArg String.ofList hall).trans String.ofList_toList

/-- What a `TokenManager` has on file for its callers; its code is not here. Saving what is on
file already changes nothing. -/
structure InboundStore (σ : Type) where
  inbound : σ → String → Option Token
  saveInboundToken : σ → String → Token → σ
  saved : ∀ s caller token, inbound (saveInboundToken s caller token) caller = some token
  saved_again : ∀ {s caller token}, inbound s caller = some token →
    saveInboundToken s caller token = s

/-- The store of a module image, behind its C ABI. The inbound door answers, and files the token
or does not; zero is for success, and a door that refuses may have filed it all the same. -/
structure ModuleImage (τ : Type) where
  inbound : τ → CString → Option CString
  fileInbound : τ → CString → CString → τ
  inboundDoor : τ → CString → CString → Int × Bool
  logosModuleAcceptToken : τ → CString → CString → Int × τ
  filed : ∀ s caller token, inbound (fileInbound s caller token) caller = some token
  filed_again : ∀ {s caller token}, inbound s caller = some token →
    fileInbound s caller token = s
  accepted : ∀ {s caller token}, (inboundDoor s caller token).1 = 0 →
    (inboundDoor s caller token).2 = true

def ModuleImage.logosModuleAcceptInboundToken {τ : Type} (image : ModuleImage τ) (t : τ)
    (caller token : CString) : Int × τ :=
  let door := image.inboundDoor t caller token
  (door.1, if door.2 = true then image.fileInbound t caller token else t)

structure HostHandle where
  hasLogosAPI : Bool
  hasTokenManager : Bool

def HostHandle.Stores (api : HostHandle) : Prop :=
  api.hasLogosAPI = true ∧ api.hasTokenManager = true

structure TwoImages (σ τ : Type) where
  host : σ
  image : τ

section
variable {σ τ : Type} (host : InboundStore σ) (image : ModuleImage τ)

def LogosProviderBase.informModuleToken (api : HostHandle) (s : σ) (moduleName : String)
    (token : Token) : Bool × σ :=
  if !api.hasLogosAPI then (false, s)
  else if !api.hasTokenManager then (false, s)
  else (true, host.saveInboundToken s moduleName token)

def inboundTokenGuard (version : Nat × Nat) : Bool :=
  version.1 > 0 || (version.1 == 0 && version.2 ≥ 8)

/-- What the module answers `informModuleToken` with, through the door of its protocol. -/
def acceptDoor (version : Nat × Nat) (t : τ) (moduleName : String) (token : Token) : Int × τ :=
  if inboundTokenGuard version then
    image.logosModuleAcceptInboundToken t (constData moduleName) (constData token)
  else image.logosModuleAcceptToken t (constData moduleName) (constData token)

/-- `informModuleToken` as emitted: the store of the host first, then that of the module. -/
def Glue.informModuleToken (version : Nat × Nat) (api : HostHandle) (w : TwoImages σ τ)
    (moduleName : String) (token : Token) : Bool × TwoImages σ τ :=
  let hostOk := LogosProviderBase.informModuleToken host api w.host moduleName token
  let implOk := acceptDoor image version w.image moduleName token
  (hostOk.1 && implOk.1 == 0, ⟨hostOk.2, implOk.2⟩)

/-- The host's store has the token on file, as the call has left it there. -/
def HostHolds (api : HostHandle) (w w' : TwoImages σ τ) (moduleName : String)
    (token : Token) : Prop :=
  (LogosProviderBase.informModuleToken host api w.host moduleName token).1 = true ∧
    host.inbound w'.host moduleName = some token

/-- The module's store has the token on file, as the call has left it there. -/
def ImageHolds (version : Nat × Nat) (w w' : TwoImages σ τ) (moduleName : String)
    (token : Token) : Prop :=
  (acceptDoor image version w.image moduleName token).1 = 0 ∧
    ∃ caller filed, caller.text = moduleName ∧ filed.text = token ∧
      image.inbound w'.image caller = some filed

structure AllOrNothing (version : Nat × Nat) (api : HostHandle) (w : TwoImages σ τ)
    (moduleName : String) (token : Token) (result : Bool) (w' : TwoImages σ τ) : Prop where
  delivered : result = true ↔ HostHolds host api w w' moduleName token ∧
    ImageHolds image version w w' moduleName token
  unchanged : result = false → w' = w

variable {host image} {version : Nat × Nat} {api : HostHandle} {w : TwoImages σ τ}
  {moduleName : String} {token : Token}

theorem hostOk_iff {s : σ} :
    (LogosProviderBase.informModuleToken host api s moduleName token).1 = true ↔
      api.Stores := by
  unfold LogosProviderBase.informModuleToken HostHandle.Stores
  cases api.hasLogosAPI <;> cases api.hasTokenManager <;> simp

theorem hostStore_of_stores {s : σ} (h : api.Stores) :
    (LogosProviderBase.informModuleToken host api s moduleName token).2 =
      host.saveInboundToken s moduleName token := by
  obtain ⟨hapi, htokens⟩ := h
  simp only [LogosProviderBase.informModuleToken, hapi, htokens, Bool.not_true,
    Bool.false_eq_true, ↓reduceIte]

theorem hostStore_of_not_stores {s : σ} (h : ¬ api.Stores) :
    (LogosProviderBase.informModuleToken host api s moduleName token).2 = s := by
  unfold HostHandle.Stores at h
  unfold LogosProviderBase.informModuleToken
  cases hapi : api.hasLogosAPI with
  | false => rfl
  | true =>
    have htokens := eq_false_of_ne_true fun ht => h ⟨hapi, ht⟩
    simp only [htokens, Bool.not_true, Bool.not_false, Bool.false_eq_true, ↓reduceIte]

theorem informModuleToken_iff :
    (Glue.informModuleToken host image version api w moduleName token).1 = true ↔
      api.Stores ∧
        (acceptDoor image version w.image moduleName token).1 = 0 := by
  rw [Glue.informModuleToken, Bool.and_eq_true, hostOk_iff, beq_iff_eq]

theorem imageHolds_iff (host : InboundStore σ) (api : HostHandle)
    (hguard : inboundTokenGuard version = true)
    (ha : (acceptDoor image version w.image moduleName token).1 = 0) :
    ImageHolds image version w
        (Glue.informModuleToken host image version api w moduleName token).2 moduleName token ↔
      '\x00' ∉ moduleName.toList ∧ '\x00' ∉ token.toList := by
  constructor
  · rintro ⟨_, caller, filed, rfl, rfl, _⟩
    exact ⟨caller.noNul, filed.noNul⟩
  · rintro ⟨hname, htoken⟩
    refine ⟨ha, constData moduleName, constData token, constData_text_iff.2 hname,
      constData_text_iff.2 htoken, ?_⟩
    simp only [Glue.informModuleToken, acceptDoor, hguard, ↓reduceIte] at ha ⊢
    simp only [ModuleImage.logosModuleAcceptInboundToken] at ha ⊢
    rw [if_pos (image.accepted ha)]
    exact image.filed ..

theorem hostHolds_of_stores (h : api.Stores) :
    HostHolds host api w
      (Glue.informModuleToken host image version api w moduleName token).2 moduleName token := by
  refine ⟨hostOk_iff.2 h, ?_⟩
  simp only [Glue.informModuleToken, hostStore_of_stores h, host.saved]

/-- Saving a token leaves the store as it was where it was on file, and nowhere else. -/
theorem InboundStore.untouched_iff (host : InboundStore σ) {s : σ} :
    host.saveInboundToken s moduleName token = s ↔ host.inbound s moduleName = some token := by
  refine ⟨fun h => ?_, host.saved_again⟩
  have hsaved := host.saved s moduleName token
  rwa [h] at hsaved

theorem ModuleImage.untouched_iff (image : ModuleImage τ) {t : τ} {caller token : CString} :
    (image.logosModuleAcceptInboundToken t caller token).2 = t ↔
      ((image.inboundDoor t caller token).2 = true → image.inbound t caller = some token) := by
  unfold ModuleImage.logosModuleAcceptInboundToken
  by_cases hfiles : (image.inboundDoor t caller token).2 = true
  · rw [imp_iff_right hfiles]
    simp only [if_pos hfiles]
    refine ⟨fun h => ?_, image.filed_again⟩
    have hfiled := image.filed t caller token
    rwa [h] at hfiled
  · simp only [if_neg hfiles]
    exact iff_of_true trivial fun h => absurd h hfiles

theorem hostStore_untouched_iff {s : σ} :
    (LogosProviderBase.informModuleToken host api s moduleName token).2 = s ↔
      (api.Stores → host.inbound s moduleName = some token) := by
  by_cases hs : api.Stores
  · rw [hostStore_of_stores hs, imp_iff_right hs, host.untouched_iff]
  · rw [hostStore_of_not_stores hs]
    exact iff_of_true rfl fun h => absurd h hs

theorem informModuleToken_of_holds {w' : TwoImages σ τ}
    (hhost : HostHolds host api w w' moduleName token)
    (himage : ImageHolds image version w w' moduleName token) :
    (Glue.informModuleToken host image version api w moduleName token).1 = true :=
  informModuleToken_iff.2 ⟨hostOk_iff.1 hhost.1, himage.1⟩

/-- The delivery is all or nothing exactly where both stores take the token, under a name and
with a text that reach the module whole, or where a side that files it without the other had it
on file before. -/
theorem all_or_nothing_iff (host : InboundStore σ) (image : ModuleImage τ) (api : HostHandle)
    (w : TwoImages σ τ) (moduleName : String) (token : Token)
    (hguard : inboundTokenGuard version = true) :
    AllOrNothing host image version api w moduleName token
        (Glue.informModuleToken host image version api w moduleName token).1
        (Glue.informModuleToken host image version api w moduleName token).2 ↔
      (api.Stores ∧
        (image.inboundDoor w.image (constData moduleName) (constData token)).1 = 0 ∧
        '\x00' ∉ moduleName.toList ∧ '\x00' ∉ token.toList) ∨
      (¬ (api.Stores ∧
          (image.inboundDoor w.image (constData moduleName) (constData token)).1 = 0) ∧
        (api.Stores → host.inbound w.host moduleName = some token) ∧
        ((image.inboundDoor w.image (constData moduleName) (constData token)).2 = true →
          image.inbound w.image (constData moduleName) = some (constData token))) := by
  have hdoor : acceptDoor image version w.image moduleName token =
      image.logosModuleAcceptInboundToken w.image (constData moduleName) (constData token) := by
    rw [acceptDoor, if_pos hguard]
  have hanswer : (image.inboundDoor w.image (constData moduleName) (constData token)).1 =
      (acceptDoor image version w.image moduleName token).1 := by
    rw [hdoor]
    rfl
  rw [hanswer, ← image.untouched_iff, ← hdoor]
  by_cases hok : api.Stores ∧ (acceptDoor image version w.image moduleName token).1 = 0
  · have hresult :
        (Glue.informModuleToken host image version api w moduleName token).1 = true :=
      informModuleToken_iff.2 hok
    have hholds := imageHolds_iff host api hguard hok.2
    constructor
    · intro h
      exact .inl ⟨hok.1, hok.2, hholds.1 (h.delivered.1 hresult).2⟩
    · rintro (⟨_, _, hwhole⟩ | ⟨hnot, _⟩)
      · refine ⟨iff_of_true hresult ⟨hostHolds_of_stores hok.1, hholds.2 hwhole⟩, ?_⟩
        rw [hresult]
        exact nofun
      · exact absurd hok hnot
  · have hresult :
        ¬ (Glue.informModuleToken host image version api w moduleName token).1 = true :=
      mt informModuleToken_iff.1 hok
    constructor
    · intro h
      have hsame := h.unchanged (eq_false_of_ne_true hresult)
      exact .inr ⟨hok, hostStore_untouched_iff.1 (congrArg TwoImages.host hsame),
        congrArg TwoImages.image hsame⟩
    · rintro (⟨hs, ha, _⟩ | ⟨_, hhost, himage⟩)
      · exact absurd ⟨hs, ha⟩ hok
      · refine ⟨iff_of_false hresult fun h => hresult (informModuleToken_of_holds h.1 h.2),
          fun _ => ?_⟩
        rw [Glue.informModuleToken, hostStore_untouched_iff.2 hhost, himage]

end

def InboundStore.table : InboundStore (String → Option Token) where
  inbound s caller := s caller
  saveInboundToken := fun s caller token => Function.update s caller (some token)
  saved := fun _ _ _ => Function.update_self ..
  saved_again := fun {s caller token} (h : s caller = some token) => by
    rw [← h, Function.update_eq_self]

def ModuleImage.table (answer : Int) : ModuleImage (CString → Option CString) where
  inbound s caller := s caller
  fileInbound := fun s caller token => Function.update s caller (some token)
  inboundDoor _ _ _ := (answer, answer == 0)
  logosModuleAcceptToken s _ _ := (answer, s)
  filed := fun _ _ _ => Function.update_self ..
  filed_again := fun {s caller token} (h : s caller = some token) => by
    rw [← h, Function.update_eq_self]
  accepted := fun h => beq_iff_eq.2 h

def noTokens : TwoImages (String → Option Token) (CString → Option CString) :=
  ⟨fun _ => none, fun _ => none⟩

theorem all_or_nothing_iff_delivered :
    AllOrNothing .table (.table 0) (0, 8) ⟨true, true⟩ noTokens "app" "t"
      (Glue.informModuleToken .table (.table 0) (0, 8) ⟨true, true⟩ noTokens "app" "t").1
      (Glue.informModuleToken .table (.table 0) (0, 8) ⟨true, true⟩ noTokens "app" "t").2 :=
  (all_or_nothing_iff .table (.table 0) ⟨true, true⟩ noTokens "app" "t" rfl).2
    (.inl ⟨⟨rfl, rfl⟩, rfl, by decide, by decide⟩)

/-- The delivery is reported as failed with the token on file in the host's store, where the
module refuses it, and in the module's, where there is no host. -/
theorem delivery_half_done :
    (∃ w', Glue.informModuleToken .table (.table 1) (0, 8) ⟨true, true⟩ noTokens "app" "t" =
        (false, w') ∧ InboundStore.table.inbound w'.host "app" = some "t" ∧
      ¬ AllOrNothing .table (.table 1) (0, 8) ⟨true, true⟩ noTokens "app" "t" false w') ∧
    ∃ w', Glue.informModuleToken .table (.table 0) (0, 8) ⟨false, false⟩ noTokens "app" "t" =
        (false, w') ∧
      (ModuleImage.table 0).inbound w'.image (constData "app") = some (constData "t") ∧
      ¬ AllOrNothing .table (.table 0) (0, 8) ⟨false, false⟩ noTokens "app" "t" false w' := by
  refine ⟨⟨_, rfl, rfl, ?_⟩, _, rfl, rfl, ?_⟩
  · intro h
    have hsame := congrFun (congrArg TwoImages.host (h.unchanged rfl)) "app"
    exact absurd hsame nofun
  · intro h
    have hsame := congrFun (congrArg TwoImages.image (h.unchanged rfl)) (constData "app")
    exact absurd hsame nofun

end LogosPluginQt
