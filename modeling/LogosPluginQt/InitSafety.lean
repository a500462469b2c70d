import LogosPluginQt.GlueInit

namespace LogosPluginQt
open Interleaving InitPhase
set_option autoImplicit true

section
variable {σ τ : Type} {h : InitHost σ τ} {w₀ w w' : InitWorld σ τ} {φ : Nat → List InitPhase}
  {κ κ' : InitPhase} {κs : List InitPhase} {t : Nat} {k : CString}

/-- A caller's token was delivered under this name, in the text the C ABI cut it to. -/
def InitWorld.Delivered (w : InitWorld σ τ) (caller token : CString) : Prop :=
  ∃ push ∈ w.informed, constData push.1 = caller ∧ constData push.2 = token

/-- Where an entry of what the module presents may come from. Below protocol 0.8 a caller's
token takes the same door. -/
inductive OutboundOrigin (h : InitHost σ τ) (w₀ w : InitWorld σ τ) (k : CString) : Prop where
  | initial : w.outbound h k = w₀.outbound h k → OutboundOrigin h w₀ w k
  | anchor : k ∈ bootstrapNames → h.authToken ≠ "" →
      w.outbound h k = some (constData h.authToken) → OutboundOrigin h w₀ w k
  | client {token : CString} : (k, token) ∈ w.saved → w.outbound h k = some token →
      OutboundOrigin h w₀ w k
  | caller {token : CString} : inboundTokenGuard h.version = false → w.Delivered k token →
      w.outbound h k = some token → OutboundOrigin h w₀ w k

inductive InboundOrigin (h : InitHost σ τ) (w₀ w : InitWorld σ τ) (k : CString) : Prop where
  | initial : w.inbound h k = w₀.inbound h k → InboundOrigin h w₀ w k
  | caller {token : CString} : inboundTokenGuard h.version = true → w.Delivered k token →
      w.inbound h k = some token → InboundOrigin h w₀ w k

/-- The module presents its host's token under a role label, unless the door refused it or, below
protocol 0.8, a caller of that name has taken its place. -/
inductive Seeded (h : InitHost σ τ) (w : InitWorld σ τ) (k : CString) : Prop where
  | held : w.outbound h k = some (constData h.authToken) → Seeded h w k
  | refused : k ∈ w.refused → Seeded h w k
  | overwritten {token : CString} : inboundTokenGuard h.version = false → w.Delivered k token →
      w.outbound h k = some token → Seeded h w k

structure Prepared (h : InitHost σ τ) (w : InitWorld σ τ) : Prop where
  seeded : h.authToken ≠ "" → ∀ k ∈ bootstrapNames, Seeded h w k
  asked : h.asksServices = true → constData h.hostServices ∈ w.asked

structure InitBooks (h : InitHost σ τ) (w₀ w : InitWorld σ τ) : Prop where
  outbound : ∀ k, OutboundOrigin h w₀ w k
  inbound : ∀ k, InboundOrigin h w₀ w k
  host : ∀ caller, w.hostInbound h caller = w₀.hostInbound h caller ∨
    ∃ token, (caller, token) ∈ w.informed ∧ w.hostInbound h caller = some token
  saved : ∀ entry ∈ w.saved, entry.1 ∉ bootstrapNames
  context : w.context.isSome = true → Prepared h w

def InitPhase.Holds (h : InitHost σ τ) (w : InitWorld σ τ) : InitPhase → Prop
  | .start => h.authToken ≠ ""
  | .core => h.authToken ≠ "" ∧ Seeded h w (constData "core")
  | .seeded => h.authToken ≠ "" → ∀ k ∈ bootstrapNames, Seeded h w k
  | .served => Prepared h w
  | .forwarding moduleName token => (moduleName, token) ∈ w.informed
  | .saving target => target ∉ bootstrapNames
  | _ => True

structure InitInvariant (h : InitHost σ τ) (w₀ w : InitWorld σ τ) (φ : Nat → List InitPhase) :
    Prop where
  books : InitBooks h w₀ w
  holds : ∀ t, ∀ κ ∈ φ t, κ.Holds h w

structure Advance (h : InitHost σ τ) (w w' : InitWorld σ τ) : Prop where
  seeded : ∀ k ∈ bootstrapNames, Seeded h w k → Seeded h w' k
  asked : w.asked ⊆ w'.asked
  informed : w.informed ⊆ w'.informed

theorem Prepared.advance (hp : Prepared h w) (ha : Advance h w w') : Prepared h w' where
  seeded htoken k hk := ha.seeded k hk (hp.seeded htoken k hk)
  asked hask := ha.asked (hp.asked hask)

theorem InitPhase.Holds.advance (hκ : κ.Holds h w) (ha : Advance h w w') : κ.Holds h w' := by
  cases κ with
  | start | saving => exact hκ
  | core => exact ⟨hκ.1, ha.seeded _ (List.mem_cons_self ..) hκ.2⟩
  | seeded => exact fun htoken k hk => ha.seeded k hk (hκ htoken k hk)
  | served => exact Prepared.advance hκ ha
  | forwarding => exact ha.informed hκ
  | informing | listening | done => trivial

theorem InitWorld.Delivered.mono {caller token : CString} (hd : w.Delivered caller token)
    (hi : w.informed ⊆ w'.informed) : w'.Delivered caller token := by
  obtain ⟨push, hmem, he⟩ := hd
  exact ⟨push, hi hmem, he⟩

theorem OutboundOrigin.mono (ho : OutboundOrigin h w₀ w k)
    (he : w'.outbound h k = w.outbound h k) (hi : w.informed ⊆ w'.informed)
    (hs : w.saved ⊆ w'.saved) : OutboundOrigin h w₀ w' k := by
  cases ho with
  | initial hw => exact .initial (he.trans hw)
  | anchor hk htoken hw => exact .anchor hk htoken (he.trans hw)
  | client hmem hw => exact .client (hs hmem) (he.trans hw)
  | caller hg hd hw => exact .caller hg (hd.mono hi) (he.trans hw)

theorem InboundOrigin.mono (ho : InboundOrigin h w₀ w k)
    (he : w'.inbound h k = w.inbound h k) (hi : w.informed ⊆ w'.informed) :
    InboundOrigin h w₀ w' k := by
  cases ho with
  | initial hw => exact .initial (he.trans hw)
  | caller hg hd hw => exact .caller hg (hd.mono hi) (he.trans hw)

theorem Seeded.mono (hk : Seeded h w k) (he : w'.outbound h k = w.outbound h k)
    (hi : w.informed ⊆ w'.informed) (hr : w.refused ⊆ w'.refused) : Seeded h w' k := by
  cases hk with
  | held hw => exact .held (he.trans hw)
  | refused hmem => exact .refused (hr hmem)
  | overwritten hg hd hw => exact .overwritten hg (hd.mono hi) (he.trans hw)

/-! What the doors do to the stores. -/

theorem acceptToken_target (w : InitWorld σ τ) (target token : CString) :
    (w.acceptToken h target token).outbound h target = some token ∨
      ((w.acceptToken h target token).outbound h target = w.outbound h target ∧
        target ∈ (w.acceptToken h target token).refused) := by
  obtain htaken | ⟨hanswer, hsame⟩ := h.image.accept_target w.stores.image target token
  · exact .inl htaken
  · refine .inr ⟨hsame, ?_⟩
    simp only [InitWorld.acceptToken, if_neg hanswer, List.mem_cons_self]

theorem acceptToken_of_ne {target token : CString} (hk : k ≠ target) :
    (w.acceptToken h target token).outbound h k = w.outbound h k := h.image.accept_frame hk

theorem acceptToken_refused (target token : CString) :
    w.refused ⊆ (w.acceptToken h target token).refused := by
  simp only [InitWorld.acceptToken]
  split
  · exact List.Subset.refl _
  · exact List.subset_cons_self ..

theorem acceptInboundToken_caller (w : InitWorld σ τ) (caller token : CString) :
    (w.acceptInboundToken h caller token).inbound h caller = some token ∨
      (w.acceptInboundToken h caller token).inbound h caller = w.inbound h caller :=
  h.image.inbound_caller w.stores.image caller token

theorem lpTokenSave_target (w : InitWorld σ τ) (target token : CString) :
    (w.lpTokenSave h target token).outbound h target = some token ∨
      (w.lpTokenSave h target token).outbound h target = w.outbound h target :=
  (h.image.accept_target w.stores.image target token).imp_right And.right

theorem saveInboundToken_caller (w : InitWorld σ τ) (caller : String) (token : Token) :
    (w.saveInboundToken h caller token).2.hostInbound h caller = some token ∨
      (w.saveInboundToken h caller token).2.hostInbound h caller = w.hostInbound h caller := by
  simp only [InitWorld.hostInbound, InitWorld.saveInboundToken]
  by_cases hs : HostHandle.Stores ⟨w.hasLogosAPI, h.hasTokenManager⟩
  · rw [hostStore_of_stores hs]
    exact .inl (h.host.saved ..)
  · rw [hostStore_of_not_stores hs]
    exact .inr rfl

theorem saveInboundToken_of_ne {caller caller' : String} {token : Token} (hne : caller' ≠ caller) :
    (w.saveInboundToken h caller token).2.hostInbound h caller' = w.hostInbound h caller' := by
  simp only [InitWorld.hostInbound, InitWorld.saveInboundToken]
  by_cases hs : HostHandle.Stores ⟨w.hasLogosAPI, h.hasTokenManager⟩
  · rw [hostStore_of_stores hs]
    exact h.host.saved_frame hne
  · rw [hostStore_of_not_stores hs]

/-! What a step does to the books. -/

/-- A step that leaves the stores and the records of what was written to them. -/
structure StoresKept (h : InitHost σ τ) (w w' : InitWorld σ τ) : Prop where
  outbound : ∀ k, w'.outbound h k = w.outbound h k
  inbound : ∀ k, w'.inbound h k = w.inbound h k
  host : ∀ caller, w'.hostInbound h caller = w.hostInbound h caller
  informed : w'.informed = w.informed
  saved : w'.saved = w.saved
  refused : w'.refused = w.refused

theorem StoresKept.advance (hk : StoresKept h w w') (ha : w.asked ⊆ w'.asked) :
    Advance h w w' where
  seeded k _ hseeded := hseeded.mono (hk.outbound k) (hk.informed ▸ List.Subset.refl _)
    (hk.refused ▸ List.Subset.refl _)
  asked := ha
  informed := hk.informed ▸ List.Subset.refl _

theorem InitBooks.kept (hb : InitBooks h w₀ w) (hk : StoresKept h w w')
    (hc : w'.context.isSome = true → Prepared h w') : InitBooks h w₀ w' where
  outbound k := (hb.outbound k).mono (hk.outbound k) (hk.informed ▸ List.Subset.refl _)
    (hk.saved ▸ List.Subset.refl _)
  inbound k := (hb.inbound k).mono (hk.inbound k) (hk.informed ▸ List.Subset.refl _)
  host caller := by rw [hk.host, hk.informed]; exact hb.host caller
  saved := hk.saved ▸ hb.saved
  context := hc

/-- Through the outbound door go the host's token, under a role label, and below protocol 0.8
the tokens of callers. -/
inductive Outgoing (h : InitHost σ τ) (w : InitWorld σ τ) : CString → CString → Prop where
  | anchor {target : CString} : target ∈ bootstrapNames → h.authToken ≠ "" →
      Outgoing h w target (constData h.authToken)
  | caller {target token : CString} : inboundTokenGuard h.version = false →
      w.Delivered target token → Outgoing h w target token

theorem Outgoing.seeded {target token : CString} (ho : Outgoing h w target token)
    (he : w'.outbound h target = some token) (hi : w.informed ⊆ w'.informed) :
    Seeded h w' target := by
  cases ho with
  | anchor => exact .held he
  | caller hg hd => exact .overwritten hg (hd.mono hi) he

theorem Outgoing.outboundOrigin {target token : CString} (ho : Outgoing h w target token)
    (he : w'.outbound h target = some token) (hi : w.informed ⊆ w'.informed) :
    OutboundOrigin h w₀ w' target := by
  cases ho with
  | anchor hk htoken => exact .anchor hk htoken he
  | caller hg hd => exact .caller hg (hd.mono hi) he

/-- The door leaves the module's credential in place, whoever's token it is given. -/
theorem Outgoing.acceptToken_seeded {target token : CString} (ho : Outgoing h w target token) :
    Seeded h (w.acceptToken h target token) target := by
  obtain he | ⟨_, hr⟩ := acceptToken_target (h := h) w target token
  · exact ho.seeded he (List.Subset.refl _)
  · exact .refused hr

theorem Outgoing.advance {target token : CString} (ho : Outgoing h w target token) :
    Advance h w (w.acceptToken h target token) where
  seeded k _ hk := by
    by_cases he : k = target
    · subst k
      exact ho.acceptToken_seeded
    · exact hk.mono (acceptToken_of_ne he) (List.Subset.refl _) (acceptToken_refused ..)
  asked := List.Subset.refl _
  informed := List.Subset.refl _

theorem InitBooks.acceptToken (hb : InitBooks h w₀ w) {target token : CString}
    (ho : Outgoing h w target token) : InitBooks h w₀ (w.acceptToken h target token) where
  outbound k := by
    by_cases hk : k = target
    · subst k
      obtain he | ⟨he, _⟩ := acceptToken_target (h := h) w target token
      · exact ho.outboundOrigin he (List.Subset.refl _)
      · exact (hb.outbound target).mono he (List.Subset.refl _) (List.Subset.refl _)
    · exact (hb.outbound k).mono (acceptToken_of_ne hk) (List.Subset.refl _)
        (List.Subset.refl _)
  inbound _ := (hb.inbound _).mono (h.image.accept_inbound ..) (List.Subset.refl _)
  host := hb.host
  saved := hb.saved
  context hc := (hb.context hc).advance ho.advance

theorem acceptInboundToken_advance (caller token : CString) :
    Advance h w (w.acceptInboundToken h caller token) where
  seeded _ _ hk := hk.mono (h.image.inbound_outbound ..) (List.Subset.refl _)
    (List.Subset.refl _)
  asked := List.Subset.refl _
  informed := List.Subset.refl _

theorem InitBooks.acceptInboundToken (hb : InitBooks h w₀ w) {caller token : CString}
    (hg : inboundTokenGuard h.version = true) (hd : w.Delivered caller token) :
    InitBooks h w₀ (w.acceptInboundToken h caller token) where
  outbound _ := (hb.outbound _).mono (h.image.inbound_outbound ..) (List.Subset.refl _)
    (List.Subset.refl _)
  inbound k := by
    by_cases hk : k = caller
    · subst k
      obtain he | he := acceptInboundToken_caller (h := h) w caller token
      · exact .caller hg hd he
      · exact (hb.inbound caller).mono he (List.Subset.refl _)
    · exact (hb.inbound k).mono (h.image.inbound_frame _ _ _ hk) (List.Subset.refl _)
  host := hb.host
  saved := hb.saved
  context hc := (hb.context hc).advance (acceptInboundToken_advance caller token)

theorem saveInboundToken_advance (caller : String) (token : Token) :
    Advance h w (w.saveInboundToken h caller token).2 where
  seeded _ _ hk := hk.mono rfl (List.subset_cons_self ..) (List.Subset.refl _)
  asked := List.Subset.refl _
  informed := List.subset_cons_self ..

theorem InitBooks.saveInboundToken (hb : InitBooks h w₀ w) (caller : String) (token : Token) :
    InitBooks h w₀ (w.saveInboundToken h caller token).2 where
  outbound _ := (hb.outbound _).mono rfl (List.subset_cons_self ..) (List.Subset.refl _)
  inbound _ := (hb.inbound _).mono rfl (List.subset_cons_self ..)
  host caller' := by
    by_cases hfiled : caller' = caller ∧
        (w.saveInboundToken h caller token).2.hostInbound h caller' = some token
    · obtain ⟨rfl, he⟩ := hfiled
      exact .inr ⟨token, List.mem_cons_self .., he⟩
    · have hsame : (w.saveInboundToken h caller token).2.hostInbound h caller' =
          w.hostInbound h caller' := by
        by_cases hc : caller' = caller
        · subst caller'
          exact (saveInboundToken_caller w caller token).resolve_left fun he => hfiled ⟨rfl, he⟩
        · exact saveInboundToken_of_ne hc
      rw [hsame]
      obtain hold | ⟨token', hmem, he⟩ := hb.host caller'
      · exact .inl hold
      · exact .inr ⟨token', List.mem_cons_of_mem _ hmem, he⟩
  saved := hb.saved
  context hc := (hb.context hc).advance (saveInboundToken_advance caller token)

theorem lpTokenSave_advance {target : CString} (ht : target ∉ bootstrapNames) (token : CString) :
    Advance h w (w.lpTokenSave h target token) where
  seeded k hmem hk := by
    have hne : k ≠ target := by
      rintro rfl
      exact ht hmem
    exact hk.mono (h.image.accept_frame hne) (List.Subset.refl _) (List.Subset.refl _)
  asked := List.Subset.refl _
  informed := List.Subset.refl _

theorem InitBooks.lpTokenSave (hb : InitBooks h w₀ w) {target : CString}
    (ht : target ∉ bootstrapNames) (token : CString) :
    InitBooks h w₀ (w.lpTokenSave h target token) where
  outbound k := by
    by_cases hk : k = target
    · subst k
      obtain he | he := lpTokenSave_target (h := h) w target token
      · exact .client (List.mem_cons_self ..) he
      · exact (hb.outbound target).mono he (List.Subset.refl _) (List.subset_cons_self ..)
    · exact (hb.outbound k).mono (h.image.accept_frame hk) (List.Subset.refl _)
        (List.subset_cons_self ..)
  inbound _ := (hb.inbound _).mono (h.image.accept_inbound ..) (List.Subset.refl _)
  host := hb.host
  saved := by
    intro entry hmem
    obtain rfl | hold := List.mem_cons.1 hmem
    · exact ht
    · exact hb.saved entry hold
  context hc := (hb.context hc).advance (lpTokenSave_advance ht token)

/-- One step of one call: the books stay right, the call is where it says it is, and no other
call loses what it relies on. -/
theorem InitBooks.step (hb : InitBooks h w₀ w) (hκ : κ.Holds h w) {a : InitAction} {r : a.Ans}
    (hm : Move h κ a r κ') (he : initExec h t w a r w') :
    InitBooks h w₀ w' ∧ Advance h w w' ∧ κ'.Holds h w' := by
  have hkept {w' : InitWorld σ τ} (hk : StoresKept h w w') (ha : w'.asked = w.asked)
      (hc : w'.context = w.context) (hκ' : κ.Holds h w' → κ'.Holds h w') :
      InitBooks h w₀ w' ∧ Advance h w w' ∧ κ'.Holds h w' := by
    have hadv := hk.advance (ha ▸ List.Subset.refl _)
    exact ⟨hb.kept hk fun hc' => (hb.context (hc ▸ hc')).advance hadv, hadv,
      hκ' (hκ.advance hadv)⟩
  have hsame : StoresKept h w w := ⟨fun _ => rfl, fun _ => rfl, fun _ => rfl, rfl, rfl, rfl⟩
  cases hm with
  | attach =>
    obtain rfl := he
    exact hkept ⟨fun _ => rfl, fun _ => rfl, fun _ => rfl, rfl, rfl, rfl⟩ rfl rfl id
  | seedCore =>
    obtain ⟨_, rfl⟩ := he
    have ho : Outgoing h w (constData "core") (constData h.authToken) :=
      .anchor (List.mem_cons_self ..) hκ
    exact ⟨hb.acceptToken ho, ho.advance, hκ, ho.acceptToken_seeded⟩
  | seedCapability =>
    obtain ⟨_, rfl⟩ := he
    have ho : Outgoing h w (constData "capability_module") (constData h.authToken) :=
      .anchor (List.mem_cons_of_mem _ (List.mem_cons_self ..)) hκ.1
    refine ⟨hb.acceptToken ho, ho.advance, ?_⟩
    have hseeded : ∀ k ∈ bootstrapNames, Seeded h
        (w.acceptToken h (constData "capability_module") (constData h.authToken)) k := by
      intro k hk
      obtain rfl | hk := List.mem_cons.1 hk
      · exact ho.advance.seeded _ (List.mem_cons_self ..) hκ.2
      · obtain rfl := List.mem_singleton.1 hk
        exact ho.acceptToken_seeded
    cases hasks : h.asksServices with
    | false => exact ⟨fun _ => hseeded, fun hask => absurd (hasks.symm.trans hask) nofun⟩
    | true => exact fun _ => hseeded
  | grant =>
    obtain rfl := he
    have hk : StoresKept h w { w with asked := constData h.hostServices :: w.asked } :=
      ⟨fun _ => rfl, fun _ => rfl, fun _ => rfl, rfl, rfl, rfl⟩
    have hadv := hk.advance (List.subset_cons_self ..)
    refine ⟨hb.kept hk fun hc => (hb.context hc).advance hadv, hadv, ?_⟩
    exact ⟨fun htoken k hmem => hadv.seeded k hmem (hκ htoken k hmem),
      fun _ => List.mem_cons_self ..⟩
  | warn | storeCallback =>
    obtain rfl := he
    exact hkept hsame rfl rfl id
  | context path instanceId persistence =>
    obtain rfl := he
    have hk : StoresKept h w { w with context := some (path, instanceId, persistence) } :=
      ⟨fun _ => rfl, fun _ => rfl, fun _ => rfl, rfl, rfl, rfl⟩
    have hadv := hk.advance (List.Subset.refl _)
    exact ⟨hb.kept hk fun _ => Prepared.advance hκ hadv, hadv, trivial⟩
  | informHost moduleName token =>
    obtain ⟨_, rfl⟩ := Prod.mk.inj he
    exact ⟨hb.saveInboundToken .., saveInboundToken_advance .., List.mem_cons_self ..⟩
  | inboundDoor _ _ _ hg =>
    obtain ⟨_, rfl⟩ := he
    exact ⟨hb.acceptInboundToken hg ⟨_, hκ, rfl, rfl⟩, acceptInboundToken_advance .., trivial⟩
  | outboundDoor _ _ _ hg =>
    obtain ⟨_, rfl⟩ := he
    have ho : Outgoing h w _ _ := .caller hg ⟨_, hκ, rfl, rfl⟩
    exact ⟨hb.acceptToken ho, ho.advance, trivial⟩
  | save =>
    obtain rfl := he
    exact ⟨hb.lpTokenSave hκ _, lpTokenSave_advance hκ _, trivial⟩
  | setEmit =>
    obtain rfl := he
    exact hkept ⟨fun _ => rfl, fun _ => rfl, fun _ => rfl, rfl, rfl, rfl⟩ rfl rfl id

theorem InitInvariant.run (hI : InitInvariant h w₀ w φ) (hφ : φ t = κ :: κs) {a : InitAction}
    {r : a.Ans} (hm : Move h κ a r κ') (he : initExec h t w a r w') :
    InitInvariant h w₀ w' (Function.update φ t (κ' :: κs)) := by
  have hκ : κ.Holds h w := hI.holds t κ (hφ ▸ List.mem_cons_self ..)
  obtain ⟨hb, hadv, hκ'⟩ := hI.books.step hκ hm he
  refine ⟨hb, fun u κ₁ hκ₁ => ?_⟩
  obtain ⟨_, hself⟩ | ⟨_, hother⟩ := mem_update hκ₁
  · obtain rfl | hrest := List.mem_cons.1 hself
    · exact hκ'
    · exact (hI.holds t κ₁ (hφ ▸ List.mem_cons_of_mem _ hrest)).advance hadv
  · exact (hI.holds u κ₁ hother).advance hadv

theorem InitInvariant.leave (hI : InitInvariant h w₀ w φ) (hφ : φ t = κ :: κs) :
    InitInvariant h w₀ w (Function.update φ t κs) := by
  refine ⟨hI.books, fun u κ₁ hκ₁ => ?_⟩
  obtain ⟨_, hrest⟩ | ⟨_, hother⟩ := mem_update hκ₁
  · exact hI.holds t κ₁ (hφ ▸ List.mem_cons_of_mem _ hrest)
  · exact hI.holds u κ₁ hother

theorem InitInvariant.push (hI : InitInvariant h w₀ w φ) (hκ : κ.Holds h w) :
    InitInvariant h w₀ w (Function.update φ t (κ :: φ t)) := by
  refine ⟨hI.books, fun u κ₁ hκ₁ => ?_⟩
  obtain ⟨_, hself⟩ | ⟨_, hother⟩ := mem_update hκ₁
  · obtain rfl | hrest := List.mem_cons.1 hself
    · exact hκ
    · exact hI.holds t κ₁ hrest
  · exact hI.holds u κ₁ hother

theorem initial_holds (h : InitHost σ τ) (w : InitWorld σ τ) : (initial h).Holds h w := by
  unfold InitPhase.initial
  by_cases htoken : h.authToken = ""
  · rw [if_pos htoken]
    cases hasks : h.asksServices with
    | false =>
      exact ⟨fun hne => absurd htoken hne, fun hask => absurd (hasks.symm.trans hask) nofun⟩
    | true => exact fun hne => absurd htoken hne
  · rw [if_neg htoken]
    exact htoken

theorem InitEnter.follows {p : InitProg Unit} (he : InitEnter h w p) :
    ∃ κ, Follows (next h) (fun _ κ => κ.mayReturn) p κ ∧ κ.Holds h w := by
  cases he with
  | init => exact ⟨initial h, init_follows, initial_holds h w⟩
  | setEventListener => exact ⟨.listening, setEventListener_follows, trivial⟩
  | informModuleToken moduleName token =>
    exact ⟨.informing moduleName token, informModuleToken_follows moduleName token, trivial⟩
  | lpTokenSave target token ht => exact ⟨.saving target, lpTokenSave_follows target token, ht⟩

theorem init_invariant (h : InitHost σ τ) (w₀ : InitWorld σ τ) :
    PhaseInvariant (initSystem h) (next h) (fun _ κ => κ.mayReturn) (InitInvariant h w₀) where
  run hI hφ he hn := hI.run hφ (next_move hn) he
  leave hI hφ _ := hI.leave hφ
  enter hI hφ he := by
    obtain ⟨he, rfl⟩ := he
    obtain ⟨κ, hf, hκ⟩ := he.follows
    refine ⟨κ, hf, ?_⟩
    rw [← hφ]
    exact hI.push hκ
  nest hI _ _ he := by
    obtain ⟨he, rfl⟩ := he
    obtain ⟨κ, hf, hκ⟩ := he.follows
    exact ⟨κ, hf, hI.push hκ⟩

def InitWorld.start (stores : TwoImages σ τ) : InitWorld σ τ := { stores := stores }

theorem init_reachable {stores : TwoImages σ τ} {c : Config InitAction.Ans Unit (InitWorld σ τ)}
    (hr : Reachable (initSystem h) (.start stores) c) :
    InitBooks h (.start stores) c.shared := by
  have h₀ : InitInvariant h (.start stores) (.start stores) fun _ => [] :=
    ⟨⟨fun _ => .initial rfl, fun _ => .initial rfl, fun _ => .inl rfl, nofun, nofun⟩, nofun⟩
  obtain ⟨φ, _, hI⟩ := (init_invariant h _).reachable h₀ hr
  exact hI.books

def ImageStores.tables : ImageStores ((CString → Option CString) × (CString → Option CString)) where
  inbound s caller := s.1 caller
  fileInbound s caller token := (Function.update s.1 caller (some token), s.2)
  inboundDoor _ _ _ := (0, true)
  logosModuleAcceptToken s target token := (0, (s.1, Function.update s.2 target (some token)))
  filed _ _ _ := Function.update_self ..
  filed_again := fun {s caller token} (h : s.1 caller = some token) => by
    rw [← h, Function.update_eq_self]
  accepted _ := rfl
  outbound s target := s.2 target
  accept_target _ _ _ := .inl (Function.update_self ..)
  accept_frame hk := Function.update_of_ne hk ..
  accept_inbound _ _ _ _ := rfl
  filed_frame hk := Function.update_of_ne hk ..
  filed_outbound _ _ _ _ := rfl

def InitHost.tables (version : Nat × Nat) : InitHost (String → Option Token)
    ((CString → Option CString) × (CString → Option CString)) where
  version := version
  moduleName := "probe"
  host := { InboundStore.table with saved_frame := fun hk => Function.update_of_ne hk .. }
  image := .tables
  api := some ⟨"anchor", "[]", "/m", "i", "/p"⟩
  hasTokenManager := true

def emptyImages : TwoImages (String → Option Token)
    ((CString → Option CString) × (CString → Option CString)) :=
  ⟨fun _ => none, fun _ => none, fun _ => none⟩

/-- Wherever the module has its context, and so may act, it presents its host's token under both
role labels, unless a door refused it or, below protocol 0.8, a caller of that name has taken its
place; and its host services have been asked for, from protocol 0.3 on. -/
theorem context_prepared {stores : TwoImages σ τ}
    {c : Config InitAction.Ans Unit (InitWorld σ τ)}
    (hr : Reachable (initSystem h) (.start stores) c) (hc : c.shared.context.isSome = true) :
    (h.authToken ≠ "" → ∀ k ∈ bootstrapNames,
      c.shared.outbound h k = some (constData h.authToken) ∨ k ∈ c.shared.refused ∨
        (inboundTokenGuard h.version = false ∧
          ∃ token, c.shared.Delivered k token ∧ c.shared.outbound h k = some token)) ∧
    (h.hostServicesGuard = true → h.hostServices ≠ "" →
      constData h.hostServices ∈ c.shared.asked) := by
  have hp := (init_reachable hr).context hc
  refine ⟨fun htoken k hk => ?_, fun h3 hservices => hp.asked ?_⟩
  · cases hp.seeded htoken k hk with
    | held he => exact .inl he
    | refused hmem => exact .inr (.inl hmem)
    | overwritten hold hd he => exact .inr (.inr ⟨hold, _, hd, he⟩)
  · rw [InitHost.asksServices, h3, Bool.true_and, bne_iff_ne]
    exact hservices

theorem seedTokens_runs (h : InitHost σ τ) (t : Nat) (w : InitWorld σ τ) :
    ∃ w', Runs (initExec h t) w (GlueInit.seedTokens h) () w' := by
  unfold GlueInit.seedTokens
  split
  · exact ⟨w, .ret _ _⟩
  · exact ⟨_, .act ⟨rfl, rfl⟩ (.act ⟨rfl, rfl⟩ (.ret _ _))⟩

theorem forwardHostServices_runs (h : InitHost σ τ) (t : Nat) (w : InitWorld σ τ) :
    ∃ w', Runs (initExec h t) w (GlueInit.forwardHostServices h) () w' := by
  unfold GlueInit.forwardHostServices
  split
  · exact ⟨w, .ret _ _⟩
  · exact ⟨_, .act (r := (0 : Int)) rfl (.ret _ _)⟩

theorem init_runs {api : ApiProperties} (hapi : h.api = some api) (t : Nat)
    (w : InitWorld σ τ) :
    ∃ w', Runs (initExec h t) w (GlueInit.init h) () w' ∧ w'.context.isSome = true := by
  obtain ⟨w₁, h₁⟩ := seedTokens_runs h t { w with hasLogosAPI := h.api.isSome }
  obtain ⟨w₂, h₂⟩ := forwardHostServices_runs h t w₁
  have hinit : GlueInit.onInit h = GlueInit.seedTokens h >>= fun _ =>
      GlueInit.forwardHostServices h >>= fun _ => GlueInit.forwardContext api := by
    rw [GlueInit.onInit, hapi]
  refine ⟨{ w₂ with context := some (constData api.modulePath, constData api.instanceId,
    constData api.instancePersistencePath) }, .act (r := ()) rfl ?_, rfl⟩
  show Runs (initExec h t) _ (GlueInit.onInit h) () _
  rw [hinit]
  exact runs_bind.2 ⟨(), w₁, h₁, runs_bind.2 ⟨(), w₂, h₂, .act (r := ()) rfl (.ret _ _)⟩⟩

theorem context_prepared_tables : ∃ w : InitWorld (String → Option Token)
      ((CString → Option CString) × (CString → Option CString)),
    w.context.isSome = true ∧
    (∀ k ∈ bootstrapNames, w.outbound (.tables (0, 8)) k = some (constData "anchor") ∨
      k ∈ w.refused) ∧
    constData "[]" ∈ w.asked := by
  obtain ⟨w, hrun, hcontext⟩ := init_runs (h := .tables (0, 8)) rfl 0 (.start emptyImages)
  have hr := (Reachable.refl (initSystem (.tables (0, 8))) (.start emptyImages)).call (t := 0)
    rfl ⟨.init, rfl⟩ hrun
  obtain ⟨hseeded, hasked⟩ := context_prepared hr hcontext
  refine ⟨w, hcontext, fun k hk => ?_, hasked rfl (by decide)⟩
  obtain hheld | hrefused | ⟨hold, _⟩ := hseeded (by decide) k hk
  · exact .inl hheld
  · exact .inr hrefused
  · cases hold

end

end LogosPluginQt
