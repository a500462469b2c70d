import LogosPluginQt.ConsumerProvenance

namespace LogosPluginQt
open Interleaving ConsumerProg ConsumerPhase ConsumerWorld
set_option autoImplicit true

section
variable {σ : Type} (tm : TokenManager σ) (identity : Identity)

/-- What the logs say at any time: a call mints once, no value is minted twice, and a
credential is minted, then accepted, then adopted. -/
structure Ledger (w : ConsumerWorld σ) : Prop where
  calls : (w.minted.map Registration.call).Nodup
  credentials : (w.minted.map Registration.credential).Nodup
  accepted : ∀ a ∈ w.accepted, a ∈ w.minted ∧ a.identity = identity
  adopted : ∀ a ∈ w.adopted, a ∈ w.accepted

/-- What call `t` may rely on in its phase, whatever the other calls do. -/
def ConsumerPhase.Owes (t : Nat) (w : ConsumerWorld σ) : ConsumerPhase → Prop
  | .start i => i = identity ∧ ∀ a ∈ w.minted, a.call ≠ t
  | .minting i => i = identity ∧ tm.isIsolated w.tokens i = true ∧ ∀ a ∈ w.minted, a.call ≠ t
  | .minted i c => i = identity ∧ tm.isIsolated w.tokens i = true ∧
      c ≠ tm.hostAnchor w.tokens ∧ ⟨t, i, c⟩ ∈ w.minted
  | .registered i c | .cleared i c => i = identity ∧ tm.isIsolated w.tokens i = true ∧
      c ≠ tm.hostAnchor w.tokens ∧ ⟨t, i, c⟩ ∈ w.accepted
  | .finished ok => ok = true → ∃ a ∈ w.adopted, a.call = t
  | .logged => True
  | .adopting | .exchanging _ _ | .done => False

/-- What the other calls see of a move of call `t`. -/
structure MovedBy (t : Nat) (w w' : ConsumerWorld σ) : Prop where
  isolated : ∀ i, tm.isIsolated w.tokens i = true → tm.isIsolated w'.tokens i = true
  anchor : tm.hostAnchor w'.tokens = tm.hostAnchor w.tokens
  minted : ∀ a ∈ w.minted, a ∈ w'.minted
  others : ∀ a ∈ w'.minted, a.call ≠ t → a ∈ w.minted
  accepted : ∀ a ∈ w.accepted, a ∈ w'.accepted
  adopted : ∀ a ∈ w.adopted, a ∈ w'.adopted
  results : ∀ x ∈ w'.results, x.1 ≠ t → x ∈ w.results
  started : w'.started = w.started

variable {tm identity} {w w' : ConsumerWorld σ} {κ κ' : ConsumerPhase} {t u : Nat}

variable (tm) in
theorem MovedBy.refl (t : Nat) (w : ConsumerWorld σ) : MovedBy tm t w w where
  isolated _ := id
  anchor := rfl
  minted _ := id
  others _ h _ := h
  accepted _ := id
  adopted _ := id
  results _ h _ := h
  started := rfl

theorem MovedBy.withTokens {s : σ}
    (hi : ∀ i, tm.isIsolated w.tokens i = true → tm.isIsolated s i = true)
    (ha : tm.hostAnchor s = tm.hostAnchor w.tokens) : MovedBy tm t w (w.withTokens s) :=
  { MovedBy.refl tm t w with isolated := hi, anchor := ha }

theorem ConsumerPhase.Owes.frame (h : κ.Owes tm identity u w) (hm : MovedBy tm t w w')
    (hu : u ≠ t) : κ.Owes tm identity u w' := by
  have hfresh (hmint : ∀ a ∈ w.minted, a.call ≠ u) : ∀ a ∈ w'.minted, a.call ≠ u := by
    intro a ha hau
    exact hmint a (hm.others a ha (hau ▸ hu)) hau
  cases κ with
  | start i => exact ⟨h.1, hfresh h.2⟩
  | minting i => exact ⟨h.1, hm.isolated i h.2.1, hfresh h.2.2⟩
  | minted i c => exact ⟨h.1, hm.isolated i h.2.1, hm.anchor ▸ h.2.2.1, hm.minted _ h.2.2.2⟩
  | registered i c | cleared i c =>
    exact ⟨h.1, hm.isolated i h.2.1, hm.anchor ▸ h.2.2.1, hm.accepted _ h.2.2.2⟩
  | finished ok =>
    intro hok
    obtain ⟨a, ha, hau⟩ := h hok
    exact ⟨a, hm.adopted a ha, hau⟩
  | logged => trivial
  | adopting | exchanging | done => cases h

variable (tm identity) in
/-- What one move of call `t` does to the logs, to its own phase and to the store. -/
structure Effect (t : Nat) (κ κ' : ConsumerPhase) (w w' : ConsumerWorld σ) : Prop where
  moved : MovedBy tm t w w'
  ledger : Ledger identity w'
  owes : κ'.Owes tm identity t w'
  results : ∀ ok, (t, ok) ∈ w'.results → (t, ok) ∈ w.results ∨
    κ' = .logged ∧ (ok = true → ∃ a ∈ w'.adopted, a.call = t)
  token : (∃ c, κ' = .cleared identity c) ∨
    (∃ a, w'.adopted.head? = some a ∧ ∀ k ∈ tm.bootstrapKeys,
      tm.getToken w'.tokens (.isolated identity) k = a.credential) ∨
    w'.adopted = w.adopted ∧ (∀ c, κ ≠ .cleared identity c) ∧ ∀ k ∈ tm.bootstrapKeys,
      tm.getToken w'.tokens (.isolated identity) k = tm.getToken w.tokens (.isolated identity) k

theorem Effect.keep {s : σ} (hl : Ledger identity w)
    (hi : ∀ i, tm.isIsolated w.tokens i = true → tm.isIsolated s i = true)
    (ha : tm.hostAnchor s = tm.hostAnchor w.tokens)
    (ht : ∀ k, tm.getToken s (.isolated identity) k =
      tm.getToken w.tokens (.isolated identity) k)
    (hκ : ∀ c, κ ≠ .cleared identity c) (ho : κ'.Owes tm identity t (w.withTokens s)) :
    Effect tm identity t κ κ' w (w.withTokens s) where
  moved := .withTokens hi ha
  ledger := { hl with }
  owes := ho
  results _ h := .inl h
  token := .inr (.inr ⟨rfl, hκ, fun k _ => ht k⟩)

theorem Effect.mint (hl : Ledger identity w) (ho : (minting i).Owes tm identity t w)
    (hc : w.Fresh tm c) :
    Effect tm identity t (.minting i) (.minted i c) w (w.mint ⟨t, i, c⟩) where
  moved := { MovedBy.refl tm t w with
    minted := fun _ => List.mem_cons_of_mem _
    others := by
      intro a ha hat
      obtain rfl | ha := List.mem_cons.1 ha
      · exact absurd rfl hat
      · exact ha }
  ledger :=
    { calls := List.nodup_cons.2 ⟨fun hm => by
        obtain ⟨a, ha, hat⟩ := List.mem_map.1 hm
        exact ho.2.2 a ha hat, hl.calls⟩
      credentials := List.nodup_cons.2 ⟨fun hm => by
        obtain ⟨a, ha, hac⟩ := List.mem_map.1 hm
        exact hc.2.2 a ha hac, hl.credentials⟩
      accepted := fun a ha => ⟨List.mem_cons_of_mem _ (hl.accepted a ha).1, (hl.accepted a ha).2⟩
      adopted := hl.adopted }
  owes := ⟨ho.1, ho.2.1, hc.2.1, List.mem_cons_self ..⟩
  results _ h := .inl h
  token := .inr (.inr ⟨rfl, nofun, fun _ _ => rfl⟩)

theorem Effect.register (hl : Ledger identity w) (ho : (minted i c).Owes tm identity t w) :
    Effect tm identity t (.minted i c) (.registered i c) w (w.accept ⟨t, i, c⟩) where
  moved := { MovedBy.refl tm t w with accepted := fun _ => List.mem_cons_of_mem _ }
  ledger := { hl with
    accepted := List.forall_mem_cons.2 ⟨⟨ho.2.2.2, ho.1⟩, hl.accepted⟩
    adopted := fun a ha => List.mem_cons_of_mem _ (hl.adopted a ha) }
  owes := ⟨ho.1, ho.2.1, ho.2.2.1, List.mem_cons_self ..⟩
  results _ h := .inl h
  token := .inr (.inr ⟨rfl, nofun, fun _ _ => rfl⟩)

theorem Effect.reset (hl : Ledger identity w) (ho : (registered i c).Owes tm identity t w) :
    Effect tm identity t (.registered i c) (.cleared i c) w
      (w.withTokens (tm.resetIdentity w.tokens i)) where
  moved := .withTokens (fun _ hj => (tm.reset_isolated _ _ _).trans hj) (tm.reset_anchor _ _)
  ledger := { hl with }
  owes := ⟨ho.1, (tm.reset_isolated _ _ _).trans ho.2.1, (tm.reset_anchor _ i).symm ▸ ho.2.2.1,
    ho.2.2.2⟩
  results _ h := .inl h
  token := .inl ⟨c, ho.1 ▸ rfl⟩

/-- Adoption cannot fail, whatever other calls have done to the store meanwhile. -/
theorem Effect.adopt (hl : Ledger identity w) (ho : (registered i c).Owes tm identity t w)
    {r : Bool} (he : consumerExec tm t w (.adoptCredentialFor i c) r w') :
    Effect tm identity t κ (.finished r) w w' := by
  have hadopt := adoptCredentialFor_fresh ho.2.1 ho.2.2.1
  obtain ⟨hr, he⟩ := he
  obtain rfl : r = true := hr.trans hadopt
  rw [if_pos rfl] at he
  subst he
  exact
    { moved := { MovedBy.refl tm t w with
        isolated := fun j hj => (tm.adoptFor_isolated _ _ _ _).trans hj
        anchor := tm.adoptFor_anchor _ _ _
        adopted := fun _ => List.mem_cons_of_mem _ }
      ledger := { hl with adopted := List.forall_mem_cons.2 ⟨ho.2.2.2, hl.adopted⟩ }
      owes := fun _ => ⟨_, List.mem_cons_self .., rfl⟩
      results := fun _ h => .inl h
      token := .inr (.inl ⟨_, rfl, fun k hk =>
        (tm.adoptFor_token hadopt _ k).trans (if_pos ⟨ho.1 ▸ rfl, hk⟩)⟩) }

theorem finished_of_mayReturn (h : κ.mayReturn true = true) (ho : κ.Owes tm identity t w) :
    κ = .finished true := by
  cases κ with
  | finished ok =>
    cases ok with
    | true => rfl
    | false => cases h
  | adopting | exchanging | done => cases ho
  | _ => cases h

theorem Effect.log (hl : Ledger identity w) (ho : κ.Owes tm identity t w) {ok : Bool}
    (hok : κ.mayReturn ok = true) : Effect tm identity t κ .logged w (w.log t ok) where
  moved := { MovedBy.refl tm t w with
    results := by
      intro x hx hxt
      obtain rfl | hx := List.mem_cons.1 hx
      · exact absurd rfl hxt
      · exact hx }
  ledger := { hl with }
  owes := trivial
  results ok' h := by
    obtain he | h := List.mem_cons.1 h
    · refine .inr ⟨rfl, ?_⟩
      rintro rfl
      obtain rfl : true = ok := (Prod.ext_iff.1 he).2
      obtain rfl := finished_of_mayReturn hok ho
      exact ho rfl
    · exact .inl h
  token := by
    refine .inr (.inr ⟨rfl, ?_, fun _ _ => rfl⟩)
    rintro c rfl
    cases hok

theorem Effect.of_move {a : ConsumerAction} {r : a.Ans} (hl : Ledger identity w)
    (ho : κ.Owes tm identity t w) (hm : Move κ a r κ') (he : consumerExec tm t w a r w') :
    Effect tm identity t κ κ' w w' := by
  cases hm with
  | isolate i r =>
    obtain ⟨hr, rfl⟩ := he
    cases r with
    | false =>
      rw [tm.isolate_refused hr.symm]
      exact .keep hl (fun _ => id) rfl (fun _ => rfl) nofun ho
    | true =>
      have hi := tm.isolate_isolated hr.symm
      refine .keep hl (fun j hj => ?_) (tm.isolate_anchor _ _) (tm.isolate_token _ _ _) nofun
        ⟨ho.1, ?_, ho.2⟩
      · rw [hi, hj, Bool.true_or]
      · refine (hi i).trans ?_
        simp only [decide_true, Bool.or_true]
  | isolated i r =>
    obtain ⟨hr, rfl⟩ := he
    cases r with
    | false => exact .keep hl (fun _ => id) rfl (fun _ => rfl) nofun ho
    | true => exact .keep hl (fun _ => id) rfl (fun _ => rfl) nofun ⟨ho.1, hr.symm, ho.2⟩
  | mint i c =>
    obtain ⟨hc, rfl⟩ := he
    exact .mint hl ho hc
  | client =>
    obtain rfl := he
    exact .keep hl (fun _ => id) rfl (fun _ => rfl) nofun ho
  | hostToken =>
    obtain rfl := he.2
    exact .keep hl (fun _ => id) rfl (fun _ => rfl) nofun ho
  | register i c token r =>
    obtain rfl := he
    cases r with
    | false => exact .keep hl (fun _ => id) rfl (fun _ => rfl) nofun ho
    | true => exact .register hl ho
  | reset i c r =>
    obtain rfl := he
    exact .reset hl ho
  | adopt i c r => exact .adopt hl ho he
  | readopt i c r => exact .adopt hl ho he
  | adoptRing => cases ho
  | exchange => cases ho
  | log κ ok r hok =>
    obtain rfl := he
    exact .log hl ho hok

end

end LogosPluginQt
